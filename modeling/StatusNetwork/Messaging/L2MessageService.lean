import StatusNetwork.Messaging.Message

/-!
# The inbox on L2

Models `L2MessageManager.sol` and `L2MessageManagerV1.sol`. The message setter anchors the hashes
of messages from L1, together with the rolling hash that they must lead to; hashes that are in the
inbox already are skipped and not counted.
-/

namespace StatusNetwork.Messaging

open Security (Role Pausing)

def L1_L2_MESSAGE_SETTER_ROLE : Role :=
  .named 0x4705265620026983c754c5288b65446d794a03174326ec6d7c0b5c7f1fd67415

structure L2MessageService (D : Type) where
  security : Pausing
  inboxL1L2MessageStatus : D → InboxStatus
  lastAnchoredL1MessageNumber : Nat
  l1RollingHashes : Nat → D

namespace L2MessageService

variable {D : Type} [DecidableEq D] [Zero D] (H : Hashing D)

def Initial (s : L2MessageService D) : Prop :=
  s.inboxL1L2MessageStatus = (fun _ => .unknown) ∧ s.lastAnchoredL1MessageNumber = 0 ∧
    s.l1RollingHashes = fun _ => 0

structure Anchoring (D : Type) where
  inboxL1L2MessageStatus : D → InboxStatus
  rollingHash : D
  currentL1MessageNumber : Nat

def anchorMessageHash (a : Anchoring D) (messageHash : D) : Except (Revert D) (Anchoring D) :=
  if a.inboxL1L2MessageStatus messageHash = .unknown then do
    let currentL1MessageNumber ← add a.currentL1MessageNumber 1
    .ok {
      inboxL1L2MessageStatus := Function.update a.inboxL1L2MessageStatus messageHash .received
      rollingHash := H.efficientKeccak a.rollingHash messageHash
      currentL1MessageNumber }
  else .ok a

variable (s : L2MessageService D)

def anchorL1L2MessageHashes (e : Env) (messageHashes : List D)
    (startingMessageNumber finalMessageNumber : Nat) (finalRollingHash : D) :
    Except (Revert D) (L2MessageService D) := do
  (s.security.manager.requireTypeNotPaused .general).mapError .security
  (s.security.roles.onlyRole L1_L2_MESSAGE_SETTER_ROLE e.sender).mapError .security
  failIf (messageHashes.length = 0) .messageHashesListLengthIsZero
  failIf (messageHashes.length > 100)
    (.messageHashesListLengthHigherThanOneHundred messageHashes.length)
  failIf (finalRollingHash = 0) .finalRollingHashIsZero
  let before ← Checked.sub .arithmetic startingMessageNumber 1
  failIf (before ≠ s.lastAnchoredL1MessageNumber)
    (.l1MessageNumberSynchronizationWrong before s.lastAnchoredL1MessageNumber)
  let a ← messageHashes.foldlM (anchorMessageHash H) {
    inboxL1L2MessageStatus := s.inboxL1L2MessageStatus
    rollingHash := s.l1RollingHashes s.lastAnchoredL1MessageNumber
    currentL1MessageNumber := s.lastAnchoredL1MessageNumber }
  failIf (a.currentL1MessageNumber ≠ finalMessageNumber)
    (.l1MessageNumberSynchronizationWrong finalMessageNumber a.currentL1MessageNumber)
  failIf (finalRollingHash ≠ a.rollingHash)
    (.l1RollingHashSynchronizationWrong finalRollingHash a.rollingHash)
  let s := { s with inboxL1L2MessageStatus := a.inboxL1L2MessageStatus }
  if a.currentL1MessageNumber ≠ s.lastAnchoredL1MessageNumber then
    .ok { s with
      lastAnchoredL1MessageNumber := a.currentL1MessageNumber
      l1RollingHashes := Function.update s.l1RollingHashes a.currentL1MessageNumber a.rollingHash }
  else .ok s

def claimMessage (message : Message) : Except (Revert D) (L2MessageService D) := do
  (s.security.manager.requireTypeAndGeneralNotPaused .l1L2).mapError .security
  let messageHash := H.hashMessage message
  failIf (s.inboxL1L2MessageStatus messageHash ≠ .received)
    (.messageDoesNotExistOrHasAlreadyBeenClaimed messageHash)
  .ok { s with
    inboxL1L2MessageStatus := Function.update s.inboxL1L2MessageStatus messageHash .claimed }

inductive Call (D : Type)
  | secure (action : Pausing.Action)
  | anchorL1L2MessageHashes (messageHashes : List D)
      (startingMessageNumber finalMessageNumber : Nat) (finalRollingHash : D)
  | claimMessage (message : Message)

structure Tx (D : Type) where
  env : Env
  call : Call D

def apply (tx : Tx D) : Except (Revert D) (L2MessageService D) :=
  match tx.call with
  | .secure action =>
    ((s.security.apply ⟨tx.env.sender, tx.env.now, tx.env.now_lt, action⟩).mapError .security).map
      fun security => { s with security }
  | .anchorL1L2MessageHashes messageHashes startingMessageNumber finalMessageNumber
      finalRollingHash =>
    s.anchorL1L2MessageHashes H tx.env messageHashes startingMessageNumber finalMessageNumber
      finalRollingHash
  | .claimMessage message => s.claimMessage H message

end L2MessageService

end StatusNetwork.Messaging
