import StatusNetwork.Security.Pausing
import StatusNetwork.Security.RateLimiter

/-!
# Messages between the chains

What the message services of both chains share: messages and their hashes, the call a contract
executes, and what it reverts with. The 32-byte words that hashes are made of are a type `D`, whose
zero is the empty hash; the hash functions are parameters.
-/

namespace StatusNetwork.Messaging

open Security (Address)

abbrev Bytes := List UInt8

structure Message where
  sender : Address
  destination : Address
  fee : Nat
  value : Nat
  messageNumber : Nat
  data : Bytes
  deriving DecidableEq

/-- `EfficientLeftRightKeccak` and `MessageHashing`. -/
structure Hashing (D : Type) where
  efficientKeccak : D → D → D
  hashMessage : Message → D

/-- `msg.sender`, `msg.value` and `block.timestamp`, which is far below the largest number. -/
structure Env where
  sender : Address
  value : Nat
  now : Nat
  now_lt : now + Security.PAUSE_DURATION + Security.COOLDOWN_DURATION < Security.MAX_UINT256

inductive InboxStatus
  | unknown
  | received
  | claimed
  deriving DecidableEq

inductive Revert (D : Type)
  | security (e : Security.Revert)
  | arithmetic (e : Checked.ArithError)
  | reentrantCall
  | notEntered
  | zeroAddressNotAllowed
  | valueSentTooLow
  | messageAlreadyClaimed (messageNumber : Nat)
  | messageDoesNotExistOrHasAlreadyBeenClaimed (messageHash : D)
  | l2MerkleRootAlreadyAnchored (merkleRoot : D)
  | bytesLengthNotMultipleOfTwo (length : Nat)
  | l2MerkleRootDoesNotExist
  | proofLengthDifferentThanMerkleDepth (actual expected : Nat)
  | safeCastOverflowedUintDowncast (bits value : Nat)
  | leafIndexOutOfBounds (leafIndex maxAllowedIndex : Nat)
  | invalidMerkleProof
  | messageSendingFailed (destination : Address)
  | feePaymentFailed (recipient : Address)
  | lstWithdrawalRequiresDeficit
  | callerNotLSTWithdrawalRecipient
  | noEthSent
  | callerIsNotYieldManager
  | messageHashesListLengthIsZero
  | messageHashesListLengthHigherThanOneHundred (length : Nat)
  | finalRollingHashIsZero
  | l1MessageNumberSynchronizationWrong (expected found : Nat)
  | l1RollingHashSynchronizationWrong (expected found : D)
  deriving DecidableEq

abbrev add {D : Type} := Checked.add (Revert.arithmetic (D := D))

end StatusNetwork.Messaging
