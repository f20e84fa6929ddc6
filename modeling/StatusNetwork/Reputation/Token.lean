import StatusNetwork.Base.Balances
import StatusNetwork.Base.Checkpoints
import StatusNetwork.Staking.StakeManager

/-!
# The Karma token

Models `ERC20VotesUpgradeable.sol` with the OpenZeppelin ERC20 below it, and the functions of
`Karma.sol` that call no reward distributor. The hooks of the token read and write actual
balances only; virtual Karma is added where balances and supply are reported.
-/

namespace StatusNetwork.Reputation

open Staking (Address)

-- Errors

inductive KarmaError
  | invalidAddress
  | transfersNotAllowed
  | distributorAlreadyAdded
  | unknownDistributor
  | unauthorized
  | invalidSlashPercentage
  | invalidSlashRewardPercentage
  | cannotSlashZeroBalance
  deriving DecidableEq

inductive Erc20Error
  | transferFromZeroAddress
  | transferToZeroAddress
  | transferExceedsBalance
  | mintToZeroAddress
  | burnFromZeroAddress
  | burnExceedsBalance
  deriving DecidableEq

inductive VotesError
  | totalSupplyRisksOverflowingVotes
  | futureLookup
  | signatureExpired
  | invalidNonce
  | doesNotFit (bits : Nat)
  /-- The checked subtraction of `_subtract`. -/
  | subtractionUnderflow
  deriving DecidableEq

inductive SimpleKarmaDistributorError
  | invalidAddress
  | unauthorized
  | insufficientAvailableSupply
  | amountCannotBeZero
  deriving DecidableEq

inductive Revert
  | karma (e : KarmaError)
  | erc20 (e : Erc20Error)
  | votes (e : VotesError)
  | simpleKarmaDistributor (e : SimpleKarmaDistributorError)
  | stakeManager (e : Staking.Revert)
  | arithmetic (e : Checked.ArithError)
  | missingRole
  | gaugeVoter
  | noFunction
  deriving DecidableEq

abbrev add := Checked.add Revert.arithmetic
abbrev sub := Checked.sub Revert.arithmetic
abbrev mulDiv := Checked.mulDiv Revert.arithmetic

-- Checkpoints

structure Checkpoint where
  fromBlock : Nat
  votes : Nat
  deriving DecidableEq

/-- The block time as a `uint48`. -/
def clock (now : Nat) : Nat := now % 2 ^ 48

/-- The casts of `SafeCast`. -/
def toUint (bits n : Nat) : Except Revert Nat := do
  failIf (2 ^ bits ≤ n) (.votes (.doesNotFit bits))
  .ok n

/-- `_add` and `_subtract` are checked although their caller is not. -/
abbrev addVotes := add
abbrev subtractVotes := Checked.sub fun _ => Revert.votes .subtractionUnderflow

/-- What reading an array without a check of bounds finds after its end is empty. -/
def unsafeAccess (ckpts : List Checkpoint) (pos : Nat) : Checkpoint := ckpts.getD pos ⟨0, 0⟩

def currentVotes (ckpts : List Checkpoint) : Nat :=
  if ckpts.length = 0 then 0 else (unsafeAccess ckpts (ckpts.length - 1)).votes

def writeCheckpoint (now : Nat) (ckpts : List Checkpoint) (op : Nat → Nat → Except Revert Nat)
    (delta : Nat) : Except Revert (List Checkpoint) := do
  let pos := ckpts.length
  let oldCkpt := if pos = 0 then ⟨0, 0⟩ else unsafeAccess ckpts (pos - 1)
  let newWeight ← op oldCkpt.votes delta
  if pos > 0 ∧ oldCkpt.fromBlock = clock now then do
    let votes ← toUint 224 newWeight
    .ok (ckpts.set (pos - 1) { oldCkpt with votes })
  else do
    let fromBlock ← toUint 32 (clock now)
    let votes ← toUint 224 newWeight
    .ok (ckpts ++ [⟨fromBlock, votes⟩])

/-- The position from which on the checkpoints are after `timepoint`, searched for in the upper
part first when there are many. -/
def checkpointsSearch (ckpts : List Checkpoint) (timepoint : Nat) : Nat :=
  let length := ckpts.length
  let mid := length - length.sqrt
  let bisect := Checkpoints.bisect fun i => timepoint < (unsafeAccess ckpts i).fromBlock
  if length > 5 then
    if timepoint < (unsafeAccess ckpts mid).fromBlock then bisect 0 mid
    else bisect (mid + 1) length
  else bisect 0 length

def checkpointsLookup (ckpts : List Checkpoint) (timepoint : Nat) : Nat :=
  let high := checkpointsSearch ckpts timepoint
  if high = 0 then 0 else (unsafeAccess ckpts (high - 1)).votes

-- Balances and votes

structure Token where
  balances : Address → Nat
  totalSupply : Nat
  delegates : Address → Address
  checkpoints : Address → List Checkpoint
  totalSupplyCheckpoints : List Checkpoint
  nonces : Address → Nat

namespace Token

def empty : Token where
  balances _ := 0
  totalSupply := 0
  delegates _ := 0
  checkpoints _ := []
  totalSupplyCheckpoints := []
  nonces _ := 0

def getVotes (t : Token) (account : Address) : Nat := currentVotes (t.checkpoints account)

def getPastVotes (t : Token) (now : Nat) (account : Address) (timepoint : Nat) :
    Except Revert Nat := do
  failIf (clock now ≤ timepoint) (.votes .futureLookup)
  .ok (checkpointsLookup (t.checkpoints account) timepoint)

def getPastTotalSupply (t : Token) (now timepoint : Nat) : Except Revert Nat := do
  failIf (clock now ≤ timepoint) (.votes .futureLookup)
  .ok (checkpointsLookup t.totalSupplyCheckpoints timepoint)

def setCheckpoints (t : Token) (account : Address) (ckpts : List Checkpoint) : Token :=
  { t with checkpoints := Function.update t.checkpoints account ckpts }

def moveVotingPower (t : Token) (now : Nat) (src dst : Address) (amount : Nat) :
    Except Revert Token :=
  if src ≠ dst ∧ amount > 0 then do
    let t ← (if src ≠ 0 then do
        let ckpts ← writeCheckpoint now (t.checkpoints src) subtractVotes amount
        .ok (t.setCheckpoints src ckpts)
      else .ok t)
    if dst ≠ 0 then do
      let ckpts ← writeCheckpoint now (t.checkpoints dst) addVotes amount
      .ok (t.setCheckpoints dst ckpts)
    else .ok t
  else .ok t

end Token

-- Karma

inductive Role
  | defaultAdmin
  | operator
  | slasher
  deriving DecidableEq

structure Karma extends Token where
  /-- In the order of the set's array. -/
  rewardDistributors : List Address
  allowedToTransfer : Address → Bool
  slashPercentage : Nat
  slashRewardPercentage : Nat
  hasRole : Role → Address → Bool
  gaugeVoter : Address

/-- The time of the block, and whether the gauge voter reverts when it is notified. -/
structure Env where
  now : Nat
  gaugeReverts : Bool

def MAX_SLASH_PERCENTAGE : Nat := 10000

def MIN_SLASH_AMOUNT : Nat := 10 ^ 18

def maxSupply : Nat := 2 ^ 224 - 1

namespace Karma

def initialized (owner : Address) : Karma where
  toToken := .empty
  rewardDistributors := []
  allowedToTransfer _ := false
  slashPercentage := 5000
  slashRewardPercentage := 1000
  hasRole role account := role = .defaultAdmin ∧ account = owner
  gaugeVoter := 0

variable (s : Karma)

def onlyRole (role : Role) (sender : Address) : Except Revert Unit :=
  failIf (s.hasRole role sender = false) .missingRole

def onlyAdminOrOperator (sender : Address) : Except Revert Unit :=
  failIf (s.hasRole .defaultAdmin sender = false ∧ s.hasRole .operator sender = false)
    (.karma .unauthorized)

def onlyAdminOrSlasher (sender : Address) : Except Revert Unit :=
  failIf (s.hasRole .defaultAdmin sender = false ∧ s.hasRole .slasher sender = false)
    (.karma .unauthorized)

-- Hooks

def notifyGaugeVoter (env : Env) : Except Revert Unit :=
  failIf (s.gaugeVoter ≠ 0 ∧ env.gaugeReverts = true) .gaugeVoter

/-- Of a transfer between accounts; mints and burns pass. -/
def beforeTokenTransfer (sender dst : Address) : Except Revert Unit := do
  failIf (s.allowedToTransfer sender = false) (.karma .transfersNotAllowed)
  failIf (dst ∈ s.rewardDistributors) (.karma .transfersNotAllowed)

def afterTokenTransfer (env : Env) (src dst : Address) (amount : Nat) : Except Revert Karma := do
  let t ← s.moveVotingPower env.now (s.delegates src) (s.delegates dst) amount
  (if s.delegates src ≠ 0 ∨ s.delegates dst ≠ 0 then s.notifyGaugeVoter env else .ok ())
  .ok { s with toToken := t }

-- Moving tokens

def mintTokens (env : Env) (account : Address) (amount : Nat) : Except Revert Karma := do
  failIf (account = 0) (.erc20 .mintToZeroAddress)
  let totalSupply ← add s.totalSupply amount
  let balances := Function.update s.balances account (s.balances account + amount)
  let s ← { s with totalSupply, balances }.afterTokenTransfer env 0 account amount
  failIf (maxSupply < s.totalSupply) (.votes .totalSupplyRisksOverflowingVotes)
  let totalSupplyCheckpoints ← writeCheckpoint env.now s.totalSupplyCheckpoints addVotes amount
  .ok { s with totalSupplyCheckpoints }

def burnTokens (env : Env) (account : Address) (amount : Nat) : Except Revert Karma := do
  failIf (account = 0) (.erc20 .burnFromZeroAddress)
  failIf (s.balances account < amount) (.erc20 .burnExceedsBalance)
  let balances := Function.update s.balances account (s.balances account - amount)
  let totalSupply := s.totalSupply - amount
  let s ← { s with totalSupply, balances }.afterTokenTransfer env account 0 amount
  let totalSupplyCheckpoints ← writeCheckpoint env.now s.totalSupplyCheckpoints subtractVotes amount
  .ok { s with totalSupplyCheckpoints }

def transfer (env : Env) (sender dst : Address) (amount : Nat) : Except Revert Karma := do
  failIf (sender = 0) (.erc20 .transferFromZeroAddress)
  failIf (dst = 0) (.erc20 .transferToZeroAddress)
  s.beforeTokenTransfer sender dst
  failIf (s.balances sender < amount) (.erc20 .transferExceedsBalance)
  let balances := Balances.move s.balances sender dst amount
  { s with balances }.afterTokenTransfer env sender dst amount

def delegateVotes (env : Env) (delegator delegatee : Address) : Except Revert Karma := do
  let currentDelegate := s.delegates delegator
  let delegatorBalance := s.balances delegator
  let t := { s.toToken with delegates := Function.update s.delegates delegator delegatee }
  let t ← t.moveVotingPower env.now currentDelegate delegatee delegatorBalance
  s.notifyGaugeVoter env
  .ok { s with toToken := t }

-- Functions that call no distributor

def mint (env : Env) (sender account : Address) (amount : Nat) : Except Revert Karma := do
  s.onlyAdminOrOperator sender
  s.mintTokens env account amount

def delegate (env : Env) (sender delegatee : Address) : Except Revert Karma :=
  s.delegateVotes env sender delegatee

/-- `signer` is what is recovered from the signature. -/
def delegateBySig (env : Env) (signer delegatee : Address) (nonce expiry : Nat) :
    Except Revert Karma := do
  failIf (expiry < env.now) (.votes .signatureExpired)
  failIf (nonce ≠ s.nonces signer) (.votes .invalidNonce)
  let nonces := Function.update s.nonces signer (s.nonces signer + 1)
  { s with nonces }.delegateVotes env signer delegatee

def addRewardDistributor (sender distributor : Address) : Except Revert Karma := do
  s.onlyRole .defaultAdmin sender
  failIf (distributor ∈ s.rewardDistributors) (.karma .distributorAlreadyAdded)
  .ok { s with rewardDistributors := s.rewardDistributors ++ [distributor] }

/-- The last entry takes the place of the removed one. -/
def removeRewardDistributor (env : Env) (sender distributor : Address) : Except Revert Karma := do
  s.onlyRole .defaultAdmin sender
  failIf (distributor ∉ s.rewardDistributors) (.karma .unknownDistributor)
  let s ← s.burnTokens env distributor (s.balances distributor)
  let i := s.rewardDistributors.idxOf distributor
  let last := s.rewardDistributors.getLastD 0
  .ok { s with rewardDistributors := (s.rewardDistributors.set i last).dropLast }

def setSlashPercentage (sender : Address) (percentage : Nat) : Except Revert Karma := do
  s.onlyRole .defaultAdmin sender
  failIf (10000 < percentage) (.karma .invalidSlashPercentage)
  .ok { s with slashPercentage := percentage }

def setSlashRewardPercentage (sender : Address) (percentage : Nat) : Except Revert Karma := do
  s.onlyRole .defaultAdmin sender
  failIf (10000 < percentage) (.karma .invalidSlashRewardPercentage)
  .ok { s with slashRewardPercentage := percentage }

def setAllowedToTransfer (sender account : Address) (allowed : Bool) : Except Revert Karma := do
  s.onlyRole .defaultAdmin sender
  failIf (account = 0) (.karma .invalidAddress)
  .ok { s with allowedToTransfer := Function.update s.allowedToTransfer account allowed }

def setGaugeVoter (sender gaugeVoter : Address) : Except Revert Karma := do
  s.onlyRole .defaultAdmin sender
  .ok { s with gaugeVoter }

def setRole (sender : Address) (role : Role) (account : Address) (granted : Bool) :
    Except Revert Karma := do
  s.onlyRole .defaultAdmin sender
  .ok { s with
    hasRole := Function.update s.hasRole role (Function.update (s.hasRole role) account granted) }

/-- What is slashed of an actual balance: the percentage, but not less than the minimum. -/
def amountToSlash (balance : Nat) : Except Revert Nat := do
  let amount ← mulDiv balance s.slashPercentage MAX_SLASH_PERCENTAGE
  .ok (max amount (min MIN_SLASH_AMOUNT balance))

/-- The part of `_slash` after the rewards of the account were redeemed. -/
def slashActual (env : Env) (account rewardRecipient : Address) : Except Revert Karma := do
  let currentBalance := s.balances account
  failIf (currentBalance = 0) (.karma .cannotSlashZeroBalance)
  let totalAmountToSlash ← s.amountToSlash currentBalance
  let rewardAmount ← mulDiv totalAmountToSlash s.slashRewardPercentage MAX_SLASH_PERCENTAGE
  let s ← s.burnTokens env account totalAmountToSlash
  if rewardAmount > 0 ∧ rewardRecipient ≠ 0 then s.mintTokens env rewardRecipient rewardAmount
  else .ok s

end Karma

end StatusNetwork.Reputation
