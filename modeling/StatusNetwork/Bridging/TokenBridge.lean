import StatusNetwork.Messaging.Message

/-!
# The token bridge

Models `TokenBridgeBase.sol`, `TokenBridge.sol`, `MessageServiceBase.sol` and `BridgedToken.sol`:
one bridge with the tokens of its chain. What foreign contracts answer is an argument of the calls.
Taking tokens into escrow calls the token, whose hooks may call the bridge again: bridging a native
token is therefore two steps, up to that call and from there on. What a call sends to the bridge of
the other chain is returned with the new state.
-/

namespace StatusNetwork.Bridging

open Security (Address Role Pausing PauseType)

-- Constants

def EMPTY : Address := 0

def RESERVED_STATUS : Address := 0x111

def NATIVE_STATUS : Address := 0x222

def DEPLOYED_STATUS : Address := 0x333

def SET_MESSAGE_SERVICE_ROLE : Role :=
  .named 0x77974cc9cb5bafc9bb265be792d93fa46355c05701895b82f6d3b4b448c8ce00

def SET_RESERVED_TOKEN_ROLE : Role :=
  .named 0xeaf25fcc6b7d45bda16c56628df3f435e20319ef53b065c11ee4510083f0ae2d

def REMOVE_RESERVED_TOKEN_ROLE : Role :=
  .named 0x19bf281d118073c159a713666aba52e0d403520cd01e03f42e0f62a0b3bd4a35

def SET_CUSTOM_CONTRACT_ROLE : Role :=
  .named 0x550554a677c8e7b73b62db78b0ef06c5f237da4ef30b88196a899ccf591041fe

def PERMIT_SELECTOR : BitVec 32 := 0xd505accf

inductive Revert
  | security (e : Security.Revert)
  | arithmetic (e : Checked.ArithError)
  | reentrantCall
  | notEntered
  | zeroAddressNotAllowed
  | zeroHashNotAllowed
  | zeroAmountNotAllowed (amount : Nat)
  | zeroChainIdNotAllowed
  | sourceChainSameAsTargetChain
  | callerIsNotMessageService
  | senderNotAuthorized
  | reservedToken (token : Address)
  | notReserved (token : Address)
  | alreadyBridgedToken (token : Address)
  | tokenListEmpty
  | tokenNotDeployed (token : Address)
  | alreadyBrigedToNativeTokenSet (token : Address)
  | nativeToBridgedTokenAlreadySet (token : Address)
  | statusAddressNotAllowed (token : Address)
  | decimalsAreUnknown (token : Address)
  | invalidPermitData (permitData permitSelector : BitVec 32)
  | permitNotFromSender (owner : Address)
  | permitNotAllowingBridge (spender : Address)
  | permitFailed
  | noCode (account : Address)
  | transferFailed (token : Address)
  | burnAmountExceedsBalance
  | mintToTheZeroAddress
  | creationFailed (account : Address)
  | metadataNotDecodable
  | noSuchMessage
  deriving DecidableEq

abbrev add := Checked.add Revert.arithmetic

abbrev sub := Checked.sub Revert.arithmetic

-- Tokens

/-- The tokens of a chain: what accounts hold of each, what the bridge minted of it, and which
accounts have code. -/
structure Tokens where
  balanceOf : Address → Address → Nat
  totalSupply : Address → Nat
  hasCode : Address → Bool
  no_code : hasCode token = false → balanceOf token account = 0

namespace Tokens

variable (s : Tokens)

def setBalances (token : Address) (balances : Address → Nat) (h : s.hasCode token = true) :
    Tokens where
  balanceOf := Function.update s.balanceOf token balances
  totalSupply := s.totalSupply
  hasCode := s.hasCode
  no_code := by
    intro t account ht
    have hne : t ≠ token := by
      rintro rfl
      simp [h] at ht
    rw [Function.update_of_ne hne]
    exact s.no_code ht

def transfer (token sender recipient : Address) (amount fee : Nat) : Except Revert Tokens :=
  if h : s.hasCode token = true then do
    let balances := s.balanceOf token
    failIf (balances sender < amount ∨ amount < fee) (.transferFailed token)
    let debited := Function.update balances sender (balances sender - amount)
    let credited := Function.update debited recipient (debited recipient + (amount - fee))
    .ok (s.setBalances token credited h)
  else .error (.noCode token)

def mint (token recipient : Address) (amount : Nat) : Except Revert Tokens :=
  if h : s.hasCode token = true then do
    failIf (recipient = 0) .mintToTheZeroAddress
    let totalSupply ← add (s.totalSupply token) amount
    let balances := s.balanceOf token
    let credited := Function.update balances recipient (balances recipient + amount)
    .ok { s.setBalances token credited h with
      totalSupply := Function.update s.totalSupply token totalSupply }
  else .error (.noCode token)

/-- `BridgedToken.burn`. The supply is lowered without a check. -/
def burn (token account : Address) (amount : Nat) : Except Revert Tokens :=
  if h : s.hasCode token = true then do
    let balances := s.balanceOf token
    failIf (balances account < amount) .burnAmountExceedsBalance
    let debited := Function.update balances account (balances account - amount)
    .ok { s.setBalances token debited h with
      totalSupply := Function.update s.totalSupply token (s.totalSupply token - amount) }
  else .error (.noCode token)

/-- A new contract, with fresh storage. -/
def create (token : Address) : Except Revert Tokens := do
  failIf (s.hasCode token) (.creationFailed token)
  .ok { s with
    totalSupply := Function.update s.totalSupply token 0
    hasCode := Function.update s.hasCode token true
    no_code := by
      intro t account ht
      by_cases htt : t = token
      · simp [htt] at ht
      · rw [Function.update_of_ne htt] at ht
        exact s.no_code ht }

end Tokens

/-- Where `CREATE2` puts the token that a bridge deploys for a native token, which is never at a
status address. -/
structure Create2 where
  address (deployer tokenBeacon : Address) (chainId : Nat) (nativeToken : Address) : Address
  ne_empty : address deployer tokenBeacon chainId nativeToken ≠ EMPTY
  ne_reserved : address deployer tokenBeacon chainId nativeToken ≠ RESERVED_STATUS
  ne_native : address deployer tokenBeacon chainId nativeToken ≠ NATIVE_STATUS
  ne_deployed : address deployer tokenBeacon chainId nativeToken ≠ DEPLOYED_STATUS

-- The bridge

structure TokenMetadata where
  name : String
  symbol : String
  decimals : UInt8
  deriving DecidableEq

/-- A call that one bridge sends to the other. Empty metadata are `none`. -/
inductive RemoteCall
  | completeBridging (nativeToken : Address) (amount : Nat) (recipient : Address) (chainId : Nat)
    (tokenMetadata : Option TokenMetadata)
  | setDeployed (nativeTokens : List Address)
  deriving DecidableEq

/-- A native token on its way into escrow, with what `_bridgeToken` and `_tranferTokensToEscrow`
read before. -/
structure InFlight where
  token : Address
  recipient : Address
  nativeMappingValue : Address
  balanceBefore : Nat

/-- A bridge at the address `self`. -/
structure TokenBridge extends Tokens where
  self : Address
  security : Pausing
  messageService : Address
  remoteSender : Address
  tokenBeacon : Address
  nativeToBridgedToken : Nat → Address → Address
  bridgedToNativeToken : Address → Address
  sourceChainId : Nat
  targetChainId : Nat
  inFlight : Option InFlight

structure InitializationData where
  defaultAdmin : Address
  messageService : Address
  tokenBeacon : Address
  sourceChainId : Nat
  targetChainId : Nat
  remoteSender : Address
  reservedTokens : List Address
  roleAddresses : List (Role × Address)
  pauseTypeRoles : List (PauseType × Role)
  unpauseTypeRoles : List (PauseType × Role)

structure Env extends Messaging.Env where
  messageSender : Address

theorem Env.now_fits (e : Env) :
    e.now + Security.PAUSE_DURATION + Security.COOLDOWN_DURATION < Security.MAX_UINT256 := e.now_lt

structure PermitData where
  selector : BitVec 32
  owner : Address
  spender : Address
  amount : Nat

/-- What a token does when it is bridged: the fee it takes, the allowance of the bridge, and whether
it accepts a permit. -/
structure TokenEnv where
  fee : Nat
  allowance : Nat
  permitted : Bool

/-- `_safeName`, `_safeSymbol` and the answer to `decimals()`. -/
structure MetadataEnv where
  safeName : String
  safeSymbol : String
  decimals : Option UInt8

def nonZeroAddress (account : Address) : Except Revert Unit :=
  failIf (account = EMPTY) .zeroAddressNotAllowed

def nonZeroAmount (amount : Nat) : Except Revert Unit :=
  failIf (amount = 0) (.zeroAmountNotAllowed amount)

def nonZeroChainId (chainId : Nat) : Except Revert Unit :=
  failIf (chainId = 0) .zeroChainIdNotAllowed

namespace TokenBridge

/-- `nativeToBridgedToken[chainId][native] = bridged`. -/
def setBridged (s : TokenBridge) (chainId : Nat) (native bridged : Address) :
    TokenBridge :=
  { s with
    nativeToBridgedToken := Function.update s.nativeToBridgedToken chainId
      (Function.update (s.nativeToBridgedToken chainId) native bridged) }

/-- `initialize`, at the address `self` and with the tokens the chain has. -/
def initialized (self : Address) (tokens : Tokens) (data : InitializationData) :
    Except Revert TokenBridge := do
  nonZeroAddress data.messageService
  nonZeroAddress data.tokenBeacon
  nonZeroChainId data.sourceChainId
  nonZeroChainId data.targetChainId
  nonZeroAddress data.defaultAdmin
  let admin := Security.Roles.setRole ⟨fun _ _ => false⟩ .defaultAdmin data.defaultAdmin true
  let roles ← admin.permissionsInit .zeroAddressNotAllowed .zeroHashNotAllowed data.roleAddresses
  failIf (data.sourceChainId = data.targetChainId) .sourceChainSameAsTargetChain
  nonZeroAddress data.remoteSender
  let s : TokenBridge := { tokens with
    self
    security := ⟨roles, .initialized data.pauseTypeRoles data.unpauseTypeRoles⟩
    messageService := data.messageService
    remoteSender := data.remoteSender
    tokenBeacon := data.tokenBeacon
    nativeToBridgedToken := fun _ _ => EMPTY
    bridgedToNativeToken := fun _ => EMPTY
    sourceChainId := data.sourceChainId
    targetChainId := data.targetChainId
    inFlight := none }
  data.reservedTokens.foldlM (fun s token => do
    nonZeroAddress token
    .ok (s.setBridged data.sourceChainId token RESERVED_STATUS)) s

variable (C : Create2) (s : TokenBridge) (e : Env)

def onlyRole (role : Role) : Except Revert Unit :=
  (s.security.roles.onlyRole role e.sender).mapError .security

def whenTypeAndGeneralNotPaused (pauseType : PauseType) : Except Revert Unit :=
  (s.security.manager.requireTypeAndGeneralNotPaused pauseType).mapError .security

def nonReentrant : Except Revert Unit := failIf s.inFlight.isSome .reentrantCall

def onlyMessagingService : Except Revert Unit :=
  failIf (e.sender ≠ s.messageService) .callerIsNotMessageService

def onlyAuthorizedRemoteSender : Except Revert Unit :=
  failIf (e.messageSender ≠ s.remoteSender) .senderNotAuthorized

def isNewToken (token : Address) : Except Revert Unit :=
  failIf (s.bridgedToNativeToken token ≠ EMPTY ∨
    s.nativeToBridgedToken s.sourceChainId token ≠ EMPTY) (.alreadyBridgedToken token)

def setTokens (tokens : Tokens) : TokenBridge := { s with toTokens := tokens }

/-- `_bridgeToken`, up to the transfer into escrow if the token is native. -/
def _bridgeToken (token : Address) (amount : Nat) (recipient : Address) (t : TokenEnv) :
    Except Revert (TokenBridge × Option RemoteCall) := do
  nonZeroAddress token
  nonZeroAddress recipient
  nonZeroAmount amount
  let nativeMappingValue := s.nativeToBridgedToken s.sourceChainId token
  failIf (nativeMappingValue = RESERVED_STATUS) (.reservedToken token)
  let nativeToken := s.bridgedToNativeToken token
  if nativeToken ≠ EMPTY then
    let tokens ← s.burn token e.sender amount
    .ok (s.setTokens tokens, some (.completeBridging nativeToken amount recipient s.targetChainId
      none))
  else
    let balanceBefore := s.balanceOf token s.self
    let tokens ← s.transfer token e.sender s.self amount t.fee
    .ok ({ s.setTokens tokens with
      inFlight := some { token, recipient, nativeMappingValue, balanceBefore } }, none)

def bridgeToken (token : Address) (amount : Nat) (recipient : Address) (t : TokenEnv) :
    Except Revert (TokenBridge × Option RemoteCall) := do
  s.nonReentrant
  s.whenTypeAndGeneralNotPaused .initiateTokenBridging
  s._bridgeToken e token amount recipient t

def _permit (permitData : PermitData) (t : TokenEnv) : Except Revert Unit := do
  failIf (permitData.selector ≠ PERMIT_SELECTOR)
    (.invalidPermitData permitData.selector PERMIT_SELECTOR)
  failIf (permitData.owner ≠ e.sender) (.permitNotFromSender permitData.owner)
  failIf (permitData.spender ≠ s.self) (.permitNotAllowingBridge permitData.spender)
  failIf (t.allowance < permitData.amount ∧ ¬ t.permitted) .permitFailed

def bridgeTokenWithPermit (token : Address) (amount : Nat) (recipient : Address)
    (permitData : Option PermitData) (t : TokenEnv) :
    Except Revert (TokenBridge × Option RemoteCall) := do
  s.nonReentrant
  s.whenTypeAndGeneralNotPaused .initiateTokenBridging
  permitData.forM fun permitData => s._permit e permitData t
  s._bridgeToken e token amount recipient t

def _safeDecimals (token : Address) (t : MetadataEnv) : Except Revert UInt8 :=
  match t.decimals with
  | some decimals => .ok decimals
  | none => .error (.decimalsAreUnknown token)

/-- The rest of `_bridgeToken` once a native token is in escrow. -/
def finishBridging (t : MetadataEnv) : Except Revert (TokenBridge × Option RemoteCall) := do
  match s.inFlight with
  | none => .error .notEntered
  | some f =>
    let amount ← sub (s.balanceOf f.token s.self) f.balanceBefore
    let bridged :=
      if f.nativeMappingValue = EMPTY then s.setBridged s.sourceChainId f.token NATIVE_STATUS else s
    let tokenMetadata ← (
      if f.nativeMappingValue ≠ DEPLOYED_STATUS then do
        let decimals ← _safeDecimals f.token t
        .ok (some ⟨t.safeName, t.safeSymbol, decimals⟩)
      else .ok none)
    .ok ({ bridged with inFlight := none },
      some (.completeBridging f.token amount f.recipient s.sourceChainId tokenMetadata))

def deployBridgedToken (nativeToken : Address) (tokenMetadata : Option TokenMetadata)
    (chainId : Nat) : Except Revert (TokenBridge × Address) := do
  let bridgedToken := C.address s.self s.tokenBeacon chainId nativeToken
  let tokens ← s.create bridgedToken
  failIf tokenMetadata.isNone .metadataNotDecodable
  .ok (s.setTokens tokens, bridgedToken)

def _completeBridging (nativeToken : Address) (amount : Nat) (recipient : Address) (chainId : Nat)
    (tokenMetadata : Option TokenMetadata) (fee : Nat) : Except Revert TokenBridge := do
  let nativeMappingValue := s.nativeToBridgedToken chainId nativeToken
  if nativeMappingValue = NATIVE_STATUS ∨ nativeMappingValue = DEPLOYED_STATUS then
    let tokens ← s.transfer nativeToken s.self recipient amount fee
    .ok (s.setTokens tokens)
  else if nativeMappingValue = EMPTY then
    let (s, bridgedToken) ← s.deployBridgedToken C nativeToken tokenMetadata s.sourceChainId
    let s := { s with
      bridgedToNativeToken := Function.update s.bridgedToNativeToken bridgedToken nativeToken }
    let s := s.setBridged s.targetChainId nativeToken bridgedToken
    let tokens ← s.mint bridgedToken recipient amount
    .ok (s.setTokens tokens)
  else
    let tokens ← s.mint nativeMappingValue recipient amount
    .ok (s.setTokens tokens)

def completeBridging (nativeToken : Address) (amount : Nat) (recipient : Address) (chainId : Nat)
    (tokenMetadata : Option TokenMetadata) (fee : Nat) : Except Revert TokenBridge := do
  s.nonReentrant
  s.onlyMessagingService e
  s.onlyAuthorizedRemoteSender e
  s.whenTypeAndGeneralNotPaused .completeTokenBridging
  s._completeBridging C nativeToken amount recipient chainId tokenMetadata fee

def confirmDeployment (tokens : List Address) :
    Except Revert (TokenBridge × Option RemoteCall) := do
  failIf tokens.isEmpty .tokenListEmpty
  let nativeTokens ← tokens.mapM fun token => do
    failIf (s.bridgedToNativeToken token = EMPTY) (.tokenNotDeployed token)
    .ok (s.bridgedToNativeToken token)
  .ok (s, some (.setDeployed nativeTokens))

def setDeployed (nativeTokens : List Address) : Except Revert TokenBridge := do
  s.onlyMessagingService e
  s.onlyAuthorizedRemoteSender e
  .ok (nativeTokens.foldl (fun s token => s.setBridged s.sourceChainId token DEPLOYED_STATUS) s)

def setReserved (token : Address) : Except Revert TokenBridge := do
  nonZeroAddress token
  s.isNewToken token
  s.onlyRole e SET_RESERVED_TOKEN_ROLE
  .ok (s.setBridged s.sourceChainId token RESERVED_STATUS)

def removeReserved (token : Address) : Except Revert TokenBridge := do
  nonZeroAddress token
  s.onlyRole e REMOVE_RESERVED_TOKEN_ROLE
  failIf (s.nativeToBridgedToken s.sourceChainId token ≠ RESERVED_STATUS) (.notReserved token)
  .ok (s.setBridged s.sourceChainId token EMPTY)

def setCustomContract (nativeToken targetContract : Address) : Except Revert TokenBridge := do
  nonZeroAddress nativeToken
  nonZeroAddress targetContract
  s.onlyRole e SET_CUSTOM_CONTRACT_ROLE
  s.isNewToken nativeToken
  failIf (s.bridgedToNativeToken targetContract ≠ EMPTY)
    (.alreadyBrigedToNativeTokenSet targetContract)
  failIf (targetContract = NATIVE_STATUS ∨ targetContract = DEPLOYED_STATUS ∨
    targetContract = RESERVED_STATUS) (.statusAddressNotAllowed targetContract)
  failIf (s.nativeToBridgedToken s.targetChainId nativeToken ≠ EMPTY)
    (.nativeToBridgedTokenAlreadySet nativeToken)
  let s := s.setBridged s.targetChainId nativeToken targetContract
  .ok { s with
    bridgedToNativeToken := Function.update s.bridgedToNativeToken targetContract nativeToken }

def setMessageService (messageService : Address) : Except Revert TokenBridge := do
  nonZeroAddress messageService
  s.onlyRole e SET_MESSAGE_SERVICE_ROLE
  .ok { s with messageService }

def secure (action : Pausing.Action) : Except Revert TokenBridge :=
  ((s.security.apply ⟨e.sender, e.now, e.now_fits, action⟩).mapError .security).map fun security =>
    { s with security }

-- Calls

inductive Call
  | bridgeToken (token : Address) (amount : Nat) (recipient : Address) (t : TokenEnv)
  | bridgeTokenWithPermit (token : Address) (amount : Nat) (recipient : Address)
    (permitData : Option PermitData) (t : TokenEnv)
  | finishBridging (t : MetadataEnv)
  | remote (message : RemoteCall) (fee : Nat)
  | confirmDeployment (tokens : List Address)
  | setReserved (token : Address)
  | removeReserved (token : Address)
  | setCustomContract (nativeToken targetContract : Address)
  | setMessageService (messageService : Address)
  | secure (action : Pausing.Action)

def receive (fee : Nat) : RemoteCall → Except Revert TokenBridge
  | .completeBridging nativeToken amount recipient chainId tokenMetadata =>
    s.completeBridging C e nativeToken amount recipient chainId tokenMetadata fee
  | .setDeployed nativeTokens => s.setDeployed e nativeTokens

def call : Call → Except Revert (TokenBridge × Option RemoteCall)
  | .bridgeToken token amount recipient t => s.bridgeToken e token amount recipient t
  | .bridgeTokenWithPermit token amount recipient permitData t =>
    s.bridgeTokenWithPermit e token amount recipient permitData t
  | .finishBridging t => s.finishBridging t
  | .remote message fee => (s.receive C e fee message).map (·, none)
  | .confirmDeployment tokens => s.confirmDeployment tokens
  | .setReserved token => (s.setReserved e token).map (·, none)
  | .removeReserved token => (s.removeReserved e token).map (·, none)
  | .setCustomContract nativeToken targetContract =>
    (s.setCustomContract e nativeToken targetContract).map (·, none)
  | .setMessageService messageService => (s.setMessageService e messageService).map (·, none)
  | .secure action => (s.secure e action).map (·, none)

end TokenBridge

end StatusNetwork.Bridging
