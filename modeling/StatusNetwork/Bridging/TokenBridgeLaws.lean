import Mathlib.Data.FinEnum
import StatusNetwork.Base.Balances
import StatusNetwork.Bridging.TokenBridge

/-!
# What a call of the token bridge can do

`call_effect` and `receive_effect` say once what a successful call does. From them follow what one
bridge keeps by itself: the statuses of its native tokens, that its two mappings are inverse to each
other, and that nobody holds more of a bridged token than was minted.
-/

namespace StatusNetwork.Bridging

open Security (Address Pausing)
open Function (update update_of_ne update_self)

-- Tokens

namespace Tokens

variable {s s' : Tokens}

section
variable (h : s.transfer token sender recipient amount fee = .ok s')
include h

theorem transfer_ok :
    amount ≤ s.balanceOf token sender ∧ s'.totalSupply = s.totalSupply ∧ s'.hasCode = s.hasCode ∧
      ∃ debited, debited = update (s.balanceOf token) sender
          (s.balanceOf token sender - amount) ∧
        s'.balanceOf = update s.balanceOf token
          (update debited recipient (debited recipient + (amount - fee))) := by
  unfold transfer at h
  split at h
  · simp only [bind_eq_ok, failIf_eq_ok, not_or, Nat.not_lt] at h
    obtain ⟨_, ⟨hle, -⟩, ⟨⟩⟩ := h
    exact ⟨hle, rfl, rfl, _, rfl, rfl⟩
  · cases h

theorem transfer_le (ha : account ≠ sender) (t : Address) :
    s.balanceOf t account ≤ s'.balanceOf t account := by
  obtain ⟨-, -, -, _, rfl, hs⟩ := transfer_ok h
  rw [hs]
  by_cases ht : t = token
  · subst ht
    by_cases hr : account = recipient
    · subst hr
      simp [ha]
    · simp [ha, hr]
  · simp [ht]

theorem transfer_sender (t : Address) :
    s.balanceOf t sender ≤ s'.balanceOf t sender + if t = token then amount else 0 := by
  obtain ⟨hle, -, -, _, rfl, hs⟩ := transfer_ok h
  rw [hs]
  by_cases ht : t = token
  · subst ht
    by_cases hr : sender = recipient
    · subst hr
      simp
      omega
    · simp [hr]
      omega
  · simp [ht]

theorem transfer_sum (t : Address) : ∑ a, s'.balanceOf t a ≤ ∑ a, s.balanceOf t a := by
  obtain ⟨hle, -, -, debited, hd, hs⟩ := transfer_ok h
  rw [hs]
  by_cases ht : t = token
  · subst ht
    have htake := Balances.sum_take hle
    rw [← hd] at htake
    rw [update_self, Balances.sum_give]
    omega
  · rw [update_of_ne ht]

end

theorem mint_ok (h : s.mint token recipient amount = .ok s') :
    s'.balanceOf = update s.balanceOf token
        (update (s.balanceOf token) recipient (s.balanceOf token recipient + amount)) ∧
      s'.totalSupply = update s.totalSupply token (s.totalSupply token + amount) ∧
      s'.hasCode = s.hasCode := by
  unfold mint at h
  split at h
  · simp only [bind_eq_ok, failIf_eq_ok, Checked.add_eq_ok] at h
    obtain ⟨_, -, _, ⟨-, rfl⟩, ⟨⟩⟩ := h
    exact ⟨rfl, rfl, rfl⟩
  · cases h

theorem burn_ok (h : s.burn token account amount = .ok s') :
    amount ≤ s.balanceOf token account ∧
      s'.balanceOf = update s.balanceOf token
        (update (s.balanceOf token) account (s.balanceOf token account - amount)) ∧
      s'.totalSupply = update s.totalSupply token (s.totalSupply token - amount) ∧
      s'.hasCode = s.hasCode := by
  unfold burn at h
  split at h
  · simp only [bind_eq_ok, failIf_eq_ok, Nat.not_lt] at h
    obtain ⟨_, hle, ⟨⟩⟩ := h
    exact ⟨hle, rfl, rfl, rfl⟩
  · cases h

theorem create_ok (h : s.create token = .ok s') :
    s.hasCode token = false ∧ s'.balanceOf = s.balanceOf ∧
      s'.totalSupply = update s.totalSupply token 0 ∧
      s'.hasCode = update s.hasCode token true := by
  simp only [create, bind_eq_ok, failIf_eq_ok, Bool.not_eq_true] at h
  obtain ⟨_, hcode, ⟨⟩⟩ := h
  exact ⟨hcode, rfl, rfl, rfl⟩

end Tokens

def RemoteCall.amountOf (chainId : Nat) (token : Address) : RemoteCall → Nat
  | .completeBridging nativeToken amount _ chain _ =>
    if chain = chainId ∧ nativeToken = token then amount else 0
  | .setDeployed _ => 0

def amountOf (chainId : Nat) (token : Address) (l : List RemoteCall) : Nat :=
  (l.map (·.amountOf chainId token)).sum

namespace TokenBridge

variable {C : Create2} {s s' : TokenBridge} {e : Env}

/-- What the bridge knows of a token of its own chain. -/
def status (s : TokenBridge) (token : Address) : Address :=
  s.nativeToBridgedToken s.sourceChainId token

def bridged (s : TokenBridge) (nativeToken : Address) : Address :=
  s.nativeToBridgedToken s.targetChainId nativeToken

/-- The token was taken into escrow once. -/
def Escrowed (s : TokenBridge) (token : Address) : Prop :=
  s.status token = NATIVE_STATUS ∨ s.status token = DEPLOYED_STATUS

/-- `setBridged` for a token of the own chain. -/
def setStatus (s : TokenBridge) (token status : Address) : TokenBridge :=
  s.setBridged s.sourceChainId token status

/-- The mappings once a token is deployed for a token of the other chain. -/
def link (s : TokenBridge) (nativeToken x : Address) : TokenBridge :=
  { s.setBridged s.targetChainId nativeToken x with
    bridgedToNativeToken := Function.update s.bridgedToNativeToken x nativeToken }

/-- The state once what is in flight has arrived in escrow. -/
def arrive (s : TokenBridge) (f : InFlight) : TokenBridge :=
  if f.nativeMappingValue = EMPTY then { s.setStatus f.token NATIVE_STATUS with inFlight := none }
  else { s with inFlight := none }

@[simp] theorem setTokens_toTokens (tokens : Tokens) : (s.setTokens tokens).toTokens = tokens := rfl

@[simp] theorem setTokens_self (tokens : Tokens) : (s.setTokens tokens).self = s.self := rfl

@[simp] theorem arrive_toTokens (f : InFlight) : (s.arrive f).toTokens = s.toTokens := by
  unfold arrive
  split <;> rfl

@[simp] theorem arrive_self (f : InFlight) : (s.arrive f).self = s.self := by
  unfold arrive
  split <;> rfl

@[simp] theorem arrive_inFlight (f : InFlight) : (s.arrive f).inFlight = none := by
  unfold arrive
  split <;> rfl

-- Effects

/-- What a call does other than one from the remote bridge. -/
inductive Effect (s : TokenBridge) (e : Env) (c : Call) : TokenBridge → Option RemoteCall → Prop
  | secure (security : Pausing) : Effect s e c { s with security } none
  | setMessageService (messageService : Address) : c = .setMessageService messageService →
    Effect s e c { s with messageService } none
  | setCustomContract : c = .setCustomContract nativeToken x → x ≠ EMPTY →
    Effect s e c (s.link nativeToken x) none
  | setReserved : c = .setReserved token → s.status token = EMPTY →
    Effect s e c (s.setStatus token RESERVED_STATUS) none
  | removeReserved : c = .removeReserved token → s.status token = RESERVED_STATUS →
    Effect s e c (s.setStatus token EMPTY) none
  | confirm : (∀ t ∈ nativeTokens, t ≠ EMPTY ∧ ∃ x, s.bridgedToNativeToken x = t) →
    Effect s e c s (some (.setDeployed nativeTokens))
  | burn : s.bridgedToNativeToken token ≠ EMPTY → s.burn token e.sender amount = .ok tokens →
    Effect s e c (s.setTokens tokens) (some (.completeBridging (s.bridgedToNativeToken token) amount
      recipient s.targetChainId none))
  | escrow : token ≠ EMPTY → s.status token ≠ RESERVED_STATUS → s.inFlight = none →
    s.transfer token e.sender s.self amount fee = .ok tokens →
    Effect s e c { s.setTokens tokens with inFlight := some {
      token, recipient
      nativeMappingValue := s.status token
      balanceBefore := s.balanceOf token s.self } } none
  | finish : s.inFlight = some f → f.balanceBefore ≤ s.balanceOf f.token s.self →
    Effect s e c (s.arrive f) (some (.completeBridging f.token
      (s.balanceOf f.token s.self - f.balanceBefore) f.recipient s.sourceChainId tokenMetadata))

/-- What the calls from the remote bridge do. -/
inductive Receipt (C : Create2) (s : TokenBridge) : RemoteCall → TokenBridge → Prop
  | setDeployed : Receipt C s (.setDeployed nativeTokens)
      (nativeTokens.foldl (fun s token => s.setStatus token DEPLOYED_STATUS) s)
  | release : s.inFlight = none →
    s.nativeToBridgedToken chainId nativeToken = NATIVE_STATUS ∨
      s.nativeToBridgedToken chainId nativeToken = DEPLOYED_STATUS →
    s.transfer nativeToken s.self recipient amount fee = .ok tokens →
    Receipt C s (.completeBridging nativeToken amount recipient chainId tokenMetadata)
      (s.setTokens tokens)
  | deploy : s.inFlight = none → s.nativeToBridgedToken chainId nativeToken = EMPTY →
    bridgedToken = C.address s.self s.tokenBeacon s.sourceChainId nativeToken →
    s.create bridgedToken = .ok created → created.mint bridgedToken recipient amount = .ok tokens →
    Receipt C s (.completeBridging nativeToken amount recipient chainId tokenMetadata)
      ((s.link nativeToken bridgedToken).setTokens tokens)
  | mint : s.inFlight = none → bridgedToken = s.nativeToBridgedToken chainId nativeToken →
    bridgedToken ≠ NATIVE_STATUS → bridgedToken ≠ DEPLOYED_STATUS → bridgedToken ≠ EMPTY →
    s.mint bridgedToken recipient amount = .ok tokens →
    Receipt C s (.completeBridging nativeToken amount recipient chainId tokenMetadata)
      (s.setTokens tokens)

theorem _bridgeToken_effect (hflight : s.inFlight = none)
    (h : s._bridgeToken e token amount recipient t = .ok (s', out)) : Effect s e c s' out := by
  simp only [_bridgeToken, bind_eq_ok, nonZeroAddress, nonZeroAmount, failIf_eq_ok] at h
  obtain ⟨_, htoken, _, -, _, -, _, hreserved, h⟩ := h
  split at h
  · rename_i hbridged
    obtain ⟨tokens, hburn, ⟨⟩⟩ := bind_eq_ok.mp h
    exact .burn hbridged hburn
  · obtain ⟨tokens, htransfer, ⟨⟩⟩ := bind_eq_ok.mp h
    exact .escrow htoken hreserved hflight htransfer

theorem finishBridging_effect (h : s.finishBridging t = .ok (s', out)) : Effect s e c s' out := by
  unfold finishBridging at h
  split at h
  · cases h
  · rename_i f hf
    simp only [bind_eq_ok, Checked.sub_eq_ok] at h
    obtain ⟨_, ⟨hle, rfl⟩, tokenMetadata, -, ⟨⟩⟩ := h
    have harrive : s.arrive f = { (if f.nativeMappingValue = EMPTY then
        s.setStatus f.token NATIVE_STATUS else s) with inFlight := none } := by
      unfold arrive
      split <;> rfl
    exact harrive ▸ .finish hf hle

theorem confirmDeployment_ok (h : s.confirmDeployment tokens = .ok (s', out)) :
    ∃ nativeTokens, s' = s ∧ out = some (.setDeployed nativeTokens) ∧
      ∀ t ∈ nativeTokens, t ≠ EMPTY ∧ ∃ x, s.bridgedToNativeToken x = t := by
  simp only [confirmDeployment, bind_eq_ok] at h
  obtain ⟨_, -, nativeTokens, hmap, ⟨⟩⟩ := h
  refine ⟨nativeTokens, rfl, rfl, fun t ht => ?_⟩
  induction tokens generalizing nativeTokens with
  | nil =>
    cases hmap
    cases ht
  | cons token tokens ih =>
    simp only [List.mapM_cons, bind_eq_ok, failIf_eq_ok] at hmap
    obtain ⟨_, ⟨_, hne, ⟨⟩⟩, rest, hrest, ⟨⟩⟩ := hmap
    rcases List.mem_cons.mp ht with rfl | ht
    · exact ⟨hne, token, rfl⟩
    · exact ih rest hrest ht

theorem receive_auth (h : s.receive C e fee m = .ok s') :
    e.sender = s.messageService ∧ e.messageSender = s.remoteSender := by
  cases m with
  | completeBridging | setDeployed =>
    simp only [receive, completeBridging, setDeployed, onlyMessagingService,
      onlyAuthorizedRemoteSender, bind_eq_ok, failIf_eq_ok, not_not] at h
    grind

theorem isNewToken_ok (h : s.isNewToken token = .ok u) : s.status token = EMPTY := by
  simp only [isNewToken, failIf_eq_ok, not_or, not_not] at h
  exact h.2

/-- The calls that a run of the two bridges is made of. -/
def Call.Routine : Call → Prop
  | .setCustomContract .. | .setMessageService .. => False
  | _ => True

theorem nonReentrant_ok (h : s.nonReentrant = .ok u) : s.inFlight = none := by
  simpa [nonReentrant] using h

theorem call_effect
    (hauth : ¬ (e.sender = s.messageService ∧ e.messageSender = s.remoteSender))
    (h : s.call C e c = .ok (s', out)) : Effect s e c s' out := by
  cases c with
  | bridgeToken token amount recipient t =>
    simp only [call, bridgeToken, bind_eq_ok] at h
    obtain ⟨_, hguard, _, -, h⟩ := h
    exact _bridgeToken_effect (nonReentrant_ok hguard) h
  | bridgeTokenWithPermit token amount recipient permitData t =>
    simp only [call, bridgeTokenWithPermit, bind_eq_ok] at h
    obtain ⟨_, hguard, _, -, _, -, h⟩ := h
    exact _bridgeToken_effect (nonReentrant_ok hguard) h
  | finishBridging t => exact finishBridging_effect h
  | remote message fee =>
    obtain ⟨s₁, h, -⟩ := map_eq_ok.mp h
    exact absurd (receive_auth h) hauth
  | confirmDeployment tokens =>
    obtain ⟨nativeTokens, rfl, rfl, hnatives⟩ := confirmDeployment_ok h
    exact .confirm hnatives
  | setReserved token =>
    simp only [call, setReserved, map_eq_ok, bind_eq_ok] at h
    obtain ⟨_, ⟨_, -, _, hnew, _, -, ⟨⟩⟩, ⟨⟩⟩ := h
    exact .setReserved rfl (isNewToken_ok hnew)
  | removeReserved token =>
    simp only [call, removeReserved, map_eq_ok, bind_eq_ok, failIf_eq_ok, not_not] at h
    obtain ⟨_, ⟨_, -, _, -, _, hreserved, ⟨⟩⟩, ⟨⟩⟩ := h
    exact .removeReserved rfl hreserved
  | setCustomContract nativeToken targetContract =>
    simp only [call, setCustomContract, map_eq_ok, bind_eq_ok, nonZeroAddress, failIf_eq_ok] at h
    obtain ⟨_, ⟨_, -, _, hx, _, -, _, -, _, -, _, -, _, -, ⟨⟩⟩, ⟨⟩⟩ := h
    exact .setCustomContract rfl hx
  | setMessageService messageService =>
    simp only [call, setMessageService, map_eq_ok, bind_eq_ok] at h
    obtain ⟨_, ⟨_, -, _, -, ⟨⟩⟩, ⟨⟩⟩ := h
    exact .setMessageService messageService rfl
  | secure action =>
    simp only [call, secure, map_eq_ok] at h
    obtain ⟨_, ⟨security, -, rfl⟩, ⟨⟩⟩ := h
    exact .secure security

theorem receive_effect (h : s.receive C e fee m = .ok s') : Receipt C s m s' := by
  cases m with
  | setDeployed nativeTokens =>
    simp only [receive, setDeployed, bind_eq_ok] at h
    obtain ⟨_, -, _, -, ⟨⟩⟩ := h
    exact .setDeployed
  | completeBridging nativeToken amount recipient chainId tokenMetadata =>
    simp only [receive, completeBridging, bind_eq_ok] at h
    obtain ⟨_, hguard, _, -, _, -, _, -, h⟩ := h
    have hflight := nonReentrant_ok hguard
    simp only [_completeBridging] at h
    split at h
    · rename_i hstatus
      obtain ⟨tokens, htransfer, ⟨⟩⟩ := bind_eq_ok.mp h
      exact .release hflight hstatus htransfer
    · rename_i hstatus
      obtain ⟨hnative, hdeployed⟩ := not_or.mp hstatus
      split at h
      · rename_i hempty
        simp only [deployBridgedToken, bind_eq_ok] at h
        obtain ⟨_, ⟨created, hcreate, _, -, ⟨⟩⟩, tokens, hmint, ⟨⟩⟩ := h
        exact .deploy hflight hempty rfl hcreate hmint
      · rename_i hempty
        obtain ⟨tokens, hmint, ⟨⟩⟩ := bind_eq_ok.mp h
        exact .mint hflight rfl hnative hdeployed hempty hmint

-- What one bridge keeps

/-- The two mappings are inverse to each other and about tokens that exist. -/
structure Mapped (bridged native : Address → Address) (code : Address → Bool) : Prop where
  bridged_native : native x ≠ EMPTY → x ≠ EMPTY ∧ bridged (native x) = x
  native_bridged : bridged t ≠ EMPTY → native (bridged t) = t
  hasCode : bridged t ≠ EMPTY → code (bridged t) = true
  not_status : bridged t ≠ NATIVE_STATUS ∧ bridged t ≠ DEPLOYED_STATUS

structure Sound (s : TokenBridge) : Prop extends
    Mapped s.bridged s.bridgedToNativeToken s.hasCode where
  chains : s.sourceChainId ≠ s.targetChainId
  status (t : Address) : s.status t = EMPTY ∨ s.status t = RESERVED_STATUS ∨ s.Escrowed t
  flight : s.inFlight = some f →
    f.token ≠ EMPTY ∧ (f.nativeMappingValue = EMPTY ∨ s.Escrowed f.token)
  supply : s.bridgedToNativeToken x ≠ EMPTY → ∑ a, s.balanceOf x a ≤ s.totalSupply x

/-- What `s` knows, `s'` knows as well. -/
structure Grows (s s' : TokenBridge) : Prop where
  source : s'.sourceChainId = s.sourceChainId
  target : s'.targetChainId = s.targetChainId
  self : s'.self = s.self
  escrowed : s.Escrowed t → s'.Escrowed t

theorem setStatus_status (s : TokenBridge) (token status t : Address) :
    (s.setStatus token status).status t = if t = token then status else s.status t := by
  by_cases ht : t = token
  · subst ht
    simp [setStatus, setBridged, TokenBridge.status]
  · simp [setStatus, setBridged, TokenBridge.status, ht]

theorem setStatus_bridged (h : s.sourceChainId ≠ s.targetChainId) (token status t : Address) :
    (s.setStatus token status).bridged t = s.bridged t := by
  simp [setStatus, setBridged, bridged, h.symm]

theorem link_status (h : s.sourceChainId ≠ s.targetChainId) (nativeToken x t : Address) :
    (s.link nativeToken x).status t = s.status t := by
  simp [link, setBridged, status, h]

theorem link_bridged (s : TokenBridge) (nativeToken x t : Address) :
    (s.link nativeToken x).bridged t = if t = nativeToken then x else s.bridged t := by
  by_cases ht : t = nativeToken
  · subst ht
    simp [link, setBridged, bridged]
  · simp [link, setBridged, bridged, ht]

theorem link_native (s : TokenBridge) (nativeToken x y : Address) :
    (s.link nativeToken x).bridgedToNativeToken y =
      if y = x then nativeToken else s.bridgedToNativeToken y := by
  simp [link, Function.update_apply]

theorem link_escrowed (h : s.sourceChainId ≠ s.targetChainId) (nativeToken x t : Address) :
    (s.link nativeToken x).Escrowed t ↔ s.Escrowed t := by
  simp [Escrowed, link_status h]

theorem setStatus_escrowed (hkeep : s.Escrowed token → v = NATIVE_STATUS ∨ v = DEPLOYED_STATUS)
    (h : s.Escrowed t) : (s.setStatus token v).Escrowed t := by
  simp only [Escrowed, setStatus_status] at h ⊢
  by_cases ht : t = token
  · subst ht
    simpa using hkeep h
  · simpa [ht] using h

/-- What was minted for a token of the other chain. -/
def minted (s : TokenBridge) (t : Address) : Nat :=
  if s.bridged t = EMPTY then 0 else s.totalSupply (s.bridged t)

def settled (s : TokenBridge) (t : Address) : Nat :=
  match s.inFlight with
  | some f => if f.token = t then f.balanceBefore else s.balanceOf t s.self
  | none => s.balanceOf t s.self

theorem minted_congr (hb : s'.bridged t = s.bridged t)
    (hs : s'.totalSupply (s.bridged t) = s.totalSupply (s.bridged t)) :
    s'.minted t = s.minted t := by
  simp [minted, hb, hs]

theorem setTokens_minted (h : s.bridged t ≠ EMPTY →
    tokens.totalSupply (s.bridged t) = s.totalSupply (s.bridged t)) :
    (s.setTokens tokens).minted t = s.minted t := by
  change (if s.bridged t = EMPTY then 0 else tokens.totalSupply (s.bridged t)) = _
  unfold minted
  split
  · rfl
  · rename_i hne
    exact h hne

theorem amountOf_singleton (chainId : Nat) (t : Address) (m : RemoteCall) :
    amountOf chainId t [m] = m.amountOf chainId t := by simp [amountOf]

theorem settled_none (h : s.inFlight = none) (t : Address) :
    s.settled t = s.balanceOf t s.self := by
  simp [settled, h]

theorem settled_some (h : s.inFlight = some f) (t : Address) :
    s.settled t = if f.token = t then f.balanceBefore else s.balanceOf t s.self := by
  simp [settled, h]

theorem settled_mono (s s' : TokenBridge) (hself : s'.self = s.self)
    (hflight : s'.inFlight = s.inFlight)
    (hle : s.balanceOf t s.self ≤ s'.balanceOf t s.self) :
    s.settled t ≤ s'.settled t ∧
      (s.settled t ≤ s.balanceOf t s.self → s'.settled t ≤ s'.balanceOf t s'.self) := by
  unfold settled
  rw [hself, hflight]
  split
  · split
    · exact ⟨le_rfl, fun h => h.trans hle⟩
    · exact ⟨hle, fun _ => le_rfl⟩
  · exact ⟨hle, fun _ => le_rfl⟩

/-- What a call takes into escrow it sends, and it never takes anything out. -/
theorem Effect.settled (he : Effect s e c s' out) (hchains : s.sourceChainId ≠ s.targetChainId)
    (hself : s.self ≠ e.sender) (t : Address) :
    s.settled t + amountOf s.sourceChainId t out.toList ≤ s'.settled t ∧
      (s.settled t ≤ s.balanceOf t s.self → s'.settled t ≤ s'.balanceOf t s'.self) := by
  cases he with
  | secure | setMessageService | setCustomContract | confirm | setReserved | removeReserved =>
    exact ⟨le_rfl, id⟩
  | @burn token amount tokens recipient hx hburn =>
    obtain ⟨-, hbalance, -⟩ := Tokens.burn_ok hburn
    rw [Option.toList_some, amountOf_singleton, RemoteCall.amountOf,
      if_neg fun hchain => hchains hchain.1.symm]
    refine settled_mono _ _ rfl rfl (le_of_eq ?_)
    change _ = tokens.balanceOf t s.self
    rw [hbalance]
    by_cases ht : t = token
    · subst ht
      simp [hself]
    · simp [ht]
  | @escrow token _ _ tokens _ _ _ hflight htransfer =>
    have hle := Tokens.transfer_le htransfer hself t
    rw [settled_none hflight, settled_some rfl]
    by_cases ht : token = t
    · subst ht
      simpa [amountOf] using hle
    · simpa [amountOf, ht] using hle
  | @finish f _ hf hle =>
    rw [settled_some hf, settled_none (arrive_inFlight f), Option.toList_some, amountOf_singleton,
      RemoteCall.amountOf]
    by_cases ht : f.token = t
    · subst ht
      simp
      omega
    · simp [ht]

theorem mint_le (hmint : s.mint x recipient amount = .ok tokens) (t : Address) :
    s.balanceOf t s.self ≤ tokens.balanceOf t s.self := by
  obtain ⟨hbalance, -⟩ := Tokens.mint_ok hmint
  rw [hbalance]
  by_cases ht : t = x
  · subst ht
    rw [update_self, Balances.give_add]
    exact Nat.le_add_right _ _
  · rw [update_of_ne ht]

section
variable (h : Sound s)
include h

theorem Sound.setStatus (token v : Address)
    (hv : v = EMPTY ∨ v = RESERVED_STATUS ∨ v = NATIVE_STATUS ∨ v = DEPLOYED_STATUS)
    (hkeep : s.Escrowed token → v = NATIVE_STATUS ∨ v = DEPLOYED_STATUS) :
    Sound (s.setStatus token v) ∧ Grows s (s.setStatus token v) := by
  have hbridged : (s.setStatus token v).bridged = s.bridged :=
    funext (setStatus_bridged h.chains token v)
  refine ⟨⟨hbridged.symm ▸ h.toMapped, h.chains, fun t => ?_, fun {f} hf => ?_, h.supply⟩,
    rfl, rfl, rfl, setStatus_escrowed hkeep⟩
  · have hstatus := h.status t
    simp only [Escrowed, setStatus_status] at hstatus ⊢
    by_cases ht : t = token
    · simpa [ht] using hv
    · simpa [ht] using hstatus
  · obtain ⟨hne, hf⟩ := h.flight hf
    exact ⟨hne, hf.imp_right (setStatus_escrowed hkeep)⟩

theorem Sound.setTokens (hcode : ∀ a, s.hasCode a = true → tokens.hasCode a = true)
    (hsupply : ∀ x, s.bridgedToNativeToken x ≠ EMPTY →
      ∑ a, tokens.balanceOf x a ≤ tokens.totalSupply x) : Sound (s.setTokens tokens) :=
  { h with hasCode := fun ht => hcode _ (h.hasCode ht), supply := hsupply _ }

theorem Sound.setInFlight {inFlight : Option InFlight} (hf : ∀ f, inFlight = some f →
      f.token ≠ EMPTY ∧ (f.nativeMappingValue = EMPTY ∨ s.Escrowed f.token)) :
    Sound { s with inFlight } :=
  { h with flight := hf _ }

theorem Sound.transfer (ht : s.transfer token sender recipient amount fee = .ok tokens) :
    Sound (s.setTokens tokens) := by
  obtain ⟨-, htotal, hcode, -⟩ := Tokens.transfer_ok ht
  refine h.setTokens (fun a ha => by rwa [hcode]) fun x hx => ?_
  rw [htotal]
  exact (Tokens.transfer_sum ht x).trans (h.supply hx)

theorem Sound.burn (hb : s.burn token account amount = .ok tokens) :
    Sound (s.setTokens tokens) := by
  obtain ⟨hle, hbalance, htotal, hcode⟩ := Tokens.burn_ok hb
  refine h.setTokens (fun a ha => by rwa [hcode]) fun x hx => ?_
  have hsum := h.supply hx
  rw [hbalance, htotal]
  by_cases hxt : x = token
  · subst hxt
    have htake := Balances.sum_take hle
    simp only [update_self]
    omega
  · simpa [hxt] using hsum

theorem Sound.mint (hm : s.mint token recipient amount = .ok tokens) :
    Sound (s.setTokens tokens) := by
  obtain ⟨hbalance, htotal, hcode⟩ := Tokens.mint_ok hm
  refine h.setTokens (fun a ha => by rwa [hcode]) fun x hx => ?_
  have hsum := h.supply hx
  rw [hbalance, htotal]
  by_cases hxt : x = token
  · subst hxt
    simp only [update_self, Balances.sum_give]
    omega
  · simpa [hxt] using hsum

theorem Sound.effect (hc : c.Routine) (he : Effect s e c s' out) : Sound s' ∧ Grows s s' := by
  cases he with
  | setMessageService _ hcall | setCustomContract hcall =>
    subst hcall
    exact hc.elim
  | secure security =>
    exact ⟨{ h with }, rfl, rfl, rfl, id⟩
  | setReserved _ hempty =>
    refine h.setStatus _ _ (by simp) fun hescrowed => ?_
    simp [Escrowed, hempty, EMPTY, NATIVE_STATUS, DEPLOYED_STATUS] at hescrowed
  | removeReserved _ hreserved =>
    refine h.setStatus _ _ (by simp) fun hescrowed => ?_
    simp [Escrowed, hreserved, RESERVED_STATUS, NATIVE_STATUS, DEPLOYED_STATUS] at hescrowed
  | confirm => exact ⟨h, rfl, rfl, rfl, id⟩
  | burn _ hburn => exact ⟨h.burn hburn, rfl, rfl, rfl, id⟩
  | @escrow token _ _ _ _ hne hreserved hflight htransfer =>
    refine ⟨(h.transfer htransfer).setInFlight ?_, rfl, rfl, rfl, id⟩
    rintro _ ⟨⟩
    refine ⟨hne, (h.status token).imp_right fun hstatus => ?_⟩
    exact hstatus.resolve_left hreserved
  | @finish f _ hf hle =>
    unfold arrive
    split
    · obtain ⟨hsound, hgrows⟩ := h.setStatus f.token NATIVE_STATUS (by simp) fun _ => .inl rfl
      exact ⟨hsound.setInFlight (by simp), hgrows.source, hgrows.target, hgrows.self,
        hgrows.escrowed⟩
    · exact ⟨h.setInFlight (by simp), rfl, rfl, rfl, id⟩

/-- A call from the remote bridge that is about a token in escrow here, or of the other chain. -/
def Expected (s : TokenBridge) : RemoteCall → Prop
  | .completeBridging nativeToken _ _ chainId _ => nativeToken ≠ EMPTY ∧
    (chainId = s.sourceChainId ∧ s.Escrowed nativeToken ∨ chainId = s.targetChainId)
  | .setDeployed _ => True

theorem Sound.setDeployed (nativeTokens : List Address) :
    let s' := nativeTokens.foldl (fun s token => s.setStatus token DEPLOYED_STATUS) s
    Sound s' ∧ Grows s s' ∧ s'.toTokens = s.toTokens ∧ s'.inFlight = s.inFlight ∧
      s'.bridgedToNativeToken = s.bridgedToNativeToken ∧ ∀ t, s'.bridged t = s.bridged t := by
  induction nativeTokens generalizing s with
  | nil => exact ⟨h, ⟨rfl, rfl, rfl, id⟩, rfl, rfl, rfl, fun _ => rfl⟩
  | cons token rest ih =>
    obtain ⟨hsound, hgrows⟩ := h.setStatus token DEPLOYED_STATUS (by simp) fun _ => .inr rfl
    obtain ⟨hs', hg', htokens, hflight, hnative, hbridged⟩ := ih hsound
    refine ⟨hs', { hg' with escrowed := ?_ }, htokens, hflight, hnative, fun t => ?_⟩
    · exact fun ht => hg'.escrowed (hgrows.escrowed ht)
    · exact (hbridged t).trans (setStatus_bridged h.chains token DEPLOYED_STATUS t)

theorem Sound.fresh (hx : s.hasCode x = false) (ht : s.bridged t ≠ EMPTY) : s.bridged t ≠ x := by
  rintro rfl
  rw [h.hasCode ht] at hx
  cases hx

theorem Sound.link (hempty : s.bridged nativeToken = EMPTY) (hfresh : s.hasCode x = false)
    (hx : x ≠ EMPTY ∧ x ≠ NATIVE_STATUS ∧ x ≠ DEPLOYED_STATUS) :
    Mapped (s.link nativeToken x).bridged (s.link nativeToken x).bridgedToNativeToken
      (update s.hasCode x true) := by
  constructor
  · intro y hy
    rw [link_native] at hy ⊢
    rw [link_bridged]
    by_cases hyx : y = x
    · subst hyx
      simp [hx.1]
    · simp only [hyx, if_false] at hy ⊢
      obtain ⟨hne, hb⟩ := h.bridged_native hy
      have hother : s.bridgedToNativeToken y ≠ nativeToken := by
        intro heq
        rw [heq, hempty] at hb
        exact hne hb.symm
      simp [hother, hne, hb]
  · intro t ht
    rw [link_bridged] at ht ⊢
    by_cases htn : t = nativeToken
    · subst htn
      simp [link_native]
    · simp only [htn, if_false] at ht ⊢
      rw [link_native, if_neg (h.fresh hfresh ht)]
      exact h.native_bridged ht
  · intro t ht
    rw [link_bridged] at ht ⊢
    by_cases htn : t = nativeToken
    · simp [htn]
    · simp only [htn, if_false] at ht ⊢
      rw [update_of_ne (h.fresh hfresh ht)]
      exact h.hasCode ht
  · intro t
    rw [link_bridged]
    split
    · exact hx.2
    · exact h.not_status

theorem Sound.deploy (hempty : s.bridged nativeToken = EMPTY)
    (hx : x = C.address s.self s.tokenBeacon s.sourceChainId nativeToken)
    (hcreate : s.create x = .ok created) : Sound ((s.link nativeToken x).setTokens created) := by
  obtain ⟨hfresh, hbalance, htotal, hcode⟩ := Tokens.create_ok hcreate
  have hstatus := link_status h.chains nativeToken x
  have hescrowed := link_escrowed h.chains nativeToken x
  have hmapped := h.link hempty hfresh (hx ▸ ⟨C.ne_empty, C.ne_native, C.ne_deployed⟩)
  refine ⟨hcode.symm ▸ hmapped, h.chains, fun t => ?_, fun {f} hf => ?_, fun {y} hy => ?_⟩
  · have hsame := h.status t
    rwa [← hstatus, ← hescrowed] at hsame
  · obtain ⟨hne, hf⟩ := h.flight hf
    exact ⟨hne, hf.imp_right (hescrowed f.token).mpr⟩
  · change (s.link nativeToken x).bridgedToNativeToken y ≠ EMPTY at hy
    change ∑ a, created.balanceOf y a ≤ created.totalSupply y
    rw [hbalance, htotal]
    rw [link_native] at hy
    by_cases hyx : y = x
    · subst hyx
      simp [s.no_code hfresh]
    · simp only [hyx, if_false] at hy
      simpa [hyx] using h.supply hy

omit h in
/-- A token that is not in escrow here is expected only of the other chain. -/
theorem Expected.target
    (hm : s.Expected (.completeBridging nativeToken amount recipient chainId tokenMetadata))
    (hnative : s.nativeToBridgedToken chainId nativeToken ≠ NATIVE_STATUS)
    (hdeployed : s.nativeToBridgedToken chainId nativeToken ≠ DEPLOYED_STATUS) :
    chainId = s.targetChainId := by
  rcases hm.2 with ⟨rfl, hescrowed | hescrowed⟩ | htarget
  · exact absurd hescrowed hnative
  · exact absurd hescrowed hdeployed
  · exact htarget

omit h in
theorem Expected.target_of_empty
    (hm : s.Expected (.completeBridging nativeToken amount recipient chainId tokenMetadata))
    (hempty : s.nativeToBridgedToken chainId nativeToken = EMPTY) :
    chainId = s.targetChainId := by
  refine hm.target ?_ ?_ <;> rw [hempty] <;> decide

theorem Sound.receipt (hm : s.Expected m) (hr : Receipt C s m s') : Sound s' ∧ Grows s s' := by
  cases hr with
  | setDeployed =>
    obtain ⟨hsound, hgrows, -⟩ := h.setDeployed _
    exact ⟨hsound, hgrows⟩
  | release _ _ htransfer => exact ⟨h.transfer htransfer, rfl, rfl, rfl, id⟩
  | deploy _ hempty hx hcreate hmint =>
    obtain rfl := hm.target_of_empty hempty
    have hsound := h.deploy hempty hx hcreate
    refine ⟨hsound.mint hmint, rfl, rfl, rfl, fun ht => ?_⟩
    exact (link_escrowed h.chains _ _ _).mpr ht
  | mint _ _ _ _ _ hmint => exact ⟨h.mint hmint, rfl, rfl, rfl, id⟩

theorem receipt_native (hm : s.Expected m) (hr : Receipt C s m s') (x : Address) :
    s'.bridgedToNativeToken x = s.bridgedToNativeToken x ∨
    ∃ nativeToken amount recipient tokenMetadata, s'.bridgedToNativeToken x = nativeToken ∧
      m = .completeBridging nativeToken amount recipient s.targetChainId tokenMetadata := by
  cases hr with
  | setDeployed =>
    obtain ⟨-, -, -, -, hnative, -⟩ := h.setDeployed _
    exact .inl (congrFun hnative x)
  | release | mint => exact .inl rfl
  | @deploy chainId nativeToken y _ _ _ _ _ _ hempty =>
    obtain rfl := hm.target_of_empty hempty
    have hlink := link_native s nativeToken y x
    by_cases hx : x = y
    · exact .inr ⟨nativeToken, _, _, _, hlink.trans (if_pos hx), rfl⟩
    · exact .inl (hlink.trans (if_neg hx))

-- Amounts

theorem Sound.bridged_eq_iff (hx : s.bridgedToNativeToken x ≠ EMPTY) :
    s.bridged t = x ↔ t = s.bridgedToNativeToken x := by
  obtain ⟨hne, hb⟩ := h.bridged_native hx
  refine ⟨?_, ?_⟩
  · rintro rfl
    exact (h.native_bridged hne).symm
  · rintro rfl
    exact hb

/-- What a call burns it sends back. -/
theorem Sound.effect_minted (hc : c.Routine) (he : Effect s e c s' out) (t : Address) :
    s'.minted t + amountOf s.targetChainId t out.toList = s.minted t := by
  cases he with
  | setMessageService _ hcall | setCustomContract hcall =>
    subst hcall
    exact hc.elim
  | secure | confirm => rfl
  | setReserved | removeReserved => exact minted_congr (setStatus_bridged h.chains _ _ t) rfl
  | escrow _ _ _ htransfer =>
    obtain ⟨-, htotal, -⟩ := Tokens.transfer_ok htransfer
    exact setTokens_minted fun _ => congrFun htotal _
  | @burn token amount tokens recipient hx hburn =>
    obtain ⟨hle, -, htotal, -⟩ := Tokens.burn_ok hburn
    obtain ⟨hne, hb⟩ := h.bridged_native hx
    have hsupply : amount ≤ s.totalSupply token :=
      (hle.trans (Finset.single_le_sum (fun _ _ => Nat.zero_le _) (Finset.mem_univ _))).trans
        (h.supply hx)
    have hminted : (s.setTokens tokens).minted t =
      if s.bridged t = EMPTY then 0 else tokens.totalSupply (s.bridged t) := rfl
    rw [Option.toList_some, amountOf_singleton, hminted, htotal, minted]
    by_cases ht : s.bridgedToNativeToken token = t
    · subst ht
      simp only [hb, hne, if_false, update_self, RemoteCall.amountOf, and_self, if_true]
      omega
    · have hother : s.bridged t ≠ token := by
        intro heq
        exact ht ((h.bridged_eq_iff hx).mp heq).symm
      simp [RemoteCall.amountOf, ht, hother]
  | @finish f _ hf hle =>
    rw [Option.toList_some, amountOf_singleton, RemoteCall.amountOf,
      if_neg fun hchain => h.chains hchain.1]
    unfold arrive
    split
    · exact minted_congr (setStatus_bridged h.chains _ _ t) rfl
    · rfl

theorem Sound.release_source
    (hm : s.Expected (.completeBridging nativeToken amount recipient chainId tokenMetadata))
    (hstatus : s.nativeToBridgedToken chainId nativeToken = NATIVE_STATUS ∨
      s.nativeToBridgedToken chainId nativeToken = DEPLOYED_STATUS) :
    chainId = s.sourceChainId := by
  rcases hm.2 with ⟨hsource, -⟩ | rfl
  · exact hsource
  · obtain ⟨hnative, hdeployed⟩ := h.not_status
    rcases hstatus with hstatus | hstatus
    · exact absurd hstatus hnative
    · exact absurd hstatus hdeployed

theorem Sound.mint_minted (hx : s.bridged nativeToken = x) (hne : x ≠ EMPTY)
    (hmint : s.mint x recipient amount = .ok tokens) (t : Address) :
    (s.setTokens tokens).minted t = s.minted t + if nativeToken = t then amount else 0 := by
  obtain ⟨-, htotal, -⟩ := Tokens.mint_ok hmint
  change (if s.bridged t = EMPTY then 0 else tokens.totalSupply (s.bridged t)) = _
  rw [htotal, minted]
  by_cases ht : nativeToken = t
  · subst ht
    simp [hx, hne]
  · have hother : s.bridged t ≠ x := by
      intro heq
      have hnative := h.native_bridged (by rwa [hx])
      have hsame := h.native_bridged (by rwa [heq])
      rw [hx] at hnative
      rw [heq] at hsame
      exact ht (hnative.symm.trans hsame)
    simp [ht, hother]

theorem Sound.deploy_minted (hempty : s.bridged nativeToken = EMPTY)
    (hcreate : s.create x = .ok created) :
    ((s.link nativeToken x).setTokens created).minted t = s.minted t := by
  obtain ⟨hfresh, -, htotal, -⟩ := Tokens.create_ok hcreate
  change (if (s.link nativeToken x).bridged t = EMPTY then 0
    else created.totalSupply ((s.link nativeToken x).bridged t)) = _
  rw [htotal, link_bridged, minted]
  by_cases ht : t = nativeToken
  · subst ht
    simp [hempty]
  · by_cases hne : s.bridged t = EMPTY
    · simp [ht, hne]
    · simp [ht, hne, h.fresh hfresh hne]

theorem Sound.receipt_minted (hm : s.Expected m) (hr : Receipt C s m s') (t : Address) :
    s'.minted t = s.minted t + m.amountOf s.targetChainId t := by
  cases hr with
  | setDeployed =>
    obtain ⟨-, -, htokens, -, -, hbridged⟩ := h.setDeployed _
    exact minted_congr (hbridged t) (by rw [htokens])
  | release _ hstatus htransfer =>
    obtain rfl := h.release_source hm hstatus
    obtain ⟨-, htotal, -⟩ := Tokens.transfer_ok htransfer
    rw [RemoteCall.amountOf, if_neg fun hchain => h.chains hchain.1]
    exact setTokens_minted fun _ => congrFun htotal _
  | @deploy _ nativeToken x created _ _ _ _ _ hempty hx hcreate hmint =>
    obtain rfl := hm.target_of_empty hempty
    have hsound := h.deploy hempty hx hcreate
    have hbridged := link_bridged s nativeToken x
    have hmint := hsound.mint_minted ((hbridged nativeToken).trans (if_pos rfl))
      (hx ▸ C.ne_empty) hmint t
    refine hmint.trans ?_
    rw [h.deploy_minted hempty hcreate]
    simp [RemoteCall.amountOf]
  | @mint x chainId nativeToken _ _ _ _ _ hx hnative hdeployed hempty hmint =>
    subst hx
    obtain rfl := hm.target hnative hdeployed
    simpa [RemoteCall.amountOf] using h.mint_minted rfl hempty hmint t

/-- What it brings of a token of the own chain leaves escrow. -/
theorem Sound.receipt_settled (hm : s.Expected m) (hr : Receipt C s m s') (t : Address) :
    s.settled t ≤ s'.settled t + m.amountOf s.sourceChainId t ∧
      (s.settled t ≤ s.balanceOf t s.self → s'.settled t ≤ s'.balanceOf t s'.self) := by
  cases hr with
  | setDeployed =>
    obtain ⟨-, hgrows, htokens, hflight, -⟩ := h.setDeployed _
    exact settled_mono _ _ hgrows.self hflight (by rw [htokens])
  | @release _ _ _ _ _ tokens _ hflight hstatus htransfer =>
    obtain rfl := h.release_source hm hstatus
    have hle := Tokens.transfer_sender htransfer t
    have hsettled : (s.setTokens tokens).settled t = tokens.balanceOf t s.self :=
      settled_none (s := s.setTokens tokens) hflight t
    rw [settled_none hflight, hsettled]
    refine ⟨?_, fun _ => le_rfl⟩
    simpa [RemoteCall.amountOf, eq_comm] using hle
  | @deploy _ nativeToken x created _ _ tokens _ _ _ _ hcreate hmint =>
    obtain ⟨-, hbalance, -⟩ := Tokens.create_ok hcreate
    have hle := mint_le (s := (s.link nativeToken x).setTokens created) hmint t
    rw [setTokens_toTokens, hbalance] at hle
    obtain ⟨hmono, hbound⟩ := settled_mono s ((s.link nativeToken x).setTokens tokens)
      rfl rfl hle
    exact ⟨hmono.trans (Nat.le_add_right _ _), hbound⟩
  | @mint x chainId nativeToken _ _ tokens _ _ _ _ _ _ hmint =>
    have hle := mint_le hmint t
    obtain ⟨hmono, hbound⟩ := settled_mono s (s.setTokens tokens) rfl rfl hle
    exact ⟨hmono.trans (Nat.le_add_right _ _), hbound⟩

end

end TokenBridge

end StatusNetwork.Bridging
