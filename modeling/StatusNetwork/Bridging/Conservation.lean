import StatusNetwork.Bridging.TokenBridgeLaws

/-!
# Two bridges conserve what they hold

Two bridges are joined by a message service that delivers each message at most once, in any order.
Whatever the calls, the messages and the other holders of a token do, a bridge holds at least as
much of a token of its chain as was minted for it on the other one and is still on its way in either
direction, and on each chain the two mappings of bridged tokens are inverse to each other.
-/

namespace StatusNetwork.Bridging

open Security (Address)
open TokenBridge (Effect Escrowed Receipt arrive initialized minted setStatus setStatus_status
  setTokens_minted settled_mono)

-- The system

inductive Chain
  | l1
  | l2
  deriving DecidableEq

def Chain.other : Chain → Chain
  | .l1 => .l2
  | .l2 => .l1

@[simp] theorem Chain.other_other (c : Chain) : c.other.other = c := by cases c <;> rfl

@[simp] theorem Chain.other_ne (c : Chain) : c.other ≠ c := by cases c <;> decide

theorem Chain.eq_or_other (c d : Chain) : d = c ∨ d = c.other := by
  cases c <;> cases d <;> decide

theorem Chain.both {P : Chain → Prop} (c : Chain) (self : P c) (other : P c.other) (d : Chain) :
    P d := (c.eq_or_other d).elim (· ▸ self) (· ▸ other)

/-- The bridges, and the messages to each that were not delivered. -/
structure Bridges where
  bridge : Chain → TokenBridge
  pending : Chain → List RemoteCall

inductive Action
  | call (c : Chain) (e : Env) (call : TokenBridge.Call)
  | deliver (c : Chain) (e : Env) (message : RemoteCall) (fee : Nat)
  | transfer (c : Chain) (token sender recipient : Address) (amount fee : Nat)
  | setBalances (c : Chain) (token : Address) (balances : Address → Nat)
  | create (c : Chain) (account : Address)

namespace Bridges

variable (C : Create2) (s : Bridges)

/-- The bridge of `c` becomes `b`, with `left` to be delivered to it, and `sent` to the other. -/
def put (c : Chain) (b : TokenBridge) (left sent : List RemoteCall) : Bridges where
  bridge := Function.update s.bridge c b
  pending d := if d = c then left else s.pending d ++ sent

def setTokens (c : Chain) (tokens : Tokens) : Bridges :=
  s.put c ((s.bridge c).setTokens tokens) (s.pending c) []

def apply : Action → Except Revert Bridges
  | .call c e call => do
    let (b, out) ← (s.bridge c).call C e call
    .ok (s.put c b (s.pending c) out.toList)
  | .deliver c e message fee => do
    failIf (message ∉ s.pending c) .noSuchMessage
    let e := { e with
      sender := (s.bridge c).messageService
      messageSender := (s.bridge c.other).self }
    let b ← (s.bridge c).receive C e fee message
    .ok (s.put c b ((s.pending c).erase message) [])
  | .transfer c token sender recipient amount fee => do
    let tokens ← (s.bridge c).transfer token sender recipient amount fee
    .ok (s.setTokens c tokens)
  | .setBalances c token balances =>
    if h : (s.bridge c).hasCode token = true then
      .ok (s.setTokens c ((s.bridge c).setBalances token balances h))
    else .error (.noCode token)
  | .create c account => do
    let tokens ← (s.bridge c).create account
    .ok (s.setTokens c tokens)

/-- Nobody makes the bridge call itself or lets the message service speak for the other bridge, only
the bridge takes from its escrow, and the balances of a `faithful` token or of one that the bridge
deployed change by transfers alone. -/
def Allowed (faithful : Chain → Address → Prop) : Action → Prop
  | .call c e call => call.Routine ∧ (s.bridge c).self ≠ e.sender ∧
    ¬ (e.sender = (s.bridge c).messageService ∧ e.messageSender = (s.bridge c).remoteSender)
  | .deliver .. => True
  | .transfer c _ sender _ _ _ => (s.bridge c).self ≠ sender
  | .setBalances c token _ =>
    ¬ faithful c token ∧ (s.bridge c).bridgedToNativeToken token = EMPTY
  | .create .. => True

variable (faithful : Chain → Address → Prop)

def Step (a : Action) (s' : Bridges) : Prop := s.Allowed faithful a ∧ s.apply C a = .ok s'

structure Initial (s : Bridges) : Prop where
  initialized (c : Chain) :
    ∃ self tokens data, TokenBridge.initialized self tokens data = .ok (s.bridge c)
  target (c : Chain) : (s.bridge c).targetChainId = (s.bridge c.other).sourceChainId
  remoteSender (c : Chain) : (s.bridge c).remoteSender = (s.bridge c.other).self
  pending (c : Chain) : s.pending c = []

abbrev Run (s : Bridges) (t : Nat) : Prop :=
  Runs.Reachable (fun _ => 0) Initial (Step C · faithful · ·) s t

/-- What is owed for a token of the chain `c`: what was minted for it, and what is on its way. -/
def owed (c : Chain) (t : Address) : Nat :=
  (s.bridge c.other).minted t + amountOf (s.bridge c).sourceChainId t (s.pending c.other) +
    amountOf (s.bridge c).sourceChainId t (s.pending c)

-- Invariant

end Bridges

/-- A message to `b` from `b'` is about tokens that are in escrow on their chain. -/
def Addressed (b b' : TokenBridge) : RemoteCall → Prop
  | .completeBridging nativeToken _ _ chainId _ => nativeToken ≠ EMPTY ∧
    (chainId = b.sourceChainId ∧ b.Escrowed nativeToken ∨
      chainId = b.targetChainId ∧ b'.Escrowed nativeToken)
  | .setDeployed nativeTokens => ∀ t ∈ nativeTokens, b.Escrowed t

theorem Addressed.grows (h : Addressed b b' m) (hb : b.Grows b₁) (hb' : b'.Grows b₁') :
    Addressed b₁ b₁' m := by
  cases m with
  | setDeployed => exact fun t ht => hb.escrowed (h t ht)
  | completeBridging =>
    refine ⟨h.1, h.2.imp ?_ ?_⟩
    · rintro ⟨hchain, hescrowed⟩
      exact ⟨hchain.trans hb.source.symm, hb.escrowed hescrowed⟩
    · rintro ⟨hchain, hescrowed⟩
      exact ⟨hchain.trans hb.target.symm, hb'.escrowed hescrowed⟩

namespace Bridges

variable {C : Create2} {s s' : Bridges} {faithful : Chain → Address → Prop}

structure Invariant (faithful : Chain → Address → Prop) (s : Bridges) : Prop where
  sound (c : Chain) : (s.bridge c).Sound
  target (c : Chain) : (s.bridge c).targetChainId = (s.bridge c.other).sourceChainId
  natives (c : Chain) (x : Address) : (s.bridge c).bridgedToNativeToken x ≠ EMPTY →
    (s.bridge c.other).Escrowed ((s.bridge c).bridgedToNativeToken x)
  addressed (c : Chain) : ∀ m ∈ s.pending c, Addressed (s.bridge c) (s.bridge c.other) m
  owed_le (c : Chain) (t : Address) : faithful c t → s.owed c t ≤ (s.bridge c).settled t
  settled_le (c : Chain) (t : Address) : faithful c t →
    (s.bridge c).settled t ≤ (s.bridge c).balanceOf t (s.bridge c).self

/-- What one bridge may do, next to the other one: it sends and receives messages, and changes what
it minted and what it holds accordingly. -/
structure Move (faithful : Address → Prop) (other b b' : TokenBridge)
    (sent received : List RemoteCall) : Prop where
  sound : b'.Sound
  grows : b.Grows b'
  natives (x : Address) : b'.bridgedToNativeToken x ≠ EMPTY →
    other.Escrowed (b'.bridgedToNativeToken x)
  addressed : ∀ m ∈ sent, Addressed other b' m
  minted (t : Address) : b'.minted t + amountOf b.targetChainId t sent ≤
    b.minted t + amountOf b.targetChainId t received
  settled (t : Address) : faithful t → b.settled t + amountOf b.sourceChainId t sent ≤
    b'.settled t + amountOf b.sourceChainId t received
  settled_le (t : Address) : faithful t → b.settled t ≤ b.balanceOf t b.self →
    b'.settled t ≤ b'.balanceOf t b'.self

theorem amountOf_append (chainId : Nat) (t : Address) (l l' : List RemoteCall) :
    amountOf chainId t (l ++ l') = amountOf chainId t l + amountOf chainId t l' := by
  simp [amountOf]

theorem amountOf_perm (h : l.Perm l') (chainId : Nat) (t : Address) :
    amountOf chainId t l = amountOf chainId t l' := (h.map _).sum_eq

@[simp] theorem put_bridge_self : (s.put c b left sent).bridge c = b := by simp [put]

@[simp] theorem put_bridge_other : (s.put c b left sent).bridge c.other = s.bridge c.other := by
  simp [put]

@[simp] theorem put_pending_self : (s.put c b left sent).pending c = left := by simp [put]

@[simp] theorem put_pending_other :
    (s.put c b left sent).pending c.other = s.pending c.other ++ sent := by simp [put]

theorem owed_put_self (t : Address) (sent : List RemoteCall)
    (hp : (s.pending c).Perm (received ++ left))
    (hsource : b.sourceChainId = (s.bridge c).sourceChainId) :
    (s.put c b left sent).owed c t + amountOf (s.bridge c).sourceChainId t received =
      s.owed c t + amountOf (s.bridge c).sourceChainId t sent := by
  have hpending := amountOf_perm hp (s.bridge c).sourceChainId t
  simp only [owed, put_bridge_self, put_bridge_other, put_pending_self, put_pending_other,
    hsource, amountOf_append, hpending]
  omega

theorem owed_put_other (h : Invariant faithful s) (hp : (s.pending c).Perm (received ++ left))
    (hminted : b.minted t + amountOf (s.bridge c).targetChainId t sent ≤
      (s.bridge c).minted t + amountOf (s.bridge c).targetChainId t received) :
    (s.put c b left sent).owed c.other t ≤ s.owed c.other t := by
  have hpending := amountOf_perm hp (s.bridge c).targetChainId t
  simp only [owed, Chain.other_other, put_bridge_self, put_bridge_other, put_pending_self,
    put_pending_other, amountOf_append, ← h.target c, hpending]
  omega

theorem Invariant.move (h : Invariant faithful s)
    (hm : Move (faithful c) (s.bridge c.other) (s.bridge c) b sent received)
    (hp : (s.pending c).Perm (received ++ left)) : Invariant faithful (s.put c b left sent) := by
  have hgrows : (s.bridge c.other).Grows (s.bridge c.other) := ⟨rfl, rfl, rfl, id⟩
  constructor
  case sound => exact c.both (by simpa using hm.sound) (by simpa using h.sound c.other)
  case target =>
    refine c.both ?_ ?_
    · simpa [hm.grows.target] using h.target c
    · simpa [hm.grows.source] using h.target c.other
  case natives =>
    refine c.both ?_ fun x hx => ?_
    · simpa using hm.natives
    · have hescrowed := h.natives c.other x
      simp only [put_bridge_other, Chain.other_other, put_bridge_self] at hx hescrowed ⊢
      exact hm.grows.escrowed (hescrowed hx)
  case addressed =>
    refine c.both (fun m hmem => ?_) fun m hmem => ?_
    · simp only [put_pending_self, put_bridge_self, put_bridge_other] at hmem ⊢
      have hmem := hp.mem_iff.mpr (List.mem_append_right received hmem)
      exact (h.addressed c m hmem).grows hm.grows hgrows
    · have haddressed := h.addressed c.other m
      simp only [put_pending_other, put_bridge_other, Chain.other_other, put_bridge_self,
        List.mem_append] at hmem haddressed ⊢
      rcases hmem with hmem | hmem
      · exact (haddressed hmem).grows hgrows hm.grows
      · exact hm.addressed m hmem
  case owed_le =>
    refine c.both (fun t ht => ?_) fun t ht => ?_
    · have howed := h.owed_le c t ht
      have hself := owed_put_self t sent hp hm.grows.source
      have hsettled := hm.settled t ht
      rw [put_bridge_self]
      omega
    · rw [put_bridge_other]
      exact (owed_put_other h hp (hm.minted t)).trans (h.owed_le c.other t ht)
  case settled_le =>
    refine c.both (fun t ht => ?_) ?_
    · simpa using hm.settled_le t ht (h.settled_le c t ht)
    · simpa using h.settled_le c.other

-- Steps

/-- A bridge next to another one: what the invariant says of the two. -/
structure Neighbours (b other : TokenBridge) : Prop where
  sound : b.Sound
  target : b.targetChainId = other.sourceChainId
  source : other.targetChainId = b.sourceChainId
  natives (x : Address) : b.bridgedToNativeToken x ≠ EMPTY →
    other.Escrowed (b.bridgedToNativeToken x)

theorem Invariant.neighbours (h : Invariant faithful s) (c : Chain) :
    Neighbours (s.bridge c) (s.bridge c.other) where
  sound := h.sound c
  target := h.target c
  source := by simpa using h.target c.other
  natives := h.natives c

variable {b b' other : TokenBridge}

theorem effect_natives (hc : call.Routine) (he : Effect b e call b' out) :
    b'.bridgedToNativeToken = b.bridgedToNativeToken := by
  cases he with
  | setCustomContract hcall =>
    subst hcall
    exact hc.elim
  | finish =>
    unfold arrive
    split <;> rfl
  | _ => rfl

theorem arrive_escrowed (h : b.Sound) (hf : b.inFlight = some f) :
    (b.arrive f).Escrowed f.token := by
  unfold arrive
  split
  · refine .inl ?_
    change (b.setStatus f.token NATIVE_STATUS).status f.token = _
    rw [setStatus_status, if_pos rfl]
  · rename_i hne
    exact (h.flight hf).2.resolve_left hne

theorem Neighbours.addressed (h : Neighbours b other) (he : Effect b e call b' (some m)) :
    Addressed other b' m := by
  cases he with
  | confirm hnatives =>
    intro t ht
    obtain ⟨hne, x, rfl⟩ := hnatives t ht
    exact h.natives x hne
  | burn hx => exact ⟨hx, .inl ⟨h.target, h.natives _ hx⟩⟩
  | finish hf =>
    exact ⟨(h.sound.flight hf).1, .inr ⟨h.source.symm, arrive_escrowed h.sound hf⟩⟩

theorem Neighbours.call (h : Neighbours b other) (hc : c.Routine)
    (he : Effect b e c b' out) (hself : b.self ≠ e.sender) :
    Move here other b b' out.toList [] := by
  obtain ⟨hsound, hgrows⟩ := h.sound.effect hc he
  constructor
  case sound => exact hsound
  case grows => exact hgrows
  case natives =>
    rw [effect_natives hc he]
    exact h.natives
  case addressed =>
    intro m hm
    obtain rfl := Option.mem_toList.mp hm
    exact h.addressed he
  case minted => exact fun t => (h.sound.effect_minted hc he t).le
  case settled => exact fun t _ => (he.settled h.sound.chains hself t).1
  case settled_le => exact fun t _ => (he.settled h.sound.chains hself t).2

theorem Addressed.expected (h : Addressed b b' m) : b.Expected m := by
  cases m with
  | setDeployed => trivial
  | completeBridging => exact ⟨h.1, h.2.imp_right And.left⟩

/-- A message that arrives. -/
theorem Neighbours.deliver (h : Neighbours b other) (hm : Addressed b other m)
    (hr : Receipt C b m b') : Move here other b b' [] [m] := by
  have hexpected := Addressed.expected hm
  obtain ⟨hsound, hgrows⟩ := h.sound.receipt hexpected hr
  constructor
  case sound => exact hsound
  case grows => exact hgrows
  case natives =>
    intro x hx
    rcases TokenBridge.receipt_native h.sound hexpected hr x with
      hsame | ⟨nativeToken, _, _, _, hnew, rfl⟩
    · rw [hsame] at hx ⊢
      exact h.natives x hx
    · rw [hnew]
      -- a token is deployed only for one of the other chain
      obtain ⟨hchain, -⟩ | ⟨-, hescrowed⟩ := hm.2
      · exact absurd hchain.symm h.sound.chains
      · exact hescrowed
  case addressed => exact fun _ hmem => absurd hmem List.not_mem_nil
  case minted =>
    intro t
    rw [h.sound.receipt_minted hexpected hr t]
    exact le_rfl
  case settled =>
    intro t _
    exact (h.sound.receipt_settled hexpected hr t).1
  case settled_le => exact fun t _ => (h.sound.receipt_settled hexpected hr t).2

theorem Neighbours.setTokens (h : Neighbours b other) (hsound : (b.setTokens tokens).Sound)
    (hminted : ∀ t, (b.setTokens tokens).minted t ≤ b.minted t)
    (hbalance : ∀ t, here t → b.balanceOf t b.self ≤ tokens.balanceOf t b.self) :
    Move here other b (b.setTokens tokens) [] [] where
  sound := hsound
  grows := ⟨rfl, rfl, rfl, id⟩
  natives := h.natives
  addressed := fun _ hmem => absurd hmem List.not_mem_nil
  minted := hminted
  settled := fun t ht =>
    (settled_mono b (b.setTokens tokens) rfl rfl (hbalance t ht)).1
  settled_le := fun t ht =>
    (settled_mono b (b.setTokens tokens) rfl rfl (hbalance t ht)).2

section
variable (h : Invariant faithful s)
include h

theorem Invariant.setTokens (hsound : ((s.bridge c).setTokens tokens).Sound)
    (hminted : ∀ t, ((s.bridge c).setTokens tokens).minted t ≤ (s.bridge c).minted t)
    (hbalance : ∀ t, faithful c t →
      (s.bridge c).balanceOf t (s.bridge c).self ≤ tokens.balanceOf t (s.bridge c).self) :
    Invariant faithful (s.setTokens c tokens) :=
  h.move ((h.neighbours c).setTokens hsound hminted hbalance) (List.Perm.refl _)

theorem Invariant.transfer (hself : (s.bridge c).self ≠ sender)
    (ht : (s.bridge c).transfer token sender recipient amount fee = .ok tokens) :
    Invariant faithful (s.setTokens c tokens) := by
  obtain ⟨-, htotal, -⟩ := Tokens.transfer_ok ht
  refine h.setTokens ((h.sound c).transfer ht) (fun t => ?_)
    fun t _ => Tokens.transfer_le ht hself t
  exact (setTokens_minted fun _ => congrFun htotal _).le

theorem Invariant.setBalances (hfaithful : ¬ faithful c token)
    (hnative : (s.bridge c).bridgedToNativeToken token = EMPTY)
    (hcode : (s.bridge c).hasCode token = true) :
    Invariant faithful (s.setTokens c ((s.bridge c).setBalances token balances hcode)) := by
  have hother (t : Address) (ht : t ≠ token) :
      ((s.bridge c).setBalances token balances hcode).balanceOf t = (s.bridge c).balanceOf t :=
    Function.update_of_ne ht _ _
  refine h.setTokens ?_ (fun t => le_rfl) fun t ht => ?_
  · refine (h.sound c).setTokens (fun a ha => ha) fun x hx => ?_
    rw [hother x (by rintro rfl; exact hx hnative)]
    exact (h.sound c).supply hx
  · rw [hother t (by rintro rfl; exact hfaithful ht)]

theorem Invariant.create (hcreate : (s.bridge c).create account = .ok tokens) :
    Invariant faithful (s.setTokens c tokens) := by
  obtain ⟨hfresh, hbalance, htotal, hcode⟩ := Tokens.create_ok hcreate
  have hsupply (x : Address) (hx : (s.bridge c).bridgedToNativeToken x ≠ EMPTY) : x ≠ account := by
    obtain ⟨hne, hb⟩ := (h.sound c).bridged_native hx
    have hfresh := (h.sound c).fresh hfresh (by rwa [hb])
    rwa [hb] at hfresh
  refine h.setTokens ?_ (fun t => ?_) fun t _ => by rw [hbalance]
  · refine (h.sound c).setTokens (fun a ha => ?_) fun x hx => ?_
    · rw [hcode, Function.update_apply]
      split
      · rfl
      · exact ha
    · rw [hbalance, htotal, Function.update_of_ne (hsupply x hx)]
      exact (h.sound c).supply hx
  · refine (setTokens_minted fun hne => ?_).le
    rw [htotal, Function.update_of_ne ((h.sound c).fresh hfresh hne)]

theorem Invariant.step (hs : s.Step C faithful a s') : Invariant faithful s' := by
  obtain ⟨hallowed, hs⟩ := hs
  cases a with
  | call c e call =>
    obtain ⟨⟨b, out⟩, hcall, ⟨⟩⟩ := bind_eq_ok.mp hs
    obtain ⟨hroutine, hself, hauth⟩ := hallowed
    have heffect := TokenBridge.call_effect hauth hcall
    exact h.move ((h.neighbours c).call hroutine heffect hself) (List.Perm.refl _)
  | deliver c e message fee =>
    simp only [apply, bind_eq_ok, failIf_eq_ok, not_not] at hs
    obtain ⟨_, hmem, b, hreceive, ⟨⟩⟩ := hs
    have hreceipt := TokenBridge.receive_effect hreceive
    exact h.move ((h.neighbours c).deliver (h.addressed c message hmem) hreceipt)
      (List.perm_cons_erase hmem)
  | transfer c token sender recipient amount fee =>
    obtain ⟨tokens, htransfer, ⟨⟩⟩ := bind_eq_ok.mp hs
    exact h.transfer hallowed htransfer
  | setBalances c token balances =>
    simp only [apply] at hs
    split at hs
    · cases hs
      exact h.setBalances hallowed.1 hallowed.2 _
    · cases hs
  | create c account =>
    obtain ⟨tokens, hcreate, ⟨⟩⟩ := bind_eq_ok.mp hs
    exact h.create hcreate

end

-- Deployment

structure Unused (s : TokenBridge) : Prop where
  sound : s.Sound
  inFlight : s.inFlight = none
  native (x : Address) : s.bridgedToNativeToken x = EMPTY
  bridged (t : Address) : s.bridged t = EMPTY
  status (t : Address) : ¬ s.Escrowed t

theorem initialized_unused (h : initialized self tokens data = .ok b) : Unused b := by
  simp only [initialized, bind_eq_ok, failIf_eq_ok] at h
  obtain ⟨_, -, _, -, _, -, _, -, _, -, roles, -, _, hchains, _, -, h⟩ := h
  refine (Except.foldlM_invariant (fun s : TokenBridge =>
    s.sourceChainId = data.sourceChainId ∧ Unused s) ?_ ⟨rfl, ?_⟩ h).2
  · rintro s token s' ⟨hsource, hunused⟩ hstep
    obtain ⟨_, -, ⟨⟩⟩ := bind_eq_ok.mp hstep
    have hset : s.setBridged data.sourceChainId token RESERVED_STATUS =
        s.setStatus token RESERVED_STATUS := by rw [setStatus, hsource]
    rw [hset]
    have hkeep (hescrowed : s.Escrowed token) :
        RESERVED_STATUS = NATIVE_STATUS ∨ RESERVED_STATUS = DEPLOYED_STATUS :=
      absurd hescrowed (hunused.status token)
    refine ⟨hsource, (hunused.sound.setStatus _ _ (by simp) hkeep).1, hunused.inFlight,
      hunused.native, fun t => ?_, fun t => ?_⟩
    · rw [TokenBridge.setStatus_bridged hunused.sound.chains]
      exact hunused.bridged t
    · have hstatus := hunused.status t
      simp only [Escrowed, setStatus_status] at hstatus ⊢
      split
      · decide
      · exact hstatus
  · have hescrowed (t : Address) : ¬ (EMPTY = NATIVE_STATUS ∨ EMPTY = DEPLOYED_STATUS) := by decide
    refine ⟨?_, rfl, fun _ => rfl, fun _ => rfl, hescrowed⟩
    exact {
      chains := hchains
      status := fun _ => .inl rfl
      flight := by rintro _ ⟨⟩
      bridged_native := fun hx => absurd rfl hx
      native_bridged := fun ht => absurd rfl ht
      hasCode := fun ht => absurd rfl ht
      not_status := not_or.mp (hescrowed EMPTY)
      supply := fun hx => absurd rfl hx }

theorem Initial.unused (h : Initial s) (c : Chain) : Unused (s.bridge c) := by
  obtain ⟨self, tokens, data, hinit⟩ := h.initialized c
  exact initialized_unused hinit

theorem Initial.invariant (h : Initial s) : Invariant faithful s := by
  have hunused := h.unused
  have howed (c : Chain) (t : Address) : s.owed c t = 0 := by
    simp [owed, h.pending, amountOf, minted, (hunused c.other).bridged]
  constructor
  case sound => exact fun c => (hunused c).sound
  case target => exact h.target
  case natives => exact fun c x hx => absurd ((hunused c).native x) hx
  case addressed =>
    intro c m hm
    rw [h.pending] at hm
    cases hm
  case owed_le =>
    intro c t _
    rw [howed]
    exact Nat.zero_le _
  case settled_le => exact fun c t _ => (TokenBridge.settled_none (hunused c).inFlight t).le

theorem Run.invariant (h : Run C faithful s n) : Invariant faithful s :=
  Runs.Reachable.invariant (fun _ _ hs => hs.invariant) (fun _ _ _ _ hs _ hstep => hs.step hstep) h

-- Conservation

/-- The bridge of a token's chain holds what was minted for the token on the other chain and what is
on its way, and the mappings of either bridge are inverse to each other. -/
theorem tokens_conserved (h : Run C faithful s n) :
    (∀ c t, faithful c t → s.owed c t ≤ (s.bridge c).balanceOf t (s.bridge c).self) ∧
    ∀ c, let b := s.bridge c
      (∀ x, b.bridgedToNativeToken x ≠ EMPTY →
        b.nativeToBridgedToken b.targetChainId (b.bridgedToNativeToken x) = x) ∧
      ∀ t, b.nativeToBridgedToken b.targetChainId t ≠ EMPTY →
        b.bridgedToNativeToken (b.nativeToBridgedToken b.targetChainId t) = t := by
  have hinv := h.invariant
  refine ⟨fun c t ht => (hinv.owed_le c t ht).trans (hinv.settled_le c t ht), fun c => ⟨?_, ?_⟩⟩
  · exact fun x hx => ((hinv.sound c).bridged_native hx).2
  · exact fun t ht => (hinv.sound c).native_bridged ht

instance (call : TokenBridge.Call) : Decidable call.Routine :=
  match call with
  | .setCustomContract .. | .setMessageService .. => isFalse id
  | .bridgeToken .. | .bridgeTokenWithPermit .. | .finishBridging _ | .remote .. |
    .confirmDeployment _ | .setReserved _ | .removeReserved _ | .secure _ => isTrue trivial

instance [∀ c t, Decidable (faithful c t)] (s : Bridges) (a : Action) :
    Decidable (s.Allowed faithful a) :=
  match a with
  | .call .. => inferInstanceAs (Decidable (_ ∧ _ ∧ ¬ _))
  | .deliver .. | .create .. => isTrue trivial
  | .transfer .. => inferInstanceAs (Decidable (_ ≠ _))
  | .setBalances .. => inferInstanceAs (Decidable (¬ _ ∧ _))

def userTokens : Tokens where
  balanceOf token account := if token = 0x70 ∧ account = 1 then 100 else 0
  totalSupply _ := 0
  hasCode account := account = 0x70
  no_code := by
    intro token account h
    exact if_neg fun hheld => of_decide_eq_false h hheld.1

def noTokens : Tokens where
  balanceOf _ _ := 0
  totalSupply _ := 0
  hasCode _ := false
  no_code := fun _ => rfl

def deployment (sourceChainId targetChainId : Nat) (remoteSender : Address) :
    InitializationData where
  defaultAdmin := 0xAD
  messageService := 0x5E
  tokenBeacon := 0xBE
  sourceChainId := sourceChainId
  targetChainId := targetChainId
  remoteSender := remoteSender
  reservedTokens := [0x66]
  roleAddresses := []
  pauseTypeRoles := []
  unpauseTypeRoles := []

def deployed : Bridges where
  bridge
    | .l1 => (TokenBridge.initialized 0xB1 userTokens (deployment 1 2 0xB2)).toOption.get rfl
    | .l2 => (TokenBridge.initialized 0xB2 noTokens (deployment 2 1 0xB1)).toOption.get rfl
  pending _ := []

theorem deployed_initial : Initial deployed where
  initialized c := by
    cases c
    · exact ⟨0xB1, userTokens, deployment 1 2 0xB2, rfl⟩
    · exact ⟨0xB2, noTokens, deployment 2 1 0xB1, rfl⟩
  target c := by cases c <;> rfl
  remoteSender c := by cases c <;> rfl
  pending _ := rfl

/-- Puts every token at one address. -/
def oneAddress : Create2 where
  address _ _ _ _ := 0x999
  ne_empty := by
    intros
    decide
  ne_reserved := by
    intros
    decide
  ne_native := by
    intros
    decide
  ne_deployed := by
    intros
    decide

def user (account : Address) : Env where
  sender := account
  value := 0
  now := 0
  now_lt := by decide
  messageSender := 0

/-- Of 50 sent to L2 the token keeps 5; of the 45 that arrive 20 are sent back. -/
theorem tokens_conserved_there_and_back : ∃ s, Run oneAddress (fun _ _ => True) s 0 ∧
    (s.bridge .l2).minted 0x70 = 25 ∧ s.owed .l1 0x70 = 45 ∧
    s.owed .l1 0x70 ≤ (s.bridge .l1).balanceOf 0x70 (s.bridge .l1).self := by
  obtain ⟨s, h, hobserved⟩ : ∃ s, Run oneAddress (fun _ _ => True) s 0 ∧
      ((s.bridge .l2).minted 0x70, s.owed .l1 0x70) = (25, 45) :=
    Runs.exists_reachable_guarded (fun s a => s.Allowed (fun _ _ => True) a) .noSuchMessage
      (fun _ _ _ hallowed h => ⟨of_decide_eq_true hallowed, h⟩) (.init 0 deployed_initial)
      [.call .l1 (user 1) (.bridgeToken 0x70 50 2 ⟨5, 50, false⟩),
        .call .l1 (user 1) (.finishBridging ⟨"Token", "TKN", some 18⟩),
        .deliver .l2 (user 0) (.completeBridging 0x70 45 2 1 (some ⟨"Token", "TKN", 18⟩)) 0,
        .call .l2 (user 2) (.bridgeToken 0x999 20 3 ⟨0, 20, false⟩)] _ (by decide +kernel)
  simp only [Prod.mk.injEq] at hobserved
  exact ⟨s, h, hobserved.1, hobserved.2, (tokens_conserved h).1 .l1 0x70 trivial⟩

end Bridges

end StatusNetwork.Bridging
