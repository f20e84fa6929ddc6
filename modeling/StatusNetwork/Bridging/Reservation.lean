import StatusNetwork.Bridging.Conservation

/-!
# Reserved tokens

A token stays reserved until its reservation is removed, and is not bridged meanwhile, as long as
the other chain has no token for it: `setDeployed` overwrites any status, and anybody may have it
sent for a token that the other chain knows, a custom contract included.
-/

namespace StatusNetwork.Bridging

open Security (Address)
open TokenBridge (call)

namespace TokenBridge

variable {C : Create2} {b b' other : TokenBridge} {e : Env}

structure Guarded (b : TokenBridge) : Prop where
  chains : b.sourceChainId ≠ b.targetChainId
  status (t : Address) : b.status t = EMPTY ∨ b.status t = RESERVED_STATUS ∨ b.Escrowed t
  noCode : b.hasCode RESERVED_STATUS = false
  natives (x : Address) : b.bridgedToNativeToken x ≠ EMPTY →
    b.bridged (b.bridgedToNativeToken x) ≠ EMPTY
  flight : b.inFlight = some f → b.status f.token ≠ RESERVED_STATUS ∧
    (f.nativeMappingValue = EMPTY ∨ b.Escrowed f.token)

/-- The other chain has no token for a token that is reserved. -/
def Apart (other b : TokenBridge) : Prop :=
  ∀ t, b.status t = RESERVED_STATUS → other.bridged t = EMPTY

theorem not_escrowed (h : b.status t = EMPTY ∨ b.status t = RESERVED_STATUS) : ¬ b.Escrowed t := by
  rcases h with h | h <;> rw [Escrowed, h] <;> decide

/-- A message to `b` from `other` that takes no token out of its reservation. -/
def Harmless (b other : TokenBridge) : RemoteCall → Prop
  | .completeBridging nativeToken _ _ chainId tokenMetadata =>
    chainId = b.sourceChainId ∧ tokenMetadata = none ∨
      chainId = b.targetChainId ∧ other.Escrowed nativeToken
  | .setDeployed nativeTokens => ∀ t ∈ nativeTokens, other.bridged t ≠ EMPTY

/-- What one bridge may do next to the other, apart from ending the reservation of some tokens. -/
structure Change (other b b' : TokenBridge) (sent : List RemoteCall) (ends : Address → Prop) :
    Prop where
  guarded : b'.Guarded
  source : b'.sourceChainId = b.sourceChainId
  target : b'.targetChainId = b.targetChainId
  escrowed (t : Address) : b.Escrowed t → b'.Escrowed t
  bridged (t : Address) : b.bridged t ≠ EMPTY → b'.bridged t ≠ EMPTY
  harmless : ∀ m ∈ sent, other.Harmless b' m
  reserves (t : Address) : b'.status t = RESERVED_STATUS →
    b.status t = RESERVED_STATUS ∨ other.bridged t = EMPTY
  links (t : Address) : b'.bridged t ≠ EMPTY →
    b.bridged t ≠ EMPTY ∨ other.status t ≠ RESERVED_STATUS
  keeps (t : Address) : b.status t = RESERVED_STATUS → ¬ ends t → b'.status t = RESERVED_STATUS

theorem Change.apart (h : Change other b b' sent ends) (hapart : Apart other b) :
    Apart other b' := fun t ht => (h.reserves t ht).elim (hapart t) id

theorem Change.trans (h : Change other b b' [] ends) (h' : Change other b' b'' sent ends) :
    Change other b b'' sent ends where
  guarded := h'.guarded
  source := h'.source.trans h.source
  target := h'.target.trans h.target
  escrowed t ht := h'.escrowed t (h.escrowed t ht)
  bridged t ht := h'.bridged t (h.bridged t ht)
  harmless := h'.harmless
  reserves t ht := (h'.reserves t ht).elim (h.reserves t) .inr
  links t ht := (h'.links t ht).elim (h.links t) .inr
  keeps t ht hends := h'.keeps t (h.keeps t ht hends) hends

theorem receive_metadata
    (h : b.receive C e fee (.completeBridging nativeToken amount recipient chainId none) = .ok b') :
    b.nativeToBridgedToken chainId nativeToken ≠ EMPTY := by
  intro hempty
  simp [receive, completeBridging, _completeBridging, deployBridgedToken, bind_eq_ok,
    hempty, show EMPTY ≠ NATIVE_STATUS by decide, show EMPTY ≠ DEPLOYED_STATUS by decide] at h

section
variable (hb : b.Guarded)
include hb

theorem Change.of_mappings (hsource : b'.sourceChainId = b.sourceChainId)
    (htarget : b'.targetChainId = b.targetChainId)
    (hbridged : b'.nativeToBridgedToken = b.nativeToBridgedToken)
    (hnative : b'.bridgedToNativeToken = b.bridgedToNativeToken)
    (hcode : b'.hasCode RESERVED_STATUS = false)
    (hflight : ∀ f, b'.inFlight = some f → b.status f.token ≠ RESERVED_STATUS ∧
      (f.nativeMappingValue = EMPTY ∨ b.Escrowed f.token))
      (hsent : ∀ m ∈ sent, other.Harmless b' m) : Change other b b' sent ends := by
  have hstatus (t : Address) : b'.status t = b.status t := by simp [status, hsource, hbridged]
  have hlink (t : Address) : b'.bridged t = b.bridged t := by
    simp [TokenBridge.bridged, htarget, hbridged]
  have hescrowed (t : Address) : b'.Escrowed t ↔ b.Escrowed t := by simp [Escrowed, hstatus]
  refine ⟨⟨?_, ?_, hcode, ?_, ?_⟩, hsource, htarget, ?_, ?_, hsent, ?_, ?_, ?_⟩
  · rw [hsource, htarget]
    exact hb.chains
  · simpa [hstatus, hescrowed] using hb.status
  · simpa [hlink, hnative] using hb.natives
  · exact fun {f} hf => by simpa [hstatus, hescrowed] using hflight f hf
  · exact fun t => (hescrowed t).mpr
  · exact fun t => (hlink t).symm ▸ id
  · exact fun t ht => .inl (hstatus t ▸ ht)
  · exact fun t ht => .inl (hlink t ▸ ht)
  · exact fun t ht _ => (hstatus t).trans ht

theorem Change.setTokens (hcode : tokens.hasCode RESERVED_STATUS = false) :
    Change other b (b.setTokens tokens) [] ends :=
  .of_mappings hb rfl rfl rfl rfl hcode (fun _ => hb.flight) nofun

theorem Change.setStatus
    (hv : v = EMPTY ∨ v = RESERVED_STATUS ∨ v = NATIVE_STATUS ∨ v = DEPLOYED_STATUS)
    (hkeep : b.Escrowed token → v = NATIVE_STATUS ∨ v = DEPLOYED_STATUS)
    (hreserve : v = RESERVED_STATUS → other.bridged token = EMPTY ∧
      ∀ f, b.inFlight = some f → f.token ≠ token)
    (hends : b.status token = RESERVED_STATUS → v = RESERVED_STATUS ∨ ends token) :
    Change other b (b.setStatus token v) [] ends := by
  have hbridged := setStatus_bridged hb.chains token v
  refine ⟨⟨hb.chains, fun t => ?_, hb.noCode, fun x => ?_, fun {f} hf => ?_⟩, rfl, rfl, ?_, ?_,
    nofun, fun t => ?_, ?_, fun t ht hne => ?_⟩
  · simp only [Escrowed, setStatus_status]
    split
    · exact hv
    · exact hb.status t
  · rw [hbridged]
    exact hb.natives x
  · obtain ⟨hne, hescrowed⟩ := hb.flight hf
    refine ⟨?_, hescrowed.imp_right (setStatus_escrowed hkeep)⟩
    rw [setStatus_status]
    split
    · rename_i htoken
      exact fun hv => (hreserve hv).2 f hf htoken
    · exact hne
  · exact fun t => setStatus_escrowed hkeep
  · exact fun t ht => (hbridged t).symm ▸ ht
  · rw [setStatus_status]
    split
    · rename_i htoken
      exact fun hv => .inr (htoken ▸ (hreserve hv).1)
    · exact .inl
  · exact fun t ht => .inl (hbridged t ▸ ht)
  · rw [setStatus_status]
    split
    · rename_i htoken
      subst htoken
      exact (hends ht).resolve_right hne
    · exact ht

theorem Change.link (hx : x ≠ EMPTY) (hstatus : other.status nativeToken ≠ RESERVED_STATUS) :
    Change other b (b.link nativeToken x) [] ends := by
  have hsame := link_status hb.chains nativeToken x
  have hescrowed := link_escrowed hb.chains nativeToken x
  refine ⟨⟨hb.chains, fun t => ?_, hb.noCode, fun y hy => ?_, fun {f} hf => ?_⟩, rfl, rfl,
    fun t => (hescrowed t).mpr, fun t ht => ?_, nofun, fun t ht => .inl (hsame t ▸ ht),
    fun t ht => ?_, fun t ht _ => (hsame t).trans ht⟩
  · rw [hsame, hescrowed]
    exact hb.status t
  · rw [link_native] at hy ⊢
    rw [link_bridged]
    by_cases hyx : y = x
    · simpa [hyx] using hx
    · rw [if_neg hyx] at hy ⊢
      split
      · exact hx
      · exact hb.natives y hy
  · rw [hsame, hescrowed]
    exact hb.flight hf
  · rw [link_bridged]
    split
    · exact hx
    · exact ht
  · rw [link_bridged] at ht
    split at ht <;> rename_i htoken
    · exact .inr (htoken ▸ hstatus)
    · exact .inl ht

-- Calls

/-- A custom contract is set for no token that is reserved on the other chain, and a token is
reserved only if the other chain has none for it and it is not being bridged. -/
def Call.Guarded (other b : TokenBridge) : Call → Prop
  | .setCustomContract nativeToken _ => other.status nativeToken ≠ RESERVED_STATUS
  | .setReserved token => other.bridged token = EMPTY ∧ ∀ f, b.inFlight = some f → f.token ≠ token
  | _ => True

theorem call_change {call : Call} (hsource : other.targetChainId = b.sourceChainId)
    (htarget : b.targetChainId = other.sourceChainId)
    (hauth : ¬ (e.sender = b.messageService ∧ e.messageSender = b.remoteSender))
    (hcall : call.Guarded other b) (h : b.call C e call = .ok (b', out)) :
    Change other b b' out.toList fun t => call = .removeReserved t := by
  cases call_effect hauth h with
  | secure | setMessageService =>
    exact .of_mappings hb rfl rfl rfl rfl hb.noCode (fun f => hb.flight) nofun
  | setCustomContract hc hx =>
    subst hc
    exact .link hb hx hcall
  | setReserved hc hempty =>
    subst hc
    exact .setStatus hb (by simp) (absurd · (not_escrowed (.inl hempty))) (fun _ => hcall)
      fun _ => .inl rfl
  | removeReserved hc hreserved =>
    exact .setStatus hb (by simp) (absurd · (not_escrowed (.inr hreserved)))
      (fun h => absurd h (by decide)) fun _ => .inr hc
  | confirm hnatives =>
    refine .of_mappings hb rfl rfl rfl rfl hb.noCode (fun f => hb.flight) ?_
    simp only [Option.toList_some, List.mem_singleton, forall_eq]
    intro t ht
    obtain ⟨hne, x, rfl⟩ := hnatives t ht
    exact hb.natives x hne
  | burn _ hburn =>
    obtain ⟨-, -, -, hcode⟩ := Tokens.burn_ok hburn
    refine .of_mappings hb rfl rfl rfl rfl ?_ (fun f => hb.flight) ?_
    · exact (congrFun hcode _).trans hb.noCode
    · simpa [Harmless] using .inl htarget
  | escrow _ hreserved _ htransfer =>
    obtain ⟨-, -, hcode, -⟩ := Tokens.transfer_ok htransfer
    refine .of_mappings hb rfl rfl rfl rfl ?_ ?_ nofun
    · exact (congrFun hcode _).trans hb.noCode
    · rintro _ ⟨⟩
      exact ⟨hreserved, (hb.status _).imp_right fun h => h.resolve_left hreserved⟩
  | @finish f _ hf =>
    obtain ⟨hne, hescrowed⟩ := hb.flight hf
    unfold arrive
    split
    · have hnative : Change other b (b.setStatus f.token NATIVE_STATUS) []
          fun t => call = .removeReserved t :=
        .setStatus hb (by simp) (fun _ => .inl rfl) (fun h => absurd h (by decide))
          fun h => absurd h hne
      refine hnative.trans (.of_mappings hnative.guarded rfl rfl rfl rfl hb.noCode nofun ?_)
      have harrived : (b.setStatus f.token NATIVE_STATUS).Escrowed f.token :=
        .inl (by rw [setStatus_status, if_pos rfl])
      simpa [Harmless] using .inr ⟨hsource.symm, harrived⟩
    · rename_i hstatus
      refine .of_mappings hb rfl rfl rfl rfl hb.noCode nofun ?_
      simpa [Harmless] using .inr ⟨hsource.symm, hescrowed.resolve_left hstatus⟩

-- Messages

theorem setDeployed_change {nativeTokens : List Address} (hapart : Apart other b)
    (h : ∀ t ∈ nativeTokens, other.bridged t ≠ EMPTY) :
    Change other b (nativeTokens.foldl (fun s token => s.setStatus token DEPLOYED_STATUS) b) []
      ends := by
  induction nativeTokens generalizing b with
  | nil => exact .of_mappings hb rfl rfl rfl rfl hb.noCode (fun f => hb.flight) nofun
  | cons t rest ih =>
    have hfirst : Change other b (b.setStatus t DEPLOYED_STATUS) [] ends :=
      .setStatus hb (by simp) (fun _ => .inr rfl) (fun h => absurd h (by decide))
        fun hreserved => absurd (hapart t hreserved) (h t List.mem_cons_self)
    exact hfirst.trans (ih hfirst.guarded (hfirst.apart hapart)
      fun t ht => h t (List.mem_cons_of_mem _ ht))

theorem receive_change (hapart : Apart other b) (hm : b.Harmless other m)
    (h : b.receive C e fee m = .ok b') : Change other b b' [] ends := by
  cases receive_effect h with
  | setDeployed => exact setDeployed_change hb hapart hm
  | release _ _ htransfer =>
    obtain ⟨-, -, hcode, -⟩ := Tokens.transfer_ok htransfer
    exact .setTokens hb ((congrFun hcode _).trans hb.noCode)
  | mint _ _ _ _ _ hmint =>
    obtain ⟨-, -, hcode⟩ := Tokens.mint_ok hmint
    exact .setTokens hb ((congrFun hcode _).trans hb.noCode)
  | deploy _ hempty hx hcreate hmint =>
    obtain ⟨-, -, -, hcreated⟩ := Tokens.create_ok hcreate
    obtain ⟨-, -, hcode⟩ := Tokens.mint_ok hmint
    obtain ⟨rfl, rfl⟩ | ⟨-, hescrowed⟩ := hm
    · exact absurd hempty (receive_metadata h)
    · have hlink : Change other b _ [] ends := .link hb (hx ▸ C.ne_empty)
        (mt Or.inr fun h => not_escrowed h hescrowed)
      refine hlink.trans (.setTokens hlink.guarded ?_)
      rw [hcode, hcreated, Function.update_of_ne (hx ▸ C.ne_reserved).symm]
      exact hb.noCode

theorem receive_reserved (ht : b.status t = RESERVED_STATUS) :
    b.receive C e fee (.completeBridging t amount recipient b.sourceChainId tokenMetadata) ≠
      .ok b' := by
  intro h
  cases receive_effect h with
  | release _ hstatus => exact not_escrowed (.inr ht) hstatus
  | deploy _ hempty => exact absurd (ht.symm.trans hempty) (by decide)
  | mint _ hx _ _ _ hmint =>
    obtain rfl := hx.trans ht
    rw [Tokens.mint, dif_neg (by simp [hb.noCode])] at hmint
    cases hmint

end

end TokenBridge

-- The system

namespace Bridges

open TokenBridge (Guarded Apart Harmless Change)

variable {C : Create2} {s s' : Bridges}

/-- Nobody lets the message service speak for the other bridge, no contract is created at the status
address, and custom contracts and reservations keep apart. -/
def Permitted (s : Bridges) : Action → Prop
  | .call c e call => call.Guarded (s.bridge c.other) (s.bridge c) ∧
    ¬ (e.sender = (s.bridge c).messageService ∧ e.messageSender = (s.bridge c).remoteSender)
  | .create _ account => account ≠ RESERVED_STATUS
  | _ => True

abbrev ReservingRun (C : Create2) (s : Bridges) (t : Nat) : Prop :=
  Runs.Reachable (fun _ => 0)
    (fun s => Initial s ∧ ∀ c, (s.bridge c).hasCode RESERVED_STATUS = false)
    (fun s a s' => s.Permitted a ∧ s.apply C a = .ok s') s t

/-- The actions that bridge a token of a chain. -/
def Uses (s : Bridges) (c : Chain) (t : Address) : Action → Prop
  | .call c' _ (.bridgeToken token ..) | .call c' _ (.bridgeTokenWithPermit token ..) =>
    c' = c ∧ token = t
  | .call c' _ (.finishBridging _) => c' = c ∧ ∃ f, (s.bridge c).inFlight = some f ∧ f.token = t
  | .deliver c' _ (.completeBridging token _ _ chainId _) _ =>
    c' = c ∧ token = t ∧ chainId = (s.bridge c).sourceChainId
  | _ => False

structure Reserving (s : Bridges) : Prop where
  guarded (c : Chain) : (s.bridge c).Guarded
  target (c : Chain) : (s.bridge c).targetChainId = (s.bridge c.other).sourceChainId
  apart (c : Chain) : Apart (s.bridge c.other) (s.bridge c)
  harmless (c : Chain) : ∀ m ∈ s.pending c, (s.bridge c).Harmless (s.bridge c.other) m

theorem Reserving.source (h : Reserving s) (c : Chain) :
    (s.bridge c.other).targetChainId = (s.bridge c).sourceChainId := by
  simpa using h.target c.other

theorem harmless_mono {b b₁ other other₁ : TokenBridge} (h : b.Harmless other m)
    (hsource : b₁.sourceChainId = b.sourceChainId) (htarget : b₁.targetChainId = b.targetChainId)
    (hescrowed : ∀ t, other.Escrowed t → other₁.Escrowed t)
    (hbridged : ∀ t, other.bridged t ≠ EMPTY → other₁.bridged t ≠ EMPTY) :
    b₁.Harmless other₁ m := by
  cases m with
  | completeBridging =>
    simp only [Harmless, hsource, htarget] at h ⊢
    exact h.imp_right (And.imp_right (hescrowed _))
  | setDeployed => exact fun t ht => hbridged t (h t ht)

theorem Reserving.change (h : Reserving s) (hc : Change (s.bridge c.other) (s.bridge c) b sent ends)
    (hleft : ∀ m ∈ left, m ∈ s.pending c) : Reserving (s.put c b left sent) := by
  constructor
  case guarded => exact c.both (by simpa using hc.guarded) (by simpa using h.guarded c.other)
  case target =>
    refine c.both ?_ ?_
    · simpa [hc.target] using h.target c
    · simpa [hc.source] using h.target c.other
  case apart =>
    refine c.both ?_ fun t ht => ?_
    · simpa using hc.apart (h.apart c)
    · have happart := h.apart c.other
      simp only [put_bridge_other, Chain.other_other, put_bridge_self] at ht happart ⊢
      by_contra hne
      exact (hc.links t hne).elim (absurd (happart t ht)) (absurd ht)
  case harmless =>
    refine c.both (fun m hm => ?_) fun m hm => ?_
    · simp only [put_pending_self, put_bridge_self, put_bridge_other] at hm ⊢
      exact harmless_mono (h.harmless c m (hleft m hm)) hc.source hc.target
        (fun _ => id) fun _ => id
    · have hharmless := h.harmless c.other m
      simp only [put_pending_other, put_bridge_other, Chain.other_other, put_bridge_self,
        List.mem_append] at hm hharmless ⊢
      rcases hm with hm | hm
      · exact harmless_mono (hharmless hm) rfl rfl hc.escrowed hc.bridged
      · exact hc.harmless m hm

/-- Each action changes one bridge, and ends only the reservation that it removes. -/
theorem Reserving.step (h : Reserving s) (hpermitted : s.Permitted a) (hs : s.apply C a = .ok s') :
    ∃ c b left sent, s' = s.put c b left sent ∧ (∀ m ∈ left, m ∈ s.pending c) ∧
      Change (s.bridge c.other) (s.bridge c) b sent
        fun t => ∃ e, a = .call c e (.removeReserved t) := by
  cases a with
  | call c e call =>
    obtain ⟨⟨b, out⟩, hcall, ⟨⟩⟩ := bind_eq_ok.mp hs
    have hchange := TokenBridge.call_change (h.guarded c) (h.source c) (h.target c) hpermitted.2
      hpermitted.1 hcall
    refine ⟨c, b, _, _, rfl, fun _ => id, { hchange with keeps := fun t ht hne => ?_ }⟩
    exact hchange.keeps t ht fun hremove => hne ⟨e, by rw [hremove]⟩
  | deliver c e message fee =>
    simp only [apply, bind_eq_ok, failIf_eq_ok, not_not] at hs
    obtain ⟨_, hmem, b, hreceive, ⟨⟩⟩ := hs
    exact ⟨c, b, _, [], rfl, fun _ => List.mem_of_mem_erase,
      TokenBridge.receive_change (h.guarded c) (h.apart c) (h.harmless c message hmem) hreceive⟩
  | transfer c token sender recipient amount fee =>
    obtain ⟨tokens, htransfer, ⟨⟩⟩ := bind_eq_ok.mp hs
    obtain ⟨-, -, hcode, -⟩ := Tokens.transfer_ok htransfer
    exact ⟨c, _, _, [], rfl, fun _ => id,
      .setTokens (h.guarded c) ((congrFun hcode _).trans (h.guarded c).noCode)⟩
  | setBalances c token balances =>
    simp only [apply] at hs
    split at hs
    · cases hs
      exact ⟨c, _, _, [], rfl, fun _ => id, .setTokens (h.guarded c) (h.guarded c).noCode⟩
    · cases hs
  | create c account =>
    obtain ⟨tokens, hcreate, ⟨⟩⟩ := bind_eq_ok.mp hs
    obtain ⟨-, -, -, hcode⟩ := Tokens.create_ok hcreate
    refine ⟨c, _, _, [], rfl, fun _ => id, .setTokens (h.guarded c) ?_⟩
    rw [hcode, Function.update_of_ne (Ne.symm hpermitted)]
    exact (h.guarded c).noCode

theorem Initial.reserving (h : Initial s)
    (hcode : ∀ c, (s.bridge c).hasCode RESERVED_STATUS = false) : Reserving s := by
  have hunused := h.unused
  constructor
  case guarded =>
    intro c
    have hflight := (hunused c).inFlight
    exact ⟨(hunused c).sound.chains, (hunused c).sound.status, hcode c,
      fun x hx => absurd ((hunused c).native x) hx, fun hf => by simp [hflight] at hf⟩
  case target => exact h.target
  case apart => exact fun c t _ => (hunused c.other).bridged t
  case harmless =>
    intro c m hm
    rw [h.pending] at hm
    cases hm

theorem ReservingRun.reserving (h : ReservingRun C s n) : Reserving s := by
  refine Runs.Reachable.invariant (I := fun s _ => Reserving s) (fun s _ hs => ?_) ?_ h
  · exact hs.1.reserving hs.2
  · rintro s _ a s' hs _ ⟨hpermitted, happly⟩
    obtain ⟨c, b, left, sent, rfl, hleft, hchange⟩ := hs.step hpermitted happly
    exact hs.change hchange hleft

theorem Reserving.not_uses (h : Reserving s) (hs : s.apply C a = .ok s')
    (ht : (s.bridge c).status t = RESERVED_STATUS) : ¬ s.Uses c t a := by
  have hbridge {e : Env} {token recipient : Address} {amount : Nat} {env : TokenEnv}
      {r : TokenBridge × Option RemoteCall}
      (hr : (s.bridge c)._bridgeToken e token amount recipient env = .ok r) : token ≠ t := by
    rintro rfl
    simp only [TokenBridge._bridgeToken, bind_eq_ok, failIf_eq_ok] at hr
    obtain ⟨_, -, _, -, _, -, _, hreserved, -⟩ := hr
    exact hreserved ht
  intro huses
  unfold Uses at huses
  split at huses
  · obtain ⟨rfl, htoken⟩ := huses
    simp only [apply, call, TokenBridge.bridgeToken, bind_eq_ok] at hs
    obtain ⟨_, ⟨_, -, _, -, hr⟩, -⟩ := hs
    exact hbridge hr htoken
  · obtain ⟨rfl, htoken⟩ := huses
    simp only [apply, call, TokenBridge.bridgeTokenWithPermit, bind_eq_ok] at hs
    obtain ⟨_, ⟨_, -, _, -, _, -, hr⟩, -⟩ := hs
    exact hbridge hr htoken
  · obtain ⟨rfl, f, hf, rfl⟩ := huses
    exact ((h.guarded _).flight hf).1 ht
  · obtain ⟨rfl, rfl, rfl⟩ := huses
    simp only [apply, bind_eq_ok] at hs
    obtain ⟨_, -, b, hreceive, -⟩ := hs
    exact TokenBridge.receive_reserved (h.guarded _) ht hreceive
  · exact huses

/-- A reserved token is not bridged, and stays reserved unless its reservation is removed. -/
theorem reserved_until_removed (h : ReservingRun C s n) (hpermitted : s.Permitted a)
    (hs : s.apply C a = .ok s') (ht : (s.bridge c).status t = RESERVED_STATUS) :
    ¬ s.Uses c t a ∧
      ((∀ e, a ≠ .call c e (.removeReserved t)) → (s'.bridge c).status t = RESERVED_STATUS) := by
  have hreserving := ReservingRun.reserving h
  refine ⟨hreserving.not_uses hs ht, fun hne => ?_⟩
  obtain ⟨d, b, left, sent, rfl, -, hchange⟩ := hreserving.step hpermitted hs
  rcases d.eq_or_other c with rfl | rfl
  · rw [put_bridge_self]
    exact hchange.keeps t ht fun ⟨e, he⟩ => hne e he
  · rwa [put_bridge_other]

def reservedDeployment : Bridges where
  bridge
    | .l1 => (TokenBridge.initialized 0xB1 userTokens
        { deployment 1 2 0xB2 with reservedTokens := [0x70] }).toOption.get rfl
    | .l2 => (TokenBridge.initialized 0xB2 noTokens
        { deployment 2 1 0xB1 with
          roleAddresses := [(SET_CUSTOM_CONTRACT_ROLE, 0xC0)] }).toOption.get rfl
  pending _ := []

theorem reservedDeployment_initial : Initial reservedDeployment := by
  refine ⟨fun c => ?_, fun c => by cases c <;> rfl, fun c => by cases c <;> rfl, fun _ => rfl⟩
  cases c
  · exact ⟨0xB1, userTokens, { deployment 1 2 0xB2 with reservedTokens := [0x70] }, rfl⟩
  · exact ⟨0xB2, noTokens, { deployment 2 1 0xB1 with
      roleAddresses := [(SET_CUSTOM_CONTRACT_ROLE, 0xC0)] }, rfl⟩

/-- A custom contract for another token is confirmed. -/
theorem reserved_until_removed_confirm : ∃ s s', ReservingRun oneAddress s 0 ∧
    s.apply oneAddress (.deliver .l1 (user 1) (.setDeployed [0x71]) 0) = .ok s' ∧
    (s'.bridge .l1).status 0x71 = DEPLOYED_STATUS ∧
    (s'.bridge .l1).status 0x70 = RESERVED_STATUS := by
  have hrun : (do
      let s₁ ← reservedDeployment.apply oneAddress
        (.call .l2 (user 0xC0) (.setCustomContract 0x71 0x77))
      let s₂ ← s₁.apply oneAddress (.call .l2 (user 1) (.confirmDeployment [0x77]))
      let s₃ ← s₂.apply oneAddress (.deliver .l1 (user 1) (.setDeployed [0x71]) 0)
      .ok ((s₁.bridge .l2).messageService, (s₂.bridge .l1).status 0x70,
        (s₃.bridge .l1).status 0x71)) =
        Except.ok (0x5E, RESERVED_STATUS, DEPLOYED_STATUS) := by decide +kernel
  simp only [bind_eq_ok, Except.ok.injEq, Prod.mk.injEq] at hrun
  obtain ⟨s₁, h₁, s₂, h₂, s₃, h₃, hservice, hreserved, hdeployed⟩ := hrun
  have hinit : ReservingRun oneAddress reservedDeployment 0 :=
    .init 0 ⟨reservedDeployment_initial, fun c => by cases c <;> rfl⟩
  have hr₁ : ReservingRun oneAddress s₁ 0 := hinit.step (Nat.le_refl 0) ⟨?_, h₁⟩
  have hr₂ : ReservingRun oneAddress s₂ 0 := hr₁.step (Nat.le_refl 0) ⟨?_, h₂⟩
  · refine ⟨s₂, s₃, hr₂, h₃, hdeployed, (reserved_until_removed hr₂ ?_ h₃ hreserved).2 nofun⟩
    exact trivial
  · exact ⟨trivial, fun h => absurd (h.1.trans hservice) (by decide)⟩
  · have hfree : (reservedDeployment.bridge .l1).status 0x71 ≠ RESERVED_STATUS := by
      decide +kernel
    exact ⟨hfree, by decide +kernel⟩

def confirmReserved : List Action :=
  [.call .l2 (user 0xC0) (.setCustomContract 0x70 0x77),
    .call .l2 (user 1) (.confirmDeployment [0x77]),
    .deliver .l1 (user 1) (.setDeployed [0x70]) 0,
    .call .l1 (user 1) (.bridgeToken 0x70 50 2 ⟨0, 50, false⟩)]

theorem reserved_token_bridged : ∃ s', Initial reservedDeployment ∧
    (reservedDeployment.bridge .l1).status 0x70 = RESERVED_STATUS ∧
    confirmReserved.foldlM (apply oneAddress) reservedDeployment = .ok s' ∧
    (s'.bridge .l1).status 0x70 = DEPLOYED_STATUS ∧
    (s'.bridge .l1).balanceOf 0x70 (s'.bridge .l1).self = 50 := by
  have hrun : (confirmReserved.foldlM (apply oneAddress) reservedDeployment).map (fun s' =>
      ((s'.bridge .l1).status 0x70, (s'.bridge .l1).balanceOf 0x70 (s'.bridge .l1).self)) =
        .ok (DEPLOYED_STATUS, 50) := by decide +kernel
  obtain ⟨s', hs', hobserved⟩ := map_eq_ok.mp hrun
  simp only [Prod.mk.injEq] at hobserved
  exact ⟨s', reservedDeployment_initial, rfl, hs', hobserved⟩

end Bridges

end StatusNetwork.Bridging
