import StatusNetwork.StateManager.AccessGrammar
import StatusNetwork.StateManager.Inspection
import StatusNetwork.Prover.AccumulatorSteps

/-!
# Storage roots

An accepted list of traces ties the storage root an account records to its
storage traces (`checkTraces_justified_iff`), except where no storage trace comes
before the trace of the world state: there no root is checked.
-/

namespace StatusNetwork.StateManager

open Prover

variable (compress : Compress)

-- What the traces should say

def relatedTo (a : Address) (traces : List DecodedTrace) : List DecodedTrace :=
  traces.filter fun t => t.getRelatedAccount.toOption = some a

/-- The storage traces are accepted one after another. -/
inductive Audited : VerifierState → List DecodedTrace → VerifierState → Prop
  | nil : Audited vs [] vs
  | cons : dec.underlying = .st t → vs.audit compress t = .ok (none, vs') →
      Audited vs' rest vs'' → Audited vs (dec :: rest) vs''

/-- The storage traces lead from one storage root to another. -/
inductive LeadsTo : List DecodedTrace → Digest → Digest → Prop
  | none : LeadsTo [] root root
  | run : seg ≠ [] → Audited compress vs seg vs' →
      LeadsTo seg (vs.topRoot compress) (vs'.topRoot compress)

/-- The storage traces of the account `a` right before its world-state trace `t`. -/
def Precede (traces : List DecodedTrace) (a : Address) (seg : List DecodedTrace)
    (t : DecodedTrace) : Prop :=
  IsStorage seg ∧ t.isWorldState ∧ ∃ pre post, relatedTo a traces = pre ++ seg ++ t :: post ∧
    ∀ w ∈ pre.getLast?, w.isWorldState

/-- The storage root the trace `t` records changes as the traces `seg` say. -/
def RootsFollow (seg : List DecodedTrace) (t : DecodedTrace) : Prop :=
  (∀ u, t.underlying = .ws (.update u) →
    LeadsTo compress seg u.oldValue.storageRoot u.newValue.storageRoot) ∧
  (∀ u empty, t.underlying = .ws (.insertion u) → zkhashEmptyStorage compress = .ok empty →
    LeadsTo compress seg empty u.val.storageRoot)

/-- Every recorded change of a storage root is justified by storage traces. -/
def Justified (traces : List DecodedTrace) : Prop :=
  ∀ a seg t, Precede traces a seg t → RootsFollow compress seg t

/-- Where no storage trace comes before it, an update keeps the storage root and
an insertion has the empty one. -/
def NoSilentChange (traces : List DecodedTrace) : Prop :=
  ∀ a t, Precede traces a [] t →
    (∀ u, t.underlying = .ws (.update u) → u.oldValue.storageRoot = u.newValue.storageRoot) ∧
    (∀ u empty, t.underlying = .ws (.insertion u) → zkhashEmptyStorage compress = .ok empty →
      u.val.storageRoot = empty)

variable {compress}

theorem leadsTo_nil : LeadsTo compress [] old new ↔ old = new := by
  constructor
  · intro h
    cases h with
    | none => rfl
    | run hne => exact absurd rfl hne
  · rintro rfl
    exact .none

-- One splice

theorem spliceFrom_audited (h : spliceFrom compress vs seg = .ok (.ok vs')) :
    Audited compress vs seg vs' := by
  induction seg generalizing vs with
  | nil =>
    obtain rfl : vs = vs' := by simpa [spliceFrom] using h
    exact .nil
  | cons dec rest ih =>
    rw [spliceFrom, bind_eq_ok] at h
    obtain ⟨⟨err, vs₁⟩, haudit, h⟩ := h
    cases err with
    | some e => simp at h
    | none =>
      cases hu : dec.underlying with
      | ws t => simp [auditST, hu] at haudit
      | st t =>
        rw [auditST, hu] at haudit
        exact .cons hu haudit (ih h)

theorem checkSpliceST_leadsTo (h : checkSpliceST compress seg = .ok (.ok (old, new))) :
    LeadsTo compress seg old new := by
  cases seg with
  | nil => simp [checkSpliceST] at h
  | cons first rest =>
    simp only [checkSpliceST, bind_eq_ok] at h
    obtain ⟨vs, -, r, hr, h⟩ := h
    cases r with
    | error e => simp at h
    | ok vs' =>
      obtain ⟨rfl, rfl⟩ : vs.topRoot compress = old ∧ vs'.topRoot compress = new := by
        simpa using h
      exact .run (by simp) (spliceFrom_audited hr)

theorem checkRoots_follow (hempty : zkhashEmptyStorage compress = .ok empty)
    (hroots : checkRoots empty t old new = .ok none) (hseg : LeadsTo compress seg old new) :
    RootsFollow compress seg t := by
  constructor
  · intro u hu
    simp only [checkRoots, hu] at hroots
    split at hroots
    · simp at hroots
    · rename_i hc
      rw [not_or, not_not, not_not] at hc
      rwa [hc.1, hc.2]
  · intro u empty' hu hempty'
    obtain rfl : empty = empty' := by simpa [hempty] using hempty'
    simp only [checkRoots, hu] at hroots
    split at hroots
    · simp at hroots
    · split at hroots
      · simp at hroots
      · rename_i hold hnew
        rw [not_not] at hold hnew
        rwa [hnew, ← hold]

theorem rootsFollow_of_read (h : t.kind = .ws .readNonZero) : RootsFollow compress seg t := by
  constructor
  · intro u hu
    simp [DecodedTrace.kind, hu, Underlying.kind, operation] at h
  · intro u empty hu
    simp [DecodedTrace.kind, hu, Underlying.kind, operation] at h

-- One account

theorem storage_split (hseg : IsStorage seg) (ht : t.isWorldState) (hseg' : IsStorage seg')
    (ht' : t'.isWorldState) (h : seg ++ t :: rest = seg' ++ t' :: rest') :
    seg = seg' ∧ t = t' ∧ rest = rest' := by
  have htake {s : List DecodedTrace} {w r} (hs : IsStorage s) (hw : w.isWorldState) :
      (s ++ w :: r).takeWhile (!·.isWorldState) = s := by
    rw [List.takeWhile_append_of_pos (by simpa [IsStorage] using hs), List.takeWhile_cons_of_neg
      (by simp [hw]), List.append_nil]
  obtain rfl : seg = seg' := by rw [← htake hseg ht, h, htake hseg' ht']
  simpa using h

theorem exists_first_worldState (h : ¬ IsStorage l) :
    ∃ seg w rest, l = seg ++ w :: rest ∧ IsStorage seg ∧ w.isWorldState := by
  induction l with
  | nil => exact absurd isStorage_nil h
  | cons x l ih =>
    cases hx : x.isWorldState with
    | true => exact ⟨[], x, l, rfl, isStorage_nil, hx⟩
    | false =>
      obtain ⟨seg, w, rest, rfl, hseg, hw⟩ := ih fun hl => h (by simpa [IsStorage, hx] using hl)
      exact ⟨x :: seg, w, rest, rfl, by simpa [IsStorage, hx] using hseg, hw⟩

theorem checkProofsFrom_worldState (hx : x.isWorldState)
    (h : checkProofsFrom compress empty curr (x :: rest) = .ok none) :
    (curr = [] ∨ ∃ old new, checkSpliceST compress curr = .ok (.ok (old, new)) ∧
      checkRoots empty x old new = .ok none) ∧
    checkProofsFrom compress empty [] rest = .ok none := by
  rw [checkProofsFrom, if_pos hx] at h
  split at h
  · exact ⟨.inl ‹_›, h⟩
  · obtain ⟨r, hsplice, h⟩ := bind_eq_ok.mp h
    rcases r with e | ⟨old, new⟩
    · simp at h
    · obtain ⟨err, hroots, h⟩ := bind_eq_ok.mp h
      cases err with
      | some e => simp at h
      | none => exact ⟨.inr ⟨old, new, hsplice, hroots⟩, h⟩

section
variable {t : DecodedTrace} (hempty : zkhashEmptyStorage compress = .ok empty)
  (hseg : IsStorage seg) (hne : seg ≠ []) (ht : t.isWorldState)
include hempty hseg hne ht

/-- The loop over an account checks every splice that is not empty. -/
theorem checkProofsFrom_spec (h : checkProofsFrom compress empty curr traces = .ok none)
    (hcurr : IsStorage curr) (hsplit : curr ++ traces = pre ++ seg ++ t :: post)
    (hpre : ∀ w ∈ pre.getLast?, w.isWorldState) : RootsFollow compress seg t := by
  induction traces generalizing curr pre with
  | nil =>
    rw [checkProofsFrom] at h
    split at h
    · simp_all
    · simp at h
  | cons x rest ih =>
    cases hx : x.isWorldState with
    | false =>
      rw [checkProofsFrom, hx] at h
      refine ih h ?_ (by simpa using hsplit) hpre
      intro y hy
      rcases List.mem_append.mp hy with hy | hy
      · exact hcurr y hy
      · rwa [List.mem_singleton.mp hy]
    | true =>
      obtain ⟨hchecked, hrest⟩ := checkProofsFrom_worldState hx h
      rcases pre.eq_nil_or_concat' with rfl | ⟨init, w, rfl⟩
      · -- the splice ends here
        obtain ⟨rfl, rfl, rfl⟩ := storage_split hcurr hx hseg ht hsplit
        obtain ⟨old, new, hsplice, hroots⟩ := hchecked.resolve_left hne
        exact checkRoots_follow hempty hroots (checkSpliceST_leadsTo hsplice)
      · -- it lies after the first trace of the world state
        have hw : w.isWorldState := hpre w (by simp)
        obtain ⟨seg', w', pre', hpre', hseg', hw'⟩ := exists_first_worldState
          (l := init ++ [w]) fun hs => by simpa [hw] using hs w (by simp)
        rw [hpre', List.append_assoc, List.append_assoc] at hsplit
        obtain ⟨-, -, rfl⟩ := storage_split hcurr hx hseg' hw' hsplit
        refine ih hrest isStorage_nil (List.append_assoc pre' seg _).symm ?_
        intro v hv
        refine hpre v ?_
        rw [hpre', List.getLast?_append, List.getLast?_cons, hv]
        rfl

theorem checkAccounts_spec (h : checkAccounts compress empty groups = .ok none)
    (hg : traces ∈ groups) (hsplit : traces = pre ++ seg ++ t :: post)
    (hpre : ∀ w ∈ pre.getLast?, w.isWorldState) :
    RootsFollow compress seg t := by
  induction groups with
  | nil => simp at hg
  | cons g groups ih =>
    rw [checkAccounts, bind_eq_ok] at h
    obtain ⟨⟨errs, g'⟩, hpattern, h⟩ := h
    cases errs with
    | cons e errs => simp at h
    | nil =>
      obtain ⟨err, hproofs, h⟩ := bind_eq_ok.mp h
      cases err with
      | some e => simp at h
      | none =>
        rcases List.mem_cons.mp hg with rfl | hg
        · obtain ⟨-, rfl | ⟨r, seg', rfl, -, hr, hseg'⟩⟩ := inspectPattern_skeleton hpattern
          · exact checkProofsFrom_spec hempty hseg hne ht hproofs isStorage_nil hsplit hpre
          · -- the read that was moved is the only trace of the world state
            have hmem : t ∈ r :: seg' := by simp [hsplit]
            rcases List.mem_cons.mp hmem with rfl | hmem
            · exact rootsFollow_of_read hr
            · simp [hseg' t hmem] at ht
        · exact ih h hg

end

-- The accounts

theorem relatedTo_append (a : Address) (l l' : List DecodedTrace) :
    relatedTo a (l ++ l') = relatedTo a l ++ relatedTo a l' := List.filter_append ..

theorem relatedTo_singleton (h : t.getRelatedAccount = .ok b) :
    relatedTo a [t] = if b = a then [t] else [] := by
  by_cases hab : b = a <;> simp [relatedTo, h, hab, Except.toOption]

/-- What the dispatch knows after it has passed over `traces`: every slice holds the traces of one
account. -/
structure Dispatched (d : Dispatch) (traces : List DecodedTrace) : Prop where
  index : d.i = traces.length
  found : ∀ a, a ∈ d.alreadyFoundAcc ↔ relatedTo a traces ≠ []
  slices : ∃ accounts : List Address, accounts.Nodup ∧
    d.traceByAccount = accounts.map (relatedTo · traces) ∧
    (∀ a, a ∈ accounts ↔ relatedTo a traces ≠ []) ∧
    (traces ≠ [] → accounts.getLast? = some d.prevAddress)
  worldState : d.traceWs = traces.filter (·.isWorldState)

theorem dispatched_nil : Dispatched {} [] :=
  ⟨rfl, by simp [relatedTo], ⟨[], by simp [relatedTo]⟩, rfl⟩

theorem Dispatched.fresh (hd : Dispatched d traces) (hnew : d.i = 0 ∨ b ≠ d.prevAddress)
    (hseg : ¬ (b ∈ d.alreadyFoundAcc ∧ b ≠ d.prevAddress ∧ d.i > 0)) : relatedTo b traces = [] := by
  by_contra hne
  have hpos : 0 < d.i := by
    rw [hd.index, List.length_pos_iff]
    rintro rfl
    exact hne rfl
  exact hseg ⟨(hd.found b).mpr hne, hnew.resolve_left hpos.ne', hpos⟩

theorem Dispatched.push (hd : Dispatched d traces) (h : d.push t = .ok d') :
    Dispatched d' (traces ++ [t]) := by
  rw [Dispatch.push] at h
  cases hacc : t.getRelatedAccount with
  | error e => simp [hacc] at h
  | ok b =>
    simp only [hacc, guard_eq_ok] at h
    obtain ⟨hseg, ⟨⟩⟩ := h
    obtain ⟨accounts, hnodup, hslices, hmem, hlast⟩ := hd.slices
    have hfiber (a) : relatedTo a (traces ++ [t]) =
        relatedTo a traces ++ if b = a then [t] else [] := by
      rw [relatedTo_append, relatedTo_singleton hacc]
    have hfound (a) : relatedTo a (traces ++ [t]) ≠ [] ↔ a = b ∨ relatedTo a traces ≠ [] := by
      by_cases hab : a = b
      · simp [hfiber, hab]
      · simp [hfiber, hab, Ne.symm hab]
    have hself : relatedTo b (traces ++ [t]) = relatedTo b traces ++ [t] := by simp [hfiber]
    have hmap {l : List Address} (hl : b ∉ l) :
        l.map (relatedTo · (traces ++ [t])) = l.map (relatedTo · traces) :=
      List.map_congr_left fun a ha => by simp [hfiber, show b ≠ a from fun hab => hl (hab ▸ ha)]
    refine ⟨by simp [hd.index], fun a => by rw [hfound, List.mem_cons, hd.found], ?_, ?_⟩
    · by_cases hnew : d.i = 0 ∨ b ≠ d.prevAddress
      · have hnone := hd.fresh hnew hseg
        have hb : b ∉ accounts := fun hb => (hmem b).mp hb hnone
        refine ⟨accounts ++ [b], ?_, ?_, fun a => ?_, fun _ => List.getLast?_concat⟩
        · exact List.concat_eq_append ▸ hnodup.concat hb
        · simp [hnew, appendLast, hslices, hmap hb, hself, hnone]
        · rw [hfound, ← hmem, List.mem_append, List.mem_singleton, or_comm]
      · obtain ⟨hpos, rfl⟩ : d.i ≠ 0 ∧ b = d.prevAddress := by simpa using hnew
        have hnil : traces ≠ [] := by
          rintro rfl
          exact hpos hd.index
        obtain ⟨init, rfl⟩ := List.getLast?_eq_some_iff.mp (hlast hnil)
        have hb : d.prevAddress ∉ init := by
          intro hb
          exact (List.nodup_append.mp hnodup).2.2 _ hb _ (by simp) rfl
        refine ⟨init ++ [d.prevAddress], hnodup, ?_, fun a => ?_, fun _ => List.getLast?_concat⟩
        · simp [hpos, appendLast, hslices, hmap hb, hself]
        · rw [hfound, ← hmem]
          exact (or_iff_right_of_imp fun hab => by simp [hab]).symm
    · rw [List.filter_append, ← hd.worldState, List.filter_singleton]
      cases t.isWorldState <;> simp

theorem dispatch_slices (h : dispatch traces = .ok d) : Dispatched d traces := by
  induction traces using List.reverseRecOn generalizing d with
  | nil =>
    obtain rfl : {} = d := by simpa [dispatch, pure, Except.pure] using h
    exact dispatched_nil
  | append_singleton l t ih =>
    rw [dispatch, List.foldlM_append, bind_eq_ok] at h
    obtain ⟨d₀, hd₀, h⟩ := h
    rw [List.foldlM_cons, bind_eq_ok] at h
    obtain ⟨d₁, hpush, h⟩ := h
    obtain rfl : d₁ = d := by simpa [pure, Except.pure] using h
    exact (ih hd₀).push hpush

-- The result

theorem checkTraces_accounts (h : checkTraces compress traces = .ok (.ok roots)) :
    ∃ empty d, zkhashEmptyStorage compress = .ok empty ∧ Dispatched d traces ∧
      checkAccounts compress empty d.traceByAccount = .ok none := by
  rw [checkTraces, bind_eq_ok] at h
  obtain ⟨empty, hempty, h⟩ := h
  split at h
  · simp at h
  · split at h
    · simp at h
    · rename_i d hd
      obtain ⟨err, haccounts, h⟩ := bind_eq_ok.mp h
      cases err with
      | some e => simp at h
      | none => exact ⟨empty, d, hempty, dispatch_slices hd, haccounts⟩

/-- In accepted traces every change of a storage root is justified by storage
traces if and only if none happens where there is no storage trace. -/
theorem checkTraces_justified_iff (h : checkTraces compress traces = .ok (.ok roots)) :
    Justified compress traces ↔ NoSilentChange compress traces := by
  obtain ⟨empty, d, hempty, hd, haccounts⟩ := checkTraces_accounts h
  constructor
  · intro hj a t ht
    obtain ⟨hupd, hins⟩ := hj a [] t ht
    exact ⟨fun u hu => leadsTo_nil.mp (hupd u hu),
      fun u e hu he => (leadsTo_nil.mp (hins u e hu he)).symm⟩
  · rintro hsilent a seg t ⟨hseg, ht, pre, post, hsplit, hpre⟩
    by_cases hne : seg = []
    · subst hne
      obtain ⟨hupd, hins⟩ := hsilent a t ⟨hseg, ht, pre, post, hsplit, hpre⟩
      exact ⟨fun u hu => leadsTo_nil.mpr (hupd u hu),
        fun u e hu he => leadsTo_nil.mpr (hins u e hu he).symm⟩
    · obtain ⟨accounts, -, hslices, hmem, -⟩ := hd.slices
      have hslice := List.mem_map_of_mem (f := (relatedTo · traces))
        ((hmem a).mpr (by simp [hsplit]))
      rw [← hslices] at hslice
      exact checkAccounts_spec hempty hseg hne ht haccounts hslice hsplit hpre

-- Tries with one entry, at the third leaf of the tree.

section
variable [WriterTo K] [WriterTo V]

def entryProof : Proof := ⟨2, List.replicate 40 0⟩

def entryOpening (key : K) (value : V) : LeafOpening :=
  { prev := 0, next := 1, hKey := hash toyCompress key, hVal := hash toyCompress value }

def entryRoot (key : K) (value : V) : Digest :=
  match recoverRoot toyCompress entryProof (hash toyCompress (entryOpening key value)) with
  | .ok root => root
  | .error _ => 0

def updateTo (location : String) (key : K) (oldValue newValue : V) : UpdateTrace K V :=
  { location, key, oldValue, newValue, newNextFreeNode := 3
    oldSubRoot := entryRoot key oldValue, newSubRoot := entryRoot key newValue
    oldOpening := entryOpening key oldValue, proof := entryProof }

end

def accountTo (old new : Account) : DecodedTrace :=
  { location := wsLocation, underlying := .ws (.update (updateTo wsLocation 0 old new))
    fits := rfl }

theorem exists_roots (h : ((checkTraces compress traces).toOption.bind (·.toOption)).isSome) :
    ∃ roots, checkTraces compress traces = .ok (.ok roots) := by
  obtain ⟨roots, h⟩ := Option.isSome_iff_exists.mp h
  exact ⟨roots, by simpa [Option.bind_eq_some_iff, Except.toOption_eq_some] using h⟩

def silentAccount : Account := { (default : Account) with storageRoot := .max }

theorem checkTraces_silent_update :
    ∃ roots, checkTraces toyCompress [accountTo default silentAccount] = .ok (.ok roots) ∧
      ¬ Justified toyCompress [accountTo default silentAccount] := by
  obtain ⟨roots, h⟩ : ∃ roots, checkTraces toyCompress [accountTo default silentAccount] =
      .ok (.ok roots) :=
    exists_roots (by decide +kernel)
  refine ⟨roots, h, fun hj => ?_⟩
  have hroots := leadsTo_nil.mp ((hj 0 [] _ ⟨isStorage_nil, rfl, [], [], rfl, by simp⟩).1 _ rfl)
  exact absurd hroots (by decide)

def zeroLocation : String := "0x0000000000000000000000000000000000000000"

def slotTo (old new : FullBytes32) : DecodedTrace :=
  { location := zeroLocation, underlying := .st (.update (updateTo zeroLocation 1 old new))
    fits := show zeroLocation ≠ wsLocation by decide }

/-- The account with `value` in its slot. -/
def storing (value : FullBytes32) : Account :=
  { (default : Account) with
    storageRoot := VerifierState.topRoot toyCompress
      ⟨zeroLocation, 3, entryRoot (1 : FullBytes32) value⟩ }

def slotWrite : List DecodedTrace := [slotTo 2 3, accountTo (storing 2) (storing 3)]

theorem checkTraces_justified_slotWrite :
    ∃ roots, checkTraces toyCompress slotWrite = .ok (.ok roots) ∧
      Justified toyCompress slotWrite := by
  obtain ⟨roots, h⟩ : ∃ roots, checkTraces toyCompress slotWrite = .ok (.ok roots) :=
    exists_roots (by decide +kernel)
  refine ⟨roots, h, (checkTraces_justified_iff h).mpr ?_⟩
  rintro a t ⟨-, hws, pre, post, hsplit, hpre⟩
  have hslot : (slotTo 2 3).getRelatedAccount = .ok 0 := by decide +kernel
  have haccount : (accountTo (storing 2) (storing 3)).getRelatedAccount = .ok 0 := rfl
  rw [slotWrite, ← List.singleton_append, relatedTo_append, relatedTo_singleton hslot,
    relatedTo_singleton haccount] at hsplit
  -- the storage trace comes right before the only trace of the world state
  have hst : (slotTo 2 3).isWorldState = false := rfl
  split_ifs at hsplit
  · rcases pre with _ | ⟨x, _ | ⟨y, pre⟩⟩ <;> simp_all
  · simp at hsplit

end StatusNetwork.StateManager
