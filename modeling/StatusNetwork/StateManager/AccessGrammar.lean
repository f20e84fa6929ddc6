import Mathlib.Computability.RegularExpressions
import StatusNetwork.Base.Control
import StatusNetwork.Prover.SparseMerkleTreeLaws
import StatusNetwork.StateManager.AccessPattern

/-!
# What the access pattern inspection accepts

The documented patterns are regular expressions over the kinds of the traces
(`accountPattern`), with every storage segment ordered (`Documented`). The code
accepts the traces with the skeleton of such a pattern: the world-state traces
stand where they should, but any storage access may come between them, and the
last pair of a segment may be in any order (`inspectPattern_skeleton`).
-/

namespace StatusNetwork.StateManager

open Prover
open DecodedTrace (isWorldState_of_kind not_isWorldState_iff)

-- Storage segments

def IsStorage (seg : List DecodedTrace) : Prop := ∀ t ∈ seg, t.isWorldState = false

instance (seg : List DecodedTrace) : Decidable (IsStorage seg) :=
  inferInstanceAs (Decidable (∀ t ∈ seg, t.isWorldState = false))

section
variable (whitelist : Operation → Bool)

/-- A guarded note is never taken: no error comes before the first one. -/
theorem scan_storage (hnote : ∀ kind, note [] kind = []) (hseg : IsStorage seg) :
    scan whitelist note [] seg = .ok [] := by
  induction seg with
  | nil => rfl
  | cons t rest ih =>
    have ht := hseg t List.mem_cons_self
    have hrest := ih fun t' h => hseg t' (List.mem_cons_of_mem _ h)
    obtain ⟨op, hop⟩ := not_isWorldState_iff.mp ht
    simp [scan, ht, hop, hnote, hrest]

theorem scan_worldState (hnote : ∀ kind, note [] kind = []) (hseg : ¬ IsStorage seg) :
    ∃ t, scan whitelist note [] seg = .error t := by
  induction seg with
  | nil => simp [IsStorage] at hseg
  | cons t rest ih =>
    cases ht : t.isWorldState with
    | true => exact ⟨t, by simp [scan, ht]⟩
    | false =>
      obtain ⟨op, hop⟩ := not_isWorldState_iff.mp ht
      obtain ⟨t', h⟩ := ih fun h => hseg (by simpa [IsStorage, ht] using h)
      exact ⟨t', by simp [scan, ht, hop, hnote, h]⟩

end

theorem joinNote_nil (seg : SegmentName) (kind : TraceKind) : joinNote seg [] kind = [] := rfl

theorem setNote_nil (seg : SegmentName) (kind : TraceKind) : setNote seg [] kind = [] := rfl

theorem find_worldState (hseg : IsStorage seg) : seg.find? (·.isWorldState) = none := by
  simpa [IsStorage] using hseg

theorem find_not_storage (hseg : ¬ IsStorage seg) : ∃ t, seg.find? (·.isWorldState) = some t := by
  rw [← Option.isSome_iff_exists]
  simpa [IsStorage] using hseg

section
variable {compress : Compress}

variable (compress) in
/-- The order of a segment: reads before writes, by `HKey` inside either class. -/
def Follows (curr next : DecodedTrace) : Prop :=
  curr.rwInt < next.rwInt ∨
    curr.rwInt = next.rwInt ∧ curr.hKey compress < next.hKey compress

theorem checkStorageTraceOrderFrom_iff (i : Nat) (seg : List DecodedTrace) :
    checkStorageTraceOrderFrom compress i seg = .ok [] ↔
      seg.dropLast.IsChain (Follows compress) := by
  induction seg generalizing i with
  | nil => simp [checkStorageTraceOrderFrom]
  | cons curr seg ih =>
    rcases seg with - | ⟨next, - | ⟨last, rest⟩⟩
    · simp [checkStorageTraceOrderFrom]
    · simp [checkStorageTraceOrderFrom]
    · have hpair : Follows compress curr next ↔
          ¬ (curr.rwInt = next.rwInt ∧ (curr.hKey compress).cmp (next.hKey compress) ≠ .lt) ∧
            ¬ curr.rwInt > next.rwInt := by
        simp only [Follows, ← KoalaOctuplet.cmp_lt_iff]
        rcases lt_trichotomy curr.rwInt next.rwInt with h | h | h
        · simp [h, h.ne, h.le]
        · simp [h]
        · simp [h, h.ne', h.not_gt]
      have hdrop : (curr :: next :: last :: rest).dropLast =
          curr :: next :: (last :: rest).dropLast := rfl
      rw [hdrop, List.isChain_cons_cons, hpair, checkStorageTraceOrderFrom, guard_eq_ok,
        bind_eq_ok, and_assoc]
      refine and_congr_right fun _ => ?_
      rw [← List.dropLast_cons_cons, ← ih (i + 1)]
      constructor
      · rintro ⟨errs, hrest, h⟩
        split at h
        · simp at h
        · exact ⟨‹_›, by simpa [hrest] using h⟩
      · rintro ⟨hle, hrest⟩
        exact ⟨[], hrest, by simp [hle]⟩

theorem checkStorageTraceOrder_iff :
    checkStorageTraceOrder compress seg = .ok [] ↔ seg.dropLast.IsChain (Follows compress) :=
  checkStorageTraceOrderFrom_iff 0 seg

-- The matchers

theorem isMissingAccRead_mismatch (hne : traces ≠ [])
    (h : ∀ t ∈ traces, t.kind ≠ .ws .readZero) : isMissingAccRead traces = mismatch traces := by
  cases traces with
  | nil => exact absurd rfl hne
  | cons first rest =>
    have hfirst := h first List.mem_cons_self
    have hany : (first :: rest).any (·.kind = .ws .readZero) = false := by
      simpa using h
    simp [isMissingAccRead, hfirst, hany]

/-- What a matcher does with traces: it rejects them and leaves them as they are, or an order is
all that is left to check. -/
def Judges (m : Matcher) (traces : List DecodedTrace)
    (P : Except Panic (List PatternError) → List DecodedTrace → Prop) : Prop :=
  (∃ err, m traces = failed err traces) ∨
    ∃ name check ts, m traces = inOrder name check ts ∧ P check ts

theorem isMissingAccRead_judges (hne : traces ≠ []) :
    Judges isMissingAccRead traces fun check ts =>
      check = .ok [] ∧ ts = traces ∧ ∃ t, traces = [t] ∧ t.kind = .ws .readZero := by
  cases traces with
  | nil => exact absurd rfl hne
  | cons first rest =>
    rw [Judges, isMissingAccRead]
    split
    · rename_i hc
      obtain ⟨hkind, rfl⟩ := hc
      exact .inr ⟨.accRead, .ok [], _, rfl, rfl, rfl, first, rfl, hkind⟩
    · split
      · exact .inl ⟨_, rfl⟩
      · exact .inl ⟨[], rfl⟩

theorem inOrder_nil (name : SegmentName) (traces : List DecodedTrace) :
    inOrder name (checkStorageTraceOrder compress []) traces = matched traces := rfl

theorem isStorage_nil : IsStorage [] := by simp [IsStorage]

variable (compress) in
/-- What the matchers of a segment that the operation `op` closes have in common:
only the order of the storage traces before it is checked. -/
structure Closes (m : Matcher) (op : Operation) (name : SegmentName) : Prop where
  other {seg t} : t.kind ≠ .ws op → m (seg ++ [t]) = mismatch (seg ++ [t])
  storage {seg t} : t.kind = .ws op → IsStorage seg →
    m (seg ++ [t]) = inOrder name (checkStorageTraceOrder compress seg) (seg ++ [t])
  rejects {seg t} : t.kind = .ws op → ¬ IsStorage seg →
    ∃ err, m (seg ++ [t]) = failed err (seg ++ [t])

theorem isAccCreation_soft (hkind : t.kind = .ws .insertion) (hseg : ¬ IsStorage seg) :
    isAccCreation compress (seg ++ [t]) = mismatch (seg ++ [t]) := by
  have hnil : seg ≠ [] := by rintro rfl; exact hseg isStorage_nil
  obtain ⟨t', ht'⟩ := scan_worldState creationWhitelist (joinNote_nil .accountCreation) hseg
  simp [isAccCreation, hkind, hnil, ht']

theorem isAccCreation_closes :
    Closes compress (isAccCreation compress) .insertion .accountCreation where
  other hkind := by simp [isAccCreation, hkind]
  storage := by
    intro seg t hkind hseg
    by_cases hnil : seg = []
    · simp [isAccCreation, hkind, hnil, inOrder_nil]
    · simp [isAccCreation, hkind, hnil, scan_storage _ (joinNote_nil _) hseg]
  rejects hkind hseg := ⟨[], isAccCreation_soft hkind hseg⟩

theorem isAccDeletion_closes :
    Closes compress (isAccDeletion compress) .deletion .accountDeletion where
  other hkind := by simp [isAccDeletion, hkind]
  storage := by
    intro seg t hkind hseg
    by_cases hnil : seg = []
    · simp [isAccDeletion, hkind, hnil, inOrder_nil]
    · simp [isAccDeletion, hkind, hnil, scan_storage _ (setNote_nil _) hseg]
  rejects := by
    intro seg t hkind hseg
    have hnil : seg ≠ [] := by rintro rfl; exact hseg isStorage_nil
    obtain ⟨t', ht'⟩ := scan_worldState readWhitelist (setNote_nil .accountDeletion) hseg
    exact ⟨_, by simp [isAccDeletion, hkind, hnil, ht']; rfl⟩

theorem isAccUpdate_closes : Closes compress (isAccUpdate compress) .update .accountUpdate where
  other hkind := by simp [isAccUpdate, hkind]
  storage := by
    intro seg t hkind hseg
    by_cases hnil : seg = []
    · simp [isAccUpdate, hkind, hnil, inOrder_nil]
    · simp only [isAccUpdate, List.getLast?_concat, List.dropLast_concat, find_worldState hseg]
      simp [hkind, hnil]
  rejects := by
    intro seg t hkind hseg
    have hnil : seg ≠ [] := by rintro rfl; exact hseg isStorage_nil
    obtain ⟨t', ht'⟩ := find_not_storage hseg
    refine ⟨[.precededBy .accountUpdate t'.kind], ?_⟩
    simp only [isAccUpdate, List.getLast?_concat, List.dropLast_concat, ht']
    simp [hkind, hnil]

theorem Closes.judges (hm : Closes compress m op name) : Judges m (seg ++ [t]) fun check ts =>
    check = checkStorageTraceOrder compress seg ∧ ts = seg ++ [t] ∧ t.kind = .ws op ∧
      IsStorage seg := by
  by_cases hkind : t.kind = .ws op
  · by_cases hseg : IsStorage seg
    · exact .inr ⟨name, _, _, hm.storage hkind hseg, rfl, rfl, hkind, hseg⟩
    · exact .inl (hm.rejects hkind hseg)
  · exact .inl ⟨[], hm.other hkind⟩

-- The account read

theorem isAccRead_eq (hfirst : traces.head? = some first) (hlast : traces.getLast? = some last) :
    isAccRead compress traces = accReadBetween compress first last traces := by
  rw [isAccRead, hfirst, hlast]

theorem IsStorage.kind_ne (hseg : IsStorage seg) (ht : t ∈ seg) : t.kind ≠ .ws op := by
  intro h
  have := hseg t ht
  simp [isWorldState_of_kind h] at this

theorem isAccRead_mismatch (hfirst : traces.head? = some first)
    (hlast : traces.getLast? = some last)
    (h : first.kind ≠ .ws .readNonZero) (h' : last.kind ≠ .ws .readNonZero) :
    isAccRead compress traces = mismatch traces := by
  rw [isAccRead_eq hfirst hlast]
  simp [accReadBetween, h, h']

theorem isAccRead_not (hseg : IsStorage seg) (hd : d.kind ≠ .ws .readNonZero)
    (hlast : (seg ++ d :: rest).getLast? = some last) (h : last.kind ≠ .ws .readNonZero) :
    isAccRead compress (seg ++ d :: rest) = mismatch (seg ++ d :: rest) := by
  cases seg with
  | nil => exact isAccRead_mismatch rfl hlast hd h
  | cons first seg => exact isAccRead_mismatch rfl hlast (hseg.kind_ne List.mem_cons_self) h

theorem isAccRead_last (hkind : t.kind = .ws .readNonZero) (hseg : IsStorage seg) :
    isAccRead compress (seg ++ [t]) =
      inOrder .accRead (checkStorageTraceOrder compress seg) (seg ++ [t]) := by
  cases seg with
  | nil => simp [isAccRead, accReadBetween, hkind, inOrder_nil]
  | cons first seg =>
    have hfirst : first.kind ≠ .ws .readNonZero := hseg.kind_ne List.mem_cons_self
    have hinit : (first :: (seg ++ [t])).dropLast = first :: seg := by
      rw [← List.cons_append, List.dropLast_concat]
    rw [isAccRead_eq rfl List.getLast?_concat, accReadBetween]
    simp [hfirst, hkind, hinit, scan_storage _ (setNote_nil _) hseg]

theorem isAccRead_first (hkind : t.kind = .ws .readNonZero) (hseg : IsStorage seg) :
    isAccRead compress (t :: seg) =
      inOrder .accRead (checkStorageTraceOrder compress seg) (seg ++ [t]) := by
  rcases seg.eq_nil_or_concat' with rfl | ⟨init, last, rfl⟩
  · simp [isAccRead, accReadBetween, hkind, inOrder_nil]
  · have hlast : last.kind ≠ .ws .readNonZero := hseg.kind_ne (by simp)
    have hl : (t :: (init ++ [last])).getLast? = some last := List.getLast?_concat (l := t :: init)
    rw [isAccRead_eq rfl hl, accReadBetween]
    simp [hlast, hkind, scan_storage _ (setNote_nil _) hseg]

theorem isAccRead_judges (hne : traces ≠ []) :
    Judges (isAccRead compress) traces fun check ts => ∃ seg t,
      (traces = seg ++ [t] ∨ traces = t :: seg) ∧ check = checkStorageTraceOrder compress seg ∧
        ts = seg ++ [t] ∧ t.kind = .ws .readNonZero ∧ IsStorage seg := by
  obtain ⟨init, last, rfl⟩ := traces.eq_nil_or_concat'.resolve_left hne
  obtain ⟨first, hhead⟩ : ∃ first, (init ++ [last]).head? = some first := by
    cases init <;> exact ⟨_, rfl⟩
  obtain ⟨rest, hrest⟩ := List.head?_eq_some_iff.mp hhead
  by_cases hfirst : first.kind = .ws .readNonZero
  · by_cases hseg : IsStorage rest
    · exact .inr ⟨_, _, _, hrest ▸ isAccRead_first hfirst hseg, rest, first, .inr hrest, rfl, rfl,
        hfirst, hseg⟩
    · have hnil : rest ≠ [] := by rintro rfl; exact hseg isStorage_nil
      have hinit : init ≠ [] := by rintro rfl; simp [hnil] at hrest
      have htail : (init ++ [last]).tail = rest := by rw [hrest]; rfl
      obtain ⟨t', ht'⟩ := scan_worldState readWhitelist (setNote_nil .accRead) hseg
      rw [Judges, isAccRead_eq hhead List.getLast?_concat, accReadBetween, htail]
      by_cases hlast : last.kind = .ws .readNonZero
      · exact .inl ⟨_, by simp [hfirst, hlast, List.length_pos_iff.mpr hinit]; rfl⟩
      · exact .inl ⟨_, by simp [hfirst, hlast, hinit, ht']; rfl⟩
  · by_cases hlast : last.kind = .ws .readNonZero
    · by_cases hseg : IsStorage init
      · exact .inr ⟨_, _, _, isAccRead_last hlast hseg, init, last, .inl rfl, rfl, rfl, hlast, hseg⟩
      · have hnil : init ≠ [] := by rintro rfl; exact hseg isStorage_nil
        obtain ⟨t', ht'⟩ := scan_worldState readWhitelist (setNote_nil .accRead) hseg
        rw [Judges, isAccRead_eq hhead List.getLast?_concat, accReadBetween]
        exact .inl ⟨_, by simp [hfirst, hlast, ht', hnil]; rfl⟩
    · exact .inl ⟨[], isAccRead_mismatch hhead List.getLast?_concat hfirst hlast⟩

-- The redeployment

theorem redeployFrom_storage (herr : s.err = []) (hseg : IsStorage seg) :
    redeployFrom i s (seg ++ rest) = redeployFrom (i + seg.length) s rest := by
  induction seg generalizing i with
  | nil => rfl
  | cons t seg ih =>
    obtain ⟨op, hop⟩ := not_isWorldState_iff.mp (hseg t List.mem_cons_self)
    have hs : { s with err := ([] : List PatternError) } = s := by rw [← herr]
    have hrest := @ih (i + 1) fun t' h => hseg t' (List.mem_cons_of_mem _ h)
    rw [List.cons_append, redeployFrom]
    simp only [hop, reduceCtorEq, if_false, herr, joinNote_nil, ite_self, hs]
    rw [hrest, List.length_cons, Nat.add_right_comm, Nat.add_assoc]

theorem redeployFrom_all (herr : s.err = []) (hseg : IsStorage seg) :
    redeployFrom i s seg = .ok s := by
  rw [← List.append_nil seg, redeployFrom_storage herr hseg]
  rfl

/-- The loop of a redeployment passes over a storage segment, or over two with
the first deletion between them. -/
theorem redeployFrom_cases (h : redeployFrom i s traces = .ok s') :
    IsStorage traces ∨ s.foundDeletion = false ∧ ∃ seg d seg', traces = seg ++ d :: seg' ∧
      IsStorage seg ∧ d.kind = .ws .deletion ∧ IsStorage seg' := by
  induction traces generalizing i s with
  | nil => exact .inl isStorage_nil
  | cons t rest ih =>
    rw [redeployFrom] at h
    cases hkind : t.kind with
    | ws op =>
      rw [hkind] at h
      by_cases hop : op = .deletion
      · subst hop
        cases hfound : s.foundDeletion with
        | true => simp [hfound] at h
        | false =>
          simp only [if_true, hfound, Bool.false_eq_true, if_false] at h
          obtain hrest | ⟨hfirst, -⟩ := ih h
          · exact .inr ⟨rfl, [], t, rest, rfl, isStorage_nil, hkind, hrest⟩
          · cases hfirst
      · simp [hop] at h
    | st op =>
      simp only [hkind, reduceCtorEq, if_false] at h
      have ht := not_isWorldState_iff.mpr ⟨op, hkind⟩
      rcases ih h with hrest | ⟨hfound, seg, d, seg', rfl, hseg, hd, hseg'⟩
      · exact .inl (by simpa [IsStorage, ht] using hrest)
      · exact .inr ⟨hfound, t :: seg, d, seg', rfl, by simpa [IsStorage, ht] using hseg, hd, hseg'⟩

/-- The check of a redeployment. -/
def bothOrders (compress : Compress) (seg seg' : List DecodedTrace) :
    Except Panic (List PatternError) := do
  let errs ← checkStorageTraceOrder compress seg
  let errs' ← checkStorageTraceOrder compress seg'
  .ok (errs ++ errs')

theorem isAccRedeploy_append (hkind : t.kind = .ws .insertion) (hseg : IsStorage seg)
    (hd : d.kind = .ws .deletion) (hseg' : IsStorage seg') :
    isAccRedeploy compress (seg ++ d :: seg' ++ [t]) =
      inOrder .redeployAcc (bothOrders compress seg seg') (seg ++ d :: seg' ++ [t]) := by
  have hloop : redeployFrom 0 {} (seg ++ d :: seg') =
      .ok { foundDeletion := true, posDeletion := seg.length, err := [] } := by
    rw [redeployFrom_storage rfl hseg, redeployFrom]
    simp only [hd, if_true, Bool.false_eq_true, if_false, Nat.zero_add]
    exact redeployFrom_all rfl hseg'
  have hlen : (seg ++ d :: seg' ++ [t]).length ≠ 1 := by simp; omega
  have htake : (seg ++ d :: seg' ++ [t]).take seg.length = seg := by simp
  have hdrop : (seg ++ d :: seg').drop (seg.length + 1) = seg' := by simp
  simp only [isAccRedeploy, List.getLast?_concat, List.dropLast_concat, hkind, ne_eq, not_true,
    if_false, hlen, hloop, htake, hdrop, bothOrders]

theorem bothOrders_iff : bothOrders compress seg seg' = .ok [] ↔
    seg.dropLast.IsChain (Follows compress) ∧ seg'.dropLast.IsChain (Follows compress) := by
  rw [← checkStorageTraceOrder_iff, ← checkStorageTraceOrder_iff, bothOrders]
  cases checkStorageTraceOrder compress seg <;>
    cases checkStorageTraceOrder compress seg' <;> simp

theorem isAccRedeploy_judges : Judges (isAccRedeploy compress) (init ++ [t]) fun check ts =>
    ts = init ++ [t] ∧ t.kind = .ws .insertion ∧ (IsStorage init ∨ ∃ seg d seg',
      init = seg ++ d :: seg' ∧ IsStorage seg ∧ d.kind = .ws .deletion ∧ IsStorage seg' ∧
        check = bothOrders compress seg seg') := by
  by_cases hkind : t.kind = .ws .insertion
  · by_cases hnil : init = []
    · exact .inl ⟨[], by simp [isAccRedeploy, hkind, hnil]; rfl⟩
    cases hloop : redeployFrom 0 {} init with
    | error e => exact .inl ⟨_, by simp [isAccRedeploy, hkind, hnil, hloop]; rfl⟩
    | ok s =>
      refine .inr ⟨.redeployAcc, ?_⟩
      rcases redeployFrom_cases hloop with hst | ⟨-, seg, d, seg', rfl, hseg, hd, hseg'⟩
      · obtain rfl : {} = s := Except.ok.inj ((redeployFrom_all rfl hst).symm.trans hloop)
        refine ⟨bothOrders compress [] (init.drop 1), _, ?_, rfl, hkind, .inl hst⟩
        simp [isAccRedeploy, hkind, hnil, hloop, bothOrders]
      · exact ⟨_, _, isAccRedeploy_append hkind hseg hd hseg', rfl, hkind,
          .inr ⟨seg, d, seg', rfl, hseg, hd, hseg', rfl⟩⟩
  · exact .inl ⟨[], by simp [isAccRedeploy, hkind]; rfl⟩

-- The inspection

theorem inOrder_ne_mismatch : inOrder name check traces ≠ mismatch traces' := by
  rw [inOrder, mismatch, ne_eq, bind_eq_ok]
  rintro ⟨errs, -, h⟩
  split at h
  · simp [matched] at h
  · simp [failed] at h

theorem runMatchers_cons (hm : Judges m traces P)
    (h : runMatchers (m :: rest) traces = .ok ([], traces')) :
    P (.ok []) traces' ∨
      m traces = mismatch traces ∧ runMatchers rest traces = .ok ([], traces') := by
  rw [runMatchers] at h
  rcases hm with ⟨err, hrej⟩ | ⟨name, check, ts, hin, hP⟩
  · rw [hrej] at h
    by_cases herr : err = []
    · subst herr
      exact .inr ⟨hrej, h⟩
    · simp [failed, herr] at h
  · rw [hin, inOrder, bind_assoc, bind_eq_ok] at h
    obtain ⟨errs, rfl, h⟩ := h
    by_cases herrs : errs = []
    · subst herrs
      simp only [matched, if_true, ok_bind, ne_eq, not_true, if_false, Except.ok.injEq,
        Prod.mk.injEq, true_and] at h
      exact .inl (h ▸ hP)
    · simp [failed, herrs] at h

theorem runMatchers_mismatch (h : m traces = mismatch traces) :
    runMatchers (m :: rest) traces = runMatchers rest traces := by
  rw [runMatchers, h]
  rfl

theorem runMatchers_inOrder (h : m traces = inOrder name check traces') (hcheck : check = .ok []) :
    runMatchers (m :: rest) traces = .ok ([], traces') := by
  rw [runMatchers, h, hcheck]
  rfl

/-- The traces the inspection lets through, with the operation that closes each
storage segment: the world-state traces stand as documented, and nothing is said
of the storage traces. -/
inductive Skeleton : List DecodedTrace → List (Operation × List DecodedTrace) → Prop
  | missing : t.kind = .ws .readZero → Skeleton [t] []
  | single : IsStorage seg → t.kind = .ws op → op ≠ .readZero → Skeleton (seg ++ [t]) [(op, seg)]
  | readFirst : t.kind = .ws .readNonZero → IsStorage seg →
      Skeleton (t :: seg) [(.readNonZero, seg)]
  | redeploy : IsStorage seg → d.kind = .ws .deletion → IsStorage seg' → t.kind = .ws .insertion →
      Skeleton (seg ++ d :: seg' ++ [t]) [(.deletion, seg), (.insertion, seg')]

/-- What the inspection accepts, and how it leaves the traces. -/
def Accepts (compress : Compress) (traces traces' : List DecodedTrace) : Prop :=
  (∃ segs, Skeleton traces segs ∧ ∀ s ∈ segs, s.2.dropLast.IsChain (Follows compress)) ∧
    (traces' = traces ∨ ∃ t seg, traces = t :: seg ∧ traces' = seg ++ [t] ∧
      t.kind = .ws .readNonZero ∧ IsStorage seg)

theorem accepts_single (hcheck : .ok [] = checkStorageTraceOrder compress seg)
    (hkind : t.kind = .ws op) (hseg : IsStorage seg) (hop : op ≠ .readZero) :
    Accepts compress (seg ++ [t]) (seg ++ [t]) := by
  have hchain := checkStorageTraceOrder_iff.mp hcheck.symm
  exact ⟨⟨_, .single hseg hkind hop, by simpa using hchain⟩, .inl rfl⟩

theorem inspectPattern_skeleton (h : inspectPattern compress traces = .ok ([], traces')) :
    Accepts compress traces traces' := by
  have hne : traces ≠ [] := by
    rintro rfl
    simp [inspectPattern, matchers, runMatchers, isMissingAccRead] at h
  rcases runMatchers_cons (isMissingAccRead_judges hne) h with ⟨-, rfl, t, rfl, hkind⟩ | ⟨-, h⟩
  · exact ⟨⟨[], .missing hkind, by simp⟩, .inl rfl⟩
  obtain ⟨init, t, rfl⟩ := traces.eq_nil_or_concat'.resolve_left hne
  rcases runMatchers_cons isAccCreation_closes.judges h with
    ⟨hcheck, rfl, hkind, hseg⟩ | ⟨hcreate, h⟩
  · exact accepts_single hcheck hkind hseg (by simp)
  rcases runMatchers_cons isAccDeletion_closes.judges h with ⟨hcheck, rfl, hkind, hseg⟩ | ⟨-, h⟩
  · exact accepts_single hcheck hkind hseg (by simp)
  rcases runMatchers_cons (isAccRead_judges hne) h with
    ⟨seg, r, htraces, hcheck, rfl, hkind, hseg⟩ | ⟨-, h⟩
  · rcases htraces with htraces | htraces
    · rw [htraces]
      exact accepts_single hcheck hkind hseg (by simp)
    · have hchain := checkStorageTraceOrder_iff.mp hcheck.symm
      rw [htraces]
      exact ⟨⟨_, .readFirst hkind hseg, by simpa using hchain⟩,
        .inr ⟨r, seg, rfl, rfl, hkind, hseg⟩⟩
  rcases runMatchers_cons isAccUpdate_closes.judges h with ⟨hcheck, rfl, hkind, hseg⟩ | ⟨-, h⟩
  · exact accepts_single hcheck hkind hseg (by simp)
  have hnot (hkind : t.kind = .ws .insertion) : ¬ IsStorage init := by
    intro hseg
    rw [isAccCreation_closes.storage hkind hseg] at hcreate
    exact inOrder_ne_mismatch hcreate
  rcases runMatchers_cons isAccRedeploy_judges h with ⟨rfl, hkind, hinit⟩ | ⟨-, h⟩
  · obtain ⟨seg, d, seg', rfl, hseg, hd, hseg', hcheck⟩ := hinit.resolve_left (hnot hkind)
    have hchain := bothOrders_iff.mp hcheck.symm
    exact ⟨⟨_, .redeploy hseg hd hseg' hkind, by simpa using hchain⟩, .inl rfl⟩
  · simp [runMatchers] at h

theorem Skeleton.inspectPattern (h : Skeleton traces segs)
    (hchain : ∀ s ∈ segs, s.2.dropLast.IsChain (Follows compress)) :
    ∃ traces', inspectPattern compress traces = .ok ([], traces') := by
  unfold StateManager.inspectPattern matchers
  cases h with
  | @missing t hkind =>
    refine ⟨[t], ?_⟩
    simp [runMatchers, isMissingAccRead, hkind, matched]
  | @single seg op t hseg hkind hop =>
    have hmiss : isMissingAccRead (seg ++ [t]) = mismatch (seg ++ [t]) := by
      apply isMissingAccRead_mismatch (by simp)
      intro t' ht'
      rcases List.mem_append.mp ht' with ht' | ht'
      · exact hseg.kind_ne ht'
      · simpa [List.mem_singleton.mp ht', hkind] using hop
    have hcheck := checkStorageTraceOrder_iff.mpr (hchain _ List.mem_cons_self)
    refine ⟨seg ++ [t], ?_⟩
    rw [runMatchers_mismatch hmiss]
    cases op with
    | readZero => exact absurd rfl hop
    | insertion => exact runMatchers_inOrder (isAccCreation_closes.storage hkind hseg) hcheck
    | deletion =>
      rw [runMatchers_mismatch (isAccCreation_closes.other (by simp [hkind]))]
      exact runMatchers_inOrder (isAccDeletion_closes.storage hkind hseg) hcheck
    | readNonZero =>
      rw [runMatchers_mismatch (isAccCreation_closes.other (by simp [hkind])),
        runMatchers_mismatch (isAccDeletion_closes.other (by simp [hkind]))]
      exact runMatchers_inOrder (isAccRead_last hkind hseg) hcheck
    | update =>
      have hread : isAccRead compress (seg ++ [t]) = mismatch (seg ++ [t]) :=
        isAccRead_not hseg (by simp [hkind]) List.getLast?_concat (by simp [hkind])
      rw [runMatchers_mismatch (isAccCreation_closes.other (by simp [hkind])),
        runMatchers_mismatch (isAccDeletion_closes.other (by simp [hkind])),
        runMatchers_mismatch hread]
      exact runMatchers_inOrder (isAccUpdate_closes.storage hkind hseg) hcheck
  | @readFirst seg t hkind hseg =>
    have hmem (t') (ht' : t' ∈ t :: seg) : t'.kind ≠ .ws .readZero ∧ t'.kind ≠ .ws .insertion ∧
        t'.kind ≠ .ws .deletion := by
      rcases List.mem_cons.mp ht' with rfl | ht'
      · simp [hkind]
      · exact ⟨hseg.kind_ne ht', hseg.kind_ne ht', hseg.kind_ne ht'⟩
    obtain ⟨init, last, hlast⟩ := (t :: seg).eq_nil_or_concat'.resolve_left (by simp)
    obtain ⟨-, hins, hdel⟩ := hmem last (by simp [hlast])
    have hcheck := checkStorageTraceOrder_iff.mpr (hchain _ List.mem_cons_self)
    refine ⟨seg ++ [t], ?_⟩
    rw [runMatchers_mismatch (isMissingAccRead_mismatch (by simp) fun t' ht' => (hmem t' ht').1),
      runMatchers_mismatch (hlast ▸ isAccCreation_closes.other hins),
      runMatchers_mismatch (hlast ▸ isAccDeletion_closes.other hdel)]
    exact runMatchers_inOrder (isAccRead_first hkind hseg) hcheck
  | @redeploy seg seg' d t hseg hd hseg' hkind =>
    have hmiss : isMissingAccRead (seg ++ d :: seg' ++ [t]) =
        mismatch (seg ++ d :: seg' ++ [t]) := by
      apply isMissingAccRead_mismatch (by simp)
      intro t' ht'
      simp only [List.mem_append, List.mem_cons, List.not_mem_nil, or_false] at ht'
      rcases ht' with (ht' | rfl | ht') | rfl
      · exact hseg.kind_ne ht'
      · simp [hd]
      · exact hseg'.kind_ne ht'
      · simp [hkind]
    have hnot : ¬ IsStorage (seg ++ d :: seg') := fun h => h.kind_ne (by simp) hd
    have hread : isAccRead compress (seg ++ d :: seg' ++ [t]) =
        mismatch (seg ++ d :: seg' ++ [t]) := by
      have hlast : (seg ++ d :: (seg' ++ [t])).getLast? = some t := by
        rw [← List.cons_append, ← List.append_assoc, List.getLast?_concat]
      rw [List.append_assoc]
      exact isAccRead_not hseg (by simp [hd]) hlast (by simp [hkind])
    have hcheck := bothOrders_iff.mpr
      ⟨hchain (.deletion, seg) (by simp), hchain (.insertion, seg') (by simp)⟩
    refine ⟨seg ++ d :: seg' ++ [t], ?_⟩
    rw [runMatchers_mismatch hmiss, runMatchers_mismatch (isAccCreation_soft hkind hnot),
      runMatchers_mismatch (isAccDeletion_closes.other (by simp [hkind])),
      runMatchers_mismatch hread,
      runMatchers_mismatch (isAccUpdate_closes.other (by simp [hkind]))]
    exact runMatchers_inOrder (isAccRedeploy_append hkind hseg hd hseg') hcheck

end

-- The documented grammar

section
open RegularExpression

/-- One of the letters `as`. -/
def oneOf (as : List α) : RegularExpression α := (as.map char).sum

theorem mem_char : w ∈ (char a).matches' ↔ w = [a] := Set.mem_singleton_iff

theorem mem_oneOf : w ∈ (oneOf as).matches' ↔ ∃ a ∈ as, w = [a] := by
  induction as with
  | nil => simp [oneOf, Language.notMem_zero]
  | cons a as ih =>
    have hcons : oneOf (a :: as) = char a + oneOf as := rfl
    rw [hcons, matches'_add, Language.mem_add, mem_char, ih]
    simp

theorem mem_star_oneOf : w ∈ (star (oneOf as)).matches' ↔ ∀ a ∈ w, a ∈ as := by
  constructor
  · rintro ⟨ws, rfl, hws⟩ a ha
    obtain ⟨w, hw, haw⟩ := List.mem_flatten.mp ha
    obtain ⟨b, hb, rfl⟩ := mem_oneOf.mp (hws w hw)
    rwa [List.mem_singleton.mp haw]
  · intro h
    refine ⟨w.map ([·]), by simp [← List.flatMap_def], fun v hv => ?_⟩
    obtain ⟨a, ha, rfl⟩ := List.mem_map.mp hv
    exact mem_oneOf.mpr ⟨a, h a ha, rfl⟩

theorem mem_mul_char : w ∈ (p * char a).matches' ↔ ∃ v ∈ p.matches', w = v ++ [a] := by
  simp only [matches'_mul, Language.mem_mul, mem_char, exists_eq_left, eq_comm]

theorem mem_char_mul : w ∈ (char a * p).matches' ↔ ∃ v ∈ p.matches', w = a :: v := by
  simp only [matches'_mul, Language.mem_mul, mem_char, exists_eq_left, List.singleton_append,
    eq_comm]

def accesses (ops : List Operation) : RegularExpression TraceKind := star (oneOf (ops.map .st))

def missingPattern : RegularExpression TraceKind := char (.ws .readZero)

def creationPattern : RegularExpression TraceKind :=
  accesses [.insertion, .readZero] * char (.ws .insertion)

def deletionPattern : RegularExpression TraceKind :=
  accesses [.readZero, .readNonZero] * char (.ws .deletion)

def updatePattern : RegularExpression TraceKind :=
  accesses [.readNonZero, .readZero, .insertion, .update, .deletion] * char (.ws .update)

def readPattern : RegularExpression TraceKind :=
  accesses [.readNonZero, .readZero] * char (.ws .readNonZero) +
    char (.ws .readNonZero) * accesses [.readNonZero, .readZero]

def redeployPattern : RegularExpression TraceKind := deletionPattern * creationPattern

def accountPattern : RegularExpression TraceKind :=
  missingPattern + creationPattern + deletionPattern + updatePattern + readPattern + redeployPattern

end

/-- The runs of storage traces between the traces of the world state. -/
def storageSegments (traces : List DecodedTrace) : List (List DecodedTrace) :=
  traces.splitOnP (·.isWorldState)

/-- The grammar the file documents, and the order within every segment. -/
def Documented (compress : Compress) (traces : List DecodedTrace) : Prop :=
  traces.map (·.kind) ∈ accountPattern.matches' ∧
    ∀ seg ∈ storageSegments traces, seg.IsChain (Follows compress)

/-- The storage accesses documented before a closing operation. -/
def allowed : Operation → Operation → Bool
  | .insertion => creationWhitelist
  | .deletion => readWhitelist
  | .readNonZero => readWhitelist
  | .update => fun _ => true
  | .readZero => fun _ => false

/-- Every storage trace of the segment is on the whitelist of what closes it. -/
def Whitelisted (s : Operation × List DecodedTrace) : Prop :=
  ∀ t ∈ s.2, ∃ op, t.kind = .st op ∧ allowed s.1 op

theorem Whitelisted.isStorage (h : Whitelisted (op, seg)) : IsStorage seg := by
  intro t ht
  obtain ⟨o, ho, -⟩ := h t ht
  exact not_isWorldState_iff.mpr ⟨o, ho⟩

theorem whitelisted_iff {ops : List Operation} (hops : ∀ o, allowed op o ↔ o ∈ ops) :
    (∀ kind ∈ seg.map (·.kind), kind ∈ ops.map .st) ↔ Whitelisted (op, seg) := by
  simp only [List.forall_mem_map, Whitelisted, hops]
  simp only [List.mem_map, and_comm, eq_comm]

theorem closed_iff (hops : ∀ o, allowed op o ↔ o ∈ ops) :
    traces.map (·.kind) ∈ (accesses ops * .char (.ws op)).matches' ↔
      ∃ seg t, traces = seg ++ [t] ∧ t.kind = .ws op ∧ Whitelisted (op, seg) := by
  simp only [mem_mul_char, accesses, mem_star_oneOf]
  constructor
  · rintro ⟨v, hv, h⟩
    obtain ⟨seg, last, rfl, rfl, hlast⟩ := List.map_eq_append_iff.mp h
    obtain ⟨t, rfl, ht⟩ := List.map_eq_singleton_iff.mp hlast
    exact ⟨seg, t, rfl, ht, (whitelisted_iff hops).mp hv⟩
  · rintro ⟨seg, t, rfl, ht, hw⟩
    exact ⟨_, (whitelisted_iff hops).mpr hw, by simp [ht]⟩

theorem readFirst_iff
    (hops : ∀ o, allowed .readNonZero o ↔ o ∈ [Operation.readNonZero, .readZero]) :
    traces.map (·.kind) ∈
        (.char (.ws .readNonZero) * accesses [.readNonZero, .readZero]).matches' ↔
      ∃ t seg, traces = t :: seg ∧ t.kind = .ws .readNonZero ∧ Whitelisted (.readNonZero, seg) := by
  simp only [mem_char_mul, accesses, mem_star_oneOf]
  constructor
  · rintro ⟨v, hv, h⟩
    obtain ⟨t, seg, rfl, ht, rfl⟩ := List.map_eq_cons_iff.mp h
    exact ⟨t, seg, rfl, ht, (whitelisted_iff hops).mp hv⟩
  · rintro ⟨t, seg, rfl, ht, hw⟩
    exact ⟨_, (whitelisted_iff hops).mpr hw, by simp [ht]⟩

/-- The documented patterns are the skeletons with whitelisted storage traces. -/
theorem accountPattern_iff :
    traces.map (·.kind) ∈ accountPattern.matches' ↔
      ∃ segs, Skeleton traces segs ∧ ∀ s ∈ segs, Whitelisted s := by
  have hc (o) : allowed .insertion o ↔ o ∈ [Operation.insertion, .readZero] := by
    cases o <;> decide
  have hd (o) : allowed .deletion o ↔ o ∈ [Operation.readZero, .readNonZero] := by
    cases o <;> decide
  have hu (o) : allowed .update o ↔
      o ∈ [Operation.readNonZero, .readZero, .insertion, .update, .deletion] := by
    cases o <;> decide
  have hr (o) : allowed .readNonZero o ↔ o ∈ [Operation.readNonZero, .readZero] := by
    cases o <;> decide
  constructor
  · rintro (((((h | h) | h) | h) | h | h) | h)
    · obtain ⟨t, rfl, ht⟩ := List.map_eq_singleton_iff.mp (mem_char.mp h)
      exact ⟨[], .missing ht, by simp⟩
    · obtain ⟨seg, t, rfl, ht, hw⟩ := (closed_iff hc).mp h
      exact ⟨_, .single hw.isStorage ht (by simp), by simpa using hw⟩
    · obtain ⟨seg, t, rfl, ht, hw⟩ := (closed_iff hd).mp h
      exact ⟨_, .single hw.isStorage ht (by simp), by simpa using hw⟩
    · obtain ⟨seg, t, rfl, ht, hw⟩ := (closed_iff hu).mp h
      exact ⟨_, .single hw.isStorage ht (by simp), by simpa using hw⟩
    · obtain ⟨seg, t, rfl, ht, hw⟩ := (closed_iff hr).mp h
      exact ⟨_, .single hw.isStorage ht (by simp), by simpa using hw⟩
    · obtain ⟨t, seg, rfl, ht, hw⟩ := (readFirst_iff hr).mp h
      exact ⟨_, .readFirst ht hw.isStorage, by simpa using hw⟩
    · obtain ⟨a, ha, b, hb, hab⟩ := Language.mem_mul.mp h
      obtain ⟨l, l', rfl, rfl, rfl⟩ := List.map_eq_append_iff.mp hab.symm
      obtain ⟨seg, d, rfl, hdel, hw⟩ := (closed_iff hd).mp ha
      obtain ⟨seg', t, rfl, ht, hw'⟩ := (closed_iff hc).mp hb
      refine ⟨[(.deletion, seg), (.insertion, seg')], ?_, by simpa using ⟨hw, hw'⟩⟩
      have := Skeleton.redeploy hw.isStorage hdel hw'.isStorage ht
      simpa using this
  · rintro ⟨segs, hsk, hw⟩
    cases hsk with
    | missing ht => exact .inl (.inl (.inl (.inl (.inl (mem_char.mpr (by simp [ht]))))))
    | @single seg op t hseg ht hop =>
      have hw := hw _ List.mem_cons_self
      cases op with
      | readZero => exact absurd rfl hop
      | insertion =>
        exact .inl (.inl (.inl (.inl (.inr ((closed_iff hc).mpr ⟨seg, t, rfl, ht, hw⟩)))))
      | deletion => exact .inl (.inl (.inl (.inr ((closed_iff hd).mpr ⟨seg, t, rfl, ht, hw⟩))))
      | update => exact .inl (.inl (.inr ((closed_iff hu).mpr ⟨seg, t, rfl, ht, hw⟩)))
      | readNonZero => exact .inl (.inr (.inl ((closed_iff hr).mpr ⟨seg, t, rfl, ht, hw⟩)))
    | readFirst ht hseg =>
      exact .inl (.inr (.inr ((readFirst_iff hr).mpr ⟨_, _, rfl, ht, hw _ List.mem_cons_self⟩)))
    | @redeploy seg seg' d t hseg hdel hseg' ht =>
      have h₁ := (closed_iff hd).mpr ⟨seg, d, rfl, hdel, hw _ List.mem_cons_self⟩
      have h₂ := (closed_iff hc).mpr ⟨seg', t, rfl, ht, hw (.insertion, seg') (by simp)⟩
      exact .inr (Language.mem_mul.mpr ⟨_, h₁, _, h₂, by simp⟩)

def worldStateOps (traces : List DecodedTrace) : List Operation :=
  traces.filterMap fun t => match t.kind with
    | .ws op => some op
    | .st _ => none

theorem worldStateOps_storage (h : IsStorage seg) : worldStateOps seg = [] := by
  rw [worldStateOps, List.filterMap_eq_nil_iff]
  intro t ht
  obtain ⟨op, hop⟩ := not_isWorldState_iff.mp (h t ht)
  rw [hop]

theorem worldStateOps_append (l l' : List DecodedTrace) :
    worldStateOps (l ++ l') = worldStateOps l ++ worldStateOps l' := List.filterMap_append

theorem worldStateOps_cons (h : t.kind = .ws op) (l : List DecodedTrace) :
    worldStateOps (t :: l) = op :: worldStateOps l := by
  rw [worldStateOps, List.filterMap_cons, h]
  rfl

/-- The runs of storage traces of a skeleton, and what is between them. -/
theorem Skeleton.runs (h : Skeleton traces segs) :
    (segs = [] ∧ worldStateOps traces = [.readZero] ∧ storageSegments traces = [[], []]) ∨
    (∃ op seg, segs = [(op, seg)] ∧ op ≠ .readZero ∧ worldStateOps traces = [op] ∧
      (storageSegments traces = [seg, []] ∨ storageSegments traces = [[], seg])) ∨
    (∃ seg seg', segs = [(.deletion, seg), (.insertion, seg')] ∧
      worldStateOps traces = [.deletion, .insertion] ∧
      storageSegments traces = [seg, seg', []]) := by
  have hsplit {op seg t rest} (hseg : IsStorage seg) (ht : t.kind = .ws op) :
      storageSegments (seg ++ t :: rest) = seg :: storageSegments rest :=
    List.splitOnP_append_cons_of_forall_mem hseg _ (isWorldState_of_kind ht) _
  cases h with
  | missing ht =>
    refine .inl ⟨rfl, worldStateOps_cons ht [], ?_⟩
    exact hsplit isStorage_nil ht
  | single hseg ht hop =>
    refine .inr (.inl ⟨_, _, rfl, hop, ?_, .inl (hsplit hseg ht)⟩)
    rw [worldStateOps_append, worldStateOps_storage hseg, worldStateOps_cons ht]
    rfl
  | readFirst ht hseg =>
    refine .inr (.inl ⟨_, _, rfl, by simp, ?_, .inr ?_⟩)
    · rw [worldStateOps_cons ht, worldStateOps_storage hseg]
    · rw [← List.nil_append (_ :: _), hsplit isStorage_nil ht, storageSegments,
        List.splitOnP_eq_singleton hseg]
  | redeploy hseg hd hseg' ht =>
    refine .inr (.inr ⟨_, _, rfl, ?_, ?_⟩)
    · rw [worldStateOps_append, worldStateOps_append, worldStateOps_storage hseg,
        worldStateOps_cons hd, worldStateOps_storage hseg', worldStateOps_cons ht]
      rfl
    · rw [List.append_assoc, List.cons_append, hsplit hseg hd, hsplit hseg' ht]
      rfl

theorem Skeleton.storageSegments {P : List DecodedTrace → Prop} (h : Skeleton traces segs)
    (hnil : P []) : (∀ seg ∈ storageSegments traces, P seg) ↔ ∀ s ∈ segs, P s.2 := by
  rcases h.runs with ⟨rfl, -, hs⟩ | ⟨op, seg, rfl, -, -, hs | hs⟩ | ⟨seg, seg', rfl, -, hs⟩
  all_goals
    simp [hs, hnil]

/-- The segments of a skeleton, from its runs and what is between them. -/
def segmentsOf : List Operation → List (List DecodedTrace) → List (Operation × List DecodedTrace)
  | [.readZero], _ => []
  | [op], segs => [(op, segs.flatten)]
  | ops, segs => ops.zip segs

theorem Skeleton.eq_segmentsOf (h : Skeleton traces segs) :
    segs = segmentsOf (worldStateOps traces) (StateManager.storageSegments traces) := by
  rcases h.runs with ⟨rfl, ho, -⟩ | ⟨op, seg, rfl, hne, ho, hs | hs⟩ | ⟨a, b, rfl, ho, hs⟩
  all_goals
    simp [segmentsOf, *]

theorem Skeleton.unique (h : Skeleton traces segs) (h' : Skeleton traces segs') : segs = segs' :=
  h.eq_segmentsOf.trans h'.eq_segmentsOf.symm

theorem documented_iff :
    Documented compress traces ↔
      ∃ segs, Skeleton traces segs ∧ ∀ s ∈ segs,
        Whitelisted s ∧ s.2.IsChain (Follows compress) := by
  rw [Documented, accountPattern_iff]
  constructor
  · rintro ⟨⟨segs, hsk, hw⟩, hchain⟩
    exact ⟨segs, hsk, fun s hs => ⟨hw s hs, (hsk.storageSegments .nil).mp hchain s hs⟩⟩
  · rintro ⟨segs, hsk, h⟩
    exact ⟨⟨segs, hsk, fun s hs => (h s hs).1⟩,
      (hsk.storageSegments .nil).mpr fun s hs => (h s hs).2⟩

/-- The two last traces of a segment are in order. -/
def LastPairOrdered (compress : Compress) (seg : List DecodedTrace) : Prop :=
  ∀ init curr next, seg = init ++ [curr, next] → Follows compress curr next

theorem isChain_iff_lastPair :
    seg.IsChain (Follows compress) ↔
      seg.dropLast.IsChain (Follows compress) ∧ LastPairOrdered compress seg := by
  constructor
  · intro h
    refine ⟨h.dropLast, ?_⟩
    rintro init curr next rfl
    have := (List.isChain_append.mp h).2.1
    exact (List.isChain_cons_cons.mp this).1
  · rintro ⟨hinit, hlast⟩
    rcases seg.eq_nil_or_concat' with rfl | ⟨init, next, rfl⟩
    · exact .nil
    · rw [List.dropLast_concat] at hinit
      refine List.isChain_append.mpr ⟨hinit, .singleton _, ?_⟩
      intro curr hcurr y hy
      obtain rfl : next = y := by simpa using hy
      obtain ⟨init, rfl⟩ := List.getLast?_eq_some_iff.mp hcurr
      exact hlast init curr next (by simp)

/-- The inspection decides the documented grammar, unless the traces have the
skeleton of a pattern and all but the last pair of every segment in order: then
a storage trace off the whitelist and an unordered last pair go unnoticed. -/
theorem inspectPattern_documented_iff (traces : List DecodedTrace) :
    ((∃ traces', inspectPattern compress traces = .ok ([], traces')) ↔
        Documented compress traces) ↔
      ∀ segs, Skeleton traces segs → (∀ s ∈ segs, s.2.dropLast.IsChain (Follows compress)) →
        ∀ s ∈ segs, Whitelisted s ∧ LastPairOrdered compress s.2 := by
  rw [documented_iff]
  constructor
  · rintro h segs hsk hchain
    obtain ⟨segs', hsk', hdoc⟩ := h.mp (hsk.inspectPattern hchain)
    obtain rfl := hsk.unique hsk'
    intro s hs
    exact ⟨(hdoc s hs).1, (isChain_iff_lastPair.mp (hdoc s hs).2).2⟩
  · intro h
    constructor
    · rintro ⟨traces', hok⟩
      obtain ⟨⟨segs, hsk, hchain⟩, -⟩ := inspectPattern_skeleton hok
      refine ⟨segs, hsk, fun s hs => ?_⟩
      obtain ⟨hw, hlast⟩ := h segs hsk hchain s hs
      exact ⟨hw, isChain_iff_lastPair.mpr ⟨hchain s hs, hlast⟩⟩
    · rintro ⟨segs, hsk, hdoc⟩
      exact hsk.inspectPattern fun s hs => (isChain_iff_lastPair.mp (hdoc s hs).2).1

def storageUpdate : DecodedTrace :=
  { location := "0x0000000000000000000000000000000000000000"
    underlying := .st (.update
      { location := "0x0000000000000000000000000000000000000000", key := 1, oldValue := 2
        newValue := 3, newNextFreeNode := 3, oldSubRoot := 0, newSubRoot := 0, oldOpening := .head
        proof := ⟨2, []⟩ }) }

def accountDeletion : DecodedTrace :=
  { location := wsLocation
    underlying := .ws (.deletion
      { location := wsLocation, newNextFreeNode := 3, oldSubRoot := 0, newSubRoot := 0, key := 0
        proofMinus := ⟨0, []⟩, proofDeleted := ⟨2, []⟩, proofPlus := ⟨1, []⟩, oldOpenMinus := .head
        deletedOpen := .head, oldOpenPlus := .tail, deletedValue := default }) }

def slotRead : DecodedTrace :=
  { location := "0x0000000000000000000000000000000000000000"
    underlying := .st (.readZero
      { location := "0x0000000000000000000000000000000000000000", key := 1, subRoot := 0
        nextFreeNode := 2, openingMinus := .head, openingPlus := .tail, proofMinus := ⟨0, []⟩
        proofPlus := ⟨1, []⟩ }) }

def accountUpdate : DecodedTrace :=
  { location := wsLocation
    underlying := .ws (.update
      { location := wsLocation, key := 0, oldValue := default, newValue := default
        newNextFreeNode := 3, oldSubRoot := 0, newSubRoot := 0, oldOpening := .head
        proof := ⟨2, []⟩ }) }

theorem inspectPattern_undocumented :
    (∀ t ∈ [storageUpdate, accountDeletion, slotRead, accountUpdate],
      t.getRelatedAccount = .ok 0) ∧
    ((∃ traces', inspectPattern toyCompress [storageUpdate, accountDeletion] = .ok ([], traces')) ∧
      ¬ Documented toyCompress [storageUpdate, accountDeletion]) ∧
    ((∃ traces', inspectPattern toyCompress [slotRead, slotRead, accountUpdate] =
        .ok ([], traces')) ∧ ¬ Documented toyCompress [slotRead, slotRead, accountUpdate]) := by
  have hdel : Skeleton ([storageUpdate] ++ [accountDeletion]) [(.deletion, [storageUpdate])] :=
    .single (by decide +kernel) rfl (by decide)
  have hupd : Skeleton ([slotRead, slotRead] ++ [accountUpdate])
      [(.update, [slotRead, slotRead])] :=
    .single (by decide +kernel) rfl (by decide)
  refine ⟨by decide +kernel, ⟨hdel.inspectPattern (by simp), ?_⟩, hupd.inspectPattern (by simp), ?_⟩
  · rw [documented_iff]
    rintro ⟨segs, hsk, hdoc⟩
    obtain rfl := hdel.unique hsk
    obtain ⟨op, ⟨⟩, ⟨⟩⟩ := (hdoc _ List.mem_cons_self).1 _ List.mem_cons_self
  · rw [documented_iff]
    rintro ⟨segs, hsk, hdoc⟩
    obtain rfl := hupd.unique hsk
    have hfollows := (List.isChain_cons_cons.mp (hdoc _ List.mem_cons_self).2).1
    rcases hfollows with h | ⟨-, h⟩
    all_goals
      exact lt_irrefl _ h

end StatusNetwork.StateManager
