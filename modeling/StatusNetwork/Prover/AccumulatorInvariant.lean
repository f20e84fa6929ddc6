import StatusNetwork.Base.SortedLinks
import StatusNetwork.Prover.AccumulatorLaws

/-!
# The invariant of the prover

In every reachable state the openings form a list sorted by their hashed keys,
from the head at position 0 to the tail at position 1, and the tree commits to
them. Under the invariant each operation is specified by one lemma: it returns
exactly when its key is absent or present as it needs, and the lemma gives the
data it leaves and the trace it returns.
-/

namespace StatusNetwork.Prover

open SortedLinks (Heap Link Sorted)
open KoalaOctuplet (cmp_gt_iff cmp_lt_iff le_max zero_le)
open ProverState (Sandwich findKey findKeyIn sandwichFrom)

variable {compress : Compress} {K V : Type} {data : Mapping K V} {i a b n : Int64}
  {t t' tm tp new : KVOpeningTuple K V}

-- The list of the data

def KVOpeningTuple.link (t : KVOpeningTuple K V) : Link Int64 KoalaOctuplet :=
  ⟨t.leafOpening.prev, t.leafOpening.next, t.leafOpening.hKey⟩

def links (data : Mapping K V) : Heap Int64 KoalaOctuplet := fun i =>
  (data.lookup i).map KVOpeningTuple.link

theorem links_of_lookup (h : data.lookup i = some t) : links data i = some t.link := by
  simp [links, h]

theorem links_some : links data i = some l ↔ ∃ t, data.lookup i = some t ∧ t.link = l := by
  simp [links]

/-- The data with `new` at the fresh position `n` between `a` and `b`. -/
def insertedData (data : Mapping K V) (a n b : Int64) (tm new tp : KVOpeningTuple K V) :
    Mapping K V :=
  ((data.insert a (tm.copyWithNext n)).insert n new).insert b (tp.copyWithPrev n)

/-- The data without position `i` between `a` and `b`. -/
def deletedData (data : Mapping K V) (a i b : Int64) (tm tp : KVOpeningTuple K V) :
    Mapping K V :=
  ((data.insert a (tm.copyWithNext b)).erase i).insert b (tp.copyWithPrev a)

/-- Same pair and hashes, whatever the pointers. -/
structure Agree (t t' : KVOpeningTuple K V) : Prop where
  key : t'.key = t.key
  value : t'.value = t.value
  hKey : t'.leafOpening.hKey = t.leafOpening.hKey
  hVal : t'.leafOpening.hVal = t.leafOpening.hVal

theorem agree_copyWithNext (t : KVOpeningTuple K V) (n : Int64) : Agree t (t.copyWithNext n) :=
  ⟨rfl, rfl, rfl, rfl⟩

theorem agree_copyWithPrev (t : KVOpeningTuple K V) (n : Int64) : Agree t (t.copyWithPrev n) :=
  ⟨rfl, rfl, rfl, rfl⟩

theorem Agree.refl (t : KVOpeningTuple K V) : Agree t t := ⟨rfl, rfl, rfl, rfl⟩

theorem lookup_insertedData : (insertedData data a n b tm new tp).lookup j =
    if j = b then some (tp.copyWithPrev n) else if j = n then some new
    else if j = a then some (tm.copyWithNext n) else data.lookup j := by
  simp only [insertedData, lookup_insert_ite]

theorem lookup_deletedData : (deletedData data a i b tm tp).lookup j =
    if j = b then some (tp.copyWithPrev a) else if j = i then none
    else if j = a then some (tm.copyWithNext b) else data.lookup j := by
  simp only [deletedData, lookup_insert_ite, lookup_erase_ite]

theorem insertedData_new (hbn : b ≠ n) :
    (insertedData data a n b tm new tp).lookup n = some new := by
  rw [lookup_insertedData, if_neg hbn.symm, if_pos rfl]

section
variable (hab : a ≠ b) (ha : data.lookup a = some tm) (hb : data.lookup b = some tp)

include hab ha hb in
theorem links_insertedData (hn : data.lookup n = none) (hnew : new.link = ⟨a, b, k⟩) :
    links (insertedData data a n b tm new tp) = SortedLinks.link (links data) a n b k := by
  funext j
  simp only [links, lookup_insertedData, SortedLinks.link]
  split_ifs with hjb hjn hja <;> subst_vars
  all_goals simp_all [KVOpeningTuple.link, KVOpeningTuple.copyWithPrev, LeafOpening.copyWithPrev,
    KVOpeningTuple.copyWithNext, LeafOpening.copyWithNext]
  rfl

include ha hb in
theorem insertedData_cases (h : (insertedData data a n b tm new tp).lookup j = some t') :
    (j = n ∧ t' = new) ∨ ∃ t, data.lookup j = some t ∧ Agree t t' := by
  rw [lookup_insertedData] at h
  split_ifs at h with hjb hjn hja
  · cases h
    exact .inr ⟨tp, hjb ▸ hb, agree_copyWithPrev ..⟩
  · exact .inl ⟨hjn, (Option.some.inj h).symm⟩
  · cases h
    exact .inr ⟨tm, hja ▸ ha, agree_copyWithNext ..⟩
  · exact .inr ⟨t', h, .refl t'⟩

include ha hb in
theorem insertedData_old (hn : data.lookup n = none) (h : data.lookup j = some t) :
    ∃ t', (insertedData data a n b tm new tp).lookup j = some t' ∧ Agree t t' := by
  rw [lookup_insertedData]
  split_ifs with hjb hjn hja <;> subst_vars
  · cases hb.symm.trans h
    exact ⟨_, rfl, agree_copyWithPrev ..⟩
  · cases hn.symm.trans h
  · cases ha.symm.trans h
    exact ⟨_, rfl, agree_copyWithNext ..⟩
  · exact ⟨t, h, .refl t⟩

include hab ha hb in
theorem links_deletedData (hai : a ≠ i) (hbi : b ≠ i) :
    links (deletedData data a i b tm tp) = SortedLinks.unlink (links data) a i b := by
  funext j
  simp only [links, lookup_deletedData, SortedLinks.unlink]
  split_ifs with hjb hji hja <;> subst_vars
  all_goals simp_all [KVOpeningTuple.link, KVOpeningTuple.copyWithPrev, LeafOpening.copyWithPrev,
    KVOpeningTuple.copyWithNext, LeafOpening.copyWithNext]
  rfl

include ha hb in
theorem deletedData_cases (hbi : b ≠ i) (h : (deletedData data a i b tm tp).lookup j = some t') :
    j ≠ i ∧ ∃ t, data.lookup j = some t ∧ Agree t t' := by
  rw [lookup_deletedData] at h
  split_ifs at h with hjb hji hja
  · cases h
    exact ⟨hjb ▸ hbi, tp, hjb ▸ hb, agree_copyWithPrev ..⟩
  · cases h
    exact ⟨hji, tm, hja ▸ ha, agree_copyWithNext ..⟩
  · exact ⟨hji, t', h, .refl t'⟩

include ha hb in
theorem deletedData_old (hji : j ≠ i) (h : data.lookup j = some t) :
    ∃ t', (deletedData data a i b tm tp).lookup j = some t' ∧ Agree t t' := by
  rw [lookup_deletedData]
  split_ifs with hjb hja <;> subst_vars
  · cases hb.symm.trans h
    exact ⟨_, rfl, agree_copyWithPrev ..⟩
  · cases ha.symm.trans h
    exact ⟨_, rfl, agree_copyWithNext ..⟩
  · exact ⟨t, h, .refl t⟩

end

-- The search

theorem findKeyIn_ok (hkey : KoalaOctuplet) (hmem : ∀ i ∈ order, i ∈ data) :
    ∃ r, findKeyIn data hkey order = .ok r ∧
      (r = none → ∀ i ∈ order, ∀ t, data.lookup i = some t → t.leafOpening.hKey ≠ hkey) ∧
      (∀ i, r = some i → ∃ t, data.lookup i = some t ∧ t.leafOpening.hKey = hkey) := by
  induction order with
  | nil => exact ⟨none, rfl, by simp, by simp⟩
  | cons i rest ih =>
    obtain ⟨t, ht⟩ := Finmap.mem_iff.mp (hmem i List.mem_cons_self)
    simp only [findKeyIn, mustGet_ok.mpr ht, ok_bind]
    by_cases hk : hkey = t.leafOpening.hKey
    · exact ⟨some i, if_pos hk, by simp, by rintro j ⟨⟩; exact ⟨t, ht, hk.symm⟩⟩
    · obtain ⟨r, hr, hnone, hsome⟩ := ih fun j hj => hmem j (List.mem_cons_of_mem _ hj)
      refine ⟨r, by rw [if_neg hk, hr], ?_, hsome⟩
      intro h j hj t' ht'
      rcases List.mem_cons.mp hj with rfl | hj
      · cases ht.symm.trans ht'
        exact fun he => hk he.symm
      · exact hnone h j hj t' ht'

/-- The loop of `findSandwich` keeps two live bounds around the key. -/
structure Bounds (data : Mapping K V) (hkey : KoalaOctuplet) (s : ProverState.Sandwich) :
    Prop where
  minus : ∃ t, data.lookup s.iMinus = some t ∧ t.leafOpening.hKey = s.hMinus
  plus : ∃ t, data.lookup s.iPlus = some t ∧ t.leafOpening.hKey = s.hPlus
  lower : s.hMinus < hkey
  upper : hkey < s.hPlus

theorem narrow_ok (hb : Bounds data hkey s) (ht : data.lookup i = some t)
    (hne : t.leafOpening.hKey ≠ hkey) :
    ∃ s', s.narrow hkey t.leafOpening.hKey i = .ok s' ∧ Bounds data hkey s' ∧
      s.hMinus ≤ s'.hMinus ∧ s'.hPlus ≤ s.hPlus ∧
      (t.leafOpening.hKey ≤ s'.hMinus ∨ s'.hPlus ≤ t.leafOpening.hKey) := by
  unfold Sandwich.narrow
  rcases lt_trichotomy t.leafOpening.hKey hkey with hlt | heq | hgt
  · rw [cmp_lt_iff.mpr hlt]
    refine ⟨_, rfl, ?_⟩
    by_cases hm : t.leafOpening.hKey.cmp s.hMinus = .gt
    · rw [if_pos hm]
      exact ⟨⟨⟨t, ht, rfl⟩, hb.plus, hlt, hb.upper⟩, (cmp_gt_iff.mp hm).le, le_rfl, .inl le_rfl⟩
    · rw [if_neg hm]
      rw [cmp_gt_iff, not_lt] at hm
      exact ⟨hb, le_rfl, le_rfl, .inl hm⟩
  · exact absurd heq hne
  · rw [cmp_gt_iff.mpr hgt]
    refine ⟨_, rfl, ?_⟩
    by_cases hm : t.leafOpening.hKey.cmp s.hPlus = .lt
    · rw [if_pos hm]
      exact ⟨⟨hb.minus, ⟨t, ht, rfl⟩, hb.lower, hgt⟩, le_rfl, (cmp_lt_iff.mp hm).le, .inr le_rfl⟩
    · rw [if_neg hm]
      rw [cmp_lt_iff, not_lt] at hm
      exact ⟨hb, le_rfl, le_rfl, .inr hm⟩

theorem sandwichFrom_ok (hb : Bounds data hkey s) (hmem : ∀ i ∈ order, i ∈ data)
    (hne : ∀ i t, data.lookup i = some t → t.leafOpening.hKey ≠ hkey) :
    ∃ s', sandwichFrom data hkey order s = .ok s' ∧ Bounds data hkey s' ∧
      s.hMinus ≤ s'.hMinus ∧ s'.hPlus ≤ s.hPlus ∧
      ∀ i ∈ order, ∀ t, data.lookup i = some t →
        t.leafOpening.hKey ≤ s'.hMinus ∨ s'.hPlus ≤ t.leafOpening.hKey := by
  induction order generalizing s with
  | nil => exact ⟨s, rfl, hb, le_rfl, le_rfl, by simp⟩
  | cons i rest ih =>
    obtain ⟨t, ht⟩ := Finmap.mem_iff.mp (hmem i List.mem_cons_self)
    obtain ⟨s₁, hs₁, hb₁, hm₁, hp₁, hside⟩ := narrow_ok hb ht (hne i t ht)
    obtain ⟨s', hs', hb', hm', hp', hrest⟩ := ih hb₁ fun j hj => hmem j (List.mem_cons_of_mem _ hj)
    refine ⟨s', ?_, hb', hm₁.trans hm', hp'.trans hp₁, ?_⟩
    · simp only [sandwichFrom, mustGet_ok.mpr ht, ok_bind, hs₁, hs']
    · intro j hj t' ht'
      rcases List.mem_cons.mp hj with rfl | hj
      · cases ht.symm.trans ht'
        exact hside.imp (fun h => h.trans hm') (fun h => hp'.trans h)
      · exact hrest j hj t' ht'

-- The invariant

variable [WriterTo K] [WriterTo V] {p : ProverState K V}

structure Invariant (compress : Compress) (p : ProverState K V) : Prop where
  committed : Committed compress p.tree p.data
  sorted : Sorted (links p.data) 0 1
  headKey : ∀ {t}, p.data.lookup 0 = some t → t.leafOpening.hKey = 0
  tailKey : ∀ {t}, p.data.lookup 1 = some t → t.leafOpening.hKey = .max
  consistent : ∀ {i t}, p.data.lookup i = some t → i ≠ 0 → i ≠ 1 →
    t.leafOpening.hKey = hash compress t.key ∧ t.leafOpening.hVal = hash compress t.value
  bound : ∀ {i t}, p.data.lookup i = some t → 0 ≤ i.toInt ∧ i.toInt < p.nextFreeNode.toInt
  room : p.nextFreeNode.toInt ≤ 2 ^ treeDepth

def Absent (compress : Compress) (data : Mapping K V) (key : K) : Prop :=
  ∀ i t, data.lookup i = some t → t.leafOpening.hKey ≠ hash compress key

def KVOpeningTuple.Checked (compress : Compress) (t : KVOpeningTuple K V) : Prop :=
  t.leafOpening.headOrTail ∨
    (t.leafOpening.hKey = hash compress t.key ∧ t.leafOpening.hVal = hash compress t.value)

theorem checkAndLeaf_iff :
    t.checkAndLeaf compress = .ok leaf ↔
      t.Checked compress ∧ leaf = hash compress t.leafOpening := by
  unfold KVOpeningTuple.checkAndLeaf KVOpeningTuple.Checked
  by_cases h : t.leafOpening.headOrTail
  · simp [h, eq_comm]
  · simp only [h, Bool.false_eq_true, if_false, false_or, guard_eq_ok, ne_eq, not_not,
      Except.ok.injEq, and_assoc, eq_comm (a := leaf)]

theorem checkAndLeaf_ok (h : t.Checked compress) :
    t.checkAndLeaf compress = .ok (hash compress t.leafOpening) :=
  checkAndLeaf_iff.mpr ⟨h, rfl⟩

namespace Invariant

variable (hi : Invariant compress p)
include hi

theorem inTree (h : p.data.lookup i = some t) : InTree i := by
  obtain ⟨h0, hlt⟩ := hi.bound h
  exact ⟨h0, lt_of_lt_of_le hlt hi.room⟩

theorem unique (h : p.data.lookup i = some t) (h' : p.data.lookup j = some t')
    (he : t.leafOpening.hKey = t'.leafOpening.hKey) : i = j :=
  hi.sorted.unique (links_of_lookup h) (links_of_lookup h') he

theorem head : ∃ t, p.data.lookup 0 = some t := by
  obtain ⟨l, hl, -⟩ := hi.sorted.headLink
  obtain ⟨t, ht, -⟩ := links_some.mp hl
  exact ⟨t, ht⟩

theorem tail : ∃ t, p.data.lookup 1 = some t := by
  obtain ⟨l, hl, -⟩ := hi.sorted.tailLink
  obtain ⟨t, ht, -⟩ := links_some.mp hl
  exact ⟨t, ht⟩

theorem headOrTail_iff (h : p.data.lookup i = some t) :
    t.leafOpening.headOrTail ↔ i = 0 ∨ i = 1 := by
  obtain ⟨t0, h0⟩ := hi.head
  obtain ⟨t1, h1⟩ := hi.tail
  simp only [LeafOpening.headOrTail, Bool.or_eq_true, decide_eq_true_eq]
  constructor
  · rintro (hk | hk)
    · exact .inr (hi.unique h h1 (hk.trans (hi.tailKey h1).symm))
    · exact .inl (hi.unique h h0 (hk.trans (hi.headKey h0).symm))
  · rintro (rfl | rfl)
    · exact .inr (hi.headKey h)
    · exact .inl (hi.tailKey h)

theorem checked (h : p.data.lookup i = some t) : t.Checked compress := by
  by_cases hends : i = 0 ∨ i = 1
  · exact .inl ((hi.headOrTail_iff h).mpr hends)
  · rw [not_or] at hends
    exact .inr (hi.consistent h hends.1 hends.2)

theorem fresh : p.data.lookup p.nextFreeNode = none := by
  cases h : p.data.lookup p.nextFreeNode with
  | none => rfl
  | some t => exact absurd (hi.bound h).2 (lt_irrefl _)

theorem one_lt_nextFreeNode : 1 < p.nextFreeNode.toInt := by
  obtain ⟨t, ht⟩ := hi.tail
  exact (hi.bound ht).2

end Invariant

-- Where a key belongs

/-- The two neighbours in between which a key falls. -/
structure Between (compress : Compress) (p : ProverState K V) (key : K) (a b : Int64)
    (tm tp : KVOpeningTuple K V) : Prop where
  minus : p.data.lookup a = some tm
  plus : p.data.lookup b = some tp
  next : tm.leafOpening.next = b
  prev : tp.leafOpening.prev = a
  lower : tm.leafOpening.hKey < hash compress key
  upper : hash compress key < tp.leafOpening.hKey

namespace Between

variable {key : K} (hbt : Between compress p key a b tm tp)

omit [WriterTo V] in
include hbt in
theorem ne : a ≠ b := by
  rintro rfl
  have h := hbt.minus.symm.trans hbt.plus
  cases h
  exact lt_irrefl _ (hbt.lower.trans hbt.upper)

omit [WriterTo V] in
include hbt in
theorem nextLink : links p.data tm.link.next = some tp.link := by
  rw [show tm.link.next = b from hbt.next]
  exact links_of_lookup hbt.plus

variable (hi : Invariant compress p)
include hi hbt

theorem minus_ne_tail : a ≠ 1 := by
  rintro rfl
  have := hbt.lower
  rw [hi.tailKey hbt.minus] at this
  exact absurd (le_max _) (not_le.mpr this)

theorem absent : Absent compress p.data key := fun _ _ hj =>
  hi.sorted.not_live (links_of_lookup hbt.minus) (hbt.minus_ne_tail hi) hbt.nextLink
    hbt.lower hbt.upper (links_of_lookup hj)

theorem unique
    (h' : Between compress p key a' b' tm' tp') : a' = a ∧ b' = b ∧ tm' = tm ∧ tp' = tp := by
  have haa : a' = a := hi.sorted.neighbours_unique
    (links_of_lookup h'.minus) (h'.minus_ne_tail hi) h'.nextLink h'.lower h'.upper
    (links_of_lookup hbt.minus) (hbt.minus_ne_tail hi) hbt.nextLink hbt.lower hbt.upper
  subst haa
  have hm := h'.minus.symm.trans hbt.minus
  cases hm
  obtain rfl : b' = b := h'.next.symm.trans hbt.next
  have hp := h'.plus.symm.trans hbt.plus
  cases hp
  exact ⟨rfl, rfl, rfl, rfl⟩

end Between

section
variable {hkey : KoalaOctuplet} {key : K}

omit [WriterTo V] in
theorem findKey_none (ho : p.ListsAllKeys order) :
    p.findKey compress order key = .ok none ↔ Absent compress p.data key := by
  obtain ⟨r, hr, hnone, hsome⟩ := findKeyIn_ok (hash compress key) fun i hi => (ho.2 i).mp hi
  unfold findKey
  rw [hr]
  constructor
  · intro h j t ht
    exact hnone (Except.ok.inj h) j ((ho.2 j).mpr (Finmap.mem_iff.mpr ⟨t, ht⟩)) t ht
  · intro habs
    cases r with
    | none => rfl
    | some i =>
      obtain ⟨t, ht, hk⟩ := hsome i rfl
      exact absurd hk (habs i t ht)

theorem findKey_some (hi : Invariant compress p) (ho : p.ListsAllKeys order) :
    p.findKey compress order key = .ok (some i) ↔
      ∃ t, p.data.lookup i = some t ∧ t.leafOpening.hKey = hash compress key := by
  obtain ⟨r, hr, hnone, hsome⟩ := findKeyIn_ok (hash compress key) fun i hi => (ho.2 i).mp hi
  unfold findKey
  rw [hr]
  constructor
  · intro h
    exact hsome i (Except.ok.inj h)
  · rintro ⟨t, ht, hk⟩
    cases r with
    | none => exact absurd hk (hnone rfl i ((ho.2 i).mpr (Finmap.mem_iff.mpr ⟨t, ht⟩)) t ht)
    | some j =>
      obtain ⟨t', ht', hk'⟩ := hsome j rfl
      rw [hi.unique ht' ht (hk'.trans hk.symm)]

theorem findSandwich_ok (hi : Invariant compress p) (ho : p.ListsAllKeys order)
    (habs : Absent compress p.data key) :
    ∃ a b tm tp, p.findSandwich compress order key = .ok (a, b) ∧
      Between compress p key a b tm tp := by
  obtain ⟨t0, h0⟩ := hi.head
  obtain ⟨t1, h1⟩ := hi.tail
  have hb : Bounds p.data (hash compress key) {} := by
    refine ⟨⟨t0, h0, hi.headKey h0⟩, ⟨t1, h1, hi.tailKey h1⟩, ?_, ?_⟩
    · have hne := habs 0 t0 h0
      rw [hi.headKey h0] at hne
      exact lt_of_le_of_ne (zero_le _) hne
    · have hne := habs 1 t1 h1
      rw [hi.tailKey h1] at hne
      exact lt_of_le_of_ne (le_max _) hne.symm
  obtain ⟨s, hs, hb, -, -, hside⟩ := sandwichFrom_ok hb (fun i hi => (ho.2 i).mp hi) habs
  obtain ⟨tm, hm, hmk⟩ := hb.minus
  obtain ⟨tp, hp, hpk⟩ := hb.plus
  have hlt : tm.leafOpening.hKey < tp.leafOpening.hKey := by
    rw [hmk, hpk]; exact hb.lower.trans hb.upper
  obtain ⟨hat, hnext⟩ := hi.sorted.next_eq (links_of_lookup hm) (links_of_lookup hp) hlt <| by
    intro j l hj
    obtain ⟨t, ht, rfl⟩ := links_some.mp hj
    have := hside j ((ho.2 j).mpr (Finmap.mem_iff.mpr ⟨t, ht⟩)) t ht
    rwa [← hmk, ← hpk] at this
  obtain ⟨r, hr, hprev, -⟩ := hi.sorted.next (links_of_lookup hm) hat
  rw [hnext, links_of_lookup hp] at hr
  cases hr
  refine ⟨s.iMinus, s.iPlus, tm, tp, ?_, hm, hp, hnext, hprev, ?_, ?_⟩
  · have hne : s.iMinus ≠ s.iPlus := by
      intro he
      rw [he, hp] at hm
      cases hm
      exact lt_irrefl _ hlt
    simp [ProverState.findSandwich, hs, hne]
  · rw [hmk]; exact hb.lower
  · rw [hpk]; exact hb.upper

end

end StatusNetwork.Prover
