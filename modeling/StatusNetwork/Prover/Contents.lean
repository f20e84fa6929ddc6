import StatusNetwork.Prover.Completeness

/-!
# The map an accumulator holds

Replaying the calls of a prover on a finite map gives the pairs of its data, head and tail apart
(`RefinesMap`). The prover knows a key by its hash only, so the map is kept by hashes first; as long
as the keys of the calls do not collide it is the map by keys.
-/

namespace StatusNetwork.Prover

abbrev Contents (K V : Type) := Finmap fun _ : KoalaOctuplet => K × V

section
variable {K V : Type}

def Call.key : Call K V → K
  | .insert key _ | .update key _ | .delete key | .readNonZero key | .readZero key => key

def Call.apply [WriterTo K] (compress : Compress) (m : Contents K V) : Call K V → Contents K V
  | .insert key val => m.insert (hash compress key) (key, val)
  | .update key newVal =>
    match m.lookup (hash compress key) with
    | some (old, _) => m.insert (hash compress key) (old, newVal)
    | none => m
  | .delete key => m.erase (hash compress key)
  | .readNonZero _ | .readZero _ => m

def contents [WriterTo K] (compress : Compress) (calls : List (Call K V)) : Contents K V :=
  calls.foldl (Call.apply compress) ∅

/-- The same by keys. -/
def Call.applyTo [DecidableEq K] (m : Finmap fun _ : K => V) : Call K V → Finmap fun _ : K => V
  | .insert key val => m.insert key val
  | .update key newVal => if key ∈ m then m.insert key newVal else m
  | .delete key => m.erase key
  | .readNonZero _ | .readZero _ => m

def replay [DecidableEq K] (calls : List (Call K V)) : Finmap fun _ : K => V :=
  calls.foldl Call.applyTo ∅

inductive Runs [WriterTo K] [WriterTo V] [Inhabited K] [Inhabited V] (compress : Compress) :
    List (Call K V) → ProverState K V → Prop
  | init : initializeProverState compress K V location = .ok p → Runs compress [] p
  | call : Runs compress calls p → p.ListsAllKeys order → p.ListsAllKeys order' →
      p.call compress order order' c = .ok (t, p') → Runs compress (calls ++ [c]) p'

/-- A pair of the data, under the hash of its key. -/
def Entry (data : Mapping K V) (h : KoalaOctuplet) (key : K) (value : V) : Prop :=
  ∃ i t, i ≠ 0 ∧ i ≠ 1 ∧ data.lookup i = some t ∧ t.leafOpening.hKey = h ∧ t.key = key ∧
    t.value = value

def Holds (data : Mapping K V) (m : Contents K V) : Prop :=
  ∀ h key value, m.lookup h = some (key, value) ↔ Entry data h key value

end

variable {compress : Compress} {K V : Type} [WriterTo K] [WriterTo V] {p p' : ProverState K V}
  {i : Int64} {t tm tp : KVOpeningTuple K V} {order order' : List Int64} {key : K}
  {calls : List (Call K V)} {m : Contents K V}

-- The pairs after a call

section
variable (hi : Invariant compress p)
include hi

theorem entry_afterInsert (hbt : Between compress p key a b tm tp) :
    Entry (afterInsert compress p key val a b tm tp) h k v ↔
      (h = hash compress key ∧ k = key ∧ v = val) ∨ Entry p.data h k v := by
  have hn := hi.one_lt_nextFreeNode
  constructor
  · rintro ⟨j, t', h0, h1, hj, rfl, rfl, rfl⟩
    rcases insertedData_cases hbt.minus hbt.plus hj with ⟨-, rfl⟩ | ⟨t, ht, hagree⟩
    · exact .inl ⟨rfl, rfl, rfl⟩
    · exact .inr ⟨j, t, h0, h1, ht, hagree.hKey.symm, hagree.key.symm, hagree.value.symm⟩
  · rintro (⟨rfl, rfl, rfl⟩ | ⟨j, t, h0, h1, hj, rfl, rfl, rfl⟩)
    · refine ⟨p.nextFreeNode, _, ?_, ?_, insertedData_new (ne_nextFreeNode hi hbt.plus), rfl, rfl,
        rfl⟩
      all_goals
        rintro heq
        rw [heq] at hn
        exact absurd hn (by decide)
    · obtain ⟨t', ht', hagree⟩ := insertedData_old hbt.minus hbt.plus hi.fresh hj
      exact ⟨j, t', h0, h1, ht', hagree.hKey, hagree.key, hagree.value⟩

theorem entry_afterDelete (har : Around p.data i t a b tm tp) :
    Entry (deletedData p.data a i b tm tp) h k v ↔ h ≠ t.leafOpening.hKey ∧ Entry p.data h k v := by
  constructor
  · rintro ⟨j, t', h0, h1, hj, rfl, rfl, rfl⟩
    obtain ⟨hji, u, hu, hagree⟩ := deletedData_cases har.minus har.plus har.plus_ne hj
    rw [hagree.hKey, hagree.key, hagree.value]
    exact ⟨fun heq => hji (hi.unique hu har.live heq), j, u, h0, h1, hu, rfl, rfl, rfl⟩
  · rintro ⟨hne, j, u, h0, h1, hj, rfl, rfl, rfl⟩
    have hji : j ≠ i := by
      rintro rfl
      cases hj.symm.trans har.live
      exact hne rfl
    obtain ⟨t', ht', hagree⟩ := deletedData_old har.minus har.plus hji hj
    exact ⟨j, t', h0, h1, ht', hagree.hKey, hagree.key, hagree.value⟩

theorem entry_afterUpdate (ht : p.data.lookup i = some t) (h0 : i ≠ 0) (h1 : i ≠ 1) :
    Entry (p.data.insert i (updatedTuple compress t newVal)) h k v ↔
      (h = t.leafOpening.hKey ∧ k = t.key ∧ v = newVal) ∨
        (h ≠ t.leafOpening.hKey ∧ Entry p.data h k v) := by
  constructor
  · rintro ⟨j, u, hj0, hj1, hj, rfl, rfl, rfl⟩
    rw [lookup_insert_ite] at hj
    split_ifs at hj with hji
    · cases hj
      exact .inl ⟨rfl, rfl, rfl⟩
    · exact .inr ⟨fun heq => hji (hi.unique hj ht heq), j, u, hj0, hj1, hj, rfl, rfl, rfl⟩
  · rintro (⟨rfl, rfl, rfl⟩ | ⟨hne, j, u, hj0, hj1, hj, rfl, rfl, rfl⟩)
    · exact ⟨i, _, h0, h1, Finmap.lookup_insert _, rfl, rfl, rfl⟩
    · have hji : j ≠ i := by
        rintro rfl
        cases hj.symm.trans ht
        exact hne rfl
      exact ⟨j, u, hj0, hj1, by rw [Finmap.lookup_insert_of_ne _ hji, hj], rfl, rfl, rfl⟩

omit [WriterTo K] [WriterTo V] hi in
/-- The head and the tail are not among the pairs. -/
theorem entry_afterUpdate_end (hends : i = 0 ∨ i = 1) :
    Entry (p.data.insert i t) h k v ↔ Entry p.data h k v := by
  have hlookup {j : Int64} (hj0 : j ≠ 0) (hj1 : j ≠ 1) :
      (p.data.insert i t).lookup j = p.data.lookup j :=
    Finmap.lookup_insert_of_ne _ fun heq => (heq ▸ hends).elim hj0 hj1
  constructor
  · rintro ⟨j, u, hj0, hj1, hj, hu⟩
    exact ⟨j, u, hj0, hj1, hlookup hj0 hj1 ▸ hj, hu⟩
  · rintro ⟨j, u, hj0, hj1, hj, hu⟩
    exact ⟨j, u, hj0, hj1, (hlookup hj0 hj1).trans hj, hu⟩

theorem holds_insert (hbt : Between compress p key a b tm tp) (h : Holds p.data m) :
    Holds (afterInsert compress p key val a b tm tp) (m.insert (hash compress key) (key, val)) := by
  intro hk k v
  rw [entry_afterInsert hi hbt, lookup_insert_ite]
  split_ifs with heq
  · subst heq
    have hnone : ¬ Entry p.data (hash compress key) k v := by
      rintro ⟨j, u, -, -, hj, hu, -, -⟩
      exact hbt.absent hi j u hj hu
    simp [hnone, eq_comm]
  · rw [h hk k v]
    simp [heq]

theorem holds_delete (har : Around p.data i t a b tm tp)
    (hkey : t.leafOpening.hKey = hash compress key) (h : Holds p.data m) :
    Holds (deletedData p.data a i b tm tp) (m.erase (hash compress key)) := by
  intro hk k v
  rw [entry_afterDelete hi har, hkey, lookup_erase_ite]
  split_ifs with heq
  · simp [heq]
  · rw [h hk k v]
    simp [heq]

theorem holds_update (ht : p.data.lookup i = some t)
    (hkey : t.leafOpening.hKey = hash compress key) (h : Holds p.data m) :
    Holds (p.data.insert i (updatedTuple compress t newVal))
      (Call.apply compress m (.update key newVal)) := by
  by_cases hends : i = 0 ∨ i = 1
  · have hnone : m.lookup (hash compress key) = none := by
      refine Option.eq_none_iff_forall_ne_some.mpr ?_
      rintro ⟨k, v⟩ hm
      obtain ⟨j, u, hj0, hj1, hj, hu, -, -⟩ := (h _ _ _).mp hm
      obtain rfl := hi.unique hj ht (hu.trans hkey.symm)
      exact hends.elim hj0 hj1
    intro hk k v
    rw [Call.apply, hnone, entry_afterUpdate_end hends]
    exact h hk k v
  · rw [not_or] at hends
    have hsome : m.lookup (hash compress key) = some (t.key, t.value) :=
      (h _ _ _).mpr ⟨i, t, hends.1, hends.2, ht, hkey, rfl, rfl⟩
    intro hk k v
    rw [Call.apply, hsome, entry_afterUpdate hi ht hends.1 hends.2, hkey]
    rw [lookup_insert_ite]
    split_ifs with heq
    · simp [heq, eq_comm]
    · rw [h hk k v]
      simp [heq]

theorem call_holds (hz : NeverZero compress) (ho : p.ListsAllKeys order)
    (ho' : p.ListsAllKeys order') (h : Holds p.data m)
    (hok : p.call compress order order' c = .ok (trace, p')) :
    Holds p'.data (c.apply compress m) := by
  cases call_called hz hi ho ho' hok with
  | insert hbt => exact holds_insert hi hbt h
  | update ht hkey => exact holds_update hi ht hkey h
  | delete har _ _ hkey => exact holds_delete hi har hkey h
  | readNonZero _ | readZero _ => exact h

end

section
variable [Inhabited K] [Inhabited V]

theorem Runs.reachable (h : Runs compress calls p) : Reachable compress p := by
  induction h with
  | init h => exact .init h
  | call _ ho ho' hok ih => exact .call ih ho ho' hok

theorem Runs.holds (hz : NeverZero compress) (h : Runs compress calls p) :
    Holds p.data (contents compress calls) := by
  induction h with
  | init h =>
    obtain ⟨tree, hok, -⟩ := initializeProverState_spec K V hz _
    cases hok.symm.trans h
    intro hk k v
    refine ⟨fun hm => ?_, ?_⟩
    · simp [contents, Finmap.lookup_empty] at hm
    · rintro ⟨j, u, h0, h1, hj, -⟩
      rcases initialData_cases hj with ⟨rfl, -⟩ | ⟨rfl, -⟩
      · exact absurd rfl h0
      · exact absurd rfl h1
  | call hr ho ho' hok ih =>
    rw [contents, List.foldl_concat]
    exact call_holds (hr.reachable.invariant hz) hz ho ho' ih hok

end

-- The map by keys

/-- No two of the keys have one hash. -/
def NoCollision (compress : Compress) (calls : List (Call K V)) : Prop :=
  ∀ c ∈ calls, ∀ c' ∈ calls, hash compress c.key = hash compress c'.key → c.key = c'.key

section
variable [DecidableEq K] {q : Finmap fun _ : K => V}
omit [WriterTo V]

/-- The map by hashes and the map by keys have the same pairs, whose keys satisfy `known`. -/
structure SamePairs (compress : Compress) (known : K → Prop) (m : Contents K V)
    (q : Finmap fun _ : K => V) : Prop where
  pair : ∀ {h k v}, m.lookup h = some (k, v) → h = hash compress k ∧ known k
  same : ∀ {k v}, q.lookup k = some v ↔ m.lookup (hash compress k) = some (k, v)

theorem SamePairs.insert (h : SamePairs compress known m q) (hkey : known key)
    (hfree : ∀ k, known k → hash compress k = hash compress key → k = key) :
    SamePairs compress known (m.insert (hash compress key) (key, val)) (q.insert key val) := by
  constructor
  · intro hk k v hm
    rw [lookup_insert_ite] at hm
    split_ifs at hm with heq
    · cases hm
      exact ⟨heq, hkey⟩
    · exact h.pair hm
  · intro k v
    rw [lookup_insert_ite, lookup_insert_ite]
    split_ifs with hne heq heq
    · simp [hne]
    · exact absurd (hne ▸ rfl) heq
    · -- nothing is found under a key that collides
      rw [h.same]
      refine ⟨fun hm => absurd (hfree k (h.pair hm).2 heq) hne, fun hm => ?_⟩
      cases hm
      exact absurd rfl hne
    · exact h.same

theorem SamePairs.erase (h : SamePairs compress known m q)
    (hfree : ∀ k, known k → hash compress k = hash compress key → k = key) :
    SamePairs compress known (m.erase (hash compress key)) (q.erase key) := by
  constructor
  · intro hk k v hm
    rw [lookup_erase_ite] at hm
    split_ifs at hm
    exact h.pair hm
  · intro k v
    rw [lookup_erase_ite, lookup_erase_ite]
    split_ifs with hne heq heq
    · simp
    · exact absurd (hne ▸ rfl) heq
    · rw [h.same]
      exact ⟨fun hm => absurd (hfree k (h.pair hm).2 heq) hne, nofun⟩
    · exact h.same

theorem SamePairs.apply {c : Call K V} (h : SamePairs compress known m q) (hkey : known c.key)
    (hfree : ∀ k, known k → hash compress k = hash compress c.key → k = c.key) :
    SamePairs compress known (c.apply compress m) (c.applyTo q) := by
  cases c with
  | insert key val => exact h.insert hkey hfree
  | update key newVal =>
    rw [Call.apply, Call.applyTo]
    split
    · rename_i old v hm
      obtain ⟨hold, hknown⟩ := h.pair hm
      obtain rfl := hfree old hknown hold.symm
      rw [if_pos (Finmap.mem_iff.mpr ⟨v, h.same.mpr hm⟩)]
      exact h.insert hkey hfree
    · rename_i hm
      rw [if_neg]
      · exact h
      · rintro hmem
        obtain ⟨v, hv⟩ := Finmap.mem_iff.mp hmem
        rw [h.same.mp hv] at hm
        cases hm
  | delete key => exact h.erase hfree
  | readNonZero key | readZero key => exact h

theorem samePairs_replay (h : NoCollision compress calls) :
    SamePairs compress (fun k => ∃ c ∈ calls, c.key = k) (contents compress calls)
      (replay calls) := by
  induction calls using List.reverseRecOn with
  | nil =>
    constructor
    · intro hk k v hm
      simp [contents, Finmap.lookup_empty] at hm
    · intro k v
      simp [contents, replay, Finmap.lookup_empty]
  | append_singleton calls c ih =>
    have hbefore := ih fun c₁ h₁ c₂ h₂ =>
      h c₁ (List.mem_append_left _ h₁) c₂ (List.mem_append_left _ h₂)
    rw [contents, replay, List.foldl_concat, List.foldl_concat]
    refine SamePairs.apply ⟨fun hm => ?_, hbefore.same⟩ ⟨c, by simp, rfl⟩ ?_
    · obtain ⟨heq, c', hc', hk⟩ := hbefore.pair hm
      exact ⟨heq, c', List.mem_append_left _ hc', hk⟩
    · rintro k ⟨c', hc', rfl⟩ heq
      exact h c' hc' c (by simp) heq

end

-- The refinement

/-- What the state of a prover says about the map of the calls it has made. -/
structure RefinesMap [DecidableEq K] (compress : Compress) (calls : List (Call K V))
    (p : ProverState K V) : Prop where
  byHash : Holds p.data (contents compress calls)
  byKey : NoCollision compress calls →
    ∀ key value, (replay calls).lookup key = some value ↔ ∃ h, Entry p.data h key value
  /-- Following `Next` from the head to the tail. -/
  path : ∃ path : List Int64, path.head? = some 0 ∧ path.getLast? = some 1 ∧
    path.IsChain (fun i j => ∃ t, p.data.lookup i = some t ∧ t.leafOpening.next = j) ∧
    path.Nodup ∧ (∀ i, i ∈ path ↔ i ∈ p.data) ∧
    path.Pairwise fun i j => ∃ t u, p.data.lookup i = some t ∧ p.data.lookup j = some u ∧
      t.leafOpening.hKey < u.leafOpening.hKey
  prev_next : ∀ {i t}, p.data.lookup i = some t → i ≠ 1 →
    ∃ u, p.data.lookup t.leafOpening.next = some u ∧ u.leafOpening.prev = i
  next_prev : ∀ {i t}, p.data.lookup i = some t → i ≠ 0 →
    ∃ u, p.data.lookup t.leafOpening.prev = some u ∧ u.leafOpening.next = i
  leaf : ∀ {pos}, pos < 2 ^ treeDepth → ∃ leaf, p.tree.getLeaf pos = .ok leaf ∧
    ((p.data.lookup (.ofNat pos) = none ∧ leaf = emptyLeaf) ∨
      ∃ t, p.data.lookup (.ofNat pos) = some t ∧ leaf = hash compress t.leafOpening)
  sandwich : ∀ {key order order'}, p.ListsAllKeys order → p.ListsAllKeys order' →
    p.findKey compress order key = .ok none → ∃ iMinus iPlus tm tp,
      p.findSandwich compress order' key = .ok (iMinus, iPlus) ∧
      p.data.lookup iMinus = some tm ∧ p.data.lookup iPlus = some tp ∧
      tm.leafOpening.next = iPlus ∧ tp.leafOpening.prev = iMinus

section
variable (hi : Invariant compress p)
include hi

theorem Invariant.exists_path : ∃ path : List Int64, path.head? = some 0 ∧
    path.getLast? = some 1 ∧
    path.IsChain (fun i j => ∃ t, p.data.lookup i = some t ∧ t.leafOpening.next = j) ∧
    path.Nodup ∧ (∀ i, i ∈ path ↔ i ∈ p.data) ∧
    path.Pairwise fun i j => ∃ t u, p.data.lookup i = some t ∧ p.data.lookup j = some u ∧
      t.leafOpening.hKey < u.leafOpening.hKey := by
  have hlive {i : Int64} {l : SortedLinks.Link Int64 KoalaOctuplet}
      (h : links p.data i = some l) : i ∈ p.data.keys := by
    obtain ⟨t, ht, -⟩ := links_some.mp h
    exact Finmap.mem_keys.mpr (Finmap.mem_iff.mpr ⟨t, ht⟩)
  obtain ⟨path, hhead, hlast, hchain, hbelow, hmem⟩ := hi.sorted.exists_path hlive
  refine ⟨path, hhead, hlast, hchain.imp ?_, hbelow.imp ?_, fun i => ?_, hbelow.imp ?_⟩
  · rintro i j ⟨l, hl, hnext⟩
    obtain ⟨t, ht, rfl⟩ := links_some.mp hl
    exact ⟨t, ht, hnext⟩
  · rintro i j ⟨l, r, hl, hr, hlt⟩ rfl
    cases hl.symm.trans hr
    exact lt_irrefl _ hlt
  · rw [hmem, Option.isSome_iff_exists, Finmap.mem_iff]
    constructor
    · rintro ⟨l, hl⟩
      obtain ⟨t, ht, -⟩ := links_some.mp hl
      exact ⟨t, ht⟩
    · rintro ⟨t, ht⟩
      exact ⟨_, links_of_lookup ht⟩
  · rintro i j ⟨l, r, hl, hr, hlt⟩
    obtain ⟨t, ht, rfl⟩ := links_some.mp hl
    obtain ⟨u, hu, rfl⟩ := links_some.mp hr
    exact ⟨t, u, ht, hu, hlt⟩

theorem Invariant.getLeaf (hpos : pos < 2 ^ treeDepth) : ∃ leaf, p.tree.getLeaf pos = .ok leaf ∧
    ((p.data.lookup (.ofNat pos) = none ∧ leaf = emptyLeaf) ∨
      ∃ t, p.data.lookup (.ofNat pos) = some t ∧ leaf = hash compress t.leafOpening) := by
  have hrep := hi.committed.represents
  have hdepth := hi.committed.depth
  have h63 : pos < 2 ^ 63 := lt_trans hpos (by decide)
  refine ⟨leafAt compress p.data pos, ?_, ?_⟩
  · have hstores := (hrep.stores 0 hrep.shape.depth_pos).2 pos
    rw [Tree.getLeaf, if_neg (not_ge_oneShl hrep.shape.depth_lt (hdepth ▸ hpos)), hstores]
    rfl
  · rw [leafAt, if_pos h63]
    cases h : p.data.lookup (.ofNat pos) with
    | none => exact .inl ⟨rfl, rfl⟩
    | some t => exact .inr ⟨t, rfl, rfl⟩

end

/-- In every state a prover gets into, its data is the map of the calls it has made. -/
theorem prover_refines_map [Inhabited K] [Inhabited V] [DecidableEq K] (hz : NeverZero compress)
    (h : Runs compress calls p) : RefinesMap compress calls p := by
  have hi := h.reachable.invariant hz
  have hholds := h.holds hz
  refine ⟨hholds, fun hfree key value => ?_, hi.exists_path, fun hj hne => ?_, fun hj hne => ?_,
    hi.getLeaf, fun ho ho' hnone => ?_⟩
  · rw [(samePairs_replay hfree).same, hholds]
    refine ⟨fun hentry => ⟨_, hentry⟩, ?_⟩
    rintro ⟨hk, j, u, h0, h1, hj, hu, rfl, rfl⟩
    exact ⟨j, u, h0, h1, hj, (hi.consistent hj h0 h1).1, rfl, rfl⟩
  · obtain ⟨r, hr, hprev, -⟩ := hi.sorted.next (links_of_lookup hj) hne
    obtain ⟨u, hu, rfl⟩ := links_some.mp hr
    exact ⟨u, hu, hprev⟩
  · obtain ⟨r, hr, hnext, -⟩ := hi.sorted.prev (links_of_lookup hj) hne
    obtain ⟨u, hu, rfl⟩ := links_some.mp hr
    exact ⟨u, hu, hnext⟩
  · obtain ⟨iMinus, iPlus, tm, tp, hsand, hbt⟩ :=
      findSandwich_ok hi ho' ((findKey_none ho).mp hnone)
    exact ⟨iMinus, iPlus, tm, tp, hsand, hbt.minus, hbt.plus, hbt.next, hbt.prev⟩

/-- After the key 5 was inserted with the value 7. -/
theorem prover_refines_map_insert :
    ∃ p : ProverState FullBytes32 FullBytes32, Runs toyCompress [.insert 5 7] p ∧
      ∃ h, Entry p.data h 5 7 := by
  obtain ⟨p₀, p, t, hinit, ho, hcall⟩ := exists_toyInsertion
  have hr : Runs toyCompress ([] ++ [.insert 5 7]) p := .call (.init hinit) ho ho hcall
  refine ⟨p, hr, ((prover_refines_map toyCompress_neverZero hr).byKey ?_ 5 7).mp ?_⟩
  · simp [NoCollision]
  · exact Finmap.lookup_insert _

end StatusNetwork.Prover
