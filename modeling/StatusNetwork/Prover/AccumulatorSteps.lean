import StatusNetwork.Prover.AccumulatorInvariant

/-!
# The operations of the prover

What each operation returns and leaves under the invariant, and that it keeps
the invariant; so every reachable state has it (`Reachable.invariant`).
-/

namespace StatusNetwork.Prover

open SortedLinks (Sorted)
open ProverState (call checkUpsert deleteAndProve insertAndProve numChanges readNonZeroAndProve
  readZeroAndProve subTreeRoot updateAndProve)
open Finmap (lookup_empty lookup_insert lookup_insert_of_ne)

-- What the calls return

section
variable {K V : Type} [WriterTo K] [WriterTo V]

def insertedTuple (compress : Compress) (key : K) (val : V) (a b : Int64) : KVOpeningTuple K V :=
  { key, value := val
    leafOpening := { prev := a, next := b, hKey := hash compress key, hVal := hash compress val } }

def afterInsert (compress : Compress) (p : ProverState K V) (key : K) (val : V) (a b : Int64)
    (tm tp : KVOpeningTuple K V) : Mapping K V :=
  insertedData p.data a p.nextFreeNode b tm (insertedTuple compress key val a b) tp

def insertionTrace (compress : Compress) (p : ProverState K V) (key : K) (val : V) (a b : Int64)
    (tm tp : KVOpeningTuple K V) : InsertionTrace K V :=
  let data₁ := p.data.insert a (tm.copyWithNext p.nextFreeNode)
  let data₂ := data₁.insert p.nextFreeNode (insertedTuple compress key val a b)
  { location := p.location, key, val, oldSubRoot := rootOf compress p.data
    oldOpenMinus := tm.leafOpening, oldOpenPlus := tp.leafOpening
    newNextFreeNode := p.nextFreeNode + 1
    proofMinus := proofAt compress p.data a, proofNew := proofAt compress data₁ p.nextFreeNode
    proofPlus := proofAt compress data₂ b
    newSubRoot := rootOf compress (afterInsert compress p key val a b tm tp) }

/-- An inner entry and its two neighbours. -/
structure Around (data : Mapping K V) (i : Int64) (t : KVOpeningTuple K V) (a b : Int64)
    (tm tp : KVOpeningTuple K V) : Prop where
  live : data.lookup i = some t
  minus : data.lookup a = some tm
  plus : data.lookup b = some tp
  next : tm.leafOpening.next = i
  prev : tp.leafOpening.prev = i
  toMinus : t.leafOpening.prev = a
  toPlus : t.leafOpening.next = b
  lower : tm.leafOpening.hKey < t.leafOpening.hKey
  upper : t.leafOpening.hKey < tp.leafOpening.hKey

def deletionTrace (compress : Compress) (p : ProverState K V) (key : K) (i : Int64)
    (t : KVOpeningTuple K V) (a b : Int64) (tm tp : KVOpeningTuple K V) : DeletionTrace K V :=
  let data₁ := p.data.insert a (tm.copyWithNext b)
  { location := p.location, key, oldSubRoot := rootOf compress p.data
    oldOpenMinus := tm.leafOpening, oldOpenPlus := tp.leafOpening
    deletedOpen := t.leafOpening, deletedValue := t.value, newNextFreeNode := p.nextFreeNode
    proofMinus := proofAt compress p.data a, proofDeleted := proofAt compress data₁ i
    proofPlus := proofAt compress (data₁.erase i) b
    newSubRoot := rootOf compress (deletedData p.data a i b tm tp) }

def updatedTuple (compress : Compress) (t : KVOpeningTuple K V) (newVal : V) :
    KVOpeningTuple K V :=
  { t with value := newVal, leafOpening := { t.leafOpening with hVal := hash compress newVal } }

def updateTrace (compress : Compress) (p : ProverState K V) (i : Int64)
    (t : KVOpeningTuple K V) (newVal : V) : UpdateTrace K V :=
  { location := p.location, key := t.key, oldValue := t.value, newValue := newVal
    oldOpening := t.leafOpening, oldSubRoot := rootOf compress p.data
    newSubRoot := rootOf compress (p.data.insert i (updatedTuple compress t newVal))
    newNextFreeNode := p.nextFreeNode, proof := proofAt compress p.data i }

def readNonZeroTrace (compress : Compress) (p : ProverState K V) (i : Int64)
    (t : KVOpeningTuple K V) : ReadNonZeroTrace K V :=
  { location := p.location, key := t.key, value := t.value, leafOpening := t.leafOpening
    subRoot := rootOf compress p.data, proof := proofAt compress p.data i
    nextFreeNode := p.nextFreeNode }

def readZeroTrace (compress : Compress) (p : ProverState K V) (key : K) (a b : Int64)
    (tm tp : KVOpeningTuple K V) : ReadZeroTrace K :=
  { location := p.location, key, subRoot := rootOf compress p.data
    proofMinus := proofAt compress p.data a, openingMinus := tm.leafOpening
    proofPlus := proofAt compress p.data b, openingPlus := tp.leafOpening
    nextFreeNode := p.nextFreeNode }

/-- What a call has done that returned. -/
inductive Called (compress : Compress) (p : ProverState K V) :
    Call K V → Trace K V → ProverState K V → Prop
  | insert : Between compress p key a b tm tp → p.nextFreeNode.toInt < 2 ^ treeDepth →
      Committed compress tree' (afterInsert compress p key val a b tm tp) →
      Called compress p (.insert key val)
        (.insertion (insertionTrace compress p key val a b tm tp))
        { p with data := afterInsert compress p key val a b tm tp, tree := tree'
                 nextFreeNode := p.nextFreeNode + 1 }
  | update : p.data.lookup i = some t → t.leafOpening.hKey = hash compress key →
      Committed compress tree' (p.data.insert i (updatedTuple compress t newVal)) →
      Called compress p (.update key newVal) (.update (updateTrace compress p i t newVal))
        { p with data := p.data.insert i (updatedTuple compress t newVal), tree := tree' }
  | delete : Around p.data i t a b tm tp → i ≠ 0 → i ≠ 1 →
      t.leafOpening.hKey = hash compress key →
      Committed compress tree' (deletedData p.data a i b tm tp) →
      Called compress p (.delete key) (.deletion (deletionTrace compress p key i t a b tm tp))
        { p with data := deletedData p.data a i b tm tp, tree := tree' }
  | readNonZero : p.data.lookup i = some t →
      Called compress p (.readNonZero key) (.readNonZero (readNonZeroTrace compress p i t)) p
  | readZero : Between compress p key a b tm tp →
      Called compress p (.readZero key) (.readZero (readZeroTrace compress p key a b tm tp)) p

end

variable {compress : Compress} {K V : Type} [WriterTo K] [WriterTo V] {p : ProverState K V}
  {i a b : Int64} {t tm tp : KVOpeningTuple K V}
  {key : K} {val : V}

namespace Around

variable (har : Around p.data i t a b tm tp)
include har
omit [WriterTo K] [WriterTo V]

theorem minus_ne : a ≠ i := by
  rintro rfl
  cases har.minus.symm.trans har.live
  exact lt_irrefl _ har.lower

theorem plus_ne : b ≠ i := by
  rintro rfl
  cases har.plus.symm.trans har.live
  exact lt_irrefl _ har.upper

theorem ne : a ≠ b := by
  rintro rfl
  cases har.minus.symm.trans har.plus
  exact lt_irrefl _ (har.lower.trans har.upper)

end Around

-- The checks of one write

theorem Agree.checked (h : Agree t tuple) (hp : t.Checked compress) : tuple.Checked compress := by
  rw [KVOpeningTuple.Checked, LeafOpening.headOrTail, h.hKey, h.hVal, h.key, h.value]
  exact hp

theorem checkUpsert_new (hi : p.data.lookup i = none) (hp : t.Checked compress) :
    p.checkUpsert compress i t = .ok (hash compress t.leafOpening) := by
  simp [checkUpsert, checkAndLeaf_ok hp, hi]

section
variable (hi : p.data.lookup i = some t) (hp : t.Checked compress)
include hi hp

theorem checkUpsert_old (h : Agree t tuple)
    (hone : numChanges t.leafOpening tuple.leafOpening = 1) :
    p.checkUpsert compress i tuple = .ok (hash compress tuple.leafOpening) := by
  simp [checkUpsert, checkAndLeaf_ok (h.checked hp), hi, checkAndLeaf_ok hp, h.hKey, hone]

theorem checkUpsert_next (hne : t.leafOpening.next ≠ n) :
    p.checkUpsert compress i (t.copyWithNext n) =
      .ok (hash compress (t.copyWithNext n).leafOpening) :=
  checkUpsert_old hi hp (agree_copyWithNext t n) <| by
    simp [numChanges, KVOpeningTuple.copyWithNext, LeafOpening.copyWithNext, hne]

theorem checkUpsert_prev (hne : t.leafOpening.prev ≠ n) :
    p.checkUpsert compress i (t.copyWithPrev n) =
      .ok (hash compress (t.copyWithPrev n).leafOpening) :=
  checkUpsert_old hi hp (agree_copyWithPrev t n) <| by
    simp [numChanges, KVOpeningTuple.copyWithPrev, LeafOpening.copyWithPrev, hne]

end

theorem upsertTuple_bound (hc : Committed compress p.tree p.data)
    (h : p.upsertTuple compress i tuple = .ok r) : InTree i := by
  obtain ⟨leaf, -, h⟩ := bind_eq_ok.mp h
  obtain ⟨n, hn, h⟩ := bind_eq_ok.mp h
  obtain ⟨tree, htree, -⟩ := bind_eq_ok.mp h
  obtain ⟨h0, rfl⟩ := treePos_ok.mp hn
  have hlt := hc.update_bound htree
  refine ⟨h0, ?_⟩
  simp only [treeDepth, index] at *
  omega

theorem toInt_succ {n : Int64} (h0 : 0 ≤ n.toInt) (hn : n.toInt < 2 ^ treeDepth) :
    (n + 1).toInt = n.toInt + 1 := by
  have hone : (1 : Int64).toInt = 1 := rfl
  rw [Int64.toInt_add]
  simp only [treeDepth] at hn
  rw [Int.bmod_eq_of_le] <;> omega

/-- The entries stay with their keys, except for one at the next free position. -/
theorem Invariant.rewrite {q : ProverState K V} (hi : Invariant compress p)
    (hc : Committed compress q.tree q.data) (hs : Sorted (links q.data) 0 1)
    (hfree : p.nextFreeNode.toInt ≤ q.nextFreeNode.toInt)
    (hroom : q.nextFreeNode.toInt ≤ 2 ^ treeDepth)
    (h : ∀ {j t'}, q.data.lookup j = some t' →
      (j = p.nextFreeNode ∧ p.nextFreeNode.toInt < q.nextFreeNode.toInt ∧
        t'.leafOpening.hKey = hash compress t'.key ∧
        t'.leafOpening.hVal = hash compress t'.value) ∨
      ∃ t, p.data.lookup j = some t ∧ t'.leafOpening.hKey = t.leafOpening.hKey ∧
        t'.key = t.key ∧ (t.leafOpening.hVal = hash compress t.value →
          t'.leafOpening.hVal = hash compress t'.value)) : Invariant compress q := by
  have hone := hi.one_lt_nextFreeNode
  refine ⟨hc, hs, ?_, ?_, ?_, ?_, hroom⟩
  · intro t' ht'
    rcases h ht' with ⟨he, -⟩ | ⟨t, ht, hkey, -⟩
    · rw [← he] at hone
      exact absurd hone (by decide)
    · rw [hkey, hi.headKey ht]
  · intro t' ht'
    rcases h ht' with ⟨he, -⟩ | ⟨t, ht, hkey, -⟩
    · rw [← he] at hone
      exact absurd hone (by decide)
    · rw [hkey, hi.tailKey ht]
  · intro j t' ht' h0 h1
    rcases h ht' with ⟨-, -, hok⟩ | ⟨t, ht, hkey, hk, hval⟩
    · exact hok
    · obtain ⟨hk', hv'⟩ := hi.consistent ht h0 h1
      exact ⟨by rw [hkey, hk', hk], hval hv'⟩
  · intro j t' ht'
    rcases h ht' with ⟨rfl, hlt, -⟩ | ⟨t, ht, -⟩
    · exact ⟨by omega, hlt⟩
    · have := hi.bound ht
      omega

-- Insertion

section insertion

variable (hz : NeverZero compress) (hi : Invariant compress p)
theorem upsertTuple_same (h : p.data.lookup i = some t) :
    p.upsertTuple compress i (t.copyWithNext t.leafOpening.next) ≠ .ok r := by
  intro hok
  obtain ⟨leaf, hleaf, -⟩ := bind_eq_ok.mp hok
  have hcopy : t.copyWithNext t.leafOpening.next = t := rfl
  rw [hcopy] at hleaf
  have hsame : numChanges t.leafOpening t.leafOpening = 0 := by
    simp [numChanges]
  unfold checkUpsert at hleaf
  cases hc : t.checkAndLeaf compress with
  | error e => simp [hc] at hleaf
  | ok l => simp [hc, h, hsame] at hleaf

include hi

theorem nextFreeNode_inTree (hroom : p.nextFreeNode.toInt < 2 ^ treeDepth) :
    InTree p.nextFreeNode :=
  ⟨by have := hi.one_lt_nextFreeNode; omega, hroom⟩

theorem ne_nextFreeNode (h : p.data.lookup i = some t) : i ≠ p.nextFreeNode := by
  rintro rfl
  rw [hi.fresh] at h
  cases h

theorem next_ne_nextFreeNode (h : p.data.lookup i = some t) (hit : i ≠ 1) :
    t.leafOpening.next ≠ p.nextFreeNode := by
  obtain ⟨r, hr, -, -⟩ := hi.sorted.next (links_of_lookup h) hit
  obtain ⟨t', ht', -⟩ := links_some.mp hr
  exact ne_nextFreeNode hi ht'

theorem invariant_afterInsert (hbt : Between compress p key a b tm tp)
    (hroom : p.nextFreeNode.toInt < 2 ^ treeDepth)
    (hc : Committed compress tree' (afterInsert compress p key val a b tm tp)) :
    Invariant compress { p with
      data := afterInsert compress p key val a b tm tp, tree := tree'
      nextFreeNode := p.nextFreeNode + 1 } := by
  have hone := hi.one_lt_nextFreeNode
  have hsucc := toInt_succ (by omega) hroom
  refine hi.rewrite hc ?_ (by simp only; omega) (by simp only; omega) fun h => ?_
  · have hlink := hi.sorted.link (links_of_lookup hbt.minus) (hbt.minus_ne_tail hi) hbt.nextLink
      hbt.lower hbt.upper (n := p.nextFreeNode) (by simp [links, hi.fresh])
    rw [show tm.link.next = b from hbt.next] at hlink
    show Sorted (links (insertedData ..)) 0 1
    rw [links_insertedData hbt.ne hbt.minus hbt.plus hi.fresh rfl]
    exact hlink
  · rcases insertedData_cases hbt.minus hbt.plus h with ⟨rfl, rfl⟩ | ⟨t, ht, hag⟩
    · exact .inl ⟨rfl, by simp only; omega, rfl, rfl⟩
    · exact .inr ⟨t, ht, hag.hKey, hag.key, by rw [hag.hVal, hag.value]; exact id⟩

include hz

theorem insertAndProve_spec (ho : p.ListsAllKeys order) (ho' : p.ListsAllKeys order')
    (hbt : Between compress p key a b tm tp) (hroom : p.nextFreeNode.toInt < 2 ^ treeDepth)
    (val : V) :
    ∃ tree', Committed compress tree' (afterInsert compress p key val a b tm tp) ∧
      p.insertAndProve compress order order' key val =
        .ok (insertionTrace compress p key val a b tm tp,
          { p with data := afterInsert compress p key val a b tm tp, tree := tree'
                   nextFreeNode := p.nextFreeNode + 1 }) := by
  have habs := hbt.absent hi
  obtain ⟨a', b', tm', tp', hsand, hbt'⟩ := findSandwich_ok hi ho' habs
  obtain ⟨rfl, rfl, rfl, rfl⟩ := hbt.unique hi hbt'
  have hna := ne_nextFreeNode hi hbt.minus
  have hnb := ne_nextFreeNode hi hbt.plus
  have hnext := next_ne_nextFreeNode hi hbt.minus (hbt.minus_ne_tail hi)
  have hprev : tp'.leafOpening.prev ≠ p.nextFreeNode := by rw [hbt.prev]; exact hna
  -- the three writes, each in the state the one before it left
  obtain ⟨tree₁, h₁, hc₁⟩ := upsertTuple_spec hz (hi.inTree hbt.minus) hi.committed
    (checkUpsert_next hbt.minus (hi.checked hbt.minus) hnext)
  have hfresh : (p.data.insert a' (tm'.copyWithNext p.nextFreeNode)).lookup p.nextFreeNode =
      none := by
    rw [lookup_insert_of_ne _ hna.symm]; exact hi.fresh
  obtain ⟨tree₂, h₂, hc₂⟩ := upsertTuple_spec
    (p := { p with data := p.data.insert a' (tm'.copyWithNext p.nextFreeNode), tree := tree₁ })
    hz (nextFreeNode_inTree hi hroom) hc₁
    (checkUpsert_new (t := insertedTuple compress key val a' b') hfresh (.inr ⟨rfl, rfl⟩))
  have hplus : ((p.data.insert a' (tm'.copyWithNext p.nextFreeNode)).insert p.nextFreeNode
      (insertedTuple compress key val a' b')).lookup b' = some tp' := by
    rw [lookup_insert_of_ne _ hnb, lookup_insert_of_ne _ hbt.ne.symm]
    exact hbt.plus
  obtain ⟨tree₃, h₃, hc₃⟩ := upsertTuple_spec (p := { p with
      data := (p.data.insert a' (tm'.copyWithNext p.nextFreeNode)).insert p.nextFreeNode
        (insertedTuple compress key val a' b'), tree := tree₂ })
    hz (hi.inTree hbt.plus) hc₂ (checkUpsert_prev hplus (hi.checked hbt.plus) hprev)
  refine ⟨tree₃, hc₃, ?_⟩
  unfold insertedTuple at h₂ h₃
  simp only [insertAndProve, (findKey_none ho).mpr habs, ok_bind, hsand,
    mustGet_ok.mpr hbt.minus, mustGet_ok.mpr hbt.plus, h₁, h₂, h₃, subTreeRoot,
    hi.committed.root, hc₃.root]
  rfl

theorem insertAndProve_called (ho : p.ListsAllKeys order) (ho' : p.ListsAllKeys order')
    (h : p.insertAndProve compress order order' key val = .ok (trace, p')) :
    Called compress p (.insert key val) (.insertion trace) p' := by
  have habs : Absent compress p.data key := by
    obtain ⟨r, hr, h⟩ := bind_eq_ok.mp h
    cases r with
    | some i => cases h
    | none => exact (findKey_none ho).mp hr
  obtain ⟨a, b, tm, tp, hsand, hbt⟩ := findSandwich_ok hi ho' habs
  have hroom : p.nextFreeNode.toInt < 2 ^ treeDepth := by
    -- the second write returned, so its position is one of the tree
    obtain ⟨tree₁, h₁, hc₁⟩ := upsertTuple_spec hz (hi.inTree hbt.minus) hi.committed
      (checkUpsert_next hbt.minus (hi.checked hbt.minus)
        (next_ne_nextFreeNode hi hbt.minus (hbt.minus_ne_tail hi)))
    simp only [insertAndProve, (findKey_none ho).mpr habs, ok_bind, hsand,
      mustGet_ok.mpr hbt.minus, mustGet_ok.mpr hbt.plus, h₁] at h
    obtain ⟨r, hr, -⟩ := bind_eq_ok.mp h
    exact (upsertTuple_bound hc₁ hr).2
  obtain ⟨tree', hc', hok⟩ := insertAndProve_spec hz hi ho ho' hbt hroom val
  rw [hok] at h
  cases h
  exact .insert hbt hroom hc'

end insertion

-- Deletion

section deletion

variable (hz : NeverZero compress) (hi : Invariant compress p)
include hi

theorem exists_around (h : p.data.lookup i = some t) (h0 : i ≠ 0) (h1 : i ≠ 1) :
    ∃ tm tp, Around p.data i t t.leafOpening.prev t.leafOpening.next tm tp := by
  obtain ⟨l, hl, hln, hlk⟩ := hi.sorted.prev (links_of_lookup h) h0
  obtain ⟨r, hr, hrp, hrk⟩ := hi.sorted.next (links_of_lookup h) h1
  obtain ⟨tm, hm, rfl⟩ := links_some.mp hl
  obtain ⟨tp, hp, rfl⟩ := links_some.mp hr
  exact ⟨tm, tp, h, hm, hp, hln, hrp, rfl, rfl, hlk, hrk⟩

theorem invariant_afterDelete (har : Around p.data i t a b tm tp) (h0 : i ≠ 0) (h1 : i ≠ 1)
    (hc : Committed compress tree' (deletedData p.data a i b tm tp)) :
    Invariant compress { p with data := deletedData p.data a i b tm tp, tree := tree' } := by
  refine hi.rewrite hc ?_ le_rfl hi.room fun h => ?_
  · have hunlink := hi.sorted.unlink (links_of_lookup har.live) h0 h1
    rw [show t.link.prev = a from har.toMinus, show t.link.next = b from har.toPlus] at hunlink
    rw [links_deletedData har.ne har.minus har.plus har.minus_ne har.plus_ne]
    exact hunlink
  · obtain ⟨-, t, ht, hag⟩ := deletedData_cases har.minus har.plus har.plus_ne h
    exact .inr ⟨t, ht, hag.hKey, hag.key, by rw [hag.hVal, hag.value]; exact id⟩

theorem invariant_afterUpdate (ht : p.data.lookup i = some t)
    (hc : Committed compress tree' (p.data.insert i (updatedTuple compress t newVal))) :
    Invariant compress { p with
      data := p.data.insert i (updatedTuple compress t newVal), tree := tree' } := by
  have hlinks : links (p.data.insert i (updatedTuple compress t newVal)) = links p.data := by
    funext j
    simp only [links, lookup_insert_ite]
    split_ifs with hj
    · rw [hj, ht]
      rfl
    · rfl
  refine hi.rewrite hc (by simp only [hlinks]; exact hi.sorted) le_rfl hi.room fun {j t'} h => ?_
  rw [lookup_insert_ite] at h
  split_ifs at h with hj
  · cases h
    exact .inr ⟨t, hj ▸ ht, rfl, rfl, fun _ => rfl⟩
  · exact .inr ⟨t', h, rfl, rfl, id⟩

include hz

theorem deleteAndProve_spec (ho : p.ListsAllKeys order) (har : Around p.data i t a b tm tp)
    (hkey : t.leafOpening.hKey = hash compress key) :
    ∃ tree', Committed compress tree' (deletedData p.data a i b tm tp) ∧
      p.deleteAndProve compress order key =
        .ok (deletionTrace compress p key i t a b tm tp,
          { p with data := deletedData p.data a i b tm tp, tree := tree' }) := by
  have hfind := (findKey_some hi ho).mpr ⟨t, har.live, hkey⟩
  obtain ⟨tree₁, h₁, hc₁⟩ := upsertTuple_spec hz (hi.inTree har.minus) hi.committed
    (checkUpsert_next har.minus (hi.checked har.minus)
      (by rw [har.next]; exact har.plus_ne.symm))
  have hmid : (p.data.insert a (tm.copyWithNext b)).lookup i = some t := by
    rw [lookup_insert_of_ne _ har.minus_ne.symm]; exact har.live
  obtain ⟨tree₂, h₂, hc₂⟩ := rmTuple_spec
    (p := { p with data := p.data.insert a (tm.copyWithNext b), tree := tree₁ })
    hz (hi.inTree har.live) hc₁ hmid
  have hplus : ((p.data.insert a (tm.copyWithNext b)).erase i).lookup b = some tp := by
    rw [Finmap.lookup_erase_ne har.plus_ne, lookup_insert_of_ne _ har.ne.symm]
    exact har.plus
  obtain ⟨tree₃, h₃, hc₃⟩ := upsertTuple_spec
    (p := { p with data := (p.data.insert a (tm.copyWithNext b)).erase i, tree := tree₂ })
    hz (hi.inTree har.plus) hc₂
    (checkUpsert_prev hplus (hi.checked har.plus)
      (by rw [har.prev]; exact har.minus_ne.symm))
  refine ⟨tree₃, hc₃, ?_⟩
  simp only [deleteAndProve, hfind, ok_bind, mustGet_ok.mpr har.live,
    har.toMinus, har.toPlus, mustGet_ok.mpr har.minus, mustGet_ok.mpr har.plus, h₁, h₂, h₃,
    subTreeRoot, hi.committed.root, hc₃.root]
  rfl

theorem deleteAndProve_called (ho : p.ListsAllKeys order)
    (h : p.deleteAndProve compress order key = .ok (trace, p')) :
    Called compress p (.delete key) (.deletion trace) p' := by
  have h' := h
  obtain ⟨r, hr, h⟩ := bind_eq_ok.mp h
  cases r with
  | none => cases h
  | some i =>
    obtain ⟨t, ht, hkey⟩ := (findKey_some hi ho).mp hr
    simp only [mustGet_ok.mpr ht, ok_bind] at h
    -- at the head and at the tail the first write would change nothing
    have h0 : i ≠ 0 := by
      rintro rfl
      obtain ⟨l, hl, hprev⟩ := hi.sorted.headLink
      rw [links_of_lookup ht] at hl
      cases hl
      rw [show t.leafOpening.prev = 0 from hprev] at h
      simp only [mustGet_ok.mpr ht, ok_bind] at h
      obtain ⟨tp, -, h⟩ := bind_eq_ok.mp h
      obtain ⟨q, hq, -⟩ := bind_eq_ok.mp h
      exact upsertTuple_same ht hq
    have h1 : i ≠ 1 := by
      rintro rfl
      obtain ⟨l, hl, hnext⟩ := hi.sorted.tailLink
      rw [links_of_lookup ht] at hl
      cases hl
      obtain ⟨m, hm, hmn, -⟩ := hi.sorted.prev (links_of_lookup ht) (by decide)
      obtain ⟨tm, htm, rfl⟩ := links_some.mp hm
      replace htm : p.data.lookup t.leafOpening.prev = some tm := htm
      simp only [mustGet_ok.mpr htm, ok_bind] at h
      obtain ⟨tp, -, h⟩ := bind_eq_ok.mp h
      obtain ⟨q, hq, -⟩ := bind_eq_ok.mp h
      rw [show t.leafOpening.next = tm.leafOpening.next from hnext.trans hmn.symm] at hq
      exact upsertTuple_same htm hq
    obtain ⟨tm, tp, har⟩ := exists_around hi ht h0 h1
    obtain ⟨tree', hc', hok⟩ := deleteAndProve_spec hz hi ho har hkey
    rw [hok] at h'
    cases h'
    exact .delete har h0 h1 hkey hc'

end deletion

-- Update and reads

section reads

variable (hz : NeverZero compress) (hi : Invariant compress p) {newVal : V}
include hz hi

section
variable (ho : p.ListsAllKeys order)
include ho

theorem updateAndProve_spec (ht : p.data.lookup i = some t)
    (hkey : t.leafOpening.hKey = hash compress key)
    (hsame : hash compress key = hash compress t.key) (newVal : V) :
    ∃ tree', Committed compress tree' (p.data.insert i (updatedTuple compress t newVal)) ∧
      p.updateAndProve compress order key newVal =
        .ok (updateTrace compress p i t newVal,
          { p with data := p.data.insert i (updatedTuple compress t newVal), tree := tree' }) := by
  have hin := hi.inTree ht
  obtain ⟨tree', hok, hc', hproof⟩ := hi.committed.insert hz hin (updatedTuple compress t newVal)
  refine ⟨tree', hc', ?_⟩
  unfold updatedTuple at hok
  simp only [updateAndProve, (findKey_some hi ho).mpr ⟨t, ht, hkey⟩, ok_bind,
    mustGet_ok.mpr ht, hsame, ne_eq, not_true_eq_false, if_false, treePos_eq hin.1, hok, hproof,
    subTreeRoot, hi.committed.root, hc'.root]
  rfl

theorem updateAndProve_called (h : p.updateAndProve compress order key newVal = .ok (trace, p')) :
    Called compress p (.update key newVal) (.update trace) p' := by
  have h' := h
  obtain ⟨r, hr, h⟩ := bind_eq_ok.mp h
  cases r with
  | none => cases h
  | some i =>
    obtain ⟨t, ht, hkey⟩ := (findKey_some hi ho).mp hr
    simp only [mustGet_ok.mpr ht, ok_bind, guard_eq_ok, not_not] at h
    obtain ⟨tree', hc', hok⟩ := updateAndProve_spec hz hi ho ht hkey h.1 newVal
    rw [hok] at h'
    cases h'
    exact .update ht hkey hc'

theorem readNonZeroAndProve_spec (ht : p.data.lookup i = some t)
    (hkey : t.leafOpening.hKey = hash compress key)
    (hsame : hash compress key = hash compress t.key) :
    p.readNonZeroAndProve compress order key = .ok (readNonZeroTrace compress p i t) := by
  have hin := hi.inTree ht
  simp only [readNonZeroAndProve, (findKey_some hi ho).mpr ⟨t, ht, hkey⟩,
    ok_bind, mustGet_ok.mpr ht, hsame, ne_eq, not_true_eq_false, if_false,
    treePos_eq hin.1, hi.committed.mustProve hz hin, subTreeRoot, hi.committed.root]
  rfl

theorem readNonZeroAndProve_called (h : p.readNonZeroAndProve compress order key = .ok trace) :
    Called compress p (.readNonZero key) (.readNonZero trace) p := by
  have h' := h
  obtain ⟨r, hr, h⟩ := bind_eq_ok.mp h
  cases r with
  | none => cases h
  | some i =>
    obtain ⟨t, ht, hkey⟩ := (findKey_some hi ho).mp hr
    simp only [mustGet_ok.mpr ht, ok_bind, guard_eq_ok, not_not] at h
    rw [readNonZeroAndProve_spec hz hi ho ht hkey h.1] at h'
    cases h'
    exact .readNonZero ht

theorem readZeroAndProve_spec (ho' : p.ListsAllKeys order') (habs : Absent compress p.data key) :
    ∃ a b tm tp, Between compress p key a b tm tp ∧
      p.readZeroAndProve compress order order' key =
        .ok (readZeroTrace compress p key a b tm tp) := by
  obtain ⟨a, b, tm, tp, hsand, hbt⟩ := findSandwich_ok hi ho' habs
  have ha := hi.inTree hbt.minus
  have hb := hi.inTree hbt.plus
  refine ⟨a, b, tm, tp, hbt, ?_⟩
  simp only [readZeroAndProve, (findKey_none ho).mpr habs, ok_bind, hsand,
    mustGet_ok.mpr hbt.minus, mustGet_ok.mpr hbt.plus, treePos_eq ha.1, treePos_eq hb.1,
    hi.committed.mustProve hz ha, hi.committed.mustProve hz hb, subTreeRoot,
    hi.committed.root]
  rfl

theorem readZeroAndProve_called (ho' : p.ListsAllKeys order')
    (h : p.readZeroAndProve compress order order' key = .ok trace) :
    Called compress p (.readZero key) (.readZero trace) p := by
  have habs : Absent compress p.data key := by
    obtain ⟨r, hr, h⟩ := bind_eq_ok.mp h
    cases r with
    | some i => cases h
    | none => exact (findKey_none ho).mp hr
  obtain ⟨a, b, tm, tp, hbt, hok⟩ := readZeroAndProve_spec hz hi ho ho' habs
  rw [hok] at h
  cases h
  exact .readZero hbt

end

end reads

-- Runs

section
variable [Inhabited K] [Inhabited V]

section
omit [WriterTo K] [WriterTo V]

def initialData (K V : Type) [Inhabited K] [Inhabited V] : Mapping K V :=
  ((∅ : Mapping K V).insert 0 ⟨.head, default, default⟩).insert 1 ⟨.tail, default, default⟩

theorem initialData_cases (h : (initialData K V).lookup i = some t) :
    (i = 0 ∧ t = ⟨.head, default, default⟩) ∨ (i = 1 ∧ t = ⟨.tail, default, default⟩) := by
  unfold initialData at h
  by_cases h1 : i = 1
  · subst h1
    exact .inr ⟨rfl, (Option.some.inj h).symm⟩
  · rw [lookup_insert_of_ne _ h1] at h
    by_cases h0 : i = 0
    · subst h0
      exact .inl ⟨rfl, (Option.some.inj h).symm⟩
    · rw [lookup_insert_of_ne _ h0] at h
      cases h

theorem initialData_zero : (initialData K V).lookup 0 = some ⟨.head, default, default⟩ := by
  rw [initialData, lookup_insert_of_ne _ (by decide), lookup_insert]

theorem initialData_one : (initialData K V).lookup 1 = some ⟨.tail, default, default⟩ :=
  lookup_insert _

theorem sorted_initialData : Sorted (links (initialData K V)) 0 1 := by
  have h0 : links (initialData K V) 0 = some ⟨0, 1, 0⟩ := links_of_lookup initialData_zero
  have h1 : links (initialData K V) 1 = some ⟨0, 1, .max⟩ := links_of_lookup initialData_one
  have hlt : (0 : KoalaOctuplet) < .max := by decide
  have hcases {j : Int64} {l : SortedLinks.Link Int64 KoalaOctuplet}
      (h : links (initialData K V) j = some l) :
      (j = 0 ∧ l = ⟨0, 1, 0⟩) ∨ (j = 1 ∧ l = ⟨0, 1, .max⟩) := by
    obtain ⟨t, ht, rfl⟩ := links_some.mp h
    rcases initialData_cases ht with ⟨rfl, rfl⟩ | ⟨rfl, rfl⟩
    · exact .inl ⟨rfl, rfl⟩
    · exact .inr ⟨rfl, rfl⟩
  refine ⟨by decide, ⟨_, h0, rfl⟩, ⟨_, h1, rfl⟩, ?_, ?_, ?_, ?_, ?_, ?_⟩
  · intro l j r hl hr
    cases h0.symm.trans hl
    exact KoalaOctuplet.zero_le _
  · intro l j r hl hr
    cases h1.symm.trans hl
    exact KoalaOctuplet.le_max _
  · intro j l hj hne
    rcases hcases hj with ⟨rfl, rfl⟩ | ⟨rfl, rfl⟩
    · exact ⟨_, h1, rfl, hlt⟩
    · exact absurd rfl hne
  · intro j l hj hne
    rcases hcases hj with ⟨rfl, rfl⟩ | ⟨rfl, rfl⟩
    · exact absurd rfl hne
    · exact ⟨_, h0, rfl, hlt⟩
  · intro j l r k m hj hne hr hk
    rcases hcases hj with ⟨rfl, rfl⟩ | ⟨rfl, rfl⟩
    · cases h1.symm.trans hr
      rcases hcases hk with ⟨rfl, rfl⟩ | ⟨rfl, rfl⟩
      · exact .inl le_rfl
      · exact .inr le_rfl
    · exact absurd rfl hne
  · intro j l k r hj hk he
    rcases hcases hj with ⟨rfl, rfl⟩ | ⟨rfl, rfl⟩ <;>
      rcases hcases hk with ⟨rfl, rfl⟩ | ⟨rfl, rfl⟩
    · rfl
    · exact absurd he hlt.ne
    · exact absurd he hlt.ne'
    · rfl

end

variable (K V) in
theorem initializeProverState_spec (hz : NeverZero compress) (location : String) :
    ∃ tree, initializeProverState compress K V location =
        .ok { location, nextFreeNode := 2, tree, data := initialData K V } ∧
      Invariant compress { location, nextFreeNode := 2, tree, data := initialData K V } := by
  have hc₀ : Committed compress (newEmptyTree compress treeDepth) (∅ : Mapping K V) := by
    obtain ⟨hd, hr⟩ := newEmptyTree_spec compress (d := treeDepth) (by decide) (by decide)
    refine ⟨hd, ?_⟩
    have : leafAt compress (∅ : Mapping K V) = fun _ => emptyLeaf := by
      funext n
      simp [leafAt, lookup_empty]
    rwa [this]
  have hin0 : InTree 0 := by constructor <;> decide
  have hin1 : InTree 1 := by constructor <;> decide
  obtain ⟨tree₁, h₁, hc₁, -⟩ := hc₀.insert hz hin0 ⟨.head, default, default⟩
  obtain ⟨tree₂, h₂, hc₂, -⟩ := hc₁.insert hz hin1 ⟨.tail, default, default⟩
  refine ⟨tree₂, ?_, hc₂, sorted_initialData, ?_, ?_, ?_, ?_, ?_⟩
  · unfold initializeProverState
    rw [show (0 : Nat) = index 0 from rfl, show (1 : Nat) = index 1 from rfl, h₁]
    simp only [ok_bind, h₂]
    rfl
  · intro t ht
    cases initialData_zero.symm.trans ht
    rfl
  · intro t ht
    cases initialData_one.symm.trans ht
    rfl
  · intro j t ht h0 h1
    rcases initialData_cases ht with ⟨rfl, -⟩ | ⟨rfl, -⟩
    · exact absurd rfl h0
    · exact absurd rfl h1
  · intro j t ht
    show 0 ≤ j.toInt ∧ j.toInt < (2 : Int64).toInt
    rcases initialData_cases ht with ⟨rfl, -⟩ | ⟨rfl, -⟩ <;> decide
  · show (2 : Int64).toInt ≤ 2 ^ treeDepth
    decide

end

/-- What a call needs in order to return. -/
def Applicable (compress : Compress) (p : ProverState K V) : Call K V → Prop
  | .insert key _ => Absent compress p.data key ∧ p.nextFreeNode.toInt < 2 ^ treeDepth
  | .update key _ | .readNonZero key => ∃ i t, p.data.lookup i = some t ∧
      t.leafOpening.hKey = hash compress key ∧ hash compress key = hash compress t.key
  | .delete key => ∃ i t, p.data.lookup i = some t ∧ i ≠ 0 ∧ i ≠ 1 ∧
      t.leafOpening.hKey = hash compress key
  | .readZero key => Absent compress p.data key

theorem call_returns (hz : NeverZero compress) (hi : Invariant compress p)
    (ho : p.ListsAllKeys order) (ho' : p.ListsAllKeys order') (h : Applicable compress p c) :
    ∃ t p', p.call compress order order' c = .ok (t, p') := by
  cases c with
  | insert key val =>
    obtain ⟨a, b, tm, tp, -, hbt⟩ := findSandwich_ok hi ho' h.1
    obtain ⟨tree', -, hok⟩ := insertAndProve_spec hz hi ho ho' hbt h.2 val
    exact ⟨_, _, by rw [call, hok]; rfl⟩
  | update key newVal =>
    obtain ⟨i, t, ht, hkey, hsame⟩ := h
    obtain ⟨tree', -, hok⟩ := updateAndProve_spec hz hi ho ht hkey hsame newVal
    exact ⟨_, _, by rw [call, hok]; rfl⟩
  | delete key =>
    obtain ⟨i, t, ht, h0, h1, hkey⟩ := h
    obtain ⟨tm, tp, har⟩ := exists_around hi ht h0 h1
    obtain ⟨tree', -, hok⟩ := deleteAndProve_spec hz hi ho har hkey
    exact ⟨_, _, by rw [call, hok]; rfl⟩
  | readNonZero key =>
    obtain ⟨i, t, ht, hkey, hsame⟩ := h
    exact ⟨_, _, by rw [call, readNonZeroAndProve_spec hz hi ho ht hkey hsame]; rfl⟩
  | readZero key =>
    obtain ⟨a, b, tm, tp, -, hok⟩ := readZeroAndProve_spec hz hi ho ho' h
    exact ⟨_, _, by rw [call, hok]; rfl⟩

theorem call_called {t : Trace K V} (hz : NeverZero compress) (hi : Invariant compress p)
    (ho : p.ListsAllKeys order) (ho' : p.ListsAllKeys order')
    (h : p.call compress order order' c = .ok (t, p')) : Called compress p c t p' := by
  cases c with
  | insert key val =>
    obtain ⟨⟨trace, q⟩, hq, ⟨⟩⟩ := bind_eq_ok.mp h
    exact insertAndProve_called hz hi ho ho' hq
  | update key newVal =>
    obtain ⟨⟨trace, q⟩, hq, ⟨⟩⟩ := bind_eq_ok.mp h
    exact updateAndProve_called hz hi ho hq
  | delete key =>
    obtain ⟨⟨trace, q⟩, hq, ⟨⟩⟩ := bind_eq_ok.mp h
    exact deleteAndProve_called hz hi ho hq
  | readNonZero key =>
    obtain ⟨trace, hq, ⟨⟩⟩ := bind_eq_ok.mp h
    exact readNonZeroAndProve_called hz hi ho hq
  | readZero key =>
    obtain ⟨trace, hq, ⟨⟩⟩ := bind_eq_ok.mp h
    exact readZeroAndProve_called hz hi ho ho' hq

theorem Called.invariant {t : Trace K V} (hi : Invariant compress p)
    (h : Called compress p c t p') : Invariant compress p' := by
  cases h with
  | insert hbt hroom hc => exact invariant_afterInsert hi hbt hroom hc
  | update ht _ hc => exact invariant_afterUpdate hi ht hc
  | delete har h0 h1 _ hc => exact invariant_afterDelete hi har h0 h1 hc
  | readNonZero _ | readZero _ => exact hi

theorem Reachable.invariant [Inhabited K] [Inhabited V] (hz : NeverZero compress)
    (h : Reachable compress p) : Invariant compress p := by
  induction h with
  | init h =>
    obtain ⟨tree, hok, hi⟩ := initializeProverState_spec K V hz _
    rw [hok] at h
    cases h
    exact hi
  | call _ ho ho' h ih => exact (call_called hz ih ho ho' h).invariant ih

end StatusNetwork.Prover
