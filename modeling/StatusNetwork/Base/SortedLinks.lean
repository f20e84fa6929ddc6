import Mathlib.Data.Finset.Card

/-!
# Sorted doubly linked lists in a heap

A heap assigns a link to every live position. `Sorted h head tail` says that
following `next` from `head` to `tail` runs through the live positions in
increasing order of their keys and that `prev` is its inverse, by local facts
only: neighbours point at each other and no live key lies strictly between
theirs. Linking a fresh position between two neighbours (`Sorted.link`) and
unlinking an inner one (`Sorted.unlink`) keep it.
-/

namespace SortedLinks

structure Link (ι : Type u) (κ : Type v) where
  prev : ι
  next : ι
  key : κ

abbrev Heap (ι : Type u) (κ : Type v) := ι → Option (Link ι κ)

variable {ι : Type u} {κ : Type v}

section
variable [DecidableEq ι] {h : Heap ι κ}

/-- The heap with the fresh position `n` linked between `a` and `b`. -/
def link (h : Heap ι κ) (a n b : ι) (k : κ) : Heap ι κ := fun j =>
  if j = n then some ⟨a, b, k⟩
  else (h j).map fun l => { l with
    next := if j = a then n else l.next, prev := if j = b then n else l.prev }

/-- The heap without `i`, whose neighbours `a` and `b` now point at each other. -/
def unlink (h : Heap ι κ) (a i b : ι) : Heap ι κ := fun j =>
  if j = i then none
  else (h j).map fun l => { l with
    next := if j = a then b else l.next, prev := if j = b then a else l.prev }

theorem link_new (h : Heap ι κ) (a n b : ι) (k : κ) : link h a n b k n = some ⟨a, b, k⟩ := by
  simp [link]

theorem link_old (hj : h j = some l) (hn : j ≠ n) :
    link h a n b k j = some { l with
      next := if j = a then n else l.next, prev := if j = b then n else l.prev } := by
  simp [link, hj, hn]

theorem link_cases (hj : link h a n b k j = some l') :
    (j = n ∧ l' = ⟨a, b, k⟩) ∨
      (j ≠ n ∧ ∃ l, h j = some l ∧ l'.key = l.key ∧
        l'.next = (if j = a then n else l.next) ∧ l'.prev = (if j = b then n else l.prev)) := by
  unfold link at hj
  split at hj
  · exact .inl ⟨‹_›, (Option.some.inj hj).symm⟩
  · obtain ⟨l, hl, rfl⟩ := Option.map_eq_some_iff.mp hj
    exact .inr ⟨‹_›, l, hl, rfl, rfl, rfl⟩

theorem unlink_old (hj : h j = some l) (hi : j ≠ i) : unlink h a i b j = some { l with
      next := if j = a then b else l.next, prev := if j = b then a else l.prev } := by
  simp [unlink, hj, hi]

theorem unlink_cases (hj : unlink h a i b j = some l') :
    j ≠ i ∧ ∃ l, h j = some l ∧ l'.key = l.key ∧
      l'.next = (if j = a then b else l.next) ∧ l'.prev = (if j = b then a else l.prev) := by
  unfold unlink at hj
  split at hj
  · cases hj
  · obtain ⟨l, hl, rfl⟩ := Option.map_eq_some_iff.mp hj
    exact ⟨‹_›, l, hl, rfl, rfl, rfl⟩

end

variable [LinearOrder κ]

structure Sorted (h : Heap ι κ) (head tail : ι) : Prop where
  ends : head ≠ tail
  headLink : ∃ l, h head = some l ∧ l.prev = head
  tailLink : ∃ l, h tail = some l ∧ l.next = tail
  least : h head = some b → h i = some l → b.key ≤ l.key
  greatest : h tail = some t → h i = some l → l.key ≤ t.key
  next : h i = some l → i ≠ tail → ∃ r, h l.next = some r ∧ r.prev = i ∧ l.key < r.key
  prev : h i = some l → i ≠ head → ∃ r, h l.prev = some r ∧ r.next = i ∧ r.key < l.key
  gap : h i = some l → i ≠ tail → h l.next = some r → h j = some k →
    k.key ≤ l.key ∨ r.key ≤ k.key
  unique : h i = some l → h j = some r → l.key = r.key → i = j

variable {h : Heap ι κ} {head tail : ι}

section
variable (hs : Sorted h head tail)
include hs

theorem Sorted.next_ne_head (hi : h i = some l) (ht : i ≠ tail) : l.next ≠ head := by
  intro he
  obtain ⟨r, hr, -, hlt⟩ := hs.next hi ht
  rw [he] at hr
  exact absurd (hs.least hr hi) (not_le.mpr hlt)

theorem Sorted.prev_ne_tail (hi : h i = some l) (hh : i ≠ head) : l.prev ≠ tail := by
  intro he
  obtain ⟨r, hr, -, hlt⟩ := hs.prev hi hh
  rw [he] at hr
  exact absurd (hs.greatest hr hi) (not_le.mpr hlt)

theorem Sorted.next_ne (hi : h i = some l) (ht : i ≠ tail) : l.next ≠ i := by
  intro he
  obtain ⟨r, hr, -, hlt⟩ := hs.next hi ht
  rw [he, hi] at hr
  cases hr
  exact lt_irrefl _ hlt

theorem Sorted.next_eq (ha : h a = some la) (hb : h b = some lb) (hlt : la.key < lb.key)
    (hgap : ∀ j l, h j = some l → l.key ≤ la.key ∨ lb.key ≤ l.key) : a ≠ tail ∧ la.next = b := by
  have hat : a ≠ tail := by
    rintro rfl
    exact absurd (hs.greatest ha hb) (not_le.mpr hlt)
  obtain ⟨r, hr, -, hnext⟩ := hs.next ha hat
  refine ⟨hat, hs.unique hr hb (le_antisymm ?_ ?_)⟩
  · rcases hs.gap ha hat hr hb with h | h
    · exact absurd h (not_le.mpr hlt)
    · exact h
  · rcases hgap _ r hr with h | h
    · exact absurd h (not_le.mpr hnext)
    · exact h

section
variable {a : ι} {la lb : Link ι κ} {k : κ} (ha : h a = some la) (hat : a ≠ tail)
  (hb : h la.next = some lb) (hlo : la.key < k) (hhi : k < lb.key)
include ha hat hb hlo hhi

theorem Sorted.not_live (hj : h j = some l) : l.key ≠ k := by
  rintro rfl
  rcases hs.gap ha hat hb hj with h | h
  · exact absurd h (not_le.mpr hlo)
  · exact absurd h (not_le.mpr hhi)

theorem Sorted.neighbours_unique (hc : h c = some lc) (hct : c ≠ tail) (hd : h lc.next = some ld)
    (hlo' : lc.key < k) (hhi' : k < ld.key) : a = c := by
  apply hs.unique ha hc
  rcases hs.gap ha hat hb hc with h1 | h1
  · rcases hs.gap hc hct hd ha with h2 | h2
    · exact le_antisymm h2 h1
    · exact absurd (lt_of_lt_of_le hhi' h2) (not_lt.mpr hlo.le)
  · exact absurd (lt_of_lt_of_le hhi h1) (not_lt.mpr hlo'.le)

theorem Sorted.link_side (hj : h j = some l) :
    (l.key ≤ la.key ∧ l.key < k) ∨ (lb.key ≤ l.key ∧ k < l.key) := by
  rcases hs.gap ha hat hb hj with h | h
  · exact .inl ⟨h, lt_of_le_of_lt h hlo⟩
  · exact .inr ⟨h, lt_of_lt_of_le hhi h⟩

theorem Sorted.link [DecidableEq ι] (hn : h n = none) :
    Sorted (link h a n la.next k) head tail := by
  have hbh := hs.next_ne_head ha hat
  have hside {j : ι} {l : Link ι κ} := hs.link_side (j := j) (l := l) ha hat hb hlo hhi
  have hlive {j : ι} {l : Link ι κ} (hj : h j = some l) : j ≠ n := by
    rintro rfl; simp [hn] at hj
  have hbp : lb.prev = a := by
    obtain ⟨r, hr, hp, -⟩ := hs.next ha hat
    rw [hb] at hr; cases hr; exact hp
  refine ⟨hs.ends, ?_, ?_, ?_, ?_, ?_, ?_, ?_, ?_⟩
  · obtain ⟨l, hl, hp⟩ := hs.headLink
    exact ⟨_, link_old hl (hlive hl), by simp [hbh.symm, hp]⟩
  · obtain ⟨l, hl, hp⟩ := hs.tailLink
    exact ⟨_, link_old hl (hlive hl), by simp [hat.symm, hp]⟩
  · intro b i l hb' hi
    obtain ⟨l0, hl0, -⟩ := hs.headLink
    rw [link_old hl0 (hlive hl0)] at hb'
    cases hb'
    rcases link_cases hi with ⟨rfl, rfl⟩ | ⟨-, m, hm, hk, -, -⟩
    · exact (lt_of_le_of_lt (hs.least hl0 ha : l0.key ≤ la.key) hlo).le
    · rw [hk]; exact (hs.least hl0 hm : l0.key ≤ m.key)
  · intro t i l ht hi
    obtain ⟨l0, hl0, -⟩ := hs.tailLink
    rw [link_old hl0 (hlive hl0)] at ht
    cases ht
    rcases link_cases hi with ⟨rfl, rfl⟩ | ⟨-, m, hm, hk, -, -⟩
    · exact (lt_of_lt_of_le hhi (hs.greatest hl0 hb : lb.key ≤ l0.key)).le
    · rw [hk]; exact (hs.greatest hl0 hm : m.key ≤ l0.key)
  · intro i l hi hit
    rcases link_cases hi with ⟨rfl, rfl⟩ | ⟨-, m, hm, hk, hnx, -⟩
    · exact ⟨_, link_old hb (hlive hb), by simp, hhi⟩
    · by_cases hia : i = a
      · subst hia
        rw [ha] at hm; cases hm
        simp only [if_true] at hnx
        rw [hnx]
        exact ⟨_, link_new .., rfl, by rw [hk]; exact hlo⟩
      · obtain ⟨r, hr, hp, hlt⟩ := hs.next hm hit
        have hmb : m.next ≠ la.next := by
          -- two positions with one successor coincide
          intro he
          rw [he, hb] at hr; cases hr
          exact hia (hp.symm.trans hbp)
        rw [if_neg hia] at hnx
        rw [hnx]
        exact ⟨_, link_old hr (hlive hr), by simp [hmb, hp], by rw [hk]; exact hlt⟩
  · intro i l hi hih
    rcases link_cases hi with ⟨rfl, rfl⟩ | ⟨-, m, hm, hk, -, hpv⟩
    · exact ⟨_, link_old ha (hlive ha), by simp, hlo⟩
    · by_cases hib : i = la.next
      · subst hib
        rw [hb] at hm; cases hm
        simp only [if_true] at hpv
        rw [hpv]
        exact ⟨_, link_new .., rfl, by rw [hk]; exact hhi⟩
      · obtain ⟨r, hr, hx, hlt⟩ := hs.prev hm hih
        have hma : m.prev ≠ a := by
          intro he
          rw [he, ha] at hr; cases hr
          exact hib hx.symm
        rw [if_neg hib] at hpv
        rw [hpv]
        exact ⟨_, link_old hr (hlive hr), by simp [hma, hx], by rw [hk]; exact hlt⟩
  · intro i l r j q hi hit hr hj
    -- the successor of `i` in the old heap, and where `j`'s key lies
    rcases link_cases hi with ⟨rfl, rfl⟩ | ⟨-, m, hm, hk, hnx, -⟩
    · rw [link_old hb (hlive hb)] at hr; cases hr
      rcases link_cases hj with ⟨rfl, rfl⟩ | ⟨-, p, hp, hpk, -, -⟩
      · exact .inl le_rfl
      · rw [hpk]
        rcases hside hp with h | h
        · exact .inl h.2.le
        · exact .inr h.1
    · by_cases hia : i = a
      · subst hia
        rw [ha] at hm; cases hm
        simp only [if_true] at hnx
        rw [hnx, link_new] at hr; cases hr
        rcases link_cases hj with ⟨rfl, rfl⟩ | ⟨-, p, hp, hpk, -, -⟩
        · exact .inr le_rfl
        · rw [hpk, hk]
          rcases hside hp with h | h
          · exact .inl h.1
          · exact .inr h.2.le
      · rw [if_neg hia] at hnx
        rw [hnx] at hr
        obtain ⟨r', hr', -, hlt⟩ := hs.next hm hit
        rw [link_old hr' (hlive hr')] at hr; cases hr
        rcases link_cases hj with ⟨rfl, rfl⟩ | ⟨-, p, hp, hpk, -, -⟩
        · -- the new key falls into the gap of `a`, not of `i`
          rw [hk]
          rcases hside hm with h1 | h1
          · rcases hs.gap hm hit hr' ha with h2 | h2
            · exact absurd (hs.unique hm ha (le_antisymm h1.1 h2)) hia
            · exact .inr (h2.trans hlo.le)
          · exact .inl h1.2.le
        · rw [hpk, hk]
          exact (hs.gap hm hit hr' hp : p.key ≤ m.key ∨ r'.key ≤ p.key)
  · intro i l j r hi hj he
    rcases link_cases hi with ⟨rfl, rfl⟩ | ⟨-, m, hm, hk, -, -⟩
    · rcases link_cases hj with ⟨rfl, rfl⟩ | ⟨-, p, hp, hpk, -, -⟩
      · rfl
      · exact absurd (hpk.symm.trans he.symm) (hs.not_live ha hat hb hlo hhi hp)
    · rcases link_cases hj with ⟨rfl, rfl⟩ | ⟨-, p, hp, hpk, -, -⟩
      · exact absurd (hk.symm.trans he) (hs.not_live ha hat hb hlo hhi hm)
      · exact hs.unique hm hp (by rw [← hk, ← hpk, he])

end

theorem Sorted.unlink [DecidableEq ι] (hi : h i = some l) (hih : i ≠ head)
    (hit : i ≠ tail) : Sorted (unlink h l.prev i l.next) head tail := by
  obtain ⟨la, ha, hax, halt⟩ := hs.prev hi hih
  obtain ⟨lb, hb, hbp, hblt⟩ := hs.next hi hit
  have hat : l.prev ≠ tail := hs.prev_ne_tail hi hih
  have hbh : l.next ≠ head := hs.next_ne_head hi hit
  have hai : l.prev ≠ i := by
    intro he
    rw [he, hi] at ha; cases ha
    exact lt_irrefl _ halt
  have hbi : l.next ≠ i := hs.next_ne hi hit
  refine ⟨hs.ends, ?_, ?_, ?_, ?_, ?_, ?_, ?_, ?_⟩
  · obtain ⟨m, hm, hp⟩ := hs.headLink
    exact ⟨_, unlink_old hm hih.symm, by simp [hbh.symm, hp]⟩
  · obtain ⟨m, hm, hp⟩ := hs.tailLink
    exact ⟨_, unlink_old hm hit.symm, by simp [hat.symm, hp]⟩
  · intro b j m hb' hj
    obtain ⟨l0, hl0, -⟩ := hs.headLink
    rw [unlink_old hl0 hih.symm] at hb'
    cases hb'
    obtain ⟨-, p, hp, hk, -, -⟩ := unlink_cases hj
    rw [hk]; exact (hs.least hl0 hp : l0.key ≤ p.key)
  · intro t j m ht hj
    obtain ⟨l0, hl0, -⟩ := hs.tailLink
    rw [unlink_old hl0 hit.symm] at ht
    cases ht
    obtain ⟨-, p, hp, hk, -, -⟩ := unlink_cases hj
    rw [hk]; exact (hs.greatest hl0 hp : p.key ≤ l0.key)
  · intro j m hj hjt
    obtain ⟨hji, p, hp, hk, hnx, -⟩ := unlink_cases hj
    by_cases hja : j = l.prev
    · subst hja
      rw [ha] at hp; cases hp
      simp only [if_true] at hnx
      rw [hnx]
      exact ⟨_, unlink_old hb hbi, by simp, by rw [hk]; exact halt.trans hblt⟩
    · obtain ⟨r, hr, hrp, hlt⟩ := hs.next hp hjt
      have hpi : p.next ≠ i := by
        intro he
        rw [he, hi] at hr; cases hr
        exact hja hrp.symm
      have hpb : p.next ≠ l.next := by
        intro he
        rw [he, hb] at hr; cases hr
        exact hji (hrp.symm.trans hbp)
      rw [if_neg hja] at hnx
      rw [hnx]
      exact ⟨_, unlink_old hr hpi, by simp [hpb, hrp], by rw [hk]; exact hlt⟩
  · intro j m hj hjh
    obtain ⟨hji, p, hp, hk, -, hpv⟩ := unlink_cases hj
    by_cases hjb : j = l.next
    · subst hjb
      rw [hb] at hp; cases hp
      simp only [if_true] at hpv
      rw [hpv]
      exact ⟨_, unlink_old ha hai, by simp, by rw [hk]; exact halt.trans hblt⟩
    · obtain ⟨r, hr, hrx, hlt⟩ := hs.prev hp hjh
      have hpi : p.prev ≠ i := by
        intro he
        rw [he, hi] at hr; cases hr
        exact hjb hrx.symm
      have hpa : p.prev ≠ l.prev := by
        intro he
        rw [he, ha] at hr; cases hr
        exact hji (hrx.symm.trans hax)
      rw [if_neg hjb] at hpv
      rw [hpv]
      exact ⟨_, unlink_old hr hpi, by simp [hpa, hrx], by rw [hk]; exact hlt⟩
  · intro j m r q s hj hjt hr hq
    obtain ⟨hji, p, hp, hk, hnx, -⟩ := unlink_cases hj
    obtain ⟨hqi, w, hw, hwk, -, -⟩ := unlink_cases hq
    rw [hk, hwk]
    by_cases hja : j = l.prev
    · subst hja
      rw [ha] at hp; cases hp
      simp only [if_true] at hnx
      rw [hnx, unlink_old hb hbi] at hr; cases hr
      -- a key above `l.prev` other than the removed one is above `l.next`
      rcases hs.gap ha hat (by rw [hax]; exact hi) hw with h1 | h1
      · exact .inl h1
      · rcases hs.gap hi hit hb hw with h2 | h2
        · exact absurd (hs.unique hw hi (le_antisymm h2 h1)) hqi
        · exact .inr h2
    · obtain ⟨r', hr', hrp, hlt⟩ := hs.next hp hjt
      have hpi : p.next ≠ i := by
        intro he
        rw [he, hi] at hr'; cases hr'
        exact hja hrp.symm
      rw [if_neg hja] at hnx
      rw [hnx, unlink_old hr' hpi] at hr; cases hr
      exact (hs.gap hp hjt hr' hw : w.key ≤ p.key ∨ r'.key ≤ w.key)
  · intro j m q r hj hq he
    obtain ⟨-, p, hp, hk, -, -⟩ := unlink_cases hj
    obtain ⟨-, w, hw, hwk, -, -⟩ := unlink_cases hq
    exact hs.unique hp hw (by rw [← hk, ← hwk, he])

end

variable [DecidableEq ι]

-- Following the links

/-- `next` leads from `i` to `j`. -/
def LeadsTo (h : Heap ι κ) (i j : ι) : Prop := ∃ l, h i = some l ∧ l.next = j

def Below (h : Heap ι κ) (i j : ι) : Prop := ∃ l r, h i = some l ∧ h j = some r ∧ l.key < r.key

theorem Sorted.exists_path_from (hs : Sorted h head tail) {live : Finset ι}
    (hlive : ∀ {i l}, h i = some l → i ∈ live) (hi : h i = some l) :
    ∃ path, (i :: path).getLast? = some tail ∧ (i :: path).IsChain (LeadsTo h) ∧
      (i :: path).Pairwise (Below h) ∧ ∀ j, j ∈ i :: path ↔ ∃ r, h j = some r ∧ l.key ≤ r.key := by
  classical
  -- on the number of live positions with a greater key
  induction hn : (live.filter fun j => ∃ r, h j = some r ∧ l.key < r.key).card using
    Nat.strong_induction_on generalizing i l with
  | _ n ih =>
    subst hn
    by_cases ht : i = tail
    · subst ht
      refine ⟨[], rfl, .singleton i, List.pairwise_singleton _ i, fun j => ?_⟩
      rw [List.mem_singleton]
      constructor
      · rintro rfl
        exact ⟨l, hi, le_rfl⟩
      · rintro ⟨r, hr, hle⟩
        exact hs.unique hr hi (le_antisymm (hs.greatest hi hr) hle)
    · obtain ⟨r, hr, -, hlt⟩ := hs.next hi ht
      have hfewer : (live.filter fun j => ∃ k, h j = some k ∧ r.key < k.key).card <
          (live.filter fun j => ∃ k, h j = some k ∧ l.key < k.key).card := by
        refine Finset.card_lt_card (Finset.ssubset_iff_of_subset ?_ |>.mpr ⟨l.next, ?_, ?_⟩)
        · intro j hj
          obtain ⟨hj, k, hk, hrk⟩ := Finset.mem_filter.mp hj
          exact Finset.mem_filter.mpr ⟨hj, k, hk, hlt.trans hrk⟩
        · exact Finset.mem_filter.mpr ⟨hlive hr, r, hr, hlt⟩
        · rintro hj
          obtain ⟨-, k, hk, hrk⟩ := Finset.mem_filter.mp hj
          cases hr.symm.trans hk
          exact lt_irrefl _ hrk
      obtain ⟨path, hlast, hchain, hbelow, hmem⟩ := ih _ hfewer hr rfl
      refine ⟨l.next :: path, ?_, ?_, ?_, fun j => ?_⟩
      · rwa [List.getLast?_cons_cons]
      · exact List.isChain_cons_cons.mpr ⟨⟨l, hi, rfl⟩, hchain⟩
      · refine List.pairwise_cons.mpr ⟨fun j hj => ?_, hbelow⟩
        obtain ⟨k, hk, hrk⟩ := (hmem j).mp hj
        exact ⟨l, k, hi, hk, lt_of_lt_of_le hlt hrk⟩
      · rw [List.mem_cons, hmem]
        constructor
        · rintro (rfl | ⟨k, hk, hrk⟩)
          · exact ⟨l, hi, le_rfl⟩
          · exact ⟨k, hk, hlt.le.trans hrk⟩
        · rintro ⟨k, hk, hle⟩
          rcases hs.gap hi ht hr hk with hkl | hrk
          · exact .inl (hs.unique hk hi (le_antisymm hkl hle))
          · exact .inr ⟨k, hk, hrk⟩

/-- From the head, `next` runs through all live positions. -/
theorem Sorted.exists_path (hs : Sorted h head tail) {live : Finset ι}
    (hlive : ∀ {i l}, h i = some l → i ∈ live) :
    ∃ path : List ι, path.head? = some head ∧ path.getLast? = some tail ∧ path.IsChain (LeadsTo h) ∧
      path.Pairwise (Below h) ∧ ∀ j, j ∈ path ↔ (h j).isSome := by
  obtain ⟨l, hl, -⟩ := hs.headLink
  obtain ⟨path, hlast, hchain, hbelow, hmem⟩ := hs.exists_path_from hlive hl
  refine ⟨head :: path, rfl, hlast, hchain, hbelow, fun j => ?_⟩
  rw [hmem, Option.isSome_iff_exists]
  constructor
  · rintro ⟨r, hr, -⟩
    exact ⟨r, hr⟩
  · rintro ⟨r, hr⟩
    exact ⟨r, hr, hs.least hl hr⟩

end SortedLinks
