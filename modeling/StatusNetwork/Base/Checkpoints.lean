import Mathlib.Order.Nat

/-!
# Histories kept as checkpoints

A history is a list of entries, oldest first, each with the time it is from. The entry in
force at a time is the latest one that is not after it, and a binary search finds it.
-/

namespace Checkpoints

-- Binary search

def bisect (after : Nat → Prop) [DecidablePred after] (low high : Nat) : Nat :=
  if low < high then
    let mid := (low + high) / 2
    if after mid then bisect after low mid else bisect after (mid + 1) high
  else high
termination_by high - low

/-- From `i` on, and not before, `after` holds below `n`. -/
structure Splits (after : Nat → Prop) (n i : Nat) : Prop where
  le : i ≤ n
  below : ∀ j, j < i → ¬ after j
  above : ∀ j, i ≤ j → j < n → after j

theorem bisect_splits [DecidablePred after] (hmono : ∀ i j, i ≤ j → j < n → after i → after j)
    (hle : low ≤ high) (hn : high ≤ n) (hbelow : ∀ j, j < low → ¬ after j)
    (habove : ∀ j, high ≤ j → j < n → after j) : Splits after n (bisect after low high) := by
  fun_induction bisect after low high with
  | case1 low high hlt mid hafter ih =>
    -- everything from `mid` on is after
    exact ih (by omega) (by omega) hbelow fun j hj hjn => hmono mid j hj hjn hafter
  | case2 low high hlt mid hafter ih =>
    -- nothing up to `mid` is after
    refine ih (by omega) hn (fun j hj hafterj => hafter ?_) habove
    exact hmono j mid (by omega) (by omega) hafterj
  | case3 low high hge =>
    obtain rfl : low = high := by omega
    exact ⟨hn, hbelow, habove⟩

-- The entry in force at a time

variable {κ : Type u} (time : κ → Nat)

def latest (entries : List κ) (t : Nat) : Option κ :=
  (entries.filter (time · ≤ t)).getLast?

def Sorted (entries : List κ) : Prop :=
  entries.Pairwise (time · < time ·)

variable {time} {entries : List κ}

theorem latest_concat : latest time (entries ++ [c]) t =
    if time c ≤ t then some c else latest time entries t := by
  unfold latest
  split
  all_goals
    rename_i hc
    simp [hc]

theorem latest_eq_getLast? (h : ∀ c ∈ entries, time c ≤ t) :
    latest time entries t = entries.getLast? := by
  unfold latest
  rw [List.filter_eq_self.mpr (by simpa using h)]

theorem latest_eq_of_splits
    (h : Splits (fun i => ∃ c, entries[i]? = some c ∧ t < time c) entries.length i) :
    latest time entries t = if i = 0 then none else entries[i - 1]? := by
  have hsplit : entries = entries.take i ++ entries.drop i := (List.take_append_drop i entries).symm
  have htake : (entries.take i).filter (time · ≤ t) = entries.take i := by
    rw [List.filter_eq_self]
    intro c hc
    obtain ⟨j, hj, rfl⟩ := List.getElem_of_mem hc
    simp only [List.length_take] at hj
    have := h.below j (by omega)
    simp only [not_exists, not_and] at this
    have := this _ (List.getElem?_eq_getElem (by omega : j < entries.length))
    simpa using this
  have hdrop : (entries.drop i).filter (time · ≤ t) = [] := by
    rw [List.filter_eq_nil_iff]
    intro c hc
    obtain ⟨j, hj, rfl⟩ := List.getElem_of_mem hc
    simp only [List.length_drop] at hj
    obtain ⟨a, ha, hlt⟩ := h.above (i + j) (by omega) (by omega)
    rw [List.getElem?_eq_getElem (by omega : i + j < entries.length), Option.some.injEq] at ha
    rw [← ha] at hlt
    simpa using hlt
  unfold latest
  rw [hsplit, List.filter_append, htake, hdrop, List.append_nil]
  rw [List.getLast?_eq_getElem?, List.length_take, Nat.min_eq_left h.le]
  rcases i with _ | i <;> simp

-- Going on with a history

/-- A history that is written only from `now` on. -/
structure Extends (time : κ → Nat) (now : Nat) (old new : List κ) : Prop where
  sorted : Sorted time new
  le_now : ∀ c ∈ new, time c ≤ now
  before : ∀ t, t < now → latest time new t = latest time old t

variable {old new : List κ}

theorem Extends.refl (hs : Sorted time old) (h : ∀ c ∈ old, time c ≤ now) :
    Extends time now old old :=
  ⟨hs, h, fun _ _ => rfl⟩

theorem Extends.trans (h : Extends time now old new) (h' : Extends time now new new') :
    Extends time now old new' :=
  ⟨h'.sorted, h'.le_now, fun t ht => (h'.before t ht).trans (h.before t ht)⟩

theorem Extends.push (hs : Sorted time old) (h : ∀ c ∈ old, time c < now) (hc : time c = now) :
    Extends time now old (old ++ [c]) := by
  refine ⟨?_, ?_, fun t ht => ?_⟩
  · rw [Sorted, List.pairwise_append]
    refine ⟨hs, List.pairwise_singleton _ _, fun a ha b hb => ?_⟩
    obtain rfl := List.mem_singleton.mp hb
    rw [hc]
    exact h a ha
  · intro a ha
    rcases List.mem_append.mp ha with ha | ha
    · exact (h a ha).le
    · obtain rfl := List.mem_singleton.mp ha
      exact hc.le
  · rw [latest_concat, if_neg (by omega)]

theorem Extends.replace (hs : Sorted time (entries ++ [c])) (hc : time c = now)
    (hc' : time c' = now) : Extends time now (entries ++ [c]) (entries ++ [c']) := by
  rw [Sorted, List.pairwise_append] at hs
  obtain ⟨hs, -, hlt⟩ := hs
  have h : ∀ a ∈ entries, time a < now := fun a ha => hc ▸ hlt a ha c (List.mem_singleton_self c)
  have hpush := Extends.push hs h hc'
  refine ⟨hpush.sorted, hpush.le_now, fun t ht => ?_⟩
  rw [hpush.before t ht, latest_concat, if_neg (by omega)]

theorem Extends.latest_of_le (h : Extends time now old new) (ht : now ≤ t) :
    latest time new t = new.getLast? :=
  latest_eq_getLast? fun c hc => (h.le_now c hc).trans ht

end Checkpoints
