import Mathlib.Algebra.Ring.Int.Defs
import Mathlib.Logic.Function.Basic

/-!
# Cached degrees

`Expression.Degree` of `expression.go` and `ReduceDegreeOfExpressions` of `degree_reduction.go`, as
far as they read and write `cachedDegree`. An expression has an address, so that a subexpression
that is shared has one cache. Which candidates a reduction looks at and what it builds from them is
left open.
-/

namespace StatusNetwork.Symbolic

open Function (update update_of_ne update_self)

/-- The operators with operands. -/
inductive Operator
  | linComb (coeffs : List Int)
  | product (exponents : List Int)
  | polyEval

/-- `Max` panics without arguments, and the constructors build no such operator. An `int` wraps
around; the results compare degrees with and without caches, which this function gives alike. -/
def Operator.degree : Operator → List Int → Int
  | linComb _, inputDegrees | polyEval, inputDegrees => inputDegrees.max?.getD 0
  | product exponents, inputDegrees => (List.zipWith (· * ·) exponents inputDegrees).sum

inductive Expression (M : Type)
  | constant (ptr : Nat)
  | variable (ptr : Nat) (metadata : M)
  | apply (ptr : Nat) (operator : Operator) (children : List (Expression M))

variable {M : Type}

def Expression.ptr : Expression M → Nat
  | constant ptr | .variable ptr _ | apply ptr _ _ => ptr

def Expression.children : Expression M → List (Expression M)
  | apply _ _ children => children
  | _ => []

abbrev Cache := Nat → Option Int

mutual

def degreeKeepCache (getDegree : M → Int) (e : Expression M) (cache : Cache) : Int × Cache :=
  match cache e.ptr with
  | some d => (d, cache)
  | none =>
    match e with
    | .constant _ => (0, cache)
    | .variable ptr metadata =>
      let d := getDegree metadata
      (d, update cache ptr (some d))
    | .apply ptr operator children =>
      let (childrenDeg, cache) := degreesKeepCache getDegree children cache
      let d := operator.degree childrenDeg
      (d, update cache ptr (some d))

def degreesKeepCache (getDegree : M → Int) : List (Expression M) → Cache → List Int × Cache
  | [], cache => ([], cache)
  | child :: children, cache =>
    let (d, cache) := degreeKeepCache getDegree child cache
    let (ds, cache) := degreesKeepCache getDegree children cache
    (d :: ds, cache)

end

mutual

def uncacheDegree : Expression M → Cache → Cache
  | .constant ptr, cache | .variable ptr _, cache => update cache ptr none
  | .apply ptr _ children, cache => update (uncacheDegrees children cache) ptr none

def uncacheDegrees : List (Expression M) → Cache → Cache
  | [], cache => cache
  | child :: children, cache => uncacheDegrees children (uncacheDegree child cache)

end

def degree (getDegree : M → Int) (e : Expression M) (cache : Cache) : Int × Cache :=
  let (r, cache) := degreeKeepCache getDegree e cache
  (r, uncacheDegree e cache)

/-- The loop, from the index `i` on. -/
def findOverDegreeIndices (degreeGetter : M → Int) (bound : Int) :
    (exprs : List (Expression M)) → (i : Nat) → Cache → List Nat × Cache
  | [], _, cache => ([], cache)
  | expr :: exprs, i, cache =>
    let (deg, cache) := degreeKeepCache degreeGetter expr cache
    let (indices, cache) := findOverDegreeIndices degreeGetter bound exprs (i + 1) cache
    (if deg > bound then i :: indices else indices, cache)

-- Degrees without caches

mutual

def degreeOf (g : M → Int) : Expression M → Int
  | .constant _ => 0
  | .variable _ metadata => g metadata
  | .apply _ operator children => operator.degree (degreesOf g children)

def degreesOf (g : M → Int) : List (Expression M) → List Int
  | [] => []
  | child :: children => degreeOf g child :: degreesOf g children

end

def overDegree (g : M → Int) (bound : Int) (exprs : List (Expression M)) (i : Nat) : List Nat :=
  (exprs.zipIdx i).filterMap fun (e, i) => if degreeOf g e > bound then some i else none

-- Calls

/-- The expressions that were built, each at its own address, and their caches. -/
structure Memory (M : Type) where
  built : List (Expression M)
  cachedDegree : Cache
  unique : ∀ e ∈ built, ∀ e' : Expression M, e' ∈ built → e.ptr = e'.ptr → e = e'
  closed : ∀ e ∈ built, ∀ child ∈ e.children, child ∈ built

namespace Memory

def empty : Memory M := ⟨[], fun _ => none, nofun, nofun⟩

def setCache (m : Memory M) (cachedDegree : Cache) : Memory M := { m with cachedDegree }

/-- A new expression is at a new address, with operands that were built before. -/
structure New (m : Memory M) (e : Expression M) : Prop where
  fresh : ∀ e' ∈ m.built, e'.ptr ≠ e.ptr
  children : ∀ child ∈ e.children, child ∈ m.built

def add (m : Memory M) (e : Expression M) (h : m.New e) : Memory M where
  built := e :: m.built
  cachedDegree := update m.cachedDegree e.ptr none
  unique := by
    rintro a (_ | ⟨_, ha⟩) b (_ | ⟨_, hb⟩) heq
    · rfl
    · exact absurd heq.symm (h.fresh b hb)
    · exact absurd heq (h.fresh a ha)
    · exact m.unique a ha b hb heq
  closed := by
    rintro a (_ | ⟨_, ha⟩) child hc
    · exact .tail _ (h.children child hc)
    · exact .tail _ (m.closed a ha child hc)

/-- The caches, where they are set, hold the degrees under `g`. -/
def Sound (m : Memory M) (g : M → Int) (cache : Cache) : Prop :=
  ∀ e ∈ m.built, ∀ d, cache e.ptr = some d → d = degreeOf g e

end Memory

/-- The search for candidates and their substitution. -/
inductive Searches (g : M → Int) (m : Memory M) : Memory M → Prop
  | start : Searches g m m
  | degree : Searches g m m' → e ∈ m'.built →
    Searches g m (m'.setCache (degreeKeepCache g e m'.cachedDegree).2)
  | new (h : m'.New e) : Searches g m m' → Searches g m (m'.add e h)

/-- The rounds of a reduction, up to the expressions that the next one starts from. -/
inductive Rounds (g : M → Int) (bound : Int) (m : Memory M) (exprs : List (Expression M)) :
    Memory M → List (Expression M) → Prop
  | start : Rounds g bound m exprs m exprs
  | round : Rounds g bound m exprs m₁ current →
    findOverDegreeIndices g bound current 0 m₁.cachedDegree = (i :: indices, cache) →
    Searches g (m₁.setCache cache) m₂ → (∀ e ∈ current', e ∈ m₂.built) →
    Rounds g bound m exprs m₂ current'

/-- Any calls, with reductions by the getters `P` only. A reduction ends at the limit of its
eliminations, or in a round that eliminates nothing. -/
inductive History (P : (M → Int) → Prop) : Memory M → Prop
  | empty : History P .empty
  | new (h : m.New e) : History P m → History P (m.add e h)
  | degree : History P m → e ∈ m.built → History P (m.setCache (degree g e m.cachedDegree).2)
  | reduce : History P m → P g → (∀ e ∈ exprs, e ∈ m.built) → Rounds g bound m exprs m₁ current →
    m' = m₁ ∨ Searches g
      (m₁.setCache (findOverDegreeIndices g bound current 0 m₁.cachedDegree).2) m' →
    History P m'

-- Caches under one getter

section
variable {m m' : Memory M} {g : M → Int}

theorem Memory.Sound.update (he : e ∈ m.built) (h : m.Sound g cache) :
    m.Sound g (update cache e.ptr (some (degreeOf g e))) := by
  intro e' he' d hd
  by_cases hptr : e'.ptr = e.ptr
  · rw [hptr, update_self] at hd
    rw [m.unique e' he' e he hptr, Option.some.inj hd]
  · rw [update_of_ne hptr] at hd
    exact h e' he' d hd

theorem Memory.Sound.add (hnew : m.New e) (h : m.Sound g m.cachedDegree) :
    (m.add e hnew).Sound g (m.add e hnew).cachedDegree := by
  rintro e' (_ | ⟨_, he'⟩) d hd
  · simp [Memory.add] at hd
  · exact h e' he' d ((update_of_ne (hnew.fresh e' he') ..).symm.trans hd)

mutual

theorem degreeKeepCache_sound (e : Expression M) (cache : Cache) (he : e ∈ m.built)
    (h : m.Sound g cache) : (degreeKeepCache g e cache).1 = degreeOf g e ∧
      m.Sound g (degreeKeepCache g e cache).2 := by
  rw [degreeKeepCache.eq_def]
  split
  · rename_i d hc
    exact ⟨h e he d hc, h⟩
  · cases e with
    | constant ptr => exact ⟨rfl, h⟩
    | «variable» ptr metadata => exact ⟨rfl, h.update he⟩
    | apply ptr operator children =>
      obtain ⟨hds, hs⟩ := degreesKeepCache_sound children cache (m.closed _ he) h
      simp only [hds]
      exact ⟨rfl, hs.update he⟩

theorem degreesKeepCache_sound (l : List (Expression M)) (cache : Cache)
    (hl : ∀ e ∈ l, e ∈ m.built) (h : m.Sound g cache) :
    (degreesKeepCache g l cache).1 = degreesOf g l ∧ m.Sound g (degreesKeepCache g l cache).2 := by
  cases l with
  | nil => exact ⟨rfl, h⟩
  | cons e l =>
    obtain ⟨hd, hs⟩ := degreeKeepCache_sound e cache (hl e (.head _)) h
    obtain ⟨hds, hs'⟩ := degreesKeepCache_sound l _ (fun e he => hl e (.tail _ he)) hs
    simp only [degreesKeepCache, degreesOf, hd, hds]
    exact ⟨trivial, hs'⟩

end

theorem findOverDegreeIndices_sound (bound : Int) (i : Nat) (cache : Cache)
    (hl : ∀ e ∈ exprs, e ∈ m.built) (h : m.Sound g cache) :
    (findOverDegreeIndices g bound exprs i cache).1 = overDegree g bound exprs i ∧
      m.Sound g (findOverDegreeIndices g bound exprs i cache).2 := by
  induction exprs generalizing i cache with
  | nil => exact ⟨rfl, h⟩
  | cons e exprs ih =>
    obtain ⟨hd, hs⟩ := degreeKeepCache_sound e cache (hl e (.head _)) h
    obtain ⟨hindices, hs'⟩ := ih (i + 1) _ (fun e he => hl e (.tail _ he)) hs
    refine ⟨?_, hs'⟩
    simp only [findOverDegreeIndices, hd, hindices, overDegree, List.zipIdx_cons]
    split <;> simp_all

theorem Searches.sound (hs : Searches g m m') (h : m.Sound g m.cachedDegree) :
    m'.Sound g m'.cachedDegree := by
  induction hs with
  | start => exact h
  | degree _ he ih => exact (degreeKeepCache_sound _ _ he ih).2
  | new hnew _ ih => exact ih.add hnew

theorem Rounds.sound (hr : Rounds g bound m exprs m' current) (he : ∀ e ∈ exprs, e ∈ m.built)
    (h : m.Sound g m.cachedDegree) :
    (∀ e ∈ current, e ∈ m'.built) ∧ m'.Sound g m'.cachedDegree := by
  induction hr with
  | start => exact ⟨he, h⟩
  | round _ hf hs he' ih =>
    have hfound := (findOverDegreeIndices_sound bound 0 _ ih.1 ih.2).2
    rw [hf] at hfound
    exact ⟨he', hs.sound hfound⟩

-- A degree leaves no cache behind

mutual

/-- An address is one of the expression, which is then cleared, or it is not touched. -/
theorem address_cases (g : M → Int) (e : Expression M) (p : Nat) :
    (∀ c, uncacheDegree e c p = none) ∨
      ∀ c, uncacheDegree e c p = c p ∧ (degreeKeepCache g e c).2 p = c p := by
  by_cases hp : p = e.ptr
  · left
    cases e <;> simp_all [uncacheDegree, Expression.ptr]
  · cases e with
    | apply ptr operator children =>
      change p ≠ ptr at hp
      rcases addresses_cases g children p with h | h
      · simp [uncacheDegree, hp, h]
      · refine .inr fun c => ?_
        rw [degreeKeepCache.eq_def]
        split <;> simp [uncacheDegree, hp, h]
    | _ ptr =>
      change p ≠ ptr at hp
      refine .inr fun c => ?_
      rw [degreeKeepCache.eq_def]
      split <;> simp [uncacheDegree, hp]

theorem addresses_cases (g : M → Int) (l : List (Expression M)) (p : Nat) :
    (∀ c, uncacheDegrees l c p = none) ∨
      ∀ c, uncacheDegrees l c p = c p ∧ (degreesKeepCache g l c).2 p = c p := by
  cases l with
  | nil => exact .inr fun c => ⟨rfl, rfl⟩
  | cons e l =>
    rcases address_cases g e p with he | he <;> rcases addresses_cases g l p with hl | hl
    all_goals simp [uncacheDegrees, degreesKeepCache, he, hl]

end

theorem History.sound (h : History (· = g) m) : m.Sound g m.cachedDegree := by
  induction h with
  | empty => nofun
  | new hnew _ ih => exact ih.add hnew
  | degree _ _ ih =>
    intro e he d hd
    rename_i e' g' _ _
    rcases address_cases g' e' e.ptr with hc | hc
    · cases (hc _).symm.trans hd
    · exact ih e he d ((hc _).2.symm.trans ((hc _).1.symm.trans hd))
  | reduce _ hg he hr hend ih =>
    cases hg
    obtain ⟨he', hs⟩ := hr.sound he ih
    rcases hend with rfl | hend
    · exact hs
    · exact hend.sound (findOverDegreeIndices_sound _ 0 _ he' hs).2

end

/-- When all reductions so far used the getter, `Degree` gives the degree, and a reduction takes the
expressions for over-degree that are. -/
theorem degree_history (h : History (· = g) m) :
    (∀ e ∈ m.built, (degree g e m.cachedDegree).1 = degreeOf g e) ∧
    ∀ bound exprs, (∀ e ∈ exprs, e ∈ m.built) → ∀ m' current,
      Rounds g bound m exprs m' current →
      (findOverDegreeIndices g bound current 0 m'.cachedDegree).1 =
        overDegree g bound current 0 := by
  refine ⟨fun e he => (degreeKeepCache_sound e _ he h.sound).1, ?_⟩
  intro bound exprs he m' current hr
  obtain ⟨he', hs⟩ := hr.sound he h.sound
  exact (findOverDegreeIndices_sound bound 0 _ he' hs).1

theorem oneVariable_new : Memory.empty.New (.variable 0 ()) := ⟨nofun, nofun⟩

def oneVariable : Memory Unit := .add .empty _ oneVariable_new

/-- The three operands are one variable. -/
def cube : Expression Unit :=
  .apply 1 (.product [1, 1, 1]) [.variable 0 (), .variable 0 (), .variable 0 ()]

theorem cube_new : oneVariable.New cube := by
  constructor <;> simp [oneVariable, Memory.add, Memory.empty, cube, Expression.ptr,
    Expression.children]

/-- Its degree is asked for with another getter, and a reduction replaces it by the variable. -/
theorem degree_history_cube : ∃ m : Memory Unit, History (· = fun _ => 1) m ∧
    (degree (fun _ => 1) cube m.cachedDegree).1 = 3 ∧
    (findOverDegreeIndices (fun _ => 1) 2 [.variable 0 (), cube] 0 m.cachedDegree).1 = [1] := by
  have hbuilt : ∀ e ∈ [.variable 0 (), cube], e ∈ (oneVariable.add cube cube_new).built := by
    simp [oneVariable, Memory.add]
  have hasked := History.degree (P := (· = fun _ => 1)) (g := fun _ => 5)
    (.new cube_new (.new oneVariable_new .empty)) (hbuilt cube (by simp))
  have h := hasked.reduce rfl (fun e he => hbuilt e (by simp_all))
    (.round .start (rfl : findOverDegreeIndices _ 2 [cube] _ _ = _) .start
      fun e (he : e ∈ [.variable 0 ()]) => hbuilt e (by simp_all)) (.inl rfl)
  obtain ⟨hdegree, hover⟩ := degree_history h
  exact ⟨_, h, hdegree cube (hbuilt cube (by simp)), hover 2 _ hbuilt _ _ .start⟩

/-- The variable after a reduction that finds it within the bound. -/
def reducedVariable (g : Unit → Int) : Memory Unit :=
  oneVariable.setCache
    (findOverDegreeIndices g 2 [.variable 0 ()] 0 oneVariable.cachedDegree).2

theorem reducedVariable_history (hg : P g) :
    History P (reducedVariable g) := by
  have hrounds := @Rounds.start Unit g 2 oneVariable [.variable 0 ()]
  exact .reduce (.new oneVariable_new .empty) hg (fun e he => he) hrounds (.inr .start)

theorem degree_stale :
    History (fun _ => True) (reducedVariable fun _ => 1) ∧
    (degree (fun _ => 5) (.variable 0 ()) (reducedVariable fun _ => 1).cachedDegree).1 = 1 ∧
    (findOverDegreeIndices (fun _ => 5) 2 [.variable 0 ()] 0
      (reducedVariable fun _ => 1).cachedDegree).1 = [] ∧
    degreeOf (fun _ => 5) (.variable 0 ()) = 5 ∧
    overDegree (fun _ => 5) 2 [.variable 0 ()] 0 = [0] :=
  ⟨reducedVariable_history trivial, by decide +kernel⟩

end StatusNetwork.Symbolic
