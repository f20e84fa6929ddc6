import Mathlib.Algebra.Ring.Nat
import Mathlib.Data.List.Forall2
import Mathlib.Data.List.Lex
import Mathlib.Order.Fin.Basic

/-!
# Field octuplets and what is written to the hasher

Models `utils/types`: koalabear octuplets with their big-endian comparison,
and the `WriteTo` methods, which write whole field elements. A written object
is kept as the list of its elements; every 16-bit group of a byte string takes
one element of its own, so all these formats are injective.
-/

namespace StatusNetwork.Prover

/-- The koalabear modulus, `2^31 - 2^24 + 1`. -/
abbrev modulus : Nat := 2130706433

instance : NeZero modulus := ⟨by decide⟩

abbrev Element := Fin modulus

structure KoalaOctuplet where
  limbs : Vector Element 8
  deriving DecidableEq

namespace KoalaOctuplet

def toList (e : KoalaOctuplet) : List Element := e.limbs.toList

def ofList (l : List Element) : KoalaOctuplet := ⟨.ofFn fun i => l.getD i 0⟩

def zero : KoalaOctuplet := ⟨.replicate 8 0⟩

instance : Zero KoalaOctuplet := ⟨zero⟩
instance : Inhabited KoalaOctuplet := ⟨zero⟩

/-- `MaxKoalaOctuplet`: every limb is `-1`. -/
def max : KoalaOctuplet := ⟨.replicate 8 (-1)⟩

def cmpLimbs : List Element → List Element → Ordering
  | x :: xs, y :: ys =>
    match compare x y with
    | .eq => cmpLimbs xs ys
    | r => r
  | _, _ => .eq

/-- `Cmp`: the first differing limb decides. -/
def cmp (e other : KoalaOctuplet) : Ordering := cmpLimbs e.toList other.toList

@[simp] theorem length_toList (e : KoalaOctuplet) : e.toList.length = 8 := by
  simp [toList]

theorem toList_injective : Function.Injective toList := by
  rintro ⟨a⟩ ⟨b⟩ h
  exact congrArg mk (Vector.toList_inj.mp h)

instance : LinearOrder KoalaOctuplet := LinearOrder.lift' toList toList_injective

theorem cmpLimbs_lt (h : xs.length = ys.length) : cmpLimbs xs ys = .lt ↔ xs < ys := by
  induction xs generalizing ys with
  | nil => cases ys <;> simp_all [cmpLimbs]
  | cons x xs ih =>
    cases ys with
    | nil => simp at h
    | cons y ys =>
      have ih := @ih ys (by simpa using h)
      simp only [cmpLimbs, List.cons_lt_cons_iff]
      rcases lt_trichotomy x y with hxy | rfl | hxy
      · simp [compare_lt_iff_lt.mpr hxy, hxy]
      · simp [ih]
      · simp [compare_gt_iff_gt.mpr hxy, hxy.not_gt, hxy.ne']

theorem cmpLimbs_swap (xs ys : List Element) : (cmpLimbs xs ys).swap = cmpLimbs ys xs := by
  induction xs generalizing ys with
  | nil => cases ys <;> rfl
  | cons x xs ih =>
    cases ys with
    | nil => rfl
    | cons y ys =>
      simp only [cmpLimbs]
      rcases lt_trichotomy x y with hxy | rfl | hxy
      · simp [compare_lt_iff_lt.mpr hxy, compare_gt_iff_gt.mpr hxy]
      · simp [ih]
      · simp [compare_lt_iff_lt.mpr hxy, compare_gt_iff_gt.mpr hxy]

theorem cmp_lt_iff {a b : KoalaOctuplet} : a.cmp b = .lt ↔ a < b :=
  cmpLimbs_lt (by simp)

theorem cmp_gt_iff {a b : KoalaOctuplet} : a.cmp b = .gt ↔ b < a := by
  rw [← cmp_lt_iff, cmp, cmp, ← cmpLimbs_swap b.toList, Ordering.swap_eq_gt]

theorem le_of_forall₂ {xs ys : List Element} (h : List.Forall₂ (· ≤ ·) xs ys) : xs ≤ ys := by
  induction h with
  | nil => exact le_rfl
  | cons hxy _ ih =>
    rcases hxy.lt_or_eq with hlt | rfl
    · exact (List.cons_lt_cons_iff.mpr (.inl hlt)).le
    · exact List.cons_le_cons _ ih

theorem zero_le (e : KoalaOctuplet) : (0 : KoalaOctuplet) ≤ e := by
  change List.replicate 8 0 ≤ e.toList
  refine le_of_forall₂ (List.forall₂_of_length_eq_of_get (by simp) fun i _ _ => ?_)
  rw [List.get_eq_getElem, List.getElem_replicate]
  exact Fin.zero_le _

theorem le_max (e : KoalaOctuplet) : e ≤ max := by
  change e.toList ≤ List.replicate 8 (-1)
  refine le_of_forall₂ (List.forall₂_of_length_eq_of_get (by simp) fun i hi _ => ?_)
  rw [List.get_eq_getElem, List.get_eq_getElem, List.getElem_replicate]
  exact Fin.le_def.mpr (Nat.le_of_lt_succ e.toList[i].isLt)

end KoalaOctuplet

-- Objects that are hashed

/-- The objects with a `WriteTo` method, by the field elements they write. -/
class WriterTo (α : Type) where
  elements : α → List Element
  elements_injective : Function.Injective elements

export WriterTo (elements elements_injective)

instance : WriterTo KoalaOctuplet := ⟨KoalaOctuplet.toList, KoalaOctuplet.toList_injective⟩

/-- `LeftPadded` on a big-endian string of `k` 16-bit groups: one element each. -/
def leftPadded : Nat → Nat → List Element
  | 0, _ => []
  | k + 1, n => leftPadded k (n / 2 ^ 16) ++ [Fin.ofNat modulus (n % 2 ^ 16)]

@[simp] theorem length_leftPadded (k n : Nat) : (leftPadded k n).length = k := by
  induction k generalizing n with
  | zero => rfl
  | succ k ih => simp [leftPadded, ih]

theorem leftPadded_injective (hn : n < 2 ^ (16 * k)) (hm : m < 2 ^ (16 * k))
    (h : leftPadded k n = leftPadded k m) : n = m := by
  induction k generalizing n m with
  | zero => omega
  | succ k ih =>
    obtain ⟨hhi, hlo⟩ := List.append_inj h (by simp)
    have hpow : 2 ^ (16 * (k + 1)) = 2 ^ (16 * k) * 2 ^ 16 := by rw [← Nat.pow_add]; rfl
    have hdiv : n / 2 ^ 16 = m / 2 ^ 16 :=
      ih (by omega) (by omega) hhi
    have hmod : n % 2 ^ 16 = m % 2 ^ 16 := by
      have hsmall (a : Nat) : a % 2 ^ 16 % modulus = a % 2 ^ 16 :=
        Nat.mod_eq_of_lt (show _ < 2130706433 by omega)
      have := congrArg Fin.val (List.singleton_injective hlo)
      simpa only [Fin.ofNat, hsmall] using this
    omega

/-- `WriteInt64On64Bytes`: 48 zero bytes, then the four padded groups. -/
def int64On64Bytes (x : Int64) : List Element :=
  List.replicate 12 0 ++ leftPadded 4 x.toBitVec.toNat

@[simp] theorem length_int64On64Bytes (x : Int64) : (int64On64Bytes x).length = 16 := by
  simp [int64On64Bytes]

theorem int64On64Bytes_injective : Function.Injective int64On64Bytes := by
  intro x y h
  have h := List.append_cancel_left h
  have := leftPadded_injective x.toBitVec.isLt y.toBitVec.isLt h
  exact Int64.toBitVec_inj.mp (BitVec.eq_of_toNat_eq this)

abbrev EthAddress := BitVec 160

abbrev FullBytes32 := BitVec 256

instance : WriterTo EthAddress where
  elements e := leftPadded 10 e.toNat
  elements_injective _ _ h := BitVec.eq_of_toNat_eq
    (leftPadded_injective (BitVec.isLt _) (BitVec.isLt _) h)

instance : WriterTo FullBytes32 where
  elements f := leftPadded 16 f.toNat
  elements_injective _ _ h := BitVec.eq_of_toNat_eq
    (leftPadded_injective (BitVec.isLt _) (BitVec.isLt _) h)

/-- An account; a missing balance is written, and here kept, as zero. -/
structure Account where
  nonce : Int64
  balance : BitVec 256
  storageRoot : KoalaOctuplet
  lineaCodeHash : KoalaOctuplet
  keccakCodeHash : FullBytes32
  codeSize : Int64
  deriving DecidableEq, Inhabited

instance : WriterTo Account where
  elements a := int64On64Bytes a.nonce ++ (elements a.balance ++ (elements a.storageRoot ++
    (elements a.lineaCodeHash ++ (elements a.keccakCodeHash ++ int64On64Bytes a.codeSize))))
  elements_injective := by
    rintro ⟨n, b, s, l, k, c⟩ ⟨n', b', s', l', k', c'⟩ h
    obtain ⟨h1, h⟩ := List.append_inj h (by simp)
    obtain ⟨h2, h⟩ := List.append_inj h (by simp [elements])
    obtain ⟨h3, h⟩ := List.append_inj h (by simp [elements])
    obtain ⟨h4, h⟩ := List.append_inj h (by simp [elements])
    obtain ⟨h5, h6⟩ := List.append_inj h (by simp [elements])
    exact Account.mk.injEq .. ▸ ⟨int64On64Bytes_injective h1, elements_injective h2,
      elements_injective h3, elements_injective h4, elements_injective h5,
      int64On64Bytes_injective h6⟩

end StatusNetwork.Prover
