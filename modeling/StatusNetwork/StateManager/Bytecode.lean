import Mathlib.Data.List.InsertIdx
import StatusNetwork.Base.Control

/-!
# Formatting contract bytecode

Models `contract_bytecode_hashing.go`. Two bytes of the code make a limb of four bytes. If the code
has an odd length, the first limb of its last block of eight has a single byte; the formatted code
is therefore that of the code with a zero byte before its last block.
-/

namespace StatusNetwork.StateManager

inductive BytecodePanic
  | indexOutOfRange
  | lengthNotMultipleOfFour
  deriving DecidableEq

def nextMultipleOf (n multiple : Nat) : Nat := multiple * ((n + multiple - 1) / multiple)

def numLimbPerBlock : Nat := 8

def byteAt (bytes : List UInt8) (i : Nat) : Except BytecodePanic UInt8 :=
  match bytes[i]? with
  | some b => .ok b
  | none => .error .indexOutOfRange

/-- The loop body, which appends the bytes from `4 * limb` on. -/
def formatLimb (contractCode : List UInt8) (limbCount : Nat) (state : List UInt8 × Nat)
    (limb : Nat) : Except BytecodePanic (List UInt8 × Nat) := do
  let src := 2 * limb - state.2
  if contractCode.length % 2 > 0 ∧ limb % numLimbPerBlock = 0 ∧
      limbCount - limb ≤ numLimbPerBlock then
    let b ← byteAt contractCode src
    .ok (state.1 ++ [0, 0, 0, b], 1)
  else
    let b ← byteAt contractCode src
    let c ← byteAt contractCode (src + 1)
    .ok (state.1 ++ [0, 0, b, c], state.2)

def formatContractBytecodeForHashing (contractCode : List UInt8) :
    Except BytecodePanic (List UInt8) := do
  let paddedSize := nextMultipleOf contractCode.length 2
  let limbCount := paddedSize / 2
  let (res, _) ← (List.range limbCount).foldlM (formatLimb contractCode limbCount) ([], 0)
  .ok res

def unformatLimb (formattedCode : List UInt8) (numLimbs : Nat) (res : List UInt8) (i : Nat) :
    Except BytecodePanic (List UInt8) := do
  let b ← byteAt formattedCode (4 * i + 2)
  let c ← byteAt formattedCode (4 * i + 3)
  if i % 8 = 0 ∧ numLimbs - i < 8 ∧ b = 0 then .ok (res ++ [c]) else .ok (res ++ [b, c])

def unformatContractBytecodeUnsafe (formattedCode : List UInt8) :
    Except BytecodePanic (List UInt8) := do
  failIf (formattedCode.length % 4 ≠ 0) .lengthNotMultipleOfFour
  let numLimbs := formattedCode.length / 4
  (List.range numLimbs).foldlM (unformatLimb formattedCode numLimbs) []

-- The formatted code

/-- Where the last block of sixteen bytes starts. -/
def lastBlock (code : List UInt8) : Nat := 16 * ((code.length - 1) / 16)

def padded (code : List UInt8) : List UInt8 :=
  if code.length % 2 = 0 then code else code.insertIdx (lastBlock code) 0

/-- Each two bytes as a limb. -/
def widen : List UInt8 → List UInt8
  | b :: c :: rest => 0 :: 0 :: b :: c :: widen rest
  | _ => []

def limbValue (bytes : List UInt8) (i : Nat) : Nat :=
  ((bytes.drop (4 * i)).take 4).foldl (fun v b => 256 * v + b.toNat) 0

theorem byteAt_ok (h : bytes[i]? = some b) : byteAt bytes i = .ok b := by
  simp [byteAt, h]

theorem length_padded (code : List UInt8) :
    (padded code).length = 2 * (nextMultipleOf code.length 2 / 2) := by
  unfold padded nextMultipleOf
  split
  · omega
  · rw [List.length_insertIdx_of_le_length (by unfold lastBlock; omega)]
    omega

theorem widen_append (h : l.length % 2 = 0) (l' : List UInt8) :
    widen (l ++ l') = widen l ++ widen l' := by
  fun_induction widen l with
  | case1 b c rest ih =>
    simp only [List.cons_append, widen]
    rw [ih (by simp at h; omega)]
  | case2 l hl =>
    match l, hl, h with
    | [], _, _ => rfl
    | [_], _, h => simp at h
    | b :: c :: rest, hl, _ => exact (hl b c rest rfl).elim

theorem length_widen (h : l.length % 2 = 0) : (widen l).length = 2 * l.length := by
  fun_induction widen l with
  | case1 b c rest ih =>
    simp only [List.length_cons] at h ⊢
    omega
  | case2 l hl =>
    match l, hl, h with
    | [], _, _ => rfl
    | [_], _, h => simp at h
    | b :: c :: rest, hl, _ => exact (hl b c rest rfl).elim

/-- A limb of the formatted code is two zero bytes and two of the bytes it was made of. -/
theorem widen_limb (hx : l[2 * i]? = some x) (hy : l[2 * i + 1]? = some y) :
    ((widen l).drop (4 * i)).take 4 = [0, 0, x, y] := by
  induction i generalizing l with
  | zero =>
    match l, hx, hy with
    | b :: c :: rest, hx, hy =>
      cases hx
      cases hy
      simp [widen]
  | succ i ih =>
    match l, hx, hy with
    | b :: c :: rest, hx, hy => simpa [widen, Nat.mul_add] using ih hx hy

theorem take_two {l : List UInt8} (hx : l[2 * k]? = some x) (hy : l[2 * k + 1]? = some y) :
    l.take (2 * (k + 1)) = l.take (2 * k) ++ [x, y] := by
  change l.take (2 * k + 1 + 1) = _
  rw [List.take_add_one, List.take_add_one, hx, hy]
  simp

theorem padded_odd (h : code.length % 2 = 1) (i : Nat) :
    (padded code)[i]? = if i < lastBlock code then code[i]?
      else if i = lastBlock code then some 0 else code[i - 1]? := by
  rw [padded, if_neg (by omega), List.getElem?_insertIdx]
  split
  · rfl
  · split
    · rw [if_pos (by unfold lastBlock at *; omega)]
    · rfl

abbrev Single (code : List UInt8) (limbCount limb : Nat) : Prop :=
  code.length % 2 > 0 ∧ limb % numLimbPerBlock = 0 ∧ limbCount - limb ≤ numLimbPerBlock

theorem formatLimb_single (h : Single code m k) (hx : code[2 * k - offset]? = some x) :
    formatLimb code m (res, offset) k = .ok (res ++ [0, 0, 0, x], 1) := by
  simp only [formatLimb]
  rw [if_pos h, byteAt_ok hx, ok_bind]

theorem formatLimb_pair (h : ¬ Single code m k) (hx : code[2 * k - offset]? = some x)
    (hy : code[2 * k - offset + 1]? = some y) :
    formatLimb code m (res, offset) k = .ok (res ++ [0, 0, x, y], offset) := by
  simp only [formatLimb]
  rw [if_neg h, byteAt_ok hx, ok_bind, byteAt_ok hy, ok_bind]

/-- By how much the bytes are late at a limb. -/
def offsetAt (code : List UInt8) (k : Nat) : Nat :=
  if code.length % 2 = 1 ∧ lastBlock code < 2 * k then 1 else 0

theorem formatLimb_ok (hk : k < nextMultipleOf code.length 2 / 2)
    (hx : (padded code)[2 * k]? = some x) (hy : (padded code)[2 * k + 1]? = some y) :
    formatLimb code (nextMultipleOf code.length 2 / 2) (res, offsetAt code k) k =
      .ok (res ++ [0, 0, x, y], offsetAt code (k + 1)) := by
  have hsingle : Single code (nextMultipleOf code.length 2 / 2) k ↔
      code.length % 2 = 1 ∧ 2 * k = lastBlock code := by
    unfold Single nextMultipleOf lastBlock numLimbPerBlock
    unfold nextMultipleOf at hk
    omega
  have hdiv : lastBlock code % 2 = 0 := by
    unfold lastBlock
    omega
  rcases Nat.mod_two_eq_zero_or_one code.length with heven | hodd
  · have hoffset (i : Nat) : offsetAt code i = 0 := if_neg (by omega)
    rw [padded, if_pos heven] at hx hy
    rw [hoffset, hoffset]
    exact formatLimb_pair (mt hsingle.mp (by omega)) hx hy
  · rw [padded_odd hodd] at hx hy
    rcases Nat.lt_trichotomy (2 * k) (lastBlock code) with hlt | heq | hgt
    · rw [if_pos hlt] at hx
      rw [if_pos (by omega)] at hy
      rw [offsetAt, offsetAt, if_neg (by omega), if_neg (by omega)]
      exact formatLimb_pair (mt hsingle.mp (by omega)) hx hy
    · rw [if_neg (by omega), if_pos heq] at hx
      rw [if_neg (by omega), if_neg (by omega)] at hy
      cases hx
      rw [offsetAt, offsetAt, if_neg (by omega), if_pos (by omega)]
      exact formatLimb_single (hsingle.mpr ⟨hodd, heq⟩) hy
    · rw [if_neg (by omega), if_neg (by omega)] at hx hy
      rw [offsetAt, offsetAt, if_pos (by omega), if_pos (by omega)]
      refine formatLimb_pair (mt hsingle.mp (by omega)) hx ?_
      rwa [Nat.sub_add_cancel (by omega)]

theorem format_ok (code : List UInt8) :
    formatContractBytecodeForHashing code = .ok (widen (padded code)) := by
  obtain ⟨_, hloop, rfl⟩ := Except.foldlM_range_succeeds (n := nextMultipleOf code.length 2 / 2)
    (b := ([], 0))
    (fun k state => state = (widen ((padded code).take (2 * k)), offsetAt code k))
    (by simp [widen, offsetAt]) (by
      rintro k _ hk rfl
      have hlen := length_padded code
      have hx := List.getElem?_eq_getElem (l := padded code) (i := 2 * k) (by omega)
      have hy := List.getElem?_eq_getElem (l := padded code) (i := 2 * k + 1) (by omega)
      refine ⟨_, formatLimb_ok hk hx hy, ?_⟩
      rw [take_two hx hy, widen_append (by simp; omega)]
      rfl)
  rw [formatContractBytecodeForHashing, hloop, ok_bind, ← length_padded, List.take_length]

-- Back to the code

theorem unformatLimb_ok (hx : l[2 * k]? = some x) (hy : l[2 * k + 1]? = some y) :
    unformatLimb (widen l) m res k =
      .ok (res ++ if k % 8 = 0 ∧ m - k < 8 ∧ x = 0 then [y] else [x, y]) := by
  have hlimb := widen_limb hx hy
  have hb : (widen l)[4 * k + 2]? = some x := by
    rw [← List.getElem?_drop, ← List.getElem?_take_of_lt (j := 4) (by decide), hlimb]
    rfl
  have hc : (widen l)[4 * k + 3]? = some y := by
    rw [← List.getElem?_drop, ← List.getElem?_take_of_lt (j := 4) (by decide), hlimb]
    rfl
  rw [unformatLimb, byteAt_ok hb, byteAt_ok hc, ok_bind]
  split <;> rfl

/-- Where the last block starts, if it is not full. -/
def openBlock (l : List UInt8) : Nat := 16 * (l.length / 16)

/-- The decoder leaves out the first byte of a last block that is not full. -/
def Dropped (l : List UInt8) : Prop := l.length % 16 ≠ 0 ∧ l[openBlock l]? = some 0

instance : Decidable (Dropped l) := inferInstanceAs (Decidable (_ ∧ _))

def decoded (l : List UInt8) (k : Nat) : List UInt8 :=
  if Dropped l then (l.take (2 * k)).eraseIdx (openBlock l) else l.take (2 * k)

theorem decoded_succ (hlen : l.length % 2 = 0) (hx : l[2 * k]? = some x)
    (hy : l[2 * k + 1]? = some y) : decoded l (k + 1) = decoded l k ++
      if k % 8 = 0 ∧ l.length / 2 - k < 8 ∧ x = 0 then [y] else [x, y] := by
  obtain ⟨hk, -⟩ := List.getElem?_eq_some_iff.mp hx
  have htake : (l.take (2 * k)).length = 2 * k := by simp; omega
  have hblock : k % 8 = 0 ∧ l.length / 2 - k < 8 ↔ 2 * k = openBlock l ∧ l.length % 16 ≠ 0 := by
    unfold openBlock
    omega
  rw [decoded, decoded, take_two hx hy]
  by_cases hdropped : Dropped l
  · rw [if_pos hdropped, if_pos hdropped]
    rcases Nat.lt_trichotomy (2 * k) (openBlock l) with hlt | heq | hgt
    · rw [if_neg (by omega), List.eraseIdx_of_length_le (by simp; unfold openBlock at *; omega),
        List.eraseIdx_of_length_le (by omega)]
    · obtain ⟨hne, hzero⟩ := hdropped
      rw [heq, hzero] at hx
      cases hx
      obtain ⟨hfirst, hopen⟩ := hblock.mpr ⟨heq, hne⟩
      have hkeep : (l.take (2 * k)).eraseIdx (openBlock l) = l.take (2 * k) :=
        List.eraseIdx_of_length_le (by omega)
      rw [if_pos ⟨hfirst, hopen, rfl⟩, hkeep, List.eraseIdx_append_of_length_le (by omega), htake,
        ← heq, Nat.sub_self]
      rfl
    · rw [if_neg (by omega), List.eraseIdx_append_of_lt_length (by omega)]
  · rw [if_neg hdropped, if_neg hdropped, if_neg]
    rintro ⟨hfirst, hopen, rfl⟩
    obtain ⟨heq, hne⟩ := hblock.mp ⟨hfirst, hopen⟩
    exact hdropped ⟨hne, heq ▸ hx⟩

theorem unformat_ok (hlen : l.length % 2 = 0) :
    unformatContractBytecodeUnsafe (widen l) =
      .ok (if Dropped l then l.eraseIdx (openBlock l) else l) := by
  have hwiden := length_widen hlen
  have hm : (widen l).length / 4 = l.length / 2 := by omega
  obtain ⟨_, hloop, rfl⟩ := Except.foldlM_range_succeeds (n := l.length / 2)
    (b := []) (fun k res => res = decoded l k)
    (by simp [decoded]) (by
      rintro k _ hk rfl
      have hx := List.getElem?_eq_getElem (l := l) (i := 2 * k) (by omega)
      have hy := List.getElem?_eq_getElem (l := l) (i := 2 * k + 1) (by omega)
      exact ⟨_, unformatLimb_ok hx hy, (decoded_succ hlen hx hy).symm⟩)
  rw [unformatContractBytecodeUnsafe, failIf_neg (by omega), ok_bind, hm, hloop,
    decoded, show 2 * (l.length / 2) = l.length by omega, List.take_length]

-- Main result

theorem even_padded (code : List UInt8) : (padded code).length % 2 = 0 := by
  rw [length_padded]
  omega

theorem widen_injective : ∀ {l l' : List UInt8}, l.length % 2 = 0 → l'.length % 2 = 0 →
    widen l = widen l' → l = l'
  | [], [], _, _, _ => rfl
  | [], [_], _, h, _ | [_], _, h, _, _ => by simp at h
  | [], _ :: _ :: _, _, _, h | _ :: _ :: _, [], _, _, h => by simp [widen] at h
  | _ :: _ :: _, [_], _, h, _ => by simp at h
  | _ :: _ :: rest, _ :: _ :: rest', hl, hl', h => by
    simp only [widen, List.cons.injEq, true_and] at h
    obtain ⟨rfl, rfl, h⟩ := h
    simp only [List.length_cons] at hl hl'
    rw [widen_injective (by omega) (by omega) h]

theorem padded_injective (hlen : code.length = code'.length) (h : padded code = padded code') :
    code = code' := by
  unfold padded lastBlock at h
  rw [← hlen] at h
  split at h
  · exact h
  · exact List.insertIdx_injective _ _ h

theorem limbValue_widen (hx : l[2 * i]? = some x) (hy : l[2 * i + 1]? = some y) :
    limbValue (widen l) i < 2 ^ 16 := by
  rw [limbValue, widen_limb hx hy]
  have := x.toNat_lt
  have := y.toNat_lt
  simp
  omega

theorem unformat_format (hblock : code.length % 2 = 1 ∨ code[lastBlock code]? ≠ some 0) :
    unformatContractBytecodeUnsafe (widen (padded code)) = .ok code ↔ code.length % 16 ≠ 15 := by
  rw [unformat_ok (even_padded code)]
  rcases Nat.mod_two_eq_zero_or_one code.length with heven | hodd
  · have hkept : ¬ Dropped code := by
      rintro ⟨hopen, hzero⟩
      have hstart : openBlock code = lastBlock code := by
        unfold openBlock lastBlock
        omega
      rw [hstart] at hzero
      simp [heven, hzero] at hblock
    rw [padded, if_pos heven, if_neg hkept]
    exact iff_of_true rfl (by omega)
  · have hlength : (padded code).length = code.length + 1 := by
      rw [length_padded, nextMultipleOf]
      omega
    by_cases hfull : code.length % 16 = 15
    · -- the padding byte makes the last block full, and stays
      have hkept : ¬ Dropped (padded code) := fun h => h.1 (by omega)
      rw [if_neg hkept]
      refine iff_of_false (fun h => ?_) (not_not.mpr hfull)
      rw [Except.ok.inj h] at hlength
      omega
    · have hstart : openBlock (padded code) = lastBlock code := by
        rw [openBlock, lastBlock]
        omega
      have hdropped : Dropped (padded code) := by
        refine ⟨by omega, ?_⟩
        rw [hstart, padded_odd hodd]
        simp
      rw [if_pos hdropped, hstart, padded, if_neg (by omega), List.eraseIdx_insertIdx_self]
      exact iff_of_true rfl hfull

/-- The code is formatted without an index out of range into limbs of sixteen bits, differently from
any other code of its length. If the length is odd or the last block shows that it is even, the code
is read back unless the length is one less than a multiple of sixteen. -/
theorem bytecode_formatting (code : List UInt8) :
    ∃ out, formatContractBytecodeForHashing code = .ok out ∧
      out.length % 4 = 0 ∧ (∀ i, 4 * i < out.length → limbValue out i < 2 ^ 16) ∧
      (∀ code', code'.length = code.length →
        formatContractBytecodeForHashing code' = .ok out → code' = code) ∧
      ((code.length % 2 = 1 ∨ code[lastBlock code]? ≠ some 0) →
        (unformatContractBytecodeUnsafe out = .ok code ↔ code.length % 16 ≠ 15)) := by
  have heven := even_padded code
  have hlen := length_widen heven
  refine ⟨_, format_ok code, by omega, fun i hi => ?_, fun code' hcode' h => ?_, unformat_format⟩
  · exact limbValue_widen (List.getElem?_eq_getElem (by omega))
      (List.getElem?_eq_getElem (by omega))
  · rw [format_ok, Except.ok.injEq] at h
    exact padded_injective hcode' (widen_injective (even_padded code') heven h)

theorem bytecode_formatting_odd :
    unformatContractBytecodeUnsafe [0, 0, 0, 1, 0, 0, 2, 3] = .ok [1, 2, 3] := by
  obtain ⟨out, hout, -, -, -, hback⟩ := bytecode_formatting [1, 2, 3]
  cases (rfl : formatContractBytecodeForHashing [1, 2, 3] = .ok _).symm.trans hout
  exact (hback (.inl rfl)).mpr (by decide)

/-- Fifteen bytes come back with a zero byte before them. -/
theorem fifteen_bytes_not_unformatted :
    ∃ code out, code.length = 15 ∧ formatContractBytecodeForHashing code = .ok out ∧
      unformatContractBytecodeUnsafe out = .ok (0 :: code) :=
  ⟨List.replicate 15 1, _, rfl, rfl, by decide +kernel⟩

end StatusNetwork.StateManager
