import StatusNetwork.Base.Digits

/-!
# Packing bytes into field elements

Models `PackAlign`, `PackAlignSize` and `UnpackAlign` of `encode.go`. A field element holds
`packingSize` bits of the data, its first word fewer than the others. The data ends with a terminal
symbol, and what follows it is zero, so that unpacking gives back what was packed.
-/

namespace StatusNetwork.Compressor

open Digits (encode decode decode_lt length_encode)

abbrev Byte := Fin 256

abbrev Bit := Fin 2

abbrev Bytes := List Byte

inductive EncodeError
  | invalidDataLength
  | invalidTerminalSymbol
  /-- A panic: there is no byte that is not zero. -/
  | indexOutOfRange
  | unexpectedEOF
  | inconsistentPackAlignSize
  deriving DecidableEq

-- Bits

def bits (l : Bytes) : List Bit := l.flatMap fun byte => encode 2 8 byte.val

/-- Groups of eight bits, as many as asked for. -/
def toBytes : (n : Nat) → (l : List Bit) → Bytes
  | 0, _ => []
  | n + 1, l => Fin.ofNat 256 (decode (l.take 8)) :: toBytes n (l.drop 8)

/-- What a writer of bits has written when it is closed, which fills the last byte with zeros. -/
def closeWriter (l : List Bit) : Bytes := toBytes ((l.length + 7) / 8) (l ++ List.replicate 7 0)

@[simp] theorem bits_nil : bits [] = [] := rfl

@[simp] theorem bits_cons (byte : Byte) (l : Bytes) :
    bits (byte :: l) = encode 2 8 byte.val ++ bits l := rfl

@[simp] theorem bits_append (l m : Bytes) : bits (l ++ m) = bits l ++ bits m :=
  List.flatMap_append

@[simp] theorem length_bits (l : Bytes) : (bits l).length = 8 * l.length := by
  induction l with
  | nil => rfl
  | cons byte l ih =>
    rw [bits_cons, List.length_append, length_encode, List.length_cons]
    omega

theorem bits_replicate_zero (k : Nat) : bits (List.replicate k 0) = List.replicate (8 * k) 0 := by
  induction k with
  | zero => rfl
  | succ k ih =>
    rw [List.replicate_succ, bits_cons, ih, Nat.mul_succ, Nat.add_comm,
      ← List.replicate_append_replicate]
    rfl

theorem toBytes_bits (l : Bytes) (n : Nat) (r : List Bit) :
    toBytes (l.length + n) (bits l ++ r) = l ++ toBytes n r := by
  induction l with
  | nil => simp
  | cons byte l ih =>
    have hbyte : Fin.ofNat 256 (decode (encode 2 8 byte.val)) = byte := by
      apply Fin.ext
      rw [Digits.decode_encode, Fin.val_ofNat]
      omega
    rw [List.length_cons, Nat.add_right_comm, toBytes, bits_cons, List.append_assoc,
      List.take_left' (length_encode ..), List.drop_left' (length_encode ..), hbyte,
      ih, List.cons_append]

theorem toBytes_replicate_zero (n k : Nat) :
    toBytes n (List.replicate k 0) = List.replicate n 0 := by
  induction n generalizing k with
  | zero => rfl
  | succ n ih =>
    rw [toBytes, List.take_replicate, List.drop_replicate, Digits.decode_replicate_zero, ih]
    rfl

theorem closeWriter_bits (l : Bytes) (k : Nat) :
    closeWriter (bits l ++ List.replicate k 0) = l ++ List.replicate ((k + 7) / 8) 0 := by
  have hlength : ((bits l ++ List.replicate k (0 : Bit)).length + 7) / 8 =
      l.length + (k + 7) / 8 := by
    simp only [List.length_append, length_bits, List.length_replicate]
    omega
  rw [closeWriter, hlength, List.append_assoc, List.replicate_append_replicate, toBytes_bits,
    toBytes_replicate_zero]

-- Packing

structure PackAlignSettings where
  noTerminalSymbol : Bool := false
  additionalInput : List Bytes := []

/-- The number of bits of the data, with the terminal symbol. -/
def PackAlignSettings.dataNbBits (s : PackAlignSettings) (length : Nat) : Nat :=
  (length + (s.additionalInput.map List.length).sum + if s.noTerminalSymbol then 0 else 1) * 8

def bytesPerElem (packingSize : Nat) : Nat := (packingSize + 7) / 8

def packingSizeLastU64 (packingSize : Nat) : Nat :=
  if packingSize % 64 = 0 then 64 else packingSize % 64

def packAlignSize (length0 packingSize : Nat) (s : PackAlignSettings) : Nat :=
  let dataNbBits := s.dataNbBits length0
  let extraBits := (packingSize - dataNbBits % packingSize) % packingSize
  (dataNbBits + extraBits) / packingSize * bytesPerElem packingSize

/-- Reads words of the given numbers of bits and writes each of them as a `uint64`. -/
def packWords : (sizes : List Nat) → (r : List Bit) → Option (Bytes × List Bit)
  | [], r => some ([], r)
  | size :: sizes, r =>
    if size ≤ r.length then
      (packWords sizes (r.drop size)).map fun w =>
        (encode 256 8 (decode (r.take size)) ++ w.1, w.2)
    else none

/-- The numbers of bits of the words that `PackAlign` reads for an element. -/
def packSizes (packingSize : Nat) : List Nat :=
  let last := packingSizeLastU64 packingSize
  last :: List.replicate ((packingSize - last + 63) / 64) 64

def packElems (packingSize : Nat) : (n : Nat) → (r : List Bit) → Option Bytes
  | 0, _ => some []
  | n + 1, r =>
    (packWords (packSizes packingSize) r).bind fun w =>
      (packElems packingSize n w.2).map (w.1 ++ ·)

/-- Returns the length of the data and what was written. -/
def packAlign (a : Bytes) (packingSize : Nat) (s : PackAlignSettings) :
    Except EncodeError (Nat × Bytes) :=
  let dataNbBits := s.dataNbBits a.length
  let nbBits := (dataNbBits + (packingSize - 1)) / packingSize * packingSize
  let extraBits := nbBits - dataNbBits
  let bytePadding := (extraBits + 7) / 8
  let buf : Bytes :=
    (if s.noTerminalSymbol then 0 else 0xff) :: List.replicate (bytesPerElem packingSize) 0
  let r := bits (a ++ s.additionalInput.flatten ++ buf.take (bytePadding + 1))
  match packElems packingSize (nbBits / packingSize) r with
  | none => .error .unexpectedEOF
  | some out =>
    let n1 := nbBits / packingSize * bytesPerElem packingSize
    if n1 ≠ packAlignSize a.length packingSize s then .error .inconsistentPackAlignSize
    else .ok (n1, out)

-- Unpacking

/-- Reads `uint64`s and writes the given numbers of their bits. This is for packing sizes such as
252 and 254, whose elements are whole words: otherwise the source slices the last word beyond the
end of the element. -/
def unpackWords : (sizes : List Nat) → (element : Bytes) → List Bit
  | [], _ => []
  | size :: sizes, element =>
    encode 2 size (decode (element.take 8)) ++ unpackWords sizes (element.drop 8)

/-- The numbers of bits that `UnpackAlign` writes of the words of an element. -/
def unpackSizes (packingSize : Nat) : List Nat :=
  packingSizeLastU64 packingSize ::
    List.replicate ((bytesPerElem packingSize - 8 + 7) / 8) 64

def unpackElems (packingSize : Nat) : (n : Nat) → (r : Bytes) → List Bit
  | 0, _ => []
  | n + 1, r =>
    unpackWords (unpackSizes packingSize) (r.take (bytesPerElem packingSize)) ++
      unpackElems packingSize n (r.drop (bytesPerElem packingSize))

/-- Cuts off the last byte that is not zero and what follows it. -/
def truncateAtTerminalSymbol (out : Bytes) : Except EncodeError Bytes :=
  match out.reverse.dropWhile (· = 0) with
  | [] => .error .indexOutOfRange
  | last :: rest => if last ≠ 0xff then .error .invalidTerminalSymbol else .ok rest.reverse

def unpackAlign (r : Bytes) (packingSize : Nat) (noTerminalSymbol : Bool) :
    Except EncodeError Bytes :=
  let n := r.length / bytesPerElem packingSize
  if n * bytesPerElem packingSize ≠ r.length then .error .invalidDataLength
  else
    let out := closeWriter (unpackElems packingSize n r)
    if noTerminalSymbol then .ok out else truncateAtTerminalSymbol out

-- Unpacking what was packed

theorem packWords_some (h : sizes.sum ≤ r.length) :
    ∃ out, packWords sizes r = some (out, r.drop sizes.sum) := by
  induction sizes generalizing r with
  | nil => exact ⟨[], by simp [packWords]⟩
  | cons size sizes ih =>
    rw [List.sum_cons] at h
    obtain ⟨out, hout⟩ := ih (r := r.drop size) (by rw [List.length_drop]; omega)
    exact ⟨_, by rw [packWords, if_pos (by omega), hout, Option.map_some, List.drop_drop,
      List.sum_cons]⟩

/-- The words of an element hold its bits. -/
theorem unpackWords_packWords (h : packWords sizes r = some (out, r'))
    (hsizes : ∀ size ∈ sizes, size ≤ 64) :
    out.length = 8 * sizes.length ∧ unpackWords sizes out = r.take sizes.sum := by
  induction sizes generalizing r out with
  | nil =>
    simp only [packWords, Option.some.injEq, Prod.mk.injEq] at h
    simp [← h.1, unpackWords]
  | cons size sizes ih =>
    obtain ⟨hsize, h⟩ := Option.ite_none_right_eq_some.mp h
    obtain ⟨⟨tail, _⟩, hw, hout⟩ := Option.map_eq_some_iff.mp h
    obtain ⟨rfl, rfl⟩ := Prod.mk.inj hout
    obtain ⟨hlength, htake⟩ := ih hw fun size hmem => hsizes size (List.mem_cons_of_mem _ hmem)
    have hbits : (r.take size).length = size := List.length_take_of_le hsize
    have hlt : decode (r.take size) < 256 ^ 8 := by
      calc decode (r.take size) < 2 ^ size := by
            simpa only [hbits] using decode_lt (r.take size)
        _ ≤ 2 ^ 64 := Nat.pow_le_pow_right (by decide) (hsizes size List.mem_cons_self)
        _ = 256 ^ 8 := by decide
    have hword : encode 2 size (decode (r.take size)) = r.take size := by
      have hencode := Digits.encode_decode (r.take size)
      rwa [hbits] at hencode
    constructor
    · rw [List.length_append, length_encode, hlength, List.length_cons, Nat.mul_succ, Nat.add_comm]
    · rw [unpackWords, List.take_left' (length_encode ..),
        List.drop_left' (length_encode ..), Digits.decode_encode_of_lt hlt, hword, htake,
        List.sum_cons, List.take_add]

theorem packSizes_ok (hpos : 0 < p) (hp : bytesPerElem p % 8 = 0) :
    unpackSizes p = packSizes p ∧ (packSizes p).sum = p ∧
      bytesPerElem p = 8 * (packSizes p).length ∧ ∀ size ∈ packSizes p, size ≤ 64 := by
  simp only [unpackSizes, packSizes, packingSizeLastU64, bytesPerElem] at hp ⊢
  refine ⟨?_, ?_, ?_, ?_⟩
  · congr 2
    split
    · omega
    · omega
  · rw [List.sum_cons, List.sum_replicate_nat]
    split
    · omega
    · omega
  · rw [List.length_cons, List.length_replicate]
    split
    · omega
    · omega
  · simp only [List.mem_cons, List.mem_replicate]
    rintro size (rfl | ⟨-, rfl⟩)
    · split
      · omega
      · omega
    · omega

theorem unpackElems_packElems (hpos : 0 < p) (hp : bytesPerElem p % 8 = 0) (hr : n * p ≤ r.length) :
    ∃ out, packElems p n r = some out ∧ out.length = n * bytesPerElem p ∧
      unpackElems p n out = r.take (n * p) := by
  obtain ⟨hsizes, hsum, helem, hle⟩ := packSizes_ok hpos hp
  induction n generalizing r with
  | zero => exact ⟨[], rfl, by simp, by simp [unpackElems]⟩
  | succ n ih =>
    rw [Nat.succ_mul] at hr
    have hsum' : (packSizes p).sum ≤ r.length := by omega
    obtain ⟨elem, helem'⟩ := packWords_some hsum'
    obtain ⟨hlength, hunpack⟩ := unpackWords_packWords helem' hle
    rw [hsum] at helem' hunpack
    obtain ⟨out, hout, hn, htake⟩ := ih (r := r.drop p) (by rw [List.length_drop]; omega)
    have helemLength : elem.length = bytesPerElem p := by rw [hlength, helem]
    refine ⟨elem ++ out, ?_, ?_, ?_⟩
    · rw [packElems, helem', Option.bind_some, hout, Option.map_some]
    · rw [List.length_append, hn, helemLength, Nat.succ_mul, Nat.add_comm]
    · rw [unpackElems, List.take_left' helemLength, List.drop_left' helemLength, hsizes, hunpack,
        htake, Nat.succ_mul, Nat.add_comm (n * p), List.take_add]

theorem truncateAtTerminalSymbol_ok (l : Bytes) (k : Nat) :
    truncateAtTerminalSymbol (l ++ 0xff :: List.replicate k 0) = .ok l := by
  rw [truncateAtTerminalSymbol]
  simp

theorem add_extraBits_div (hpos : 0 < p) (d : Nat) :
    (d + (p - d % p) % p) / p = (d + (p - 1)) / p := by
  have hd := Nat.div_add_mod d p
  have hlt := Nat.mod_lt d hpos
  generalize d / p = q at hd
  generalize d % p = m at hd hlt ⊢
  subst hd
  rcases Nat.eq_zero_or_pos m with rfl | hm
  · rw [Nat.sub_zero, Nat.mod_self, Nat.add_zero, Nat.mul_add_div hpos,
      Nat.mul_div_cancel_left q hpos, Nat.div_eq_of_lt (by omega), Nat.add_zero]
  · have hup : p * q + m + (p - m) = p * (q + 1) := by
      rw [Nat.mul_succ]
      omega
    have hdown : p * q + m + (p - 1) = p * (q + 1) + (m - 1) := by
      omega
    rw [Nat.mod_eq_of_lt (by omega), hup, hdown, Nat.mul_div_cancel_left _ hpos,
      Nat.mul_add_div hpos, Nat.div_eq_of_lt (by omega)]

theorem le_roundUp (hpos : 0 < p) (d : Nat) :
    d ≤ (d + (p - 1)) / p * p ∧ (d + (p - 1)) / p * p - d < p := by
  have hle := Nat.div_mul_le_self (d + (p - 1)) p
  have hlt := Nat.lt_div_mul_add (a := d + (p - 1)) hpos
  omega

/-- The data with the terminal symbol and zeros, cut at the end of the last element. -/
theorem take_bits_terminated (data : Bytes) (extra : Nat) :
    (bits (data ++ 0xff :: List.replicate ((extra + 7) / 8) 0)).take
        (8 * (data.length + 1) + extra) = bits (data ++ [0xff]) ++ List.replicate extra 0 := by
  have hlength : (bits (data ++ [0xff])).length = 8 * (data.length + 1) := by
    rw [length_bits, List.length_append, List.length_singleton]
  have hbits : bits (data ++ 0xff :: List.replicate ((extra + 7) / 8) 0) =
      bits (data ++ [0xff]) ++ List.replicate (8 * ((extra + 7) / 8)) 0 := by
    rw [← bits_replicate_zero, ← bits_append, List.append_assoc]
    rfl
  rw [hbits, ← hlength, List.take_length_add_append, List.take_replicate,
    Nat.min_eq_left (by omega)]

theorem packAlign_ok (hpos : 0 < p) (hp : bytesPerElem p % 8 = 0) (a : Bytes) (l : List Bytes) :
    ∃ out, packAlign a p { additionalInput := l } = .ok (out.length, out) ∧
      out.length = packAlignSize a.length p { additionalInput := l } ∧
      unpackAlign out p false = .ok (a ++ l.flatten) := by
  have hdata : PackAlignSettings.dataNbBits { additionalInput := l } a.length =
      8 * ((a ++ l.flatten).length + 1) := by
    simp only [PackAlignSettings.dataNbBits, List.length_append, List.length_flatten,
      Bool.false_eq_true, if_false]
    omega
  generalize hd : PackAlignSettings.dataNbBits { additionalInput := l } a.length = d at hdata
  obtain ⟨hle, hextra⟩ := le_roundUp hpos d
  generalize hn : (d + (p - 1)) / p = n at hle hextra
  generalize hextra' : n * p - d = extra at hextra
  have hnp : n * p = 8 * ((a ++ l.flatten).length + 1) + extra := by omega
  have hbuf : (0xff :: List.replicate (bytesPerElem p) (0 : Byte)).take ((extra + 7) / 8 + 1) =
      0xff :: List.replicate ((extra + 7) / 8) 0 := by
    rw [List.take_succ_cons, List.take_replicate, Nat.min_eq_left]
    rw [bytesPerElem]
    omega
  obtain ⟨out, hout, houtLength, hunpack⟩ := unpackElems_packElems (n := n) hpos hp
    (r := bits (a ++ l.flatten ++ 0xff :: List.replicate ((extra + 7) / 8) 0)) (by
      rw [length_bits, List.length_append, List.length_cons, List.length_replicate]
      omega)
  rw [hnp, take_bits_terminated] at hunpack
  have hsize : packAlignSize a.length p { additionalInput := l } = n * bytesPerElem p := by
    rw [packAlignSize, hd, add_extraBits_div hpos, hn]
  refine ⟨out, ?_, ?_, ?_⟩
  · simp only [packAlign, hd, hn, Nat.mul_div_cancel n hpos, hextra', Bool.false_eq_true, if_false,
      hbuf, hout]
    rw [if_neg (by rw [hsize]; simp), houtLength]
  · rw [houtLength, hsize]
  · have hpos' : 0 < bytesPerElem p := by
      rw [bytesPerElem]
      omega
    rw [unpackAlign, houtLength, Nat.mul_div_cancel n hpos', hunpack,
      closeWriter_bits, if_neg (by simp), List.append_assoc]
    exact truncateAtTerminalSymbol_ok ..

-- Field elements

theorem packWords_lt (h : packWords (size :: List.replicate k 64) r = some (out, r')) :
    decode out < 2 ^ (size + k * 64) := by
  obtain ⟨hsize, h⟩ := Option.ite_none_right_eq_some.mp h
  obtain ⟨⟨tail, _⟩, hw, hout⟩ := Option.map_eq_some_iff.mp h
  obtain ⟨rfl, rfl⟩ := Prod.mk.inj hout
  have hlength : tail.length = 8 * k := by
    have h64 : ∀ size ∈ List.replicate k 64, size ≤ 64 := fun size hmem =>
      Nat.le_of_eq (List.eq_of_mem_replicate hmem)
    rw [(unpackWords_packWords hw h64).1, List.length_replicate]
  have hpow : 256 ^ tail.length = 2 ^ (k * 64) := by
    rw [show 256 = 2 ^ 8 from rfl, ← Nat.pow_mul]
    congr 1
    omega
  have htail : decode tail < 2 ^ (k * 64) := hpow ▸ decode_lt tail
  have hfirst : decode (encode 256 8 (decode (r.take size))) + 1 ≤ 2 ^ size := by
    have hlt := decode_lt (r.take size)
    rw [List.length_take_of_le hsize] at hlt
    rw [Digits.decode_encode]
    exact Nat.lt_of_le_of_lt (Nat.mod_le ..) hlt
  generalize encode 256 8 (decode (r.take size)) = word at hfirst
  rw [Digits.decode_append, hpow, Nat.pow_add]
  calc 2 ^ (k * 64) * decode word + decode tail
      < 2 ^ (k * 64) * decode word + 2 ^ (k * 64) := Nat.add_lt_add_left htail _
    _ = 2 ^ (k * 64) * (decode word + 1) := (Nat.mul_succ ..).symm
    _ ≤ 2 ^ (k * 64) * 2 ^ size := Nat.mul_le_mul_left _ hfirst
    _ = 2 ^ size * 2 ^ (k * 64) := Nat.mul_comm ..

theorem packElems_lt (hpos : 0 < p) (hp : bytesPerElem p % 8 = 0)
    (h : packElems p n r = some out) (i : Nat) (hi : i < n) :
    decode ((out.drop (bytesPerElem p * i)).take (bytesPerElem p)) < 2 ^ p := by
  obtain ⟨-, hsum, helem, hle⟩ := packSizes_ok hpos hp
  induction n generalizing r out i with
  | zero => exact absurd hi (Nat.not_lt_zero i)
  | succ n ih =>
    obtain ⟨⟨elem, r'⟩, hw, hout⟩ := Option.bind_eq_some_iff.mp h
    obtain ⟨rest, hrest, rfl⟩ := Option.map_eq_some_iff.mp hout
    have hlength : elem.length = bytesPerElem p := by
      rw [(unpackWords_packWords hw hle).1, helem]
    cases i with
    | zero =>
      rw [Nat.mul_zero, List.drop_zero, List.take_left' hlength]
      have hlt := packWords_lt hw
      rw [packSizes, List.sum_cons, List.sum_replicate_nat] at hsum
      rwa [hsum] at hlt
    | succ i =>
      rw [Nat.mul_succ, Nat.add_comm, ← List.drop_drop, List.drop_left' hlength]
      exact ih hrest i (Nat.lt_of_succ_lt_succ hi)

/-- Packing into words of 32 bytes: the sizes agree, each word is a field element, and unpacking
gives the data back. -/
theorem pack_align_round_trip (hp : p = 252 ∨ p = 254) (a : Bytes) (additionalInput : List Bytes) :
    ∃ out, packAlign a p { additionalInput } = .ok (out.length, out) ∧
      out.length = packAlignSize a.length p { additionalInput } ∧
      (∀ i, 32 * i < out.length → decode ((out.drop (32 * i)).take 32) < 2 ^ p) ∧
      unpackAlign out p false = .ok (a ++ additionalInput.flatten) := by
  have hpos : 0 < p := by omega
  have helem : bytesPerElem p = 32 := by
    rw [bytesPerElem]
    omega
  have hmod : bytesPerElem p % 8 = 0 := by rw [helem]
  obtain ⟨out, hout, hsize, hunpack⟩ := packAlign_ok hpos hmod a additionalInput
  refine ⟨out, hout, hsize, fun i hi => ?_, hunpack⟩
  simp only [packAlign, Nat.mul_div_cancel _ hpos] at hout
  split at hout
  · cases hout
  · rename_i helems
    split at hout
    · cases hout
    · obtain ⟨hn, rfl⟩ := Prod.mk.inj (Except.ok.inj hout)
      have hlt := packElems_lt hpos hmod helems i (by rw [helem] at hn; omega)
      rwa [helem] at hlt

theorem pack_align_round_trip_two :
    unpackAlign ((packAlign [1, 0] 254 { additionalInput := [[0xff, 0]] }).toOption.elim [] (·.2))
      254 false = .ok [1, 0, 0xff, 0] := by
  obtain ⟨out, hout, -, -, hunpack⟩ := pack_align_round_trip (.inr rfl) [1, 0] [[0xff, 0]]
  rw [hout]
  exact hunpack

end StatusNetwork.Compressor
