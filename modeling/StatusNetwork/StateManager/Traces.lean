import StatusNetwork.Prover.Accumulator

/-!
# Decoded traces

Models `statemanager/types.go` and `worldstate.go`: the traces of the state
manager as `UnmarshalJSON` leaves them. The location picks the trie: `0x` is the
world state, anything else the storage trie of an account. The type code is only
read while decoding, and no check reads `IsSkipped`.
-/

namespace StatusNetwork.StateManager

open Prover

abbrev Digest := KoalaOctuplet
abbrev Address := EthAddress

instance : LawfulBEq Address := inferInstance

def wsLocation : String := "0x"

/-- A trace of the world state or of a storage trie. -/
inductive Underlying
  | ws (t : Trace Address Account)
  | st (t : Trace FullBytes32 FullBytes32)
  deriving DecidableEq

inductive Operation
  | readNonZero
  | readZero
  | insertion
  | update
  | deletion
  deriving DecidableEq

/-- The dynamic type of an underlying trace. -/
inductive TraceKind
  | ws (op : Operation)
  | st (op : Operation)
  deriving DecidableEq

def operation : Trace K V → Operation
  | .readNonZero _ => .readNonZero
  | .readZero _ => .readZero
  | .insertion _ => .insertion
  | .update _ => .update
  | .deletion _ => .deletion

namespace Underlying

def kind : Underlying → TraceKind
  | .ws t => .ws (operation t)
  | .st t => .st (operation t)

def location : Underlying → String
  | .ws t => t.location
  | .st t => t.location

def hKey (compress : Compress) : Underlying → Digest
  | .ws t => t.hKey compress
  | .st t => t.hKey compress

def rwInt : Underlying → Nat
  | .ws t => t.rwInt
  | .st t => t.rwInt

/-- The underlying type `UnmarshalJSON` picks for a location. -/
def Fits (location : String) : Underlying → Prop
  | .ws _ => location = wsLocation
  | .st _ => location ≠ wsLocation

instance (location : String) : (u : Underlying) → Decidable (u.Fits location)
  | .ws _ => inferInstanceAs (Decidable (location = wsLocation))
  | .st _ => inferInstanceAs (Decidable (location ≠ wsLocation))

end Underlying

structure DecodedTrace where
  location : String
  underlying : Underlying
  /-- Whether the value of a deletion of the world state was there to decode.
  The source compares it with `Account{}`, whose balance is a nil pointer, so a
  decoded account of zeros differs from a missing one. -/
  hasDeletedValue : Bool := true
  location_eq : underlying.location = location := by rfl
  fits : underlying.Fits location := by decide
  missing_eq : hasDeletedValue = false →
    ∀ t, underlying = .ws (.deletion t) → t.deletedValue = default := by simp

namespace DecodedTrace

def isWorldState (dec : DecodedTrace) : Bool := dec.location = wsLocation

def kind (dec : DecodedTrace) : TraceKind := dec.underlying.kind

def hKey (compress : Compress) (dec : DecodedTrace) : Digest := dec.underlying.hKey compress

def rwInt (dec : DecodedTrace) : Nat := dec.underlying.rwInt

end DecodedTrace

-- The account of a trace

def hexDigit (c : Char) : Option Nat :=
  if '0' ≤ c ∧ c ≤ '9' then some (c.toNat - '0'.toNat)
  else if 'a' ≤ c ∧ c ≤ 'f' then some (c.toNat - 'a'.toNat + 10)
  else if 'A' ≤ c ∧ c ≤ 'F' then some (c.toNat - 'A'.toNat + 10)
  else none

def hexDecode : List Char → Option (List Nat)
  | [] => some []
  | [_] => none
  | c :: d :: rest => do
    let hi ← hexDigit c
    let lo ← hexDigit d
    let bytes ← hexDecode rest
    some ((16 * hi + lo) :: bytes)

def hexDecodeString (s : String) : Option (List Nat) :=
  match s.toList with
  | '0' :: 'x' :: rest => hexDecode rest
  | cs => hexDecode cs

inductive AddressError
  | notHex (h : String)
  | wrongLength (h : String) (bytes : Nat)
  deriving DecidableEq

def addressFromHex (h : String) : Except AddressError Address :=
  match hexDecodeString h with
  | none => .error (.notHex h)
  | some bytes =>
    if bytes.length ≠ 20 then .error (.wrongLength h bytes.length)
    else .ok (.ofNat 160 (bytes.foldl (fun acc b => 256 * acc + b) 0))

namespace DecodedTrace

/-- `GetRelatedAccount`: the location of a storage trie, the key in the world state. -/
def getRelatedAccount (trace : DecodedTrace) : Except AddressError Address :=
  match trace.underlying with
  | .st _ => addressFromHex trace.location
  | .ws (.readNonZero u) => .ok u.key
  | .ws (.readZero u) => .ok u.key
  | .ws (.insertion u) => .ok u.key
  | .ws (.update u) => .ok u.key
  | .ws (.deletion u) => .ok u.key

theorem isWorldState_iff {dec : DecodedTrace} : dec.isWorldState ↔ ∃ op, dec.kind = .ws op := by
  rcases dec with ⟨l, u, -, -, hfits, -⟩
  cases u with
  | ws t | st t => simpa [isWorldState, kind, Underlying.kind, Underlying.Fits] using hfits

theorem isWorldState_of_kind {dec : DecodedTrace} (h : dec.kind = .ws op) : dec.isWorldState :=
  isWorldState_iff.mpr ⟨op, h⟩

theorem not_isWorldState_iff {dec : DecodedTrace} :
    dec.isWorldState = false ↔ ∃ op, dec.kind = .st op := by
  rw [Bool.eq_false_iff, Ne, isWorldState_iff]
  cases h : dec.kind <;> simp

end DecodedTrace

end StatusNetwork.StateManager
