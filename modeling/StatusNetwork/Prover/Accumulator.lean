import Mathlib.Data.Finmap
import StatusNetwork.Prover.SparseMerkleTree

/-!
# The accumulator

Models the package `accumulator`: a key-value map kept as a sorted linked list
of leaf openings in a Merkle tree, the operations of the prover with the traces
they return, and the audit of a trace by the verifier. A trace carries no type
code here; nothing in the package reads it.

`ListAllKeys` ranges over a Go map in an unspecified order. The operations that
call it take the order of each call as an argument.
-/

namespace StatusNetwork.Prover

structure LeafOpening where
  prev : Int64
  next : Int64
  hKey : KoalaOctuplet
  hVal : KoalaOctuplet
  deriving DecidableEq

instance : WriterTo LeafOpening where
  elements leaf := int64On64Bytes leaf.prev ++ (int64On64Bytes leaf.next ++
    (elements leaf.hKey ++ elements leaf.hVal))
  elements_injective := by
    rintro ⟨p, n, k, v⟩ ⟨p', n', k', v'⟩ h
    obtain ⟨h1, h⟩ := List.append_inj h (by simp)
    obtain ⟨h2, h⟩ := List.append_inj h (by simp)
    obtain ⟨h3, h4⟩ := List.append_inj h (by simp [elements])
    exact LeafOpening.mk.injEq .. ▸ ⟨int64On64Bytes_injective h1, int64On64Bytes_injective h2,
      elements_injective h3, elements_injective h4⟩

namespace LeafOpening

def head : LeafOpening := { prev := 0, next := 1, hKey := 0, hVal := 0 }

def tail : LeafOpening := { prev := 0, next := 1, hVal := 0, hKey := .max }

def headOrTail (leaf : LeafOpening) : Bool := leaf.hKey = .max || leaf.hKey = 0

def copyWithPrev (leaf : LeafOpening) (prev : Int64) : LeafOpening := { leaf with prev }

def copyWithNext (leaf : LeafOpening) (next : Int64) : LeafOpening := { leaf with next }

end LeafOpening

structure KVOpeningTuple (K V : Type) where
  leafOpening : LeafOpening
  key : K
  value : V
  deriving DecidableEq

namespace KVOpeningTuple

def copyWithPrev (t : KVOpeningTuple K V) (prev : Int64) : KVOpeningTuple K V :=
  { t with leafOpening := t.leafOpening.copyWithPrev prev }

def copyWithNext (t : KVOpeningTuple K V) (next : Int64) : KVOpeningTuple K V :=
  { t with leafOpening := t.leafOpening.copyWithNext next }

end KVOpeningTuple

inductive VerifyError
  | inconsistentLocation
  | inconsistentRoot
  | inconsistentKey
  | inconsistentVal
  | wrongPlace
  | badSandwich
  | incorrectSandwich
  | wrongDeletedValue
  | wrongDeletedLeaf
  | merkleProof
  | auditMinus
  | auditMiddle
  | auditPlus
  | updateCheck
  | inconsistentNewRoot
  | inconsistentNextFreeNode
  deriving DecidableEq

-- Traces

structure InsertionTrace (K V : Type) where
  location : String
  newNextFreeNode : Int64
  oldSubRoot : KoalaOctuplet
  newSubRoot : KoalaOctuplet
  proofMinus : Proof
  proofNew : Proof
  proofPlus : Proof
  key : K
  val : V
  oldOpenMinus : LeafOpening
  oldOpenPlus : LeafOpening
  deriving DecidableEq

structure DeletionTrace (K V : Type) where
  location : String
  newNextFreeNode : Int64
  oldSubRoot : KoalaOctuplet
  newSubRoot : KoalaOctuplet
  proofMinus : Proof
  proofDeleted : Proof
  proofPlus : Proof
  key : K
  oldOpenMinus : LeafOpening
  deletedOpen : LeafOpening
  oldOpenPlus : LeafOpening
  deletedValue : V
  deriving DecidableEq

structure UpdateTrace (K V : Type) where
  location : String
  key : K
  oldValue : V
  newValue : V
  newNextFreeNode : Int64
  oldSubRoot : KoalaOctuplet
  newSubRoot : KoalaOctuplet
  oldOpening : LeafOpening
  proof : Proof
  deriving DecidableEq

structure ReadNonZeroTrace (K V : Type) where
  location : String
  nextFreeNode : Int64
  key : K
  value : V
  subRoot : KoalaOctuplet
  leafOpening : LeafOpening
  proof : Proof
  deriving DecidableEq

structure ReadZeroTrace (K : Type) where
  location : String
  key : K
  subRoot : KoalaOctuplet
  nextFreeNode : Int64
  openingMinus : LeafOpening
  openingPlus : LeafOpening
  proofMinus : Proof
  proofPlus : Proof
  deriving DecidableEq

inductive Trace (K V : Type)
  | insertion (t : InsertionTrace K V)
  | deletion (t : DeletionTrace K V)
  | update (t : UpdateTrace K V)
  | readNonZero (t : ReadNonZeroTrace K V)
  | readZero (t : ReadZeroTrace K)
  deriving DecidableEq

variable (compress : Compress)

namespace Trace

def location : Trace K V → String
  | .insertion t => t.location
  | .deletion t => t.location
  | .update t => t.location
  | .readNonZero t => t.location
  | .readZero t => t.location

/-- `HKey`: a deletion reads it off the deleted leaf, the others hash their key. -/
def hKey [WriterTo K] : Trace K V → KoalaOctuplet
  | .insertion t => hash compress t.key
  | .deletion t => t.deletedOpen.hKey
  | .update t => hash compress t.key
  | .readNonZero t => hash compress t.key
  | .readZero t => hash compress t.key

def rwInt : Trace K V → Nat
  | .insertion _ | .deletion _ | .update _ => 1
  | .readNonZero _ | .readZero _ => 0

end Trace

/-- `CheckAndLeaf`. Head and tail are accepted with any key and value. -/
def KVOpeningTuple.checkAndLeaf [WriterTo K] [WriterTo V] (t : KVOpeningTuple K V) :
    Except VerifyError KoalaOctuplet :=
  if t.leafOpening.headOrTail then .ok (hash compress t.leafOpening)
  else if t.leafOpening.hKey ≠ hash compress t.key then .error .inconsistentKey
  else if t.leafOpening.hVal ≠ hash compress t.value then .error .inconsistentVal
  else .ok (hash compress t.leafOpening)

-- The prover

/-- A position of the source as an index of the tree; an index below zero panics. -/
def treePos (i : Int64) : Except Panic Nat :=
  if i.toInt < 0 then .error .outOfBound else .ok i.toInt.toNat

abbrev Mapping (K V : Type) := Finmap fun _ : Int64 => KVOpeningTuple K V

def Mapping.mustGet (data : Mapping K V) (i : Int64) : Except Panic (KVOpeningTuple K V) :=
  match data.lookup i with
  | some tuple => .ok tuple
  | none => .error .missingEntry

structure ProverState (K V : Type) where
  location : String
  nextFreeNode : Int64
  tree : Tree
  data : Mapping K V

namespace ProverState

variable {K V : Type} [WriterTo K] [WriterTo V]

def subTreeRoot (p : ProverState K V) : KoalaOctuplet := p.tree.root

/-- The lists `ListAllKeys` may return. -/
def ListsAllKeys (p : ProverState K V) (order : List Int64) : Prop :=
  order.Nodup ∧ ∀ i, i ∈ order ↔ i ∈ p.data

def findKeyIn (data : Mapping K V) (hkey : KoalaOctuplet) : List Int64 →
    Except Panic (Option Int64)
  | [] => .ok none
  | i :: rest => do
    let tuple ← data.mustGet i
    if hkey = tuple.leafOpening.hKey then .ok (some i) else findKeyIn data hkey rest

def findKey (p : ProverState K V) (order : List Int64) (k : K) : Except Panic (Option Int64) :=
  findKeyIn p.data (hash compress k) order

/-- The best bounds found so far by the loop of `findSandwich`. -/
structure Sandwich where
  hMinus : KoalaOctuplet := 0
  iMinus : Int64 := 0
  hPlus : KoalaOctuplet := .max
  iPlus : Int64 := 1

/-- One round of that loop, at the opening of position `i`. -/
def Sandwich.narrow (s : Sandwich) (hkey curHkey : KoalaOctuplet) (i : Int64) :
    Except Panic Sandwich :=
  match curHkey.cmp hkey with
  | .eq => .error .perfectMatch
  | .gt => .ok (if curHkey.cmp s.hPlus = .lt then { s with hPlus := curHkey, iPlus := i } else s)
  | .lt => .ok (if curHkey.cmp s.hMinus = .gt then { s with hMinus := curHkey, iMinus := i } else s)

def sandwichFrom (data : Mapping K V) (hkey : KoalaOctuplet) : List Int64 → Sandwich →
    Except Panic Sandwich
  | [], s => .ok s
  | i :: rest, s => do
    let tuple ← data.mustGet i
    let s' ← s.narrow hkey tuple.leafOpening.hKey i
    sandwichFrom data hkey rest s'

def findSandwich (p : ProverState K V) (order : List Int64) (k : K) :
    Except Panic (Int64 × Int64) := do
  let s ← sandwichFrom p.data (hash compress k) order {}
  if s.iMinus = s.iPlus then .error .emptySandwich else .ok (s.iMinus, s.iPlus)

def numChanges (old new : LeafOpening) : Nat :=
  (if old.hVal ≠ new.hVal then 1 else 0) + (if old.prev ≠ new.prev then 1 else 0) +
    (if old.next ≠ new.next then 1 else 0)

/-- The checks `upsertTuple` makes before it writes; they give the leaf. -/
def checkUpsert (p : ProverState K V) (i : Int64) (tuple : KVOpeningTuple K V) :
    Except Panic KoalaOctuplet :=
  match tuple.checkAndLeaf compress with
  | .error _ => .error .illegalTuple
  | .ok leaf =>
    match p.data.lookup i with
    | none => .ok leaf
    | some old =>
      match old.checkAndLeaf compress with
      | .error _ => .error .illegalTuple
      | .ok _ =>
        if old.leafOpening.hKey ≠ tuple.leafOpening.hKey then .error .illegalChange
        else if numChanges old.leafOpening tuple.leafOpening ≠ 1 then .error .illegalChange
        else .ok leaf

def upsertTuple (p : ProverState K V) (i : Int64) (tuple : KVOpeningTuple K V) :
    Except Panic (Proof × ProverState K V) := do
  let leaf ← p.checkUpsert compress i tuple
  let pos ← treePos i
  let tree ← p.tree.update compress pos leaf
  let proof ← tree.mustProve pos
  .ok (proof, { p with data := p.data.insert i tuple, tree })

def rmTuple (p : ProverState K V) (i : Int64) : Except Panic (Proof × ProverState K V) := do
  let _ ← p.data.mustGet i
  let pos ← treePos i
  let tree ← p.tree.update compress pos emptyLeaf
  let proof ← tree.mustProve pos
  .ok (proof, { p with data := p.data.erase i, tree })

def insertAndProve (p : ProverState K V) (order order' : List Int64) (key : K) (val : V) :
    Except Panic (InsertionTrace K V × ProverState K V) := do
  match ← p.findKey compress order key with
  | some _ => .error .keyPresent
  | none =>
    let (iMinus, iPlus) ← p.findSandwich compress order' key
    let tupleMinus ← p.data.mustGet iMinus
    let tuplePlus ← p.data.mustGet iPlus
    let iInserted := p.nextFreeNode
    let (proofMinus, p₁) ← p.upsertTuple compress iMinus (tupleMinus.copyWithNext iInserted)
    let insertedTuple : KVOpeningTuple K V :=
      { key, value := val, leafOpening :=
        { prev := iMinus, next := iPlus, hKey := hash compress key, hVal := hash compress val } }
    let (proofNew, p₂) ← p₁.upsertTuple compress iInserted insertedTuple
    let (proofPlus, p₃) ← p₂.upsertTuple compress iPlus (tuplePlus.copyWithPrev iInserted)
    let p' := { p₃ with nextFreeNode := p₃.nextFreeNode + 1 }
    .ok ({ location := p.location, key, val, oldSubRoot := p.subTreeRoot
           oldOpenMinus := tupleMinus.leafOpening, oldOpenPlus := tuplePlus.leafOpening
           newNextFreeNode := p.nextFreeNode + 1
           proofMinus, proofNew, proofPlus, newSubRoot := p'.subTreeRoot }, p')

def deleteAndProve (p : ProverState K V) (order : List Int64) (key : K) :
    Except Panic (DeletionTrace K V × ProverState K V) := do
  match ← p.findKey compress order key with
  | none => .error .keyAbsent
  | some i =>
    let tuple ← p.data.mustGet i
    let iMinus := tuple.leafOpening.prev
    let iPlus := tuple.leafOpening.next
    let tupleMinus ← p.data.mustGet iMinus
    let tuplePlus ← p.data.mustGet iPlus
    let (proofMinus, p₁) ← p.upsertTuple compress iMinus (tupleMinus.copyWithNext iPlus)
    let (proofDeleted, p₂) ← p₁.rmTuple compress i
    let (proofPlus, p₃) ← p₂.upsertTuple compress iPlus (tuplePlus.copyWithPrev iMinus)
    .ok ({ location := p.location, key, oldSubRoot := p.subTreeRoot
           oldOpenMinus := tupleMinus.leafOpening, oldOpenPlus := tuplePlus.leafOpening
           deletedOpen := tuple.leafOpening, deletedValue := tuple.value
           newNextFreeNode := p.nextFreeNode
           proofMinus, proofDeleted, proofPlus, newSubRoot := p₃.subTreeRoot }, p₃)

def updateAndProve (p : ProverState K V) (order : List Int64) (key : K) (newVal : V) :
    Except Panic (UpdateTrace K V × ProverState K V) := do
  match ← p.findKey compress order key with
  | none => .error .keyAbsent
  | some i =>
    let tuple ← p.data.mustGet i
    if hash compress key ≠ hash compress tuple.key then .error .keyMismatch
    else
      let newTuple : KVOpeningTuple K V := { tuple with
        value := newVal, leafOpening := { tuple.leafOpening with hVal := hash compress newVal } }
      let pos ← treePos i
      let tree ← p.tree.update compress pos (hash compress newTuple.leafOpening)
      let p' := { p with data := p.data.insert i newTuple, tree }
      let proof ← tree.mustProve pos
      .ok ({ location := p.location, key := tuple.key, oldValue := tuple.value, newValue := newVal
             oldOpening := tuple.leafOpening, oldSubRoot := p.subTreeRoot
             newSubRoot := p'.subTreeRoot, newNextFreeNode := p.nextFreeNode, proof }, p')

def readNonZeroAndProve (p : ProverState K V) (order : List Int64) (key : K) :
    Except Panic (ReadNonZeroTrace K V) := do
  match ← p.findKey compress order key with
  | none => .error .keyAbsent
  | some i =>
    let tuple ← p.data.mustGet i
    if hash compress key ≠ hash compress tuple.key then .error .keyMismatch
    else
      let pos ← treePos i
      let proof ← p.tree.mustProve pos
      .ok { location := p.location, key := tuple.key, value := tuple.value
            leafOpening := tuple.leafOpening, subRoot := p.subTreeRoot, proof
            nextFreeNode := p.nextFreeNode }

def readZeroAndProve (p : ProverState K V) (order order' : List Int64) (key : K) :
    Except Panic (ReadZeroTrace K) := do
  match ← p.findKey compress order key with
  | some _ => .error .keyPresent
  | none =>
    let (iMinus, iPlus) ← p.findSandwich compress order' key
    let dataMinus ← p.data.mustGet iMinus
    let dataPlus ← p.data.mustGet iPlus
    let posMinus ← treePos iMinus
    let proofMinus ← p.tree.mustProve posMinus
    let posPlus ← treePos iPlus
    let proofPlus ← p.tree.mustProve posPlus
    .ok { location := p.location, key, subRoot := p.subTreeRoot
          proofMinus, openingMinus := dataMinus.leafOpening
          proofPlus, openingPlus := dataPlus.leafOpening, nextFreeNode := p.nextFreeNode }

end ProverState

def treeDepth : Nat := 40

/-- `InitializeProverState`: head and tail at the first two positions. -/
def initializeProverState (K V : Type) [Inhabited K] [Inhabited V] (location : String) :
    Except Panic (ProverState K V) := do
  let tree ← (newEmptyTree compress treeDepth).update compress 0 (hash compress LeafOpening.head)
  let tree ← tree.update compress 1 (hash compress LeafOpening.tail)
  .ok { location, nextFreeNode := 2, tree
        data := ((∅ : Mapping K V).insert 0 ⟨.head, default, default⟩).insert 1
          ⟨.tail, default, default⟩ }

inductive Call (K V : Type)
  | insert (key : K) (val : V)
  | update (key : K) (newVal : V)
  | delete (key : K)
  | readNonZero (key : K)
  | readZero (key : K)
  deriving DecidableEq

/-- One call of the prover, with the orders of its first and its second listing. -/
def ProverState.call [WriterTo K] [WriterTo V] (p : ProverState K V) (order order' : List Int64) :
    Call K V → Except Panic (Trace K V × ProverState K V)
  | .insert key val => do
    let (t, p') ← p.insertAndProve compress order order' key val
    .ok (.insertion t, p')
  | .update key newVal => do
    let (t, p') ← p.updateAndProve compress order key newVal
    .ok (.update t, p')
  | .delete key => do
    let (t, p') ← p.deleteAndProve compress order key
    .ok (.deletion t, p')
  | .readNonZero key => do
    let t ← p.readNonZeroAndProve compress order key
    .ok (.readNonZero t, p)
  | .readZero key => do
    let t ← p.readZeroAndProve compress order order' key
    .ok (.readZero t, p)

inductive Reachable [WriterTo K] [WriterTo V] [Inhabited K] [Inhabited V] :
    ProverState K V → Prop
  | init : initializeProverState compress K V location = .ok p → Reachable p
  | call : Reachable p → p.ListsAllKeys order → p.ListsAllKeys order' →
      p.call compress order order' c = .ok (t, p') → Reachable p'

-- The verifier

structure VerifierState where
  location : String
  nextFreeNode : Int64
  subTreeRoot : KoalaOctuplet
  deriving DecidableEq

def ProverState.verifierState (p : ProverState K V) : VerifierState :=
  { location := p.location, nextFreeNode := p.nextFreeNode, subTreeRoot := p.tree.root }

def VerifierState.topRoot (v : VerifierState) : KoalaOctuplet :=
  digest compress (int64On64Bytes v.nextFreeNode ++ elements v.subTreeRoot)

/-- `updateCheckRoot`: the new root, or `none` if the old leaf is not authenticated. -/
def updateCheckRoot (proof : Proof) (root old new : KoalaOctuplet) :
    Except Panic (Option KoalaOctuplet) := do
  if ← verify compress proof old root then
    let newRoot ← recoverRoot compress proof new
    .ok (some newRoot)
  else .ok none

abbrev Verdict := Option VerifyError × VerifierState

/-- Goes on with the root an `updateCheckRoot` found, or returns the error `e`. -/
def withRoot (found : Except Panic (Option KoalaOctuplet)) (e : VerifyError) (v : VerifierState)
    (next : KoalaOctuplet → Except Panic Verdict) : Except Panic Verdict := do
  match ← found with
  | none => .ok (some e, v)
  | some root => next root

namespace VerifierState

variable {K V : Type} [WriterTo K] [WriterTo V]

def verifyInsertion (v : VerifierState) (trace : InsertionTrace K V) : Except Panic Verdict :=
  let iMinus := trace.proofMinus.path
  let iInserted := trace.proofNew.path
  let iPlus := trace.proofPlus.path
  let hkey := hash compress trace.key
  if v.location ≠ trace.location then .ok (some .inconsistentLocation, v)
  else if v.subTreeRoot ≠ trace.oldSubRoot then .ok (some .inconsistentRoot, v)
  else if iInserted ≠ v.nextFreeNode then .ok (some .wrongPlace, v)
  else if trace.oldOpenMinus.next ≠ iPlus ∨ trace.oldOpenPlus.prev ≠ iMinus then
    .ok (some .badSandwich, v)
  else if hkey.cmp trace.oldOpenMinus.hKey ≠ .gt ∨ hkey.cmp trace.oldOpenPlus.hKey ≠ .lt then
    .ok (some .incorrectSandwich, v)
  else
    let newMinus := trace.oldOpenMinus.copyWithNext v.nextFreeNode
    let newLeaf : LeafOpening :=
      { prev := iMinus, next := iPlus, hKey := hkey, hVal := hash compress trace.val }
    let newPlus := trace.oldOpenPlus.copyWithPrev iInserted
    withRoot (updateCheckRoot compress trace.proofMinus trace.oldSubRoot
      (hash compress trace.oldOpenMinus) (hash compress newMinus)) .auditMinus v fun root₁ =>
    withRoot (updateCheckRoot compress trace.proofNew root₁ emptyLeaf (hash compress newLeaf))
      .auditMiddle v fun root₂ =>
    withRoot (updateCheckRoot compress trace.proofPlus root₂ (hash compress trace.oldOpenPlus)
      (hash compress newPlus)) .auditPlus v fun root₃ =>
    if root₃ ≠ trace.newSubRoot then .ok (some .inconsistentNewRoot, v)
    else
      -- the state is written before the last check
      let v' := { v with subTreeRoot := root₃, nextFreeNode := v.nextFreeNode + 1 }
      if v'.nextFreeNode ≠ trace.newNextFreeNode then .ok (some .inconsistentNextFreeNode, v')
      else .ok (none, v')

def verifyDeletion (v : VerifierState) (trace : DeletionTrace K V) : Except Panic Verdict :=
  let iMinus := trace.proofMinus.path
  let iDeleted := trace.proofDeleted.path
  let iPlus := trace.proofPlus.path
  if v.location ≠ trace.location then .ok (some .inconsistentLocation, v)
  else if v.subTreeRoot ≠ trace.oldSubRoot then .ok (some .inconsistentRoot, v)
  else if hash compress trace.deletedValue ≠ trace.deletedOpen.hVal then
    .ok (some .wrongDeletedValue, v)
  else if trace.oldOpenMinus.next ≠ iDeleted ∨ trace.deletedOpen.prev ≠ iMinus then
    .ok (some .badSandwich, v)
  else if trace.deletedOpen.next ≠ iPlus ∨ trace.oldOpenPlus.prev ≠ iDeleted then
    .ok (some .badSandwich, v)
  else if trace.deletedOpen.hKey ≠ hash compress trace.key then .ok (some .wrongDeletedLeaf, v)
  else
    let newMinus := trace.oldOpenMinus.copyWithNext iPlus
    let newPlus := trace.oldOpenPlus.copyWithPrev iMinus
    withRoot (updateCheckRoot compress trace.proofMinus trace.oldSubRoot
      (hash compress trace.oldOpenMinus) (hash compress newMinus)) .auditMinus v fun root₁ =>
    withRoot (updateCheckRoot compress trace.proofDeleted root₁ (hash compress trace.deletedOpen)
      emptyLeaf) .auditMiddle v fun root₂ =>
    withRoot (updateCheckRoot compress trace.proofPlus root₂ (hash compress trace.oldOpenPlus)
      (hash compress newPlus)) .auditPlus v fun root₃ =>
    if root₃ ≠ trace.newSubRoot then .ok (some .inconsistentNewRoot, v)
    else if v.nextFreeNode ≠ trace.newNextFreeNode then .ok (some .inconsistentNextFreeNode, v)
    else .ok (none, { v with subTreeRoot := root₃ })

def updateVerify (v : VerifierState) (trace : UpdateTrace K V) : Except Panic Verdict :=
  let tuple : KVOpeningTuple K V :=
    { key := trace.key, value := trace.oldValue, leafOpening := trace.oldOpening }
  let newOpening := { trace.oldOpening with hVal := hash compress trace.newValue }
  if v.location ≠ trace.location then .ok (some .inconsistentLocation, v)
  else if v.subTreeRoot ≠ trace.oldSubRoot then .ok (some .inconsistentRoot, v)
  else match tuple.checkAndLeaf compress with
  | .error e => .ok (some e, v)
  | .ok leaf => do
    if ← verify compress trace.proof leaf trace.oldSubRoot then
      withRoot (updateCheckRoot compress trace.proof trace.oldSubRoot leaf
        (hash compress newOpening)) .updateCheck v fun newRoot =>
      if newRoot ≠ trace.newSubRoot then .ok (some .inconsistentNewRoot, v)
      else if v.nextFreeNode ≠ trace.newNextFreeNode then
        .ok (some .inconsistentNextFreeNode, v)
      else .ok (none, { v with subTreeRoot := trace.newSubRoot })
    else .ok (some .merkleProof, v)

def readNonZeroVerify (v : VerifierState) (trace : ReadNonZeroTrace K V) : Except Panic Verdict :=
  let tuple : KVOpeningTuple K V :=
    { key := trace.key, value := trace.value, leafOpening := trace.leafOpening }
  if v.location ≠ trace.location then .ok (some .inconsistentLocation, v)
  else if v.subTreeRoot ≠ trace.subRoot then .ok (some .inconsistentRoot, v)
  else match tuple.checkAndLeaf compress with
  | .error e => .ok (some e, v)
  | .ok leaf => do
    if ← verify compress trace.proof leaf trace.subRoot then
      if v.nextFreeNode ≠ trace.nextFreeNode then .ok (some .inconsistentNextFreeNode, v)
      else .ok (none, v)
    else .ok (some .merkleProof, v)

def readZeroVerify (v : VerifierState) (trace : ReadZeroTrace K) : Except Panic Verdict :=
  let iMinus := trace.proofMinus.path
  let iPlus := trace.proofPlus.path
  let hkey := hash compress trace.key
  if v.location ≠ trace.location then .ok (some .inconsistentLocation, v)
  else if v.subTreeRoot ≠ trace.subRoot then .ok (some .inconsistentRoot, v)
  else if trace.openingMinus.next ≠ iPlus ∨ trace.openingPlus.prev ≠ iMinus then
    .ok (some .badSandwich, v)
  else if hkey.cmp trace.openingMinus.hKey ≠ .gt ∨ hkey.cmp trace.openingPlus.hKey ≠ .lt then
    .ok (some .incorrectSandwich, v)
  else do
    if ← verify compress trace.proofMinus (hash compress trace.openingMinus) trace.subRoot then
      if ← verify compress trace.proofPlus (hash compress trace.openingPlus) trace.subRoot then
        if v.nextFreeNode ≠ trace.nextFreeNode then .ok (some .inconsistentNextFreeNode, v)
        else .ok (none, v)
      else .ok (some .merkleProof, v)
    else .ok (some .merkleProof, v)

def audit (v : VerifierState) : Trace K V → Except Panic Verdict
  | .insertion t => v.verifyInsertion compress t
  | .deletion t => v.verifyDeletion compress t
  | .update t => v.updateVerify compress t
  | .readNonZero t => v.readNonZeroVerify compress t
  | .readZero t => v.readZeroVerify compress t

end VerifierState

end StatusNetwork.Prover
