import StatusNetwork.Prover.Types
import StatusNetwork.Base.Merkle

/-!
# The Poseidon2 hasher and the sparse Merkle tree

Models `poseidon2_koalabear.MDHasher` and `smt_koalabear`. The compression
function is not part of the repository and is a parameter of everything here;
the Merkle-Damgård loop around it, the tree with its levels of occupied nodes,
and the Merkle proofs follow the source. A Go panic is an `error`.
-/

namespace StatusNetwork.Prover

open KoalaOctuplet (ofList)

/-- `vortex.CompressPoseidon2`. -/
abbrev Compress := KoalaOctuplet → KoalaOctuplet → KoalaOctuplet

/-- What makes the modelled code panic. -/
inductive Panic
  | outOfBound
  | zeroNode
  | indexNotZero
  | missingEntry
  | keyPresent
  | keyAbsent
  | keyMismatch
  | perfectMatch
  | emptySandwich
  | illegalTuple
  | illegalChange
  | unexpectedTrace
  | tracePattern
  | notPowerOfTwo
  deriving DecidableEq

variable (compress : Compress)

/-- `SumElement`: whole blocks of eight, a last short block padded on its left. -/
def sumElement : KoalaOctuplet → List Element → KoalaOctuplet
  | state, a :: b :: c :: d :: e :: f :: g :: h :: rest =>
    sumElement (compress state ⟨#v[a, b, c, d, e, f, g, h]⟩) rest
  | state, [] => state
  | state, short => compress state (ofList (List.replicate (8 - short.length) 0 ++ short))

/-- The digest of a string of elements by a fresh hasher. -/
def digest (s : List Element) : KoalaOctuplet := sumElement compress 0 s

def hash [WriterTo α] (m : α) : KoalaOctuplet := digest compress (elements m)

def hashLR (nodeL nodeR : KoalaOctuplet) : KoalaOctuplet :=
  digest compress (nodeL.toList ++ nodeR.toList)

def emptyLeaf : KoalaOctuplet := 0

structure Tree where
  depth : Nat
  root : KoalaOctuplet
  occupiedLeaves : List KoalaOctuplet
  /-- The levels between the leaves and the root, lowest first. -/
  occupiedNodes : List (List KoalaOctuplet)
  emptyNodes : List KoalaOctuplet
  deriving DecidableEq

/-- The loop of `NewEmptyTree`: the next `n` empty nodes above `prev`, and the
node above them. -/
def emptyLevels : Nat → KoalaOctuplet → List KoalaOctuplet × KoalaOctuplet
  | 0, prev => ([], hashLR compress prev prev)
  | n + 1, prev =>
    let new := hashLR compress prev prev
    let (nodes, root) := emptyLevels n new
    (new :: nodes, root)

def newEmptyTree (depth : Nat) : Tree :=
  let (emptyNodes, root) := emptyLevels compress (depth - 1) emptyLeaf
  { depth, root, occupiedLeaves := [], occupiedNodes := List.replicate (depth - 1) [], emptyNodes }

/-- `1<<k` of a Go `int`, which is negative for `k = 63` and zero beyond. -/
def oneShl (k : Nat) : Int := (1#64 <<< k).toInt

namespace Tree

def getLeaf (t : Tree) (pos : Nat) : Except Panic KoalaOctuplet :=
  if pos ≥ oneShl t.depth then .error .outOfBound
  else .ok (t.occupiedLeaves.getD pos emptyLeaf)

def getNode (t : Tree) (level posInLevel : Nat) : Except Panic KoalaOctuplet :=
  if level = t.depth then
    if posInLevel > 0 then .error .outOfBound
    else if t.root = 0 then .error .zeroNode
    else .ok t.root
  else if 1 ≤ level ∧ level ≤ t.depth - 1 then
    if posInLevel ≥ oneShl (t.depth - level) then .error .outOfBound
    else match t.occupiedNodes[level - 1]? with
      | none => .error .outOfBound
      | some nodes =>
        match nodes[posInLevel]? with
        | some res => if res = 0 then .error .zeroNode else .ok res
        | none => match t.emptyNodes[level - 1]? with
          | some empty => .ok empty
          | none => .error .outOfBound
  else if level = 0 then t.getLeaf posInLevel
  else .error .outOfBound

/-- A level extended with `empty` up to `newSize` entries. -/
def padTo (nodes : List KoalaOctuplet) (newSize : Nat) (empty : KoalaOctuplet) :
    List KoalaOctuplet :=
  nodes ++ List.replicate (newSize - nodes.length) empty

/-- `reserveLevel`, called only to make a level longer. -/
def reserveLevel (t : Tree) (level newSize : Nat) : Except Panic Tree :=
  if level ≥ t.depth then .error .outOfBound
  else if newSize > oneShl (t.depth - level) then .error .outOfBound
  else if level = 0 then
    .ok { t with occupiedLeaves := padTo t.occupiedLeaves newSize emptyLeaf }
  else match t.occupiedNodes[level - 1]?, t.emptyNodes[level - 1]? with
    | some nodes, some empty =>
      .ok { t with occupiedNodes := t.occupiedNodes.set (level - 1) (padTo nodes newSize empty) }
    | _, _ => .error .outOfBound

def updateNode (t : Tree) (level posInLevel : Nat) (newVal : KoalaOctuplet) :
    Except Panic Tree :=
  if level = t.depth then
    if posInLevel > 0 then .error .outOfBound
    else if t.root = 0 then .error .zeroNode
    else .ok { t with root := newVal }
  else if 1 ≤ level ∧ level < t.depth then
    if posInLevel ≥ oneShl (t.depth - level) then .error .outOfBound
    else do
      let t ← if posInLevel ≥ (t.occupiedNodes.getD (level - 1) []).length
        then t.reserveLevel level (posInLevel + 1) else .ok t
      .ok { t with occupiedNodes := t.occupiedNodes.modify (level - 1) (·.set posInLevel newVal) }
  else if level = 0 then
    if posInLevel ≥ oneShl t.depth then .error .outOfBound
    else do
      let t ← if posInLevel ≥ t.occupiedLeaves.length
        then t.reserveLevel 0 (posInLevel + 1) else .ok t
      .ok { t with occupiedLeaves := t.occupiedLeaves.set posInLevel newVal }
  else .error .outOfBound

/-- The loop of `Update`, with `n` levels left to go. -/
def updateFrom : Nat → Tree → Nat → Nat → KoalaOctuplet →
    Except Panic (Tree × Nat × KoalaOctuplet)
  | 0, t, _, idx, current => .ok (t, idx, current)
  | n + 1, t, level, idx, current => do
    let t ← t.updateNode level idx current
    let sibling ← t.getNode level (idx ^^^ 1)
    updateFrom n t (level + 1) (idx / 2)
      (if idx % 2 = 1 then hashLR compress sibling current else hashLR compress current sibling)

/-- `Update` overwrites a leaf and recomputes the nodes above it. -/
def update (t : Tree) (pos : Nat) (newVal : KoalaOctuplet) : Except Panic Tree :=
  if pos ≥ oneShl t.depth then .error .outOfBound
  else do
    let (t, idx, current) ← updateFrom compress t.depth t 0 pos newVal
    if idx ≠ 0 then .error .indexNotZero
    else .ok { t with root := current }

end Tree

/-- A Merkle proof. The path is an `int` of the source. -/
structure Proof where
  path : Int64
  siblings : List KoalaOctuplet
  deriving DecidableEq

/-- The loop of `Prove`, with `n` levels left to go. -/
def Tree.proveFrom (t : Tree) : Nat → Nat → Nat → Except Panic (List KoalaOctuplet)
  | 0, _, idx => if idx ≠ 0 then .error .indexNotZero else .ok []
  | n + 1, level, idx => do
    let sibling ← t.getNode level (idx ^^^ 1)
    let rest ← t.proveFrom n (level + 1) (idx / 2)
    .ok (sibling :: rest)

def Tree.mustProve (t : Tree) (pos : Nat) : Except Panic Proof :=
  if pos ≥ oneShl t.depth then .error .outOfBound
  else do
    let siblings ← t.proveFrom t.depth 0 pos
    .ok { path := Int64.ofNat pos, siblings }

/-- The loop of `RecoverRoot`. The index is a signed integer: `idx&1` is its
remainder by two and `idx >>= 1` rounds down. -/
def recoverFrom : KoalaOctuplet → Int → List KoalaOctuplet → KoalaOctuplet × Int
  | current, idx, [] => (current, idx)
  | current, idx, sibling :: rest =>
    recoverFrom
      (if idx % 2 = 1 then hashLR compress sibling current else hashLR compress current sibling)
      (idx / 2) rest

def recoverRoot (p : Proof) (leaf : KoalaOctuplet) : Except Panic KoalaOctuplet :=
  let (current, idx) := recoverFrom compress leaf p.path.toInt p.siblings
  if idx ≠ 0 then .error .indexNotZero else .ok current

def verify (p : Proof) (leaf root : KoalaOctuplet) : Except Panic Bool := do
  let actual ← recoverRoot compress p leaf
  .ok (actual = root)

end StatusNetwork.Prover
