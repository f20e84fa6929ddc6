import StatusNetwork.StateManager.AccessPattern

/-!
# The audit of a list of traces

Models `statemanager/inspection.go` and `proof_checks.go`. `CheckTraces` groups
the traces by account, inspects the pattern of every account, audits its storage
traces against the roots its world-state traces record, and audits the
world-state traces last.
-/

namespace StatusNetwork.StateManager

open Prover

inductive WorldStateError
  | notOrdered (curr next : Digest)
  | trace (i : Nat) (e : VerifyError)
  deriving DecidableEq

inductive CheckError
  | address (e : AddressError)
  | twoSegments (address : Address)
  | pattern (errs : List PatternError)
  | storage (e : VerifyError)
  | readRoot
  | insertionOldRoot (old : Digest)
  | insertionRoot (recorded new : Digest)
  | updateRoots
  | deletionRoot
  | worldState (errs : List WorldStateError)

variable (compress : Compress)

/-- `ZKHASH_EMPTY_STORAGE`, computed when the package is loaded. -/
def zkhashEmptyStorage : Except Panic Digest := do
  let trie ← initializeProverState compress FullBytes32 FullBytes32
    "0x0000000000000000000000000000000000000000"
  .ok (trie.verifierState.topRoot compress)

-- Proofs of one trie

def bootstrapFrom (location : String) : Trace K V → VerifierState
  | .readNonZero t => { location, nextFreeNode := t.nextFreeNode, subTreeRoot := t.subRoot }
  | .readZero t => { location, nextFreeNode := t.nextFreeNode, subTreeRoot := t.subRoot }
  -- an insertion increases the next free node
  | .insertion t => { location, nextFreeNode := t.newNextFreeNode - 1, subTreeRoot := t.oldSubRoot }
  | .update t => { location, nextFreeNode := t.newNextFreeNode, subTreeRoot := t.oldSubRoot }
  | .deletion t => { location, nextFreeNode := t.newNextFreeNode, subTreeRoot := t.oldSubRoot }

def bootstrapVerifierStateFromST (trace : DecodedTrace) : Except Panic VerifierState :=
  match trace.underlying with
  | .st t => .ok (bootstrapFrom trace.location t)
  | .ws _ => .error .unexpectedTrace

def bootstrapVerifierStateFromWS (trace : DecodedTrace) : Except Panic VerifierState :=
  match trace.underlying with
  | .ws t => .ok (bootstrapFrom trace.location t)
  | .st _ => .error .unexpectedTrace

def auditST (vs : VerifierState) (trace : DecodedTrace) : Except Panic Verdict :=
  match trace.underlying with
  | .st t => vs.audit compress t
  | .ws _ => .error .unexpectedTrace

def auditWS (vs : VerifierState) (trace : DecodedTrace) : Except Panic Verdict :=
  match trace.underlying with
  | .ws t => vs.audit compress t
  | .st _ => .error .unexpectedTrace

def spliceFrom : VerifierState → List DecodedTrace →
    Except Panic (Except VerifyError VerifierState)
  | vs, [] => .ok (.ok vs)
  | vs, trace :: rest => do
    match ← auditST compress vs trace with
    | (some e, _) => .ok (.error e)
    | (none, vs') => spliceFrom vs' rest

/-- The roots before and after the storage traces. -/
def checkSpliceST (traces : List DecodedTrace) :
    Except Panic (Except VerifyError (Digest × Digest)) :=
  match traces with
  | [] => .error .outOfBound
  | first :: _ => do
    let vs ← bootstrapVerifierStateFromST first
    match ← spliceFrom compress vs traces with
    | .error e => .ok (.error e)
    | .ok vs' => .ok (.ok (vs.topRoot compress, vs'.topRoot compress))

/-- What the trace of the world state that closes a splice has to record. -/
def checkRoots (empty : Digest) (trace : DecodedTrace) (old new : Digest) :
    Except Panic (Option CheckError) :=
  match trace.underlying with
  | .ws (.readNonZero t) =>
    if old ≠ new then .error .tracePattern
    else if t.value.storageRoot ≠ old then .ok (some .readRoot)
    else .ok none
  | .ws (.readZero _) => .error .tracePattern
  | .ws (.insertion t) =>
    if old ≠ empty then .ok (some (.insertionOldRoot old))
    else if t.val.storageRoot ≠ new then .ok (some (.insertionRoot t.val.storageRoot new))
    else .ok none
  | .ws (.update t) =>
    if t.oldValue.storageRoot ≠ old ∨ t.newValue.storageRoot ≠ new then .ok (some .updateRoots)
    else .ok none
  | .ws (.deletion t) =>
    if old ≠ new then .error .tracePattern
    else if trace.hasDeletedValue ∧ t.deletedValue.storageRoot ≠ old then
      .ok (some .deletionRoot)
    else .ok none
  | .st _ => .ok none

/-- The loop of `checkProofsForAccount`, with the current splice. An empty splice
is not checked at all. -/
def checkProofsFrom (empty : Digest) : List DecodedTrace → List DecodedTrace →
    Except Panic (Option CheckError)
  | curr, [] => if curr = [] then .ok none else .error .tracePattern
  | curr, trace :: rest =>
    if trace.isWorldState then
      if curr = [] then checkProofsFrom empty [] rest
      else do
        match ← checkSpliceST compress curr with
        | .error e => .ok (some (.storage e))
        | .ok (old, new) =>
          match ← checkRoots empty trace old new with
          | some e => .ok (some e)
          | none => checkProofsFrom empty [] rest
    else checkProofsFrom empty (curr ++ [trace]) rest

def checkProofsForAccount (empty : Digest) (traces : List DecodedTrace) :
    Except Panic (Option CheckError) :=
  checkProofsFrom compress empty [] traces

/-- The error of two neighbours that are not ordered by `HKey`. -/
def orderErrors (trace : DecodedTrace) : List DecodedTrace → List WorldStateError
  | [] => []
  | next :: _ =>
    if (trace.hKey compress).cmp (next.hKey compress) = .gt then
      [.notOrdered (trace.hKey compress) (next.hKey compress)]
    else []

/-- The loop of `checkProofsWorldState`; it goes on after an error. -/
def worldStateFrom : Nat → VerifierState → List DecodedTrace →
    Except Panic (List WorldStateError × VerifierState)
  | _, vs, [] => .ok ([], vs)
  | i, vs, trace :: rest => do
    let (err, vs') ← auditWS compress vs trace
    let (errs, vs'') ← worldStateFrom (i + 1) vs' rest
    .ok (orderErrors compress trace rest ++ (err.toList.map (.trace i)) ++ errs, vs'')

def checkProofsWorldState (traces : List DecodedTrace) :
    Except Panic (Except CheckError (Digest × Digest)) :=
  match traces with
  | [] => .error .outOfBound
  | first :: _ => do
    let vs ← bootstrapVerifierStateFromWS first
    let (errs, vs') ← worldStateFrom compress 0 vs traces
    if errs = [] then .ok (.ok (vs.topRoot compress, vs'.topRoot compress))
    else .ok (.error (.worldState errs))

-- All traces

structure Dispatch where
  i : Nat := 0
  prevAddress : Address := 0
  traceByAccount : List (List DecodedTrace) := []
  traceWs : List DecodedTrace := []
  alreadyFoundAcc : List Address := []

def appendLast (slices : List (List DecodedTrace)) (trace : DecodedTrace) :
    List (List DecodedTrace) :=
  slices.dropLast ++ [slices.getLast?.getD [] ++ [trace]]

def Dispatch.push (d : Dispatch) (trace : DecodedTrace) : Except CheckError Dispatch :=
  match trace.getRelatedAccount with
  | .error e => .error (.address e)
  | .ok address =>
    if address ∈ d.alreadyFoundAcc ∧ address ≠ d.prevAddress ∧ d.i > 0 then
      .error (.twoSegments address)
    else
      let slices :=
        if d.i = 0 ∨ address ≠ d.prevAddress then d.traceByAccount ++ [[]] else d.traceByAccount
      .ok { i := d.i + 1, prevAddress := address, traceByAccount := appendLast slices trace
            traceWs := if trace.isWorldState then d.traceWs ++ [trace] else d.traceWs
            alreadyFoundAcc := address :: d.alreadyFoundAcc }

def dispatch (traces : List DecodedTrace) : Except CheckError Dispatch :=
  traces.foldlM Dispatch.push {}

/-- The audit of the traces of each account, in the order the inspection leaves them. -/
def checkAccounts (empty : Digest) : List (List DecodedTrace) → Except Panic (Option CheckError)
  | [] => .ok none
  | traces :: rest => do
    match ← inspectPattern compress traces with
    | ([], traces') =>
      match ← checkProofsForAccount compress empty traces' with
      | some e => .ok (some e)
      | none => checkAccounts empty rest
    | (errs, _) => .ok (some (.pattern errs))

/-- `CheckTraces`: the roots of the world state before and after the traces. -/
def checkTraces (traces : List DecodedTrace) :
    Except Panic (Except CheckError (Digest × Digest)) := do
  let empty ← zkhashEmptyStorage compress
  if traces = [] then .error .tracePattern
  else match dispatch traces with
  | .error e => .ok (.error e)
  | .ok d =>
    match ← checkAccounts compress empty d.traceByAccount with
    | some e => .ok (.error e)
    | none => checkProofsWorldState compress d.traceWs

end StatusNetwork.StateManager
