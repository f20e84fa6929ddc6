import StatusNetwork.StateManager.Traces

/-!
# The access pattern of an account

Models `statemanager/access_pattern.go`. The six matchers run one after another
on the traces of an account. Each returns `(ok, err)`; an error value is the list
of its joined errors, and `nil` is the empty list. `isAccRead` also reorders the
slice it is given, so a matcher returns the traces too.
-/

namespace StatusNetwork.StateManager

open Prover

/-- The segment an error of `checkStorageTraceOrder` is wrapped for. -/
inductive SegmentName
  | accountCreation
  | accountDeletion
  | accountUpdate
  | accRead
  | redeployAcc
  deriving DecidableEq

inductive PatternError
  | readZeroInLongerTrace
  /-- `invalid trace : found %T in an … trace`. -/
  | invalidTrace (kind : TraceKind) (seg : SegmentName)
  /-- `invalid … preceded by another trace`. -/
  | precededBy (seg : SegmentName) (kind : TraceKind)
  | twoAccountReads
  | moreThanTwoDeletions
  | worldStateBeforeInsertion (kind : TraceKind)
  | writeFollowedByRead (i : Nat)
  | noMatchFound (kinds : List TraceKind)
  | inSegment (seg : SegmentName) (errs : List PatternError)

structure Match where
  ok : Bool
  err : List PatternError
  traces : List DecodedTrace

abbrev Matcher := List DecodedTrace → Except Panic Match

def matched (traces : List DecodedTrace) : Except Panic Match := .ok ⟨true, [], traces⟩

def mismatch (traces : List DecodedTrace) : Except Panic Match := .ok ⟨false, [], traces⟩

def failed (err : List PatternError) (traces : List DecodedTrace) : Except Panic Match :=
  .ok ⟨false, err, traces⟩

variable (compress : Compress)

/-- The loop of `checkStorageTraceOrder` from index `i` on. It stops while two
traces are left, so the last pair is never compared. -/
def checkStorageTraceOrderFrom : Nat → List DecodedTrace → Except Panic (List PatternError)
  | i, curr :: next :: last :: rest =>
    -- this panic loses the errors joined so far
    if curr.rwInt = next.rwInt ∧ (curr.hKey compress).cmp (next.hKey compress) ≠ .lt then
      .error .tracePattern
    else do
      let errs ← checkStorageTraceOrderFrom (i + 1) (next :: last :: rest)
      .ok (if curr.rwInt > next.rwInt then .writeFollowedByRead i :: errs else errs)
  | _, _ => .ok []

def checkStorageTraceOrder (traces : List DecodedTrace) : Except Panic (List PatternError) :=
  checkStorageTraceOrderFrom compress 0 traces

/-- The last step of a matcher: the order of its storage segment decides. -/
def inOrder (seg : SegmentName) (check : Except Panic (List PatternError))
    (traces : List DecodedTrace) : Except Panic Match := do
  let errs ← check
  if errs = [] then matched traces else failed [.inSegment seg errs] traces

/-- The loop of a matcher over the traces that should be of the storage trie. A
trace of the world state ends it; a trace off the whitelist is given to `note`,
which the matchers guard by `err != nil`. -/
def scan (whitelist : Operation → Bool)
    (note : List PatternError → TraceKind → List PatternError) :
    List PatternError → List DecodedTrace → Except DecodedTrace (List PatternError)
  | err, [] => .ok err
  | err, trace :: rest =>
    if trace.isWorldState then .error trace
    else scan whitelist note
      (match trace.kind with
        | .st op => if whitelist op then err else note err trace.kind
        | .ws _ => note err trace.kind) rest

/-- The note of a matcher that joins it to the errors before. -/
def joinNote (seg : SegmentName) (err : List PatternError) (kind : TraceKind) :
    List PatternError :=
  if err ≠ [] then err ++ [.invalidTrace kind seg] else err

/-- The note of a matcher that overwrites the errors before. -/
def setNote (seg : SegmentName) (err : List PatternError) (kind : TraceKind) :
    List PatternError :=
  if err ≠ [] then [.invalidTrace kind seg] else err

/-- The storage accesses that may come before an insertion of the account. -/
def creationWhitelist (op : Operation) : Bool := op = .readZero || op = .insertion

/-- The storage accesses of an account that is only read, or deleted. -/
def readWhitelist (op : Operation) : Bool := op = .readNonZero || op = .readZero

def isMissingAccRead : Matcher
  | [] => .error .outOfBound
  | first :: rest =>
    if first.kind = .ws .readZero ∧ rest = [] then matched (first :: rest)
    else if (first :: rest).any (·.kind = .ws .readZero) then
      failed [.readZeroInLongerTrace] (first :: rest)
    else mismatch (first :: rest)

def isAccCreation : Matcher := fun traces =>
  match traces.getLast? with
  | none => .error .outOfBound
  | some last =>
    if last.kind ≠ .ws .insertion then mismatch traces
    else if traces.length = 1 then matched traces
    else match scan creationWhitelist (joinNote .accountCreation) [] traces.dropLast with
    -- it may be a redeployment
    | .error _ => mismatch traces
    | .ok [] => inOrder .accountCreation (checkStorageTraceOrder compress traces.dropLast) traces
    | .ok err => failed err traces

def isAccDeletion : Matcher := fun traces =>
  match traces.getLast? with
  | none => .error .outOfBound
  | some last =>
    if last.kind ≠ .ws .deletion then mismatch traces
    else if traces.length = 1 then matched traces
    else match scan readWhitelist (setNote .accountDeletion) [] traces.dropLast with
    | .error trace => failed [.precededBy .accountDeletion trace.kind] traces
    | .ok [] => inOrder .accountDeletion (checkStorageTraceOrder compress traces.dropLast) traces
    | .ok err => failed err traces

/-- All storage accesses are allowed before an update. -/
def isAccUpdate : Matcher := fun traces =>
  match traces.getLast? with
  | none => .error .outOfBound
  | some last =>
    if last.kind ≠ .ws .update then mismatch traces
    else if traces.length = 1 then matched traces
    else match traces.dropLast.find? (·.isWorldState) with
    | some trace => failed [.precededBy .accountUpdate trace.kind] traces
    | none => inOrder .accountUpdate (checkStorageTraceOrder compress traces.dropLast) traces

/-- `isAccRead` on traces with this first and last entry. The account read may
come first; it is then moved to the end. -/
def accReadBetween (first last : DecodedTrace) : Matcher := fun traces =>
  let okFirst := first.kind = .ws .readNonZero
  let okLast := last.kind = .ws .readNonZero
  if ¬okFirst ∧ ¬okLast then mismatch traces
  else if okFirst ∧ okLast ∧ traces.length > 1 then failed [.twoAccountReads] traces
  else if traces.length = 1 then matched traces
  else
    let storage := if okFirst then traces.tail else traces.dropLast
    match scan readWhitelist (setNote .accRead) [] storage with
    | .error trace => failed [.precededBy .accRead trace.kind] traces
    | .ok [] =>
      let traces := if okFirst then traces.tail ++ [first] else traces
      inOrder .accRead (checkStorageTraceOrder compress traces.dropLast) traces
    | .ok err => failed err traces

def isAccRead : Matcher := fun traces =>
  match traces.head?, traces.getLast? with
  | some first, some last => accReadBetween compress first last traces
  | _, _ => .error .outOfBound

structure RedeployLoop where
  foundDeletion : Bool := false
  posDeletion : Nat := 0
  err : List PatternError := []

def redeployFrom : Nat → RedeployLoop → List DecodedTrace → Except PatternError RedeployLoop
  | _, s, [] => .ok s
  | i, s, trace :: rest =>
    if trace.kind = .ws .deletion then
      if s.foundDeletion then .error .moreThanTwoDeletions
      else redeployFrom (i + 1) { s with foundDeletion := true, posDeletion := i } rest
    else match trace.kind with
    | .ws _ => .error (.worldStateBeforeInsertion trace.kind)
    | .st op =>
      let whitelist := if s.foundDeletion then creationWhitelist else readWhitelist
      let err := if whitelist op then s.err else joinNote .redeployAcc s.err trace.kind
      redeployFrom (i + 1) { s with err } rest

def isAccRedeploy : Matcher := fun traces =>
  match traces.getLast? with
  | none => .error .outOfBound
  | some last =>
    if last.kind ≠ .ws .insertion then mismatch traces
    else if traces.length = 1 then mismatch traces
    else match redeployFrom 0 {} traces.dropLast with
    | .error e => failed [e] traces
    | .ok s =>
      if s.err ≠ [] then failed s.err traces
      else
        let check : Except Panic (List PatternError) := do
          let errs ← checkStorageTraceOrder compress (traces.take s.posDeletion)
          let errs' ← checkStorageTraceOrder compress (traces.dropLast.drop (s.posDeletion + 1))
          .ok (errs ++ errs')
        inOrder .redeployAcc check traces

def matchers : List Matcher :=
  [isMissingAccRead, isAccCreation compress, isAccDeletion compress, isAccRead compress,
    isAccUpdate compress, isAccRedeploy compress]

/-- The first matcher that does not just mismatch decides. -/
def runMatchers : List Matcher → List DecodedTrace →
    Except Panic (List PatternError × List DecodedTrace)
  | [], traces => .ok ([.noMatchFound (traces.map (·.kind))], traces)
  | m :: rest, traces => do
    let r ← m traces
    if r.err ≠ [] then .ok (r.err, r.traces)
    else if r.ok then .ok ([], r.traces)
    else runMatchers rest r.traces

/-- The error, and the traces in the order the matchers leave them. -/
def inspectPattern (traces : List DecodedTrace) :
    Except Panic (List PatternError × List DecodedTrace) :=
  runMatchers (matchers compress) traces

end StatusNetwork.StateManager
