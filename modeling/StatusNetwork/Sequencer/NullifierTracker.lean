import Mathlib.Logic.Function.Basic
import StatusNetwork.Base.Interleaving

/-!
# The nullifier tracker of the sequencer

Models `NullifierTracker.java`. A nullifier is looked up in a local cache, then recorded at a
remote service shared by all sequencers; when the service fails, or a circuit breaker holds calls
back from it, the cache alone decides. The calls run concurrently, so each is a program counter,
and every read or write of something shared is one step.
-/

namespace StatusNetwork.Sequencer.NullifierTracker

/-- What the tracker uses of its libraries. -/
structure Strings where
  toLowerCase : String → String
  trim : String → String
  /-- `none` where `Bytes.fromHexString` throws. -/
  fromHexString : String → Option (List UInt8)
  /-- `none` where `Long.parseLong` throws. -/
  parseLong : String → Option Int
  hashCode : String → BitVec 32

structure Tracker extends Strings where
  /-- `blockingStub` is not null: the tracker was not built by a legacy constructor. -/
  blockingStub : Bool

def circuitBreakerThreshold : Nat := 5

def circuitBreakerRecoveryMs : Int := 30000

inductive Progress
  /-- `localCache.getIfPresent` -/
  | lookup
  /-- `blockingStub != null`, `consecutiveFailures.get` -/
  | missed
  /-- `lastFailureTimestamp.get` -/
  | tripped
  /-- `consecutiveFailures.set(0)` -/
  | recovering
  /-- `checkAndRecordNullifier` -/
  | sending
  /-- `recordGrpcSuccess` -/
  | replied (isValid : Bool)
  /-- `localCache.put` -/
  | recording (isValid : Bool)
  /-- `consecutiveFailures.incrementAndGet` -/
  | failed
  /-- `lastFailureTimestamp.set` -/
  | counted
  /-- `putIfAbsent` -/
  | fallback
  | returned (result : Bool)
  deriving DecidableEq

structure Call where
  pair : String × String
  progress : Progress
  deriving DecidableEq

def Call.cacheKey (c : Call) : String := c.pair.1 ++ ":" ++ c.pair.2

structure Shared where
  localCache : String → Bool
  consecutiveFailures : Nat
  lastFailureTimestamp : Int
  /-- The table of the remote service. -/
  recorded : List UInt8 × Int → Bool

structure State extends Shared where
  calls : List Call

/-- How the remote service answers a request, if it gets as far as one. A failed request may have
been recorded. -/
inductive Answer
  | reply
  | failure (recorded : Bool)
  deriving DecidableEq

inductive Action
  | enter (nullifierHex epochId : Option String)
  | advance (i : Nat) (now : Int) (answer : Answer)
  | other (key : List UInt8 × Int)

variable (T : Tracker)

def enter (nullifierHex epochId : Option String) : Call :=
  match nullifierHex, epochId with
  | some n, some e =>
    { pair := (T.trim (T.toLowerCase n), T.trim e)
      progress :=
        if (T.trim n).isEmpty ∨ (T.trim e).isEmpty then .returned false else .lookup }
  | _, _ => { pair := ("", ""), progress := .returned false }

def parseEpoch (epochId : String) : Int :=
  (T.parseLong (T.trim epochId)).getD (T.hashCode epochId).toNat

def remoteKey (pair : String × String) : Option (List UInt8 × Int) :=
  (T.fromHexString pair.1).map fun bytes => (bytes, parseEpoch T pair.2)

def advance (c : Call) (now : Int) (answer : Answer) (s : Shared) : Option (Shared × Progress) :=
  match c.progress with
  | .lookup => some (s, if s.localCache c.cacheKey then .returned false else .missed)
  | .missed =>
    some (s, if T.blockingStub = false then .fallback
      else if s.consecutiveFailures < circuitBreakerThreshold then .sending
      else .tripped)
  | .tripped =>
    some (s, if now - s.lastFailureTimestamp > circuitBreakerRecoveryMs then .recovering
      else .fallback)
  | .recovering => some ({ s with consecutiveFailures := 0 }, .sending)
  | .sending =>
    match remoteKey T c.pair, answer with
    | none, _ => some (s, .returned false)
    | some key, .reply =>
      some ({ s with recorded := Function.update s.recorded key true },
        .replied !(s.recorded key))
    | some key, .failure true =>
      some ({ s with recorded := Function.update s.recorded key true }, .failed)
    | some _, .failure false => some (s, .failed)
  | .replied isValid => some ({ s with consecutiveFailures := 0 }, .recording isValid)
  | .recording isValid =>
    some ({ s with localCache := Function.update s.localCache c.cacheKey true },
      .returned isValid)
  | .failed => some ({ s with consecutiveFailures := s.consecutiveFailures + 1 }, .counted)
  | .counted => some ({ s with lastFailureTimestamp := now }, .fallback)
  | .fallback =>
    some ({ s with localCache := Function.update s.localCache c.cacheKey true },
      .returned !(s.localCache c.cacheKey))
  | .returned _ => none

def step (s : State) : Action → Option State
  | .enter nullifierHex epochId =>
    some { s with calls := s.calls ++ [enter T nullifierHex epochId] }
  | .advance i now answer => do
    let c ← s.calls[i]?
    let (shared, p) ← advance T c now answer s.toShared
    some { toShared := shared, calls := s.calls.set i { c with progress := p } }
  | .other key => some { s with recorded := Function.update s.recorded key true }

def initial (recorded : List UInt8 × Int → Bool) : State where
  localCache _ := false
  consecutiveFailures := 0
  lastFailureTimestamp := 0
  recorded := recorded
  calls := []

abbrev Reaches (ok : State → Action → Prop) (recorded : List UInt8 × Int → Bool) : State → Prop :=
  Interleaving.Reaches (step T) ok (initial recorded)

-- Two calls that both return true

def plain : Strings where
  toLowerCase := id
  trim := id
  fromHexString _ := some []
  parseLong _ := some 0
  hashCode _ := 0

/-- Two calls with one nullifier miss the cache. The service accepts the first and fails the
second, which falls back to the cache before the first has written it. -/
def acceptedTwice : List Action :=
  [.enter (some "n") (some "e"), .enter (some "n") (some "e"),
    .advance 0 0 .reply, .advance 1 0 .reply, .advance 0 0 .reply, .advance 1 0 .reply,
    .advance 0 0 .reply, .advance 1 0 (.failure false), .advance 1 0 .reply,
    .advance 1 0 .reply, .advance 1 0 .reply, .advance 0 0 .reply, .advance 0 0 .reply]

/-- Between the cache lookup and the answer of the service. -/
def Progress.asking : Progress → Bool
  | .missed | .tripped | .recovering | .sending => true
  | _ => false

/-- Between the cache lookup and the write of the cache. -/
def Progress.onRemotePath : Progress → Bool
  | .replied _ | .recording _ => true
  | p => p.asking

/-- The call has returned true, or it will. -/
def Progress.accepted : Progress → Bool
  | .replied isValid | .recording isValid | .returned isValid => isValid
  | _ => false

/-- A nullifier is entered into the cache by the fallback only while no call for the same pair is
on its way through the remote service. -/
def Apart (s : State) : Action → Prop
  | .advance i _ _ => ∀ c ∈ s.calls[i]?, c.progress = .fallback → s.localCache c.cacheKey = false →
    ∀ d ∈ s.calls, d.pair = c.pair → d.progress.onRemotePath = false
  | _ => True

instance : Decidable (Apart s a) := by
  unfold Apart
  split <;> infer_instance

def Call.acceptedFor (pair : String × String) (c : Call) : Bool :=
  c.pair = pair && c.progress.accepted

def accepted (s : State) (pair : String × String) : Nat :=
  s.calls.countP (Call.acceptedFor pair)

structure Unique (s : State) : Prop where
  accepted (pair : String × String) : accepted s pair ≤ 1
  cached : ∀ c ∈ s.calls, c.progress = .returned true → s.localCache c.cacheKey
  recorded : ∀ c ∈ s.calls, c.progress = .replied true ∨ c.progress = .recording true →
    ∀ key ∈ remoteKey T c.pair, s.recorded key
  /-- A pair that is still being asked for at the service was not accepted by the fallback. -/
  closed : ∀ c ∈ s.calls, c.progress = .returned true → ∀ d ∈ s.calls, d.pair = c.pair →
    d.progress.asking → ∀ key ∈ remoteKey T c.pair, s.recorded key

variable {T}

theorem initial_unique : Unique T (initial recorded) := by
  constructor <;> simp [initial, accepted]

/-- Entries of the cache and of the remote table stay. -/
structure Grows (s s' : Shared) : Prop where
  localCache (k : String) : s.localCache k → s'.localCache k
  recorded (key : List UInt8 × Int) : s.recorded key → s'.recorded key

theorem Unique.grows (h : Unique T s) (hg : Grows s.toShared shared) :
    Unique T { toShared := shared, calls := s.calls } where
  accepted := h.accepted
  cached c hc hr := hg.localCache _ (h.cached c hc hr)
  recorded c hc hp key hkey := hg.recorded _ (h.recorded c hc hp key hkey)
  closed c hc hr d hd hpair hask key hkey :=
    hg.recorded _ (h.closed c hc hr d hd hpair hask key hkey)

theorem enter_progress (nullifierHex epochId : Option String) :
    (enter T nullifierHex epochId).progress = .lookup ∨
      (enter T nullifierHex epochId).progress = .returned false := by
  unfold enter
  split
  · split <;> simp
  · simp

theorem Unique.enter (h : Unique T s) (c : Call)
    (hc : c.progress = .lookup ∨ c.progress = .returned false) :
    Unique T { s with calls := s.calls ++ [c] } := by
  obtain ⟨hacc, hcached, hrec, hclosed⟩ := h
  constructor
  · intro pair
    have := hacc pair
    rcases hc with hc | hc <;>
      simpa [NullifierTracker.accepted, List.countP_append, Call.acceptedFor, hc,
        Progress.accepted] using this
  · rcases hc with hc | hc <;> simpa [or_imp, forall_and, hc] using hcached
  · rcases hc with hc | hc <;> simpa [or_imp, forall_and, hc] using hrec
  · rcases hc with hc | hc <;> simpa [or_imp, forall_and, hc, Progress.asking] using hclosed

/-- What a step of a call has to see to for the nullifiers to stay unique. -/
structure Admits (T : Tracker) (s : State) (c : Call) (shared : Shared) (p : Progress) : Prop where
  grows : Grows s.toShared shared
  accepted : p.accepted → c.progress.accepted ∨
    ∀ d ∈ s.calls, d.pair = c.pair → d.progress.accepted = false
  cached : p = .returned true → shared.localCache c.cacheKey
  recorded : p = .replied true ∨ p = .recording true →
    ∀ key ∈ remoteKey T c.pair, shared.recorded key
  closed : p = .returned true → ∀ d ∈ s.calls, d.pair = c.pair → d.progress.asking →
    ∀ key ∈ remoteKey T c.pair, shared.recorded key
  asks : p.asking → c.progress.asking ∨
    ∀ d ∈ s.calls, d.pair = c.pair → d.progress ≠ .returned true

theorem accepted_set_le (hi : s.calls[i]? = some c) (hacc : accepted s pair ≤ 1)
    (hp : p.accepted → c.progress.accepted ∨
      ∀ d ∈ s.calls, d.pair = c.pair → d.progress.accepted = false) :
    accepted { s with calls := s.calls.set i { c with progress := p } } pair ≤ 1 := by
  obtain ⟨hlt, hget⟩ := List.getElem?_eq_some_iff.mp hi
  unfold accepted at hacc ⊢
  rw [List.countP_set hlt, hget]
  by_cases hnew : Call.acceptedFor pair { c with progress := p }
  · rw [if_pos hnew]
    simp only [Call.acceptedFor, Bool.and_eq_true, decide_eq_true_eq] at hnew
    obtain ⟨rfl, hnew⟩ := hnew
    rcases hp hnew with hold | hnone
    · rw [if_pos (by simp [Call.acceptedFor, hold])]
      omega
    · have hzero : s.calls.countP (Call.acceptedFor c.pair) = 0 := by
        simpa [List.countP_eq_zero, Call.acceptedFor] using hnone
      omega
  · rw [if_neg hnew]
    omega

theorem Unique.move (h : Unique T s) (hi : s.calls[i]? = some c) (ha : Admits T s c shared p) :
    Unique T { toShared := shared, calls := s.calls.set i { c with progress := p } } := by
  have hc : c ∈ s.calls := List.mem_of_getElem? hi
  constructor
  · exact fun pair => accepted_set_le hi (h.accepted pair) ha.accepted
  · intro d hd hret
    obtain hd | rfl := List.mem_or_eq_of_mem_set hd
    · exact ha.grows.localCache _ (h.cached d hd hret)
    · exact ha.cached hret
  · intro d hd hp key hkey
    obtain hd | rfl := List.mem_or_eq_of_mem_set hd
    · exact ha.grows.recorded _ (h.recorded d hd hp key hkey)
    · exact ha.recorded hp key hkey
  · intro d hd hret e he hpair hask key hkey
    obtain hd | rfl := List.mem_or_eq_of_mem_set hd
    · obtain he | rfl := List.mem_or_eq_of_mem_set he
      · exact ha.grows.recorded _ (h.closed d hd hret e he hpair hask key hkey)
      · rcases ha.asks hask with hold | hnone
        · exact ha.grows.recorded _ (h.closed d hd hret c hc hpair hold key hkey)
        · exact absurd hret (hnone d hd hpair.symm)
    · obtain he | rfl := List.mem_or_eq_of_mem_set he
      · exact ha.closed hret e he hpair hask key hkey
      · rw [show p = .returned true from hret] at hask
        cases hask

theorem grows_refl : Grows s s := ⟨fun _ h => h, fun _ h => h⟩

theorem grows_cache : Grows s { s with localCache := Function.update s.localCache k true } where
  localCache k' h := by
    by_cases hk : k' = k <;> simp [hk, h]
  recorded _ h := h

theorem grows_recorded : Grows s { s with recorded := Function.update s.recorded key true } where
  localCache _ h := h
  recorded key' h := by
    by_cases hk : key' = key <;> simp [hk, h]

/-- Whatever has been accepted for a pair is found in the remote table or in the cache. -/
theorem Unique.not_accepted (h : Unique T s) (hd : d ∈ s.calls)
    (hcache : s.localCache d.cacheKey = false) (hpath : d.progress.onRemotePath = false) :
    d.progress.accepted = false := by
  rcases hp : d.progress with _ | _ | _ | _ | _ | v | v | _ | _ | _ | v <;>
    simp [hp, Progress.accepted, Progress.onRemotePath] at hpath ⊢
  cases v with
  | false => rfl
  | true => simp [h.cached d hd hp] at hcache

theorem Call.cacheKey_congr {c d : Call} (h : d.pair = c.pair) : d.cacheKey = c.cacheKey := by
  simp [Call.cacheKey, h]

theorem Unique.not_accepted_of_new (h : Unique T s) (hc : c ∈ s.calls)
    (hask : c.progress.asking) (hkey : remoteKey T c.pair = some key)
    (hnew : s.recorded key = false) :
    ∀ d ∈ s.calls, d.pair = c.pair → d.progress.accepted = false := by
  intro d hd hpair
  have hkey' : key ∈ remoteKey T d.pair := by rw [hpair, hkey]; rfl
  have hpending : ¬ (d.progress = .replied true ∨ d.progress = .recording true) := by
    intro hp
    simp [h.recorded d hd hp key hkey'] at hnew
  have hreturned : d.progress ≠ .returned true := by
    intro hret
    simp [h.closed d hd hret c hc hpair.symm hask key hkey'] at hnew
  rcases hp : d.progress with _ | _ | _ | _ | _ | v | v | _ | _ | _ | v <;>
    simp_all [Progress.accepted]

theorem Admits.quiet (hg : Grows s.toShared shared) (hacc : p.accepted = false)
    (hask : p.asking → c.progress.asking ∨
      ∀ d ∈ s.calls, d.pair = c.pair → d.progress ≠ .returned true) :
    Admits T s c shared p where
  grows := hg
  accepted h := by simp [hacc] at h
  cached h := by simp [h, Progress.accepted] at hacc
  recorded h := by rcases h with h | h <;> simp [h, Progress.accepted] at hacc
  closed h := by simp [h, Progress.accepted] at hacc
  asks := hask

theorem Unique.lookup {c : Call} (h : Unique T s) (hmiss : s.localCache c.cacheKey = false) :
    ∀ d ∈ s.calls, d.pair = c.pair → d.progress ≠ .returned true := by
  intro d hd hpair hret
  have := h.cached d hd hret
  rw [Call.cacheKey_congr hpair, hmiss] at this
  cases this

section
variable (h : Unique T s) (hs : advance T c now answer s.toShared = some (shared, p))
include h hs

theorem Unique.send (hc : c ∈ s.calls) (hp : c.progress = .sending) : Admits T s c shared p := by
  simp only [advance, hp] at hs
  split at hs
  · cases hs
    exact .quiet grows_refl rfl (by simp [Progress.asking])
  · rename_i key hkey
    cases hs
    cases hrec : s.recorded key with
    | true => exact .quiet grows_recorded rfl (by simp [Progress.asking])
    | false =>
      refine ⟨grows_recorded, fun _ => .inr ?_, by simp, fun _ => ?_, by simp,
        by simp [Progress.asking]⟩
      · exact h.not_accepted_of_new hc (by simp [hp, Progress.asking]) hkey hrec
      · simp [hkey]
  · cases hs
    exact .quiet grows_recorded rfl (by simp [Progress.asking])
  · cases hs
    exact .quiet grows_refl rfl (by simp [Progress.asking])

theorem Unique.fallback (hi : s.calls[i]? = some c) (hp : c.progress = .fallback)
    (hok : Apart s (.advance i now answer)) : Admits T s c shared p := by
  simp only [advance, hp] at hs
  cases hs
  cases hcache : s.localCache c.cacheKey with
  | true => exact .quiet grows_cache rfl (by simp [Progress.asking])
  | false =>
    have hpath := hok c hi hp hcache
    refine ⟨grows_cache, fun _ => .inr fun d hd hpair => ?_, by simp, by simp,
      fun _ d hd hpair hask => ?_, by simp [Progress.asking]⟩
    · exact h.not_accepted hd (by rwa [Call.cacheKey_congr hpair]) (hpath d hd hpair)
    · have := hpath d hd hpair
      rcases hd' : d.progress with _ | _ | _ | _ | _ | v | v | _ | _ | _ | v <;>
        simp_all [Progress.asking, Progress.onRemotePath]

theorem advance_admits (hi : s.calls[i]? = some c) (hok : Apart s (.advance i now answer)) :
    Admits T s c shared p := by
  have hc : c ∈ s.calls := List.mem_of_getElem? hi
  cases hp : c.progress with
  | sending => exact h.send hs hc hp
  | fallback => exact h.fallback hs hi hp hok
  | lookup =>
    simp only [advance, hp] at hs
    cases hs
    cases hcache : s.localCache c.cacheKey with
    | true => exact .quiet grows_refl rfl (by simp [Progress.asking])
    | false => exact .quiet grows_refl rfl fun _ => .inr (h.lookup hcache)
  | missed | tripped =>
    simp only [advance, hp] at hs
    cases hs
    refine .quiet grows_refl ?_ fun _ => .inl (by simp [hp, Progress.asking])
    (repeat' split) <;> rfl
  | recovering | failed | counted =>
    simp only [advance, hp] at hs
    cases hs
    exact .quiet ⟨fun _ h => h, fun _ h => h⟩ rfl (by simp [hp, Progress.asking])
  | replied isValid =>
    simp only [advance, hp] at hs
    cases hs
    exact ⟨⟨fun _ h => h, fun _ h => h⟩,
      fun hv => .inl (by simpa [hp, Progress.accepted] using hv), by simp,
      fun hv => h.recorded c hc (by simp_all), by simp, by simp [Progress.asking]⟩
  | recording isValid =>
    simp only [advance, hp] at hs
    cases hs
    exact ⟨grows_cache, fun hv => .inl (by simpa [hp, Progress.accepted] using hv), by simp,
      by simp, fun hv _ _ _ _ => h.recorded c hc (by simp_all), by simp [Progress.asking]⟩
  | returned result => simp [advance, hp] at hs

end

theorem step_unique (h : Unique T s) (hok : Apart s a) (hs : step T s a = some s') :
    Unique T s' := by
  cases a with
  | enter nullifierHex epochId =>
    cases hs
    exact h.enter _ (enter_progress nullifierHex epochId)
  | advance i now answer =>
    simp only [step, Option.bind_eq_bind, Option.bind_eq_some_iff,
      Prod.exists] at hs
    obtain ⟨c, hi, shared, p, hs, ⟨⟩⟩ := hs
    exact h.move hi (advance_admits h hs hi hok)
  | other key =>
    cases hs
    exact h.grows grows_recorded

def acceptedOnce : List Action :=
  [.enter (some "n") (some "e"), .advance 0 0 .reply, .advance 0 0 .reply, .advance 0 0 .reply,
    .advance 0 0 .reply, .advance 0 0 .reply, .enter (some "n") (some "e"), .advance 1 0 .reply,
    .enter (some "m") (some "e"), .advance 2 0 .reply, .advance 2 0 .reply,
    .advance 2 0 (.failure true), .advance 2 0 .reply, .advance 2 0 .reply, .advance 2 0 .reply]

end StatusNetwork.Sequencer.NullifierTracker
