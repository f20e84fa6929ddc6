import Mathlib.Algebra.Order.Group.Int
import Mathlib.Algebra.Ring.Int.Defs
import Mathlib.Algebra.Ring.Nat
import StatusNetwork.Base.Interleaving

/-!
# The message ids of the RLN prover

Models `on_new_tx` and `incr_tx_counter` of `user_db_2.rs` as `send_transaction` calls them, for
one registered user. The requests run concurrently, each in a `READ COMMITTED` transaction of its
own: a `SELECT` sees the last committed row and takes no lock; an `UPDATE` waits for the row lock,
writes to the row as last committed, and keeps the lock until the transaction ends.
-/

namespace StatusNetwork.RlnProver

open Interleaving (exists_reaches getElem?_concat_some getElem?_set_some)

structure TxCounter where
  epoch : Int
  epochCounter : Int
  quotaBonus : Int
  deriving DecidableEq

def saturatingAdd (a b : Int) : Int := max (-2 ^ 63) (min (2 ^ 63 - 1) (a + b))

def asI64 (n : Nat) : Int := Int.bmod n (2 ^ 64)

def asU64 (n : Int) : Nat := (n % 2 ^ 64).toNat

def txCounterIncr (txGasQuota estimatedGasUsed : Nat) : Option Nat :=
  if estimatedGasUsed ≤ txGasQuota then none else some (estimatedGasUsed / txGasQuota)

def incrValue (txGasQuota estimatedGasUsed : Nat) : Int :=
  ((txCounterIncr txGasQuota estimatedGasUsed).map asI64).getD 1

/-- Where a request stands in `incr_tx_counter`. -/
inductive Progress
  | entered
  | epochRead (epoch : Int)
  | selected (epoch : Int) (res : Option TxCounter)
  | updated (epoch : Int) (newTxCounter : TxCounter)
  | committed
  | failed
  deriving DecidableEq

structure Request where
  incrValue : Int
  progress : Progress
  deriving DecidableEq

/-- What `on_new_tx` returns to an accepted request, with the epoch the request counts for. -/
structure Reply where
  request : Nat
  epoch : Int
  incrValue : Int
  counter : Nat
  deriving DecidableEq

structure State where
  epochStore : Int
  row : Option TxCounter
  lock : Option Nat
  requests : List Request
  accepted : List Reply
  deriving DecidableEq

inductive Action
  | request (estimatedGasUsed : Nat)
  | advance (i : Nat)
  | rollback (i : Nat)
  | newEpoch (epoch : Int)

/-- The row an `UPDATE` leaves: `model` is what the `SELECT` read, `latest` the row as last
committed. -/
def update (epoch incrValue : Int) (model latest : TxCounter) : TxCounter :=
  if model.epoch = 0 ∨ epoch ≠ model.epoch then
    { epoch := epoch, epochCounter := incrValue, quotaBonus := 0 }
  else { latest with epochCounter := saturatingAdd model.epochCounter incrValue }

def State.move (s : State) (i : Nat) (r : Request) (p : Progress) : State :=
  { s with requests := s.requests.set i { r with progress := p } }

def advance (s : State) (i : Nat) (r : Request) : Option State :=
  match r.progress with
  | .entered => some (s.move i r (.epochRead s.epochStore))
  | .epochRead epoch => some (s.move i r (.selected epoch s.row))
  | .selected epoch res =>
    if s.lock.isSome then none
    else match res, s.row with
      | some model, some latest =>
        some { s.move i r (.updated epoch (update epoch r.incrValue model latest)) with
          lock := some i }
      | none, none =>
        some { s.move i r (.updated epoch
            { epoch := epoch, epochCounter := r.incrValue, quotaBonus := 0 }) with
          lock := some i }
      -- no row to return, or the address is already there
      | some _, none | none, some _ => some (s.move i r .failed)
  | .updated epoch newTxCounter =>
    some { s.move i r .committed with
      row := some newTxCounter
      lock := none
      accepted := s.accepted ++
        [{ request := i, epoch, incrValue := r.incrValue
           counter := asU64 newTxCounter.epochCounter }] }
  | .committed | .failed => none

def step (txGasQuota : Nat) (s : State) : Action → Option State
  | .request estimatedGasUsed =>
    some { s with requests := s.requests ++
      [{ incrValue := incrValue txGasQuota estimatedGasUsed, progress := .entered }] }
  | .advance i => do
    let r ← s.requests[i]?
    advance s i r
  | .rollback i => do
    let r ← s.requests[i]?
    if r.progress = .committed then none
    else some { s.move i r .failed with lock := if s.lock = some i then none else s.lock }
  | .newEpoch epoch => if s.epochStore ≤ epoch then some { s with epochStore := epoch } else none

def registered (epochStore : Int) : State where
  epochStore
  row := some { epoch := 0, epochCounter := 0, quotaBonus := 0 }
  lock := none
  requests := []
  accepted := []

abbrev Reaches (txGasQuota : Nat) (ok : State → Action → Prop) (epochStore : Int) : State → Prop :=
  Interleaving.Reaches (step txGasQuota) ok (registered epochStore)

def accumulated (accepted : List Reply) (epoch : Int) : Int :=
  ((accepted.filter fun a => a.epoch = epoch).map Reply.incrValue).sum

-- Two requests with one message id

/-- Both requests read the row before either writes it. -/
def lostUpdate : List Action :=
  [.newEpoch 1, .request 21000, .request 21000, .advance 0, .advance 1, .advance 0, .advance 1,
    .advance 0, .advance 0, .advance 1, .advance 1]

theorem exists_message_id_twice :
    ∃ s, Reaches 100000 (fun _ _ => True) 0 s ∧
      s.accepted = [{ request := 0, epoch := 1, incrValue := 1, counter := 1 },
        { request := 1, epoch := 1, incrValue := 1, counter := 1 }] ∧
      s.row = some { epoch := 1, epochCounter := 1, quotaBonus := 0 } ∧
      accumulated s.accepted 1 = 2 := by
  obtain ⟨s, hs, hobs⟩ : ∃ s, Reaches 100000 (fun _ _ => True) 0 s ∧
      (s.accepted, s.row, accumulated s.accepted 1) =
        ([{ request := 0, epoch := 1, incrValue := 1, counter := 1 },
          { request := 1, epoch := 1, incrValue := 1, counter := 1 }],
        some { epoch := 1, epochCounter := 1, quotaBonus := 0 }, 2) :=
    exists_reaches lostUpdate _ (by decide +kernel)
  simp only [Prod.mk.injEq] at hobs
  exact ⟨s, hs, hobs⟩

-- Requests one after the other

def Progress.active : Progress → Bool
  | .epochRead _ | .selected _ _ | .updated _ _ => true
  | .entered | .committed | .failed => false

/-- No two requests overlap, all count for epochs after the first, increments are positive and the
counter does not saturate. -/
def Serial (txGasQuota : Nat) (s : State) : Action → Prop
  | .request estimatedGasUsed => 0 < incrValue txGasQuota estimatedGasUsed
  | .advance i => ∀ r ∈ s.requests[i]?, match r.progress with
    | .entered => 0 < s.epochStore ∧ ∀ q ∈ s.requests, q.progress.active = false
    | .selected _ res => ∀ model ∈ res, model.epochCounter + r.incrValue < 2 ^ 63
    | _ => True
  | .rollback _ | .newEpoch _ => True

instance : Decidable (Serial txGasQuota s a) := by
  unfold Serial
  split <;> [infer_instance; skip; infer_instance; infer_instance]
  refine @Option.decidableForallMem _ _ (fun r => ?_) _
  split <;> infer_instance

/-- The committed row against the replies given so far. -/
structure Counted (row : TxCounter) (accepted : List Reply) : Prop where
  epoch_le : ∀ a ∈ accepted, a.epoch ≤ row.epoch
  epoch_ne : ∀ a ∈ accepted, a.epoch ≠ 0
  counter_le : ∀ a ∈ accepted, a.epoch = row.epoch → a.counter ≤ row.epochCounter
  nonneg : 0 ≤ row.epochCounter
  sum : row.epoch ≠ 0 → row.epochCounter = accumulated accepted row.epoch
  nodup : (accepted.map fun a => (a.epoch, a.counter)).Nodup

theorem accumulated_concat (accepted : List Reply) (a : Reply) (epoch : Int) :
    accumulated (accepted ++ [a]) epoch =
      accumulated accepted epoch + if a.epoch = epoch then a.incrValue else 0 := by
  unfold accumulated
  split <;> simp [*]

theorem accumulated_of_lt (h : ∀ a ∈ accepted, a.epoch < epoch) :
    accumulated accepted epoch = 0 := by
  have : accepted.filter (fun a => decide (a.epoch = epoch)) = [] := by
    simpa using fun a ha => (h a ha).ne
  simp [accumulated, this]

theorem asU64_of_lt (h₀ : 0 ≤ n) (h : n < 2 ^ 63) : (asU64 n : Int) = n := by
  unfold asU64
  rw [Int.emod_eq_of_lt h₀ (by omega), Int.toNat_of_nonneg h₀]

/-- A reply with a counter above all those of its epoch keeps the message ids apart. -/
theorem Counted.concat (h : Counted row accepted) (hle : row.epoch ≤ row'.epoch)
    (hne : row'.epoch ≠ 0) (hlt : row'.epochCounter < 2 ^ 63)
    (hsum : row'.epochCounter = accumulated accepted row'.epoch + incr)
    (hcounter : ∀ a ∈ accepted, a.epoch = row'.epoch → (a.counter : Int) < row'.epochCounter)
    (hpos : 0 < row'.epochCounter) :
    Counted row' (accepted ++ [⟨i, row'.epoch, incr, asU64 row'.epochCounter⟩]) where
  epoch_le := by
    simp only [List.mem_append, List.mem_singleton, or_imp, forall_and, forall_eq]
    exact ⟨fun a ha => (h.epoch_le a ha).trans hle, le_rfl⟩
  epoch_ne := by
    simpa [or_imp, forall_and, hne] using h.epoch_ne
  counter_le := by
    simp only [List.mem_append, List.mem_singleton, or_imp, forall_and, forall_eq]
    exact ⟨fun a ha he => (hcounter a ha he).le, fun _ => (asU64_of_lt hpos.le hlt).le⟩
  nonneg := hpos.le
  sum _ := by simp [accumulated_concat, hsum]
  nodup := by
    have hnew : ∀ a ∈ accepted, ¬ (a.epoch = row'.epoch ∧ a.counter = asU64 row'.epochCounter) := by
      rintro a ha ⟨he, hc⟩
      have := hcounter a ha he
      have := asU64_of_lt hpos.le hlt
      omega
    simpa [List.nodup_append, h.nodup] using hnew

/-- A transaction whose `SELECT` and `UPDATE` see the same row counts its increment once. -/
theorem Counted.update (h : Counted row accepted) (hle : row.epoch ≤ epoch) (hne : epoch ≠ 0)
    (hincr : 0 < incr) (hlt : row.epochCounter + incr < 2 ^ 63) :
    Counted (update epoch incr row row) (accepted ++
      [⟨i, epoch, incr, asU64 (RlnProver.update epoch incr row row).epochCounter⟩]) := by
  have hrow := h.nonneg
  by_cases hreset : row.epoch = 0 ∨ epoch ≠ row.epoch
  · have hu : RlnProver.update epoch incr row row = ⟨epoch, incr, 0⟩ := if_pos hreset
    -- nothing has been counted for the new epoch
    have hnew : ∀ a ∈ accepted, a.epoch < epoch := by
      intro a ha
      have := h.epoch_le a ha
      omega
    rw [hu]
    refine h.concat hle hne (by dsimp only; omega) ?_ ?_ hincr
    · simp [accumulated_of_lt hnew]
    · exact fun a ha he => absurd he (hnew a ha).ne
  · rw [not_or, not_not] at hreset
    obtain ⟨hrow₀, rfl⟩ := hreset
    have hu : RlnProver.update row.epoch incr row row =
        { row with epochCounter := row.epochCounter + incr } := by
      simp only [RlnProver.update, hrow₀, ne_eq, not_true_eq_false, or_self, if_false,
        saturatingAdd]
      congr 1
      omega
    rw [hu]
    refine h.concat le_rfl hne hlt ?_ ?_ (by dsimp only; omega)
    · simp [h.sum hrow₀]
    · intro a ha he
      have := h.counter_le a ha he
      dsimp only
      omega

/-- What an unfinished request knows of the committed row. -/
def Informed (s : State) (r : Request) : Prop :=
  match r.progress with
  | .entered => True
  | .epochRead epoch => epoch ≠ 0 ∧ epoch ≤ s.epochStore ∧ ∀ row ∈ s.row, row.epoch ≤ epoch
  | .selected epoch res =>
    epoch ≠ 0 ∧ epoch ≤ s.epochStore ∧ (∀ row ∈ s.row, row.epoch ≤ epoch) ∧ res = s.row
  | .updated epoch newTxCounter =>
    epoch ≠ 0 ∧ epoch ≤ s.epochStore ∧ ∀ row ∈ s.row, row.epoch ≤ epoch ∧
      row.epochCounter + r.incrValue < 2 ^ 63 ∧
      newTxCounter = update epoch r.incrValue row row
  | .committed | .failed => True

structure Serialised (s : State) : Prop where
  counted : ∃ row, s.row = some row ∧ Counted row s.accepted
  row_le : ∀ row ∈ s.row, row.epoch = 0 ∨ row.epoch ≤ s.epochStore
  incr_pos {i : Nat} {r : Request} : s.requests[i]? = some r → 0 < r.incrValue
  informed {i : Nat} {r : Request} : s.requests[i]? = some r → Informed s r
  alone {i j : Nat} {r q : Request} : s.requests[i]? = some r → s.requests[j]? = some q →
    r.progress.active → q.progress.active → i = j

theorem registered_serialised : Serialised (registered epochStore) where
  counted := ⟨_, rfl, by constructor <;> simp [registered]⟩
  row_le := by simp [registered]
  incr_pos := by simp [registered]
  informed := by simp [registered]
  alone := by simp [registered]

theorem informed_of_inactive (h : r.progress.active = false) : Informed s r := by
  unfold Informed
  split <;> simp_all [Progress.active]

theorem Informed.newEpoch (h : Informed s r) (hle : s.epochStore ≤ epoch) :
    Informed { s with epochStore := epoch } r := by
  unfold Informed at h ⊢
  split at h <;> simp_all <;> omega

theorem Serialised.move (h : Serialised s) (hi : s.requests[i]? = some r)
    (hinf : Informed s { r with progress := p })
    (hact : p.active → r.progress.active ∨ ∀ q ∈ s.requests, q.progress.active = false) :
    Serialised { s.move i r p with lock := lock } where
  counted := h.counted
  row_le := h.row_le
  incr_pos hj := by
    obtain ⟨-, rfl⟩ | ⟨-, hj⟩ := getElem?_set_some hj
    · exact (h.incr_pos hi : 0 < r.incrValue)
    · exact h.incr_pos hj
  informed hj := by
    obtain ⟨-, rfl⟩ | ⟨-, hj⟩ := getElem?_set_some hj
    · exact hinf
    · exact h.informed hj
  alone {j k q q'} hj hk hq hq' := by
    have hothers : ∀ {k : Nat} {q : Request}, s.requests[k]? = some q → q.progress.active →
        p.active → k = i := by
      intro k q hk hq hp
      rcases hact hp with hr | hnone
      · exact h.alone hk hi hq hr
      · simp [hnone q (List.mem_of_getElem? hk)] at hq
    obtain ⟨rfl, rfl⟩ | ⟨-, hj'⟩ := getElem?_set_some hj <;>
      obtain ⟨rfl, rfl⟩ | ⟨-, hk'⟩ := getElem?_set_some hk
    · rfl
    · exact (hothers hk' hq' hq).symm
    · exact hothers hj' hq hq'
    · exact h.alone hj' hk' hq hq'

theorem Serialised.commit (h : Serialised s) (hi : s.requests[i]? = some r)
    (hp : r.progress = .updated epoch newTxCounter) :
    Serialised { s.move i r .committed with
      row := some newTxCounter
      lock := none
      accepted := s.accepted ++ [⟨i, epoch, r.incrValue, asU64 newTxCounter.epochCounter⟩] } := by
  obtain ⟨row, hrow, hcounted⟩ := h.counted
  have hinf := h.informed hi
  simp only [Informed, hp] at hinf
  obtain ⟨hne, hstore, hinf⟩ := hinf
  obtain ⟨hle, hlt, rfl⟩ := hinf row hrow
  have hepoch : (update epoch r.incrValue row row).epoch = epoch := by
    unfold update
    split
    · rfl
    · rename_i hsame
      exact (not_not.mp (not_or.mp hsame).2).symm
  -- the other requests are idle, so the new row is news to none of them
  have hidle : ∀ {j : Nat} {q : Request}, s.requests[j]? = some q → j ≠ i →
      q.progress.active = false := by
    intro j q hj hne'
    by_contra hq
    exact hne' (h.alone hj hi (by simpa using hq) (by simp [hp, Progress.active]))
  constructor
  · exact ⟨_, rfl, hcounted.update hle hne (h.incr_pos hi) hlt⟩
  · rintro _ ⟨⟩
    exact .inr (hepoch.le.trans hstore)
  · intro j q hj
    obtain ⟨-, rfl⟩ | ⟨-, hj⟩ := getElem?_set_some hj
    · exact (h.incr_pos hi : 0 < r.incrValue)
    · exact h.incr_pos hj
  · intro j q hj
    obtain ⟨-, rfl⟩ | ⟨hji, hj⟩ := getElem?_set_some hj
    · exact informed_of_inactive rfl
    · exact informed_of_inactive (hidle hj hji)
  · intro j k q q' hj hk hq hq'
    obtain ⟨-, rfl⟩ | ⟨hji, hj⟩ := getElem?_set_some hj
    · cases hq
    · simp [hidle hj hji] at hq

theorem advance_serialised (h : Serialised s) (hi : s.requests[i]? = some r)
    (hok : Serial txGasQuota s (.advance i)) (hs : advance s i r = some s') : Serialised s' := by
  have hinf := h.informed hi
  have hok := hok r hi
  unfold advance at hs
  unfold Informed at hinf
  generalize hp : r.progress = p at hs hinf hok
  cases p with
  | entered =>
    cases hs
    refine h.move hi ?_ fun _ => .inr hok.2
    refine ⟨hok.1.ne', le_rfl, fun row hrow => ?_⟩
    rcases h.row_le row hrow with h₀ | hle
    · exact h₀ ▸ hok.1.le
    · exact hle
  | epochRead epoch =>
    cases hs
    exact h.move hi ⟨hinf.1, hinf.2.1, hinf.2.2, rfl⟩ fun _ => .inl (by simp [hp, Progress.active])
  | selected epoch res =>
    obtain ⟨row, hrow, -⟩ := h.counted
    obtain ⟨hne, hstore, hle, rfl⟩ := hinf
    simp only [hrow, Option.mem_some_iff, forall_eq'] at hok hle
    simp only [hrow] at hs
    split at hs
    · cases hs
    · cases hs
      refine h.move hi ⟨hne, hstore, ?_⟩ fun _ => .inl (by simp [hp, Progress.active])
      rw [hrow]
      rintro _ ⟨⟩
      exact ⟨hle, hok, rfl⟩
  | updated epoch newTxCounter =>
    cases hs
    exact h.commit hi hp
  | committed | failed => cases hs

theorem step_serialised (h : Serialised s) (hok : Serial txGasQuota s a)
    (hs : step txGasQuota s a = some s') : Serialised s' := by
  cases a with
  | request estimatedGasUsed =>
    cases hs
    constructor
    · exact h.counted
    · exact h.row_le
    · intro i r hi
      obtain hi | rfl := getElem?_concat_some hi
      · exact h.incr_pos hi
      · exact hok
    · intro i r hi
      obtain hi | rfl := getElem?_concat_some hi
      · exact h.informed hi
      · trivial
    · intro i j r q hi hj hr hq
      obtain hi | rfl := getElem?_concat_some hi
      · obtain hj | rfl := getElem?_concat_some hj
        · exact h.alone hi hj hr hq
        · cases hq
      · cases hr
  | advance i =>
    simp only [step, Option.bind_eq_bind, Option.bind_eq_some_iff] at hs
    obtain ⟨r, hi, hs⟩ := hs
    exact advance_serialised h hi hok hs
  | rollback i =>
    simp only [step, Option.bind_eq_bind, Option.bind_eq_some_iff] at hs
    obtain ⟨r, hi, hs⟩ := hs
    split at hs
    · cases hs
    · cases hs
      exact h.move hi trivial nofun
  | newEpoch epoch =>
    simp only [step] at hs
    split at hs
    · rename_i hle
      cases hs
      refine ⟨h.counted, fun row hrow => ?_, h.incr_pos, fun hi => (h.informed hi).newEpoch hle,
        h.alone⟩
      exact (h.row_le row hrow).imp id (fun h => h.trans hle)
    · cases hs

/-- If the requests of the user do not overlap, count for epochs after the first with positive
increments and do not exhaust the counter, then no message id is used twice in an epoch, and the
stored counter is the sum of the increments of its epoch. -/
theorem message_ids_distinct (h : Reaches txGasQuota (Serial txGasQuota) epochStore s) :
    (s.accepted.map fun a => (a.epoch, a.counter)).Nodup ∧
      ∀ row ∈ s.row, row.epoch ≠ 0 → row.epochCounter = accumulated s.accepted row.epoch := by
  have hs : Serialised s :=
    h.invariant registered_serialised fun _ _ _ hi hok hs => step_serialised hi hok hs
  obtain ⟨row, hrow, hcounted⟩ := hs.counted
  refine ⟨hcounted.nodup, ?_⟩
  simpa [hrow] using hcounted.sum

def serialRequests : List Action :=
  [.newEpoch 1, .request 21000, .advance 0, .advance 0, .advance 0, .advance 0,
    .request 300000, .advance 1, .advance 1, .advance 1, .advance 1,
    .newEpoch 2, .request 21000, .advance 2, .advance 2, .advance 2, .advance 2]

theorem message_ids_distinct_over_two_epochs :
    ∃ s, Reaches 100000 (Serial 100000) 0 s ∧
      s.accepted = [⟨0, 1, 1, 1⟩, ⟨1, 1, 3, 4⟩, ⟨2, 2, 1, 1⟩] ∧
      (s.accepted.map fun a => (a.epoch, a.counter)).Nodup := by
  obtain ⟨s, hs, haccepted⟩ : ∃ s, Reaches 100000 (Serial 100000) 0 s ∧
      s.accepted = [⟨0, 1, 1, 1⟩, ⟨1, 1, 3, 4⟩, ⟨2, 2, 1, 1⟩] :=
    exists_reaches serialRequests State.accepted (by decide +kernel)
  exact ⟨s, hs, haccepted, (message_ids_distinct hs).1⟩

end StatusNetwork.RlnProver
