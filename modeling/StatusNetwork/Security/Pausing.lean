import Mathlib.Data.List.Pairwise
import StatusNetwork.Security.PauseManager

/-!
# Who can keep what paused

Accounts without the security council role pause in windows of 48 hours that start at least 96
hours apart, so that between two windows everything they paused can be unpaused by anyone, and
stays so. What the council paused last only the council unpauses.
-/

namespace StatusNetwork.Security

open PauseManager (call setPaused)

structure Pausing where
  roles : Roles
  manager : PauseManager

namespace Pausing

inductive Action
  | call (c : PauseManager.Call)
  | grantRole (role : Role) (account : Address)
  | revokeRole (role : Role) (account : Address)
  | renounceRole (role : Role) (account : Address)

/-- Timestamps are far below the largest number. -/
structure Tx where
  sender : Address
  now : Nat
  now_lt : now + PAUSE_DURATION + COOLDOWN_DURATION < MAX_UINT256
  action : Action

variable (s : Pausing)

def apply (tx : Tx) : Except Revert Pausing :=
  match tx.action with
  | .call c => (s.manager.call s.roles tx.now tx.sender c).map fun manager => { s with manager }
  | .grantRole role account =>
    (s.roles.grantRole tx.sender role account).map fun roles => { s with roles }
  | .revokeRole role account =>
    (s.roles.revokeRole tx.sender role account).map fun roles => { s with roles }
  | .renounceRole role account =>
    (s.roles.renounceRole tx.sender role account).map fun roles => { s with roles }

abbrev isPaused (pauseType : PauseType) : Bool := s.manager.isPaused pauseType

def Initial (s : Pausing) : Prop :=
  ∃ pauseTypeRoles unPauseTypeRoles, s.manager = .initialized pauseTypeRoles unPauseTypeRoles

/-- A successful call, other than of `resetNonSecurityCouncilCooldownEnd`. -/
def Step (s : Pausing) (tx : Tx) (s' : Pausing) : Prop :=
  tx.action ≠ .call .resetNonSecurityCouncilCooldownEnd ∧ s.apply tx = .ok s'

/-- A successful pause: of what, when, whether by the council, and the expiry it got. -/
structure Pause where
  pauseType : PauseType
  time : Nat
  byCouncil : Bool
  expiry : Nat
  deriving DecidableEq

def pauses (s : Pausing) (tx : Tx) (s' : Pausing) : List Pause :=
  match tx.action with
  | .call (.pauseByType pauseType) =>
    [⟨pauseType, tx.now, s.roles.hasRole .securityCouncil tx.sender,
      s'.manager.pauseTypeExpiryTimestamps pauseType⟩]
  | _ => []

def Run : Pausing → (now : Nat) → List Pause → Prop := Runs.Logged Tx.now Initial Step pauses

/-- How a run goes on from a state, with the pauses made from there on. -/
def Continues : Pausing → Nat → Pausing → Nat → List Pause → Prop := Runs.Trace Tx.now Step pauses

def lastPause (pauseType : PauseType) (log : List Pause) : Option Pause :=
  (log.filter (·.pauseType = pauseType)).getLast?

variable {s} {s' : Pausing} {tx : Tx}

-- Pausing and unpausing one type

theorem bit_inj {a b : PauseType} : a.bit = b.bit ↔ a = b := by
  cases a <;> cases b <;> decide

theorem bit_lt (a : PauseType) : a.bit < 256 := by
  cases a <;> decide

@[simp] theorem isPaused_setPaused {m : PauseManager} :
    (m.setPaused T e).isPaused T' = (m.isPaused T' || decide (T = T')) := by
  simp [PauseManager.isPaused, setPaused, BitFlags.test_set _ (bit_lt T'), bit_inj]

@[simp] theorem isPaused_cooldownEnd {m : PauseManager} :
    PauseManager.isPaused { m with nonSecurityCouncilCooldownEnd := c } T = m.isPaused T := rfl

@[simp] theorem isPaused_setUnPaused {m : PauseManager} :
    (m.setUnPaused T).isPaused T' = (m.isPaused T' && !decide (T = T')) := by
  simp [PauseManager.isPaused, PauseManager.setUnPaused, BitFlags.test_clear _ (bit_lt T'), bit_inj]

@[simp] theorem expiry_setPaused {m : PauseManager} :
    (m.setPaused T e).pauseTypeExpiryTimestamps T' =
      if T' = T then e else m.pauseTypeExpiryTimestamps T' := by
  simp [setPaused, Function.update_apply]

@[simp] theorem cooldownEnd_setPaused {m : PauseManager} :
    (m.setPaused T e).nonSecurityCouncilCooldownEnd = m.nonSecurityCouncilCooldownEnd := rfl

@[simp] theorem cooldownEnd_setUnPaused {m : PauseManager} :
    (m.setUnPaused T).nonSecurityCouncilCooldownEnd = m.nonSecurityCouncilCooldownEnd := rfl

@[simp] theorem lastPause_append :
    lastPause T (log ++ [p]) = if p.pauseType = T then some p else lastPause T log := by
  by_cases h : p.pauseType = T <;> simp [lastPause, h]

-- One call

/-- What a call does to what is paused, and until when. -/
inductive Effect (s : Pausing) (tx : Tx) (s' : Pausing) : Prop
  | keeps (hlog : pauses s tx s' = [])
      (hpaused : ∀ T, s'.isPaused T = s.isPaused T)
      (hexpiry : ∀ T,
        s'.manager.pauseTypeExpiryTimestamps T = s.manager.pauseTypeExpiryTimestamps T)
      (hcooldown : s'.manager.nonSecurityCouncilCooldownEnd =
        s.manager.nonSecurityCouncilCooldownEnd)
  /-- The council pauses. -/
  | council (T : PauseType) (hT : T ≠ .unused)
      (hlog : pauses s tx s' = [⟨T, tx.now, true, s'.manager.pauseTypeExpiryTimestamps T⟩])
      (hmanager : s'.manager = s.manager.setPaused T MAX_UINT256)
  /-- Others pause, and a window starts. -/
  | opens (T : PauseType) (hT : T ≠ .unused)
      (hnow : s.manager.nonSecurityCouncilCooldownEnd ≤ tx.now)
      (hlog : pauses s tx s' = [⟨T, tx.now, false, s'.manager.pauseTypeExpiryTimestamps T⟩])
      (hmanager : s'.manager = { s.manager.setPaused T (tx.now + PAUSE_DURATION) with
        nonSecurityCouncilCooldownEnd := tx.now + PAUSE_DURATION + COOLDOWN_DURATION })
  /-- Others pause within a window. -/
  | joins (T : PauseType) (hT : T ≠ .unused)
      (hnow : tx.now + COOLDOWN_DURATION < s.manager.nonSecurityCouncilCooldownEnd)
      (hlog : pauses s tx s' = [⟨T, tx.now, false, s'.manager.pauseTypeExpiryTimestamps T⟩])
      (hmanager : s'.manager = s.manager.setPaused T
        (s.manager.nonSecurityCouncilCooldownEnd - COOLDOWN_DURATION))
  | unpauses (T : PauseType) (hlog : pauses s tx s' = [])
      (hallowed : s.manager.pauseTypeExpiryTimestamps T = MAX_UINT256 →
        s.roles.hasRole .securityCouncil tx.sender = true)
      (hmanager : s'.manager = s.manager.setUnPaused T)

theorem pauseByType_effect (ha : tx.action = .call (.pauseByType T))
    (h : s.manager.pauseByType s.roles tx.now tx.sender T = .ok m) :
    Effect s tx { s with manager := m } := by
  simp only [PauseManager.pauseByType, PauseManager.onlyUsedPausedTypes, bind_eq_ok,
    failIf_eq_ok] at h
  obtain ⟨-, hT, -, -, -, -, h⟩ := h
  cases hc : s.roles.hasRole .securityCouncil tx.sender with
  | true =>
    simp only [hc, if_true] at h
    cases h
    exact .council T hT (by simp [pauses, ha, hc]) rfl
  | false =>
    simp only [hc, Bool.false_eq_true, if_false] at h
    have hlt := tx.now_lt
    simp only [MAX_UINT256] at hlt
    have hfirst : wrap (tx.now + PAUSE_DURATION) = tx.now + PAUSE_DURATION :=
      Nat.mod_eq_of_lt (by omega)
    have hsecond : wrap (tx.now + PAUSE_DURATION + COOLDOWN_DURATION) =
        tx.now + PAUSE_DURATION + COOLDOWN_DURATION := by
      rw [wrap, Nat.mod_eq_of_lt (by omega)]
    rw [hfirst] at h
    rw [hsecond] at h
    split at h
    · rename_i hnow
      cases h
      exact .opens T hT hnow (by simp [pauses, ha, hc]) rfl
    · simp only [bind_eq_ok, failIf_eq_ok] at h
      obtain ⟨-, hwindow, ⟨⟩⟩ := h
      exact .joins T hT (by omega) (by simp [pauses, ha, hc]) rfl

theorem unPauseByType_effect (ha : tx.action = .call (.unPauseByType T))
    (h : s.manager.unPauseByType s.roles tx.sender T = .ok m) :
    Effect s tx { s with manager := m } := by
  simp only [PauseManager.unPauseByType, bind_eq_ok, failIf_eq_ok] at h
  obtain ⟨-, -, -, -, -, -, -, hallowed, ⟨⟩⟩ := h
  refine .unpauses T (by simp [pauses, ha]) ?_ rfl
  intro hmax
  simpa [hmax] using hallowed

theorem unPauseByExpiredType_effect (ha : tx.action = .call (.unPauseByExpiredType T))
    (h : s.manager.unPauseByExpiredType tx.now T = .ok m) :
    Effect s tx { s with manager := m } := by
  simp only [PauseManager.unPauseByExpiredType, bind_eq_ok, failIf_eq_ok] at h
  obtain ⟨-, -, -, -, -, hexpired, ⟨⟩⟩ := h
  refine .unpauses T (by simp [pauses, ha]) ?_ rfl
  intro hmax
  have := tx.now_lt
  omega

theorem Step.effect (h : Step s tx s') : Effect s tx s' := by
  obtain ⟨hreset, h⟩ := h
  simp only [apply] at h
  split at h
  · rename_i c ha
    obtain ⟨m, hm, rfl⟩ := map_eq_ok.mp h
    cases c with
    | pauseByType T => exact pauseByType_effect ha hm
    | unPauseByType T => exact unPauseByType_effect ha hm
    | unPauseByExpiredType T => exact unPauseByExpiredType_effect ha hm
    | resetNonSecurityCouncilCooldownEnd => exact absurd ha hreset
    | updatePauseTypeRole | updateUnpauseTypeRole =>
      simp only [call, PauseManager.updatePauseTypeRole, PauseManager.updateUnpauseTypeRole,
        bind_eq_ok] at hm
      obtain ⟨-, -, -, -, -, -, ⟨⟩⟩ := hm
      exact .keeps (by simp [pauses, ha]) (fun _ => rfl) (fun _ => rfl) rfl
  all_goals
    rename_i ha
    obtain ⟨roles, -, rfl⟩ := map_eq_ok.mp h
    exact .keeps (by simp [pauses, ha]) (fun _ => rfl) (fun _ => rfl) rfl

-- Whole runs

/-- What is paused, is paused as the last pause of it left it. -/
structure Current (s : Pausing) (log : List Pause) : Prop where
  used : ∀ p ∈ log, p.pauseType ≠ .unused
  council : ∀ p ∈ log, p.byCouncil = true → p.expiry = MAX_UINT256
  current : ∀ T, s.isPaused T = true →
    ∃ p, lastPause T log = some p ∧ s.manager.pauseTypeExpiryTimestamps T = p.expiry

/-- The windows that have started so far, and the pauses by others than the council in them. -/
structure Windows (starts : List Nat) (cooldownEnd t : Nat) (log : List Pause) : Prop where
  apart : starts.Pairwise fun w w' => w + PAUSE_DURATION + COOLDOWN_DURATION ≤ w'
  opened : ∀ w ∈ starts, ∃ p ∈ log, p.byCouncil = false ∧ p.time = w
  past : ∀ w ∈ starts, w ≤ t ∧ w + PAUSE_DURATION + COOLDOWN_DURATION ≤ cooldownEnd
  latest : cooldownEnd ≠ 0 → ∃ w ∈ starts, cooldownEnd = w + PAUSE_DURATION + COOLDOWN_DURATION
  windows : ∀ p ∈ log, p.byCouncil = false →
    ∃ w ∈ starts, w ≤ p.time ∧ p.time < w + PAUSE_DURATION ∧ p.expiry = w + PAUSE_DURATION

theorem lastPause_mem (h : lastPause T log = some p) : p ∈ log ∧ p.pauseType = T := by
  have := List.mem_of_getLast? h
  simpa using this

theorem Current.pause (hk : Current s log) (hT : T ≠ .unused)
    (hmanager : ∀ T', s'.isPaused T' = (s.manager.setPaused T e).isPaused T' ∧
      s'.manager.pauseTypeExpiryTimestamps T' =
        (s.manager.setPaused T e).pauseTypeExpiryTimestamps T')
    (hcouncil : c = true → e = MAX_UINT256) :
    Current s' (log ++ [⟨T, time, c, s'.manager.pauseTypeExpiryTimestamps T⟩]) := by
  refine ⟨?_, ?_, ?_⟩
  · simpa [or_imp, forall_and] using ⟨hk.used, hT⟩
  · simpa [or_imp, forall_and, (hmanager T).2] using ⟨hk.council, hcouncil⟩
  · intro T' hT'
    rw [(hmanager T').1, isPaused_setPaused] at hT'
    by_cases hTT : T = T'
    · subst hTT
      exact ⟨_, lastPause_append.trans (if_pos rfl), rfl⟩
    · simp only [hTT, decide_false, Bool.or_false] at hT'
      obtain ⟨p, hp, hexpiry⟩ := hk.current T' hT'
      refine ⟨p, by simpa [hTT] using hp, ?_⟩
      simpa [(hmanager T').2, Ne.symm hTT] using hexpiry

theorem Step.current (h : Step s tx s') (hk : Current s log) :
    Current s' (log ++ pauses s tx s') := by
  cases h.effect with
  | keeps hlog hpaused hexpiry _ =>
    rw [hlog, List.append_nil]
    refine ⟨hk.used, hk.council, fun T hT => ?_⟩
    rw [hpaused] at hT
    rw [hexpiry]
    exact hk.current T hT
  | council T hT hlog hmanager =>
    rw [hlog]
    exact hk.pause hT (by simp [isPaused, hmanager]) fun _ => rfl
  | opens T hT _ hlog hmanager =>
    rw [hlog]
    refine hk.pause (e := tx.now + PAUSE_DURATION) hT ?_ (by simp)
    simp [isPaused, hmanager]
  | joins T hT _ hlog hmanager =>
    rw [hlog]
    exact hk.pause hT (fun T' => ⟨by simp [isPaused, hmanager], by rw [hmanager]⟩) (by simp)
  | unpauses T hlog _ hmanager =>
    rw [hlog, List.append_nil]
    refine ⟨hk.used, hk.council, fun T' hT' => ?_⟩
    simp only [isPaused, hmanager, isPaused_setUnPaused, Bool.and_eq_true, Bool.not_eq_true',
      decide_eq_false_iff_not] at hT'
    have := hk.current T' hT'.1
    simpa [hmanager, PauseManager.setUnPaused, Ne.symm hT'.2] using this

theorem Run.current (h : Run s t log) : Current s log := by
  refine Runs.Logged.invariant (I := fun s _ log => Current s log) ?_ ?_ h
  · rintro s t ⟨_, _, hs⟩
    refine ⟨by simp, by simp, ?_⟩
    simp [isPaused, hs, PauseManager.isPaused, PauseManager.initialized]
  · intro s t log tx s' hk _ h
    exact h.current hk

section
variable (hk : Windows starts cooldownEnd t log)
include hk

theorem Windows.later (ht : t ≤ t') : Windows starts cooldownEnd t' log :=
  { hk with past := fun w hw => ⟨Nat.le_trans (hk.past w hw).1 ht, (hk.past w hw).2⟩ }

theorem Windows.council (hp : p.byCouncil = true) : Windows starts cooldownEnd t (log ++ [p]) := by
  refine ⟨hk.apart, ?_, hk.past, hk.latest, ?_⟩
  · intro w hw
    obtain ⟨q, hq, hw⟩ := hk.opened w hw
    exact ⟨q, List.mem_append_left _ hq, hw⟩
  · simpa [or_imp, forall_and, hp] using hk.windows

theorem Windows.joins (hnow : t + COOLDOWN_DURATION < cooldownEnd) :
    Windows starts cooldownEnd t (log ++ [⟨T, t, false, cooldownEnd - COOLDOWN_DURATION⟩]) := by
  refine ⟨hk.apart, ?_, hk.past, hk.latest, ?_⟩
  · intro w hw
    obtain ⟨q, hq, hw⟩ := hk.opened w hw
    exact ⟨q, List.mem_append_left _ hq, hw⟩
  · have hnew : ∃ w ∈ starts, w ≤ t ∧ t < w + PAUSE_DURATION ∧
        cooldownEnd - COOLDOWN_DURATION = w + PAUSE_DURATION := by
      obtain ⟨w, hw, heq⟩ := hk.latest (by omega)
      exact ⟨w, hw, (hk.past w hw).1, by omega, by omega⟩
    simpa [or_imp, forall_and] using ⟨hk.windows, hnew⟩

theorem Windows.opens (hnow : cooldownEnd ≤ t) :
    Windows (starts ++ [t]) (t + PAUSE_DURATION + COOLDOWN_DURATION) t
      (log ++ [⟨T, t, false, t + PAUSE_DURATION⟩]) := by
  refine ⟨?_, ?_, ?_, fun _ => ⟨t, by simp⟩, ?_⟩
  · simpa [List.pairwise_append] using ⟨hk.apart, fun w hw => Nat.le_trans (hk.past w hw).2 hnow⟩
  · simp only [List.mem_append, List.mem_singleton]
    rintro w (hw | rfl)
    · obtain ⟨q, hq, hw⟩ := hk.opened w hw
      exact ⟨q, .inl hq, hw⟩
    · exact ⟨_, .inr rfl, rfl, rfl⟩
  · simp only [List.mem_append, List.mem_singleton]
    rintro w (hw | rfl)
    · have := hk.past w hw
      omega
    · omega
  · simp only [List.mem_append, List.mem_singleton]
    rintro p (hp | rfl) hc
    · obtain ⟨w, hw, hwp⟩ := hk.windows p hp hc
      exact ⟨w, .inl hw, hwp⟩
    · exact ⟨t, .inr rfl, Nat.le_refl _, by simp [PAUSE_DURATION], rfl⟩

omit hk in
theorem Step.windows (h : Step s tx s') (ht : t ≤ tx.now)
    (hk : Windows starts s.manager.nonSecurityCouncilCooldownEnd t log) :
    ∃ starts', Windows starts' s'.manager.nonSecurityCouncilCooldownEnd tx.now
      (log ++ pauses s tx s') := by
  replace hk := hk.later ht
  cases h.effect with
  | keeps hlog _ _ hcooldown =>
    rw [hlog, List.append_nil, hcooldown]
    exact ⟨starts, hk⟩
  | council T _ hlog hmanager =>
    rw [hlog, hmanager]
    exact ⟨starts, hk.council rfl⟩
  | opens T _ hnow hlog hmanager =>
    rw [hlog, hmanager]
    exact ⟨_, by simpa using hk.opens hnow⟩
  | joins T _ hnow hlog hmanager =>
    rw [hlog, hmanager]
    exact ⟨starts, by simpa using hk.joins hnow⟩
  | unpauses T hlog _ hmanager =>
    rw [hlog, List.append_nil, hmanager]
    exact ⟨starts, hk⟩

omit hk in
theorem Run.windows (h : Run s t log) :
    ∃ starts, Windows starts s.manager.nonSecurityCouncilCooldownEnd t log := by
  refine Runs.Logged.invariant
    (I := fun s t log => ∃ starts, Windows starts s.manager.nonSecurityCouncilCooldownEnd t log)
    ?_ ?_ h
  · rintro s t ⟨_, _, hs⟩
    refine ⟨[], .nil, by simp, by simp, ?_, by simp⟩
    simp [hs, PauseManager.initialized]
  · rintro s t log tx s' ⟨starts, hk⟩ ht h
    exact h.windows ht hk

/-- Of two windows one has ended, with its cooldown, when the other starts. -/
theorem Windows.eq_or_apart (hw : w ∈ starts) (hw' : w' ∈ starts) :
    w = w' ∨ w + PAUSE_DURATION + COOLDOWN_DURATION ≤ w' ∨
      w' + PAUSE_DURATION + COOLDOWN_DURATION ≤ w := by
  let R (w w' : Nat) : Prop := w + PAUSE_DURATION + COOLDOWN_DURATION ≤ w' ∨
    w' + PAUSE_DURATION + COOLDOWN_DURATION ≤ w
  have hsymm : Std.Symm R := ⟨fun _ _ => Or.symm⟩
  have hR : starts.Pairwise R := hk.apart.imp Or.inl
  by_cases heq : w = w'
  · exact .inl heq
  · exact .inr (hR.forall hw hw' heq)

theorem Windows.cooldownEnd_eq (hw : w ∈ starts) (ht : t < w + PAUSE_DURATION + COOLDOWN_DURATION) :
    cooldownEnd = w + PAUSE_DURATION + COOLDOWN_DURATION := by
  have hpast := hk.past w hw
  obtain ⟨w', hw', heq⟩ := hk.latest (by omega)
  have := hk.past w' hw'
  rcases hk.eq_or_apart hw hw' with rfl | h | h <;> omega

theorem Windows.ended (hw : w ∈ starts) (hw' : w' ∈ starts)
    (ht : t < w + PAUSE_DURATION + COOLDOWN_DURATION) : w' ≤ w := by
  have := hk.past w' hw'
  rcases hk.eq_or_apart hw hw' with rfl | h | h <;> omega

end

/-- In a cooldown, what is unpaused stays so until its end, but for the council. -/
theorem Continues.stays_unpaused (h : Continues s t s' t' log) (hpaused : s.isPaused T = false)
    (hcooldown : s.manager.nonSecurityCouncilCooldownEnd = w + PAUSE_DURATION + COOLDOWN_DURATION)
    (ht : w + PAUSE_DURATION ≤ t) (ht' : t' < w + PAUSE_DURATION + COOLDOWN_DURATION)
    (hcouncil : ∀ p ∈ log, p.pauseType = T → p.byCouncil = false) : s'.isPaused T = false := by
  refine (Runs.Trace.invariant (I := fun s' t' log => w + PAUSE_DURATION ≤ t' ∧
    (t' < w + PAUSE_DURATION + COOLDOWN_DURATION →
      (∀ p ∈ log, p.pauseType = T → p.byCouncil = false) → s'.isPaused T = false ∧
        s'.manager.nonSecurityCouncilCooldownEnd = w + PAUSE_DURATION + COOLDOWN_DURATION))
    h ⟨ht, fun _ _ => ⟨hpaused, hcooldown⟩⟩ ?_).2 ht' hcouncil |>.1
  rintro s t log tx s' ⟨ht, ih⟩ hle h
  refine ⟨by omega, fun hlt hcouncil => ?_⟩
  obtain ⟨hpaused, hcooldown⟩ := ih (by omega) fun p hp => hcouncil p (List.mem_append_left _ hp)
  cases h.effect with
  | keeps _ hsame _ hcool => exact ⟨by rw [hsame, hpaused], by rw [hcool, hcooldown]⟩
  | council T' _ hlog hmanager =>
    have hT : T' ≠ T := by
      intro hT
      have := hcouncil _ (List.mem_append_right _ (hlog ▸ List.mem_singleton_self _)) hT
      cases this
    simpa [isPaused, hmanager, hT] using ⟨hpaused, hcooldown⟩
  | opens T' _ hnow | joins T' _ hnow => omega
  | unpauses T' _ _ hmanager =>
    refine ⟨?_, by simpa [hmanager] using hcooldown⟩
    simp only [isPaused, hmanager, isPaused_setUnPaused, Bool.and_eq_false_iff]
    exact .inl hpaused

theorem unPauseByExpiredType_succeeds (hT : T ≠ .unused) (hpaused : s.isPaused T = true)
    (hexpired : s.manager.pauseTypeExpiryTimestamps T ≤ tx.now)
    (ha : tx.action = .call (.unPauseByExpiredType T)) :
    s.apply tx = .ok { s with manager := s.manager.setUnPaused T } := by
  have hnot : ¬ tx.now < s.manager.pauseTypeExpiryTimestamps T := Nat.not_lt.mpr hexpired
  simp only [apply, ha, call, map_eq_ok]
  refine ⟨_, ?_, rfl⟩
  simp [PauseManager.unPauseByExpiredType, PauseManager.onlyUsedPausedTypes, failIf, hT,
    hpaused, hnot]

/-- Pauses by others than the council fall into windows that start far apart and end together
with them; in the cooldown of a window anyone can unpause whatever the council did not pause
last, and it stays unpaused to the end of the cooldown but for the council; and what the council
paused last, no one else unpauses. -/
theorem pausing_not_held (h : Run s t log) :
    ∃ starts : List Nat,
      starts.Pairwise (fun w w' => w + PAUSE_DURATION + COOLDOWN_DURATION ≤ w') ∧
      (∀ w ∈ starts, ∃ p ∈ log, p.byCouncil = false ∧ p.time = w) ∧
      (∀ p ∈ log, p.byCouncil = false →
        ∃ w ∈ starts, w ≤ p.time ∧ p.time < w + PAUSE_DURATION ∧ p.expiry = w + PAUSE_DURATION) ∧
      (∀ w ∈ starts, ∀ T p, s.isPaused T = true → lastPause T log = some p → p.byCouncil = false →
        ∀ tx : Tx, tx.action = .call (.unPauseByExpiredType T) → t ≤ tx.now →
          w + PAUSE_DURATION ≤ tx.now → tx.now < w + PAUSE_DURATION + COOLDOWN_DURATION →
          ∃ s', Step s tx s' ∧ s'.isPaused T = false ∧
            ∀ s'' t'' log', Continues s' tx.now s'' t'' log' →
              t'' < w + PAUSE_DURATION + COOLDOWN_DURATION →
              (∀ q ∈ log', q.pauseType = T → q.byCouncil = false) → s''.isPaused T = false) ∧
      (∀ T p, lastPause T log = some p → p.byCouncil = true →
        ∀ tx s', t ≤ tx.now → Step s tx s' → s.roles.hasRole .securityCouncil tx.sender = false →
          s.isPaused T = true → s'.isPaused T = true) := by
  obtain ⟨starts, hw⟩ := h.windows
  have hcur := h.current
  refine ⟨starts, hw.apart, hw.opened, hw.windows, ?_, ?_⟩
  · intro w hws T p hpaused hlast hp tx ha ht hlo hhi
    obtain ⟨hmem, hT⟩ := lastPause_mem hlast
    obtain ⟨p', hlast', hexpiry⟩ := hcur.current T hpaused
    obtain rfl : p = p' := Option.some.inj (hlast.symm.trans hlast')
    obtain ⟨w', hw's, -, -, hexp⟩ := hw.windows p hmem hp
    have hle := hw.ended hws hw's (Nat.lt_of_le_of_lt ht hhi)
    have hok := unPauseByExpiredType_succeeds (hT ▸ hcur.used p hmem) hpaused (by omega) ha
    refine ⟨_, ⟨by simp [ha], hok⟩, by simp [isPaused], ?_⟩
    intro s'' t'' log' hcont ht'' hcouncil
    refine hcont.stays_unpaused (by simp [isPaused]) ?_ hlo ht'' hcouncil
    exact hw.cooldownEnd_eq hws (Nat.lt_of_le_of_lt ht hhi)
  · intro T p hlast hp tx s' ht hstep hrole hpaused
    obtain ⟨p', hlast', hexpiry⟩ := hcur.current T hpaused
    obtain rfl : p = p' := Option.some.inj (hlast.symm.trans hlast')
    have hmax := hexpiry.trans (hcur.council p (lastPause_mem hlast).1 hp)
    cases hstep.effect with
    | keeps _ hsame _ _ => rw [hsame, hpaused]
    | council T' _ _ hmanager | opens T' _ _ _ hmanager => simp [isPaused, hmanager, hpaused]
    | joins T' _ _ _ hmanager => simp [isPaused, hmanager, hpaused]
    | unpauses T' _ hallowed hmanager =>
      have hne : T' ≠ T := by
        rintro rfl
        simp [hallowed hmax] at hrole
      simpa [isPaused, hmanager, hne] using hpaused

theorem pausing_not_held_after_window :
    ∃ s log, Run s 1000 log ∧ s.isPaused .general = true ∧
      ∀ tx : Tx, tx.action = .call (.unPauseByExpiredType .general) →
        tx.now = 1000 + PAUSE_DURATION → ∃ s', Step s tx s' ∧ s'.isPaused .general = false := by
  have h₀ : Run ⟨⟨fun role account => role ≠ .securityCouncil ∨ account = 9⟩, .initialized [] []⟩ 0
      [] := .start 0 ⟨[], [], rfl⟩
  have h : Run _ 1000 _ :=
    Runs.Logged.snoc (a := (⟨1, 1000, by decide, .call (.pauseByType .general)⟩ : Tx)) h₀
      (by decide) ⟨nofun, rfl⟩
  refine ⟨_, _, h, by decide, ?_⟩
  intro tx ha hnow
  obtain ⟨starts, -, -, hwindows, hexpired, -⟩ := pausing_not_held h
  obtain ⟨w, hw, -, -, hexpiry⟩ := hwindows _ (List.mem_singleton_self _) rfl
  obtain rfl : 1000 = w := Nat.add_right_cancel (m := PAUSE_DURATION) hexpiry
  obtain ⟨s', hstep, hunpaused, -⟩ := hexpired 1000 hw .general _ (by decide) rfl rfl tx ha
    (by omega) (by omega) (by simp [hnow, COOLDOWN_DURATION])
  exact ⟨s', hstep, hunpaused⟩

end Pausing

end StatusNetwork.Security
