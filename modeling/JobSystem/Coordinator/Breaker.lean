import JobSystem.Lib.Double
import JobSystem.Coordinator.Job

/-!
# Circuit breakers

`WorkerCircuitBreaker` and `CircuitBreakerManager`. A worker without a tracker has a new one as soon
as it is asked for, so `breaker` is defined for every worker. The clock readings are the values of
doubles.

* `recordSuccess`, `recordFailure`, `canAssignTask`;
* `Due`: an open breaker whose timeout has passed; `Admits`: `can_assign_task` answers `True`;
* `breaker_*`: the breakers after each operation of the manager.
-/

namespace JobSystem

open PyText

/-- `CircuitBreakerState`. -/
inductive CircuitBreakerState where
  | CLOSED
  | OPEN
  | HALF_OPEN
  deriving DecidableEq

/-- The text of a state. -/
def CircuitBreakerState.text : CircuitBreakerState → Str
  | .CLOSED => "CLOSED".toList
  | .OPEN => "OPEN".toList
  | .HALF_OPEN => "HALF_OPEN".toList

/-- One worker's breaker. -/
structure WorkerCircuitBreaker where
  failure_threshold : ℤ
  recovery_timeout : ℚ
  state : CircuitBreakerState
  consecutive_failures : ℕ
  last_failure_time : ℚ
  trial_task_assigned : Bool

namespace WorkerCircuitBreaker

/-- A new breaker. -/
def new (failure_threshold : ℤ) (recovery_timeout : ℚ) : WorkerCircuitBreaker :=
  ⟨failure_threshold, recovery_timeout, .CLOSED, 0, 0, false⟩

/-- `record_success`. -/
def recordSuccess (b : WorkerCircuitBreaker) : WorkerCircuitBreaker :=
  match b.state with
  | .HALF_OPEN => { b with state := .CLOSED, consecutive_failures := 0, trial_task_assigned := false }
  | .CLOSED => { b with consecutive_failures := 0 }
  | .OPEN => b

/-- `record_failure` at the time `now`. -/
def recordFailure (b : WorkerCircuitBreaker) (now : ℚ) : WorkerCircuitBreaker :=
  let b' := { b with consecutive_failures := b.consecutive_failures + 1, last_failure_time := now }
  match b.state with
  | .HALF_OPEN => { b' with state := .OPEN, trial_task_assigned := false }
  | .CLOSED =>
    if b.failure_threshold ≤ b'.consecutive_failures then { b' with state := .OPEN } else b'
  | .OPEN => b'

/-- `can_assign_task` at the time `now`: the breaker after it and the answer. -/
def canAssignTask (b : WorkerCircuitBreaker) (now : ℚ) : WorkerCircuitBreaker × Bool :=
  match b.state with
  | .OPEN =>
    if b.recovery_timeout ≤ Double.diff now b.last_failure_time then
      ({ b with state := .HALF_OPEN, trial_task_assigned := true }, true)
    else (b, false)
  | .HALF_OPEN =>
    if b.trial_task_assigned then (b, false) else ({ b with trial_task_assigned := true }, true)
  | .CLOSED => (b, true)

/-- The breaker is open and its timeout has passed. -/
def Due (b : WorkerCircuitBreaker) (now : ℚ) : Prop :=
  b.state = .OPEN ∧ b.recovery_timeout ≤ Double.diff now b.last_failure_time

instance (b : WorkerCircuitBreaker) (now : ℚ) : Decidable (b.Due now) :=
  inferInstanceAs (Decidable (_ ∧ _))

/-- The breaker lets a job through: it is closed, or due, or half open with its trial unspent. -/
def Admits (b : WorkerCircuitBreaker) (now : ℚ) : Prop :=
  b.state = .CLOSED ∨ b.Due now ∨ b.state = .HALF_OPEN ∧ b.trial_task_assigned = false

instance (b : WorkerCircuitBreaker) (now : ℚ) : Decidable (b.Admits now) :=
  inferInstanceAs (Decidable (_ ∨ _ ∨ _))

theorem canAssignTask_snd (b : WorkerCircuitBreaker) (now : ℚ) :
    (b.canAssignTask now).2 = decide (b.Admits now) := by
  rw [Bool.eq_iff_iff, decide_eq_true_iff]
  unfold canAssignTask Admits Due
  cases hs : b.state with
  | CLOSED => simp
  | OPEN => by_cases h : b.recovery_timeout ≤ Double.diff now b.last_failure_time <;> simp [h]
  | HALF_OPEN => by_cases h : b.trial_task_assigned = true <;> simp [h]

/-- A half-open breaker has given its trial away. -/
def Spent (b : WorkerCircuitBreaker) : Prop := b.state = .HALF_OPEN → b.trial_task_assigned = true

theorem spent_new (failure_threshold : ℤ) (recovery_timeout : ℚ) :
    (new failure_threshold recovery_timeout).Spent := by
  intro h
  cases h

/-- Only a due breaker becomes half open. -/
theorem canAssignTask_of_not_due {b : WorkerCircuitBreaker} {now : ℚ} (hb : b.Spent)
    (h : ¬ b.Due now) : (b.canAssignTask now).1 = b := by
  unfold canAssignTask
  cases hs : b.state with
  | CLOSED => rfl
  | OPEN => simp only; rw [if_neg fun hle => h ⟨hs, hle⟩]
  | HALF_OPEN => simp only; rw [if_pos (hb hs)]

theorem canAssignTask_of_due {b : WorkerCircuitBreaker} {now : ℚ} (h : b.Due now) :
    b.canAssignTask now = ({ b with state := .HALF_OPEN, trial_task_assigned := true }, true) := by
  unfold canAssignTask
  rw [h.1]
  simp only
  rw [if_pos h.2]

/-- No outcome leaves a breaker half open. -/
theorem state_recordSuccess_ne (b : WorkerCircuitBreaker) : b.recordSuccess.state ≠ .HALF_OPEN := by
  unfold recordSuccess
  cases hs : b.state <;> simp [hs]

theorem state_recordFailure_ne (b : WorkerCircuitBreaker) (now : ℚ) :
    (b.recordFailure now).state ≠ .HALF_OPEN := by
  unfold recordFailure
  cases hs : b.state with
  | CLOSED => simp only; split_ifs <;> simp
  | OPEN => simp
  | HALF_OPEN => simp

end WorkerCircuitBreaker

/-- The breakers of all workers. -/
structure CircuitBreakerManager where
  failure_threshold : ℤ
  recovery_timeout : ℚ
  breakers : PyDict Str WorkerCircuitBreaker

namespace CircuitBreakerManager

/-- A new manager. -/
def new (failure_threshold : ℤ) (recovery_timeout : ℚ) : CircuitBreakerManager :=
  ⟨failure_threshold, recovery_timeout, ∅⟩

/-- `get_breaker`: the breaker, a new one where there is none. -/
def breaker (m : CircuitBreakerManager) (worker_id : Str) : WorkerCircuitBreaker :=
  (m.breakers.get? worker_id).getD (.new m.failure_threshold m.recovery_timeout)

/-- The manager after an operation on a worker's breaker. -/
def setBreaker (m : CircuitBreakerManager) (worker_id : Str) (b : WorkerCircuitBreaker) :
    CircuitBreakerManager := { m with breakers := m.breakers.set worker_id b }

/-- `publish_alert`, when the state has changed. -/
def publishAlert (worker_id : Str) (old_state new_state : CircuitBreakerState) : List Event :=
  if old_state = new_state then []
  else
    [.alert (if new_state = .OPEN then "CRITICAL".toList else "INFO".toList)
      ("Circuit breaker for worker '".toList ++ worker_id ++ "' transitioned from ".toList ++
        old_state.text ++ " to ".toList ++ new_state.text)]

theorem alert_of_mem_publishAlert {w : Str} {old_state new_state : CircuitBreakerState} {e : Event}
    (he : e ∈ publishAlert w old_state new_state) : ∃ level message, e = .alert level message := by
  unfold publishAlert at he
  by_cases h : old_state = new_state
  · rw [if_pos h] at he
    cases he
  · rw [if_neg h] at he
    exact ⟨_, _, List.mem_singleton.mp he⟩

/-- `record_success`. -/
def recordSuccess (m : CircuitBreakerManager) (worker_id : Str) :
    CircuitBreakerManager × List Event :=
  let b := m.breaker worker_id
  (m.setBreaker worker_id b.recordSuccess, publishAlert worker_id b.state b.recordSuccess.state)

/-- `record_failure`. -/
def recordFailure (m : CircuitBreakerManager) (worker_id : Str) (now : ℚ) :
    CircuitBreakerManager × List Event :=
  let b := m.breaker worker_id
  (m.setBreaker worker_id (b.recordFailure now),
    publishAlert worker_id b.state (b.recordFailure now).state)

/-- `can_assign_task`. -/
def canAssignTask (m : CircuitBreakerManager) (worker_id : Str) (now : ℚ) :
    CircuitBreakerManager × Bool × List Event :=
  let b := m.breaker worker_id
  (m.setBreaker worker_id (b.canAssignTask now).1, (b.canAssignTask now).2,
    publishAlert worker_id b.state (b.canAssignTask now).1.state)

/-- `remove_worker`. -/
def removeWorker (m : CircuitBreakerManager) (worker_id : Str) : CircuitBreakerManager :=
  { m with breakers := m.breakers.erase worker_id }

theorem breaker_new (failure_threshold : ℤ) (recovery_timeout : ℚ) (w : Str) :
    (new failure_threshold recovery_timeout).breaker w = .new failure_threshold recovery_timeout :=
  rfl

theorem breaker_setBreaker (m : CircuitBreakerManager) (w w' : Str) (b : WorkerCircuitBreaker) :
    (m.setBreaker w b).breaker w' = if w' = w then b else m.breaker w' := by
  unfold setBreaker breaker
  rw [PyDict.get?_set]
  split_ifs <;> rfl

end CircuitBreakerManager

end JobSystem
