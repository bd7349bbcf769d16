import JobSystem.Lib.Trans
import JobSystem.Coordinator.Service

/-!
# The metrics collector

`MetricsCollector`: the telemetry that it keeps in the cache, and its handlers, each with the alerts
that it publishes. Time and rounding are exact, and alerts have no time.

* `flushToCache`, `onRegister` … `onAlertReceived`;
* `workers_alive_*`, `queue_depth_*`: the two counters after each handler;
* `Census`: the collector and the coordinator on the same registrations and failures; `Genuine`: an
  event that changes who is registered; **`counted_step_iff`**, **`workers_alive_iff`**.
-/

namespace JobSystem

open PyText Trans
open PyJson (Json)

/-- The nearest integer, and of two the even one. -/
def roundHalfEven (x : ℚ) : ℤ :=
  if x - ⌊x⌋ < 1 / 2 then ⌊x⌋
  else if 1 / 2 < x - ⌊x⌋ then ⌊x⌋ + 1
  else if ⌊x⌋ % 2 = 0 then ⌊x⌋ else ⌊x⌋ + 1

/-- `round(x, n)`. -/
def roundTo (n : ℕ) (x : ℚ) : ℚ := roundHalfEven (x * 10 ^ n) / 10 ^ n

/-- `self.telemetry`. -/
structure Telemetry where
  workers_alive : ℕ
  queue_depth : ℕ
  latency : ℚ
  rps : ℚ
  failures : ℕ

/-- The collector, with `telemetry` and `alerts` of the metrics cache. -/
structure MetricsCollector where
  telemetry : Telemetry
  start_times : PyDict Str ℚ
  completed_count : ℕ
  window_start : ℚ
  cached : Option Telemetry
  alerts : List (Str × Str)

namespace MetricsCollector

/-- A new collector. -/
def new (window_start : ℚ) : MetricsCollector := ⟨⟨0, 0, 0, 0, 0⟩, ∅, 0, window_start, none, []⟩

/-! ## The handlers -/

/-- `flush_to_cache`. -/
def flushToCache (m : MetricsCollector) (now : ℚ) : MetricsCollector :=
  let elapsed := now - m.window_start
  let telemetry :=
    if 0 < elapsed then { m.telemetry with rps := roundTo 2 (m.completed_count / elapsed) }
    else m.telemetry
  { m with telemetry := telemetry, cached := some telemetry }

/-- `on_register`. -/
def onRegister (m : MetricsCollector) (worker_id : Str) (now : ℚ) : MetricsCollector × List Event :=
  let telemetry := { m.telemetry with workers_alive := m.telemetry.workers_alive + 1 }
  ({ m with telemetry := telemetry }.flushToCache now,
    [.alert "INFO".toList ("Worker '".toList ++ worker_id ++ "' registered ".toList)])

/-- `on_worker_failed`: `max(0, workers_alive - 1)`. -/
def onWorkerFailed (m : MetricsCollector) (worker_id : Str) (now : ℚ) :
    MetricsCollector × List Event :=
  let telemetry := { m.telemetry with workers_alive := m.telemetry.workers_alive - 1 }
  ({ m with telemetry := telemetry }.flushToCache now,
    [.alert "CRITICAL".toList ("Worker '".toList ++ worker_id ++ "' heartbeat timeout".toList)])

/-- `on_job_submitted`. -/
def onJobSubmitted (m : MetricsCollector) (now : ℚ) : MetricsCollector :=
  let telemetry := { m.telemetry with queue_depth := m.telemetry.queue_depth + 1 }
  { m with telemetry := telemetry }.flushToCache now

/-- `on_task_assigned`: `max(0, queue_depth - 1)`. -/
def onTaskAssigned (m : MetricsCollector) (now : ℚ) : MetricsCollector :=
  let telemetry := { m.telemetry with queue_depth := m.telemetry.queue_depth - 1 }
  { m with telemetry := telemetry }.flushToCache now

/-- `on_job_started`. -/
def onJobStarted (m : MetricsCollector) (job : Job) (now : ℚ) : MetricsCollector :=
  if job.id = [] then m else { m with start_times := m.start_times.set job.id now }

/-- `on_job_completed`. -/
def onJobCompleted (m : MetricsCollector) (job : Job) (now : ℚ) : MetricsCollector :=
  let m := { m with completed_count := m.completed_count + 1 }
  match m.start_times.get? job.id with
  | some started =>
    let latency := roundTo 3 (m.telemetry.latency * (9 / 10) + (now - started) * (1 / 10))
    { m with
      telemetry := { m.telemetry with latency := latency }
      start_times := m.start_times.erase job.id }.flushToCache now
  | none => m.flushToCache now

/-- `on_task_failed`. -/
def onTaskFailed (m : MetricsCollector) (worker_id : Str) (job : Job) (now : ℚ) :
    MetricsCollector × List Event :=
  let telemetry := { m.telemetry with failures := m.telemetry.failures + 1 }
  ({ m with telemetry := telemetry }.flushToCache now,
    [.alert "WARNING".toList ("Task '".toList ++ job.id ++ "' failed on worker '".toList ++
      worker_id ++ "'.".toList)])

/-- `on_alert_received`: the last fifteen alerts. -/
def onAlertReceived (m : MetricsCollector) (level message : Str) : MetricsCollector :=
  { m with alerts := (level, message) :: m.alerts.take 14 }

/-! ## The counters -/

section Counters

variable (m : MetricsCollector) (w : Str) (job : Job) (now : ℚ)

@[simp] theorem workers_alive_flushToCache :
    (m.flushToCache now).telemetry.workers_alive = m.telemetry.workers_alive := by
  unfold flushToCache
  dsimp only
  split_ifs <;> rfl

@[simp] theorem queue_depth_flushToCache :
    (m.flushToCache now).telemetry.queue_depth = m.telemetry.queue_depth := by
  unfold flushToCache
  dsimp only
  split_ifs <;> rfl

theorem workers_alive_onRegister :
    (m.onRegister w now).1.telemetry.workers_alive = m.telemetry.workers_alive + 1 := by
  unfold onRegister
  rw [workers_alive_flushToCache]

theorem workers_alive_onWorkerFailed :
    (m.onWorkerFailed w now).1.telemetry.workers_alive = m.telemetry.workers_alive - 1 := by
  unfold onWorkerFailed
  rw [workers_alive_flushToCache]

theorem queue_depth_onRegister :
    (m.onRegister w now).1.telemetry.queue_depth = m.telemetry.queue_depth := by
  unfold onRegister
  rw [queue_depth_flushToCache]

theorem queue_depth_onWorkerFailed :
    (m.onWorkerFailed w now).1.telemetry.queue_depth = m.telemetry.queue_depth := by
  unfold onWorkerFailed
  rw [queue_depth_flushToCache]

theorem queue_depth_onJobSubmitted :
    (m.onJobSubmitted now).telemetry.queue_depth = m.telemetry.queue_depth + 1 := by
  unfold onJobSubmitted
  rw [queue_depth_flushToCache]

theorem queue_depth_onTaskAssigned :
    (m.onTaskAssigned now).telemetry.queue_depth = m.telemetry.queue_depth - 1 := by
  unfold onTaskAssigned
  rw [queue_depth_flushToCache]

theorem queue_depth_onJobCompleted :
    (m.onJobCompleted job now).telemetry.queue_depth = m.telemetry.queue_depth := by
  unfold onJobCompleted
  dsimp only
  split
  · rw [queue_depth_flushToCache]
  · rw [queue_depth_flushToCache]

theorem queue_depth_onTaskFailed :
    (m.onTaskFailed w job now).1.telemetry.queue_depth = m.telemetry.queue_depth := by
  unfold onTaskFailed
  rw [queue_depth_flushToCache]

end Counters

end MetricsCollector

/-! ## The census -/

/-- The collector, and the coordinator whose registry it counts. -/
structure Census where
  collector : MetricsCollector
  coord : CoordinatorService

namespace Census

/-- The events. -/
inductive Label where
  | register (w : Str) (capacity : Option ℤ) (now : ℚ)
  | workerFailed (w : Str) (now : ℚ)

/-- Each event is handled by the collector and by every subscription of the coordinator. -/
def step : Machine Census Label
  | .register w capacity now, s =>
    some ⟨(s.collector.onRegister w now).1,
      (s.coord.handleRegister w capacity now).persistWorker w capacity now⟩
  | .workerFailed w now, s =>
    some ⟨(s.collector.onWorkerFailed w now).1, (s.coord.handleWorkerFailure w).handleWorkerFailed w⟩

/-- A collector and a coordinator that have just started. -/
def start (window_start : ℚ) (failure_threshold : ℤ) (recovery_timeout heartbeat_timeout : ℚ)
    (max_retries : ℤ) (store : PostgresStore) : Census :=
  ⟨.new window_start, .new failure_threshold recovery_timeout heartbeat_timeout max_retries store⟩

/-- The reported number is that of the registry. -/
def Counted (s : Census) : Prop :=
  s.collector.telemetry.workers_alive = s.coord.registry.workers.size

instance : DecidablePred Counted := fun s =>
  inferInstanceAs (Decidable (s.collector.telemetry.workers_alive = s.coord.registry.workers.size))

/-- A registration is of a new worker, and a failure that of a worker that is registered; where there
is no worker, no failure is counted. -/
def Genuine (s : Census) : Label → Prop
  | .register w _ _ => w ≠ [] ∧ w ∉ s.coord.registry
  | .workerFailed w _ => w ∈ s.coord.registry ∨ s.coord.registry.workers.size = 0

variable {s s' : Census}

/-- No worker has the empty name. -/
theorem named_step (h : ([] : Str) ∉ s.coord.registry) {l : Label} (hs : step l s = some s') :
    ([] : Str) ∉ s'.coord.registry := by
  intro hmem
  cases l with
  | register w capacity now =>
    cases hs
    rcases CoordinatorService.mem_handleRegister.mp hmem with hmem | ⟨rfl, hw⟩
    · exact h hmem
    · exact hw rfl
  | workerFailed w now =>
    cases hs
    rw [CoordinatorService.registry_handleWorkerFailed] at hmem
    unfold CoordinatorService.handleWorkerFailure at hmem
    split_ifs at hmem
    · exact h hmem
    · exact h (WorkerRegistry.mem_removeWorker.mp hmem).2

/-- **One event** keeps the count exactly if it is genuine. -/
theorem counted_step_iff (hnamed : ([] : Str) ∉ s.coord.registry) (h : s.Counted) {l : Label}
    (hs : step l s = some s') : s'.Counted ↔ s.Genuine l := by
  have hcount : s.collector.telemetry.workers_alive = s.coord.registry.workers.size := h
  cases l with
  | register w capacity now =>
    cases hs
    show (s.collector.onRegister w now).1.telemetry.workers_alive =
      (s.coord.handleRegister w capacity now).registry.workers.size ↔ w ≠ [] ∧ w ∉ s.coord.registry
    rw [MetricsCollector.workers_alive_onRegister, hcount, CoordinatorService.handleRegister]
    by_cases hw : w = []
    · rw [if_pos hw]
      exact iff_of_false (by omega) fun hg => hg.1 hw
    · rw [if_neg hw]
      show _ = (s.coord.registry.workers.set w _).size ↔ _
      by_cases hmem : w ∈ s.coord.registry
      · rw [PyDict.size_set_of_mem hmem]
        exact iff_of_false (by omega) fun hg => hg.2 hmem
      · rw [PyDict.size_set_of_notMem hmem]
        exact iff_of_true rfl ⟨hw, hmem⟩
  | workerFailed w now =>
    cases hs
    show (s.collector.onWorkerFailed w now).1.telemetry.workers_alive =
      ((s.coord.handleWorkerFailure w).handleWorkerFailed w).registry.workers.size ↔
        w ∈ s.coord.registry ∨ s.coord.registry.workers.size = 0
    rw [MetricsCollector.workers_alive_onWorkerFailed, hcount,
      CoordinatorService.registry_handleWorkerFailed, CoordinatorService.handleWorkerFailure]
    by_cases hmem : w ∈ s.coord.registry
    · have hw : w ≠ [] := fun hw => hnamed (hw ▸ hmem)
      have hsize := PyDict.size_erase_of_mem (d := s.coord.registry.workers) hmem
      rw [if_neg hw]
      show _ = (s.coord.registry.workers.erase w).size ↔ _
      exact iff_of_true (by omega) (.inl hmem)
    · have hsame : (if w = [] then s.coord else { s.coord with
          registry := s.coord.registry.removeWorker w }).registry.workers.size =
          s.coord.registry.workers.size := by
        split_ifs
        · rfl
        · show (s.coord.registry.workers.erase w).size = _
          rw [PyDict.erase_of_notMem hmem]
      rw [hsame, or_iff_right hmem]
      omega

/-- **The reported number is right all along a run** exactly if every event is genuine. -/
theorem workers_alive_iff (window_start : ℚ) (failure_threshold : ℤ)
    (recovery_timeout heartbeat_timeout : ℚ) (max_retries : ℤ) (store : PostgresStore)
    (events : List Label) :
    (∀ handled s, handled <+: events → run step handled (start window_start failure_threshold
        recovery_timeout heartbeat_timeout max_retries store) = some s → s.Counted) ↔
      Guarded step Genuine events (start window_start failure_threshold recovery_timeout
        heartbeat_timeout max_retries store) := by
  refine run_invariant_iff (J := fun s => ([] : Str) ∉ s.coord.registry) ?_ ?_ ?_
    (WorkerRegistry.notMem_empty []) rfl
  · intro l s s' hnamed _ hs _
    exact named_step hnamed hs
  · intro l s s' hnamed h hs
    exact counted_step_iff hnamed h hs
  · intro l s hs _ _
    cases l <;> cases hs

/-- A worker registers again. -/
def registeredTwice : List Label := [.register ['a'] (some 1) 0, .register ['a'] (some 1) 1]

theorem not_counted_registeredTwice : ¬ ∀ (events : List Label) (s : Census),
    run step events (start 0 3 5 10 3 ⟨true, true, ∅, ∅⟩) = some s → s.Counted := by
  intro h
  have hcounted := h registeredTwice _ rfl
  exact absurd hcounted (by decide +kernel)

end Census

end JobSystem
