import JobSystem.Lib.Bus
import JobSystem.Lib.Trans
import JobSystem.Coordinator.Service

/-!
# The running system

The coordinator, its bus subscriptions with a channel each, and the workers. Every handler is one
step; the channels are drained in any order. `submitted`, `queued` and `completed` record the ids of
the jobs that were published, queued by `handle_job_submitted`, and completed by a worker.

* `Subscription`, `System`, `System.step`;
* `Step`, **`step_cases`**: what each step does;
* `Valid`, `valid_step`: what holds in every state;
* `online_step`, `steady_step`: the database is on or off for a whole run.
-/

namespace JobSystem

open PyText Trans
open PyJson (Json)

/-- The topics, without those that only the metrics and the logger read. -/
inductive Topic where
  | JOB_SUBMITTED
  | JOB_COMPLETED
  | WORKER_FAILED
  | HEARTBEAT
  | TASK_ASSIGNED
  | REGISTER
  | TASK_FAILED
  | MOVE_TO_DLQ
  | ALERT_EVENT
  deriving DecidableEq

/-- `event["event"]`. -/
def Event.topic : Event → Topic
  | .register _ _ => .REGISTER
  | .heartbeat _ => .HEARTBEAT
  | .jobSubmitted _ => .JOB_SUBMITTED
  | .workerFailed _ => .WORKER_FAILED
  | .taskAssigned _ _ => .TASK_ASSIGNED
  | .jobCompleted _ _ _ => .JOB_COMPLETED
  | .taskFailed _ _ _ => .TASK_FAILED
  | .moveToDlq _ _ => .MOVE_TO_DLQ
  | .alert _ _ => .ALERT_EVENT

/-- The id of the job that an event carries. -/
def Event.jobId? : Event → Option Str
  | .jobSubmitted job => some job.id
  | .taskAssigned _ job => some job.id
  | .jobCompleted _ job _ => some job.id
  | .taskFailed _ job _ => some job.id
  | _ => none

/-- The subscriptions of `CoordinatorService.__init__` and `EventLoop.__init__`. -/
inductive Subscription where
  | handle_register
  | handle_job_submitted
  | handle_heartbeat
  | handle_worker_failure
  | handle_worker_failed
  | handle_job_completed
  | handle_task_failed
  | persist_worker
  | persist_task
  | persist_task_assigned
  | persist_task_completed
  | send_to_worker
  deriving DecidableEq

namespace Subscription

instance : Fintype Subscription :=
  Fintype.ofList
    [handle_register, handle_job_submitted, handle_heartbeat, handle_worker_failure,
      handle_worker_failed, handle_job_completed, handle_task_failed, persist_worker, persist_task,
      persist_task_assigned, persist_task_completed, send_to_worker]
    fun sub => by cases sub <;> decide

/-- The topic subscribed to. -/
def topic : Subscription → Topic
  | handle_register => .REGISTER
  | handle_job_submitted => .JOB_SUBMITTED
  | handle_heartbeat => .HEARTBEAT
  | handle_worker_failure => .WORKER_FAILED
  | handle_worker_failed => .WORKER_FAILED
  | handle_job_completed => .JOB_COMPLETED
  | handle_task_failed => .TASK_FAILED
  | persist_worker => .REGISTER
  | persist_task => .JOB_SUBMITTED
  | persist_task_assigned => .TASK_ASSIGNED
  | persist_task_completed => .JOB_COMPLETED
  | send_to_worker => .TASK_ASSIGNED

/-- The events that reach a subscription. -/
def listens (sub : Subscription) (e : Event) : Bool := sub.topic = e.topic

end Subscription

/-- The coordinator, the channels, the connected workers and the jobs that they have. -/
structure System where
  coord : CoordinatorService
  bus : Bus Subscription Event
  connected : List Str
  running : List (Str × Job)
  submitted : List Str
  queued : List Str
  completed : List Str

namespace System

/-- The steps. -/
inductive Label where
  | submit (job : Job)
  | register (w : Str) (capacity : Option ℤ)
  | heartbeat (w : Str)
  | assign (now : Str → ℚ)
  | deliver (sub : Subscription) (now : ℚ)
  | complete (i : ℕ) (result : Option Json)
  | fail (i : ℕ) (error : Option Json)
  | crash (w : Str)
  | monitor (w : Str) (now : ℚ)

/-- `publish`. -/
def publish (s : System) (e : Event) : System :=
  { s with bus := s.bus.publish Subscription.listens e }

/-- `publish`, for each event. -/
def publishAll (s : System) (es : List Event) : System :=
  { s with bus := s.bus.publishAll Subscription.listens es }

theorem mem_bus_publish {s : System} {e e' : Event} {sub : Subscription} :
    e' ∈ (s.publish e).bus sub ↔ e' ∈ s.bus sub ∨ sub.listens e = true ∧ e' = e := Bus.mem_publish

/-- `handler_func(event)`; `send_to_worker` reaches a worker that is connected. -/
def handle (repr : Json → Str) (s : System) (now : ℚ) : Subscription → Event → System
  | .handle_register, .register w capacity =>
    { s with coord := s.coord.handleRegister w capacity now }
  | .handle_job_submitted, .jobSubmitted job =>
    { s with coord := s.coord.handleJobSubmitted job, queued := job.id :: s.queued }
  | .handle_heartbeat, .heartbeat w => { s with coord := s.coord.handleHeartbeat w now }
  | .handle_worker_failure, .workerFailed w => { s with coord := s.coord.handleWorkerFailure w }
  | .handle_worker_failed, .workerFailed w => { s with coord := s.coord.handleWorkerFailed w }
  | .handle_job_completed, .jobCompleted w _ _ =>
    { s with coord := (s.coord.handleJobCompleted w).1 }.publishAll (s.coord.handleJobCompleted w).2
  | .handle_task_failed, .taskFailed w job error =>
    { s with coord := (s.coord.handleTaskFailed w job error now).1 }.publishAll
      (s.coord.handleTaskFailed w job error now).2
  | .persist_worker, .register w capacity =>
    { s with coord := s.coord.persistWorker w capacity now }
  | .persist_task, .jobSubmitted job => { s with coord := s.coord.persistTask repr job }
  | .persist_task_assigned, .taskAssigned w job =>
    { s with coord := s.coord.persistTaskAssigned w job }
  | .persist_task_completed, .jobCompleted _ job result =>
    { s with coord := s.coord.persistTaskCompleted job result }
  | .send_to_worker, .taskAssigned w job =>
    if w ≠ [] ∧ w ∈ s.connected then { s with running := s.running ++ [(w, job)] } else s
  | _, _ => s

/-- The monitor publishes for a registered worker that has been silent too long; a worker that
crashes loses its jobs. -/
def step (repr : Json → Str) : Machine System Label
  | .submit job, s =>
    some ({ s with submitted := job.id :: s.submitted }.publish (.jobSubmitted job))
  | .register w capacity, s =>
    some ({ s with connected := w :: s.connected }.publish (.register w capacity))
  | .heartbeat w, s => if w ∈ s.connected then some (s.publish (.heartbeat w)) else none
  | .assign now, s => some ({ s with coord := (s.coord.assign now).1 }.publishAll (s.coord.assign now).2)
  | .deliver sub now, s =>
    match s.bus sub with
    | [] => none
    | e :: _ => some ({ s with bus := s.bus.rest sub }.handle repr now sub e)
  | .complete i result, s =>
    s.running[i]?.map fun p =>
      { s with running := s.running.eraseIdx i, completed := p.2.id :: s.completed }.publish
        (.jobCompleted p.1 p.2 result)
  | .fail i error, s =>
    s.running[i]?.map fun p =>
      { s with running := s.running.eraseIdx i }.publish (.taskFailed p.1 p.2 error)
  | .crash w, s =>
    if w ∈ s.connected then
      some { s with
        connected := s.connected.filter (· ≠ w)
        running := s.running.filter fun p => p.1 ≠ w }
    else none
  | .monitor w now, s =>
    match s.coord.registry.workers.get? w with
    | some data =>
      if s.coord.heartbeat_timeout < Double.diff now data.last_heartbeat then
        some (s.publish (.workerFailed w))
      else none
    | none => none

/-- A coordinator that has just started. -/
def init (coord : CoordinatorService) : System := ⟨coord, .silent, [], [], [], [], []⟩

/-- A new system on the given database. -/
def start (failure_threshold : ℤ) (recovery_timeout heartbeat_timeout : ℚ) (max_retries : ℤ)
    (store : PostgresStore) : System :=
  init (.new failure_threshold recovery_timeout heartbeat_timeout max_retries store)

/-- The default settings, on an empty database. -/
def emptyStart : System := start 3 5 10 3 ⟨true, true, ∅, ∅⟩

/-- A job is submitted, stored and given to the only worker; its assignment is not stored yet. -/
def assignedAlone (job : Job) : List Label :=
  [.register ['a'] (some 1), .deliver .handle_register 0, .deliver .persist_worker 0, .submit job,
    .deliver .persist_task 0, .deliver .handle_job_submitted 0, .assign fun _ => 0,
    .deliver .send_to_worker 0]

/-- A job without a payload. -/
def plainJob : Job := TaskRepository.rebuiltJob ['1'] "ok".toList "LOW".toList

/-- The plain job is assigned. -/
def oneAssigned : List Label := assignedAlone plainJob

/-- The ids of the jobs that wait at a subscription. -/
def waiting (s : System) (sub : Subscription) : List Str := (s.bus sub).filterMap Event.jobId?

/-- The id that a step submits. -/
def Label.submitted? : Label → Option Str
  | .submit job => some job.id
  | _ => none

/-- Every channel is empty. -/
def Quiet (s : System) : Prop := ∀ sub, (s.bus sub).isEmpty = true

instance (s : System) : Decidable s.Quiet := inferInstanceAs (Decidable (∀ _, _))

/-- How many events of a job wait at a subscription. -/
def pending (s : System) (sub : Subscription) (t : Str) : ℕ := (s.waiting sub).count t

/-! ## What a step does -/

/-- Two events that nobody in the system listens to. -/
theorem listens_alert (sub : Subscription) (level message : Str) :
    sub.listens (.alert level message) = false := by
  cases sub <;> rfl

theorem listens_moveToDlq (sub : Subscription) (job : Job) (error : Json) :
    sub.listens (.moveToDlq job error) = false := by
  cases sub <;> rfl

/-- The steps, with the head of the channel in a delivery. -/
inductive Step (repr : Json → Str) (s : System) : Label → System → Prop
  | submit (job : Job) :
    Step repr s (.submit job)
      ({ s with submitted := job.id :: s.submitted }.publish (.jobSubmitted job))
  | register (w : Str) (capacity : Option ℤ) :
    Step repr s (.register w capacity)
      ({ s with connected := w :: s.connected }.publish (.register w capacity))
  | heartbeat (w : Str) : Step repr s (.heartbeat w) (s.publish (.heartbeat w))
  | idle (now : Str → ℚ) (m : CircuitBreakerManager) :
    Step repr s (.assign now) { s with coord := { s.coord with circuit_breaker_manager := m } }
  | assign (now : Str → ℚ) (m : CircuitBreakerManager) (e : QueueEntry) (q : JobPriorityQueue)
      (w : Str) (hpq : s.coord.job_queue.pq = e :: q.pq)
      (hcounter : q.counter = s.coord.job_queue.counter) (hw : w ≠ []) :
    Step repr s (.assign now)
      ({ s with
          coord := { s.coord with
            job_queue := q
            circuit_breaker_manager := m
            registry := s.coord.registry.incrementLoad w } }.publish (.taskAssigned w e.job))
  | complete (i : ℕ) (result : Option Json) (w : Str) (job : Job)
      (h : s.running[i]? = some (w, job)) :
    Step repr s (.complete i result)
      ({ s with running := s.running.eraseIdx i, completed := job.id :: s.completed }.publish
        (.jobCompleted w job result))
  | fail (i : ℕ) (error : Option Json) (w : Str) (job : Job) (h : s.running[i]? = some (w, job)) :
    Step repr s (.fail i error)
      ({ s with running := s.running.eraseIdx i }.publish (.taskFailed w job error))
  | crash (w : Str) :
    Step repr s (.crash w)
      { s with
        connected := s.connected.filter (· ≠ w)
        running := s.running.filter fun p => p.1 ≠ w }
  | monitor (w : Str) (now : ℚ) (hw : w ∈ s.coord.registry) :
    Step repr s (.monitor w now) (s.publish (.workerFailed w))
  | handle_register (now : ℚ) (w : Str) (capacity : Option ℤ) (es : List Event)
      (h : s.bus .handle_register = .register w capacity :: es) :
    Step repr s (.deliver .handle_register now)
      { s with
        bus := s.bus.rest .handle_register
        coord := s.coord.handleRegister w capacity now }
  | handle_job_submitted (now : ℚ) (job : Job) (es : List Event)
      (h : s.bus .handle_job_submitted = .jobSubmitted job :: es) :
    Step repr s (.deliver .handle_job_submitted now)
      { s with
        bus := s.bus.rest .handle_job_submitted
        coord := s.coord.handleJobSubmitted job
        queued := job.id :: s.queued }
  | handle_heartbeat (now : ℚ) (w : Str) (es : List Event)
      (h : s.bus .handle_heartbeat = .heartbeat w :: es) :
    Step repr s (.deliver .handle_heartbeat now)
      { s with bus := s.bus.rest .handle_heartbeat, coord := s.coord.handleHeartbeat w now }
  | handle_worker_failure (now : ℚ) (w : Str) (es : List Event)
      (h : s.bus .handle_worker_failure = .workerFailed w :: es) :
    Step repr s (.deliver .handle_worker_failure now)
      { s with bus := s.bus.rest .handle_worker_failure, coord := s.coord.handleWorkerFailure w }
  | handle_worker_failed (now : ℚ) (w : Str) (es : List Event)
      (h : s.bus .handle_worker_failed = .workerFailed w :: es) :
    Step repr s (.deliver .handle_worker_failed now)
      { s with bus := s.bus.rest .handle_worker_failed, coord := s.coord.handleWorkerFailed w }
  | handle_job_completed (now : ℚ) (w : Str) (job : Job) (result : Option Json) (es : List Event)
      (h : s.bus .handle_job_completed = .jobCompleted w job result :: es) :
    Step repr s (.deliver .handle_job_completed now)
      { s with
        bus := s.bus.rest .handle_job_completed
        coord := (s.coord.handleJobCompleted w).1 }
  | handle_task_failed (now : ℚ) (w : Str) (job : Job) (error : Option Json) (es : List Event)
      (h : s.bus .handle_task_failed = .taskFailed w job error :: es) :
    Step repr s (.deliver .handle_task_failed now)
      { s with
        bus := s.bus.rest .handle_task_failed
        coord := (s.coord.handleTaskFailed w job error now).1 }
  | persist_worker (now : ℚ) (w : Str) (capacity : Option ℤ) (es : List Event)
      (h : s.bus .persist_worker = .register w capacity :: es) :
    Step repr s (.deliver .persist_worker now)
      { s with bus := s.bus.rest .persist_worker, coord := s.coord.persistWorker w capacity now }
  | persist_task (now : ℚ) (job : Job) (es : List Event)
      (h : s.bus .persist_task = .jobSubmitted job :: es) :
    Step repr s (.deliver .persist_task now)
      { s with bus := s.bus.rest .persist_task, coord := s.coord.persistTask repr job }
  | persist_task_assigned (now : ℚ) (w : Str) (job : Job) (es : List Event)
      (h : s.bus .persist_task_assigned = .taskAssigned w job :: es) :
    Step repr s (.deliver .persist_task_assigned now)
      { s with
        bus := s.bus.rest .persist_task_assigned
        coord := s.coord.persistTaskAssigned w job }
  | persist_task_completed (now : ℚ) (w : Str) (job : Job) (result : Option Json) (es : List Event)
      (h : s.bus .persist_task_completed = .jobCompleted w job result :: es) :
    Step repr s (.deliver .persist_task_completed now)
      { s with
        bus := s.bus.rest .persist_task_completed
        coord := s.coord.persistTaskCompleted job result }
  | send_to_worker (now : ℚ) (w : Str) (job : Job) (es : List Event) (sent : List (Str × Job))
      (h : s.bus .send_to_worker = .taskAssigned w job :: es) (hsent : sent = [] ∨ sent = [(w, job)]) :
    Step repr s (.deliver .send_to_worker now)
      { s with bus := s.bus.rest .send_to_worker, running := s.running ++ sent }

section Cases

variable {repr : Json → Str} {s s' : System}

/-- A delivery gives the handler an event that it listens to. -/
theorem step_deliver (hheard : s.bus.Heard Subscription.listens) {sub : Subscription} {now : ℚ}
    (h : step repr (.deliver sub now) s = some s') : Step repr s (.deliver sub now) s' := by
  simp only [step] at h
  cases hb : s.bus sub with
  | nil =>
    rw [hb] at h
    cases h
  | cons e es =>
    rw [hb] at h
    cases h
    have htopic : sub.topic = e.topic :=
      of_decide_eq_true (hheard sub e (hb ▸ List.mem_cons_self))
    cases sub <;> cases e <;>
      simp only [Subscription.topic, Event.topic, reduceCtorEq] at htopic
    case handle_register.register w capacity => exact .handle_register now w capacity es hb
    case handle_job_submitted.jobSubmitted job => exact .handle_job_submitted now job es hb
    case handle_heartbeat.heartbeat w => exact .handle_heartbeat now w es hb
    case handle_worker_failure.workerFailed w => exact .handle_worker_failure now w es hb
    case handle_worker_failed.workerFailed w => exact .handle_worker_failed now w es hb
    case handle_job_completed.jobCompleted w job result =>
      have hquiet : Bus.publishAll Subscription.listens (s.bus.rest .handle_job_completed)
          (s.coord.handleJobCompleted w).2 = s.bus.rest .handle_job_completed :=
        Bus.publishAll_of_unheard fun e he sub => by
          obtain ⟨level, message, rfl⟩ := CoordinatorService.mem_handleJobCompleted_events he
          exact listens_alert sub level message
      simp only [handle, publishAll, hquiet]
      exact .handle_job_completed now w job result es hb
    case handle_task_failed.taskFailed w job error =>
      have hquiet : Bus.publishAll Subscription.listens (s.bus.rest .handle_task_failed)
          (s.coord.handleTaskFailed w job error now).2 = s.bus.rest .handle_task_failed :=
        Bus.publishAll_of_unheard fun e he sub => by
          rcases CoordinatorService.mem_handleTaskFailed_events he with ⟨level, message, rfl⟩ | ⟨err, rfl⟩
          · exact listens_alert sub level message
          · exact listens_moveToDlq sub job err
      simp only [handle, publishAll, hquiet]
      exact .handle_task_failed now w job error es hb
    case persist_worker.register w capacity => exact .persist_worker now w capacity es hb
    case persist_task.jobSubmitted job => exact .persist_task now job es hb
    case persist_task_assigned.taskAssigned w job => exact .persist_task_assigned now w job es hb
    case persist_task_completed.jobCompleted w job result => exact .persist_task_completed now w job result es hb
    case send_to_worker.taskAssigned w job =>
      simp only [handle]
      split_ifs
      · exact .send_to_worker now w job es [(w, job)] hb (.inr rfl)
      · have := @Step.send_to_worker repr s now w job es [] hb (.inl rfl)
        rwa [List.append_nil] at this

theorem step_assign {now : Str → ℚ} (h : step repr (.assign now) s = some s') :
    Step repr s (.assign now) s' := by
  have halerts : Bus.publishAll Subscription.listens s.bus (s.coord.admitAvailable now).2.2 =
      s.bus := Bus.publishAll_of_unheard fun e he sub => by
    obtain ⟨level, message, rfl⟩ := alerts_admitAll _ he
    exact listens_alert sub level message
  cases h
  cases hq : s.coord.job_queue.isEmpty with
  | true =>
    rw [CoordinatorService.assign_of_isEmpty hq]
    exact .idle now s.coord.circuit_breaker_manager
  | false =>
    by_cases hp : ∃ w, w ≠ [] ∧ Preferred (s.coord.admitted now) w
    · obtain ⟨w, hw, hp⟩ := hp
      obtain ⟨e, q, hpq, hcounter, hassign⟩ := CoordinatorService.assign_of_preferred hq hw hp
      rw [hassign]
      simp only [publishAll, Bus.publishAll_append, halerts]
      exact .assign now _ e q w hpq hcounter hw
    · push Not at hp
      rw [CoordinatorService.assign_of_not_preferred hq hp]
      simp only [publishAll, halerts]
      exact .idle now _

/-- **What a step does.** -/
theorem step_cases (hheard : s.bus.Heard Subscription.listens) {l : Label}
    (h : step repr l s = some s') : Step repr s l s' := by
  cases l with
  | submit job => cases h; exact .submit job
  | register w capacity => cases h; exact .register w capacity
  | heartbeat w =>
    simp only [step] at h
    split_ifs at h
    cases h
    exact .heartbeat w
  | assign now => exact step_assign h
  | deliver sub now => exact step_deliver hheard h
  | complete i result =>
    obtain ⟨⟨w, job⟩, hp, rfl⟩ := Option.map_eq_some_iff.mp h
    exact .complete i result w job hp
  | fail i error =>
    obtain ⟨⟨w, job⟩, hp, rfl⟩ := Option.map_eq_some_iff.mp h
    exact .fail i error w job hp
  | crash w =>
    simp only [step] at h
    split_ifs at h
    cases h
    exact .crash w
  | monitor w now =>
    simp only [step] at h
    split at h
    · rename_i data hdata
      split_ifs at h
      cases h
      exact .monitor w now (PyDict.mem_of_get? hdata)
    · cases h

end Cases

/-! ## Counting what waits -/

section Pending

variable {s s' : System} {t : Str}

theorem pending_publish (s : System) (e : Event) (sub : Subscription) (t : Str) :
    (s.publish e).pending sub t =
      s.pending sub t + if sub.listens e = true ∧ e.jobId? = some t then 1 else 0 := by
  have hbus : (s.publish e).bus sub = if sub.listens e then s.bus sub ++ [e] else s.bus sub := rfl
  unfold pending waiting
  rw [hbus]
  by_cases hl : sub.listens e = true
  · rw [if_pos hl, List.filterMap_append, List.count_append]
    cases hid : e.jobId? with
    | none => simp [hid]
    | some t' =>
      rw [List.filterMap_cons_some hid, List.filterMap_nil, List.count_singleton]
      by_cases ht : t' = t <;> simp [ht, hl]
  · rw [if_neg hl, if_neg fun h => hl h.1]
    rfl

theorem pending_rest {sub : Subscription} {e : Event} {es : List Event} (h : s.bus sub = e :: es)
    (hbus : s'.bus = s.bus.rest sub) (sub' : Subscription) (t : Str) :
    s.pending sub' t = s'.pending sub' t + if sub' = sub ∧ e.jobId? = some t then 1 else 0 := by
  unfold pending waiting
  rw [hbus]
  by_cases hsub : sub' = sub
  · subst hsub
    rw [Bus.rest_self, h, List.tail_cons]
    cases hid : e.jobId? with
    | none => simp [hid]
    | some t' =>
      rw [List.filterMap_cons_some hid, List.count_cons]
      by_cases ht : t' = t <;> simp [ht]
  · rw [Bus.rest_ne hsub, if_neg fun h => hsub h.1]
    rfl

theorem pending_ne_zero {sub : Subscription} {e : Event} {es : List Event}
    (hb : s.bus sub = e :: es) (hid : e.jobId? = some t) : s.pending sub t ≠ 0 := by
  unfold pending waiting
  rw [hb, List.filterMap_cons_some hid]
  exact (List.count_pos_iff.mpr List.mem_cons_self).ne'

end Pending

/-! ## What holds in every state -/

section Valid

/-- The channels hold only what their subscriptions ask for, no worker has an empty name, and a
completion that waits to be stored has been recorded. -/
structure Valid (s : System) : Prop where
  heard : s.bus.Heard Subscription.listens
  registered : [] ∉ s.coord.registry
  failing : ∀ w, .workerFailed w ∈ s.bus .handle_worker_failed → w ≠ []
  removing : ∀ w, .workerFailed w ∈ s.bus .handle_worker_failure → w ≠ []
  assigned : ∀ w job, .taskAssigned w job ∈ s.bus .persist_task_assigned → w ≠ []
  completed : ∀ w job result,
    .jobCompleted w job result ∈ s.bus .persist_task_completed → job.id ∈ s.completed

variable {repr : Json → Str} {s s' : System}

theorem valid_init {coord : CoordinatorService} (hreg : [] ∉ coord.registry) :
    (init coord).Valid where
  heard := Bus.Heard.silent
  registered := hreg
  failing _ h := (List.not_mem_nil h).elim
  removing _ h := (List.not_mem_nil h).elim
  assigned _ _ h := (List.not_mem_nil h).elim
  completed _ _ _ h := (List.not_mem_nil h).elim

/-- A step that publishes nothing. -/
theorem Valid.mono (hv : s.Valid) (hbus : ∀ sub, ∀ e ∈ s'.bus sub, e ∈ s.bus sub)
    (hreg : [] ∈ s'.coord.registry → [] ∈ s.coord.registry)
    (hcompleted : ∀ t ∈ s.completed, t ∈ s'.completed) : s'.Valid where
  heard sub e he := hv.heard sub e (hbus sub e he)
  registered h := hv.registered (hreg h)
  failing w h := hv.failing w (hbus _ _ h)
  removing w h := hv.removing w (hbus _ _ h)
  assigned w job h := hv.assigned w job (hbus _ _ h)
  completed w job result h := hcompleted _ (hv.completed w job result (hbus _ _ h))

theorem Valid.publish (hv : s.Valid) (e : Event) (hfailed : ∀ w, e = .workerFailed w → w ≠ [])
    (hassigned : ∀ w job, e = .taskAssigned w job → w ≠ [])
    (hcompleted : ∀ w job result, e = .jobCompleted w job result → job.id ∈ s.completed) :
    (s.publish e).Valid where
  heard := hv.heard.publish e
  registered := hv.registered
  failing w h := (Bus.mem_publish.mp h).elim (hv.failing w) fun h => hfailed w h.2.symm
  removing w h := (Bus.mem_publish.mp h).elim (hv.removing w) fun h => hfailed w h.2.symm
  assigned w job h := (Bus.mem_publish.mp h).elim (hv.assigned w job) fun h => hassigned w job h.2.symm
  completed w job result h := (Bus.mem_publish.mp h).elim (hv.completed w job result) fun h =>
    hcompleted w job result h.2.symm

/-- A delivery to a handler that registers no empty name. -/
theorem Valid.deliver (hv : s.Valid) {sub : Subscription} {coord : CoordinatorService}
    {running : List (Str × Job)} {queued : List Str}
    (hreg : [] ∈ coord.registry → [] ∈ s.coord.registry) :
    { s with bus := s.bus.rest sub, coord := coord, running := running, queued := queued }.Valid :=
  hv.mono (fun _ _ he => Bus.mem_of_mem_rest he) hreg fun _ h => h

/-- Every step keeps the state valid. -/
theorem valid_step (hv : s.Valid) {l : Label} (h : Step repr s l s') : s'.Valid := by
  have hkeep : ∀ t ∈ s.completed, t ∈ s.completed := fun _ h => h
  cases h with
  | submit job =>
    have hv' : { s with submitted := job.id :: s.submitted }.Valid :=
      hv.mono (fun _ _ h => h) id hkeep
    exact hv'.publish (.jobSubmitted job) (by simp) (by simp) (by simp)
  | register w capacity =>
    have hv' : { s with connected := w :: s.connected }.Valid := hv.mono (fun _ _ h => h) id hkeep
    exact hv'.publish (.register w capacity) (by simp) (by simp) (by simp)
  | heartbeat w => exact hv.publish (.heartbeat w) (by simp) (by simp) (by simp)
  | idle now m => exact hv.mono (fun _ _ h => h) id hkeep
  | assign now m e q w hpq hcounter hw =>
    have hv' : { s with coord := { s.coord with
        job_queue := q
        circuit_breaker_manager := m
        registry := s.coord.registry.incrementLoad w } }.Valid :=
      hv.mono (fun _ _ h => h) WorkerRegistry.mem_incrementLoad.mp hkeep
    refine hv'.publish (.taskAssigned w e.job) (by simp) ?_ (by simp)
    rintro _ _ ⟨⟩
    exact hw
  | complete i result w job h =>
    have hv' : { s with
        running := s.running.eraseIdx i
        completed := job.id :: s.completed }.Valid :=
      hv.mono (fun _ _ h => h) id fun t ht => List.mem_cons_of_mem _ ht
    refine hv'.publish (.jobCompleted w job result) (by simp) (by simp) ?_
    rintro _ _ _ ⟨⟩
    exact List.mem_cons_self
  | fail i error w job h =>
    have hv' : { s with running := s.running.eraseIdx i }.Valid :=
      hv.mono (fun _ _ h => h) id hkeep
    exact hv'.publish (.taskFailed w job error) (by simp) (by simp) (by simp)
  | crash w => exact hv.mono (fun _ _ h => h) id hkeep
  | monitor w now hw =>
    refine hv.publish (.workerFailed w) ?_ (by simp) (by simp)
    rintro _ ⟨⟩ rfl
    exact hv.registered hw
  | handle_register now w capacity es h =>
    refine hv.deliver fun h => ?_
    rcases CoordinatorService.mem_handleRegister.mp h with h | ⟨rfl, hw⟩
    · exact h
    · exact absurd rfl hw
  | handle_job_submitted now job es h => exact hv.deliver id
  | handle_heartbeat now w es h => exact hv.deliver CoordinatorService.mem_handleHeartbeat.mp
  | handle_worker_failure now w es h =>
    have hw := hv.removing w (h ▸ List.mem_cons_self)
    exact hv.deliver fun h => ((CoordinatorService.mem_handleWorkerFailure hw).mp h).2
  | handle_worker_failed now w es h =>
    refine hv.deliver fun h => ?_
    rwa [CoordinatorService.registry_handleWorkerFailed] at h
  | handle_job_completed now w job result es h =>
    exact hv.deliver CoordinatorService.mem_handleJobCompleted.mp
  | handle_task_failed now w job error es h =>
    exact hv.deliver CoordinatorService.mem_handleTaskFailed.mp
  | persist_worker | persist_task | persist_task_assigned | persist_task_completed
  | send_to_worker => exact hv.deliver id

end Valid

/-! ## The database -/

section Database

variable {repr : Json → Str} {s s' : System} {l : Label}

/-- The database does not go on or off. -/
theorem online_step (h : Step repr s l s') :
    s'.coord.task_repo.store.online = s.coord.task_repo.store.online := by
  cases h with
  | handle_register now w capacity es h =>
    exact (CoordinatorService.sameJobs_handleRegister _ _ _ _).online
  | handle_heartbeat now w es h => exact (CoordinatorService.sameJobs_handleHeartbeat _ _ _).online
  | handle_worker_failure now w es h =>
    exact (CoordinatorService.sameJobs_handleWorkerFailure _ _).online
  | handle_worker_failed now w es h => exact CoordinatorService.online_handleWorkerFailed _
  | handle_job_completed now w job result es h =>
    exact (CoordinatorService.sameJobs_handleJobCompleted _ _).online
  | handle_task_failed now w job error es h =>
    exact CoordinatorService.online_handleTaskFailed _ _ _ _ _
  | persist_worker now w capacity es h => exact TaskRepository.online_saveWorker _ _ _ _ _
  | persist_task now job es h => exact TaskRepository.online_saveTask _ _ _ _ _ _ _ _
  | persist_task_assigned now w job es h => exact TaskRepository.online_updateStatus _ _ _ _ _ _
  | persist_task_completed now w job result es h =>
    exact TaskRepository.online_updateStatus _ _ _ _ _ _
  | submit | register | heartbeat | idle | assign | complete | fail | crash | monitor
  | handle_job_submitted | send_to_worker => rfl

theorem steady_step (hs : s.coord.task_repo.Steady) (h : Step repr s l s') :
    s'.coord.task_repo.Steady := by
  cases h with
  | handle_register now w capacity es h =>
    exact (CoordinatorService.sameJobs_handleRegister _ _ _ _).steady hs
  | handle_heartbeat now w es h =>
    exact (CoordinatorService.sameJobs_handleHeartbeat _ _ _).steady hs
  | handle_worker_failure now w es h =>
    exact (CoordinatorService.sameJobs_handleWorkerFailure _ _).steady hs
  | handle_worker_failed now w es h => exact CoordinatorService.steady_handleWorkerFailed hs _
  | handle_job_completed now w job result es h =>
    exact (CoordinatorService.sameJobs_handleJobCompleted _ _).steady hs
  | handle_task_failed now w job error es h =>
    exact CoordinatorService.steady_handleTaskFailed _ _ _ hs _
  | persist_worker now w capacity es h => exact TaskRepository.steady_saveWorker hs _ _ _ _
  | persist_task now job es h => exact TaskRepository.steady_saveTask hs _ _ _ _ _ _ _
  | persist_task_assigned now w job es h => exact TaskRepository.steady_updateStatus hs _ _ _ _ _
  | persist_task_completed now w job result es h =>
    exact TaskRepository.steady_updateStatus hs _ _ _ _ _
  | submit | register | heartbeat | idle | assign | complete | fail | crash | monitor
  | handle_job_submitted | send_to_worker => exact hs

end Database

end System

end JobSystem
