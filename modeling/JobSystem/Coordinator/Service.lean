import JobSystem.Coordinator.Scheduler
import JobSystem.Coordinator.Repo

/-!
# The coordinator

The state that the handlers of `CoordinatorService` share, and the handlers; each returns the new
state, with the events that it publishes if it can publish any. A handler that reads the clock takes
the time.

* `handleRegister` … `persistTaskCompleted`: the subscribed handlers;
* `assign`: one round of `TaskAssigner._assign_loop`;
* **`row?_handleWorkerFailed`**, **`jobs_handleWorkerFailed`**: what a worker's failure does.
-/

namespace JobSystem

open PyText
open PyJson (Json)

/-- The coordinator's shared state. -/
structure CoordinatorService where
  registry : WorkerRegistry
  circuit_breaker_manager : CircuitBreakerManager
  job_queue : JobPriorityQueue
  task_repo : TaskRepository
  heartbeat_timeout : ℚ
  max_retries : ℤ
  retries_tracker : PyDict Str ℕ
  dlq : List Job

namespace CoordinatorService

/-- A coordinator that has just started on the given database. -/
def new (failure_threshold : ℤ) (recovery_timeout heartbeat_timeout : ℚ) (max_retries : ℤ)
    (store : PostgresStore) : CoordinatorService where
  registry := .empty
  circuit_breaker_manager := .new failure_threshold recovery_timeout
  job_queue := .empty
  task_repo := ⟨store, ∅⟩
  heartbeat_timeout := heartbeat_timeout
  max_retries := max_retries
  retries_tracker := ∅
  dlq := []

/-! ## The handlers -/

/-- `handle_register`; the default capacity is 8. -/
def handleRegister (c : CoordinatorService) (worker_id : Str) (capacity : Option ℤ) (now : ℚ) :
    CoordinatorService :=
  if worker_id = [] then c
  else { c with registry := c.registry.registerWorker worker_id (capacity.getD 8) now }

/-- `handle_job_submitted`. -/
def handleJobSubmitted (c : CoordinatorService) (job : Job) : CoordinatorService :=
  { c with job_queue := c.job_queue.addJob job }

/-- `handle_heartbeat`. -/
def handleHeartbeat (c : CoordinatorService) (worker_id : Str) (now : ℚ) : CoordinatorService :=
  if worker_id = [] then c
  else { c with registry := c.registry.updateHeartbeat worker_id now }

/-- `FailureDetector.handle_worker_failure`. -/
def handleWorkerFailure (c : CoordinatorService) (worker_id : Str) : CoordinatorService :=
  if worker_id = [] then c else { c with registry := c.registry.removeWorker worker_id }

/-- One round of the loop of `handle_worker_failed`. -/
def requeue (c : CoordinatorService) (task : Job) : CoordinatorService :=
  { c with
    task_repo := c.task_repo.updateStatus task.id .PENDING none .null .null
    job_queue := c.job_queue.addJob task }

/-- `handle_worker_failed`. -/
def handleWorkerFailed (c : CoordinatorService) (worker_id : Str) : CoordinatorService :=
  if worker_id = [] then c
  else
    (c.task_repo.getAssignedTasksForWorker worker_id).foldl requeue
      { c with circuit_breaker_manager := c.circuit_breaker_manager.removeWorker worker_id }

/-- `handle_job_completed`. -/
def handleJobCompleted (c : CoordinatorService) (worker_id : Str) : CoordinatorService × List Event :=
  if worker_id = [] then (c, [])
  else
    let r := c.circuit_breaker_manager.recordSuccess worker_id
    ({ c with registry := c.registry.decrementLoad worker_id, circuit_breaker_manager := r.1 }, r.2)

/-- `DeadLetterQueue.add_to_dlq`. -/
def addToDlq (c : CoordinatorService) (task : Job) (error : Json) :
    CoordinatorService × List Event :=
  ({ c with
      dlq := c.dlq ++ [task]
      task_repo := c.task_repo.updateStatus task.id .DLQ none .null error },
    [.moveToDlq task error])

/-- `retries_tracker[task_id]` after one more failure. -/
def retryCount (c : CoordinatorService) (task_id : Str) : ℕ :=
  (c.retries_tracker.get? task_id).getD 0 + 1

/-- `RetryQueue.handle_task_failed`. -/
def retryTask (c : CoordinatorService) (task : Job) (error : Option Json) :
    CoordinatorService × List Event :=
  let error_msg := error.getD (.str "Unknown error".toList)
  let c' :=
    { c with
      retries_tracker := c.retries_tracker.set task.id (c.retryCount task.id)
      task_repo := c.task_repo.incrementRetry task.id }
  if c.retryCount task.id ≤ c.max_retries then
    ({ c' with
        task_repo := c'.task_repo.updateStatus task.id .RETRYING none .null error_msg
        job_queue := c'.job_queue.addJob task }, [])
  else c'.addToDlq task error_msg

/-- `handle_task_failed`. -/
def handleTaskFailed (c : CoordinatorService) (worker_id : Str) (job : Job) (error : Option Json)
    (now : ℚ) : CoordinatorService × List Event :=
  if worker_id = [] then c.retryTask job error
  else
    let r := c.circuit_breaker_manager.recordFailure worker_id now
    let r' := { c with
      registry := c.registry.decrementLoad worker_id
      circuit_breaker_manager := r.1 }.retryTask job error
    (r'.1, r.2 ++ r'.2)

/-- `persist_worker`. -/
def persistWorker (c : CoordinatorService) (worker_id : Str) (capacity : Option ℤ) (now : ℚ) :
    CoordinatorService :=
  { c with task_repo := c.task_repo.saveWorker worker_id capacity "ACTIVE".toList now }

/-- `persist_task`. -/
def persistTask (repr : Json → Str) (c : CoordinatorService) (job : Job) : CoordinatorService :=
  { c with
    task_repo := c.task_repo.saveTask repr job.id
      ((job.get? jobTypeKey).getD (.str "unknown".toList))
      ((job.get? priorityKey).getD (.str "MEDIUM".toList)) .PENDING 0 none }

/-- `persist_task_assigned`. -/
def persistTaskAssigned (c : CoordinatorService) (worker_id : Str) (job : Job) :
    CoordinatorService :=
  { c with
    task_repo := c.task_repo.updateStatus job.id .ASSIGNED (some worker_id) .null .null }

/-- `persist_task_completed`. -/
def persistTaskCompleted (c : CoordinatorService) (job : Job) (result : Option Json) :
    CoordinatorService :=
  { c with
    task_repo := c.task_repo.updateStatus job.id .COMPLETED none (result.getD .null) .null }

/-- One round of `_assign_loop`: `increment_load` and `TASK_ASSIGNED` for a job that was chosen. -/
def assign (c : CoordinatorService) (now : Str → ℚ) : CoordinatorService × List Event :=
  let r := getNextJobAndWorker c.job_queue c.registry c.circuit_breaker_manager now
  let c' := { c with job_queue := r.queue, circuit_breaker_manager := r.manager }
  match r.result with
  | some (job, w) =>
    ({ c' with registry := c.registry.incrementLoad w }, r.alerts ++ [.taskAssigned w job])
  | none => (c', r.alerts)

/-! ## The breakers after each handler -/

/-- A worker's breaker. -/
def breaker (c : CoordinatorService) (w : Str) : WorkerCircuitBreaker :=
  c.circuit_breaker_manager.breaker w

section Breakers

variable {c : CoordinatorService}

theorem breaker_handleJobCompleted {w : Str} (hw : w ≠ []) (w' : Str) :
    (c.handleJobCompleted w).1.breaker w' =
      if w' = w then (c.breaker w).recordSuccess else c.breaker w' := by
  unfold handleJobCompleted
  rw [if_neg hw]
  exact CircuitBreakerManager.breaker_setBreaker _ _ _ _

@[simp] theorem manager_retryTask (task : Job) (error : Option Json) :
    (c.retryTask task error).1.circuit_breaker_manager = c.circuit_breaker_manager := by
  unfold retryTask
  simp only
  split_ifs <;> rfl

@[simp] theorem registry_retryTask (task : Job) (error : Option Json) :
    (c.retryTask task error).1.registry = c.registry := by
  unfold retryTask
  simp only
  split_ifs <;> rfl

theorem registry_handleJobCompleted {w : Str} (hw : w ≠ []) :
    (c.handleJobCompleted w).1.registry = c.registry.decrementLoad w := by
  unfold handleJobCompleted
  rw [if_neg hw]

theorem registry_handleTaskFailed {w : Str} (hw : w ≠ []) (job : Job) (error : Option Json)
    (now : ℚ) : (c.handleTaskFailed w job error now).1.registry = c.registry.decrementLoad w := by
  unfold handleTaskFailed
  rw [if_neg hw]
  simp only [registry_retryTask]

theorem breaker_handleTaskFailed {w : Str} (hw : w ≠ []) (w' : Str) (job : Job)
    (error : Option Json) (now : ℚ) :
    (c.handleTaskFailed w job error now).1.breaker w' =
      if w' = w then (c.breaker w).recordFailure now else c.breaker w' := by
  unfold handleTaskFailed breaker
  rw [if_neg hw]
  simp only [manager_retryTask]
  exact CircuitBreakerManager.breaker_setBreaker _ _ _ _

end Breakers

/-! ## What the handlers of workers leave alone -/

section Frame

/-- The jobs and the store are the same. -/
structure SameJobs (c c' : CoordinatorService) : Prop where
  job_queue : c'.job_queue = c.job_queue
  task_repo : c'.task_repo = c.task_repo
  dlq : c'.dlq = c.dlq

theorem SameJobs.online {c c' : CoordinatorService} (h : SameJobs c c') :
    c'.task_repo.store.online = c.task_repo.store.online := by rw [h.task_repo]

theorem SameJobs.steady {c c' : CoordinatorService} (h : SameJobs c c') (hs : c.task_repo.Steady) :
    c'.task_repo.Steady := by rwa [h.task_repo]

variable (c : CoordinatorService) (w : Str)

theorem sameJobs_handleRegister (capacity : Option ℤ) (now : ℚ) :
    SameJobs c (c.handleRegister w capacity now) := by
  unfold handleRegister
  split_ifs <;> exact ⟨rfl, rfl, rfl⟩

theorem sameJobs_handleHeartbeat (now : ℚ) : SameJobs c (c.handleHeartbeat w now) := by
  unfold handleHeartbeat
  split_ifs <;> exact ⟨rfl, rfl, rfl⟩

theorem sameJobs_handleWorkerFailure : SameJobs c (c.handleWorkerFailure w) := by
  unfold handleWorkerFailure
  split_ifs <;> exact ⟨rfl, rfl, rfl⟩

theorem sameJobs_handleJobCompleted : SameJobs c (c.handleJobCompleted w).1 := by
  unfold handleJobCompleted
  split_ifs <;> exact ⟨rfl, rfl, rfl⟩

end Frame

/-! ## A worker's failure -/

section WorkerFailed

variable {c : CoordinatorService}

@[simp] theorem registry_foldl_requeue (tasks : List Job) :
    (tasks.foldl requeue c).registry = c.registry := by
  induction tasks generalizing c with
  | nil => rfl
  | cons task tasks ih => exact ih

@[simp] theorem dlq_foldl_requeue (tasks : List Job) : (tasks.foldl requeue c).dlq = c.dlq := by
  induction tasks generalizing c with
  | nil => rfl
  | cons task tasks ih => exact ih

@[simp] theorem online_foldl_requeue (tasks : List Job) :
    (tasks.foldl requeue c).task_repo.store.online = c.task_repo.store.online := by
  induction tasks generalizing c with
  | nil => rfl
  | cons task tasks ih =>
    rw [List.foldl_cons, ih]
    exact TaskRepository.online_updateStatus _ _ _ _ _ _

theorem jobs_foldl_requeue (tasks : List Job) :
    (tasks.foldl requeue c).job_queue.jobs.Perm (tasks ++ c.job_queue.jobs) := by
  induction tasks generalizing c with
  | nil => exact List.Perm.refl _
  | cons task tasks ih =>
    refine (ih (c := c.requeue task)).trans ?_
    exact ((JobPriorityQueue.perm_jobs_addJob _ _).append_left tasks).trans List.perm_middle

/-- A task that is put back is `PENDING`. -/
theorem row?_foldl_requeue (honline : c.task_repo.store.online = true) (tasks : List Job) (t : Str) :
    (tasks.foldl requeue c).task_repo.row? t =
      if t ∈ tasks.map Job.id then
        (c.task_repo.row? t).map fun row => { row with status := .PENDING }
      else c.task_repo.row? t := by
  induction tasks generalizing c with
  | nil => rfl
  | cons task tasks ih =>
    have honline' : (c.requeue task).task_repo.store.online = true := by
      rwa [← TaskRepository.online_updateStatus c.task_repo task.id .PENDING none .null .null]
        at honline
    have hrow := TaskRepository.row?_updateStatus_none honline task.id t .PENDING .null .null
    rw [List.foldl_cons, ih honline', List.map_cons]
    show (if _ then (((c.task_repo.updateStatus task.id .PENDING none .null .null).row? t).map _)
      else (c.task_repo.updateStatus task.id .PENDING none .null .null).row? t) = _
    rw [hrow]
    by_cases ht : t = task.id
    · subst ht
      rw [if_pos rfl, if_pos List.mem_cons_self]
      split_ifs <;> cases c.task_repo.row? task.id <;> rfl
    · simp only [ht, if_false, List.mem_cons, false_or]

theorem steady_foldl_requeue (hsteady : c.task_repo.Steady) (tasks : List Job) :
    (tasks.foldl requeue c).task_repo.Steady := by
  induction tasks generalizing c with
  | nil => exact hsteady
  | cons task tasks ih => exact ih (TaskRepository.steady_updateStatus hsteady _ _ _ _ _)

theorem status?_foldl_requeue (hsteady : c.task_repo.Steady) (tasks : List Job)
    (p : TaskRepository.Place) (t : Str) :
    (tasks.foldl requeue c).task_repo.status? p t =
      if t ∈ tasks.map Job.id then (c.task_repo.status? p t).map fun _ => .PENDING
      else c.task_repo.status? p t := by
  induction tasks generalizing c with
  | nil => rfl
  | cons task tasks ih =>
    have hsteady' : (c.requeue task).task_repo.Steady :=
      TaskRepository.steady_updateStatus hsteady _ _ _ _ _
    have hstatus := TaskRepository.status?_updateStatus_none hsteady p task.id t .PENDING .null .null
    rw [List.foldl_cons, ih hsteady', List.map_cons]
    show (if _ then (((c.task_repo.updateStatus task.id .PENDING none .null .null).status? p t).map _)
      else (c.task_repo.updateStatus task.id .PENDING none .null .null).status? p t) = _
    rw [hstatus]
    by_cases ht : t = task.id
    · subst ht
      rw [if_pos rfl, if_pos List.mem_cons_self]
      split_ifs <;> cases c.task_repo.status? p task.id <;> rfl
    · simp only [ht, if_false, List.mem_cons, false_or]

/-- What is put back is ranked by its own priority, behind what was there. -/
theorem mem_foldl_requeue {tasks : List Job} {e : QueueEntry}
    (he : e ∈ (tasks.foldl requeue c).job_queue.pq) :
    e ∈ c.job_queue.pq ∨
      c.job_queue.counter < e.counter ∧ e.job ∈ tasks ∧ e.priority_num = e.job.priorityNum := by
  induction tasks generalizing c with
  | nil => exact .inl he
  | cons task tasks ih =>
    rcases ih he with he | ⟨hcounter, hjob, hnum⟩
    · rcases JobPriorityQueue.mem_addJob.mp he with rfl | he
      · exact .inr ⟨Nat.lt_succ_self _, List.mem_cons_self, rfl⟩
      · exact .inl he
    · exact .inr ⟨Nat.lt_of_succ_lt hcounter, List.mem_cons_of_mem _ hjob, hnum⟩

theorem exists_mem_foldl_requeue {tasks : List Job} {task : Job} (ht : task ∈ tasks) :
    ∃ e ∈ (tasks.foldl requeue c).job_queue.pq, c.job_queue.counter < e.counter ∧ e.job = task ∧
      e.priority_num = task.priorityNum := by
  have hkeep : ∀ (ts : List Job) (c : CoordinatorService) (e : QueueEntry),
      e ∈ c.job_queue.pq → e ∈ (ts.foldl requeue c).job_queue.pq := by
    intro ts
    induction ts with
    | nil => exact fun _ _ he => he
    | cons t ts ih => exact fun c e he => ih _ e (JobPriorityQueue.mem_addJob.mpr (.inr he))
  induction tasks generalizing c with
  | nil => cases ht
  | cons t tasks ih =>
    rcases List.mem_cons.mp ht with rfl | ht
    · exact ⟨_, hkeep tasks _ _ (JobPriorityQueue.mem_addJob.mpr (.inl rfl)), Nat.lt_succ_self _, rfl,
        rfl⟩
    · obtain ⟨e, he, hcounter, hjob⟩ := ih (c := c.requeue t) ht
      exact ⟨e, he, Nat.lt_of_succ_lt hcounter, hjob⟩

variable {w : Str} (hw : w ≠ [])

include hw

theorem handleWorkerFailed_eq :
    c.handleWorkerFailed w = (c.task_repo.getAssignedTasksForWorker w).foldl requeue
      { c with circuit_breaker_manager := c.circuit_breaker_manager.removeWorker w } := if_neg hw

theorem jobs_handleWorkerFailed :
    (c.handleWorkerFailed w).job_queue.jobs.Perm
      (c.task_repo.getAssignedTasksForWorker w ++ c.job_queue.jobs) := by
  rw [handleWorkerFailed_eq hw]
  exact jobs_foldl_requeue _

theorem status?_handleWorkerFailed (hsteady : c.task_repo.Steady) (p : TaskRepository.Place)
    (t : Str) :
    (c.handleWorkerFailed w).task_repo.status? p t =
      if t ∈ (c.task_repo.getAssignedTasksForWorker w).map Job.id then
        (c.task_repo.status? p t).map fun _ => .PENDING
      else c.task_repo.status? p t := by
  rw [handleWorkerFailed_eq hw]
  exact status?_foldl_requeue
    (c := { c with circuit_breaker_manager := c.circuit_breaker_manager.removeWorker w })
    hsteady _ p t

/-- The rows assigned to the worker become `PENDING`. -/
theorem row?_handleWorkerFailed (honline : c.task_repo.store.online = true) (t : Str) :
    (c.handleWorkerFailed w).task_repo.row? t = (c.task_repo.row? t).map fun row =>
      if row.AssignedTo w then { row with status := .PENDING } else row := by
  have hfold := row?_foldl_requeue
    (c := { c with circuit_breaker_manager := c.circuit_breaker_manager.removeWorker w })
    honline (c.task_repo.getAssignedTasksForWorker w) t
  rw [handleWorkerFailed_eq hw, hfold]
  cases hrow : c.task_repo.row? t with
  | none => split_ifs <;> rfl
  | some row =>
    have hmem : t ∈ (c.task_repo.getAssignedTasksForWorker w).map Job.id ↔ row.AssignedTo w := by
      rw [TaskRepository.mem_ids_getAssignedTasksForWorker honline]
      exact ⟨fun ⟨row', h, has⟩ => Option.some.inj (hrow.symm.trans h) ▸ has, fun has => ⟨row, hrow, has⟩⟩
    simp only [hmem, Option.map_some]
    split_ifs <;> rfl

omit hw in
@[simp] theorem registry_handleWorkerFailed (w : Str) :
    (c.handleWorkerFailed w).registry = c.registry := by
  unfold handleWorkerFailed
  split_ifs
  · rfl
  · rw [registry_foldl_requeue]

omit hw in
@[simp] theorem dlq_handleWorkerFailed (w : Str) : (c.handleWorkerFailed w).dlq = c.dlq := by
  unfold handleWorkerFailed
  split_ifs
  · rfl
  · rw [dlq_foldl_requeue]

omit hw in
@[simp] theorem online_handleWorkerFailed (w : Str) :
    (c.handleWorkerFailed w).task_repo.store.online = c.task_repo.store.online := by
  unfold handleWorkerFailed
  split_ifs
  · rfl
  · rw [online_foldl_requeue]

omit hw in
theorem steady_handleWorkerFailed (hsteady : c.task_repo.Steady) (w : Str) :
    (c.handleWorkerFailed w).task_repo.Steady := by
  unfold handleWorkerFailed
  split_ifs
  · exact hsteady
  · exact steady_foldl_requeue (c := { c with
      circuit_breaker_manager := c.circuit_breaker_manager.removeWorker w }) hsteady _

end WorkerFailed

/-! ## The registered workers after each handler -/

section Registered

variable {c : CoordinatorService} {w w' : Str}

theorem mem_handleRegister {capacity : Option ℤ} {now : ℚ} :
    w' ∈ (c.handleRegister w capacity now).registry ↔ w' ∈ c.registry ∨ w' = w ∧ w ≠ [] := by
  unfold handleRegister
  split_ifs with hw
  · simp [hw]
  · rw [WorkerRegistry.mem_registerWorker]
    tauto

theorem mem_handleHeartbeat {now : ℚ} :
    w' ∈ (c.handleHeartbeat w now).registry ↔ w' ∈ c.registry := by
  unfold handleHeartbeat
  split_ifs
  · rfl
  · exact WorkerRegistry.mem_updateHeartbeat

theorem mem_handleWorkerFailure (hw : w ≠ []) :
    w' ∈ (c.handleWorkerFailure w).registry ↔ w' ≠ w ∧ w' ∈ c.registry := by
  unfold handleWorkerFailure
  rw [if_neg hw]
  exact WorkerRegistry.mem_removeWorker

theorem mem_handleJobCompleted : w' ∈ (c.handleJobCompleted w).1.registry ↔ w' ∈ c.registry := by
  by_cases hw : w = []
  · unfold handleJobCompleted
    rw [if_pos hw]
  · rw [registry_handleJobCompleted hw, WorkerRegistry.mem_decrementLoad]

theorem mem_handleTaskFailed {job : Job} {error : Option Json} {now : ℚ} :
    w' ∈ (c.handleTaskFailed w job error now).1.registry ↔ w' ∈ c.registry := by
  by_cases hw : w = []
  · unfold handleTaskFailed
    rw [if_pos hw, registry_retryTask]
  · rw [registry_handleTaskFailed hw, WorkerRegistry.mem_decrementLoad]

end Registered

/-! ## A task's failure -/

section TaskFailed

variable {c : CoordinatorService} {job : Job} (w : Str) (error : Option Json) (now : ℚ)

theorem retryTask_of_le (h : c.retryCount job.id ≤ c.max_retries) :
    c.retryTask job error =
      ({ c with
          retries_tracker := c.retries_tracker.set job.id (c.retryCount job.id)
          task_repo := (c.task_repo.incrementRetry job.id).updateStatus job.id .RETRYING none .null
            (error.getD (.str "Unknown error".toList))
          job_queue := c.job_queue.addJob job }, []) := if_pos h

theorem retryTask_of_lt (h : ¬ (c.retryCount job.id ≤ c.max_retries)) :
    c.retryTask job error =
      ({ c with
          retries_tracker := c.retries_tracker.set job.id (c.retryCount job.id)
          task_repo := (c.task_repo.incrementRetry job.id).updateStatus job.id .DLQ none .null
            (error.getD (.str "Unknown error".toList))
          dlq := c.dlq ++ [job] },
        [.moveToDlq job (error.getD (.str "Unknown error".toList))]) := if_neg h

/-- Apart from the load and the breaker, a failure is the retry engine's. -/
theorem handleTaskFailed_eq_retryTask (c : CoordinatorService) (job : Job) :
    (c.handleTaskFailed w job error now).1.task_repo = (c.retryTask job error).1.task_repo ∧
      (c.handleTaskFailed w job error now).1.job_queue = (c.retryTask job error).1.job_queue ∧
      (c.handleTaskFailed w job error now).1.dlq = (c.retryTask job error).1.dlq := by
  let c' : CoordinatorService := { c with
    registry := c.registry.decrementLoad w
    circuit_breaker_manager := (c.circuit_breaker_manager.recordFailure w now).1 }
  unfold handleTaskFailed
  split_ifs with hw
  · exact ⟨rfl, rfl, rfl⟩
  · by_cases h : c.retryCount job.id ≤ c.max_retries
    · rw [retryTask_of_le error h]
      simp only [retryTask_of_le (c := c') error h, c', and_self]
    · rw [retryTask_of_lt error h]
      simp only [retryTask_of_lt (c := c') error h, c', and_self]

/-- A failure below the limit puts the job back. -/
theorem handleTaskFailed_of_le (h : c.retryCount job.id ≤ c.max_retries) : ∃ error_msg,
    (c.handleTaskFailed w job error now).1.task_repo =
        (c.task_repo.incrementRetry job.id).updateStatus job.id .RETRYING none .null error_msg ∧
      (c.handleTaskFailed w job error now).1.job_queue = c.job_queue.addJob job ∧
      (c.handleTaskFailed w job error now).1.dlq = c.dlq := by
  obtain ⟨hrepo, hqueue, hdlq⟩ := handleTaskFailed_eq_retryTask w error now c job
  rw [hrepo, hqueue, hdlq, retryTask_of_le error h]
  exact ⟨_, rfl, rfl, rfl⟩

/-- A failure above the limit moves the job to the dead letter queue. -/
theorem handleTaskFailed_of_lt (h : ¬ (c.retryCount job.id ≤ c.max_retries)) : ∃ error_msg,
    (c.handleTaskFailed w job error now).1.task_repo =
        (c.task_repo.incrementRetry job.id).updateStatus job.id .DLQ none .null error_msg ∧
      (c.handleTaskFailed w job error now).1.job_queue = c.job_queue ∧
      (c.handleTaskFailed w job error now).1.dlq = c.dlq ++ [job] := by
  obtain ⟨hrepo, hqueue, hdlq⟩ := handleTaskFailed_eq_retryTask w error now c job
  rw [hrepo, hqueue, hdlq, retryTask_of_lt error h]
  exact ⟨_, rfl, rfl, rfl⟩

/-- Either way the status is the only thing that the failure stores, with one more retry. -/
theorem exists_repo_handleTaskFailed (c : CoordinatorService) (job : Job) : ∃ status error_msg,
    (c.handleTaskFailed w job error now).1.task_repo =
      (c.task_repo.incrementRetry job.id).updateStatus job.id status none .null error_msg := by
  by_cases h : c.retryCount job.id ≤ c.max_retries
  · obtain ⟨error_msg, hrepo, -, -⟩ := handleTaskFailed_of_le w error now h
    exact ⟨_, _, hrepo⟩
  · obtain ⟨error_msg, hrepo, -, -⟩ := handleTaskFailed_of_lt w error now h
    exact ⟨_, _, hrepo⟩

@[simp] theorem online_handleTaskFailed (c : CoordinatorService) (job : Job) :
    (c.handleTaskFailed w job error now).1.task_repo.store.online = c.task_repo.store.online := by
  obtain ⟨status, error_msg, hrepo⟩ := exists_repo_handleTaskFailed w error now c job
  rw [hrepo, TaskRepository.online_updateStatus, TaskRepository.online_incrementRetry]

theorem steady_handleTaskFailed (hsteady : c.task_repo.Steady) (job : Job) :
    (c.handleTaskFailed w job error now).1.task_repo.Steady := by
  obtain ⟨status, error_msg, hrepo⟩ := exists_repo_handleTaskFailed w error now c job
  rw [hrepo]
  exact TaskRepository.steady_updateStatus (TaskRepository.steady_incrementRetry hsteady _) _ _ _ _ _

/-- The rows of the other tasks stay. -/
theorem row?_handleTaskFailed_of_ne (honline : c.task_repo.store.online = true) {t : Str}
    (h : t ≠ job.id) :
    (c.handleTaskFailed w job error now).1.task_repo.row? t = c.task_repo.row? t := by
  obtain ⟨status, error_msg, hrepo⟩ := exists_repo_handleTaskFailed w error now c job
  rw [hrepo, TaskRepository.row?_updateStatus_none
    ((TaskRepository.online_incrementRetry _ _).trans honline), if_neg h,
    TaskRepository.row?_incrementRetry honline, if_neg h]

end TaskFailed

/-! ## The events that a handler publishes -/

section Events

variable {c : CoordinatorService} {e : Event}

theorem mem_handleJobCompleted_events {w : Str} (he : e ∈ (c.handleJobCompleted w).2) :
    ∃ level message, e = .alert level message := by
  unfold handleJobCompleted at he
  split_ifs at he
  · cases he
  · exact CircuitBreakerManager.alert_of_mem_publishAlert he

theorem mem_retryTask_events {task : Job} {error : Option Json}
    (he : e ∈ (c.retryTask task error).2) : ∃ error', e = .moveToDlq task error' := by
  unfold retryTask at he
  simp only at he
  split_ifs at he
  · cases he
  · exact ⟨_, List.mem_singleton.mp he⟩

theorem mem_handleTaskFailed_events {w : Str} {job : Job} {error : Option Json} {now : ℚ}
    (he : e ∈ (c.handleTaskFailed w job error now).2) :
    (∃ level message, e = .alert level message) ∨ ∃ error', e = .moveToDlq job error' := by
  unfold handleTaskFailed at he
  split_ifs at he
  · exact .inr (mem_retryTask_events he)
  · rcases List.mem_append.mp he with he | he
    · exact .inl (CircuitBreakerManager.alert_of_mem_publishAlert he)
    · exact .inr (mem_retryTask_events he)

end Events

/-! ## One round of the assigner -/

section Assign

variable {c : CoordinatorService} {now : Str → ℚ}

/-- The loop of `can_assign_task` calls that a round makes. -/
def admitAvailable (c : CoordinatorService) (now : Str → ℚ) :
    CircuitBreakerManager × List (Str × WorkerData) × List Event :=
  admitAll now c.circuit_breaker_manager c.registry.getAvailableWorkers

/-- The workers that a round lets through. -/
def admitted (c : CoordinatorService) (now : Str → ℚ) : List (Str × WorkerData) :=
  JobSystem.admitted c.registry c.circuit_breaker_manager now

theorem assign_of_isEmpty (h : c.job_queue.isEmpty = true) : c.assign now = (c, []) := by
  unfold assign getNextJobAndWorker
  rw [if_pos h]

/-- No worker is let through, or the one preferred has an empty name. -/
theorem assign_of_not_preferred (h : c.job_queue.isEmpty = false)
    (hp : ∀ w, w ≠ [] → ¬ Preferred (c.admitted now) w) :
    c.assign now = ({ c with circuit_breaker_manager := (c.admitAvailable now).1 },
      (c.admitAvailable now).2.2) := by
  have hchoose := chooseWorker_admitAll c.registry c.circuit_breaker_manager now
  unfold assign getNextJobAndWorker
  rw [if_neg (by simp [h])]
  cases hc : chooseWorker (admitAll now c.circuit_breaker_manager
      c.registry.getAvailableWorkers).2.1 with
  | none => simp only [hc]; rfl
  | some w =>
    have hw : w = [] := by
      by_contra hw
      exact hp w hw ((hchoose w).mp hc)
    simp only [hc, hw, if_true]
    rfl

/-- The preferred worker gets the head of the queue. -/
theorem assign_of_preferred (h : c.job_queue.isEmpty = false) {w : Str} (hw : w ≠ [])
    (hp : Preferred (c.admitted now) w) :
    ∃ e q, c.job_queue.pq = e :: q.pq ∧ q.counter = c.job_queue.counter ∧
      c.assign now =
        ({ c with
            job_queue := q
            circuit_breaker_manager := (c.admitAvailable now).1
            registry := c.registry.incrementLoad w },
          (c.admitAvailable now).2.2 ++ [.taskAssigned w e.job]) := by
  obtain ⟨e, es, q, hpq, hnext, rfl, hcounter⟩ := JobPriorityQueue.exists_getNextJob h
  refine ⟨e, q, hpq, hcounter, ?_⟩
  have hc := (chooseWorker_admitAll c.registry c.circuit_breaker_manager now w).mpr hp
  unfold assign getNextJobAndWorker
  rw [if_neg (by simp [h])]
  simp only [hc, if_neg hw, hnext, Option.map_some]
  rfl

/-- A round asks the breaker of every available worker, unless the queue is empty. -/
theorem breaker_assign (h : c.job_queue.isEmpty = false) (w : Str) :
    (c.assign now).1.breaker w =
      if w ∈ c.registry.getAvailableWorkers.map Prod.fst then
        ((c.breaker w).canAssignTask (now w)).1
      else c.breaker w := by
  have hadmit : (c.admitAvailable now).1.breaker w = _ :=
    breaker_admitAll c.registry.nodup_getAvailableWorkers c.circuit_breaker_manager w
  by_cases hp : ∃ v, v ≠ [] ∧ Preferred (c.admitted now) v
  · obtain ⟨v, hv, hp⟩ := hp
    obtain ⟨e, q, -, -, hassign⟩ := assign_of_preferred h hv hp
    rw [hassign]
    exact hadmit
  · push Not at hp
    rw [assign_of_not_preferred h hp]
    exact hadmit

end Assign

end CoordinatorService

end JobSystem
