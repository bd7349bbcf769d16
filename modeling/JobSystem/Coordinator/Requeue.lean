import JobSystem.Coordinator.System

/-!
# The job that comes back from a failed worker

`handle_worker_failed` puts back what `get_assigned_tasks_for_worker` rebuilds from the rows: the id,
and the texts of the type and the priority. A job of the system was submitted, or was rebuilt so.

* `Held`, **`held_step`**: where the jobs of the system come from;
* `stored`, `Traced`, `traced_step`: what the system can hold under an id that one job has;
* **`requeues_iff`**: when the job that is put back is the one that was assigned.
-/

namespace JobSystem

open PyText Trans
open PyJson (Json)

/-- The job that an event carries. -/
def Event.job? : Event → Option Job
  | .jobSubmitted job => some job
  | .taskAssigned _ job => some job
  | .jobCompleted _ job _ => some job
  | .taskFailed _ job _ => some job
  | _ => none

namespace Job

/-- The priority is missing, a string or an integer. -/
def Ranked (job : Job) : Prop :=
  ∀ p ∈ job.get? priorityKey, (∃ priority, p = .str priority) ∨ ∃ n, p = .int n

/-- `save_task`'s text of the type. -/
def storedType (repr : Json → Str) (job : Job) : Str :=
  ((job.get? jobTypeKey).getD (.str "unknown".toList)).pyStr repr

/-- `save_task`'s text of the priority. -/
def storedPriority (repr : Json → Str) (job : Job) : Str :=
  ((job.get? priorityKey).getD (.str "MEDIUM".toList)).pyStr repr

/-- The job that is rebuilt from the row of a submitted job. -/
def stored (repr : Json → Str) (job : Job) : Job :=
  TaskRepository.rebuiltJob job.id (job.storedType repr) (job.storedPriority repr)

end Job

/-! ## The fields of a rebuilt job -/

section Rebuilt

variable (task_id job_type priority : Str)

theorem get?_jobType_rebuiltJob :
    (TaskRepository.rebuiltJob task_id job_type priority).get? jobTypeKey = some (.str job_type) := by
  unfold TaskRepository.rebuiltJob Job.get?
  rw [PyDict.get?_set_ne _ (by decide), PyDict.get?_set_self]

theorem get?_priority_rebuiltJob :
    (TaskRepository.rebuiltJob task_id job_type priority).get? priorityKey = some (.str priority) := by
  unfold TaskRepository.rebuiltJob Job.get?
  rw [PyDict.get?_set_self]

/-- No column keeps the payload. -/
theorem get?_payload_rebuiltJob :
    (TaskRepository.rebuiltJob task_id job_type priority).get? payloadKey = none := by
  unfold TaskRepository.rebuiltJob Job.get?
  rw [PyDict.get?_set_ne _ (by decide), PyDict.get?_set_ne _ (by decide),
    PyDict.get?_set_ne _ (by decide)]
  rfl

theorem priorityNum_rebuiltJob :
    (TaskRepository.rebuiltJob task_id job_type priority).priorityNum =
      priorityNum (.str priority) := by
  rw [Job.priorityNum, get?_priority_rebuiltJob]
  rfl

/-- Storing a rebuilt job again changes nothing. -/
theorem storedType_stored (repr : Json → Str) (job : Job) :
    (job.stored repr).storedType repr = job.storedType repr := by
  show (((job.stored repr).get? jobTypeKey).getD _).pyStr repr = _
  rw [Job.stored, get?_jobType_rebuiltJob]
  rfl

theorem storedPriority_stored (repr : Json → Str) (job : Job) :
    (job.stored repr).storedPriority repr = job.storedPriority repr := by
  show (((job.stored repr).get? priorityKey).getD _).pyStr repr = _
  rw [Job.stored, get?_priority_rebuiltJob]
  rfl

/-- An integer priority becomes a string that is no key of `priority_map`. -/
theorem priorityNum_stored_iff (repr : Json → Str) {job : Job} (hranked : job.Ranked) :
    (job.stored repr).priorityNum = job.priorityNum ↔
      ∀ n, job.get? priorityKey = some (.int n) → n = 6 := by
  have hstored : (job.stored repr).priorityNum = priorityNum (.str (job.storedPriority repr)) :=
    priorityNum_rebuiltJob _ _ _
  rw [hstored, Job.priorityNum, Job.storedPriority]
  cases hp : job.get? priorityKey with
  | none => exact ⟨fun _ n h => (nomatch h), fun _ => rfl⟩
  | some p =>
    rcases hranked p hp with ⟨priority, rfl⟩ | ⟨n, rfl⟩
    · exact ⟨fun _ n h => (nomatch h), fun _ => rfl⟩
    · simp only [Option.getD_some, Json.pyStr, priorityNum_intStr]
      constructor
      · rintro h m ⟨⟩
        simp only [priorityNum] at h
        omega
      · intro h
        rw [h n rfl]
        rfl

end Rebuilt

namespace System

/-! ## The jobs of the system -/

/-- The job is in the queue, in an event or at a worker. -/
inductive Held (s : System) (job : Job) : Prop
  | queue (h : job ∈ s.coord.job_queue.jobs)
  | bus (sub : Subscription) (e : Event) (he : e ∈ s.bus sub) (h : e.job? = some job)
  | running (w : Str) (h : (w, job) ∈ s.running)

section Held

variable {repr : Json → Str} {s s' : System} {job : Job}

/-- A step that publishes nothing and queues nothing. -/
theorem Held.mono (h : s'.Held job)
    (hqueue : ∀ job ∈ s'.coord.job_queue.jobs, job ∈ s.coord.job_queue.jobs)
    (hbus : ∀ sub, ∀ e ∈ s'.bus sub, e ∈ s.bus sub) (hrunning : ∀ p ∈ s'.running, p ∈ s.running) :
    s.Held job := by
  cases h with
  | queue h => exact .queue (hqueue job h)
  | bus sub e he h => exact .bus sub e (hbus sub e he) h
  | running w h => exact .running w (hrunning _ h)

/-- A published event adds only the job that it carries. -/
theorem held_publish {e : Event} (h : (s.publish e).Held job) : s.Held job ∨ e.job? = some job := by
  cases h with
  | queue h => exact .inl (.queue h)
  | bus sub e' he h =>
    rcases mem_bus_publish.mp he with he | ⟨-, rfl⟩
    · exact .inl (.bus sub e' he h)
    · exact .inr h
  | running w h => exact .inl (.running w h)

/-- A delivery whose handler puts nothing in the queue. -/
theorem Held.of_deliver {sub : Subscription} {coord : CoordinatorService} {queued : List Str}
    (h : { s with bus := s.bus.rest sub, coord := coord, queued := queued }.Held job)
    (hqueue : coord.job_queue = s.coord.job_queue) : s.Held job :=
  h.mono (fun _ hj => hqueue ▸ hj) (fun _ _ he => Bus.mem_of_mem_rest he) fun _ hp => hp

/-- A delivery whose handler puts the delivered job in the queue. -/
theorem Held.of_addJob {sub : Subscription} {e : Event} {es : List Event} {task : Job}
    {coord : CoordinatorService} {queued : List Str}
    (h : { s with bus := s.bus.rest sub, coord := coord, queued := queued }.Held job)
    (hb : s.bus sub = e :: es) (he : e.job? = some task)
    (hqueue : coord.job_queue = s.coord.job_queue.addJob task) : s.Held job := by
  cases h with
  | queue h =>
    simp only [hqueue] at h
    rcases List.mem_cons.mp ((JobPriorityQueue.perm_jobs_addJob _ _).mem_iff.mp h) with rfl | h
    · exact .bus sub e (hb ▸ List.mem_cons_self) he
    · exact .queue h
  | bus sub' e' he' h => exact .bus sub' e' (Bus.mem_of_mem_rest he') h
  | running w h => exact .running w h

/-- **A job of the system was there before the step, is submitted by it, or is rebuilt from a row.** -/
theorem held_step (hv : s.Valid) {l : Label} (h : Step repr s l s') (hj : s'.Held job) :
    s.Held job ∨ l = .submit job ∨ ∃ w, job ∈ s.coord.task_repo.getAssignedTasksForWorker w := by
  cases h with
  | submit job' =>
    rcases held_publish hj with hj | he
    · exact .inl (hj.mono (fun _ h => h) (fun _ _ h => h) fun _ h => h)
    · cases he
      exact .inr (.inl rfl)
  | register w capacity =>
    rcases held_publish hj with hj | he
    · exact .inl (hj.mono (fun _ h => h) (fun _ _ h => h) fun _ h => h)
    · cases he
  | heartbeat w =>
    rcases held_publish hj with hj | he
    · exact .inl hj
    · cases he
  | idle now m => exact .inl (hj.mono (fun _ h => h) (fun _ _ h => h) fun _ h => h)
  | assign now m e q w hpq hcounter hw =>
    have hjobs : s.coord.job_queue.jobs = e.job :: q.jobs := by
      rw [JobPriorityQueue.jobs, hpq]
      rfl
    rcases held_publish hj with hj | he
    · refine .inl (hj.mono (fun job h => ?_) (fun _ _ h => h) fun _ h => h)
      rw [hjobs]
      exact List.mem_cons_of_mem _ h
    · cases he
      exact .inl (.queue (hjobs ▸ List.mem_cons_self))
  | complete i result w job' hrun =>
    rcases held_publish hj with hj | he
    · exact .inl (hj.mono (fun _ h => h) (fun _ _ h => h) fun _ h => List.mem_of_mem_eraseIdx h)
    · cases he
      exact .inl (.running w (List.mem_of_getElem? hrun))
  | fail i error w job' hrun =>
    rcases held_publish hj with hj | he
    · exact .inl (hj.mono (fun _ h => h) (fun _ _ h => h) fun _ h => List.mem_of_mem_eraseIdx h)
    · cases he
      exact .inl (.running w (List.mem_of_getElem? hrun))
  | crash w =>
    exact .inl (hj.mono (fun _ h => h) (fun _ _ h => h) fun _ h => (List.mem_filter.mp h).1)
  | monitor w now hw =>
    rcases held_publish hj with hj | he
    · exact .inl hj
    · cases he
  | handle_register now w capacity es h =>
    exact .inl (hj.of_deliver (CoordinatorService.sameJobs_handleRegister _ _ _ _).job_queue)
  | handle_job_submitted now job' es h => exact .inl (hj.of_addJob h rfl rfl)
  | handle_heartbeat now w es h =>
    exact .inl (hj.of_deliver (CoordinatorService.sameJobs_handleHeartbeat _ _ _).job_queue)
  | handle_worker_failure now w es h =>
    exact .inl (hj.of_deliver (CoordinatorService.sameJobs_handleWorkerFailure _ _).job_queue)
  | handle_worker_failed now w es h =>
    cases hj with
    | queue hq =>
      have hw : w ≠ [] := hv.failing w (h ▸ List.mem_cons_self)
      have hmem := (CoordinatorService.jobs_handleWorkerFailed hw).mem_iff.mp hq
      rcases List.mem_append.mp hmem with hq | hq
      · exact .inr (.inr ⟨w, hq⟩)
      · exact .inl (.queue hq)
    | bus sub e he hjob => exact .inl (.bus sub e (Bus.mem_of_mem_rest he) hjob)
    | running w hw => exact .inl (.running w hw)
  | handle_job_completed now w job' result es h =>
    exact .inl (hj.of_deliver (CoordinatorService.sameJobs_handleJobCompleted _ _).job_queue)
  | handle_task_failed now w job' error es h =>
    by_cases hle : s.coord.retryCount job'.id ≤ s.coord.max_retries
    · obtain ⟨-, -, hqueue, -⟩ := CoordinatorService.handleTaskFailed_of_le w error now hle
      exact .inl (hj.of_addJob h rfl hqueue)
    · obtain ⟨-, -, hqueue, -⟩ := CoordinatorService.handleTaskFailed_of_lt w error now hle
      exact .inl (hj.of_deliver hqueue)
  | persist_worker now w capacity es h => exact .inl (hj.of_deliver rfl)
  | persist_task now job' es h => exact .inl (hj.of_deliver rfl)
  | persist_task_assigned now w job' es h => exact .inl (hj.of_deliver rfl)
  | persist_task_completed now w job' result es h => exact .inl (hj.of_deliver rfl)
  | send_to_worker now w job' es sent h hsent =>
    cases hj with
    | queue hq => exact .inl (.queue hq)
    | bus sub e he hjob => exact .inl (.bus sub e (Bus.mem_of_mem_rest he) hjob)
    | running w' hr =>
      rcases List.mem_append.mp hr with hr | hr
      · exact .inl (.running w' hr)
      · rcases hsent with rfl | rfl
        · cases hr
        · cases List.mem_singleton.mp hr
          exact .inl (.bus .send_to_worker _ (h ▸ List.mem_cons_self) rfl)

end Held

/-! ## The rows of the system -/

/-- The type and the priority in the row of a task. -/
def named? (s : System) (t : Str) : Option (Str × Str) :=
  (s.coord.task_repo.row? t).map fun row => (row.job_type, row.priority)

section Named

variable {repr : Json → Str} {s s' : System} {t : Str}

/-- A row that changes keeps its type and its priority. -/
theorem named?_of_map {f : TaskRow → TaskRow}
    (h : s'.coord.task_repo.row? t = (s.coord.task_repo.row? t).map f)
    (hf : ∀ row, (f row).job_type = row.job_type ∧ (f row).priority = row.priority) :
    s'.named? t = s.named? t := by
  unfold named?
  rw [h]
  cases s.coord.task_repo.row? t with
  | none => rfl
  | some row => exact congrArg some (Prod.ext (hf row).1 (hf row).2)

theorem named?_of_row? (h : s'.coord.task_repo.row? t = s.coord.task_repo.row? t) :
    s'.named? t = s.named? t := by
  unfold named?
  rw [h]

theorem named?_updateStatus (honline : s.coord.task_repo.store.online = true) {t' : Str}
    {status : TaskStatus} {worker_id : Option Str} {result error : Json}
    (h : s'.coord.task_repo =
      s.coord.task_repo.updateStatus t' status worker_id result error) :
    s'.named? t = s.named? t := by
  have hrow := TaskRepository.row?_updateStatus honline t' t status worker_id result error
  rw [← h] at hrow
  split_ifs at hrow with hif
  · rw [← hif.1] at hrow
    exact named?_of_map hrow fun _ => ⟨rfl, rfl⟩
  · exact named?_of_row? hrow

theorem named?_handleTaskFailed (honline : s.coord.task_repo.store.online = true) {job : Job}
    {status : TaskStatus} {error : Json}
    (h : s'.coord.task_repo =
      (s.coord.task_repo.incrementRetry job.id).updateStatus job.id status none .null error) :
    s'.named? t = s.named? t := by
  have honline' := (TaskRepository.online_incrementRetry s.coord.task_repo job.id).trans honline
  have hrow := TaskRepository.row?_updateStatus_none honline' job.id t status .null error
  rw [← h, TaskRepository.row?_incrementRetry honline,
    TaskRepository.row?_incrementRetry honline, if_pos rfl] at hrow
  split_ifs at hrow with hif
  · rw [← hif, Option.map_map] at hrow
    exact named?_of_map hrow fun _ => ⟨rfl, rfl⟩
  · exact named?_of_row? hrow

/-- **A row names what it named before the step, or what a job of the system is stored as.** -/
theorem named?_step (hv : s.Valid) (honline : s.coord.task_repo.store.online = true) {l : Label}
    (h : Step repr s l s') :
    s'.named? t = s.named? t ∨ ∃ job, s.Held job ∧ job.id = t ∧
      s'.named? t = some (job.storedType repr, job.storedPriority repr) := by
  cases h with
  | persist_task now job es h =>
    have hrow := TaskRepository.row?_saveTask honline repr job.id t
      ((job.get? jobTypeKey).getD (.str "unknown".toList))
      ((job.get? priorityKey).getD (.str "MEDIUM".toList)) .PENDING 0
    split_ifs at hrow with ht
    · refine .inr ⟨job, .bus .persist_task _ (h ▸ List.mem_cons_self) rfl, ht.symm, ?_⟩
      show Option.map _ _ = _
      rw [CoordinatorService.persistTask, hrow]
      rfl
    · exact .inl (named?_of_row? hrow)
  | persist_task_assigned now w job es h => exact .inl (named?_updateStatus honline rfl)
  | persist_task_completed now w job result es h => exact .inl (named?_updateStatus honline rfl)
  | persist_worker now w capacity es h =>
    exact .inl (named?_of_row? (TaskRepository.row?_saveWorker _ _ _ _ _ _))
  | handle_worker_failed now w es h =>
    have hw : w ≠ [] := hv.failing w (h ▸ List.mem_cons_self)
    refine .inl (named?_of_map (CoordinatorService.row?_handleWorkerFailed hw honline t)
      fun row => ?_)
    split_ifs <;> exact ⟨rfl, rfl⟩
  | handle_task_failed now w job error es h =>
    obtain ⟨status, error_msg, hrepo⟩ :=
      CoordinatorService.exists_repo_handleTaskFailed w error now s.coord job
    exact .inl (named?_handleTaskFailed honline hrepo)
  | handle_register now w capacity es h =>
    refine .inl (named?_of_row? ?_)
    rw [(CoordinatorService.sameJobs_handleRegister s.coord w capacity now).task_repo]
  | handle_heartbeat now w es h =>
    refine .inl (named?_of_row? ?_)
    rw [(CoordinatorService.sameJobs_handleHeartbeat s.coord w now).task_repo]
  | handle_worker_failure now w es h =>
    refine .inl (named?_of_row? ?_)
    rw [(CoordinatorService.sameJobs_handleWorkerFailure s.coord w).task_repo]
  | handle_job_completed now w job result es h =>
    refine .inl (named?_of_row? ?_)
    rw [(CoordinatorService.sameJobs_handleJobCompleted s.coord w).task_repo]
  | submit | register | heartbeat | idle | assign | complete | fail | crash | monitor
  | handle_job_submitted | send_to_worker => exact .inl rfl

end Named

/-! ## One job under its id -/

/-- Under the id of the job, the system holds the job itself or what is rebuilt from its row. -/
structure Traced (repr : Json → Str) (job : Job) (s : System) : Prop where
  valid : s.Valid
  online : s.coord.task_repo.store.online = true
  held : ∀ job', s.Held job' → job'.id = job.id → job' = job ∨ job' = job.stored repr
  named : ∀ p, s.named? job.id = some p → p = (job.storedType repr, job.storedPriority repr)

/-- Nothing else is submitted under the id of the job. -/
def Only (job : Job) (l : Label) : Prop := ∀ job', l = .submit job' → job'.id = job.id → job' = job

section Traced

variable {repr : Json → Str} {s s' : System} {job : Job}

/-- The row of the job gives back the stored job. -/
theorem Traced.rebuilt (hs : s.Traced repr job) {w : Str} {job' : Job}
    (h : job' ∈ s.coord.task_repo.getAssignedTasksForWorker w) (hid : job'.id = job.id) :
    job' = job.stored repr := by
  obtain ⟨t, row, hrow, -, rfl⟩ :=
    (TaskRepository.mem_getAssignedTasksForWorker hs.online w job').mp h
  have ht : t = job.id := hid
  subst ht
  have hnamed := hs.named (row.job_type, row.priority) (by rw [named?, hrow]; rfl)
  obtain ⟨htype, hpriority⟩ := Prod.mk.inj hnamed
  rw [htype, hpriority, Job.stored]

theorem traced_step (hs : s.Traced repr job) {l : Label} (hl : Only job l) (h : Step repr s l s') :
    s'.Traced repr job where
  valid := valid_step hs.valid h
  online := (online_step h).trans hs.online
  held job' hj hid := by
    rcases held_step hs.valid h hj with hj | hsub | ⟨w, hw⟩
    · exact hs.held job' hj hid
    · exact .inl (hl job' hsub hid)
    · exact .inr (hs.rebuilt hw hid)
  named p hp := by
    rcases named?_step hs.valid hs.online h with hrow | ⟨job', hj, hid, hrow⟩
    · exact hs.named p (hrow ▸ hp)
    · have htexts : p = (job'.storedType repr, job'.storedPriority repr) :=
        Option.some.inj (hp.symm.trans hrow)
      rcases hs.held job' hj hid with rfl | rfl
      · exact htexts
      · rw [htexts, storedType_stored, storedPriority_stored]

theorem traced_run (hs : s.Traced repr job) {ls : List Label} (hls : ∀ l ∈ ls, Only job l)
    (hr : run (step repr) ls s = some s') : s'.Traced repr job :=
  run_invariant (fun _ _ _ hs hl h => traced_step hs hl.2 (step_cases hs.valid.heard h)) hs
    ((guarded_true ls s).and_label hls) hr

end Traced

/-! ## What is put back -/

/-- The second state has queued a job that the first had not, with the id, the type and the payload of
the assigned job and the rank of the submitted one. -/
def Requeues (s s' : System) (submitted assigned : Job) : Prop :=
  ∃ e ∈ s'.coord.job_queue.pq, s.coord.job_queue.counter < e.counter ∧ e.job.id = assigned.id ∧
    e.job.get? jobTypeKey = assigned.get? jobTypeKey ∧
    e.job.get? payloadKey = assigned.get? payloadKey ∧ e.priority_num = submitted.priorityNum

/-- The columns keep the job: its type is a string, it has no payload, and an integer priority is the
one that has the rank of an unknown string. -/
def Rebuildable (submitted assigned : Job) : Prop :=
  (∃ job_type, assigned.get? jobTypeKey = some (.str job_type)) ∧ assigned.get? payloadKey = none ∧
    ∀ n, submitted.get? priorityKey = some (.int n) → n = 6

section Requeue

variable {repr : Json → Str} {s s' : System} {job assigned : Job} {w : Str}

/-- The only new entry of that id is the stored job. -/
theorem requeues_iff_stored (hs : s.Traced repr job) (hid : assigned.id = job.id) (hw : w ≠ [])
    {row : TaskRow} (hrow : s.coord.task_repo.row? job.id = some row) (hassigned : row.AssignedTo w)
    (hcoord : s'.coord = s.coord.handleWorkerFailed w) :
    Requeues s s' job assigned ↔
      (job.stored repr).get? jobTypeKey = assigned.get? jobTypeKey ∧
        (job.stored repr).get? payloadKey = assigned.get? payloadKey ∧
        (job.stored repr).priorityNum = job.priorityNum := by
  unfold Requeues
  rw [hcoord, CoordinatorService.handleWorkerFailed_eq hw]
  constructor
  · rintro ⟨e, he, hcounter, hjob, htype, hpayload, hnum⟩
    rcases CoordinatorService.mem_foldl_requeue he with he | ⟨-, hmem, hrank⟩
    · have := s.coord.job_queue.le_counter e he
      omega
    · have hstored : e.job = job.stored repr := hs.rebuilt hmem (hjob.trans hid)
      rw [← hstored]
      exact ⟨htype, hpayload, hrank.symm.trans hnum⟩
  · rintro ⟨htype, hpayload, hnum⟩
    have hmem : job.id ∈ (s.coord.task_repo.getAssignedTasksForWorker w).map Job.id :=
      (TaskRepository.mem_ids_getAssignedTasksForWorker hs.online w job.id).mpr
        ⟨row, hrow, hassigned⟩
    obtain ⟨task, htask, htid⟩ := List.mem_map.mp hmem
    obtain rfl := hs.rebuilt htask htid
    obtain ⟨e, he, hcounter, hjob, hrank⟩ := CoordinatorService.exists_mem_foldl_requeue
      (c := { s.coord with
        circuit_breaker_manager := s.coord.circuit_breaker_manager.removeWorker w }) htask
    refine ⟨e, he, hcounter, ?_, hjob ▸ htype, hjob ▸ hpayload, hrank.trans hnum⟩
    rw [hjob, hid]
    rfl

/-- The assigned job was the submitted one or, after an earlier failure, the stored one. -/
theorem stored_eq_iff_rebuildable (hranked : job.Ranked)
    (h : assigned = job ∨ assigned = job.stored repr) :
    ((job.stored repr).get? jobTypeKey = assigned.get? jobTypeKey ∧
        (job.stored repr).get? payloadKey = assigned.get? payloadKey ∧
        (job.stored repr).priorityNum = job.priorityNum) ↔ Rebuildable job assigned := by
  have htype : (job.stored repr).get? jobTypeKey = some (.str (job.storedType repr)) :=
    get?_jobType_rebuiltJob _ _ _
  have hpayload : (job.stored repr).get? payloadKey = none := get?_payload_rebuiltJob _ _ _
  rw [priorityNum_stored_iff repr hranked, hpayload, Rebuildable]
  refine and_congr ?_ (and_congr ⟨Eq.symm, Eq.symm⟩ Iff.rfl)
  rcases h with rfl | rfl
  · rw [htype]
    constructor
    · exact fun h => ⟨_, h.symm⟩
    · rintro ⟨job_type, hjob⟩
      rw [Job.storedType, hjob]
      rfl
  · exact ⟨fun _ => ⟨_, htype⟩, fun _ => rfl⟩

end Requeue

section Runs

variable (repr : Json → Str) (failure_threshold : ℤ) (recovery_timeout heartbeat_timeout : ℚ)
  (max_retries : ℤ) (store : PostgresStore)

/-- **What a failed worker's job comes back as.** Two runs lead to the delivery of its assignment and
from there to that of the worker's failure. -/
theorem requeues_iff (honline : store.online = true) {job : Job}
    (hnew : store.tasks.get? job.id = none) (hranked : job.Ranked) {ls ls' : List Label}
    (honly : ∀ l ∈ ls ++ ls', Only job l) {s s' s'' : System}
    (hr : run (step repr) ls
      (start failure_threshold recovery_timeout heartbeat_timeout max_retries store) = some s)
    {w : Str} {assigned : Job} (hid : assigned.id = job.id)
    (hassign : (s.bus .persist_task_assigned).head? = some (.taskAssigned w assigned)) {now : ℚ}
    (hr' : run (step repr) (.deliver .persist_task_assigned now :: ls') s = some s') {row : TaskRow}
    (hrow : s'.coord.task_repo.row? job.id = some row) (hassigned : row.AssignedTo w)
    (hfail : (s'.bus .handle_worker_failed).head? = some (.workerFailed w)) {now' : ℚ}
    (h : step repr (.deliver .handle_worker_failed now') s' = some s'') :
    Requeues s' s'' job assigned ↔ Rebuildable job assigned := by
  obtain ⟨es, hassign⟩ := List.head?_eq_some_iff.mp hassign
  obtain ⟨es', hfail⟩ := List.head?_eq_some_iff.mp hfail
  have hstart : (start failure_threshold recovery_timeout heartbeat_timeout max_retries
      store).Traced repr job := by
    refine ⟨valid_init (WorkerRegistry.notMem_empty _), honline, fun job' hj => ?_,
      fun p hp => ?_⟩
    · cases hj with
      | queue h => cases h
      | bus sub e he h => cases he
      | running w h => cases h
    · have hnone : named? (start failure_threshold recovery_timeout heartbeat_timeout max_retries
          store) job.id = none := congrArg (Option.map _) hnew
      rw [hnone] at hp
      cases hp
  have hs : s.Traced repr job :=
    traced_run hstart (fun l hl => honly l (List.mem_append_left _ hl)) hr
  have hs' : s'.Traced repr job := by
    refine traced_run hs (fun l hl => ?_) hr'
    rcases List.mem_cons.mp hl with rfl | hl
    · exact fun _ h => nomatch h
    · exact honly l (List.mem_append_right _ hl)
  have hheld : s.Held assigned := .bus .persist_task_assigned _ (hassign ▸ List.mem_cons_self) rfl
  have hw : w ≠ [] := hs'.valid.failing w (hfail ▸ List.mem_cons_self)
  have hcoord : s''.coord = s'.coord.handleWorkerFailed w := by
    simp only [step, hfail] at h
    cases h
    rfl
  rw [requeues_iff_stored hs' hid hw hrow hassigned hcoord,
    stored_eq_iff_rebuildable hranked (hs.held assigned hheld hid)]

end Runs

/-- The assignment is stored, and the worker falls silent. -/
def silentWorker : List Label := [.deliver .persist_task_assigned 0, .crash ['a'], .monitor ['a'] 11]

theorem requeues_plainJob :
    ∃ s s' s'', run (step fun _ => []) oneAssigned emptyStart = some s ∧
      run (step fun _ => []) silentWorker s = some s' ∧
      step (fun _ => []) (.deliver .handle_worker_failed 11) s' = some s'' ∧
      Requeues s' s'' plainJob plainJob := by
  have h : (run (step fun _ => []) oneAssigned emptyStart).map (fun s =>
      ((s.bus .persist_task_assigned).head?, (run (step fun _ => []) silentWorker s).map fun s' =>
        (s'.coord.task_repo.row? ['1'], (s'.bus .handle_worker_failed).head?,
          (step (fun _ => []) (.deliver .handle_worker_failed 11) s').isSome))) =
      some (some (.taskAssigned ['a'] plainJob),
        some (some ⟨"ok".toList, "LOW".toList, .ASSIGNED, 0, some ['a']⟩, some (.workerFailed ['a']),
          true)) := by
    with_unfolding_all rfl
  obtain ⟨s, hr, hs⟩ := Option.map_eq_some_iff.mp h
  obtain ⟨hassign, hs⟩ := Prod.mk.inj hs
  obtain ⟨s', hr', hs'⟩ := Option.map_eq_some_iff.mp hs
  obtain ⟨hrow, hs'⟩ := Prod.mk.inj hs'
  obtain ⟨hfail, hsome⟩ := Prod.mk.inj hs'
  obtain ⟨s'', hstep⟩ := Option.isSome_iff_exists.mp hsome
  have hpriority : plainJob.get? priorityKey = some (.str "LOW".toList) := rfl
  have hranked : plainJob.Ranked := by
    rintro p hp
    rw [hpriority] at hp
    cases hp
    exact .inl ⟨_, rfl⟩
  have honly : ∀ l ∈ oneAssigned ++ [.crash ['a'], .monitor ['a'] 11], Only plainJob l := by
    simp [oneAssigned, assignedAlone, Only]
  refine ⟨s, s', s'', hr, hr', hstep, ?_⟩
  refine (requeues_iff (fun _ => []) 3 5 10 3 ⟨true, true, ∅, ∅⟩ rfl rfl hranked honly hr rfl hassign
    hr' hrow ⟨rfl, rfl⟩ hfail hstep).mpr ⟨⟨_, rfl⟩, rfl, fun n hn => ?_⟩
  rw [hpriority] at hn
  cases hn

/-- A job with the highest numeric priority and a payload. -/
def urgentJob : Job where
  fields := (((PyDict.empty.set idKey (.str ['1'])).set jobTypeKey (.str "ok".toList)).set
    priorityKey (.int 10)).set payloadKey (.int 7)
  id := ['1']
  get_id := by
    rw [PyDict.get?_set_ne _ (by decide), PyDict.get?_set_ne _ (by decide),
      PyDict.get?_set_ne _ (by decide), PyDict.get?_set_self]

/-- Its payload and its rank are lost. -/
theorem not_requeues_urgentJob :
    ∃ s s' s'', run (step fun _ => []) (assignedAlone urgentJob) emptyStart = some s ∧
      (s.bus .persist_task_assigned).head? = some (.taskAssigned ['a'] urgentJob) ∧
      run (step fun _ => []) silentWorker s = some s' ∧
      (s'.coord.task_repo.row? ['1']).any (fun row => row.AssignedTo ['a']) = true ∧
      (s'.bus .handle_worker_failed).head? = some (.workerFailed ['a']) ∧
      step (fun _ => []) (.deliver .handle_worker_failed 11) s' = some s'' ∧
      ¬ Requeues s' s'' urgentJob urgentJob := by
  have h : (run (step fun _ => []) (assignedAlone urgentJob) emptyStart).map (fun s =>
      ((s.bus .persist_task_assigned).head?, (run (step fun _ => []) silentWorker s).map fun s' =>
        ((s'.coord.task_repo.row? ['1']).any (fun row => row.AssignedTo ['a']),
          (s'.bus .handle_worker_failed).head?,
          (step (fun _ => []) (.deliver .handle_worker_failed 11) s').map fun s'' =>
            s''.coord.job_queue.pq.map fun e => (e.priority_num, e.job.get? payloadKey)))) =
      some (some (.taskAssigned ['a'] urgentJob),
        some (true, some (.workerFailed ['a']), some [(5, none)])) := by
    with_unfolding_all rfl
  obtain ⟨s, hr, hs⟩ := Option.map_eq_some_iff.mp h
  obtain ⟨hassign, hs⟩ := Prod.mk.inj hs
  obtain ⟨s', hr', hs'⟩ := Option.map_eq_some_iff.mp hs
  obtain ⟨hrow, hs'⟩ := Prod.mk.inj hs'
  obtain ⟨hfail, hs'⟩ := Prod.mk.inj hs'
  obtain ⟨s'', hstep, hqueue⟩ := Option.map_eq_some_iff.mp hs'
  refine ⟨s, s', s'', hr, hassign, hr', hrow, hfail, hstep, ?_⟩
  rintro ⟨e, he, -, -, -, hpayload, -⟩
  have hmem : (e.priority_num, e.job.get? payloadKey) ∈ [((5 : ℤ), (none : Option Json))] :=
    hqueue ▸ List.mem_map_of_mem he
  have hnone : e.job.get? payloadKey = none := (Prod.mk.inj (List.mem_singleton.mp hmem)).2
  rw [hnone] at hpayload
  cases hpayload

end System

end JobSystem
