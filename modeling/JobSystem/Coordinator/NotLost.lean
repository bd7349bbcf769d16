import JobSystem.Coordinator.System

/-!
# No job is stranded

A job that was queued is tracked as long as it is completed, in the dead letter queue, in the
scheduler's queue, or on its way to a handler that will queue, record or drop it. It is covered when
its row is assigned to a worker that is still watched: registered, or with a `WORKER_FAILED` that
waits at `handle_worker_failed`.

* `Tracked`, `Covered`, `NotStranded`;
* `Ordered`: the deliveries that keep every queued job tracked or covered;
* **`notStranded_step`**, **`not_stranded`**: along a run of such deliveries, no job is stranded.
-/

namespace JobSystem

open PyText Trans
open PyJson (Json)

/-- The worker whose failure an event announces. -/
def Event.failed? : Event → Option Str
  | .workerFailed w => some w
  | _ => none

namespace System

/-- The job is done, dropped, queued, or waits at a handler that sees to it. -/
def Tracked (s : System) (t : Str) : Prop :=
  t ∈ s.completed ∨ t ∈ s.coord.dlq.map Job.id ∨ t ∈ s.coord.job_queue.jobs.map Job.id ∨
    t ∈ s.waiting .handle_job_submitted ∨ t ∈ s.waiting .handle_task_failed ∨
    t ∈ s.waiting .persist_task_assigned

/-- A failure of the worker will still be handled. -/
def Watched (s : System) (w : Str) : Prop :=
  w ∈ s.coord.registry ∨ w ∈ (s.bus .handle_worker_failed).filterMap Event.failed?

/-- The row is assigned to a watched worker. -/
def Covered (s : System) (t : Str) : Prop :=
  ∃ row ∈ s.coord.task_repo.row? t, ∃ w ∈ row.worker_id, row.AssignedTo w ∧ s.Watched w

instance (s : System) (t : Str) : Decidable (s.Tracked t) := inferInstanceAs (Decidable (_ ∨ _))

instance (s : System) : DecidablePred s.Watched := fun _ => inferInstanceAs (Decidable (_ ∨ _))

instance (s : System) (t : Str) : Decidable (s.Covered t) :=
  inferInstanceAs (Decidable (∃ row ∈ s.coord.task_repo.row? t, ∃ w ∈ row.worker_id, _))

/-- No queued job is lost. -/
def NotStranded (s : System) : Prop := ∀ t ∈ s.queued, s.Tracked t ∨ s.Covered t

/-- `persist_task_assigned` finds the task, and the foreign key holds. -/
def Recordable (s : System) (t w : Str) : Prop :=
  (s.coord.task_repo.row? t).isSome = true ∧ s.coord.task_repo.store.Allows (some w)

instance (s : System) (t w : Str) : Decidable (s.Recordable t w) := inferInstanceAs (Decidable (_ ∧ _))

/-- What the delivery of an event asks of the state:
* `persist_task` does not overwrite the row of a job that is only covered by it;
* the job of a `persist_task_assigned` is tracked otherwise, or its row can be written and the worker
  is watched, or its row cannot be written and covers it as it is;
* `handle_worker_failure` removes a worker whose failure waits at `handle_worker_failed` too, or one
  whose jobs, by their rows, are all tracked. -/
def Keeps (s : System) : Subscription → Event → Prop
  | .persist_task, .jobSubmitted job => s.Covered job.id → s.Tracked job.id
  | .persist_task_assigned, .taskAssigned w job =>
    { s with bus := s.bus.rest .persist_task_assigned }.Tracked job.id ∨
      (s.Recordable job.id w ∧ s.Watched w) ∨ (¬ s.Recordable job.id w ∧ s.Covered job.id)
  | .handle_worker_failure, .workerFailed w =>
    w ∈ (s.bus .handle_worker_failed).filterMap Event.failed? ∨
      ∀ task ∈ s.coord.task_repo.store.tasks.entries, task.2.AssignedTo w → s.Tracked task.1
  | _, _ => True

instance (s : System) : (sub : Subscription) → (e : Event) → Decidable (s.Keeps sub e)
  | .persist_task, e =>
    match e with
    | .jobSubmitted _ => inferInstanceAs (Decidable (_ → _))
    | .register _ _ | .heartbeat _ | .workerFailed _ | .taskAssigned _ _ | .jobCompleted _ _ _
    | .taskFailed _ _ _ | .moveToDlq _ _ | .alert _ _ => isTrue trivial
  | .persist_task_assigned, e =>
    match e with
    | .taskAssigned _ _ => inferInstanceAs (Decidable (_ ∨ _))
    | .register _ _ | .heartbeat _ | .jobSubmitted _ | .workerFailed _ | .jobCompleted _ _ _
    | .taskFailed _ _ _ | .moveToDlq _ _ | .alert _ _ => isTrue trivial
  | .handle_worker_failure, e =>
    match e with
    | .workerFailed _ => inferInstanceAs (Decidable (_ ∨ _))
    | .register _ _ | .heartbeat _ | .jobSubmitted _ | .taskAssigned _ _ | .jobCompleted _ _ _
    | .taskFailed _ _ _ | .moveToDlq _ _ | .alert _ _ => isTrue trivial
  | .handle_register, _ | .handle_job_submitted, _ | .handle_heartbeat, _ | .handle_worker_failed, _
  | .handle_job_completed, _ | .handle_task_failed, _ | .persist_worker, _
  | .persist_task_completed, _ | .send_to_worker, _ => isTrue trivial

/-- The step loses no queued job. -/
def Ordered (s : System) : Label → Prop
  | .deliver sub _ => ∀ e ∈ (s.bus sub).head?, s.Keeps sub e
  | _ => True

instance (s : System) : DecidablePred s.Ordered
  | .deliver sub _ => inferInstanceAs (Decidable (∀ e ∈ (s.bus sub).head?, s.Keeps sub e))
  | .submit _ | .register _ _ | .heartbeat _ | .assign _ | .complete _ _ | .fail _ _ | .crash _
  | .monitor _ _ => isTrue trivial

/-! ## What stays -/

section Stay

variable {s s' : System} {t : Str}

/-- A job that is tracked stays tracked when nothing is taken away. -/
theorem Tracked.mono (h : s.Tracked t) (hcompleted : ∀ t ∈ s.completed, t ∈ s'.completed)
    (hdlq : ∀ job ∈ s.coord.dlq, job ∈ s'.coord.dlq)
    (hqueue : ∀ job ∈ s.coord.job_queue.jobs, job ∈ s'.coord.job_queue.jobs)
    (hbus : ∀ sub ∈ [Subscription.handle_job_submitted, .handle_task_failed, .persist_task_assigned],
      t ∈ s.waiting sub → t ∈ s'.waiting sub ∨ s'.Tracked t) : s'.Tracked t := by
  have hsub : ∀ {l l' : List Job}, (∀ job ∈ l, job ∈ l') → t ∈ l.map Job.id → t ∈ l'.map Job.id :=
    fun hl ht => by
      obtain ⟨job, hjob, hid⟩ := List.mem_map.mp ht
      exact List.mem_map.mpr ⟨job, hl job hjob, hid⟩
  rcases h with h | h | h | h | h | h
  · exact .inl (hcompleted t h)
  · exact .inr (.inl (hsub hdlq h))
  · exact .inr (.inr (.inl (hsub hqueue h)))
  · exact (hbus _ (by simp) h).elim (fun h => .inr (.inr (.inr (.inl h)))) id
  · exact (hbus _ (by simp) h).elim (fun h => .inr (.inr (.inr (.inr (.inl h))))) id
  · exact (hbus _ (by simp) h).elim (fun h => .inr (.inr (.inr (.inr (.inr h))))) id

theorem mem_waiting_of_subset {sub : Subscription} (h : ∀ e ∈ s.bus sub, e ∈ s'.bus sub)
    (ht : t ∈ s.waiting sub) : t ∈ s'.waiting sub := by
  obtain ⟨e, he, hid⟩ := List.mem_filterMap.mp ht
  exact List.mem_filterMap.mpr ⟨e, h e he, hid⟩

/-- What waits behind the head that is delivered still waits. -/
theorem mem_waiting_rest {sub sub' : Subscription} {e : Event} {es : List Event}
    (h : s.bus sub = e :: es) (ht : t ∈ s.waiting sub') :
    sub' = sub ∧ e.jobId? = some t ∨ t ∈ (s.bus.rest sub sub').filterMap Event.jobId? := by
  obtain ⟨e', he', hid⟩ := List.mem_filterMap.mp ht
  rcases Bus.eq_head_or_mem_rest h he' with ⟨hsub, rfl⟩ | he'
  · exact .inl ⟨hsub, hid⟩
  · exact .inr (List.mem_filterMap.mpr ⟨e', he', hid⟩)

/-- A covered job stays covered when its row and the watch over its worker stay. -/
theorem Covered.mono (h : s.Covered t)
    (hrow : s'.coord.task_repo.row? t = s.coord.task_repo.row? t)
    (hwatched : ∀ w, s.Watched w → s'.Watched w) : s'.Covered t := by
  obtain ⟨row, hr, w, hw, hassigned, hwatch⟩ := h
  exact ⟨row, hrow ▸ hr, w, hw, hassigned, hwatched w hwatch⟩

theorem Watched.mono {w : Str} (h : s.Watched w)
    (hreg : w ∈ s.coord.registry → w ∈ s'.coord.registry)
    (hbus : ∀ e ∈ s.bus .handle_worker_failed, e ∈ s'.bus .handle_worker_failed) :
    s'.Watched w := by
  rcases h with h | h
  · exact .inl (hreg h)
  · obtain ⟨e, he, hw⟩ := List.mem_filterMap.mp h
    exact .inr (List.mem_filterMap.mpr ⟨e, hbus e he, hw⟩)

/-- A step that takes nothing from the four channels that matter, and changes no row. -/
theorem NotStranded.mono (hP : s.NotStranded) (hqueued : s'.queued = s.queued)
    (hcompleted : ∀ t ∈ s.completed, t ∈ s'.completed)
    (hdlq : s'.coord.dlq = s.coord.dlq) (hqueue : s'.coord.job_queue = s.coord.job_queue)
    (hrow : ∀ t, s'.coord.task_repo.row? t = s.coord.task_repo.row? t)
    (hreg : ∀ w ∈ s.coord.registry, w ∈ s'.coord.registry)
    (hbus : ∀ sub ∈ [Subscription.handle_job_submitted, .handle_task_failed, .persist_task_assigned,
      .handle_worker_failed], ∀ e ∈ s.bus sub, e ∈ s'.bus sub) : s'.NotStranded := by
  intro t ht
  rw [hqueued] at ht
  rcases hP t ht with h | h
  · refine .inl (h.mono hcompleted (by simp [hdlq]) (by simp [hqueue]) fun sub hsub h => .inl ?_)
    refine mem_waiting_of_subset (hbus sub ?_) h
    simp only [List.mem_cons, List.not_mem_nil, or_false] at hsub ⊢
    tauto
  · exact .inr (h.mono (hrow t) fun w hw => hw.mono (hreg w) (hbus _ (by simp)))

theorem NotStranded.publish (hP : s.NotStranded) (e : Event) : (s.publish e).NotStranded :=
  hP.mono rfl (fun _ h => h) rfl rfl (fun _ => rfl) (fun _ h => h) fun _ _ _ h =>
    mem_bus_publish.mpr (.inl h)

/-- A delivery on another channel that changes neither the jobs nor the rows. -/
theorem NotStranded.deliver (hP : s.NotStranded) {sub : Subscription} {coord : CoordinatorService}
    {running : List (Str × Job)}
    (hsub : sub ∉ [Subscription.handle_job_submitted, .handle_task_failed, .persist_task_assigned,
      .handle_worker_failed])
    (hdlq : coord.dlq = s.coord.dlq) (hqueue : coord.job_queue = s.coord.job_queue)
    (hrow : ∀ t, coord.task_repo.row? t = s.coord.task_repo.row? t)
    (hreg : ∀ w ∈ s.coord.registry, w ∈ coord.registry) :
    { s with bus := s.bus.rest sub, coord := coord, running := running }.NotStranded := by
  refine hP.mono rfl (fun _ h => h) hdlq hqueue hrow hreg fun sub' hsub' e he => ?_
  refine Bus.mem_rest_of_ne ?_ he
  rintro rfl
  exact hsub hsub'

/-- A delivery that concerns one job: it is enough to see to that job. -/
theorem NotStranded.deliver_job (hP : s.NotStranded) {sub : Subscription} {e : Event}
    {es : List Event} {id : Str} {coord : CoordinatorService} {queued : List Str}
    (hsub : sub ≠ .handle_worker_failed) (h : s.bus sub = e :: es) (hid : e.jobId? = some id)
    (hdlq : ∀ job ∈ s.coord.dlq, job ∈ coord.dlq)
    (hqueue : ∀ job ∈ s.coord.job_queue.jobs, job ∈ coord.job_queue.jobs)
    (hrow : ∀ t, t ≠ id → coord.task_repo.row? t = s.coord.task_repo.row? t)
    (hreg : ∀ w ∈ s.coord.registry, w ∈ coord.registry)
    (hqueued : ∀ t ∈ queued, t ≠ id → t ∈ s.queued)
    (hself : id ∈ queued →
      { s with bus := s.bus.rest sub, coord := coord, queued := queued }.Tracked id ∨
        { s with bus := s.bus.rest sub, coord := coord, queued := queued }.Covered id) :
    { s with bus := s.bus.rest sub, coord := coord, queued := queued }.NotStranded := by
  intro t ht
  by_cases hte : t = id
  · subst hte
    exact hself ht
  · rcases hP t (hqueued t ht hte) with htr | hc
    · refine .inl (htr.mono (fun _ h => h) hdlq hqueue fun sub' _ hw => .inl ?_)
      rcases mem_waiting_rest h hw with ⟨-, hid'⟩ | hw
      · exact absurd (Option.some.inj (hid'.symm.trans hid)) hte
      · exact hw
    · exact .inr (hc.mono (hrow t hte) fun w hw => hw.mono (hreg w) fun _ he =>
        Bus.mem_rest_of_ne (Ne.symm hsub) he)

end Stay

/-! ## The steps -/

section Steps

variable {repr : Json → Str} {s s' : System}

theorem mem_jobs_addJob {q : JobPriorityQueue} {job job' : Job} :
    job' ∈ (q.addJob job).jobs ↔ job' = job ∨ job' ∈ q.jobs :=
  (JobPriorityQueue.perm_jobs_addJob q job).mem_iff.trans List.mem_cons

theorem notStranded_assign (hP : s.NotStranded) {m : CircuitBreakerManager} {e : QueueEntry}
    {q : JobPriorityQueue} {w : Str} (hpq : s.coord.job_queue.pq = e :: q.pq) :
    ({ s with
        coord := { s.coord with
          job_queue := q
          circuit_breaker_manager := m
          registry := s.coord.registry.incrementLoad w } }.publish
      (.taskAssigned w e.job)).NotStranded := by
  have hbus : ∀ sub, ∀ e' ∈ s.bus sub, e' ∈ (s.publish (.taskAssigned w e.job)).bus sub :=
    fun sub e' h => mem_bus_publish.mpr (.inl h)
  intro t ht
  rcases hP t ht with h | h
  · left
    by_cases hte : t = e.job.id
    · -- the head of the queue waits to be recorded
      refine .inr (.inr (.inr (.inr (.inr (List.mem_filterMap.mpr ⟨.taskAssigned w e.job, ?_, ?_⟩)))))
      · exact mem_bus_publish.mpr (.inr ⟨rfl, rfl⟩)
      · rw [hte]
        rfl
    · rcases h with h | h | h | h
      · exact .inl h
      · exact .inr (.inl h)
      · obtain ⟨job, hjob, rfl⟩ := List.mem_map.mp h
        rw [JobPriorityQueue.jobs, hpq, List.map_cons] at hjob
        rcases List.mem_cons.mp hjob with rfl | hjob
        · exact absurd rfl hte
        · exact .inr (.inr (.inl (List.mem_map_of_mem hjob)))
      · have hmono : ∀ sub, t ∈ s.waiting sub →
            t ∈ (s.publish (.taskAssigned w e.job)).waiting sub :=
          fun sub => mem_waiting_of_subset (hbus sub)
        exact .inr (.inr (.inr (h.imp (hmono _) fun h => h.imp (hmono _) (hmono _))))
  · exact .inr (h.mono rfl fun w' hw' =>
      hw'.mono WorkerRegistry.mem_incrementLoad.mpr (hbus _))

theorem notStranded_handle_job_submitted (hP : s.NotStranded) {job : Job} {es : List Event}
    (h : s.bus .handle_job_submitted = .jobSubmitted job :: es) :
    { s with
      bus := s.bus.rest .handle_job_submitted
      coord := s.coord.handleJobSubmitted job
      queued := job.id :: s.queued }.NotStranded := by
  refine hP.deliver_job (by decide) h rfl (fun _ h => h) (fun _ h => mem_jobs_addJob.mpr (.inr h))
    (fun _ _ => rfl) (fun _ h => h) (fun t ht hte => (List.mem_cons.mp ht).resolve_left hte) fun _ => ?_
  exact .inl (.inr (.inr (.inl (List.mem_map_of_mem (mem_jobs_addJob.mpr (.inl rfl))))))

theorem notStranded_handle_task_failed (hP : s.NotStranded)
    (honline : s.coord.task_repo.store.online = true) {now : ℚ} {w : Str} {job : Job}
    {error : Option Json} {es : List Event}
    (h : s.bus .handle_task_failed = .taskFailed w job error :: es) :
    { s with
      bus := s.bus.rest .handle_task_failed
      coord := (s.coord.handleTaskFailed w job error now).1 }.NotStranded := by
  have hrow : ∀ t, t ≠ job.id →
      (s.coord.handleTaskFailed w job error now).1.task_repo.row? t = s.coord.task_repo.row? t :=
    fun _ => CoordinatorService.row?_handleTaskFailed_of_ne w error now honline
  by_cases hle : s.coord.retryCount job.id ≤ s.coord.max_retries
  · obtain ⟨err, -, hqueue, hdlq⟩ :=
      CoordinatorService.handleTaskFailed_of_le w error now hle
    refine hP.deliver_job (by decide) h rfl (by simp [hdlq]) (fun job' hjob => ?_) hrow
      (fun _ h => CoordinatorService.mem_handleTaskFailed.mpr h) (fun _ ht _ => ht) fun _ => ?_
    · rw [hqueue]
      exact mem_jobs_addJob.mpr (.inr hjob)
    · refine .inl (.inr (.inr (.inl (List.mem_map_of_mem ?_))))
      rw [hqueue]
      exact mem_jobs_addJob.mpr (.inl rfl)
  · obtain ⟨err, -, hqueue, hdlq⟩ :=
      CoordinatorService.handleTaskFailed_of_lt w error now hle
    refine hP.deliver_job (by decide) h rfl (fun job' hjob => ?_) (by simp [hqueue]) hrow
      (fun _ h => CoordinatorService.mem_handleTaskFailed.mpr h) (fun _ ht _ => ht) fun _ => ?_
    · rw [hdlq]
      exact List.mem_append_left _ hjob
    · refine .inl (.inr (.inl (List.mem_map_of_mem ?_)))
      rw [hdlq]
      exact List.mem_append_right _ (List.mem_singleton_self _)

theorem notStranded_persist_task (hP : s.NotStranded)
    (honline : s.coord.task_repo.store.online = true) {job : Job} {es : List Event}
    (h : s.bus .persist_task = .jobSubmitted job :: es)
    (hG : s.Keeps .persist_task (.jobSubmitted job)) :
    { s with
      bus := s.bus.rest .persist_task
      coord := s.coord.persistTask repr job }.NotStranded := by
  refine hP.deliver_job (by decide) h rfl (fun _ h => h) (fun _ h => h) (fun t ht => ?_)
    (fun _ h => h) (fun _ ht _ => ht) fun hq => ?_
  · exact (TaskRepository.row?_saveTask honline _ _ _ _ _ _ _).trans (if_neg ht)
  · have htr : s.Tracked job.id := (hP job.id hq).elim id hG
    refine .inl (htr.mono (fun _ h => h) (fun _ h => h) (fun _ h => h) fun sub hsub hw => .inl ?_)
    refine mem_waiting_of_subset (fun e he => Bus.mem_rest_of_ne ?_ he) hw
    rintro rfl
    simp at hsub

theorem notStranded_persist_task_assigned (hP : s.NotStranded)
    (honline : s.coord.task_repo.store.online = true) {w : Str} {job : Job} {es : List Event}
    (hw : w ≠ []) (h : s.bus .persist_task_assigned = .taskAssigned w job :: es)
    (hG : s.Keeps .persist_task_assigned (.taskAssigned w job)) :
    { s with
      bus := s.bus.rest .persist_task_assigned
      coord := s.coord.persistTaskAssigned w job }.NotStranded := by
  have hrow := fun t => TaskRepository.row?_updateStatus honline job.id t .ASSIGNED (some w)
    .null .null
  have hfilter : (some w).filter (· ≠ []) = some w := by simp [hw]
  simp only [hfilter] at hrow
  have hwatched : ∀ v, s.Watched v →
      { s with
        bus := s.bus.rest .persist_task_assigned
        coord := s.coord.persistTaskAssigned w job }.Watched v := fun v hv =>
    hv.mono id fun _ he => Bus.mem_rest_of_ne (s := .persist_task_assigned) (by decide) he
  refine hP.deliver_job (by decide) h rfl (fun _ h => h) (fun _ h => h) (fun t ht => ?_)
    (fun _ h => h) (fun _ ht _ => ht) fun _ => ?_
  · exact (hrow t).trans (if_neg fun h => ht h.1)
  · rcases hG with htr | ⟨⟨hsome, hfk⟩, hwatch⟩ | ⟨hnot, hc⟩
    · exact .inl htr
    · obtain ⟨row, hr⟩ := Option.isSome_iff_exists.mp hsome
      refine .inr ⟨{ row with status := .ASSIGNED, worker_id := some w }, ?_, w, rfl, ⟨rfl, rfl⟩,
        hwatched w hwatch⟩
      refine (hrow job.id).trans ?_
      rw [if_pos ⟨rfl, hfk⟩, hr]
      rfl
    · -- the row is as it was: there is none, or the foreign key refuses
      refine .inr (hc.mono ?_ hwatched)
      refine (hrow job.id).trans ?_
      split_ifs with hfk
      · have hnone : s.coord.task_repo.row? job.id = none := by
          by_contra hne
          exact hnot ⟨Option.isSome_iff_ne_none.mpr hne, hfk.2⟩
        rw [hnone]
        rfl
      · rfl

theorem notStranded_persist_task_completed (hP : s.NotStranded) (hv : s.Valid)
    (honline : s.coord.task_repo.store.online = true) {w : Str} {job : Job}
    {result : Option Json} {es : List Event}
    (h : s.bus .persist_task_completed = .jobCompleted w job result :: es) :
    { s with
      bus := s.bus.rest .persist_task_completed
      coord := s.coord.persistTaskCompleted job result }.NotStranded := by
  refine hP.deliver_job (by decide) h rfl (fun _ h => h) (fun _ h => h) (fun t ht => ?_)
    (fun _ h => h) (fun _ ht _ => ht) fun _ => ?_
  · exact (TaskRepository.row?_updateStatus_none honline _ _ _ _ _).trans (if_neg ht)
  · exact .inl (.inl (hv.completed w job result (h ▸ List.mem_cons_self)))

/-- The worker leaves the registry. -/
theorem notStranded_handle_worker_failure (hP : s.NotStranded) {w : Str} {es : List Event}
    (hw : w ≠ []) (h : s.bus .handle_worker_failure = .workerFailed w :: es)
    (hG : s.Keeps .handle_worker_failure (.workerFailed w)) :
    { s with
      bus := s.bus.rest .handle_worker_failure
      coord := s.coord.handleWorkerFailure w }.NotStranded := by
  have hsame := CoordinatorService.sameJobs_handleWorkerFailure s.coord w
  have hbus : ∀ sub, sub ≠ .handle_worker_failure → ∀ e ∈ s.bus sub,
      e ∈ s.bus.rest .handle_worker_failure sub := fun _ hs _ he => Bus.mem_rest_of_ne hs he
  have htracked : ∀ t, s.Tracked t →
      { s with
        bus := s.bus.rest .handle_worker_failure
        coord := s.coord.handleWorkerFailure w }.Tracked t := fun t ht =>
    ht.mono (fun _ h => h) (by simp [hsame.dlq]) (by simp [hsame.job_queue]) fun sub hsub hwait => by
      refine .inl (mem_waiting_of_subset (hbus sub ?_) hwait)
      rintro rfl
      simp at hsub
  intro t ht
  rcases hP t ht with htr | ⟨row, hrow, v, hv, hassigned, hwatch⟩
  · exact .inl (htracked t htr)
  · have hcover : ∀ {s' : System}, s'.coord.task_repo = s.coord.task_repo → s'.Watched v →
        s'.Covered t := fun hr hw' => ⟨row, by rw [hr]; exact hrow, v, hv, hassigned, hw'⟩
    by_cases hvw : v = w
    · subst hvw
      rcases hG with hfail | hall
      · -- its failure will put the job back
        refine .inr (hcover hsame.task_repo (.inr ?_))
        obtain ⟨e, he, hid⟩ := List.mem_filterMap.mp hfail
        exact List.mem_filterMap.mpr ⟨e, hbus _ (by decide) e he, hid⟩
      · exact .inl (htracked t (hall (t, row) (PyDict.mem_entries_iff.mpr hrow) hassigned))
    · refine .inr (hcover hsame.task_repo (hwatch.mono (fun hreg => ?_) (hbus _ (by decide))))
      exact (CoordinatorService.mem_handleWorkerFailure hw).mpr ⟨hvw, hreg⟩

/-- The rows of the worker go back to the queue. -/
theorem notStranded_handle_worker_failed (hP : s.NotStranded)
    (honline : s.coord.task_repo.store.online = true) {w : Str} {es : List Event}
    (hw : w ≠ []) (h : s.bus .handle_worker_failed = .workerFailed w :: es) :
    { s with
      bus := s.bus.rest .handle_worker_failed
      coord := s.coord.handleWorkerFailed w }.NotStranded := by
  have hjobs := CoordinatorService.jobs_handleWorkerFailed (c := s.coord) hw
  intro t ht
  rcases hP t ht with htr | ⟨row, hrow, v, hv, hassigned, hwatch⟩
  · refine .inl (htr.mono (fun _ h => h) ?_ (fun job hjob => ?_) fun sub hsub hwait => .inl ?_)
    · simp only [CoordinatorService.dlq_handleWorkerFailed]
      exact fun _ h => h
    · exact hjobs.mem_iff.mpr (List.mem_append_right _ hjob)
    · refine mem_waiting_of_subset (fun e he => Bus.mem_rest_of_ne ?_ he) hwait
      rintro rfl
      simp at hsub
  · by_cases hvw : v = w
    · subst hvw
      refine .inl (.inr (.inr (.inl ?_)))
      have hmem := (TaskRepository.mem_ids_getAssignedTasksForWorker honline v t).mpr
        ⟨row, hrow, hassigned⟩
      obtain ⟨job, hjob, rfl⟩ := List.mem_map.mp hmem
      exact List.mem_map_of_mem (hjobs.mem_iff.mpr (List.mem_append_left _ hjob))
    · refine .inr ⟨row, ?_, v, hv, hassigned, ?_⟩
      · show _ = some row
        have hnot : ¬ row.AssignedTo w := fun ha => hvw (Option.some.inj (hassigned.1.symm.trans ha.1))
        rw [CoordinatorService.row?_handleWorkerFailed hw honline, Option.mem_def.mp hrow,
          Option.map_some, if_neg hnot]
      · rcases hwatch with hreg | hfail
        · refine .inl ?_
          show v ∈ (s.coord.handleWorkerFailed w).registry
          rwa [CoordinatorService.registry_handleWorkerFailed]
        · obtain ⟨e, he, hid⟩ := List.mem_filterMap.mp hfail
          rcases Bus.eq_head_or_mem_rest h he with ⟨-, rfl⟩ | he
          · exact absurd (Option.some.inj hid).symm hvw
          · exact .inr (List.mem_filterMap.mpr ⟨e, he, hid⟩)

/-- **An ordered step loses no job.** -/
theorem notStranded_step (hv : s.Valid) (honline : s.coord.task_repo.store.online = true)
    (hP : s.NotStranded) {l : Label} (hG : s.Ordered l) (h : Step repr s l s') :
    s'.NotStranded := by
  have hkeep : ∀ t ∈ s.completed, t ∈ s.completed := fun _ h => h
  have hsame : ∀ sub ∈ [Subscription.handle_job_submitted, .handle_task_failed,
    .persist_task_assigned, .handle_worker_failed], ∀ e ∈ s.bus sub, e ∈ s.bus sub :=
    fun _ _ _ h => h
  have hhead : ∀ {sub : Subscription} {e : Event} {es : List Event} {now : ℚ},
      s.bus sub = e :: es → s.Ordered (.deliver sub now) → s.Keeps sub e :=
    fun hb hG => hG _ (by rw [hb]; rfl)
  cases h with
  | submit job =>
    have hP' : { s with submitted := job.id :: s.submitted }.NotStranded :=
      hP.mono rfl hkeep rfl rfl (fun _ => rfl) (fun _ h => h) hsame
    exact hP'.publish _
  | register w capacity =>
    have hP' : { s with connected := w :: s.connected }.NotStranded :=
      hP.mono rfl hkeep rfl rfl (fun _ => rfl) (fun _ h => h) hsame
    exact hP'.publish _
  | heartbeat w => exact hP.publish _
  | idle now m => exact hP.mono rfl hkeep rfl rfl (fun _ => rfl) (fun _ h => h) hsame
  | assign now m e q w hpq hcounter hw => exact notStranded_assign hP hpq
  | complete i result w job h =>
    have hP' : { s with
        running := s.running.eraseIdx i
        completed := job.id :: s.completed }.NotStranded :=
      hP.mono rfl (fun t ht => List.mem_cons_of_mem _ ht) rfl rfl (fun _ => rfl) (fun _ h => h) hsame
    exact hP'.publish _
  | fail i error w job h =>
    have hP' : { s with running := s.running.eraseIdx i }.NotStranded :=
      hP.mono rfl hkeep rfl rfl (fun _ => rfl) (fun _ h => h) hsame
    exact hP'.publish _
  | crash w => exact hP.mono rfl hkeep rfl rfl (fun _ => rfl) (fun _ h => h) hsame
  | monitor w now hw => exact hP.publish _
  | handle_register now w capacity es h =>
    have hjobs := CoordinatorService.sameJobs_handleRegister s.coord w capacity now
    exact hP.deliver (by decide) hjobs.dlq hjobs.job_queue (fun t => by rw [hjobs.task_repo])
      fun _ h => CoordinatorService.mem_handleRegister.mpr (.inl h)
  | handle_job_submitted now job es h => exact notStranded_handle_job_submitted hP h
  | handle_heartbeat now w es h =>
    have hjobs := CoordinatorService.sameJobs_handleHeartbeat s.coord w now
    exact hP.deliver (by decide) hjobs.dlq hjobs.job_queue (fun t => by rw [hjobs.task_repo])
      fun _ h => CoordinatorService.mem_handleHeartbeat.mpr h
  | handle_worker_failure now w es h =>
    exact notStranded_handle_worker_failure hP (hv.removing w (h ▸ List.mem_cons_self)) h (hhead h hG)
  | handle_worker_failed now w es h =>
    exact notStranded_handle_worker_failed hP honline (hv.failing w (h ▸ List.mem_cons_self)) h
  | handle_job_completed now w job result es h =>
    have hjobs := CoordinatorService.sameJobs_handleJobCompleted s.coord w
    exact hP.deliver (by decide) hjobs.dlq hjobs.job_queue (fun t => by rw [hjobs.task_repo])
      fun _ h => CoordinatorService.mem_handleJobCompleted.mpr h
  | handle_task_failed now w job error es h =>
    exact notStranded_handle_task_failed hP honline h
  | persist_worker now w capacity es h =>
    exact hP.deliver (by decide) rfl rfl (TaskRepository.row?_saveWorker _ _ _ _ _) fun _ h => h
  | persist_task now job es h => exact notStranded_persist_task hP honline h (hhead h hG)
  | persist_task_assigned now w job es h =>
    exact notStranded_persist_task_assigned hP honline
      (hv.assigned w job (h ▸ List.mem_cons_self)) h (hhead h hG)
  | persist_task_completed now w job result es h =>
    exact notStranded_persist_task_completed hP hv honline h
  | send_to_worker now w job es sent h hsent =>
    exact hP.deliver (by decide) rfl rfl (fun _ => rfl) fun _ h => h

end Steps

/-! ## The runs -/

/-- The job is completed, in the dead letter queue, in the scheduler's queue, or its row is assigned
to a registered worker. -/
def Accounted (s : System) (t : Str) : Prop :=
  t ∈ s.completed ∨ t ∈ s.coord.dlq.map Job.id ∨ t ∈ s.coord.job_queue.jobs.map Job.id ∨
    ∃ row ∈ s.coord.task_repo.row? t, ∃ w ∈ row.worker_id, row.AssignedTo w ∧ w ∈ s.coord.registry

instance (s : System) : DecidablePred s.Accounted := fun _ => inferInstanceAs (Decidable (_ ∨ _))

theorem NotStranded.accounted {s : System} (hP : s.NotStranded) (hquiet : s.Quiet) :
    ∀ t ∈ s.queued, s.Accounted t := by
  have hnil : ∀ sub, s.bus sub = [] := fun sub => List.isEmpty_iff.mp (hquiet sub)
  intro t ht
  rcases hP t ht with (h | h | h | h | h | h) | ⟨row, hrow, w, hw, hassigned, hreg | hfail⟩
  · exact .inl h
  · exact .inr (.inl h)
  · exact .inr (.inr (.inl h))
  · rw [waiting, hnil] at h
    exact (List.not_mem_nil h).elim
  · rw [waiting, hnil] at h
    exact (List.not_mem_nil h).elim
  · rw [waiting, hnil] at h
    exact (List.not_mem_nil h).elim
  · exact .inr (.inr (.inr ⟨row, hrow, w, hw, hassigned, hreg⟩))
  · rw [hnil] at hfail
    exact (List.not_mem_nil hfail).elim

section Runs

variable (repr : Json → Str) (failure_threshold : ℤ) (recovery_timeout heartbeat_timeout : ℚ)
  (max_retries : ℤ) (store : PostgresStore)

/-- **No job is stranded.** -/
theorem not_stranded (honline : store.online = true) {ls : List Label} {s : System}
    (hr : run (step repr) ls
      (start failure_threshold recovery_timeout heartbeat_timeout max_retries store) = some s)
    (hG : Guarded (step repr) Ordered ls
      (start failure_threshold recovery_timeout heartbeat_timeout max_retries store))
    (hquiet : s.Quiet) : ∀ t ∈ s.queued, s.Accounted t := by
  have hinv : s.Valid ∧ s.coord.task_repo.store.online = true ∧ s.NotStranded := by
    refine run_invariant
      (I := fun s => s.Valid ∧ s.coord.task_repo.store.online = true ∧ s.NotStranded)
      ?_ ⟨?_, honline, ?_⟩ hG hr
    · rintro l s s' ⟨hv, hon, hP⟩ hG h
      have hstep := step_cases hv.heard h
      exact ⟨valid_step hv hstep, (online_step hstep).trans hon, notStranded_step hv hon hP hG hstep⟩
    · exact valid_init (WorkerRegistry.notMem_empty _)
    · exact fun t ht => (List.not_mem_nil ht).elim
  exact hinv.2.2.accounted hquiet

end Runs

/-- The worker crashes after its job has been recorded; its failure is then handled. -/
def crashRecorded : List Label :=
  oneAssigned ++ [.deliver .persist_task_assigned 0, .crash ['a'], .monitor ['a'] 11,
    .deliver .handle_worker_failure 11, .deliver .handle_worker_failed 11]

/-- The worker's failure is handled before its job has been recorded. -/
def crashUnrecorded : List Label :=
  oneAssigned ++ [.crash ['a'], .monitor ['a'] 11, .deliver .handle_worker_failed 11,
    .deliver .persist_task_assigned 11, .deliver .handle_worker_failure 11]

theorem not_stranded_crashRecorded :
    ∃ s, run (step fun _ => []) crashRecorded emptyStart = some s ∧ ['1'] ∈ s.queued ∧
      s.Accounted ['1'] := by
  have h : (run (step fun _ => []) crashRecorded emptyStart).map (fun s =>
      decide (s.Quiet ∧ ['1'] ∈ s.queued)) = some true := by decide +kernel
  obtain ⟨s, hr, hs⟩ := Option.map_eq_some_iff.mp h
  obtain ⟨hquiet, hq⟩ := of_decide_eq_true hs
  have hG : Guarded (step fun _ => []) Ordered crashRecorded emptyStart := by decide +kernel
  exact ⟨s, hr, hq, not_stranded (fun _ => []) 3 5 10 3 ⟨true, true, ∅, ∅⟩ rfl hr hG hquiet _ hq⟩

theorem stranded_crashUnrecorded :
    ∃ s, run (step fun _ => []) crashUnrecorded emptyStart = some s ∧ s.Quiet ∧
      ¬ ∀ t ∈ s.queued, s.Accounted t := by
  have h : (run (step fun _ => []) crashUnrecorded emptyStart).map (fun s =>
      decide (s.Quiet ∧ ¬ ∀ t ∈ s.queued, s.Accounted t)) = some true := by decide +kernel
  obtain ⟨s, hr, hs⟩ := Option.map_eq_some_iff.mp h
  exact ⟨s, hr, of_decide_eq_true hs⟩

end System

end JobSystem
