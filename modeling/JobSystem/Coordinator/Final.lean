import JobSystem.Coordinator.System

/-!
# Terminal statuses are final

When every id is submitted once, a job has at most one live copy: it waits for the scheduler or for a
worker, is queued, runs, or has an outcome that waits to be stored. A task is closed when its status
is stored as `COMPLETED` or `DLQ`; from then on it must have no live copy and no `TASK_ASSIGNED` that
waits at `persist_task_assigned`.

* `live`, `TaskInv`;
* `InOrder`: the deliveries that close or requeue a task in time;
* **`taskInv_step`**, **`status?_step`**, **`terminal_final`**.
-/

namespace JobSystem

open PyText Trans
open PyJson (Json)

namespace System

/-- The copies of a job in the channels. -/
def inFlight (s : System) (t : Str) : ℕ :=
  s.pending .handle_job_submitted t + s.pending .send_to_worker t +
    s.pending .persist_task_completed t + s.pending .handle_task_failed t

/-- The copies in the queue. -/
def inQueue (s : System) (t : Str) : ℕ := (s.coord.job_queue.jobs.map Job.id).count t

/-- The copies that run. -/
def atWork (s : System) (t : Str) : ℕ := (s.running.map fun p => p.2.id).count t

/-- The live copies of a job. -/
def live (s : System) (t : Str) : ℕ := s.inFlight t + s.inQueue t + s.atWork t

/-- The stored status of a task. -/
def status? (s : System) (p : TaskRepository.Place) (t : Str) : Option TaskStatus :=
  s.coord.task_repo.status? p t

/-! ## Counting -/

section Count

variable {s s' : System} {t : Str}

/-- A job that is published goes to one of the channels that count. -/
theorem inFlight_publish (s : System) (e : Event) (t : Str) :
    (s.publish e).inFlight t = s.inFlight t + if e.jobId? = some t then 1 else 0 := by
  unfold inFlight
  simp only [pending_publish]
  cases e <;> simp only [Subscription.listens, Subscription.topic, Event.topic, Event.jobId?,
    reduceCtorEq, decide_false, decide_true, Bool.false_eq_true, false_and, true_and, and_false,
    if_false, Nat.add_zero, Option.some.injEq] <;> split_ifs <;> omega

theorem inFlight_rest {sub : Subscription} {e : Event} {es : List Event} (h : s.bus sub = e :: es)
    (hbus : s'.bus = s.bus.rest sub) (t : Str) :
    s.inFlight t = s'.inFlight t + if sub ∈ [Subscription.handle_job_submitted, .send_to_worker,
      .persist_task_completed, .handle_task_failed] ∧ e.jobId? = some t then 1 else 0 := by
  unfold inFlight
  rw [pending_rest h hbus .handle_job_submitted, pending_rest h hbus .send_to_worker,
    pending_rest h hbus .persist_task_completed, pending_rest h hbus .handle_task_failed]
  cases sub <;> by_cases hid : e.jobId? = some t <;> simp [hid] <;> omega

theorem count_addJob (q : JobPriorityQueue) (job : Job) (t : Str) :
    ((q.addJob job).jobs.map Job.id).count t =
      (q.jobs.map Job.id).count t + if job.id = t then 1 else 0 := by
  rw [((JobPriorityQueue.perm_jobs_addJob q job).map Job.id).count_eq, List.map_cons,
    List.count_cons]
  by_cases h : job.id = t <;> simp [h]

theorem count_eraseIdx {l : List (Str × Job)} {i : ℕ} {w : Str} {job : Job}
    (h : l[i]? = some (w, job)) (t : Str) :
    (l.map fun p => p.2.id).count t =
      ((l.eraseIdx i).map fun p => p.2.id).count t + if job.id = t then 1 else 0 := by
  obtain ⟨hi, hget⟩ := List.getElem?_eq_some_iff.mp h
  have hperm := List.getElem_cons_eraseIdx_perm hi
  rw [hget] at hperm
  rw [← (hperm.map fun p => p.2.id).count_eq, List.map_cons, List.count_cons]
  by_cases h : job.id = t <;> simp [h]

end Count

/-! ## The invariant of one task -/

/-- What holds of a task in every state, with the database online or not. -/
structure TaskInv (online : Bool) (s : System) (t : Str) : Prop where
  live_le : s.live t ≤ 1
  fresh : t ∉ s.submitted → s.live t = 0 ∧ s.pending .persist_task t = 0 ∧
    s.pending .persist_task_assigned t = 0 ∧ ∀ p, s.status? p t = none
  unsaved : s.pending .persist_task t ≠ 0 →
    s.pending .persist_task t = 1 ∧ ∀ p, s.status? p t = none
  cached : online = true → s.status? .database t = none → s.status? .cache t = none
  final : ∀ p status, s.status? p t = some status → status.Terminal →
    s.live t = 0 ∧ s.pending .persist_task_assigned t = 0
  agree : online = true → ∀ status, s.status? .cache t = some status → status.Terminal →
    ∃ status', s.status? .database t = some status' ∧ status'.Terminal

section TaskInv

variable {online : Bool} {s s' : System} {t : Str}

theorem TaskInv.submitted (h : s.TaskInv online t) (ht : s.live t ≠ 0 ∨ s.pending .persist_task t ≠ 0 ∨
    s.pending .persist_task_assigned t ≠ 0 ∨ ∃ p, s.status? p t ≠ none) : t ∈ s.submitted := by
  by_contra hn
  obtain ⟨hlive, hpt, hpta, hstatus⟩ := h.fresh hn
  rcases ht with ht | ht | ht | ⟨p, hp⟩
  · exact ht hlive
  · exact ht hpt
  · exact ht hpta
  · exact hp (hstatus p)

/-- A step that stores nothing for the task and adds no copy of it. -/
theorem TaskInv.mono (h : s.TaskInv online t) (hlive : s'.live t ≤ s.live t)
    (hpt : s'.pending .persist_task t ≤ s.pending .persist_task t)
    (hpta : s'.pending .persist_task_assigned t ≤ s.pending .persist_task_assigned t)
    (hstatus : ∀ p, s'.status? p t = s.status? p t)
    (hsub : t ∈ s.submitted → t ∈ s'.submitted) : s'.TaskInv online t where
  live_le := hlive.trans h.live_le
  fresh hn := by
    obtain ⟨h₁, h₂, h₃, h₄⟩ := h.fresh fun ht => hn (hsub ht)
    exact ⟨by omega, by omega, by omega, fun p => (hstatus p).trans (h₄ p)⟩
  unsaved hne := by
    obtain ⟨h₁, h₂⟩ := h.unsaved (by omega)
    exact ⟨by omega, fun p => (hstatus p).trans (h₂ p)⟩
  cached hon hd := (hstatus _).trans (h.cached hon ((hstatus _).symm.trans hd))
  final p status hp hterm := by
    obtain ⟨h₁, h₂⟩ := h.final p status ((hstatus p).symm.trans hp) hterm
    exact ⟨by omega, by omega⟩
  agree hon status hc hterm := by
    obtain ⟨status', hd, hterm'⟩ := h.agree hon status ((hstatus _).symm.trans hc) hterm
    exact ⟨status', (hstatus _).trans hd, hterm'⟩

/-- A step that writes a status to the stored records of the task. -/
theorem TaskInv.write (h : s.TaskInv online t) {status : TaskStatus}
    (hstatus : ∀ p, s'.status? p t = (s.status? p t).map fun _ => status)
    (hlive : s'.live t ≤ 1) (hpt : s'.pending .persist_task t ≤ s.pending .persist_task t)
    (hfinal : status.Terminal → s'.live t = 0 ∧ s'.pending .persist_task_assigned t = 0)
    (hsub : t ∈ s'.submitted) : s'.TaskInv online t where
  live_le := hlive
  fresh hn := absurd hsub hn
  unsaved hne := by
    obtain ⟨h₁, h₂⟩ := h.unsaved (by omega)
    exact ⟨by omega, fun p => by rw [hstatus, h₂]; rfl⟩
  cached hon hd := by
    rw [hstatus, Option.map_eq_none_iff] at hd
    rw [hstatus, h.cached hon hd]
    rfl
  final p status' hp hterm := by
    rw [hstatus] at hp
    obtain ⟨_, -, rfl⟩ := Option.map_eq_some_iff.mp hp
    exact hfinal hterm
  agree hon status' hc hterm := by
    rw [hstatus] at hc
    obtain ⟨old, hold, rfl⟩ := Option.map_eq_some_iff.mp hc
    cases hd : s.status? .database t with
    | none =>
      rw [h.cached hon hd] at hold
      cases hold
    | some old' => exact ⟨status, by rw [hstatus, hd]; rfl, hterm⟩

end TaskInv

/-- What the delivery of an event asks of the state:
* `persist_task_completed` comes after the job's `TASK_ASSIGNED` have been recorded;
* so does a `handle_task_failed` that gives the job up;
* `handle_worker_failed` finds no live copy of the jobs that it puts back. -/
def Closes (s : System) : Subscription → Event → Prop
  | .persist_task_completed, .jobCompleted _ job _ => s.pending .persist_task_assigned job.id = 0
  | .handle_task_failed, .taskFailed _ job _ =>
    s.coord.retryCount job.id ≤ s.coord.max_retries ∨ s.pending .persist_task_assigned job.id = 0
  | .handle_worker_failed, .workerFailed w =>
    ∀ task ∈ s.coord.task_repo.store.tasks.entries, task.2.AssignedTo w → s.live task.1 = 0
  | _, _ => True

instance (s : System) : (sub : Subscription) → (e : Event) → Decidable (s.Closes sub e)
  | .persist_task_completed, e =>
    match e with
    | .jobCompleted _ _ _ => inferInstanceAs (Decidable (_ = _))
    | .register _ _ | .heartbeat _ | .jobSubmitted _ | .workerFailed _ | .taskAssigned _ _
    | .taskFailed _ _ _ | .moveToDlq _ _ | .alert _ _ => isTrue trivial
  | .handle_task_failed, e =>
    match e with
    | .taskFailed _ _ _ => inferInstanceAs (Decidable (_ ∨ _))
    | .register _ _ | .heartbeat _ | .jobSubmitted _ | .workerFailed _ | .taskAssigned _ _
    | .jobCompleted _ _ _ | .moveToDlq _ _ | .alert _ _ => isTrue trivial
  | .handle_worker_failed, e =>
    match e with
    | .workerFailed _ =>
      inferInstanceAs (Decidable (∀ task ∈ s.coord.task_repo.store.tasks.entries, _))
    | .register _ _ | .heartbeat _ | .jobSubmitted _ | .taskAssigned _ _ | .jobCompleted _ _ _
    | .taskFailed _ _ _ | .moveToDlq _ _ | .alert _ _ => isTrue trivial
  | .handle_register, _ | .handle_job_submitted, _ | .handle_heartbeat, _
  | .handle_worker_failure, _ | .handle_job_completed, _ | .persist_worker, _ | .persist_task, _
  | .persist_task_assigned, _ | .send_to_worker, _ => isTrue trivial

/-- The step handles the events of a task in order. -/
def InOrder (s : System) : Label → Prop
  | .deliver sub _ => ∀ e ∈ (s.bus sub).head?, s.Closes sub e
  | _ => True

instance (s : System) : DecidablePred s.InOrder
  | .deliver sub _ => inferInstanceAs (Decidable (∀ e ∈ (s.bus sub).head?, s.Closes sub e))
  | .submit _ | .register _ _ | .heartbeat _ | .assign _ | .complete _ _ | .fail _ _ | .crash _
  | .monitor _ _ => isTrue trivial

/-- A submitted id is new. -/
def Fresh (s : System) (l : Label) : Prop := ∀ t ∈ l.submitted?, t ∉ s.submitted

/-! ## The steps -/

section Steps

variable {repr : Json → Str} {online : Bool} {s s' : System} {t : Str}

/-- A live copy belongs to a task that was submitted and is not closed. -/
theorem TaskInv.of_live (h : s.TaskInv online t) (hlive : s.live t ≠ 0) :
    t ∈ s.submitted ∧ ∀ p status, s.status? p t = some status → ¬ status.Terminal :=
  ⟨h.submitted (.inl hlive), fun p status hp hterm => hlive (h.final p status hp hterm).1⟩

/-- An event of a task that has no live copy makes one. -/
theorem TaskInv.publish (h : s.TaskInv online t) (e : Event) (hid : e.jobId? = some t →
      s.live t = 0 ∧ t ∈ s.submitted ∧
        (∀ p status, s.status? p t = some status → ¬ status.Terminal) ∧
        (Subscription.persist_task.listens e = true →
          s.pending .persist_task t = 0 ∧ ∀ p, s.status? p t = none)) :
    (s.publish e).TaskInv online t := by
  have hflight := inFlight_publish s e t
  have hpt := pending_publish s e .persist_task t
  have hpta := pending_publish s e .persist_task_assigned t
  have hlive : (s.publish e).live t = (s.publish e).inFlight t + s.inQueue t + s.atWork t := rfl
  have hlive₀ : s.live t = s.inFlight t + s.inQueue t + s.atWork t := rfl
  by_cases he : e.jobId? = some t
  · obtain ⟨hzero, hsub, hopen, hnew⟩ := hid he
    rw [if_pos he] at hflight
    refine ⟨by omega, fun hn => absurd hsub hn, fun hne => ?_, h.cached,
      fun p status hp hterm => absurd hterm (hopen p status hp),
      fun _ status hc hterm => absurd hterm (hopen _ status hc)⟩
    by_cases hl : Subscription.persist_task.listens e = true
    · obtain ⟨h₁, h₂⟩ := hnew hl
      rw [if_pos ⟨hl, he⟩] at hpt
      exact ⟨by omega, h₂⟩
    · rw [if_neg fun h => hl h.1] at hpt
      obtain ⟨h₁, h₂⟩ := h.unsaved (by omega)
      exact ⟨by omega, h₂⟩
  · rw [if_neg he] at hflight
    rw [if_neg fun h => he h.2] at hpt hpta
    exact h.mono (by omega) (by omega) (by omega) (fun _ => rfl) id

theorem taskInv_submit (h : s.TaskInv online t) {job : Job} (hfresh : s.Fresh (.submit job)) :
    ({ s with submitted := job.id :: s.submitted }.publish (.jobSubmitted job)).TaskInv online t := by
  have h' : { s with submitted := job.id :: s.submitted }.TaskInv online t :=
    h.mono le_rfl le_rfl le_rfl (fun _ => rfl) (List.mem_cons_of_mem _)
  refine h'.publish (.jobSubmitted job) fun hid => ?_
  obtain rfl := Option.some.inj hid
  obtain ⟨h₁, h₂, -, h₄⟩ := h.fresh (hfresh job.id rfl)
  refine ⟨h₁, List.mem_cons_self, fun p status hp => ?_, fun _ => ⟨h₂, h₄⟩⟩
  have := (h₄ p).symm.trans hp
  cases this

/-- The head of the queue goes to a worker. -/
theorem taskInv_assign (h : s.TaskInv online t) {m : CircuitBreakerManager} {e : QueueEntry}
    {q : JobPriorityQueue} {w : Str} (hpq : s.coord.job_queue.pq = e :: q.pq) :
    ({ s with
        coord := { s.coord with
          job_queue := q
          circuit_breaker_manager := m
          registry := s.coord.registry.incrementLoad w } }.publish
      (.taskAssigned w e.job)).TaskInv online t := by
  have hqueue : s.inQueue t = (q.jobs.map Job.id).count t + if e.job.id = t then 1 else 0 := by
    unfold inQueue JobPriorityQueue.jobs
    rw [hpq, List.map_cons, List.map_cons, List.count_cons]
    by_cases ht : e.job.id = t <;> simp [ht]
  have hlive : s.live t = s.inFlight t + s.inQueue t + s.atWork t := rfl
  have h' : { s with
      coord := { s.coord with
        job_queue := q
        circuit_breaker_manager := m
        registry := s.coord.registry.incrementLoad w } }.TaskInv online t := by
    refine h.mono ?_ le_rfl le_rfl (fun _ => rfl) id
    show s.inFlight t + (q.jobs.map Job.id).count t + s.atWork t ≤ _
    omega
  refine h'.publish (.taskAssigned w e.job) fun hid => ?_
  rw [if_pos (Option.some.inj hid)] at hqueue
  obtain ⟨hsub, hopen⟩ := h.of_live (by omega)
  refine ⟨?_, hsub, hopen, fun hl => nomatch of_decide_eq_true hl⟩
  show s.inFlight t + (q.jobs.map Job.id).count t + s.atWork t = 0
  have := h.live_le
  omega

/-- A job that runs has its outcome published. -/
theorem taskInv_outcome (h : s.TaskInv online t) {i : ℕ} {w : Str} {job : Job}
    (hi : s.running[i]? = some (w, job)) {completed : List Str} {e : Event}
    (hid : e.jobId? = some job.id) (hl : Subscription.persist_task.listens e = false) :
    ({ s with running := s.running.eraseIdx i, completed := completed }.publish e).TaskInv online t := by
  have hwork : s.atWork t = _ := count_eraseIdx hi t
  have hlive : s.live t = s.inFlight t + s.inQueue t + s.atWork t := rfl
  have h' : { s with running := s.running.eraseIdx i, completed := completed }.TaskInv online t := by
    refine h.mono ?_ le_rfl le_rfl (fun _ => rfl) id
    show s.inFlight t + s.inQueue t + ((s.running.eraseIdx i).map fun p => p.2.id).count t ≤ _
    omega
  refine h'.publish e fun ht => ?_
  rw [if_pos (Option.some.inj (hid.symm.trans ht))] at hwork
  obtain ⟨hsub, hopen⟩ := h.of_live (by omega)
  refine ⟨?_, hsub, hopen, fun hl' => by rw [hl] at hl'; cases hl'⟩
  show s.inFlight t + s.inQueue t + ((s.running.eraseIdx i).map fun p => p.2.id).count t = 0
  have := h.live_le
  omega

/-- A delivery that stores nothing for the task; a copy that is taken from a channel may go to the
queue or to a worker. -/
theorem TaskInv.deliver (h : s.TaskInv online t) {sub : Subscription} {e : Event} {es : List Event}
    (hb : s.bus sub = e :: es) {coord : CoordinatorService} {running : List (Str × Job)}
    {queued : List Str}
    (hcopies : (coord.job_queue.jobs.map Job.id).count t + (running.map fun p => p.2.id).count t ≤
      s.inQueue t + s.atWork t + if sub ∈ [Subscription.handle_job_submitted, .send_to_worker,
        .persist_task_completed, .handle_task_failed] ∧ e.jobId? = some t then 1 else 0)
    (hstatus : ∀ p, coord.task_repo.status? p t = s.status? p t) :
    { s with bus := s.bus.rest sub, coord := coord, running := running, queued := queued }.TaskInv
      online t := by
  let s₁ : System :=
    { s with bus := s.bus.rest sub, coord := coord, running := running, queued := queued }
  have hbus : s₁.bus = s.bus.rest _ := rfl
  have hflight := inFlight_rest hb hbus t
  have hpt := pending_rest hb hbus .persist_task t
  have hpta := pending_rest hb hbus .persist_task_assigned t
  have hlive : s₁.live t = s₁.inFlight t + (coord.job_queue.jobs.map Job.id).count t +
    (running.map fun p => p.2.id).count t := rfl
  have hlive₀ : s.live t = s.inFlight t + s.inQueue t + s.atWork t := rfl
  have h₁ : s₁.TaskInv online t := h.mono (by omega) (by omega) (by omega) hstatus id
  exact h₁

theorem taskInv_handle_job_submitted (h : s.TaskInv online t) {job : Job} {es : List Event}
    (hb : s.bus .handle_job_submitted = .jobSubmitted job :: es) :
    { s with
      bus := s.bus.rest .handle_job_submitted
      coord := s.coord.handleJobSubmitted job
      queued := job.id :: s.queued }.TaskInv online t := by
  refine h.deliver hb ?_ fun _ => rfl
  have hcount : ((s.coord.handleJobSubmitted job).job_queue.jobs.map Job.id).count t =
      s.inQueue t + _ := count_addJob s.coord.job_queue job t
  rw [hcount]
  simp only [List.mem_cons, true_or, true_and, Event.jobId?, Option.some.injEq]
  show _ + s.atWork t ≤ _
  omega

theorem taskInv_send_to_worker (h : s.TaskInv online t) {w : Str} {job : Job} {es : List Event}
    {sent : List (Str × Job)} (hb : s.bus .send_to_worker = .taskAssigned w job :: es)
    (hsent : sent = [] ∨ sent = [(w, job)]) :
    { s with bus := s.bus.rest .send_to_worker, running := s.running ++ sent }.TaskInv online t := by
  refine h.deliver hb ?_ fun _ => rfl
  rw [List.map_append, List.count_append]
  show s.inQueue t + (s.atWork t + _) ≤ _
  rcases hsent with rfl | rfl
  · simp
  · by_cases ht : job.id = t <;> simp [ht, Event.jobId?, Nat.add_assoc]

theorem taskInv_persist_task (h : s.TaskInv online t)
    (honline : s.coord.task_repo.store.online = online) {job : Job} {es : List Event}
    (hb : s.bus .persist_task = .jobSubmitted job :: es) :
    { s with
      bus := s.bus.rest .persist_task
      coord := s.coord.persistTask repr job }.TaskInv online t := by
  have hstatus : ∀ p, (s.coord.persistTask repr job).task_repo.status? p t =
      if t = job.id ∧ (p = .database → s.coord.task_repo.store.online = true) then some .PENDING
      else s.status? p t := fun p => TaskRepository.status?_saveTask _ _ _ _ _ _ _ _
  by_cases ht : t = job.id
  · let s₁ : System :=
      { s with bus := s.bus.rest .persist_task, coord := s.coord.persistTask repr job }
    have hbus : s₁.bus = s.bus.rest _ := rfl
    have hflight := inFlight_rest hb hbus t
    have hpt := pending_rest hb hbus .persist_task t
    have hpta := pending_rest hb hbus .persist_task_assigned t
    have hlive : s₁.live t = s₁.inFlight t + s.inQueue t + s.atWork t := rfl
    have hlive₀ : s.live t = s.inFlight t + s.inQueue t + s.atWork t := rfl
    rw [if_pos ⟨rfl, congrArg some ht.symm⟩] at hpt
    obtain ⟨hone, hnone⟩ := h.unsaved (by omega)
    have hopen : ∀ p status, s₁.status? p t = some status → ¬ status.Terminal := by
      intro p status hp hterm
      have hp' := (hstatus p).symm.trans hp
      split_ifs at hp'
      · cases hp'
        rcases hterm with h | h <;> cases h
      · rw [hnone] at hp'
        cases hp'
    have hsub := h.submitted (.inr (.inl (by omega)))
    refine ⟨?_, fun hn => absurd hsub hn, fun hne => absurd hne ?_, fun hon hd => ?_,
      fun p status hp hterm => absurd hterm (hopen p status hp),
      fun _ status hc hterm => absurd hterm (hopen _ status hc)⟩
    · show s₁.live t ≤ 1
      have := h.live_le
      omega
    · show ¬ s₁.pending .persist_task t ≠ 0
      omega
    · have hwritten := hstatus .database
      rw [if_pos ⟨ht, fun _ => honline.trans hon⟩] at hwritten
      have := hwritten.symm.trans hd
      cases this
  · refine h.deliver hb (Nat.le_add_right _ _) fun p => ?_
    rw [hstatus, if_neg fun h => ht h.1]

theorem taskInv_persist_task_assigned (h : s.TaskInv online t)
    (hsteady : s.coord.task_repo.Steady) {w : Str} {job : Job} {es : List Event}
    (hb : s.bus .persist_task_assigned = .taskAssigned w job :: es) :
    { s with
      bus := s.bus.rest .persist_task_assigned
      coord := s.coord.persistTaskAssigned w job }.TaskInv online t := by
  have hstatus := fun p => TaskRepository.status?_updateStatus hsteady p job.id t .ASSIGNED (some w)
    .null .null
  by_cases ht : t = job.id
  · subst ht
    let s₁ : System := { s with
      bus := s.bus.rest .persist_task_assigned
      coord := s.coord.persistTaskAssigned w job }
    have hstatus₁ : ∀ p, s₁.status? p job.id = (s.status? p job.id).map (fun _ => .ASSIGNED) ∨
        s₁.status? p job.id = s.status? p job.id := fun p => by
      have := hstatus p
      rw [if_pos rfl] at this
      exact this
    have hbus : s₁.bus = s.bus.rest _ := rfl
    have hflight := inFlight_rest hb hbus job.id
    have hpt := pending_rest hb hbus .persist_task job.id
    have hpta := pending_rest hb hbus .persist_task_assigned job.id
    have hlive : s₁.live job.id = s₁.inFlight job.id + s.inQueue job.id + s.atWork job.id := rfl
    have hlive₀ : s.live job.id = s.inFlight job.id + s.inQueue job.id + s.atWork job.id := rfl
    rw [if_pos ⟨rfl, rfl⟩] at hpta
    have hsub := h.submitted (.inr (.inr (.inl (by omega))))
    -- a task with an event that waits here is not closed
    have hopen : ∀ p status, s₁.status? p job.id = some status → ¬ status.Terminal := by
      intro p status hp hterm
      rcases hstatus₁ p with hs | hs
      · obtain ⟨_, -, rfl⟩ := Option.map_eq_some_iff.mp (hs.symm.trans hp)
        rcases hterm with h | h <;> cases h
      · have := (h.final p status (hs.symm.trans hp) hterm).2
        omega
    have hnone : ∀ p, s₁.status? p job.id = none ↔ s.status? p job.id = none := fun p => by
      rcases hstatus₁ p with hs | hs
      · rw [hs, Option.map_eq_none_iff]
      · rw [hs]
    refine ⟨?_, fun hn => absurd hsub hn, fun hne => ?_,
      fun hon hd => (hnone _).mpr (h.cached hon ((hnone _).mp hd)),
      fun p status hp hterm => absurd hterm (hopen p status hp),
      fun _ status hc hterm => absurd hterm (hopen _ status hc)⟩
    · show s₁.live job.id ≤ 1
      have := h.live_le
      omega
    · have hne₁ : s₁.pending .persist_task job.id ≠ 0 := hne
      obtain ⟨h₁, h₂⟩ := h.unsaved (by omega)
      refine ⟨?_, fun p => (hnone p).mpr (h₂ p)⟩
      show s₁.pending .persist_task job.id = 1
      omega
  · refine h.deliver hb (Nat.le_add_right _ _) fun p => ?_
    simp only [if_neg ht, or_self] at hstatus
    exact hstatus p

/-- An outcome is stored: the copy that it came from is gone, or goes back to the queue. -/
theorem TaskInv.store (h : s.TaskInv online t) {sub : Subscription} {e : Event} {es : List Event}
    (job : Job) (status : TaskStatus) (copies : ℕ) (hb : s.bus sub = e :: es)
    (hid : e.jobId? = some job.id)
    (hsub : sub ∈ [Subscription.handle_job_submitted, .send_to_worker, .persist_task_completed,
      .handle_task_failed]) {coord : CoordinatorService}
    (hcopies : (coord.job_queue.jobs.map Job.id).count t =
      s.inQueue t + if job.id = t then copies else 0)
    (hle : copies ≤ 1)
    (hstatus : ∀ p, coord.task_repo.status? p t =
      if t = job.id then (s.status? p job.id).map fun _ => status else s.status? p t)
    (hfinal : status.Terminal → copies = 0 ∧ s.pending .persist_task_assigned job.id = 0) :
    { s with bus := s.bus.rest sub, coord := coord }.TaskInv online t := by
  by_cases ht : t = job.id
  · subst ht
    let s₁ : System := { s with bus := s.bus.rest sub, coord := coord }
    have hbus : s₁.bus = s.bus.rest _ := rfl
    have hflight := inFlight_rest hb hbus job.id
    have hpt := pending_rest hb hbus .persist_task job.id
    have hpta := pending_rest hb hbus .persist_task_assigned job.id
    have hlive : s₁.live job.id = s₁.inFlight job.id + (coord.job_queue.jobs.map Job.id).count job.id +
      s.atWork job.id := rfl
    have hlive₀ : s.live job.id = s.inFlight job.id + s.inQueue job.id + s.atWork job.id := rfl
    have hle₁ := h.live_le
    rw [if_pos ⟨hsub, hid⟩] at hflight
    rw [if_pos rfl] at hcopies
    simp only [if_true] at hstatus
    have h₁ : s₁.TaskInv online job.id := by
      refine h.write hstatus (by omega) (by omega) (fun hterm => ?_) (h.submitted (.inl (by omega)))
      obtain ⟨hzero, hassigned⟩ := hfinal hterm
      exact ⟨by omega, by omega⟩
    exact h₁
  · refine h.deliver hb ?_ fun p => by rw [hstatus, if_neg ht]
    rw [hcopies, if_neg (Ne.symm ht)]
    exact Nat.le_add_right _ _

theorem taskInv_persist_task_completed (h : s.TaskInv online t)
    (hsteady : s.coord.task_repo.Steady) {w : Str} {job : Job} {result : Option Json}
    {es : List Event} (hb : s.bus .persist_task_completed = .jobCompleted w job result :: es)
    (hG : s.Closes .persist_task_completed (.jobCompleted w job result)) :
    { s with
      bus := s.bus.rest .persist_task_completed
      coord := s.coord.persistTaskCompleted job result }.TaskInv online t :=
  h.store job .COMPLETED 0 hb rfl (by simp)
    (by rw [ite_self]; rfl) (Nat.zero_le _)
    (fun p => TaskRepository.status?_updateStatus_none hsteady p _ _ _ _ _) fun _ => ⟨rfl, hG⟩

theorem taskInv_handle_task_failed (h : s.TaskInv online t)
    (hsteady : s.coord.task_repo.Steady) {now : ℚ} {w : Str} {job : Job}
    {error : Option Json} {es : List Event}
    (hb : s.bus .handle_task_failed = .taskFailed w job error :: es)
    (hG : s.Closes .handle_task_failed (.taskFailed w job error)) :
    { s with
      bus := s.bus.rest .handle_task_failed
      coord := (s.coord.handleTaskFailed w job error now).1 }.TaskInv online t := by
  have hstatus : ∀ status err p, ((s.coord.task_repo.incrementRetry job.id).updateStatus job.id status
      none .null err).status? p t =
        if t = job.id then (s.status? p job.id).map fun _ => status else s.status? p t :=
    fun status err p => by
      rw [TaskRepository.status?_updateStatus_none (TaskRepository.steady_incrementRetry hsteady _),
        TaskRepository.status?_incrementRetry hsteady, TaskRepository.status?_incrementRetry hsteady]
      rfl
  by_cases hle : s.coord.retryCount job.id ≤ s.coord.max_retries
  · obtain ⟨err, hrepo, hqueue, -⟩ :=
      CoordinatorService.handleTaskFailed_of_le w error now hle
    refine h.store job .RETRYING 1 hb rfl (by simp) ?_ le_rfl
      (fun p => by rw [hrepo, hstatus]) fun hterm => ?_
    · rw [hqueue]
      exact count_addJob _ _ _
    · rcases hterm with h | h <;> cases h
  · obtain ⟨err, hrepo, hqueue, -⟩ :=
      CoordinatorService.handleTaskFailed_of_lt w error now hle
    refine h.store job .DLQ 0 hb rfl (by simp) ?_ (Nat.zero_le _)
      (fun p => by rw [hrepo, hstatus]) fun _ => ⟨rfl, hG.resolve_left hle⟩
    rw [hqueue, ite_self]
    rfl

/-- A task that is put back has no other live copy. -/
theorem taskInv_handle_worker_failed (h : s.TaskInv online t)
    (hsteady : s.coord.task_repo.Steady) {w : Str} {es : List Event} (hw : w ≠ [])
    (hb : s.bus .handle_worker_failed = .workerFailed w :: es)
    (hG : s.Closes .handle_worker_failed (.workerFailed w)) :
    { s with
      bus := s.bus.rest .handle_worker_failed
      coord := s.coord.handleWorkerFailed w }.TaskInv online t := by
  let ids := (s.coord.task_repo.getAssignedTasksForWorker w).map Job.id
  have hstatus := fun p => CoordinatorService.status?_handleWorkerFailed (c := s.coord) hw hsteady p t
  have hjobs := (CoordinatorService.jobs_handleWorkerFailed (c := s.coord) hw).map Job.id
  have hqueue : ((s.coord.handleWorkerFailed w).job_queue.jobs.map Job.id).count t =
      ids.count t + s.inQueue t := by
    rw [hjobs.count_eq, List.map_append, List.count_append]
    rfl
  by_cases ht : t ∈ ids
  · let s₁ : System := { s with
      bus := s.bus.rest .handle_worker_failed
      coord := s.coord.handleWorkerFailed w }
    obtain ⟨task, htask, -⟩ := List.mem_map.mp ht
    have honline := TaskRepository.online_of_mem_getAssignedTasksForWorker htask
    obtain ⟨row, hrow, hassigned⟩ :=
      (TaskRepository.mem_ids_getAssignedTasksForWorker honline w t).mp ht
    have hzero : s.live t = 0 := hG (t, row) (PyDict.mem_entries_iff.mpr hrow) hassigned
    have hone := List.count_eq_one_of_mem
      (s.coord.task_repo.nodup_getAssignedTasksForWorker w) ht
    have hbus : s₁.bus = s.bus.rest _ := rfl
    have hflight := inFlight_rest hb hbus t
    have hpt := pending_rest hb hbus .persist_task t
    have hlive : s₁.live t =
      s₁.inFlight t + ((s.coord.handleWorkerFailed w).job_queue.jobs.map Job.id).count t +
        s.atWork t := rfl
    have hlive₀ : s.live t = s.inFlight t + s.inQueue t + s.atWork t := rfl
    have hstored : s.status? .database t ≠ none := by
      intro hn
      have := Option.map_eq_none_iff.mp hn
      rw [hrow] at this
      cases this
    have h₁ : s₁.TaskInv online t := by
      refine h.write (fun p => (hstatus p).trans (if_pos ht)) ?_ (by omega) (fun hterm => ?_)
        (h.submitted (.inr (.inr (.inr ⟨_, hstored⟩))))
      · rw [hlive, hqueue]
        have : ids.count t = 1 := hone
        omega
      · rcases hterm with h | h <;> cases h
    exact h₁
  · refine h.deliver hb ?_ fun p => (hstatus p).trans (if_neg ht)
    rw [hqueue, List.count_eq_zero_of_not_mem ht, Nat.zero_add]
    exact Nat.le_add_right _ _

/-- **A step in order keeps the invariant of every task.** -/
theorem taskInv_step (hv : s.Valid) (hsteady : s.coord.task_repo.Steady)
    (honline : s.coord.task_repo.store.online = online) (h : s.TaskInv online t) {l : Label}
    (hfresh : s.Fresh l) (hG : s.InOrder l) (hstep : Step repr s l s') : s'.TaskInv online t := by
  have hhead : ∀ {sub : Subscription} {e : Event} {es : List Event} {now : ℚ},
      s.bus sub = e :: es → s.InOrder (.deliver sub now) → s.Closes sub e :=
    fun hb hG => hG _ (by rw [hb]; rfl)
  cases hstep with
  | submit job => exact taskInv_submit h hfresh
  | register w capacity =>
    have h' : { s with connected := w :: s.connected }.TaskInv online t :=
      h.mono le_rfl le_rfl le_rfl (fun _ => rfl) id
    exact h'.publish (.register w capacity) fun hid => by cases hid
  | heartbeat w => exact h.publish (.heartbeat w) fun hid => by cases hid
  | idle now m => exact h.mono le_rfl le_rfl le_rfl (fun _ => rfl) id
  | assign now m e q w hpq hcounter hw => exact taskInv_assign h hpq
  | complete i result w job hi =>
    exact taskInv_outcome h hi (e := .jobCompleted w job result) rfl rfl
  | fail i error w job hi => exact taskInv_outcome h hi (e := .taskFailed w job error) rfl rfl
  | crash w =>
    refine h.mono ?_ le_rfl le_rfl (fun _ => rfl) id
    have hle : ((s.running.filter fun p => p.1 ≠ w).map fun p => p.2.id).count t ≤ s.atWork t :=
      (List.filter_sublist.map _).count_le t
    exact Nat.add_le_add_left hle _
  | monitor w now hw => exact h.publish (.workerFailed w) fun hid => by cases hid
  | handle_register now w capacity es hb =>
    have hjobs := CoordinatorService.sameJobs_handleRegister s.coord w capacity now
    refine h.deliver hb ?_ fun p => by rw [hjobs.task_repo]; rfl
    rw [hjobs.job_queue]
    exact Nat.le_add_right _ _
  | handle_job_submitted now job es hb => exact taskInv_handle_job_submitted h hb
  | handle_heartbeat now w es hb =>
    have hjobs := CoordinatorService.sameJobs_handleHeartbeat s.coord w now
    refine h.deliver hb ?_ fun p => by rw [hjobs.task_repo]; rfl
    rw [hjobs.job_queue]
    exact Nat.le_add_right _ _
  | handle_worker_failure now w es hb =>
    have hjobs := CoordinatorService.sameJobs_handleWorkerFailure s.coord w
    refine h.deliver hb ?_ fun p => by rw [hjobs.task_repo]; rfl
    rw [hjobs.job_queue]
    exact Nat.le_add_right _ _
  | handle_worker_failed now w es hb =>
    exact taskInv_handle_worker_failed h hsteady (hv.failing w (hb ▸ List.mem_cons_self)) hb
      (hhead hb hG)
  | handle_job_completed now w job result es hb =>
    have hjobs := CoordinatorService.sameJobs_handleJobCompleted s.coord w
    refine h.deliver hb ?_ fun p => by rw [hjobs.task_repo]; rfl
    rw [hjobs.job_queue]
    exact Nat.le_add_right _ _
  | handle_task_failed now w job error es hb =>
    exact taskInv_handle_task_failed h hsteady hb (hhead hb hG)
  | persist_worker now w capacity es hb =>
    exact h.deliver hb (Nat.le_add_right _ _) fun p => TaskRepository.status?_saveWorker _ _ _ _ _ _
  | persist_task now job es hb => exact taskInv_persist_task h honline hb
  | persist_task_assigned now w job es hb => exact taskInv_persist_task_assigned h hsteady hb
  | persist_task_completed now w job result es hb =>
    exact taskInv_persist_task_completed h hsteady hb (hhead hb hG)
  | send_to_worker now w job es sent hb hsent => exact taskInv_send_to_worker h hb hsent

/-- **No step changes the status of a closed task.** -/
theorem status?_step (hv : s.Valid) (hsteady : s.coord.task_repo.Steady)
    (honline : s.coord.task_repo.store.online = online) (h : s.TaskInv online t) {l : Label}
    (hstep : Step repr s l s') {p : TaskRepository.Place} {status : TaskStatus}
    (hp : s.status? p t = some status) (hterm : status.Terminal) : s'.status? p t = some status := by
  obtain ⟨hclosed, hassigned⟩ := h.final p status hp hterm
  have hlive : s.live t = s.inFlight t + s.inQueue t + s.atWork t := rfl
  have hflight : s.inFlight t = s.pending .handle_job_submitted t + s.pending .send_to_worker t +
    s.pending .persist_task_completed t + s.pending .handle_task_failed t := rfl
  cases hstep with
  | handle_register now w capacity es hb =>
    have hjobs := CoordinatorService.sameJobs_handleRegister s.coord w capacity now
    exact (congrArg (fun r => r.status? p t) hjobs.task_repo).trans hp
  | handle_heartbeat now w es hb =>
    have hjobs := CoordinatorService.sameJobs_handleHeartbeat s.coord w now
    exact (congrArg (fun r => r.status? p t) hjobs.task_repo).trans hp
  | handle_worker_failure now w es hb =>
    have hjobs := CoordinatorService.sameJobs_handleWorkerFailure s.coord w
    exact (congrArg (fun r => r.status? p t) hjobs.task_repo).trans hp
  | handle_job_completed now w job result es hb =>
    have hjobs := CoordinatorService.sameJobs_handleJobCompleted s.coord w
    exact (congrArg (fun r => r.status? p t) hjobs.task_repo).trans hp
  | handle_worker_failed now w es hb =>
    have hw := hv.failing w (hb ▸ List.mem_cons_self)
    refine (CoordinatorService.status?_handleWorkerFailed hw hsteady p t).trans ?_
    rw [if_neg fun hmem => ?_]
    · exact hp
    · -- its row is assigned, but a closed task is closed in the database too
      obtain ⟨task, htask, -⟩ := List.mem_map.mp hmem
      have hon := TaskRepository.online_of_mem_getAssignedTasksForWorker htask
      obtain ⟨row, hrow, has⟩ :=
        (TaskRepository.mem_ids_getAssignedTasksForWorker hon w t).mp hmem
      have hd : s.status? .database t = some .ASSIGNED := by
        show (s.coord.task_repo.row? t).map TaskRow.status = _
        rw [hrow, Option.map_some, has.2]
      have hopen : ¬ TaskStatus.ASSIGNED.Terminal := by rintro (h | h) <;> cases h
      cases p with
      | database =>
        rw [hd] at hp
        cases hp
        exact hopen hterm
      | cache =>
        obtain ⟨status', hd', hterm'⟩ := h.agree (honline.symm.trans hon) status hp hterm
        rw [hd] at hd'
        cases hd'
        exact hopen hterm'
  | handle_task_failed now w job error es hb =>
    have ht : t ≠ job.id := by
      rintro rfl
      exact pending_ne_zero hb rfl (by omega)
    obtain ⟨status', err, hrepo⟩ :=
      CoordinatorService.exists_repo_handleTaskFailed w error now s.coord job
    show (s.coord.handleTaskFailed w job error now).1.task_repo.status? p t = _
    rw [hrepo, TaskRepository.status?_updateStatus_none
      (TaskRepository.steady_incrementRetry hsteady _), if_neg ht,
      TaskRepository.status?_incrementRetry hsteady]
    exact hp
  | persist_worker now w capacity es hb =>
    exact (TaskRepository.status?_saveWorker _ _ _ _ _ _).trans hp
  | persist_task now job es hb =>
    have ht : t ≠ job.id := by
      rintro rfl
      have := (h.unsaved (pending_ne_zero hb rfl)).2 p
      rw [hp] at this
      cases this
    exact ((TaskRepository.status?_saveTask _ _ _ _ _ _ _ _).trans (if_neg fun h => ht h.1)).trans hp
  | persist_task_assigned now w job es hb =>
    have ht : t ≠ job.id := by
      rintro rfl
      exact pending_ne_zero hb rfl hassigned
    have hstatus := TaskRepository.status?_updateStatus hsteady p job.id t .ASSIGNED (some w)
      .null .null
    rw [if_neg ht, or_self] at hstatus
    exact hstatus.trans hp
  | persist_task_completed now w job result es hb =>
    have ht : t ≠ job.id := by
      rintro rfl
      exact pending_ne_zero hb rfl (by omega)
    exact ((TaskRepository.status?_updateStatus_none hsteady _ _ _ _ _ _).trans
      (if_neg ht)).trans hp
  | _ => exact hp

end Steps

/-! ## The runs -/

section Runs

variable {repr : Json → Str}

theorem submitted_step {s s' : System} {l : Label} (h : Step repr s l s') :
    s'.submitted = l.submitted?.toList ++ s.submitted := by
  cases h <;> rfl

/-- When no id is submitted twice, every submitted id is new. -/
theorem guarded_fresh {ls : List Label} {s : System} (hv : s.Valid)
    (honce : (ls.filterMap Label.submitted?).Nodup)
    (hnew : ∀ t ∈ ls.filterMap Label.submitted?, t ∉ s.submitted) :
    Guarded (step repr) Fresh ls s := by
  induction ls generalizing s with
  | nil => trivial
  | cons l ls ih =>
    have hcons : (l :: ls).filterMap Label.submitted? =
        l.submitted?.toList ++ ls.filterMap Label.submitted? := by
      rw [List.filterMap_cons]
      cases l.submitted? <;> rfl
    rw [hcons] at honce hnew
    obtain ⟨-, honce', hdisj⟩ := List.nodup_append.mp honce
    refine ⟨fun t ht => hnew t (List.mem_append_left _ (Option.mem_toList.mpr ht)), fun s' hs' => ?_⟩
    have hstep := step_cases hv.heard hs'
    refine ih (valid_step hv hstep) honce' fun t ht => ?_
    rw [submitted_step hstep]
    intro hmem
    rcases List.mem_append.mp hmem with hmem | hmem
    · exact hdisj t hmem t ht rfl
    · exact hnew t (List.mem_append_right _ ht) hmem

/-- What holds in every state of a run in order. -/
structure RunInv (online : Bool) (s : System) : Prop where
  valid : s.Valid
  steady : s.coord.task_repo.Steady
  store : s.coord.task_repo.store.online = online
  tasks : ∀ t, s.TaskInv online t

theorem RunInv.step {online : Bool} {s s' : System} (h : s.RunInv online) {l : Label}
    (hG : s.Fresh l ∧ s.InOrder l) (hstep : step repr l s = some s') : s'.RunInv online := by
  have hstep := step_cases h.valid.heard hstep
  exact ⟨valid_step h.valid hstep, steady_step h.steady hstep, (online_step hstep).trans h.store,
    fun t => taskInv_step h.valid h.steady h.store (h.tasks t) hG.1 hG.2 hstep⟩

variable (repr) (failure_threshold : ℤ) (recovery_timeout heartbeat_timeout : ℚ) (max_retries : ℤ)
  (online enforces_fk : Bool) (workers : PyDict Str WorkerRow)

/-- A new system on a database without tasks. -/
theorem runInv_start : (start failure_threshold recovery_timeout heartbeat_timeout max_retries
    ⟨online, enforces_fk, workers, ∅⟩).RunInv online := by
  have hnone : ∀ p t, status? (start failure_threshold recovery_timeout heartbeat_timeout max_retries
      ⟨online, enforces_fk, workers, ∅⟩) p t = none := by
    intro p t
    cases p <;> rfl
  refine ⟨valid_init (WorkerRegistry.notMem_empty _), fun _ => rfl, rfl, fun t => ?_⟩
  refine ⟨Nat.zero_le _, fun _ => ⟨rfl, rfl, rfl, fun p => hnone p t⟩, fun hne => absurd rfl hne,
    fun _ _ => hnone _ t, fun p status hp => ?_, fun _ status hc => ?_⟩
  · rw [hnone] at hp
    cases hp
  · rw [hnone] at hc
    cases hc

/-- **Terminal statuses are final.** -/
theorem terminal_final {ls ls' : List Label} {s s' : System}
    (honce : ((ls ++ ls').filterMap Label.submitted?).Nodup)
    (hG : Guarded (step repr) InOrder (ls ++ ls') (start failure_threshold recovery_timeout
      heartbeat_timeout max_retries ⟨online, enforces_fk, workers, ∅⟩))
    (hr : run (step repr) ls (start failure_threshold recovery_timeout heartbeat_timeout max_retries
      ⟨online, enforces_fk, workers, ∅⟩) = some s)
    (hr' : run (step repr) ls' s = some s') :
    ∀ p t status, s.status? p t = some status → status.Terminal → s'.status? p t = some status := by
  have hstart := runInv_start failure_threshold recovery_timeout heartbeat_timeout max_retries online
    enforces_fk workers
  have hfresh : Guarded (step repr) Fresh (ls ++ ls') _ :=
    guarded_fresh hstart.valid honce fun _ _ => List.not_mem_nil
  obtain ⟨hbefore, hafter⟩ := guarded_append.mp (hfresh.and hG)
  have hs : s.RunInv online := run_invariant (fun _ _ _ h => h.step) hstart hbefore hr
  intro p t status hp hterm
  have hend : s'.RunInv online ∧ s'.status? p t = some status := by
    refine run_invariant (I := fun s => s.RunInv online ∧ s.status? p t = some status) ?_ ⟨hs, hp⟩
      (hafter s hr) hr'
    rintro l s s' ⟨h, hp⟩ hG hstep
    exact ⟨h.step hG hstep, status?_step h.valid h.steady h.store (h.tasks t)
      (step_cases h.valid.heard hstep) hp hterm⟩
  exact hend.2

end Runs

/-- The job completes after its assignment has been stored. -/
def storedOutcome : List Label :=
  oneAssigned ++
    [.deliver .persist_task_assigned 0, .complete 0 none, .deliver .persist_task_completed 1]

/-- Then its worker fails. -/
def laterFailure : List Label :=
  [.crash ['a'], .monitor ['a'] 11, .deliver .handle_worker_failed 11]

theorem terminal_final_storedOutcome :
    ∃ s s', run (step fun _ => []) storedOutcome emptyStart = some s ∧
      run (step fun _ => []) laterFailure s = some s' ∧
      s.status? .database ['1'] = some .COMPLETED ∧ s'.status? .database ['1'] = some .COMPLETED := by
  have h : (run (step fun _ => []) storedOutcome emptyStart).map (fun s =>
      decide (s.status? .database ['1'] = some .COMPLETED ∧
        (run (step fun _ => []) laterFailure s).isSome = true)) = some true := by decide +kernel
  obtain ⟨s, hr, hs⟩ := Option.map_eq_some_iff.mp h
  obtain ⟨hstatus, hsome⟩ := of_decide_eq_true hs
  obtain ⟨s', hr'⟩ := Option.isSome_iff_exists.mp hsome
  have hG : Guarded (step fun _ => []) InOrder (storedOutcome ++ laterFailure) emptyStart := by
    decide +kernel
  exact ⟨s, s', hr, hr', hstatus,
    terminal_final (fun _ => []) 3 5 10 3 true true ∅ (by decide) hG hr hr' _ _ _ hstatus (.inl rfl)⟩

/-- The completion is stored before the assignment. -/
def earlyOutcome : List Label :=
  oneAssigned ++ [.complete 0 none, .deliver .persist_task_completed 1]

theorem not_final_earlyOutcome :
    (earlyOutcome.filterMap Label.submitted?).Nodup ∧
    ∃ s s', run (step fun _ => []) earlyOutcome emptyStart = some s ∧
      run (step fun _ => []) [.deliver .persist_task_assigned 1] s = some s' ∧
      s.status? .database ['1'] = some .COMPLETED ∧ s'.status? .database ['1'] = some .ASSIGNED := by
  have h : (run (step fun _ => []) earlyOutcome emptyStart).map (fun s =>
      decide (s.status? .database ['1'] = some .COMPLETED ∧
        (run (step fun _ => []) [.deliver .persist_task_assigned 1] s).map (fun s' =>
          decide (s'.status? .database ['1'] = some .ASSIGNED)) = some true)) = some true := by
    decide +kernel
  obtain ⟨s, hr, hs⟩ := Option.map_eq_some_iff.mp h
  obtain ⟨hstatus, hnext⟩ := of_decide_eq_true hs
  obtain ⟨s', hr', hs'⟩ := Option.map_eq_some_iff.mp hnext
  exact ⟨by decide, s, s', hr, hr', hstatus, of_decide_eq_true hs'⟩

end System

end JobSystem
