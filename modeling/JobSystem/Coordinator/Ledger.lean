import JobSystem.Coordinator.Final

/-!
# Every copy of a job is accounted for

A submission makes a copy of a job, and so does the requeueing after a worker's failure. A copy waits
on the bus, is queued, runs, has completed, is buried, or is lost with a worker.

* `Ledger`, `entries`, `Books`: what a run does to the copies that no state shows;
* `Accounts`, `accounts_step`;
* **`copies_conserved`**: after any run, the copies that were made are those that there are;
* **`received_le`**: how often a job is given to a worker.
-/

namespace JobSystem

open PyText Trans
open PyJson (Json)

namespace CoordinatorService

/-- How often a task has failed. -/
def failures (c : CoordinatorService) (task_id : Str) : ℕ := (c.retries_tracker.get? task_id).getD 0

/-- The failures and their limit are the same. -/
structure SameRetries (c c' : CoordinatorService) : Prop where
  retries_tracker : c'.retries_tracker = c.retries_tracker
  max_retries : c'.max_retries = c.max_retries

section SameRetries

variable (c : CoordinatorService) (w : Str)

theorem sameRetries_handleRegister (capacity : Option ℤ) (now : ℚ) :
    SameRetries c (c.handleRegister w capacity now) := by
  unfold handleRegister
  split_ifs <;> exact ⟨rfl, rfl⟩

theorem sameRetries_handleHeartbeat (now : ℚ) : SameRetries c (c.handleHeartbeat w now) := by
  unfold handleHeartbeat
  split_ifs <;> exact ⟨rfl, rfl⟩

theorem sameRetries_handleWorkerFailure : SameRetries c (c.handleWorkerFailure w) := by
  unfold handleWorkerFailure
  split_ifs <;> exact ⟨rfl, rfl⟩

theorem sameRetries_handleJobCompleted : SameRetries c (c.handleJobCompleted w).1 := by
  unfold handleJobCompleted
  split_ifs <;> exact ⟨rfl, rfl⟩

theorem sameRetries_foldl_requeue (tasks : List Job) : SameRetries c (tasks.foldl requeue c) := by
  induction tasks generalizing c with
  | nil => exact ⟨rfl, rfl⟩
  | cons task tasks ih => exact ⟨(ih _).retries_tracker, (ih _).max_retries⟩

theorem sameRetries_handleWorkerFailed : SameRetries c (c.handleWorkerFailed w) := by
  unfold handleWorkerFailed
  split_ifs
  · exact ⟨rfl, rfl⟩
  · exact ⟨(sameRetries_foldl_requeue _ _).retries_tracker,
      (sameRetries_foldl_requeue _ _).max_retries⟩

end SameRetries

/-- A failure is counted for its task. -/
theorem tracker_handleTaskFailed (c : CoordinatorService) (w : Str) (job : Job) (error : Option Json)
    (now : ℚ) : (c.handleTaskFailed w job error now).1.retries_tracker =
      c.retries_tracker.set job.id (c.retryCount job.id) ∧
      (c.handleTaskFailed w job error now).1.max_retries = c.max_retries := by
  have hretry : ∀ c : CoordinatorService, (c.retryTask job error).1.retries_tracker =
      c.retries_tracker.set job.id (c.retryCount job.id) ∧
      (c.retryTask job error).1.max_retries = c.max_retries := by
    intro c
    unfold retryTask
    simp only
    split_ifs <;> exact ⟨rfl, rfl⟩
  unfold handleTaskFailed
  split_ifs
  · exact hretry c
  · exact hretry _

theorem failures_handleTaskFailed (c : CoordinatorService) (w : Str) (job : Job)
    (error : Option Json) (now : ℚ) (t : Str) :
    (c.handleTaskFailed w job error now).1.failures t =
      c.failures t + if job.id = t then 1 else 0 := by
  rw [failures, (tracker_handleTaskFailed c w job error now).1, PyDict.get?_set]
  by_cases ht : t = job.id
  · subst ht
    rw [if_pos rfl, if_pos rfl]
    rfl
  · rw [if_neg ht, if_neg (Ne.symm ht)]
    rfl

end CoordinatorService

namespace System

/-! ## The ledger -/

/-- The ids of the copies that were put back, received by a worker, sent to a worker that is not
connected, and lost in a crash. -/
structure Ledger where
  requeued : List Str
  received : List Str
  undelivered : List Str
  crashed : List Str

/-- Nothing has happened. -/
def Ledger.empty : Ledger := ⟨[], [], [], []⟩

/-- More entries. -/
def Ledger.add (L L' : Ledger) : Ledger :=
  ⟨L.requeued ++ L'.requeued, L.received ++ L'.received, L.undelivered ++ L'.undelivered,
    L.crashed ++ L'.crashed⟩

@[simp] theorem Ledger.add_empty (L : Ledger) : L.add .empty = L := by
  simp [Ledger.add, Ledger.empty]

/-- What a delivery does to copies. -/
def deliveryEntries (s : System) : Subscription → Event → Ledger
  | .send_to_worker, .taskAssigned w job =>
    if w ≠ [] ∧ s.connected.contains w = true then ⟨[], [job.id], [], []⟩
    else ⟨[], [], [job.id], []⟩
  | .handle_worker_failed, .workerFailed w =>
    if w = [] then .empty
    else ⟨(s.coord.task_repo.getAssignedTasksForWorker w).map Job.id, [], [], []⟩
  | _, _ => .empty

/-- What a step does to copies, by the state before it. -/
def entries (s : System) : Label → Ledger
  | .deliver sub _ =>
    match s.bus sub with
    | e :: _ => s.deliveryEntries sub e
    | [] => .empty
  | .crash w => ⟨[], [], [], (s.running.filter fun p => p.1 = w).map fun p => p.2.id⟩
  | _ => .empty

/-- A system and its ledger. -/
structure Books where
  sys : System
  ledger : Ledger

/-- A step, and its entries. -/
def Books.step (repr : Json → Str) : Machine Books Label := fun l b =>
  (System.step repr l b.sys).map fun s => ⟨s, b.ledger.add (b.sys.entries l)⟩

/-- The copies that the system still has to deal with. -/
def copies (s : System) (t : Str) : ℕ :=
  s.pending .handle_job_submitted t + s.inQueue t + s.pending .send_to_worker t + s.atWork t +
    s.pending .handle_task_failed t

/-- The copies that are buried. -/
def buried (s : System) (t : Str) : ℕ := (s.coord.dlq.map Job.id).count t

/-- The accounts of a job: where the copies are, what became of those that a worker has received, and
which failures have been the last. -/
structure Accounts (max_retries : ℤ) (b : Books) (t : Str) : Prop where
  limit : b.sys.coord.max_retries = max_retries
  balance : b.sys.submitted.count t + b.ledger.requeued.count t =
    b.sys.copies t + b.sys.completed.count t + b.sys.buried t + b.ledger.undelivered.count t +
      b.ledger.crashed.count t
  received : b.ledger.received.count t =
    b.sys.atWork t + b.sys.completed.count t + b.sys.pending .handle_task_failed t +
      b.sys.coord.failures t + b.ledger.crashed.count t
  buried : 0 ≤ max_retries → b.sys.buried t = b.sys.coord.failures t - max_retries.toNat

/-! ## The steps -/

section Steps

variable {repr : Json → Str} {s s' : System} {t : Str}

theorem copies_publish (s : System) (e : Event) (t : Str) :
    (s.publish e).copies t = s.copies t +
      if (e.topic = .JOB_SUBMITTED ∨ e.topic = .TASK_ASSIGNED ∨ e.topic = .TASK_FAILED) ∧
        e.jobId? = some t then 1 else 0 := by
  have h₁ := pending_publish s e .handle_job_submitted t
  have h₂ := pending_publish s e .send_to_worker t
  have h₃ := pending_publish s e .handle_task_failed t
  have hqueue : (s.publish e).inQueue t = s.inQueue t := rfl
  have hwork : (s.publish e).atWork t = s.atWork t := rfl
  unfold copies
  rw [h₁, h₂, h₃, hqueue, hwork]
  cases e <;> simp only [Subscription.listens, Subscription.topic, Event.topic, Event.jobId?,
    reduceCtorEq, decide_false, decide_true, Bool.false_eq_true, false_and, true_and, and_false,
    or_false, false_or, if_false, Nat.add_zero, Option.some.injEq] <;> split_ifs <;> omega

theorem copies_rest {sub : Subscription} {e : Event} {es : List Event} (h : s.bus sub = e :: es)
    (hbus : s'.bus = s.bus.rest sub) (t : Str) :
    s.pending .handle_job_submitted t + s.pending .send_to_worker t +
        s.pending .handle_task_failed t =
      s'.pending .handle_job_submitted t + s'.pending .send_to_worker t +
        s'.pending .handle_task_failed t +
      if sub ∈ [Subscription.handle_job_submitted, .send_to_worker, .handle_task_failed] ∧
        e.jobId? = some t then 1 else 0 := by
  rw [pending_rest h hbus .handle_job_submitted, pending_rest h hbus .send_to_worker,
    pending_rest h hbus .handle_task_failed]
  cases sub <;> by_cases hid : e.jobId? = some t <;> simp [hid] <;> omega

variable {max_retries : ℤ} {L : Ledger}

/-- A step that touches no copy of a job. -/
theorem Accounts.mono (h : Accounts max_retries ⟨s, L⟩ t) (hcoord : s'.coord = s.coord)
    (hbus : s'.bus = s.bus) (hrunning : s'.running = s.running) (hsub : s'.submitted = s.submitted)
    (hcompleted : s'.completed = s.completed) : Accounts max_retries ⟨s', L⟩ t := by
  obtain ⟨h₁, h₂, h₃, h₄⟩ := h
  simp only [copies, pending, waiting, inQueue, atWork, System.buried] at h₁ h₂ h₃ h₄
  refine ⟨?_, ?_, ?_, ?_⟩ <;>
    simp only [copies, pending, waiting, inQueue, atWork, System.buried, hcoord, hbus, hrunning,
      hsub, hcompleted]
  · exact h₁
  · exact h₂
  · exact h₃
  · exact h₄

/-- An event, with what the step that publishes it has done to the copies before. -/
theorem Accounts.publish {e : Event} (hlimit : s.coord.max_retries = max_retries)
    (hbalance : s.submitted.count t + L.requeued.count t =
      s.copies t + s.completed.count t + s.buried t + L.undelivered.count t + L.crashed.count t +
        if (e.topic = .JOB_SUBMITTED ∨ e.topic = .TASK_ASSIGNED ∨ e.topic = .TASK_FAILED) ∧
          e.jobId? = some t then 1 else 0)
    (hreceived : L.received.count t =
      s.atWork t + s.completed.count t + s.pending .handle_task_failed t + s.coord.failures t +
        L.crashed.count t +
        if Subscription.handle_task_failed.listens e = true ∧ e.jobId? = some t then 1 else 0)
    (hburied : 0 ≤ max_retries → s.buried t = s.coord.failures t - max_retries.toNat) :
    Accounts max_retries ⟨s.publish e, L⟩ t where
  limit := hlimit
  balance := by
    have hcopies := copies_publish s e t
    have hcompleted : (s.publish e).completed = s.completed := rfl
    have hsubmitted : (s.publish e).submitted = s.submitted := rfl
    have hdlq : (s.publish e).buried t = s.buried t := rfl
    simp only [hcompleted, hsubmitted, hdlq]
    omega
  received := by
    have hpending := pending_publish s e .handle_task_failed t
    have hcompleted : (s.publish e).completed = s.completed := rfl
    have hwork : (s.publish e).atWork t = s.atWork t := rfl
    have hfailures : (s.publish e).coord.failures t = s.coord.failures t := rfl
    simp only [hcompleted, hwork, hfailures]
    omega
  buried := hburied

/-- A delivery, by what the handler does to the copies. -/
theorem Accounts.deliver (h : Accounts max_retries ⟨s, L⟩ t) {sub : Subscription} {e : Event}
    {es : List Event} (hb : s.bus sub = e :: es) {coord : CoordinatorService}
    {running : List (Str × Job)} {queued : List Str} {E : Ledger}
    (hlimit : coord.max_retries = s.coord.max_retries)
    (hcopies : (coord.job_queue.jobs.map Job.id).count t + (running.map fun p => p.2.id).count t +
        (coord.dlq.map Job.id).count t + E.undelivered.count t =
      s.inQueue t + s.atWork t + s.buried t + E.requeued.count t +
        if sub ∈ [Subscription.handle_job_submitted, .send_to_worker, .handle_task_failed] ∧
          e.jobId? = some t then 1 else 0)
    (hreceived : s.atWork t + s.coord.failures t + E.received.count t +
        (if Subscription.handle_task_failed = sub ∧ e.jobId? = some t then 1 else 0) =
      (running.map fun p => p.2.id).count t + coord.failures t)
    (hcrashed : E.crashed = [])
    (hburied : 0 ≤ max_retries → (coord.dlq.map Job.id).count t =
      coord.failures t - max_retries.toNat) :
    Accounts max_retries ⟨{ s with
      bus := s.bus.rest sub
      coord := coord
      running := running
      queued := queued }, L.add E⟩ t where
  limit := hlimit.trans h.limit
  balance := by
    have hrest := copies_rest hb (show ({ s with
      bus := s.bus.rest sub
      coord := coord
      running := running
      queued := queued } : System).bus = _ from rfl) t
    have hbalance := h.balance
    simp only [copies, inQueue, atWork, System.buried] at hbalance hcopies ⊢
    simp only [Ledger.add, List.count_append, hcrashed, List.count_nil]
    omega
  received := by
    have hrest := pending_rest hb (show ({ s with
      bus := s.bus.rest sub
      coord := coord
      running := running
      queued := queued } : System).bus = _ from rfl) .handle_task_failed t
    have hold := h.received
    simp only [atWork] at hold hreceived ⊢
    simp only [Ledger.add, List.count_append, hcrashed, List.count_nil]
    omega
  buried := hburied

/-- A handler that touches no copy. -/
theorem Accounts.deliver_same (h : Accounts max_retries ⟨s, L⟩ t) {sub : Subscription} {e : Event}
    {es : List Event} (hb : s.bus sub = e :: es)
    (hsub : sub ∉ [Subscription.handle_job_submitted, .send_to_worker, .handle_task_failed])
    {coord : CoordinatorService} (hqueue : coord.job_queue = s.coord.job_queue)
    (hdlq : coord.dlq = s.coord.dlq) (hretries : s.coord.SameRetries coord) :
    Accounts max_retries ⟨{ s with bus := s.bus.rest sub, coord := coord }, L⟩ t := by
  have hfailures : coord.failures t = s.coord.failures t := by
    rw [CoordinatorService.failures, hretries.retries_tracker]
    rfl
  have hne : Subscription.handle_task_failed ≠ sub := by
    rintro rfl
    exact hsub (by simp)
  rw [← L.add_empty]
  refine h.deliver hb hretries.max_retries ?_ ?_ rfl ?_
  · rw [if_neg fun hh => hsub hh.1, hqueue, hdlq]
    rfl
  · rw [if_neg fun hh => hne hh.1, hfailures]
    rfl
  · rw [hdlq, hfailures]
    exact h.buried

theorem accounts_submit (h : Accounts max_retries ⟨s, L⟩ t) (job : Job) : Accounts max_retries
    ⟨{ s with submitted := job.id :: s.submitted }.publish (.jobSubmitted job), L⟩ t := by
  refine Accounts.publish h.limit ?_ h.received h.buried
  have hbalance := h.balance
  simp only [copies, inQueue, atWork, System.buried, pending, waiting] at hbalance ⊢
  rw [List.count_cons]
  simp only [Event.topic, Event.jobId?, true_or, true_and, Option.some.injEq, beq_iff_eq]
  omega

/-- An event that carries no copy. -/
theorem Accounts.publish_other (h : Accounts max_retries ⟨s, L⟩ t) {e : Event}
    (hid : e.jobId? = none) : Accounts max_retries ⟨s.publish e, L⟩ t := by
  refine Accounts.publish h.limit ?_ ?_ h.buried
  · rw [if_neg (by simp [hid])]
    exact h.balance
  · rw [if_neg (by simp [hid])]
    exact h.received

theorem accounts_assign (h : Accounts max_retries ⟨s, L⟩ t) {m : CircuitBreakerManager}
    {e : QueueEntry} {q : JobPriorityQueue} {w : Str} (hpq : s.coord.job_queue.pq = e :: q.pq) :
    Accounts max_retries ⟨{ s with
        coord := { s.coord with
          job_queue := q
          circuit_breaker_manager := m
          registry := s.coord.registry.incrementLoad w } }.publish (.taskAssigned w e.job), L⟩ t := by
  have hqueue : s.inQueue t = (q.jobs.map Job.id).count t + if e.job.id = t then 1 else 0 := by
    unfold inQueue JobPriorityQueue.jobs
    rw [hpq, List.map_cons, List.map_cons, List.count_cons]
    simp only [beq_iff_eq]
  refine Accounts.publish h.limit ?_ h.received h.buried
  have hbalance := h.balance
  simp only [copies, atWork, System.buried, pending, waiting] at hbalance ⊢
  simp only [Event.topic, Event.jobId?, reduceCtorEq, or_true, true_or, true_and,
    Option.some.injEq]
  change _ = _ + (q.jobs.map Job.id).count t + _ + _ + _ + _ + _ + _ + _ + _
  omega

theorem accounts_complete (h : Accounts max_retries ⟨s, L⟩ t) {i : ℕ} {w : Str} {job : Job}
    (hi : s.running[i]? = some (w, job)) (result : Option Json) :
    Accounts max_retries ⟨{ s with
      running := s.running.eraseIdx i
      completed := job.id :: s.completed }.publish (.jobCompleted w job result), L⟩ t := by
  have hwork := count_eraseIdx hi t
  have hbalance := h.balance
  have hreceived := h.received
  refine Accounts.publish h.limit ?_ ?_ h.buried
  · simp only [copies, atWork, System.buried, pending, waiting, inQueue] at hbalance ⊢
    rw [List.count_cons]
    simp only [Event.topic, reduceCtorEq, or_self, false_and, if_false, beq_iff_eq]
    omega
  · simp only [atWork, pending, waiting] at hreceived ⊢
    rw [List.count_cons]
    simp only [Subscription.listens, Subscription.topic, Event.topic, reduceCtorEq, decide_false,
      Bool.false_eq_true, false_and, if_false, beq_iff_eq]
    omega

theorem accounts_fail (h : Accounts max_retries ⟨s, L⟩ t) {i : ℕ} {w : Str} {job : Job}
    (hi : s.running[i]? = some (w, job)) (error : Option Json) :
    Accounts max_retries ⟨{ s with running := s.running.eraseIdx i }.publish
      (.taskFailed w job error), L⟩ t := by
  have hwork := count_eraseIdx hi t
  have hbalance := h.balance
  have hreceived := h.received
  refine Accounts.publish h.limit ?_ ?_ h.buried
  · simp only [copies, atWork, System.buried, pending, waiting, inQueue] at hbalance ⊢
    simp only [Event.topic, Event.jobId?, or_true, true_and, Option.some.injEq]
    omega
  · simp only [atWork, pending, waiting] at hreceived ⊢
    simp only [Subscription.listens, Subscription.topic, Event.topic, Event.jobId?, decide_true,
      true_and, Option.some.injEq]
    omega

theorem accounts_crash (h : Accounts max_retries ⟨s, L⟩ t) (w : Str) :
    Accounts max_retries ⟨{ s with
      connected := s.connected.filter (· ≠ w)
      running := s.running.filter fun p => p.1 ≠ w }, L.add (s.entries (.crash w))⟩ t := by
  have hsplit : s.atWork t = ((s.running.filter fun p => p.1 ≠ w).map fun p => p.2.id).count t +
      ((s.running.filter fun p => p.1 = w).map fun p => p.2.id).count t := by
    unfold atWork
    induction s.running with
    | nil => rfl
    | cons p ps ih =>
      by_cases hp : p.1 = w <;> simp [hp, List.count_cons] at ih ⊢ <;> omega
  have hbalance := h.balance
  have hreceived := h.received
  refine ⟨h.limit, ?_, ?_, h.buried⟩
  · simp only [copies, System.buried, pending, waiting, inQueue, Ledger.add, entries,
      List.append_nil, List.count_append] at hbalance ⊢
    simp only [atWork] at hsplit hbalance ⊢
    omega
  · simp only [pending, waiting, Ledger.add, entries, List.append_nil, List.count_append]
      at hreceived ⊢
    simp only [atWork] at hsplit hreceived ⊢
    omega

theorem accounts_handle_job_submitted (h : Accounts max_retries ⟨s, L⟩ t) {job : Job}
    {es : List Event} (hb : s.bus .handle_job_submitted = .jobSubmitted job :: es) :
    Accounts max_retries ⟨{ s with
      bus := s.bus.rest .handle_job_submitted
      coord := s.coord.handleJobSubmitted job
      queued := job.id :: s.queued }, L⟩ t := by
  rw [← L.add_empty]
  refine h.deliver hb rfl ?_ ?_ rfl h.buried
  · have hqueue := count_addJob s.coord.job_queue job t
    simp only [CoordinatorService.handleJobSubmitted, Event.jobId?, List.mem_cons, true_or, true_and,
      Option.some.injEq]
    simp only [inQueue, atWork, System.buried, Ledger.empty, List.count_nil]
    omega
  · simp only [reduceCtorEq, false_and, if_false]
    rfl

theorem accounts_send_to_worker (h : Accounts max_retries ⟨s, L⟩ t) {w : Str} {job : Job}
    {es : List Event} (hb : s.bus .send_to_worker = .taskAssigned w job :: es) :
    Accounts max_retries ⟨{ s with
      bus := s.bus.rest .send_to_worker
      running := s.running ++ if w ≠ [] ∧ w ∈ s.connected then [(w, job)] else [] },
      L.add (s.deliveryEntries .send_to_worker (.taskAssigned w job))⟩ t := by
  have hin : Subscription.send_to_worker ∈
      [Subscription.handle_job_submitted, .send_to_worker, .handle_task_failed] := by simp
  simp only [deliveryEntries, List.contains_iff_mem]
  split_ifs with hw
  · refine h.deliver hb rfl ?_ ?_ rfl h.buried
    · simp only [hin, true_and, Event.jobId?, Option.some.injEq, List.map_append, List.count_append,
        List.map_cons, List.map_nil, List.count_singleton, List.count_nil, inQueue, atWork,
        System.buried, beq_iff_eq]
      omega
    · simp only [reduceCtorEq, false_and, if_false, List.map_append, List.count_append,
        List.map_cons, List.map_nil, List.count_singleton, atWork, beq_iff_eq]
      omega
  · refine h.deliver hb rfl ?_ ?_ rfl h.buried
    · simp only [hin, true_and, Event.jobId?, Option.some.injEq, List.append_nil, List.count_nil,
        List.count_singleton, inQueue, atWork, System.buried, beq_iff_eq]
      omega
    · simp only [reduceCtorEq, false_and, if_false, List.append_nil, List.count_nil, atWork]
      omega

theorem accounts_handle_worker_failed (h : Accounts max_retries ⟨s, L⟩ t) {w : Str}
    {es : List Event} (hb : s.bus .handle_worker_failed = .workerFailed w :: es) :
    Accounts max_retries ⟨{ s with
      bus := s.bus.rest .handle_worker_failed
      coord := s.coord.handleWorkerFailed w },
      L.add (s.deliveryEntries .handle_worker_failed (.workerFailed w))⟩ t := by
  have hretries := s.coord.sameRetries_handleWorkerFailed w
  have hfailures : (s.coord.handleWorkerFailed w).failures t = s.coord.failures t := by
    rw [CoordinatorService.failures, hretries.retries_tracker]
    rfl
  have hdlq := CoordinatorService.dlq_handleWorkerFailed (c := s.coord) w
  rw [deliveryEntries]
  split_ifs with hw
  · rw [L.add_empty]
    refine h.deliver_same hb (by simp) ?_ hdlq hretries
    rw [CoordinatorService.handleWorkerFailed, if_pos hw]
  · refine h.deliver hb hretries.max_retries ?_ ?_ rfl ?_
    · have hjobs := ((CoordinatorService.jobs_handleWorkerFailed (c := s.coord) hw).map Job.id).count_eq t
      rw [List.map_append, List.count_append] at hjobs
      rw [if_neg (by simp), hdlq, hjobs]
      simp only [inQueue, atWork, System.buried, List.count_nil]
      omega
    · rw [if_neg (by simp), hfailures]
      simp only [atWork, List.count_nil]
      omega
    · rw [hdlq, hfailures]
      exact h.buried

theorem accounts_handle_task_failed (h : Accounts max_retries ⟨s, L⟩ t) {now : ℚ} {w : Str}
    {job : Job} {error : Option Json} {es : List Event}
    (hb : s.bus .handle_task_failed = .taskFailed w job error :: es) :
    Accounts max_retries ⟨{ s with
      bus := s.bus.rest .handle_task_failed
      coord := (s.coord.handleTaskFailed w job error now).1 }, L⟩ t := by
  have hfailures := s.coord.failures_handleTaskFailed w job error now t
  have hlimit := (s.coord.tracker_handleTaskFailed w job error now).2
  have hin : Subscription.handle_task_failed ∈
      [Subscription.handle_job_submitted, .send_to_worker, .handle_task_failed] := by simp
  have hreceived : s.atWork t + s.coord.failures t + Ledger.empty.received.count t +
        (if Subscription.handle_task_failed = .handle_task_failed ∧
          (Event.taskFailed w job error).jobId? = some t then 1 else 0) =
      (s.running.map fun p => p.2.id).count t +
        (s.coord.handleTaskFailed w job error now).1.failures t := by
    simp only [true_and, Event.jobId?, Option.some.injEq, hfailures, atWork, Ledger.empty,
      List.count_nil]
    omega
  have hold := h.buried
  have hretry : s.coord.retryCount job.id = s.coord.failures job.id + 1 := rfl
  have hmax := h.limit
  simp only [System.buried] at hold hmax
  rw [← L.add_empty]
  -- the failure puts the copy back, or buries it
  by_cases hle : s.coord.retryCount job.id ≤ s.coord.max_retries
  · obtain ⟨msg, -, hqueue, hdlq⟩ := CoordinatorService.handleTaskFailed_of_le w error now hle
    refine h.deliver hb hlimit ?_ hreceived rfl ?_
    · have hadd := count_addJob s.coord.job_queue job t
      simp only [hqueue, hdlq, hin, true_and, Event.jobId?, Option.some.injEq, inQueue, atWork,
        System.buried, Ledger.empty, List.count_nil]
      omega
    · intro hpos
      rw [hdlq, hfailures, hold hpos]
      split_ifs with ht
      · subst ht
        omega
      · rfl
  · obtain ⟨msg, -, hqueue, hdlq⟩ := CoordinatorService.handleTaskFailed_of_lt w error now hle
    have hbury : ((s.coord.handleTaskFailed w job error now).1.dlq.map Job.id).count t =
        (s.coord.dlq.map Job.id).count t + if job.id = t then 1 else 0 := by
      simp only [hdlq, List.map_append, List.count_append, List.map_cons, List.map_nil,
        List.count_singleton, beq_iff_eq]
    refine h.deliver hb hlimit ?_ hreceived rfl ?_
    · rw [hbury]
      simp only [hqueue, hin, true_and, Event.jobId?, Option.some.injEq, inQueue, atWork,
        System.buried, Ledger.empty, List.count_nil]
      omega
    · intro hpos
      rw [hbury, hfailures, hold hpos]
      split_ifs with ht
      · subst ht
        omega
      · rfl

/-- What `send_to_worker` does, exactly. -/
theorem step_send_to_worker {now : ℚ} {w : Str} {job : Job} {es : List Event}
    (hb : s.bus .send_to_worker = .taskAssigned w job :: es)
    (h : step repr (.deliver .send_to_worker now) s = some s') :
    s' = { s with
      bus := s.bus.rest .send_to_worker
      running := s.running ++ if w ≠ [] ∧ w ∈ s.connected then [(w, job)] else [] } := by
  simp only [step, hb, handle] at h
  cases h
  split_ifs
  · rfl
  · rw [List.append_nil]

/-- **One step** keeps the accounts of every job. -/
theorem accounts_step {b b' : Books} (hv : b.sys.Valid) (h : Accounts max_retries b t) {l : Label}
    (hstep : Books.step repr l b = some b') : Accounts max_retries b' t := by
  obtain ⟨s, L⟩ := b
  obtain ⟨s', hs, rfl⟩ := Option.map_eq_some_iff.mp hstep
  have hsame : ∀ {sub : Subscription} {now : ℚ} {e : Event} {es : List Event},
      s.bus sub = e :: es → s.deliveryEntries sub e = .empty →
        L.add (s.entries (.deliver sub now)) = L := by
    intro sub now e es hb hempty
    rw [entries, hb]
    exact (congrArg L.add hempty).trans L.add_empty
  cases step_cases hv.heard hs with
  | submit job => exact L.add_empty.symm ▸ accounts_submit h job
  | register w capacity =>
    refine L.add_empty.symm ▸ Accounts.publish_other ?_ rfl
    exact h.mono rfl rfl rfl rfl rfl
  | heartbeat w => exact L.add_empty.symm ▸ h.publish_other rfl
  | idle now m => exact L.add_empty.symm ▸ ⟨h.limit, h.balance, h.received, h.buried⟩
  | assign now m e q w hpq hcounter hw => exact L.add_empty.symm ▸ accounts_assign h hpq
  | complete i result w job hi => exact L.add_empty.symm ▸ accounts_complete h hi result
  | fail i error w job hi => exact L.add_empty.symm ▸ accounts_fail h hi error
  | crash w => exact accounts_crash h w
  | monitor w now hw => exact L.add_empty.symm ▸ h.publish_other rfl
  | handle_register now w capacity es hb =>
    have hjobs := s.coord.sameJobs_handleRegister w capacity now
    exact (hsame hb rfl).symm ▸ h.deliver_same hb (by simp) hjobs.job_queue hjobs.dlq
      (s.coord.sameRetries_handleRegister w capacity now)
  | handle_job_submitted now job es hb =>
    exact (hsame hb rfl).symm ▸ accounts_handle_job_submitted h hb
  | handle_heartbeat now w es hb =>
    have hjobs := s.coord.sameJobs_handleHeartbeat w now
    exact (hsame hb rfl).symm ▸ h.deliver_same hb (by simp) hjobs.job_queue hjobs.dlq
      (s.coord.sameRetries_handleHeartbeat w now)
  | handle_worker_failure now w es hb =>
    have hjobs := s.coord.sameJobs_handleWorkerFailure w
    exact (hsame hb rfl).symm ▸ h.deliver_same hb (by simp) hjobs.job_queue hjobs.dlq
      (s.coord.sameRetries_handleWorkerFailure w)
  | handle_worker_failed now w es hb =>
    rw [entries, hb]
    exact accounts_handle_worker_failed h hb
  | handle_job_completed now w job result es hb =>
    have hjobs := s.coord.sameJobs_handleJobCompleted w
    exact (hsame hb rfl).symm ▸ h.deliver_same hb (by simp) hjobs.job_queue hjobs.dlq
      (s.coord.sameRetries_handleJobCompleted w)
  | handle_task_failed now w job error es hb =>
    exact (hsame hb rfl).symm ▸ accounts_handle_task_failed h hb
  | persist_worker now w capacity es hb =>
    exact (hsame hb rfl).symm ▸ h.deliver_same hb (by simp) rfl rfl ⟨rfl, rfl⟩
  | persist_task now job es hb =>
    exact (hsame hb rfl).symm ▸ h.deliver_same hb (by simp) rfl rfl ⟨rfl, rfl⟩
  | persist_task_assigned now w job es hb =>
    exact (hsame hb rfl).symm ▸ h.deliver_same hb (by simp) rfl rfl ⟨rfl, rfl⟩
  | persist_task_completed now w job result es hb =>
    exact (hsame hb rfl).symm ▸ h.deliver_same hb (by simp) rfl rfl ⟨rfl, rfl⟩
  | send_to_worker now w job es sent hb hsent =>
    rw [step_send_to_worker hb hs, entries, hb]
    exact accounts_send_to_worker h hb

end Steps

/-! ## The runs -/

section Runs

variable (repr : Json → Str) (failure_threshold : ℤ) (recovery_timeout heartbeat_timeout : ℚ)
  (max_retries : ℤ) (store : PostgresStore)

/-- A new system and an empty ledger. -/
def Books.start : Books :=
  ⟨System.start failure_threshold recovery_timeout heartbeat_timeout max_retries store, .empty⟩

variable {repr} in
/-- The books of a run are the run. -/
theorem run_books {ls : List Label} {b b' : Books} (h : run (Books.step repr) ls b = some b') :
    run (step repr) ls b.sys = some b'.sys := by
  induction ls generalizing b with
  | nil =>
    cases h
    rfl
  | cons l ls ih =>
    obtain ⟨b₁, hl, hrest⟩ := run_cons_eq_some.mp h
    obtain ⟨s₁, hs, rfl⟩ := Option.map_eq_some_iff.mp hl
    exact run_cons_eq_some.mpr ⟨s₁, hs, ih hrest⟩

/-- What holds of the books of a run. -/
structure BooksInv (max_retries : ℤ) (b : Books) : Prop where
  valid : b.sys.Valid
  accounts : ∀ t, Accounts max_retries b t

variable {repr failure_threshold recovery_timeout heartbeat_timeout max_retries store}

theorem booksInv_run {ls : List Label} {b : Books} (hrun : run (Books.step repr) ls
      (Books.start failure_threshold recovery_timeout heartbeat_timeout max_retries store) = some b) :
    BooksInv max_retries b := by
  refine Trans.run_invariant (G := fun _ _ => True) ?_ ⟨?_, fun t => ?_⟩ (guarded_true _ _) hrun
  · intro l b b' hI _ hstep
    obtain ⟨s', hs, rfl⟩ := Option.map_eq_some_iff.mp hstep
    exact ⟨valid_step hI.valid (step_cases hI.valid.heard hs),
      fun t => accounts_step hI.valid (hI.accounts t) hstep⟩
  · exact valid_init (WorkerRegistry.notMem_empty _)
  · exact ⟨rfl, rfl, rfl, fun _ => (Nat.zero_sub _).symm⟩

variable (repr failure_threshold recovery_timeout heartbeat_timeout max_retries store)

/-- **No copy of a job appears or vanishes**: in any run, each copy that a submission or a worker's
failure has made waits, is queued, runs, has completed, is buried or is lost with a worker, and is so
once; and what a worker has received runs, has completed, has failed, or has crashed with it. -/
theorem copies_conserved {ls : List Label} {b : Books} (hrun : run (Books.step repr) ls
      (Books.start failure_threshold recovery_timeout heartbeat_timeout max_retries store) = some b)
    (t : Str) :
    b.sys.submitted.count t + b.ledger.requeued.count t =
        b.sys.copies t + b.sys.completed.count t + b.sys.buried t + b.ledger.undelivered.count t +
          b.ledger.crashed.count t ∧
      b.ledger.received.count t =
        b.sys.atWork t + b.sys.completed.count t + b.sys.pending .handle_task_failed t +
          b.sys.coord.failures t + b.ledger.crashed.count t :=
  have h := (booksInv_run hrun).accounts t
  ⟨h.balance, h.received⟩

/-- The only worker fails the job once, and has it again. -/
def failedOnce : List Label :=
  oneAssigned ++ [.fail 0 none, .deliver .handle_task_failed 0, .assign fun _ => 0,
    .deliver .send_to_worker 0]

theorem copies_conserved_failedOnce : ∃ b, run (Books.step fun _ => []) failedOnce
      (Books.start 3 5 10 3 ⟨true, true, ∅, ∅⟩) = some b ∧ b.sys.copies ['1'] = 1 ∧
    b.sys.submitted.count ['1'] + b.ledger.requeued.count ['1'] =
      b.sys.copies ['1'] + b.sys.completed.count ['1'] + b.sys.buried ['1'] +
        b.ledger.undelivered.count ['1'] + b.ledger.crashed.count ['1'] := by
  have h : (run (Books.step fun _ => []) failedOnce (Books.start 3 5 10 3 ⟨true, true, ∅, ∅⟩)).map
      (fun b => b.sys.copies ['1']) = some 1 := by decide +kernel
  obtain ⟨b, hrun, hcopies⟩ := Option.map_eq_some_iff.mp h
  exact ⟨b, hrun, hcopies, (copies_conserved _ 3 5 10 3 _ hrun ['1']).1⟩

/-- **How often a job is given to a worker**: once for each copy that was made, and once more for each
failure that is within the limit. A job that was submitted once and never put back completes once at
most, and is buried only after it has been received once more than the limit, and then has not
completed. -/
theorem received_le (hpos : 0 ≤ max_retries) {ls : List Label} {b : Books}
    (hrun : run (Books.step repr) ls
      (Books.start failure_threshold recovery_timeout heartbeat_timeout max_retries store) = some b)
    (t : Str) :
    b.ledger.received.count t ≤
        max_retries.toNat + b.sys.submitted.count t + b.ledger.requeued.count t ∧
      b.sys.completed.count t + b.sys.buried t ≤
        b.sys.submitted.count t + b.ledger.requeued.count t ∧
      (b.sys.submitted.count t + b.ledger.requeued.count t ≤ 1 → b.sys.buried t ≠ 0 →
        b.ledger.received.count t = max_retries.toNat + 1 ∧ b.sys.completed.count t = 0) := by
  obtain ⟨-, hbalance, hreceived, hburied⟩ := (booksInv_run hrun).accounts t
  have hburied := hburied hpos
  rw [copies] at hbalance
  refine ⟨by omega, by omega, fun honce hne => ⟨by omega, by omega⟩⟩

theorem received_le_failedOnce : ∃ b, run (Books.step fun _ => []) failedOnce
      (Books.start 3 5 10 3 ⟨true, true, ∅, ∅⟩) = some b ∧ b.ledger.received.count ['1'] = 2 ∧
    b.ledger.received.count ['1'] ≤
      (3 : ℤ).toNat + b.sys.submitted.count ['1'] + b.ledger.requeued.count ['1'] := by
  have h : (run (Books.step fun _ => []) failedOnce (Books.start 3 5 10 3 ⟨true, true, ∅, ∅⟩)).map
      (fun b => b.ledger.received.count ['1']) = some 2 := by decide +kernel
  obtain ⟨b, hrun, hreceived⟩ := Option.map_eq_some_iff.mp h
  exact ⟨b, hrun, hreceived, (received_le _ 3 5 10 3 _ (by decide) hrun ['1']).1⟩

end Runs

end System

end JobSystem
