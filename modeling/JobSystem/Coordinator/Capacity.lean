import JobSystem.Coordinator.Load

/-!
# Capacity and priority

What an assignment respects in every interleaving of the handlers with the two steps of the assigner:
no load exceeds the capacity, the worker has room and the most of it, and the job is the first one.

* `getNextJobAndWorker_spec`: what a call returns and what it leaves;
* `Lowers`: registrations start at nought and no other handler raises a load;
* `Ranked`: every job waits at the rank of its own priority;
* `WithinCapacity`, `withinCapacity_step`; **`assignments_within_capacity`**.
-/

namespace JobSystem

open PyText Trans
open PyJson (Json)

/-! ## One call of the scheduler -/

/-- The job of the least rank, and of those the one inserted first. -/
def JobPriorityQueue.First (q : JobPriorityQueue) (job : Job) : Prop :=
  ∃ e ∈ q.pq, e.job = job ∧ ∀ e' ∈ q.pq, job.priorityNum < e'.job.priorityNum ∨
    job.priorityNum = e'.job.priorityNum ∧ e.counter ≤ e'.counter

/-- Every entry has the rank of its job. -/
def JobPriorityQueue.Ranked (q : JobPriorityQueue) : Prop :=
  ∀ e ∈ q.pq, e.priority_num = e.job.priorityNum

/-- A worker with a free slot, and as much free capacity as any that is let through. -/
def MostFree (ws : List (Str × WorkerData)) (w : Str) : Prop :=
  ∃ data, (w, data) ∈ ws ∧ (data.current_load : ℤ) < data.capacity ∧
    ∀ p ∈ ws, p.2.freeCapacity ≤ data.freeCapacity

section Call

variable (queue : JobPriorityQueue) (registry : WorkerRegistry) (manager : CircuitBreakerManager)
  (now : Str → ℚ)

/-- **A call** returns the head of the queue and the preferred worker, or leaves the queue alone. -/
theorem getNextJobAndWorker_spec :
    (∀ job w, (getNextJobAndWorker queue registry manager now).result = some (job, w) →
      Preferred (admitted registry manager now) w ∧ ∃ e, e.job = job ∧
        queue.pq = e :: (getNextJobAndWorker queue registry manager now).queue.pq) ∧
    ((getNextJobAndWorker queue registry manager now).result = none →
      (getNextJobAndWorker queue registry manager now).queue = queue) := by
  have hchoose := chooseWorker_admitAll registry manager now
  unfold getNextJobAndWorker
  cases hempty : queue.isEmpty with
  | true =>
    rw [if_pos rfl]
    exact ⟨fun job w h => (by cases h), fun _ => rfl⟩
  | false =>
    rw [if_neg Bool.false_ne_true]
    dsimp only
    cases hw : chooseWorker (admitAll now manager registry.getAvailableWorkers).2.1 with
    | none => exact ⟨fun job w h => (by cases h), fun _ => rfl⟩
    | some w =>
      dsimp only
      by_cases hnil : w = []
      · rw [if_pos hnil]
        exact ⟨fun job w h => (by cases h), fun _ => rfl⟩
      · obtain ⟨e, es, q, hpq, hnext, rfl, -⟩ := JobPriorityQueue.exists_getNextJob hempty
        rw [if_neg hnil, hnext]
        refine ⟨fun job v h => ?_, fun h => (by cases h)⟩
        cases h
        exact ⟨(hchoose w).mp hw, e, rfl, hpq⟩

variable {queue registry manager now}

theorem Preferred.mostFree {w : Str} (h : Preferred (admitted registry manager now) w) :
    MostFree (admitted registry manager now) w := by
  obtain ⟨before, data, after, hws, hbefore, hafter⟩ := h
  have hmem : (w, data) ∈ admitted registry manager now := by
    rw [hws]
    exact List.mem_append_right _ List.mem_cons_self
  have hfree := (WorkerRegistry.mem_getAvailableWorkers (List.mem_filter.mp hmem).1).2
  simp only [WorkerData.freeCapacity] at hfree
  refine ⟨data, hmem, by omega, fun p hp => ?_⟩
  rw [hws] at hp
  rcases List.mem_append.mp hp with hp | hp
  · exact (hbefore p hp).le
  · rcases List.mem_cons.mp hp with rfl | hp
    · exact le_rfl
    · exact hafter p hp

/-- The head of a ranked queue is the first job. -/
theorem JobPriorityQueue.Ranked.first {q : JobPriorityQueue} (h : q.Ranked) {e : QueueEntry}
    {es : List QueueEntry} (hpq : q.pq = e :: es) : q.First e.job := by
  have hsorted := q.sorted
  rw [hpq] at hsorted
  have hmem : e ∈ q.pq := hpq ▸ List.mem_cons_self
  refine ⟨e, hmem, rfl, fun e' he' => ?_⟩
  have hle : e.Le e' := by
    rcases List.mem_cons.mp (hpq ▸ he' : e' ∈ e :: es) with rfl | hmem'
    · exact .inr ⟨rfl, le_rfl⟩
    · exact (List.pairwise_cons.mp hsorted).1 e' hmem'
  rwa [QueueEntry.Le, h e hmem, h e' he'] at hle

end Call

/-! ## The loads -/

/-- Every worker of the second registry has just come in with room for a job, or has no more load
than it had. -/
def Lowers (r r' : WorkerRegistry) : Prop :=
  ∀ w data', r'.workers.get? w = some data' →
    data'.current_load = 0 ∧ 1 ≤ data'.capacity ∨
      ∃ data, r.workers.get? w = some data ∧ data'.capacity = data.capacity ∧
        data'.current_load ≤ data.current_load

namespace Lowers

variable {r : WorkerRegistry} {w : Str}

theorem refl (r : WorkerRegistry) : Lowers r r := fun _ data h => .inr ⟨data, h, rfl, le_rfl⟩

theorem registerWorker {capacity : ℤ} (hcapacity : 1 ≤ capacity) (timestamp : ℚ) :
    Lowers r (r.registerWorker w capacity timestamp) := by
  intro w' data' h
  rw [WorkerRegistry.registerWorker, PyDict.get?_set] at h
  split_ifs at h
  · cases h
    exact .inl ⟨rfl, hcapacity⟩
  · exact refl r w' data' h

theorem removeWorker : Lowers r (r.removeWorker w) := by
  intro w' data' h
  rw [WorkerRegistry.removeWorker, PyDict.get?_erase] at h
  split_ifs at h
  exact refl r w' data' h

/-- A change of one worker that keeps its capacity and adds no load. -/
theorem modify {f : WorkerData → WorkerData} (hcapacity : ∀ data, (f data).capacity = data.capacity)
    (hload : ∀ data, (f data).current_load ≤ data.current_load) : Lowers r ⟨r.workers.modify w f⟩ := by
  intro w' data' h
  rw [PyDict.get?_modify] at h
  split_ifs at h with hw
  · obtain ⟨data, hdata, rfl⟩ := Option.map_eq_some_iff.mp h
    exact .inr ⟨data, hw ▸ hdata, hcapacity data, hload data⟩
  · exact refl r w' data' h

theorem decrementLoad : Lowers r (r.decrementLoad w) :=
  modify (fun _ => rfl) fun data => Nat.sub_le data.current_load 1

theorem updateHeartbeat (timestamp : ℚ) : Lowers r (r.updateHeartbeat w timestamp) :=
  modify (fun _ => rfl) fun _ => le_rfl

end Lowers

namespace CoordinatorService

variable (c : CoordinatorService) (w : Str)

/-- `self.scheduler.get_next_job_and_worker()`. -/
def scheduled (now : Str → ℚ) : Scheduled :=
  getNextJobAndWorker c.job_queue c.registry c.circuit_breaker_manager now

theorem lowers_handleRegister {capacity : Option ℤ} (hcapacity : 1 ≤ capacity.getD 8) (now : ℚ) :
    Lowers c.registry (c.handleRegister w capacity now).registry := by
  unfold handleRegister
  split_ifs
  · exact Lowers.refl _
  · exact Lowers.registerWorker hcapacity now

theorem lowers_handleHeartbeat (now : ℚ) : Lowers c.registry (c.handleHeartbeat w now).registry := by
  unfold handleHeartbeat
  split_ifs
  · exact Lowers.refl _
  · exact Lowers.updateHeartbeat now

theorem lowers_handleWorkerFailure : Lowers c.registry (c.handleWorkerFailure w).registry := by
  unfold handleWorkerFailure
  split_ifs
  · exact Lowers.refl _
  · exact Lowers.removeWorker

theorem lowers_handleJobCompleted : Lowers c.registry (c.handleJobCompleted w).1.registry := by
  unfold handleJobCompleted
  split_ifs
  · exact Lowers.refl _
  · exact Lowers.decrementLoad

theorem lowers_handleTaskFailed (job : Job) (error : Option Json) (now : ℚ) :
    Lowers c.registry (c.handleTaskFailed w job error now).1.registry := by
  by_cases hw : w = []
  · unfold handleTaskFailed
    rw [if_pos hw, registry_retryTask]
    exact Lowers.refl _
  · rw [registry_handleTaskFailed hw]
    exact Lowers.decrementLoad

/-! ## The ranks -/

theorem ranked_addJob {q : JobPriorityQueue} (h : q.Ranked) (job : Job) : (q.addJob job).Ranked := by
  intro e he
  rcases JobPriorityQueue.mem_addJob.mp he with rfl | he
  · rfl
  · exact h e he

variable {c} (h : c.job_queue.Ranked)

include h

theorem ranked_handleTaskFailed (job : Job) (error : Option Json) (now : ℚ) :
    (c.handleTaskFailed w job error now).1.job_queue.Ranked := by
  by_cases hle : c.retryCount job.id ≤ c.max_retries
  · obtain ⟨_, -, hqueue, -⟩ := handleTaskFailed_of_le w error now hle
    rw [hqueue]
    exact ranked_addJob h job
  · obtain ⟨_, -, hqueue, -⟩ := handleTaskFailed_of_lt w error now hle
    rwa [hqueue]

theorem ranked_handleWorkerFailed : (c.handleWorkerFailed w).job_queue.Ranked := by
  unfold handleWorkerFailed
  split_ifs
  · exact h
  · intro e he
    rcases mem_foldl_requeue he with he | ⟨-, -, hrank⟩
    · exact h e he
    · exact hrank

theorem ranked_other (repr : Json → Str) (o : Other) : (c.other repr o).job_queue.Ranked := by
  cases o with
  | jobSubmitted job => exact ranked_addJob h job
  | workerFailed w => exact ranked_handleWorkerFailed w h
  | persistWorker w capacity now => exact h
  | persistTask job => exact h
  | persistTaskAssigned w job => exact h
  | persistTaskCompleted job result => exact h

end CoordinatorService

/-! ## The runs -/

namespace LoadSystem

/-- No load exceeds the capacity, a worker that is chosen has room, and the queue is ranked. -/
structure WithinCapacity (s : LoadSystem) : Prop where
  load : ∀ w data, s.coord.registry.workers.get? w = some data →
    (data.current_load : ℤ) ≤ data.capacity
  pending : ∀ job w, s.half = some (.chosen job w) → ∀ data,
    s.coord.registry.workers.get? w = some data → (data.current_load : ℤ) < data.capacity
  ranked : s.coord.job_queue.Ranked

/-- A registration has room for a job. -/
def Label.Positive : Label → Prop
  | .register _ capacity _ => 1 ≤ capacity.getD 8
  | _ => True

variable {s : LoadSystem}

theorem withinCapacity_start (failure_threshold : ℤ) (recovery_timeout heartbeat_timeout : ℚ)
    (max_retries : ℤ) (store : PostgresStore) :
    (start failure_threshold recovery_timeout heartbeat_timeout max_retries store).WithinCapacity where
  load := fun w data h => by cases h
  pending := fun job w h => by cases h
  ranked := fun e he => by cases he

/-- The handlers raise no load. -/
theorem WithinCapacity.of_lowers (h : s.WithinCapacity) {coord : CoordinatorService}
    (outstanding : List GivenJob) (lives : Str → ℕ)
    (hlowers : Lowers s.coord.registry coord.registry) (hranked : coord.job_queue.Ranked) :
    WithinCapacity ⟨coord, s.half, outstanding, lives⟩ where
  load := by
    intro w data' hdata'
    rcases hlowers w data' hdata' with ⟨hzero, hpos⟩ | ⟨data, hdata, hcapacity, hload⟩
    · omega
    · have := h.load w data hdata
      omega
  pending := by
    intro job w hhalf data' hdata'
    rcases hlowers w data' hdata' with ⟨hzero, hpos⟩ | ⟨data, hdata, hcapacity, hload⟩
    · omega
    · have := h.pending job w hhalf data hdata
      omega
  ranked := hranked

/-- The choice: the worker has room, and the queue loses its head. -/
theorem WithinCapacity.choose (h : s.WithinCapacity) (now : Str → ℚ)
    {r : Scheduled} (hr : getNextJobAndWorker s.coord.job_queue s.coord.registry
      s.coord.circuit_breaker_manager now = r) :
    WithinCapacity { s with
      coord := { s.coord with job_queue := r.queue, circuit_breaker_manager := r.manager }
      half := r.result.map fun p => .chosen p.1 p.2 } := by
  obtain ⟨hsome, hnone⟩ := getNextJobAndWorker_spec s.coord.job_queue s.coord.registry
    s.coord.circuit_breaker_manager now
  rw [hr] at hsome hnone
  refine ⟨h.load, fun job w hchosen data hdata => ?_, fun e he => ?_⟩
  · obtain ⟨p, hresult, heq⟩ := Option.map_eq_some_iff.mp hchosen
    obtain ⟨rfl, rfl⟩ := HalfDone.chosen.inj heq
    obtain ⟨hpreferred, -⟩ := hsome p.1 p.2 hresult
    obtain ⟨data', hmem, hroom, -⟩ := hpreferred.mostFree
    have hentry : (p.2, data') ∈ s.coord.registry.workers.entries :=
      (List.mem_filter.mp (List.mem_filter.mp hmem).1).1
    have hget := PyDict.mem_entries_iff.mp hentry
    rw [show s.coord.registry.workers.get? p.2 = some data from hdata] at hget
    cases hget
    exact hroom
  · cases hresult : r.result with
    | none =>
      rw [hnone hresult] at he
      exact h.ranked e he
    | some p =>
      obtain ⟨-, e', -, hpq⟩ := hsome p.1 p.2 hresult
      exact h.ranked e (hpq ▸ List.mem_cons_of_mem e' he)

/-- `increment_load`: the worker that was chosen still has room. -/
theorem WithinCapacity.increment (h : s.WithinCapacity) {job : Job} {w : Str}
    (hhalf : s.half = some (.chosen job w)) :
    WithinCapacity { s with
      coord := { s.coord with registry := s.coord.registry.incrementLoad w }
      half := some (.counted job w) } := by
  refine ⟨fun w' data' hdata' => ?_, fun job' w' hchosen => (by cases hchosen), h.ranked⟩
  rw [WorkerRegistry.incrementLoad, PyDict.get?_modify] at hdata'
  split_ifs at hdata'
  · obtain ⟨data, hdata, rfl⟩ := Option.map_eq_some_iff.mp hdata'
    have := h.pending job w hhalf data hdata
    dsimp only
    omega
  · exact h.load w' data' hdata'

/-- **Every step keeps the loads within the capacities.** -/
theorem withinCapacity_step (repr : Json → Str) (l : Label) (s s' : LoadSystem)
    (h : s.WithinCapacity) (hl : l.Positive) (hs : step repr l s = some s') : s'.WithinCapacity := by
  cases l with
  | register w capacity now =>
    cases hs
    refine h.of_lowers _ _ (s.coord.lowers_handleRegister w hl now) ?_
    rw [(CoordinatorService.sameJobs_handleRegister _ _ _ _).job_queue]
    exact h.ranked
  | heartbeat w now =>
    cases hs
    refine h.of_lowers _ _ (s.coord.lowers_handleHeartbeat w now) ?_
    rw [(CoordinatorService.sameJobs_handleHeartbeat _ _ _).job_queue]
    exact h.ranked
  | workerFailure w =>
    cases hs
    refine h.of_lowers _ _ (s.coord.lowers_handleWorkerFailure w) ?_
    rw [(CoordinatorService.sameJobs_handleWorkerFailure _ _).job_queue]
    exact h.ranked
  | completed src =>
    obtain ⟨⟨w, job, rest⟩, -, rfl⟩ := Option.map_eq_some_iff.mp hs
    refine h.of_lowers _ _ (s.coord.lowers_handleJobCompleted w) ?_
    rw [(CoordinatorService.sameJobs_handleJobCompleted _ _).job_queue]
    exact h.ranked
  | failed src error now =>
    obtain ⟨⟨w, job, rest⟩, -, rfl⟩ := Option.map_eq_some_iff.mp hs
    exact h.of_lowers _ _ (s.coord.lowers_handleTaskFailed w job error now)
      (CoordinatorService.ranked_handleTaskFailed w h.ranked job error now)
  | other o =>
    cases hs
    refine h.of_lowers _ _ ?_ (CoordinatorService.ranked_other h.ranked repr o)
    rw [CoordinatorService.registry_other]
    exact Lowers.refl _
  | choose now =>
    simp only [step] at hs
    split at hs
    · cases hs
      exact h.choose now rfl
    · cases hs
  | increment =>
    simp only [step] at hs
    split at hs
    · next hhalf =>
      cases hs
      exact h.increment hhalf
    · cases hs
  | publish =>
    simp only [step] at hs
    split at hs
    · cases hs
      exact ⟨h.load, fun job w hchosen => (by cases hchosen), h.ranked⟩
    · cases hs

/-- **Assignments respect capacity and priority**, in every state that a run reaches. -/
theorem assignments_within_capacity (repr : Json → Str) {failure_threshold : ℤ}
    {recovery_timeout heartbeat_timeout : ℚ} {max_retries : ℤ} {store : PostgresStore}
    {ls : List Label} (hpositive : ∀ l ∈ ls, l.Positive) {s : LoadSystem}
    (hr : run (step repr) ls
      (start failure_threshold recovery_timeout heartbeat_timeout max_retries store) = some s) :
    (∀ w data, s.coord.registry.workers.get? w = some data →
      0 ≤ (data.current_load : ℤ) ∧ (data.current_load : ℤ) ≤ data.capacity) ∧
    ∀ now,
      (∀ job w, (s.coord.scheduled now).result = some (job, w) →
        MostFree (s.coord.admitted now) w ∧ s.coord.job_queue.First job) ∧
      ((s.coord.scheduled now).result = none →
        (s.coord.scheduled now).queue = s.coord.job_queue) := by
  have hwithin : s.WithinCapacity := by
    refine run_invariant (G := fun _ l => True ∧ Label.Positive l) ?_
      (withinCapacity_start _ _ _ _ _) ((guarded_true ls _).and_label hpositive) hr
    intro l s s' h hl hs
    exact withinCapacity_step repr l s s' h hl.2 hs
  refine ⟨fun w data hdata => ⟨Int.natCast_nonneg _, hwithin.load w data hdata⟩, fun now => ?_⟩
  obtain ⟨hsome, hnone⟩ := getNextJobAndWorker_spec s.coord.job_queue s.coord.registry
    s.coord.circuit_breaker_manager now
  refine ⟨fun job w hresult => ?_, hnone⟩
  obtain ⟨hpreferred, e, rfl, hpq⟩ := hsome job w hresult
  exact ⟨hpreferred.mostFree, hwithin.ranked.first hpq⟩

/-- Two workers and jobs of three ranks; the job of the first rank is assigned. -/
def rankedLoad : List Label :=
  let submit (task_id priority : Str) : Label :=
    .other (.jobSubmitted (TaskRepository.rebuiltJob task_id "ok".toList priority))
  [.register ['a'] (some 2) 0, .register ['b'] (some 4) 0, submit ['1'] "LOW".toList,
    submit ['2'] "HIGH".toList, submit ['3'] "MEDIUM".toList, .choose fun _ => 0, .increment,
    .publish]

/-- The next job is the one of the second rank, for the worker that still has more slots free. -/
theorem assignments_within_capacity_ranked : ∃ s job,
    run (step fun _ => []) rankedLoad emptyLoad = some s ∧
      (s.coord.scheduled fun _ => 0).result = some (job, ['b']) ∧ job.id = ['3'] ∧
      MostFree (s.coord.admitted fun _ => 0) ['b'] ∧ s.coord.job_queue.First job := by
  have hrun : (run (step fun _ => []) rankedLoad emptyLoad).map (fun s =>
      (s.coord.scheduled fun _ => 0).result.map fun p => (p.1.id, p.2)) =
        some (some (['3'], ['b'])) := by
    decide +kernel
  obtain ⟨s, hs, hresult⟩ := Option.map_eq_some_iff.mp hrun
  obtain ⟨⟨job, w⟩, hjob, hid⟩ := Option.map_eq_some_iff.mp hresult
  obtain ⟨hid, rfl⟩ := Prod.mk.inj hid
  have hpositive : ∀ l ∈ rankedLoad, l.Positive := by
    simp only [rankedLoad, List.forall_mem_cons]
    exact ⟨by norm_num [Label.Positive], by norm_num [Label.Positive], trivial, trivial, trivial,
      trivial, trivial, trivial, List.forall_mem_nil _⟩
  exact ⟨s, job, hs, hjob, hid,
    ((assignments_within_capacity _ hpositive hs).2 fun _ => 0).1 job ['b'] hjob⟩

end LoadSystem

end JobSystem
