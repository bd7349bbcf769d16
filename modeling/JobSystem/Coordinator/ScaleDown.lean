import JobSystem.Coordinator.Autoscaler
import JobSystem.Coordinator.Load

/-!
# Scaling down

The assigner's thread, the handlers and the loop of the autoscaler in any order. The assigner chooses
a worker, takes a job from the queue, increments the load and publishes the assignment; the loop reads
the length of the queue, the available workers and then one load after the other. `get_all_workers`
copies the dictionary, not the entries: the loop reads a load from the entry that was there when it
took the copy, also when the worker has registered again or has been evicted since.

* `AssignPhase`, `LoopPhase`, `ScaleSystem`, `step`; `pick_pop`: the choice and the job make one
  `get_next_job_and_worker`;
* `Busy`: a job is chosen for the worker or assigned to it, and has no outcome; `stoppedId`: the worker
  that `scale_down` would stop;
* `Calm`: the conditions on the steps; `Watched`, `watched_step`: what they keep;
* **`stopsIdle_of_calm`**: no busy worker is stopped in a run whose steps meet the conditions.
-/

namespace JobSystem

open PyText Trans
open PyJson (Json)

/-! ## The threads -/

/-- `wid.startswith("worker-dynamic-")` -/
def IsDynamic (w : Str) : Prop := "worker-dynamic-".toList <+: w

instance (w : Str) : Decidable (IsDynamic w) := inferInstanceAs (Decidable (_ <+: _))

theorem IsDynamic.ne_nil {w : Str} (h : IsDynamic w) : w ≠ [] := by
  rintro rfl
  exact absurd (List.prefix_nil.mp h) (by decide)

/-- Where the assigner is: a worker is chosen, with a job, and counted on its load. -/
inductive AssignPhase where
  | idle
  | picked (w : Str)
  | chosen (job : Job) (w : Str)
  | counted (job : Job) (w : Str)

namespace AssignPhase

/-- The worker that is chosen, when there is no job yet. -/
def picked? : AssignPhase → Option Str
  | picked w => some w
  | _ => none

/-- The worker is chosen, and no job yet. -/
def Picked (w : Str) : AssignPhase → Prop
  | picked v => v = w
  | _ => False

/-- The worker and a job are chosen, and not counted yet. -/
def Chosen (w : Str) : AssignPhase → Prop
  | chosen _ v => v = w
  | _ => False

/-- The job is counted on the worker's load, and not published yet. -/
def Counted (w : Str) : AssignPhase → Prop
  | counted _ v => v = w
  | _ => False

instance (w : Str) : (p : AssignPhase) → Decidable (p.Picked w)
  | picked v => inferInstanceAs (Decidable (v = w))
  | idle | chosen _ _ | counted _ _ => isFalse id

instance (w : Str) : (p : AssignPhase) → Decidable (p.Chosen w)
  | chosen _ v => inferInstanceAs (Decidable (v = w))
  | idle | picked _ | counted _ _ => isFalse id

instance (w : Str) : (p : AssignPhase) → Decidable (p.Counted w)
  | counted _ v => inferInstanceAs (Decidable (v = w))
  | idle | picked _ | chosen _ _ => isFalse id

end AssignPhase

/-- Where the loop of the autoscaler is. While it reads the loads, the workers that are left; the load
of an entry that is no longer in the registry comes with the name. -/
inductive LoopPhase where
  | sleeping
  | sized (qsize : ℕ)
  | polled (qsize available active_dynamic : ℕ)
  | cleaned (qsize available active_dynamic : ℕ)
  | scanning (pending : List (Str × Option ℕ))
  deriving DecidableEq

/-- The coordinator, the assigner, the assignments without an outcome, the autoscaler and its loop. -/
structure ScaleSystem where
  coord : CoordinatorService
  assigner : AssignPhase
  outstanding : List (Str × Job)
  scaler : Autoscaler
  loop : LoopPhase

namespace LoopPhase

/-- The workers whose loads are still to be read. -/
def pending : LoopPhase → List (Str × Option ℕ)
  | scanning ps => ps
  | _ => []

/-- The load of the worker is still to be read. -/
def Awaits (w : Str) (phase : LoopPhase) : Prop := ∃ p ∈ phase.pending, p.1 = w

/-- The loop reads the loads, and is past this worker. -/
def Passed (w : Str) : LoopPhase → Prop
  | scanning ps => ¬ ∃ p ∈ ps, p.1 = w
  | _ => False

instance (w : Str) (phase : LoopPhase) : Decidable (phase.Awaits w) :=
  inferInstanceAs (Decidable (∃ p ∈ phase.pending, p.1 = w))

instance (w : Str) : (phase : LoopPhase) → Decidable (phase.Passed w)
  | scanning ps => inferInstanceAs (Decidable (¬ ∃ p ∈ ps, p.1 = w))
  | sleeping | sized _ | polled _ _ _ | cleaned _ _ _ => isFalse id

/-- A worker's entry leaves the registry: the loop keeps it, with its load. -/
def detach (r : WorkerRegistry) (w : Str) : LoopPhase → LoopPhase
  | scanning ps => scanning (ps.map fun p => if p.1 = w then (p.1, p.2 <|> r.load? w) else p)
  | phase => phase

end LoopPhase

namespace Autoscaler

/-- The worker that `scale_down` stops. -/
def stoppedId (a : Autoscaler) : Option Str :=
  let a := a.cleanDeadProcesses
  if a.active_subprocesses.size ≤ a.min_workers then none
  else a.active_subprocesses.entries.getLast?.map Prod.fst

end Autoscaler

namespace ScaleSystem

/-- `get_next_job_and_worker` up to the choice of the worker. -/
def pickWorker (queue : JobPriorityQueue) (registry : WorkerRegistry)
    (manager : CircuitBreakerManager) (now : Str → ℚ) : Option Str × CircuitBreakerManager :=
  if queue.isEmpty then (none, manager)
  else
    let r := admitAll now manager registry.getAvailableWorkers
    ((chooseWorker r.2.1).filter (· ≠ []), r.1)

/-- The worker and the job of an outcome, and the assignments still outstanding after it. -/
def outcome (s : ScaleSystem) : LoadSystem.Source → Option (Str × Job × List (Str × Job))
  | .assigned i => s.outstanding[i]?.map fun a => (a.1, a.2, s.outstanding.eraseIdx i)
  | .stray w job => some (w, job, s.outstanding)

/-- The steps of the handlers, the assigner, the processes and the loop. -/
inductive Label where
  | register (w : Str) (capacity : Option ℤ) (now : ℚ)
  | heartbeat (w : Str) (now : ℚ)
  | workerFailure (w : Str)
  | completed (src : LoadSystem.Source)
  | failed (src : LoadSystem.Source) (error : Option Json) (now : ℚ)
  | other (o : CoordinatorService.Other)
  | pick (now : Str → ℚ)
  | pop
  | increment
  | publish
  | exit (proc : ℕ)
  | readQueue
  | readAvailable
  | clean
  | decide
  | readLoad
  | scaleDown

/-- One round of the loop over the workers: the dynamic worker has jobs, or the rest is read. -/
def readLoad (registry : WorkerRegistry) (w : Str) (entry : Option ℕ)
    (rest : List (Str × Option ℕ)) : LoopPhase :=
  if IsDynamic w ∧ 0 < ((entry <|> registry.load? w).getD 0) then .sleeping else .scanning rest

/-- Each handler of the coordinator, each part of an assignment and each part of the loop. -/
def step (repr : Json → Str) : Machine ScaleSystem Label
  | .register w capacity now, s =>
    some { s with
      coord := s.coord.handleRegister w capacity now
      loop := s.loop.detach s.coord.registry w }
  | .heartbeat w now, s => some { s with coord := s.coord.handleHeartbeat w now }
  | .workerFailure w, s =>
    some { s with
      coord := s.coord.handleWorkerFailure w
      loop := s.loop.detach s.coord.registry w }
  | .completed src, s =>
    (s.outcome src).map fun r =>
      { s with coord := (s.coord.handleJobCompleted r.1).1, outstanding := r.2.2 }
  | .failed src error now, s =>
    (s.outcome src).map fun r =>
      { s with
        coord := (s.coord.handleTaskFailed r.1 r.2.1 error now).1
        outstanding := r.2.2 }
  | .other o, s => some { s with coord := s.coord.other repr o }
  | .pick now, s =>
    match s.assigner with
    | .idle =>
      let r := pickWorker s.coord.job_queue s.coord.registry s.coord.circuit_breaker_manager now
      some { s with
        coord := { s.coord with circuit_breaker_manager := r.2 }
        assigner := r.1.elim .idle .picked }
    | _ => none
  | .pop, s =>
    match s.assigner with
    | .picked w =>
      let r := s.coord.job_queue.getNextJob
      some { s with
        coord := { s.coord with job_queue := r.2 }
        assigner := r.1.elim .idle fun job => .chosen job w }
    | _ => none
  | .increment, s =>
    match s.assigner with
    | .chosen job w =>
      some { s with
        coord := { s.coord with registry := s.coord.registry.incrementLoad w }
        assigner := .counted job w }
    | _ => none
  | .publish, s =>
    match s.assigner with
    | .counted job w =>
      some { s with assigner := .idle, outstanding := s.outstanding ++ [(w, job)] }
    | _ => none
  | .exit proc, s =>
    some { s with
      scaler := { s.scaler with running := Autoscaler.terminate s.scaler.running proc } }
  | .readQueue, s =>
    match s.loop with
    | .sleeping => some { s with loop := .sized s.coord.job_queue.pq.length }
    | _ => none
  | .readAvailable, s =>
    match s.loop with
    | .sized qsize =>
      some { s with
        loop := .polled qsize s.coord.registry.getAvailableWorkers.length
          s.scaler.active_subprocesses.size }
    | _ => none
  | .clean, s =>
    match s.loop with
    | .polled qsize available active_dynamic =>
      some { s with
        scaler := s.scaler.cleanDeadProcesses
        loop := .cleaned qsize available active_dynamic }
    | _ => none
  | .decide, s =>
    match s.loop with
    | .cleaned qsize available active_dynamic =>
      if 0 < qsize ∧ available = 0 then
        some { s with scaler := s.scaler.scaleUp, loop := .sleeping }
      else if qsize = 0 ∧ 0 < active_dynamic then
        some { s with
          loop := .scanning (s.coord.registry.workers.entries.map fun p => (p.1, none)) }
      else some { s with loop := .sleeping }
    | _ => none
  | .readLoad, s =>
    match s.loop with
    | .scanning ((w, entry) :: rest) =>
      some { s with loop := readLoad s.coord.registry w entry rest }
    | _ => none
  | .scaleDown, s =>
    match s.loop with
    | .scanning [] => some { s with scaler := s.scaler.scaleDown, loop := .sleeping }
    | _ => none

/-- A coordinator that has just started. -/
def start (min_workers max_workers : ℕ) (failure_threshold : ℤ)
    (recovery_timeout heartbeat_timeout : ℚ) (max_retries : ℤ) (store : PostgresStore) :
    ScaleSystem :=
  ⟨.new failure_threshold recovery_timeout heartbeat_timeout max_retries store, .idle, [],
    .new min_workers max_workers, .sleeping⟩

/-- `get_next_job_and_worker` is the choice of the worker, and the next job if there is one. -/
theorem getNextJobAndWorker_eq (queue : JobPriorityQueue) (registry : WorkerRegistry)
    (manager : CircuitBreakerManager) (now : Str → ℚ) :
    let r := getNextJobAndWorker queue registry manager now
    let p := pickWorker queue registry manager now
    r.manager = p.2 ∧ r.queue = p.1.elim queue (fun _ => queue.getNextJob.2) ∧
      r.result = p.1.bind fun w => queue.getNextJob.1.map fun job => (job, w) := by
  unfold getNextJobAndWorker pickWorker
  by_cases hempty : queue.isEmpty = true
  · simp [hempty]
  · simp only [hempty, if_false, Bool.false_eq_true]
    cases chooseWorker (admitAll now manager registry.getAvailableWorkers).2.1 with
    | none => exact ⟨rfl, rfl, rfl⟩
    | some w => by_cases hw : w = [] <;> simp [hw, Option.filter]

/-- **The choice and the job** make one `get_next_job_and_worker`. -/
theorem pick_pop (repr : Json → Str) {s : ScaleSystem} (h : s.assigner = .idle) (now : Str → ℚ) :
    ∃ ls t, ls ≠ [] ∧ ls <+: [.pick now, .pop] ∧ run (step repr) ls s = some t ∧
      let r := getNextJobAndWorker s.coord.job_queue s.coord.registry
        s.coord.circuit_breaker_manager now
      t.coord = { s.coord with job_queue := r.queue, circuit_breaker_manager := r.manager } ∧
        t.assigner = r.result.elim .idle fun p => .chosen p.1 p.2 := by
  obtain ⟨coord, assigner, outstanding, scaler, loop⟩ := s
  subst h
  obtain ⟨hmanager, hqueue, hresult⟩ := getNextJobAndWorker_eq coord.job_queue coord.registry
    coord.circuit_breaker_manager now
  cases hp : (pickWorker coord.job_queue coord.registry coord.circuit_breaker_manager now).1 with
  | none =>
    rw [hp] at hqueue hresult
    refine ⟨[.pick now], _, List.cons_ne_nil _ _, by simp, rfl, ?_, ?_⟩
    · simp [hmanager, hqueue]
    · simp [hresult, hp]
  | some w =>
    rw [hp] at hqueue hresult
    have hpick : step repr (.pick now) ⟨coord, .idle, outstanding, scaler, loop⟩ =
        some ⟨{ coord with circuit_breaker_manager := (pickWorker coord.job_queue coord.registry
          coord.circuit_breaker_manager now).2 }, .picked w, outstanding, scaler, loop⟩ := by
      simp [step, hp]
    refine ⟨[.pick now, .pop],
      ⟨{ coord with
          circuit_breaker_manager := (pickWorker coord.job_queue coord.registry
            coord.circuit_breaker_manager now).2
          job_queue := coord.job_queue.getNextJob.2 },
        coord.job_queue.getNextJob.1.elim .idle fun job => .chosen job w, outstanding, scaler, loop⟩,
      List.cons_ne_nil _ _, List.prefix_rfl, ?_, ?_, ?_⟩
    · rw [run_cons, hpick]
      rfl
    · simp [hmanager, hqueue]
    · simp only [hresult, Option.bind_some]
      cases coord.job_queue.getNextJob.1 <;> rfl

/-! ## The conditions -/

/-- The number of jobs that are assigned to a worker and have no outcome. -/
def owed (s : ScaleSystem) (w : Str) : ℕ := s.outstanding.countP fun a => a.1 = w

/-- A job is chosen for the worker or assigned to it, and has no outcome. -/
def Busy (s : ScaleSystem) (w : Str) : Prop :=
  s.owed w ≠ 0 ∨ s.assigner.Chosen w ∨ s.assigner.Counted w

/-- No job is assigned to the worker or counted on its load. -/
def Free (s : ScaleSystem) (w : Str) : Prop := s.owed w = 0 ∧ ¬ s.assigner.Counted w

/-- An outcome of no assignment comes for a dynamic worker only when it is free. -/
def Expected (s : ScaleSystem) : LoadSystem.Source → Prop
  | .assigned _ => True
  | .stray w _ => IsDynamic w → s.Free w

/-- The conditions on the steps, all about dynamic workers. One registers only when it is free and its
load is not still to be read from the copy; one is evicted only when it is not busy and no job is about
to be taken for it; the outcomes are of assignments; a job is taken for one only when the loop has not
read its load, and its load is not read between the job and the increment. -/
def Calm (s : ScaleSystem) : Label → Prop
  | .register w _ _ => IsDynamic w → s.Free w ∧ ¬ s.loop.Awaits w
  | .workerFailure w => IsDynamic w → ¬ s.Busy w ∧ ¬ s.assigner.Picked w
  | .completed src => s.Expected src
  | .failed src _ _ => s.Expected src
  | .pop => ∀ w ∈ s.assigner.picked?, IsDynamic w → ¬ s.loop.Passed w
  | .readLoad => ∀ p ∈ s.loop.pending.head?, IsDynamic p.1 → ¬ s.assigner.Chosen p.1
  | _ => True

/-- If `scale_down` comes next, it stops no busy worker. -/
def StopsIdle (s : ScaleSystem) : Prop :=
  s.loop = .scanning [] → ∀ w, s.scaler.stoppedId = some w → ¬ s.Busy w

section Decidable

variable (s : ScaleSystem)

instance (w : Str) : Decidable (s.Busy w) := inferInstanceAs (Decidable (_ ∨ _ ∨ _))

instance (w : Str) : Decidable (s.Free w) := inferInstanceAs (Decidable (_ ∧ _))

instance : (src : LoadSystem.Source) → Decidable (s.Expected src)
  | .assigned _ => isTrue trivial
  | .stray w _ => inferInstanceAs (Decidable (IsDynamic w → s.Free w))

instance : (l : Label) → Decidable (s.Calm l)
  | .register w _ _ => inferInstanceAs (Decidable (IsDynamic w → s.Free w ∧ ¬ s.loop.Awaits w))
  | .workerFailure w =>
    inferInstanceAs (Decidable (IsDynamic w → ¬ s.Busy w ∧ ¬ s.assigner.Picked w))
  | .completed src => inferInstanceAs (Decidable (s.Expected src))
  | .failed src _ _ => inferInstanceAs (Decidable (s.Expected src))
  | .pop => inferInstanceAs (Decidable (∀ w ∈ s.assigner.picked?, IsDynamic w → ¬ s.loop.Passed w))
  | .readLoad =>
    inferInstanceAs (Decidable (∀ p ∈ s.loop.pending.head?, IsDynamic p.1 → ¬ s.assigner.Chosen p.1))
  | .heartbeat _ _ | .other _ | .pick _ | .increment | .publish | .exit _ | .readQueue
  | .readAvailable | .clean | .decide | .scaleDown => isTrue trivial

end Decidable

/-- One for a counted assignment. -/
def credit (s : ScaleSystem) (w : Str) : ℕ := if s.assigner.Counted w then 1 else 0

/-- What the conditions keep: the load of a dynamic worker covers its jobs, one that is absent or that
the loop is past has none, and an entry that the loop has kept is of an absent one. -/
structure Watched (s : ScaleSystem) : Prop where
  load : ∀ w n, IsDynamic w → s.coord.registry.load? w = some n → s.owed w + s.credit w ≤ n
  absent : ∀ w, IsDynamic w → w ∉ s.coord.registry → ¬ s.Busy w ∧ ¬ s.assigner.Picked w
  passed : ∀ w, IsDynamic w → s.loop.Passed w → ¬ s.Busy w
  kept : ∀ w n, IsDynamic w → (w, some n) ∈ s.loop.pending → w ∉ s.coord.registry
  dynamic : ∀ w ∈ s.scaler.active_subprocesses, IsDynamic w

section Step

variable {s : ScaleSystem} {w : Str}

theorem watched_start (min_workers max_workers : ℕ) (failure_threshold : ℤ)
    (recovery_timeout heartbeat_timeout : ℚ) (max_retries : ℤ) (store : PostgresStore) :
    (start min_workers max_workers failure_threshold recovery_timeout heartbeat_timeout max_retries
      store).Watched where
  load := fun w n _ hn => by cases hn
  absent := fun w _ _ => ⟨by simp [Busy, owed, start, AssignPhase.Chosen, AssignPhase.Counted], id⟩
  passed := fun w _ hp => by cases hp
  kept := fun w n _ hm => by cases hm
  dynamic := fun w hw => absurd hw (PyDict.notMem_empty w)

/-- A coordinator with the same loads. -/
theorem Watched.congr (h : s.Watched) {coord : CoordinatorService}
    (hload : ∀ w', coord.registry.load? w' = s.coord.registry.load? w') :
    Watched { s with coord := coord } := by
  have hmem : ∀ w', w' ∈ coord.registry ↔ w' ∈ s.coord.registry := by
    intro w'
    rw [WorkerRegistry.mem_iff_load?, hload, ← WorkerRegistry.mem_iff_load?]
  refine ⟨fun w' n hw hn => h.load w' n hw (hload w' ▸ hn), fun w' hw hm => ?_, h.passed,
    fun w' n hw hp => ?_, h.dynamic⟩
  · exact h.absent w' hw fun hm' => hm ((hmem w').mpr hm')
  · exact fun hm => h.kept w' n hw hp ((hmem w').mp hm)

/-! ## The handlers -/

theorem awaits_detach (r : WorkerRegistry) (w w' : Str) (phase : LoopPhase) :
    (phase.detach r w).Awaits w' ↔ phase.Awaits w' := by
  cases phase with
  | scanning ps =>
    have hname : ∀ p : Str × Option ℕ,
        (if p.1 = w then (p.1, p.2 <|> r.load? w) else p).1 = p.1 := by
      intro p
      split_ifs <;> rfl
    simp only [LoopPhase.Awaits, LoopPhase.detach, LoopPhase.pending, List.mem_map, exists_exists_and_eq_and,
      hname]
  | _ => rfl

theorem passed_detach (r : WorkerRegistry) (w w' : Str) (phase : LoopPhase) :
    (phase.detach r w).Passed w' ↔ phase.Passed w' := by
  cases phase with
  | scanning ps => exact not_congr (awaits_detach r w w' (.scanning ps))
  | _ => rfl

/-- An entry that is kept is of the worker that has gone, or was kept before. -/
theorem mem_pending_detach {r : WorkerRegistry} {phase : LoopPhase} {w' : Str} {n : ℕ}
    (h : (w', some n) ∈ (phase.detach r w).pending) :
    (w' = w ∧ phase.Awaits w) ∨ (w', some n) ∈ phase.pending := by
  cases phase with
  | scanning ps =>
    simp only [LoopPhase.detach, LoopPhase.pending] at h ⊢
    obtain ⟨p, hp, heq⟩ := List.mem_map.mp h
    split_ifs at heq with hw
    · exact .inl ⟨(congrArg Prod.fst heq).symm.trans hw, p, hp, hw⟩
    · exact .inr (heq ▸ hp)
  | _ => cases h

/-- **A worker comes or goes**, and its entry leaves the registry. If it is there afterwards, it is free
and the loop does not wait for it; if it is not, it has no job. -/
theorem Watched.reload (h : s.Watched) {coord : CoordinatorService}
    (hother : ∀ w', w' ≠ w → coord.registry.load? w' = s.coord.registry.load? w')
    (hthere : IsDynamic w → w ∈ coord.registry → s.Free w ∧ ¬ s.loop.Awaits w)
    (haway : IsDynamic w → w ∉ coord.registry → ¬ s.Busy w ∧ ¬ s.assigner.Picked w) :
    Watched { s with coord := coord, loop := s.loop.detach s.coord.registry w } := by
  have hmem : ∀ w', w' ≠ w → (w' ∈ coord.registry ↔ w' ∈ s.coord.registry) := by
    intro w' hne
    rw [WorkerRegistry.mem_iff_load?, hother w' hne, ← WorkerRegistry.mem_iff_load?]
  refine ⟨fun w' n hw' hn => ?_, fun w' hw' hm => ?_,
    fun w' hw' hp => h.passed w' hw' ((passed_detach _ _ _ _).mp hp), fun w' n hw' hp hm => ?_,
    h.dynamic⟩
  · by_cases heq : w' = w
    · subst heq
      obtain ⟨howed, hcount⟩ := (hthere hw' (WorkerRegistry.mem_iff_load?.mpr ⟨n, hn⟩)).1
      have hcredit : s.credit w' = 0 := if_neg hcount
      have hzero : s.owed w' + s.credit w' = 0 := by omega
      exact hzero.trans_le (Nat.zero_le n)
    · exact h.load w' n hw' (hother w' heq ▸ hn)
  · by_cases heq : w' = w
    · subst heq
      exact haway hw' hm
    · exact h.absent w' hw' fun hm' => hm ((hmem w' heq).mpr hm')
  · by_cases heq : w' = w
    · subst heq
      have hawaits : s.loop.Awaits w' := by
        rcases mem_pending_detach hp with ⟨-, hin⟩ | hold
        · exact hin
        · exact ⟨_, hold, rfl⟩
      exact (hthere hw' hm).2 hawaits
    · rcases mem_pending_detach hp with ⟨heq', -⟩ | hold
      · exact heq heq'
      · exact h.kept w' n hw' hold ((hmem w' heq).mp hm)

/-- A registration: the load starts at nought, and so do the worker's jobs. -/
theorem Watched.register (h : s.Watched) {capacity : Option ℤ} {now : ℚ}
    (hc : s.Calm (.register w capacity now)) :
    Watched { s with
      coord := s.coord.handleRegister w capacity now
      loop := s.loop.detach s.coord.registry w } := by
  refine h.reload (fun w' hne => ?_) (fun hw _ => hc hw) fun hw hm => absurd ?_ hm
  · unfold CoordinatorService.handleRegister
    split_ifs
    · rfl
    · exact (WorkerRegistry.load?_registerWorker _ _).trans (if_neg hne)
  · unfold CoordinatorService.handleRegister
    rw [if_neg hw.ne_nil]
    exact WorkerRegistry.mem_registerWorker.mpr (.inl rfl)

/-- An eviction of a worker without jobs. -/
theorem Watched.evict (h : s.Watched) (hc : s.Calm (.workerFailure w)) :
    Watched { s with
      coord := s.coord.handleWorkerFailure w
      loop := s.loop.detach s.coord.registry w } := by
  refine h.reload (fun w' hne => ?_) (fun hw hm => absurd hm ?_) fun hw _ => hc hw
  · unfold CoordinatorService.handleWorkerFailure
    split_ifs
    · rfl
    · exact WorkerRegistry.load?_removeWorker.trans (if_neg hne)
  · unfold CoordinatorService.handleWorkerFailure
    rw [if_neg hw.ne_nil]
    exact fun hm => (WorkerRegistry.mem_removeWorker.mp hm).1 rfl

/-- The assignments without the `i`-th. -/
theorem owed_eraseIdx {i : ℕ} {a : Str × Job} (ha : s.outstanding[i]? = some a) (w : Str) :
    s.owed w = { s with outstanding := s.outstanding.eraseIdx i }.owed w +
      if a.1 = w then 1 else 0 := by
  obtain ⟨hi, rfl⟩ := List.getElem?_eq_some_iff.mp ha
  have hperm := (List.getElem_cons_eraseIdx_perm hi).symm
  unfold owed
  rw [hperm.countP_eq, List.countP_cons]
  simp only [decide_eq_true_eq]

/-- **An outcome** takes one job from its worker and one from the load, or the worker has none. -/
theorem owed_outcome {src : LoadSystem.Source} {job : Job} {rest : List (Str × Job)}
    (hr : s.outcome src = some (w, job, rest)) (hc : s.Expected src) {w' : Str} (hw' : IsDynamic w') :
    { s with outstanding := rest }.owed w' ≤ s.owed w' ∧ (w' = w →
      { s with outstanding := rest }.owed w' + 1 ≤ s.owed w' ∨ s.Free w') := by
  cases src with
  | stray v job' =>
    simp only [outcome, Option.some.injEq, Prod.mk.injEq] at hr
    obtain ⟨rfl, -, rfl⟩ := hr
    exact ⟨le_rfl, fun heq => .inr (heq ▸ hc (heq ▸ hw'))⟩
  | assigned i =>
    obtain ⟨a, ha, hr⟩ := Option.map_eq_some_iff.mp hr
    simp only [Prod.mk.injEq] at hr
    obtain ⟨rfl, -, rfl⟩ := hr
    have howed := owed_eraseIdx ha w'
    refine ⟨by omega, fun heq => .inl ?_⟩
    rw [if_pos heq.symm] at howed
    omega

theorem busy_of_owed_le {rest : List (Str × Job)} {coord : CoordinatorService} {w' : Str}
    (hle : { s with outstanding := rest }.owed w' ≤ s.owed w')
    (hb : Busy { s with coord := coord, outstanding := rest } w') : s.Busy w' := by
  rcases hb with hb | hb
  · exact .inl fun hz => hb (Nat.le_zero.mp (hz ▸ hle))
  · exact .inr hb

theorem Watched.outcome (h : s.Watched) {src : LoadSystem.Source} (hc : s.Expected src) {job : Job}
    {rest : List (Str × Job)} (hr : s.outcome src = some (w, job, rest)) {coord : CoordinatorService}
    (hload : ∀ w', IsDynamic w' →
      coord.registry.load? w' = (s.coord.registry.decrementLoad w).load? w') :
    Watched { s with coord := coord, outstanding := rest } := by
  have hmem : ∀ w', IsDynamic w' → (w' ∈ coord.registry ↔ w' ∈ s.coord.registry) := by
    intro w' hw'
    rw [WorkerRegistry.mem_iff_load?, hload w' hw', ← WorkerRegistry.mem_iff_load?,
      WorkerRegistry.mem_decrementLoad]
  refine ⟨fun w' n hw' hn => ?_, fun w' hw' hm => ?_, fun w' hw' hp hb => ?_, fun w' n hw' hp hm => ?_,
    h.dynamic⟩
  · obtain ⟨hle, hone⟩ := owed_outcome hr hc hw'
    rw [hload w' hw', WorkerRegistry.load?_decrementLoad] at hn
    change { s with outstanding := rest }.owed w' + s.credit w' ≤ n
    split_ifs at hn with heq
    · subst heq
      obtain ⟨m, hm, rfl⟩ := Option.map_eq_some_iff.mp hn
      have hcover := h.load w' m hw' hm
      rcases hone rfl with hone | ⟨hzero, hcount⟩
      · omega
      · have hcredit : s.credit w' = 0 := if_neg hcount
        omega
    · have hcover := h.load w' n hw' hn
      omega
  · obtain ⟨hbusy, hpicked⟩ := h.absent w' hw' fun hm' => hm ((hmem w' hw').mpr hm')
    exact ⟨fun hb => hbusy (busy_of_owed_le (owed_outcome hr hc hw').1 hb), hpicked⟩
  · exact h.passed w' hw' hp (busy_of_owed_le (owed_outcome hr hc hw').1 hb)
  · exact h.kept w' n hw' hp ((hmem w' hw').mp hm)

theorem load?_handleJobCompleted (c : CoordinatorService) (w : Str) {w' : Str} (hw' : IsDynamic w') :
    (c.handleJobCompleted w).1.registry.load? w' = (c.registry.decrementLoad w).load? w' := by
  by_cases hnil : w = []
  · rw [WorkerRegistry.load?_decrementLoad, if_neg fun heq => hw'.ne_nil (heq.trans hnil)]
    unfold CoordinatorService.handleJobCompleted
    rw [if_pos hnil]
  · rw [CoordinatorService.registry_handleJobCompleted hnil]

theorem load?_handleTaskFailed (c : CoordinatorService) (w : Str) (job : Job) (error : Option Json)
    (now : ℚ) {w' : Str} (hw' : IsDynamic w') :
    (c.handleTaskFailed w job error now).1.registry.load? w' =
      (c.registry.decrementLoad w).load? w' := by
  by_cases hnil : w = []
  · rw [WorkerRegistry.load?_decrementLoad, if_neg fun heq => hw'.ne_nil (heq.trans hnil)]
    unfold CoordinatorService.handleTaskFailed
    rw [if_pos hnil, CoordinatorService.registry_retryTask]
  · rw [CoordinatorService.registry_handleTaskFailed hnil]

/-! ## The assigner -/

/-- A worker that is chosen is registered. -/
theorem mem_of_pickWorker {queue : JobPriorityQueue} {registry : WorkerRegistry}
    {manager : CircuitBreakerManager} {now : Str → ℚ}
    (h : (pickWorker queue registry manager now).1 = some w) : w ∈ registry := by
  unfold pickWorker at h
  split_ifs at h
  have hchoose := (Option.filter_eq_some_iff.mp h).1
  obtain ⟨data, hdata⟩ := ((chooseWorker_admitAll registry manager now w).mp hchoose).mem
  exact (WorkerRegistry.mem_getAvailableWorkers (List.mem_filter.mp hdata).1).1

theorem Watched.pick (h : s.Watched) (hidle : s.assigner = .idle) {manager : CircuitBreakerManager}
    {picked : Option Str} (hpicked : ∀ w, picked = some w → w ∈ s.coord.registry) :
    Watched { s with
      coord := { s.coord with circuit_breaker_manager := manager }
      assigner := picked.elim .idle .picked } := by
  obtain ⟨coord, assigner, outstanding, scaler, loop⟩ := s
  subst hidle
  cases picked with
  | none => exact h.congr fun _ => rfl
  | some v =>
    refine ⟨h.load, fun w' hw' hm => ⟨(h.absent w' hw' hm).1, fun hv => ?_⟩, h.passed, h.kept, h.dynamic⟩
    exact hm (hv ▸ hpicked v rfl)

theorem Watched.pop (h : s.Watched) (hpicked : s.assigner = .picked w) (hc : s.Calm .pop)
    (queue : JobPriorityQueue) (next : Option Job) :
    Watched { s with
      coord := { s.coord with job_queue := queue }
      assigner := next.elim .idle fun job => .chosen job w } := by
  obtain ⟨coord, assigner, outstanding, scaler, loop⟩ := s
  subst hpicked
  cases next with
  | none =>
    exact ⟨h.load, fun w' hw' hm => ⟨(h.absent w' hw' hm).1, id⟩, h.passed, h.kept, h.dynamic⟩
  | some job =>
    have hbusy : ∀ w', w' ≠ w → Busy ⟨{ coord with job_queue := queue }, .chosen job w, outstanding,
        scaler, loop⟩ w' → Busy ⟨coord, .picked w, outstanding, scaler, loop⟩ w' := by
      rintro w' hne (hb | hb | hb)
      · exact .inl hb
      · exact absurd hb.symm hne
      · exact .inr (.inr hb)
    refine ⟨h.load, fun w' hw' hm => ⟨fun hb => ?_, id⟩, fun w' hw' hp hb => ?_, h.kept, h.dynamic⟩
    · by_cases heq : w' = w
      · exact (h.absent w' hw' hm).2 heq.symm
      · exact (h.absent w' hw' hm).1 (hbusy w' heq hb)
    · by_cases heq : w' = w
      · exact hc w' (congrArg some heq.symm) hw' hp
      · exact h.passed w' hw' hp (hbusy w' heq hb)

theorem Watched.increment {job : Job} (h : s.Watched) (hchosen : s.assigner = .chosen job w) :
    Watched { s with
      coord := { s.coord with registry := s.coord.registry.incrementLoad w }
      assigner := .counted job w } := by
  obtain ⟨coord, assigner, outstanding, scaler, loop⟩ := s
  subst hchosen
  have hbusy : ∀ w', Busy ⟨{ coord with registry := coord.registry.incrementLoad w },
      .counted job w, outstanding, scaler, loop⟩ w' →
      Busy ⟨coord, .chosen job w, outstanding, scaler, loop⟩ w' := by
    rintro w' (hb | hb | hb)
    · exact .inl hb
    · exact absurd hb id
    · exact .inr (.inl hb)
  refine ⟨fun w' n hw' hn => ?_, fun w' hw' hm => ?_,
    fun w' hw' hp hb => h.passed w' hw' hp (hbusy w' hb),
    fun w' n hw' hp hm => h.kept w' n hw' hp (WorkerRegistry.mem_incrementLoad.mp hm), h.dynamic⟩
  · dsimp only at hn
    rw [WorkerRegistry.load?_incrementLoad] at hn
    split_ifs at hn with heq
    · subst heq
      obtain ⟨m, hm, rfl⟩ := Option.map_eq_some_iff.mp hn
      have hcover := h.load w' m hw' hm
      have hzero : credit ⟨coord, .chosen job w', outstanding, scaler, loop⟩ w' = 0 := if_neg id
      have hone : credit ⟨{ coord with registry := coord.registry.incrementLoad w' },
        .counted job w', outstanding, scaler, loop⟩ w' = 1 := if_pos rfl
      rw [hzero] at hcover
      rw [hone]
      exact Nat.succ_le_succ hcover
    · have hcover := h.load w' n hw' hn
      have hzero : credit ⟨coord, .chosen job w, outstanding, scaler, loop⟩ w' = 0 := if_neg id
      have hzero' : credit ⟨{ coord with registry := coord.registry.incrementLoad w },
        .counted job w, outstanding, scaler, loop⟩ w' = 0 := if_neg fun hv => heq hv.symm
      rw [hzero] at hcover
      rw [hzero']
      exact hcover
  · obtain ⟨hb, -⟩ := h.absent w' hw' fun hm' => hm (WorkerRegistry.mem_incrementLoad.mpr hm')
    exact ⟨fun hb' => hb (hbusy w' hb'), id⟩

theorem Watched.publish {job : Job} (h : s.Watched) (hcounted : s.assigner = .counted job w) :
    Watched { s with assigner := .idle, outstanding := s.outstanding ++ [(w, job)] } := by
  obtain ⟨coord, assigner, outstanding, scaler, loop⟩ := s
  subst hcounted
  have howed : ∀ w', owed ⟨coord, .idle, outstanding ++ [(w, job)], scaler, loop⟩ w' =
      owed ⟨coord, .counted job w, outstanding, scaler, loop⟩ w' +
        credit ⟨coord, .counted job w, outstanding, scaler, loop⟩ w' := by
    intro w'
    simp only [owed, credit, List.countP_append, List.countP_singleton, decide_eq_true_eq]
    rfl
  have hbusy : ∀ w', Busy ⟨coord, .idle, outstanding ++ [(w, job)], scaler, loop⟩ w' →
      Busy ⟨coord, .counted job w, outstanding, scaler, loop⟩ w' := by
    rintro w' (hb | hb | hb)
    · by_cases hv : w = w'
      · exact .inr (.inr hv)
      · refine .inl fun hz => hb ?_
        rw [howed, hz, Nat.zero_add]
        exact if_neg hv
    · exact absurd hb id
    · exact absurd hb id
  refine ⟨fun w' n hw' hn => ?_, fun w' hw' hm => ⟨fun hb => (h.absent w' hw' hm).1 (hbusy w' hb), id⟩,
    fun w' hw' hp hb => h.passed w' hw' hp (hbusy w' hb), h.kept, h.dynamic⟩
  have hcredit : credit ⟨coord, .idle, outstanding ++ [(w, job)], scaler, loop⟩ w' = 0 := if_neg id
  rw [howed, hcredit]
  exact h.load w' n hw' hn

/-! ## The autoscaler and its loop -/

theorem isDynamic_dynamicId (n : ℕ) : IsDynamic (Autoscaler.dynamicId n) := List.prefix_append _ _

theorem mem_cleanDeadProcesses {a : Autoscaler}
    (h : w ∈ a.cleanDeadProcesses.active_subprocesses) : w ∈ a.active_subprocesses := by
  obtain ⟨n, hn⟩ := PyDict.mem_iff_get?.mp h
  exact PyDict.mem_of_get? (Autoscaler.tracked_of_cleaned hn).1

theorem isDynamic_scaleUp {a : Autoscaler} (h : ∀ w ∈ a.active_subprocesses, IsDynamic w) :
    ∀ w ∈ a.scaleUp.active_subprocesses, IsDynamic w := by
  have hclean := fun w hw => h w (@mem_cleanDeadProcesses w a hw)
  unfold Autoscaler.scaleUp
  dsimp only
  split_ifs
  · exact hclean
  · intro w hw
    rcases PyDict.mem_set.mp hw with rfl | hw
    · exact isDynamic_dynamicId _
    · exact hclean w hw

theorem mem_scaleDown {a : Autoscaler} (h : w ∈ a.scaleDown.active_subprocesses) :
    w ∈ a.active_subprocesses := by
  refine mem_cleanDeadProcesses ?_
  unfold Autoscaler.scaleDown at h
  dsimp only at h
  split_ifs at h
  · exact h
  · split at h
    · exact (PyDict.mem_erase.mp h).2
    · exact h

/-- The worker that is stopped is one that was started. -/
theorem mem_of_stoppedId {a : Autoscaler} (h : a.stoppedId = some w) : w ∈ a.active_subprocesses := by
  unfold Autoscaler.stoppedId at h
  dsimp only at h
  split_ifs at h
  obtain ⟨p, hp, rfl⟩ := Option.map_eq_some_iff.mp h
  exact mem_cleanDeadProcesses (PyDict.mem_of_mem_entries (List.mem_of_getLast? hp))

/-- **What `scale_down` stops**: the process of that worker, and nothing else. -/
theorem scaleDown_eq (a : Autoscaler) : a.scaleDown = match a.stoppedId with
    | some w => { a.cleanDeadProcesses with
        active_subprocesses := a.cleanDeadProcesses.active_subprocesses.erase w
        running := Autoscaler.terminate a.running
          ((a.cleanDeadProcesses.active_subprocesses.get? w).getD 0) }
    | none => a.cleanDeadProcesses := by
  have hrunning : a.cleanDeadProcesses.running = a.running := rfl
  unfold Autoscaler.scaleDown Autoscaler.stoppedId
  dsimp only
  split_ifs
  · rfl
  · cases hlast : a.cleanDeadProcesses.active_subprocesses.entries.getLast? with
    | none => rfl
    | some p =>
      have hget := PyDict.mem_entries_iff.mp (List.mem_of_getLast? hlast)
      simp only [Option.map_some, hget, Option.getD_some, hrunning]

/-- Other processes, all dynamic, and the loop not reading loads. -/
theorem Watched.settle (h : s.Watched) {scaler : Autoscaler} {loop : LoopPhase}
    (hscaler : ∀ w ∈ scaler.active_subprocesses, IsDynamic w) (hpassed : ∀ w, ¬ loop.Passed w)
    (hpending : loop.pending = []) : Watched { s with scaler := scaler, loop := loop } :=
  ⟨h.load, h.absent, fun w _ hp => absurd hp (hpassed w),
    fun _ _ _ hm => absurd (hpending ▸ hm) List.not_mem_nil, hscaler⟩

/-- `get_all_workers`: the loop is past the workers that are absent. -/
theorem Watched.readWorkers (h : s.Watched) : Watched { s with
    loop := .scanning (s.coord.registry.workers.entries.map fun p => (p.1, none)) } := by
  refine ⟨h.load, h.absent, fun w hw hp => (h.absent w hw fun hm => hp ?_).1, fun w n _ hm => ?_,
    h.dynamic⟩
  · obtain ⟨data, hdata⟩ := PyDict.mem_iff_get?.mp hm
    exact ⟨(w, none), List.mem_map.mpr ⟨(w, data), PyDict.mem_entries_iff.mpr hdata, rfl⟩, rfl⟩
  · obtain ⟨p, -, heq⟩ := List.mem_map.mp hm
    cases heq

/-- **A load of nought** of a dynamic worker: it has no job, unless one is chosen and not counted. -/
theorem Watched.not_busy (h : s.Watched) (hw : IsDynamic w) {entry : Option ℕ}
    (hentry : ∀ n, entry = some n → w ∉ s.coord.registry)
    (hload : (entry <|> s.coord.registry.load? w).getD 0 = 0) (hchosen : ¬ s.assigner.Chosen w) :
    ¬ s.Busy w := by
  by_cases hm : w ∈ s.coord.registry
  · cases entry with
    | some n => exact absurd hm (hentry n rfl)
    | none =>
      obtain ⟨n, hn⟩ := WorkerRegistry.mem_iff_load?.mp hm
      have hcover := h.load w n hw hn
      have hzero : n = 0 := by
        rw [hn] at hload
        exact hload
      rintro (hb | hb | hb)
      · omega
      · exact hchosen hb
      · have hcredit : s.credit w = 1 := if_pos hb
        omega
  · exact (h.absent w hw hm).1

theorem Watched.readLoad (h : s.Watched) {entry : Option ℕ} {rest : List (Str × Option ℕ)}
    (hloop : s.loop = .scanning ((w, entry) :: rest)) (hc : s.Calm .readLoad) :
    Watched { s with loop := readLoad s.coord.registry w entry rest } := by
  obtain ⟨coord, assigner, outstanding, scaler, loop⟩ := s
  subst hloop
  unfold ScaleSystem.readLoad
  split_ifs with hload
  · exact h.settle h.dynamic (fun _ => id) rfl
  · refine ⟨h.load, h.absent, fun w' hw' hp hb => ?_,
      fun w' n hw' hm => h.kept w' n hw' (List.mem_cons_of_mem _ hm), h.dynamic⟩
    by_cases heq : w' = w
    · subst heq
      refine h.not_busy hw' (fun n hn => h.kept w' n hw' (hn ▸ List.mem_cons_self)) ?_
        (hc (w', entry) rfl hw') hb
      exact Nat.eq_zero_of_not_pos fun hpos => hload ⟨hw', hpos⟩
    · refine h.passed w' hw' (fun hm => ?_) hb
      obtain ⟨p, hm, rfl⟩ := hm
      rcases List.mem_cons.mp hm with rfl | hm
      · exact heq rfl
      · exact hp ⟨p, hm, rfl⟩

/-- **Every step that meets the conditions** keeps what they keep. -/
theorem watched_step (repr : Json → Str) (l : Label) (s s' : ScaleSystem) (h : s.Watched)
    (hc : s.Calm l) (hs : step repr l s = some s') : s'.Watched := by
  cases l with
  | register w capacity now => exact Option.some.inj hs ▸ h.register hc
  | heartbeat w now =>
    refine Option.some.inj hs ▸ h.congr fun w' => ?_
    unfold CoordinatorService.handleHeartbeat
    split_ifs
    · rfl
    · exact WorkerRegistry.load?_updateHeartbeat now
  | workerFailure w => exact Option.some.inj hs ▸ h.evict hc
  | completed src =>
    simp only [step] at hs
    obtain ⟨⟨w, job, rest⟩, hr, rfl⟩ := Option.map_eq_some_iff.mp hs
    exact h.outcome hc hr fun w' hw' => load?_handleJobCompleted s.coord w hw'
  | failed src error now =>
    simp only [step] at hs
    obtain ⟨⟨w, job, rest⟩, hr, rfl⟩ := Option.map_eq_some_iff.mp hs
    exact h.outcome hc hr fun w' hw' => load?_handleTaskFailed s.coord w job error now hw'
  | other o =>
    refine Option.some.inj hs ▸ h.congr fun w' => ?_
    rw [CoordinatorService.registry_other]
  | pick now =>
    simp only [step] at hs
    split at hs
    · next hidle => exact Option.some.inj hs ▸ h.pick hidle fun w hw => mem_of_pickWorker hw
    · cases hs
  | pop =>
    simp only [step] at hs
    split at hs
    · next w hpicked => exact Option.some.inj hs ▸ h.pop hpicked hc _ _
    · cases hs
  | increment =>
    simp only [step] at hs
    split at hs
    · next job w hchosen => exact Option.some.inj hs ▸ h.increment hchosen
    · cases hs
  | publish =>
    simp only [step] at hs
    split at hs
    · next job w hcounted => exact Option.some.inj hs ▸ h.publish hcounted
    · cases hs
  | exit proc => exact Option.some.inj hs ▸ ⟨h.load, h.absent, h.passed, h.kept, h.dynamic⟩
  | readQueue =>
    simp only [step] at hs
    split at hs
    · exact Option.some.inj hs ▸ h.settle h.dynamic (fun _ => id) rfl
    · cases hs
  | readAvailable =>
    simp only [step] at hs
    split at hs
    · exact Option.some.inj hs ▸ h.settle h.dynamic (fun _ => id) rfl
    · cases hs
  | clean =>
    simp only [step] at hs
    split at hs
    · exact Option.some.inj hs ▸
        h.settle (fun w hw => h.dynamic w (mem_cleanDeadProcesses hw)) (fun _ => id) rfl
    · cases hs
  | decide =>
    simp only [step] at hs
    split at hs
    · split_ifs at hs
      · exact Option.some.inj hs ▸ h.settle (isDynamic_scaleUp h.dynamic) (fun _ => id) rfl
      · exact Option.some.inj hs ▸ h.readWorkers
      · exact Option.some.inj hs ▸ h.settle h.dynamic (fun _ => id) rfl
    · cases hs
  | readLoad =>
    simp only [step] at hs
    split at hs
    · next w entry rest hloop => exact Option.some.inj hs ▸ h.readLoad hloop hc
    · cases hs
  | scaleDown =>
    simp only [step] at hs
    split at hs
    · exact Option.some.inj hs ▸
        h.settle (fun w hw => h.dynamic w (mem_scaleDown hw)) (fun _ => id) rfl
    · cases hs

theorem Watched.stopsIdle (h : s.Watched) : s.StopsIdle := by
  intro hloop w hw
  refine h.passed w (h.dynamic w (mem_of_stoppedId hw)) ?_
  rw [hloop]
  rintro ⟨p, hp, -⟩
  cases hp

end Step

/-! ## The runs -/

/-- **Scaling down stops no busy worker** in a run whose steps meet the conditions: in every state of
the run, the worker that `scale_down` would stop next has no job chosen for it or assigned to it whose
outcome is outstanding. -/
theorem stopsIdle_of_calm (repr : Json → Str) {min_workers max_workers : ℕ} {failure_threshold : ℤ}
    {recovery_timeout heartbeat_timeout : ℚ} {max_retries : ℤ} {store : PostgresStore}
    {ls : List Label}
    (hg : Guarded (step repr) Calm ls (start min_workers max_workers failure_threshold
      recovery_timeout heartbeat_timeout max_retries store)) {done : List Label} (hdone : done <+: ls)
    {t : ScaleSystem} (hr : run (step repr) done (start min_workers max_workers failure_threshold
      recovery_timeout heartbeat_timeout max_retries store) = some t) : t.StopsIdle := by
  obtain ⟨rest, rfl⟩ := hdone
  have hwatched : t.Watched :=
    run_invariant (watched_step repr) (watched_start _ _ _ _ _ _ _) (guarded_append.mp hg).1 hr
  exact hwatched.stopsIdle

/-- The default settings, on an empty database. -/
def emptyScale : ScaleSystem := start 0 5 3 5 10 3 ⟨true, true, ∅, ∅⟩

/-- A job waits without workers, a dynamic worker is started and registers, and the job is taken for
it. -/
def scaledUp : List Label :=
  [.other (.jobSubmitted (TaskRepository.rebuiltJob ['1'] "ok".toList "LOW".toList)),
    .readQueue, .readAvailable, .clean, .decide, .register (Autoscaler.dynamicId 1) none 0,
    .pick fun _ => 0, .pop]

/-- One round of the loop up to `scale_down`, with one worker. -/
def idleRound : List Label := [.readQueue, .readAvailable, .clean, .decide, .readLoad]

/-- The job is done before the loop reads the load. -/
def calmRun : List Label := scaledUp ++ [.increment, .publish, .completed (.assigned 0)] ++ idleRound

theorem stopsIdle_of_calm_calmRun : ∃ t, run (step fun _ => []) calmRun emptyScale = some t ∧
    t.loop = .scanning [] ∧ t.scaler.stoppedId = some (Autoscaler.dynamicId 1) ∧ t.StopsIdle := by
  have h : (run (step fun _ => []) calmRun emptyScale).map (fun t =>
      decide (t.loop = .scanning [] ∧ t.scaler.stoppedId = some (Autoscaler.dynamicId 1))) =
      some true := by decide +kernel
  obtain ⟨t, hr, ht⟩ := Option.map_eq_some_iff.mp h
  have hg : Guarded (step fun _ => []) Calm calmRun emptyScale := by decide +kernel
  exact ⟨t, hr, (of_decide_eq_true ht).1, (of_decide_eq_true ht).2,
    stopsIdle_of_calm _ hg List.prefix_rfl hr⟩

/-- **The loop can read the load between the job and the increment**: then `scale_down` stops the
worker that the job is chosen for. -/
theorem not_stopsIdle_scaledUp : ¬ ∀ (ls : List Label) (t : ScaleSystem),
    run (step fun _ => []) ls emptyScale = some t → t.StopsIdle := by
  intro hall
  have h : (run (step fun _ => []) (scaledUp ++ idleRound) emptyScale).map (fun t =>
      decide (t.loop = .scanning [] ∧ t.scaler.stoppedId = some (Autoscaler.dynamicId 1) ∧
        t.Busy (Autoscaler.dynamicId 1))) = some true := by decide +kernel
  obtain ⟨t, hr, ht⟩ := Option.map_eq_some_iff.mp h
  obtain ⟨hloop, hstops, hbusy⟩ := of_decide_eq_true ht
  exact hall _ t hr hloop _ hstops hbusy

end ScaleSystem

end JobSystem
