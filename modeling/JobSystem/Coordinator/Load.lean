import JobSystem.Lib.Trans
import JobSystem.Coordinator.Service

/-!
# The load counter

The handlers in any order on any events, with an assignment in its three parts: the choice,
`increment_load` and the publication of `TASK_ASSIGNED`. `outstanding` records the assignments whose
outcome has not been handled, and `lives` how often each worker came into the registry, so that an
assignment is of the worker's present registration when it has the present number.

* `LoadSystem`, `step`; `assign_eq`: the three parts make one round of `_assign_loop`;
* `NeverUnder`: no load is below the number of the worker's assignments;
* `Guard`, `Balanced`, `balanced_step`: registrations and outcomes that keep every load exact;
* `load_covers`: guarded runs, and every step that breaks the guard.
-/

namespace JobSystem

open PyText Trans
open PyJson (Json)

namespace CoordinatorService

/-- The handlers that leave the registry alone. -/
inductive Other where
  | jobSubmitted (job : Job)
  | workerFailed (worker_id : Str)
  | persistWorker (worker_id : Str) (capacity : Option ℤ) (now : ℚ)
  | persistTask (job : Job)
  | persistTaskAssigned (worker_id : Str) (job : Job)
  | persistTaskCompleted (job : Job) (result : Option Json)

/-- One of them. -/
def other (repr : Json → Str) (c : CoordinatorService) : Other → CoordinatorService
  | .jobSubmitted job => c.handleJobSubmitted job
  | .workerFailed w => c.handleWorkerFailed w
  | .persistWorker w capacity now => c.persistWorker w capacity now
  | .persistTask job => c.persistTask repr job
  | .persistTaskAssigned w job => c.persistTaskAssigned w job
  | .persistTaskCompleted job result => c.persistTaskCompleted job result

@[simp] theorem registry_other (repr : Json → Str) (c : CoordinatorService) (o : Other) :
    (c.other repr o).registry = c.registry := by
  cases o with
  | workerFailed w => exact registry_handleWorkerFailed w
  | _ => rfl

end CoordinatorService

/-- A job given to a worker, with the number of the worker's registration. -/
structure GivenJob where
  worker : Str
  job : Job
  life : ℕ

/-- An assignment that is half done: the worker is chosen, or its load has been incremented too. -/
inductive HalfDone where
  | chosen (job : Job) (w : Str)
  | counted (job : Job) (w : Str)

/-- The coordinator, the half-done assignment, the assignments without an outcome yet, and how often
each worker came into the registry. -/
structure LoadSystem where
  coord : CoordinatorService
  half : Option HalfDone
  outstanding : List GivenJob
  lives : Str → ℕ

namespace LoadSystem

/-- The assignment that an outcome is of, or the worker and the job that an outcome of none names. -/
inductive Source where
  | assigned (i : ℕ)
  | stray (w : Str) (job : Job)

/-- The steps. -/
inductive Label where
  | register (w : Str) (capacity : Option ℤ) (now : ℚ)
  | heartbeat (w : Str) (now : ℚ)
  | workerFailure (w : Str)
  | completed (src : Source)
  | failed (src : Source) (error : Option Json) (now : ℚ)
  | other (o : CoordinatorService.Other)
  | choose (now : Str → ℚ)
  | increment
  | publish

/-- The worker and the job of an outcome, and the assignments still outstanding after it. -/
def outcome (s : LoadSystem) : Source → Option (Str × Job × List GivenJob)
  | .assigned i => s.outstanding[i]?.map fun a => (a.worker, a.job, s.outstanding.eraseIdx i)
  | .stray w job => some (w, job, s.outstanding)

/-- Each handler of the coordinator, and each part of an assignment. -/
def step (repr : Json → Str) : Machine LoadSystem Label
  | .register w capacity now, s =>
    some { s with
      coord := s.coord.handleRegister w capacity now
      lives := if w ∈ s.coord.registry then s.lives else Function.update s.lives w (s.lives w + 1) }
  | .heartbeat w now, s => some { s with coord := s.coord.handleHeartbeat w now }
  | .workerFailure w, s => some { s with coord := s.coord.handleWorkerFailure w }
  | .completed src, s =>
    (s.outcome src).map fun r =>
      { s with coord := (s.coord.handleJobCompleted r.1).1, outstanding := r.2.2 }
  | .failed src error now, s =>
    (s.outcome src).map fun r =>
      { s with
        coord := (s.coord.handleTaskFailed r.1 r.2.1 error now).1
        outstanding := r.2.2 }
  | .other o, s => some { s with coord := s.coord.other repr o }
  | .choose now, s =>
    match s.half with
    | none =>
      let r := getNextJobAndWorker s.coord.job_queue s.coord.registry
        s.coord.circuit_breaker_manager now
      some { s with
        coord := { s.coord with job_queue := r.queue, circuit_breaker_manager := r.manager }
        half := r.result.map fun p => .chosen p.1 p.2 }
    | some _ => none
  | .increment, s =>
    match s.half with
    | some (.chosen job w) =>
      some { s with
        coord := { s.coord with registry := s.coord.registry.incrementLoad w }
        half := some (.counted job w) }
    | _ => none
  | .publish, s =>
    match s.half with
    | some (.counted job w) =>
      some { s with half := none, outstanding := s.outstanding ++ [⟨w, job, s.lives w⟩] }
    | _ => none

/-- A coordinator that has just started. -/
def start (failure_threshold : ℤ) (recovery_timeout heartbeat_timeout : ℚ) (max_retries : ℤ)
    (store : PostgresStore) : LoadSystem :=
  ⟨.new failure_threshold recovery_timeout heartbeat_timeout max_retries store, none, [], fun _ => 0⟩

/-- The three parts of an assignment, or the choice alone, make one round of `_assign_loop`. -/
theorem assign_eq (repr : Json → Str) {s : LoadSystem} (h : s.half = none) (now : Str → ℚ) :
    ∃ ls t, ls ≠ [] ∧ ls <+: [.choose now, .increment, .publish] ∧
      run (step repr) ls s = some t ∧ t.half = none ∧ t.coord = (s.coord.assign now).1 := by
  obtain ⟨coord, half, outstanding, lives⟩ := s
  subst h
  unfold CoordinatorService.assign
  cases hr : (getNextJobAndWorker coord.job_queue coord.registry coord.circuit_breaker_manager
      now).result with
  | none =>
    refine ⟨[.choose now], _, List.cons_ne_nil _ _, by simp, rfl, ?_, ?_⟩
    · simp [hr]
    · simp [hr]
  | some p =>
    let r := getNextJobAndWorker coord.job_queue coord.registry coord.circuit_breaker_manager now
    refine ⟨[.choose now, .increment, .publish],
      ⟨{ coord with
          job_queue := r.queue
          circuit_breaker_manager := r.manager
          registry := coord.registry.incrementLoad p.2 },
        none, outstanding ++ [⟨p.2, p.1, lives p.2⟩], lives⟩,
      List.cons_ne_nil _ _, List.prefix_rfl, ?_, rfl, ?_⟩
    · simp [run, step, hr, r]
    · simp [hr, r]

/-! ## What is counted -/

/-- The number of jobs assigned to a worker in its present registration, without an outcome yet. -/
def count (s : LoadSystem) (w : Str) : ℕ :=
  s.outstanding.countP fun a => a.worker = w ∧ a.life = s.lives w

/-- The load counts every job. -/
def NeverUnder (s : LoadSystem) : Prop :=
  ∀ w n, s.coord.registry.load? w = some n → s.count w ≤ n

/-- An assignment to the worker has been counted and not published. -/
def HalfCounted (s : LoadSystem) (w : Str) : Prop := ∃ job, s.half = some (.counted job w)

/-- One for such an assignment. -/
def credit (s : LoadSystem) (w : Str) : ℕ :=
  match s.half with
  | some (.counted _ v) => if v = w then 1 else 0
  | _ => 0

/-- Nothing counts towards the worker's load. -/
def Unused (s : LoadSystem) (w : Str) : Prop := s.count w = 0 ∧ ¬ s.HalfCounted w

/-- An outcome for a registered worker is that of an assignment in its present registration, unless
nothing counts towards its load. -/
def Timely (s : LoadSystem) : Source → Prop
  | .assigned i => ∀ a, s.outstanding[i]? = some a → a.worker ∈ s.coord.registry →
      a.life = s.lives a.worker ∨ s.Unused a.worker
  | .stray w _ => w ∈ s.coord.registry → s.Unused w

/-- A worker registers again only when it has no job, and never between the count and the publication
of an assignment to it; outcomes are timely. -/
def Guard (s : LoadSystem) : Label → Prop
  | .register w _ _ => (w ∈ s.coord.registry → s.count w = 0) ∧ ¬ s.HalfCounted w
  | .completed src => s.Timely src
  | .failed src _ _ => s.Timely src
  | _ => True

/-- Every load is the number of the worker's jobs. -/
structure Balanced (s : LoadSystem) : Prop where
  load : ∀ w n, s.coord.registry.load? w = some n → n = s.count w + s.credit w
  lives : ∀ a ∈ s.outstanding, a.life ≤ s.lives a.worker
  named : ([] : Str) ∉ s.coord.registry

section Step

variable {s : LoadSystem} {w : Str}

theorem credit_eq_zero (h : ¬ s.HalfCounted w) : s.credit w = 0 := by
  unfold credit
  split
  · next job v hv =>
    refine if_neg fun hvw => h ⟨job, ?_⟩
    rw [hv, hvw]
  · rfl

theorem Balanced.neverUnder (h : s.Balanced) : s.NeverUnder := by
  intro w n hn
  have := h.load w n hn
  omega

theorem balanced_start (failure_threshold : ℤ) (recovery_timeout heartbeat_timeout : ℚ)
    (max_retries : ℤ) (store : PostgresStore) :
    (start failure_threshold recovery_timeout heartbeat_timeout max_retries store).Balanced where
  load := fun w n h => by cases h
  lives := fun a ha => by cases ha
  named := WorkerRegistry.notMem_empty []

/-- One more registration of a worker lowers no number. -/
theorem le_update_succ (lives : Str → ℕ) (w w' : Str) :
    lives w' ≤ Function.update lives w (lives w + 1) w' := by
  by_cases h : w' = w
  · subst h
    rw [Function.update_self]
    omega
  · rw [Function.update_of_ne h]

/-- A registration: the load starts again at nought, and so does the count of a worker that was
absent. -/
theorem Balanced.register (h : s.Balanced) {capacity : Option ℤ} {now : ℚ}
    (hg : s.Guard (.register w capacity now)) :
    Balanced { s with
      coord := s.coord.handleRegister w capacity now
      lives := if w ∈ s.coord.registry then s.lives
        else Function.update s.lives w (s.lives w + 1) } := by
  obtain ⟨hcount, hhalf⟩ := hg
  by_cases hw : w = []
  · subst hw
    simp only [CoordinatorService.handleRegister, if_true, if_neg h.named]
    refine ⟨fun w' n hn => ?_, fun a ha => ?_, h.named⟩
    · have hne : w' ≠ [] := by
        rintro rfl
        exact h.named (WorkerRegistry.mem_iff_load?.mpr ⟨n, hn⟩)
      have hlives := Function.update_of_ne hne (s.lives [] + 1) s.lives
      simpa only [count, hlives, credit] using h.load w' n hn
    · exact (h.lives a ha).trans (le_update_succ s.lives [] a.worker)
  · simp only [CoordinatorService.handleRegister, if_neg hw]
    refine ⟨fun w' n hn => ?_, fun a ha => ?_, ?_⟩
    · rw [WorkerRegistry.load?_registerWorker] at hn
      by_cases hw' : w' = w
      · subst hw'
        rw [if_pos rfl, Option.some.injEq] at hn
        have hcredit : s.credit w' = 0 := credit_eq_zero hhalf
        have hzero : List.countP (fun a => decide (a.worker = w' ∧ a.life =
            (if w' ∈ s.coord.registry then s.lives
              else Function.update s.lives w' (s.lives w' + 1)) w')) s.outstanding = 0 := by
          split_ifs with hm
          · exact hcount hm
          · rw [List.countP_eq_zero]
            intro a ha
            rw [decide_eq_true_iff, Function.update_self]
            rintro ⟨ha', hlife⟩
            have := h.lives a ha
            rw [ha'] at this
            omega
        simp only [count, hzero]
        rw [← hn, Nat.zero_add]
        exact hcredit.symm
      · rw [if_neg hw'] at hn
        have hlives : (if w ∈ s.coord.registry then s.lives
            else Function.update s.lives w (s.lives w + 1)) w' = s.lives w' := by
          split_ifs
          · rfl
          · exact Function.update_of_ne hw' _ _
        simpa only [count, hlives, credit] using h.load w' n hn
    · split_ifs
      · exact h.lives a ha
      · exact (h.lives a ha).trans (le_update_succ s.lives w a.worker)
    · simp only [WorkerRegistry.mem_registerWorker, not_or]
      exact ⟨fun hn => hw hn.symm, h.named⟩

/-- The assignments without the `i`-th. -/
theorem count_eraseIdx {i : ℕ} {a : GivenJob} (ha : s.outstanding[i]? = some a) (w : Str) :
    s.count w = (s.outstanding.eraseIdx i).countP (fun a => a.worker = w ∧ a.life = s.lives w) +
      if a.worker = w ∧ a.life = s.lives w then 1 else 0 := by
  obtain ⟨hi, rfl⟩ := List.getElem?_eq_some_iff.mp ha
  have hperm := (List.getElem_cons_eraseIdx_perm hi).symm
  rw [count, hperm.countP_eq, List.countP_cons]
  simp only [decide_eq_true_eq]

/-- An outcome takes nothing from the other workers' counts. -/
theorem count_outcome_of_ne {src : Source} {job : Job} {rest : List GivenJob}
    (hr : s.outcome src = some (w, job, rest)) {w' : Str} (hw : w' ≠ w) :
    { s with outstanding := rest }.count w' = s.count w' := by
  cases src with
  | stray v job' =>
    simp only [outcome, Option.some.injEq, Prod.mk.injEq] at hr
    rw [← hr.2.2]
  | assigned i =>
    obtain ⟨a, ha, hr⟩ := Option.map_eq_some_iff.mp hr
    simp only [Prod.mk.injEq] at hr
    rw [count_eraseIdx ha, if_neg fun hc => hw (hc.1.symm.trans hr.1), ← hr.2.2]
    rfl

/-- A timely outcome takes one from its worker's count, if there is any. -/
theorem count_outcome {src : Source} {job : Job} {rest : List GivenJob}
    (hr : s.outcome src = some (w, job, rest)) (hg : s.Timely src) (hw : w ∈ s.coord.registry) :
    s.count w = { s with outstanding := rest }.count w + 1 ∨
      { s with outstanding := rest }.count w = 0 ∧ s.Unused w := by
  cases src with
  | stray v job' =>
    simp only [outcome, Option.some.injEq, Prod.mk.injEq] at hr
    obtain ⟨rfl, -, rfl⟩ := hr
    exact Or.inr ⟨(hg hw).1, hg hw⟩
  | assigned i =>
    obtain ⟨a, ha, hr⟩ := Option.map_eq_some_iff.mp hr
    simp only [Prod.mk.injEq] at hr
    obtain ⟨rfl, -, rfl⟩ := hr
    have hcount := count_eraseIdx ha a.worker
    rcases hg a ha hw with hlife | hunused
    · rw [if_pos ⟨rfl, hlife⟩] at hcount
      exact Or.inl hcount
    · rw [hunused.1] at hcount
      exact Or.inr ⟨by simp only [count]; omega, hunused⟩

/-- A timely outcome: one less on the load, and one less to count. -/
theorem Balanced.outcome (h : s.Balanced) {src : Source} (hg : s.Timely src) {job : Job}
    {rest : List GivenJob} (hr : s.outcome src = some (w, job, rest)) {coord : CoordinatorService}
    (hload : ∀ w', coord.registry.load? w' = (s.coord.registry.decrementLoad w).load? w') :
    Balanced { s with coord := coord, outstanding := rest } := by
  refine ⟨fun w' n hn => ?_, fun a ha => h.lives a ?_, ?_⟩
  · rw [hload, WorkerRegistry.load?_decrementLoad] at hn
    show n = { s with outstanding := rest }.count w' + s.credit w'
    by_cases hw : w' = w
    · subst hw
      rw [if_pos rfl, Option.map_eq_some_iff] at hn
      obtain ⟨m, hm, rfl⟩ := hn
      have hload := h.load w' m hm
      rcases count_outcome hr hg (WorkerRegistry.mem_iff_load?.mpr ⟨m, hm⟩) with hc | ⟨hc, hu⟩
      · omega
      · have hcredit := credit_eq_zero hu.2
        have hcount := hu.1
        omega
    · rw [if_neg hw] at hn
      rw [count_outcome_of_ne hr hw]
      exact h.load w' n hn
  · cases src with
    | stray v job' =>
      simp only [LoadSystem.outcome, Option.some.injEq, Prod.mk.injEq] at hr
      rwa [hr.2.2]
    | assigned i =>
      obtain ⟨b, -, hb⟩ := Option.map_eq_some_iff.mp hr
      simp only [Prod.mk.injEq] at hb
      rw [← hb.2.2] at ha
      exact List.mem_of_mem_eraseIdx ha
  · have hmem : ∀ w', w' ∈ coord.registry ↔ w' ∈ s.coord.registry := by
      intro w'
      rw [WorkerRegistry.mem_iff_load?, hload, ← WorkerRegistry.mem_iff_load?,
        WorkerRegistry.mem_decrementLoad]
    rw [hmem]
    exact h.named

/-- The worker of an outcome with an empty name is in no registry. -/
theorem load?_decrementLoad_nil (hn : ([] : Str) ∉ s.coord.registry) (w' : Str) :
    s.coord.registry.load? w' = (s.coord.registry.decrementLoad []).load? w' := by
  have hnone : s.coord.registry.load? [] = none := by
    cases hl : s.coord.registry.load? [] with
    | none => rfl
    | some n => exact absurd (WorkerRegistry.mem_iff_load?.mpr ⟨n, hl⟩) hn
  rw [WorkerRegistry.load?_decrementLoad]
  split_ifs with hw
  · rw [hw, hnone]
    rfl
  · rfl

theorem Balanced.load?_handleJobCompleted (h : s.Balanced) (w w' : Str) :
    (s.coord.handleJobCompleted w).1.registry.load? w' =
      (s.coord.registry.decrementLoad w).load? w' := by
  by_cases hw : w = []
  · subst hw
    exact load?_decrementLoad_nil h.named w'
  · rw [CoordinatorService.registry_handleJobCompleted hw]

theorem Balanced.load?_handleTaskFailed (h : s.Balanced) (w : Str) (job : Job)
    (error : Option Json) (now : ℚ) (w' : Str) :
    (s.coord.handleTaskFailed w job error now).1.registry.load? w' =
      (s.coord.registry.decrementLoad w).load? w' := by
  by_cases hw : w = []
  · subst hw
    have hreg : (s.coord.handleTaskFailed [] job error now).1.registry = s.coord.registry := by
      unfold CoordinatorService.handleTaskFailed
      rw [if_pos rfl, CoordinatorService.registry_retryTask]
    rw [hreg]
    exact load?_decrementLoad_nil h.named w'
  · rw [CoordinatorService.registry_handleTaskFailed hw]

/-- A coordinator with the same loads. -/
theorem Balanced.congr (h : s.Balanced) {coord : CoordinatorService}
    (hload : ∀ w', coord.registry.load? w' = s.coord.registry.load? w') :
    Balanced { s with coord := coord } := by
  refine ⟨fun w' n hn => h.load w' n ?_, h.lives, ?_⟩
  · rwa [hload] at hn
  · rw [WorkerRegistry.mem_iff_load?, hload, ← WorkerRegistry.mem_iff_load?]
    exact h.named

theorem Balanced.heartbeat (h : s.Balanced) (w : Str) (now : ℚ) :
    Balanced { s with coord := s.coord.handleHeartbeat w now } := by
  refine h.congr fun w' => ?_
  unfold CoordinatorService.handleHeartbeat
  split_ifs
  · rfl
  · exact WorkerRegistry.load?_updateHeartbeat now

theorem Balanced.workerFailure (h : s.Balanced) (w : Str) :
    Balanced { s with coord := s.coord.handleWorkerFailure w } := by
  unfold CoordinatorService.handleWorkerFailure
  split_ifs
  · exact h
  · refine ⟨fun w' n hn => ?_, h.lives, fun hn => h.named (WorkerRegistry.mem_removeWorker.mp hn).2⟩
    rw [WorkerRegistry.load?_removeWorker] at hn
    split_ifs at hn
    exact h.load w' n hn

/-- `increment_load`: the assignment counts on the load before it is published. -/
theorem Balanced.increment (h : s.Balanced) {job : Job} (hhalf : s.half = some (.chosen job w)) :
    Balanced { s with
      coord := { s.coord with registry := s.coord.registry.incrementLoad w }
      half := some (.counted job w) } := by
  refine ⟨fun w' n hn => ?_, h.lives, fun hn => h.named (WorkerRegistry.mem_incrementLoad.mp hn)⟩
  have hzero : s.credit w' = 0 := by simp only [credit, hhalf]
  rw [WorkerRegistry.load?_incrementLoad] at hn
  show n = s.count w' + if w = w' then 1 else 0
  by_cases hw : w' = w
  · subst hw
    rw [if_pos rfl, Option.map_eq_some_iff] at hn
    obtain ⟨m, hm, rfl⟩ := hn
    have := h.load w' m hm
    rw [if_pos rfl]
    omega
  · rw [if_neg hw] at hn
    have := h.load w' n hn
    rw [if_neg (Ne.symm hw)]
    omega

/-- `publish`: from then on the assignment itself counts. -/
theorem Balanced.publish (h : s.Balanced) {job : Job} (hhalf : s.half = some (.counted job w)) :
    Balanced { s with
      half := none
      outstanding := s.outstanding ++ [⟨w, job, s.lives w⟩] } := by
  refine ⟨fun w' n hn => ?_, fun a ha => ?_, h.named⟩
  · have hload := h.load w' n hn
    have hcredit : s.credit w' = if w = w' then 1 else 0 := by simp only [credit, hhalf]
    show n = (s.outstanding ++ [(⟨w, job, s.lives w⟩ : GivenJob)]).countP
      (fun a => a.worker = w' ∧ a.life = s.lives w') + 0
    rw [List.countP_append, List.countP_singleton, Nat.add_zero, hload, hcredit]
    by_cases hw : w = w'
    · subst hw
      simp only [count, and_self, decide_true, if_true]
    · simp only [count, hw, false_and, decide_false, if_false]
      rfl
  · rcases List.mem_append.mp ha with ha | ha
    · exact h.lives a ha
    · rw [List.mem_singleton.mp ha]

/-- Guarded steps keep every load exact. -/
theorem balanced_step (repr : Json → Str) (l : Label) (s s' : LoadSystem) (h : s.Balanced)
    (hg : s.Guard l) (hs : step repr l s = some s') : s'.Balanced := by
  cases l with
  | register w capacity now => exact Option.some.inj hs ▸ h.register hg
  | heartbeat w now => exact Option.some.inj hs ▸ h.heartbeat w now
  | workerFailure w => exact Option.some.inj hs ▸ h.workerFailure w
  | completed src =>
    simp only [step] at hs
    obtain ⟨⟨w, job, rest⟩, hr, rfl⟩ := Option.map_eq_some_iff.mp hs
    exact h.outcome hg hr (h.load?_handleJobCompleted w)
  | failed src error now =>
    simp only [step] at hs
    obtain ⟨⟨w, job, rest⟩, hr, rfl⟩ := Option.map_eq_some_iff.mp hs
    exact h.outcome hg hr (h.load?_handleTaskFailed w job error now)
  | other o =>
    refine Option.some.inj hs ▸ h.congr fun w' => ?_
    rw [CoordinatorService.registry_other]
  | choose now =>
    simp only [step] at hs
    split at hs
    · next hhalf =>
      rw [Option.some.injEq] at hs
      subst hs
      refine ⟨fun w' n hn => ?_, h.lives, h.named⟩
      have hzero : s.credit w' = 0 := by simp only [credit, hhalf]
      have hload := h.load w' n hn
      cases hr : (getNextJobAndWorker s.coord.job_queue s.coord.registry
          s.coord.circuit_breaker_manager now).result <;> simp [credit, count] at * <;> omega
    · cases hs
  | increment =>
    simp only [step] at hs
    split at hs
    · next hhalf => exact Option.some.inj hs ▸ h.increment hhalf
    · cases hs
  | publish =>
    simp only [step] at hs
    split at hs
    · next hhalf => exact Option.some.inj hs ▸ h.publish hhalf
    · cases hs

/-! ## Steps that break the guard -/

/-- With no assignment half done, what counts is published. -/
theorem unused_iff (hhalf : s.half = none) : s.Unused w ↔ s.count w = 0 := by
  unfold Unused HalfCounted
  rw [hhalf]
  simp

/-- An outcome that is not timely takes one from a load that was exact, and nothing from the count. -/
theorem Balanced.under_of_not_timely (h : s.Balanced) (hhalf : s.half = none) {src : Source}
    (hg : ¬ s.Timely src) {job : Job} {rest : List GivenJob}
    (hr : s.outcome src = some (w, job, rest)) {coord : CoordinatorService}
    (hload : ∀ w', coord.registry.load? w' = (s.coord.registry.decrementLoad w).load? w') :
    ¬ NeverUnder { s with coord := coord, outstanding := rest } := by
  have hlate : w ∈ s.coord.registry ∧ s.count w ≠ 0 ∧
      { s with outstanding := rest }.count w = s.count w := by
    cases src with
    | stray v job' =>
      simp only [LoadSystem.outcome, Option.some.injEq, Prod.mk.injEq] at hr
      obtain ⟨rfl, -, rfl⟩ := hr
      simp only [Timely, unused_iff hhalf, Classical.not_imp] at hg
      exact ⟨hg.1, hg.2, rfl⟩
    | assigned i =>
      obtain ⟨a, ha, hr⟩ := Option.map_eq_some_iff.mp hr
      simp only [Prod.mk.injEq] at hr
      obtain ⟨rfl, -, rfl⟩ := hr
      have hcount := count_eraseIdx ha a.worker
      simp only [Timely, ha, Option.some.injEq, forall_eq', unused_iff hhalf, Classical.not_imp,
        not_or] at hg
      obtain ⟨hm, hlife, hne⟩ := hg
      rw [if_neg fun hc => hlife hc.2, Nat.add_zero] at hcount
      exact ⟨hm, hne, hcount.symm⟩
  obtain ⟨hm, hne, hcount⟩ := hlate
  obtain ⟨n, hn⟩ := WorkerRegistry.mem_iff_load?.mp hm
  have hexact := h.load w n hn
  have hcredit : s.credit w = 0 := by simp only [credit, hhalf]
  intro hunder
  have hle := hunder w (n - 1) (by
    rw [hload, WorkerRegistry.load?_decrementLoad, if_pos rfl, hn]
    rfl)
  change { s with outstanding := rest }.count w ≤ n - 1 at hle
  omega

/-- A step that breaks the guard leaves a load below its worker's jobs. -/
theorem Balanced.under_of_not_guard (h : s.Balanced) (repr : Json → Str) (hhalf : s.half = none)
    {l : Label} (hg : ¬ s.Guard l) {s' : LoadSystem} (hs : step repr l s = some s') :
    ¬ s'.NeverUnder := by
  cases l with
  | register w capacity now =>
    simp only [Guard, HalfCounted, hhalf, reduceCtorEq, exists_false, not_false_eq_true, and_true,
      Classical.not_imp] at hg
    obtain ⟨hm, hne⟩ := hg
    have hw : w ≠ [] := fun hw => h.named (hw ▸ hm)
    simp only [step, if_pos hm, CoordinatorService.handleRegister, if_neg hw,
      Option.some.injEq] at hs
    subst hs
    intro hunder
    have hle := hunder w 0 (by rw [WorkerRegistry.load?_registerWorker, if_pos rfl])
    exact hne (Nat.le_zero.mp hle)
  | completed src =>
    simp only [step] at hs
    obtain ⟨⟨w, job, rest⟩, hr, rfl⟩ := Option.map_eq_some_iff.mp hs
    exact h.under_of_not_timely hhalf hg hr (h.load?_handleJobCompleted w)
  | failed src error now =>
    simp only [step] at hs
    obtain ⟨⟨w, job, rest⟩, hr, rfl⟩ := Option.map_eq_some_iff.mp hs
    exact h.under_of_not_timely hhalf hg hr (h.load?_handleTaskFailed w job error now)
  | _ => exact absurd trivial hg

end Step

/-- **The loads along a run.** While workers register again only without jobs and outcomes are
timely, no load falls below the number of its worker's jobs; the first step that is otherwise, with
no assignment half done, leaves one below. -/
theorem load_covers (repr : Json → Str) {failure_threshold : ℤ}
    {recovery_timeout heartbeat_timeout : ℚ} {max_retries : ℤ} {store : PostgresStore}
    {ls : List Label} {t : LoadSystem}
    (hr : run (step repr) ls
      (start failure_threshold recovery_timeout heartbeat_timeout max_retries store) = some t)
    (hg : Guarded (step repr) Guard ls
      (start failure_threshold recovery_timeout heartbeat_timeout max_retries store)) :
    t.NeverUnder ∧ ∀ l t', t.half = none → ¬ t.Guard l → step repr l t = some t' →
      ¬ t'.NeverUnder := by
  have hbal : t.Balanced := by
    refine run_invariant (balanced_step repr) ?_ hg hr
    exact balanced_start _ _ _ _ _
  exact ⟨hbal.neverUnder, fun l t' hhalf hn hs => hbal.under_of_not_guard repr hhalf hn hs⟩

/-- A worker registers and has a job. -/
def oneLoad : List Label :=
  [.register ['a'] (some 1) 0,
    .other (.jobSubmitted (TaskRepository.rebuiltJob ['1'] "ok".toList "LOW".toList)),
    .choose fun _ => 0, .increment, .publish]

/-- The default settings, on an empty database. -/
def emptyLoad : LoadSystem := start 3 5 10 3 ⟨true, true, ∅, ∅⟩

theorem load_covers_oneLoad : ∃ t, run (step fun _ => []) oneLoad emptyLoad = some t ∧
    t.count ['a'] = 1 ∧ t.NeverUnder := by
  have h : (run (step fun _ => []) oneLoad emptyLoad).map (fun t => decide (t.count ['a'] = 1)) =
      some true := by decide +kernel
  obtain ⟨t, hr, ht⟩ := Option.map_eq_some_iff.mp h
  have hg : Guarded (step fun _ => []) Guard oneLoad emptyLoad := by
    refine ⟨⟨fun hm => absurd hm (WorkerRegistry.notMem_empty _), fun hh => ?_⟩, fun _ _ => ?_⟩
    · obtain ⟨job, hjob⟩ := hh
      cases hjob
    · exact ⟨trivial, fun _ _ => ⟨trivial, fun _ _ => ⟨trivial, fun _ _ => ⟨trivial, fun _ _ => trivial⟩⟩⟩⟩
  exact ⟨t, hr, of_decide_eq_true ht, (load_covers _ hr hg).1⟩

/-- The worker registers again while it has the job, and its load starts again at nought. -/
theorem not_neverUnder_repeated : ∃ t,
    run (step fun _ => []) (oneLoad ++ [.register ['a'] (some 1) 1]) emptyLoad = some t ∧
      t.half.isNone = true ∧ ¬ t.NeverUnder := by
  have h : (run (step fun _ => []) (oneLoad ++ [.register ['a'] (some 1) 1]) emptyLoad).map (fun t =>
      decide (t.half.isNone = true ∧ t.count ['a'] = 1 ∧ t.coord.registry.load? ['a'] = some 0)) =
      some true := by decide +kernel
  obtain ⟨t, hr, ht⟩ := Option.map_eq_some_iff.mp h
  obtain ⟨hhalf, hcount, hload⟩ := of_decide_eq_true ht
  refine ⟨t, hr, hhalf, fun hunder => ?_⟩
  have := hunder ['a'] 0 hload
  omega

end LoadSystem

end JobSystem
