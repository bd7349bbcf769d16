import JobSystem.Lib.Trans
import JobSystem.Coordinator.Service

/-!
# Recovery trials

The scheduler, the breakers and the outcomes of the assigned jobs, over any run. An assignment is
outstanding until its outcome is handled. `half_open_at` is the moment a worker's breaker last became
half open.

* `Recovery`, `Recovery.step`, `Inv`;
* `Reopens`: a scheduler call moves a breaker from open to half open;
* `NoPhantomTrial`, **`noPhantomTrial_iff`**: a spent trial has an outstanding job, in every state of
  a run, exactly if a worker is reopened only by the call that chooses it;
* `OnlyTrialDecides`, **`onlyTrialDecides_iff`**: only the trial's outcome can move a half-open
  breaker, in every state of a run, exactly if no worker is reopened with a job outstanding.
-/

namespace JobSystem

open PyText Trans
open PyJson (Json)

/-- A job given to a worker. -/
structure Assignment where
  worker : Str
  job : Job
  moment : ℕ

/-- The coordinator, the number of steps so far, and the history that the two properties speak of. -/
structure Recovery where
  coord : CoordinatorService
  moment : ℕ
  outstanding : List Assignment
  half_open_at : Str → ℕ

namespace Recovery

/-- The steps; the scheduler reads the clock once for each breaker. -/
inductive Label where
  | schedule (now : Str → ℚ)
  | jobCompleted (i : ℕ)
  | taskFailed (i : ℕ) (error : Option Json) (now : ℚ)
  | jobSubmitted (job : Job)

/-- A worker's breaker. -/
def breaker (s : Recovery) (w : Str) : WorkerCircuitBreaker := s.coord.breaker w

/-- The assignment that an event announces. -/
def assignment? (moment : ℕ) : Event → Option Assignment
  | .taskAssigned w job => some ⟨w, job, moment⟩
  | _ => none

/-- The next moment. -/
def advance (s : Recovery) (c : CoordinatorService) (outstanding : List Assignment) : Recovery where
  coord := c
  moment := s.moment + 1
  outstanding := outstanding
  half_open_at w :=
    if (s.breaker w).state ≠ .HALF_OPEN ∧ (c.breaker w).state = .HALF_OPEN then s.moment
    else s.half_open_at w

/-- An outcome is that of an outstanding assignment. -/
def step : Machine Recovery Label
  | .schedule now, s =>
    let r := s.coord.assign now
    some (s.advance r.1 (s.outstanding ++ r.2.filterMap (assignment? s.moment)))
  | .jobCompleted i, s =>
    s.outstanding[i]?.map fun a =>
      s.advance (s.coord.handleJobCompleted a.worker).1 (s.outstanding.eraseIdx i)
  | .taskFailed i error now, s =>
    s.outstanding[i]?.map fun a =>
      s.advance (s.coord.handleTaskFailed a.worker a.job error now).1 (s.outstanding.eraseIdx i)
  | .jobSubmitted job, s => some (s.advance (s.coord.handleJobSubmitted job) s.outstanding)

/-- `REGISTER` of some workers on a new coordinator. -/
def init (failure_threshold : ℤ) (recovery_timeout heartbeat_timeout : ℚ) (max_retries : ℤ)
    (store : PostgresStore) (workers : List (Str × Option ℤ × ℚ)) : Recovery where
  coord := workers.foldl (fun c w => c.handleRegister w.1 w.2.1 w.2.2)
    (.new failure_threshold recovery_timeout heartbeat_timeout max_retries store)
  moment := 0
  outstanding := []
  half_open_at _ := 0

/-- What holds in every state. -/
structure Inv (s : Recovery) : Prop where
  spent : ∀ w, (s.breaker w).Spent
  registered : [] ∉ s.coord.registry
  past : ∀ a ∈ s.outstanding, a.moment < s.moment
  named : ∀ a ∈ s.outstanding, a.worker ≠ []

/-- The call asks the worker's breaker, and the breaker is due. -/
def Reopens (s : Recovery) (now : Str → ℚ) (w : Str) : Prop :=
  s.coord.job_queue.isEmpty = false ∧ w ∈ s.coord.registry.getAvailableWorkers.map Prod.fst ∧
    (s.breaker w).Due (now w)

/-- The call chooses the worker. -/
def Chooses (s : Recovery) (now : Str → ℚ) (w : Str) : Prop :=
  s.coord.job_queue.isEmpty = false ∧ Preferred (s.coord.admitted now) w

/-! ## The steps -/

section Schedule

variable {s : Recovery} {now : Str → ℚ}

theorem Reopens.breaker_assign {w : Str} (h : s.Reopens now w) :
    (s.coord.assign now).1.breaker w =
      { s.breaker w with state := .HALF_OPEN, trial_task_assigned := true } := by
  rw [CoordinatorService.breaker_assign h.1, if_pos h.2.1]
  exact congrArg Prod.fst (WorkerCircuitBreaker.canAssignTask_of_due h.2.2)

/-- The breaker of any other worker stays as it is. -/
theorem breaker_assign_of_not_reopens (hs : s.Inv) {w : Str} (h : ¬ s.Reopens now w) :
    (s.coord.assign now).1.breaker w = s.breaker w := by
  cases hq : s.coord.job_queue.isEmpty with
  | true =>
    rw [CoordinatorService.assign_of_isEmpty hq]
    rfl
  | false =>
    rw [CoordinatorService.breaker_assign hq]
    split_ifs with hw
    · exact WorkerCircuitBreaker.canAssignTask_of_not_due (hs.spent w) fun hd => h ⟨hq, hw, hd⟩
    · rfl

theorem filterMap_alerts {alerts : List Event} {moment : ℕ}
    (h : ∀ e ∈ alerts, ∃ level message, e = .alert level message) :
    alerts.filterMap (assignment? moment) = [] := by
  rw [List.filterMap_eq_nil_iff]
  intro e he
  obtain ⟨level, message, rfl⟩ := h e he
  rfl

theorem Chooses.registered {w : Str} (h : s.Chooses now w) : w ∈ s.coord.registry := by
  obtain ⟨data, hm⟩ := h.2.mem
  exact (WorkerRegistry.mem_getAvailableWorkers (List.mem_filter.mp hm).1).1

/-- The chosen worker gets a job. -/
theorem outstanding_of_chooses (hs : s.Inv) {w : Str} (h : s.Chooses now w) :
    ∃ job, (s.coord.assign now).2.filterMap (assignment? s.moment) = [⟨w, job, s.moment⟩] ∧
      (s.coord.assign now).1.registry = s.coord.registry.incrementLoad w := by
  have hw : w ≠ [] := by
    rintro rfl
    exact hs.registered h.registered
  obtain ⟨e, q, -, -, hassign⟩ := CoordinatorService.assign_of_preferred h.1 hw h.2
  have halerts : (s.coord.admitAvailable now).2.2.filterMap (assignment? s.moment) = [] :=
    filterMap_alerts fun _ he => alerts_admitAll _ he
  refine ⟨e.job, ?_, by rw [hassign]⟩
  rw [hassign]
  simp only [List.filterMap_append]
  rw [halerts]
  rfl

/-- No worker is chosen and no job is given away. -/
theorem outstanding_of_not_chooses (h : ∀ w, ¬ s.Chooses now w) :
    (s.coord.assign now).2.filterMap (assignment? s.moment) = [] ∧
      (s.coord.assign now).1.registry = s.coord.registry := by
  cases hq : s.coord.job_queue.isEmpty with
  | true =>
    rw [CoordinatorService.assign_of_isEmpty hq]
    exact ⟨rfl, rfl⟩
  | false =>
    rw [CoordinatorService.assign_of_not_preferred hq fun w _ hp => h w ⟨hq, hp⟩]
    exact ⟨filterMap_alerts fun _ he => alerts_admitAll _ he, rfl⟩

/-- Nobody gets a job that the breaker has not let through. -/
theorem Chooses.admits {w : Str} (h : s.Chooses now w) : (s.breaker w).Admits (now w) := by
  obtain ⟨data, hm⟩ := h.2.mem
  have := (List.mem_filter.mp hm).2
  rwa [decide_eq_true_iff] at this

end Schedule

section Outcome

/-- The outcome of the `i`-th outstanding assignment, `a`, has been handled. -/
structure Settles (s : Recovery) (i : ℕ) (a : Assignment) (s' : Recovery) : Prop where
  get : s.outstanding[i]? = some a
  outstanding : s'.outstanding = s.outstanding.eraseIdx i
  moment : s'.moment = s.moment + 1
  breaker_ne : ∀ w, w ≠ a.worker → s'.breaker w = s.breaker w
  state_ne : (s'.breaker a.worker).state ≠ .HALF_OPEN
  half_open_at : ∀ w, w ≠ a.worker → s'.half_open_at w = s.half_open_at w
  registry : s'.coord.registry = s.coord.registry.decrementLoad a.worker

variable {s s' : Recovery}

/-- A breaker that stays keeps its moment. -/
theorem half_open_at_advance {c : CoordinatorService} {outstanding : List Assignment} {w : Str}
    (h : c.breaker w = s.breaker w) : (s.advance c outstanding).half_open_at w = s.half_open_at w := by
  unfold advance
  simp only
  rw [if_neg]
  rintro ⟨hne, he⟩
  exact hne (h ▸ he)

/-- An outcome settles its assignment if the worker's breaker `b` is not left half open. -/
theorem settles_advance {c : CoordinatorService} {i : ℕ} {a : Assignment} {b : WorkerCircuitBreaker}
    (ha : s.outstanding[i]? = some a)
    (hbreaker : ∀ w, c.breaker w = if w = a.worker then b else s.breaker w)
    (hb : b.state ≠ .HALF_OPEN) (hreg : c.registry = s.coord.registry.decrementLoad a.worker) :
    Settles s i a (s.advance c (s.outstanding.eraseIdx i)) ∧
      (s.advance c (s.outstanding.eraseIdx i)).breaker a.worker = b := by
  have hself : c.breaker a.worker = b := (hbreaker _).trans (if_pos rfl)
  have hne : ∀ w, w ≠ a.worker → c.breaker w = s.breaker w := fun w h =>
    (hbreaker w).trans (if_neg h)
  refine ⟨⟨ha, rfl, rfl, hne, ?_, fun w h => half_open_at_advance (hne w h), hreg⟩, hself⟩
  show (c.breaker a.worker).state ≠ _
  rwa [hself]

theorem settles_jobCompleted (hs : s.Inv) {i : ℕ} (h : step (.jobCompleted i) s = some s') :
    ∃ a, Settles s i a s' ∧ s'.breaker a.worker = (s.breaker a.worker).recordSuccess := by
  obtain ⟨a, ha, rfl⟩ := Option.map_eq_some_iff.mp h
  have hw := hs.named a (List.mem_of_getElem? ha)
  exact ⟨a, settles_advance ha (CoordinatorService.breaker_handleJobCompleted hw)
    (WorkerCircuitBreaker.state_recordSuccess_ne _)
    (CoordinatorService.registry_handleJobCompleted hw)⟩

theorem settles_taskFailed (hs : s.Inv) {i : ℕ} {error : Option Json} {now : ℚ}
    (h : step (.taskFailed i error now) s = some s') :
    ∃ a, Settles s i a s' ∧ s'.breaker a.worker = (s.breaker a.worker).recordFailure now := by
  obtain ⟨a, ha, rfl⟩ := Option.map_eq_some_iff.mp h
  have hw := hs.named a (List.mem_of_getElem? ha)
  exact ⟨a, settles_advance ha
    (fun w => CoordinatorService.breaker_handleTaskFailed hw w a.job error now)
    (WorkerCircuitBreaker.state_recordFailure_ne _ _)
    (CoordinatorService.registry_handleTaskFailed hw _ _ _)⟩

end Outcome

/-! ## The invariant -/

section Invariant

variable {s s' : Recovery}

theorem Settles.inv {i : ℕ} {a : Assignment} (h : Settles s i a s') (hs : s.Inv) : s'.Inv := by
  have hsub : ∀ b ∈ s'.outstanding, b ∈ s.outstanding := fun b hb => by
    rw [h.outstanding] at hb
    exact List.mem_of_mem_eraseIdx hb
  refine ⟨fun w => ?_, ?_, fun b hb => ?_, fun b hb => hs.named b (hsub b hb)⟩
  · by_cases hw : w = a.worker
    · exact fun hhalf => absurd (hw ▸ hhalf) h.state_ne
    · rw [h.breaker_ne w hw]
      exact hs.spent w
  · rw [h.registry, WorkerRegistry.mem_decrementLoad]
    exact hs.registered
  · rw [h.moment]
    exact Nat.lt_succ_of_lt (hs.past b (hsub b hb))

theorem Inv.schedule (hs : s.Inv) {now : Str → ℚ} (h : step (.schedule now) s = some s') :
    s'.Inv := by
  cases h
  refine ⟨fun w => ?_, ?_, fun a ha => ?_, fun a ha => ?_⟩
  · show ((s.coord.assign now).1.breaker w).Spent
    by_cases hr : s.Reopens now w
    · rw [hr.breaker_assign]
      exact fun _ => rfl
    · rw [breaker_assign_of_not_reopens hs hr]
      exact hs.spent w
  · show [] ∉ (s.coord.assign now).1.registry
    by_cases hc : ∃ w, s.Chooses now w
    · obtain ⟨w, hw⟩ := hc
      obtain ⟨job, -, hreg⟩ := outstanding_of_chooses hs hw
      rw [hreg, WorkerRegistry.mem_incrementLoad]
      exact hs.registered
    · push Not at hc
      rw [(outstanding_of_not_chooses hc).2]
      exact hs.registered
  · show a.moment < s.moment + 1
    rcases List.mem_append.mp ha with ha | ha
    · exact Nat.lt_succ_of_lt (hs.past a ha)
    · obtain ⟨e, -, he⟩ := List.mem_filterMap.mp ha
      cases e <;> cases he
      exact Nat.lt_succ_self _
  · rcases List.mem_append.mp ha with ha | ha
    · exact hs.named a ha
    · by_cases hc : ∃ w, s.Chooses now w
      · obtain ⟨w, hw⟩ := hc
        obtain ⟨job, hnew, -⟩ := outstanding_of_chooses hs hw
        rw [hnew] at ha
        rw [List.mem_singleton.mp ha]
        rintro rfl
        exact hs.registered hw.registered
      · push Not at hc
        rw [(outstanding_of_not_chooses hc).1] at ha
        cases ha

theorem Inv.step (hs : s.Inv) {l : Label} (h : step l s = some s') : s'.Inv := by
  cases l with
  | schedule now => exact hs.schedule h
  | jobCompleted i =>
    obtain ⟨a, ha, -⟩ := settles_jobCompleted hs h
    exact ha.inv hs
  | taskFailed i error now =>
    obtain ⟨a, ha, -⟩ := settles_taskFailed hs h
    exact ha.inv hs
  | jobSubmitted job =>
    cases h
    exact ⟨hs.spent, hs.registered, fun a ha => Nat.lt_succ_of_lt (hs.past a ha), hs.named⟩

variable (failure_threshold : ℤ) (recovery_timeout heartbeat_timeout : ℚ) (max_retries : ℤ)
  (store : PostgresStore)

theorem inv_init (workers : List (Str × Option ℤ × ℚ)) :
    (init failure_threshold recovery_timeout heartbeat_timeout max_retries store workers).Inv := by
  have hfold : ∀ c : CoordinatorService, (∀ w, (c.breaker w).Spent) → [] ∉ c.registry →
      (∀ w, ((workers.foldl (fun c w => c.handleRegister w.1 w.2.1 w.2.2) c).breaker w).Spent) ∧
        [] ∉ (workers.foldl (fun c w => c.handleRegister w.1 w.2.1 w.2.2) c).registry := by
    induction workers with
    | nil => exact fun c hc hr => ⟨hc, hr⟩
    | cons p ws ih =>
      intro c hc hr
      rw [List.foldl_cons]
      unfold CoordinatorService.handleRegister
      split_ifs with hp
      · exact ih c hc hr
      · refine ih _ hc ?_
        rw [WorkerRegistry.mem_registerWorker]
        rintro (h | h)
        · exact hp h.symm
        · exact hr h
  obtain ⟨hspent, hreg⟩ := hfold
    (.new failure_threshold recovery_timeout heartbeat_timeout max_retries store)
    (fun _ => WorkerCircuitBreaker.spent_new _ _) (WorkerRegistry.notMem_empty _)
  exact ⟨hspent, hreg, fun a ha => (List.not_mem_nil ha).elim,
    fun a ha => (List.not_mem_nil ha).elim⟩

end Invariant

/-! ## Half-open breakers after a scheduler call -/

section HalfOpen

variable {s s' : Recovery} {now : Str → ℚ} {w : Str}

theorem Reopens.state (h : s.Reopens now w) (hstep : step (.schedule now) s = some s') :
    (s'.breaker w).state = .HALF_OPEN ∧ (s'.breaker w).trial_task_assigned = true := by
  cases hstep
  show ((s.coord.assign now).1.breaker w).state = _ ∧ _
  rw [show (s.advance _ _).breaker w = _ from h.breaker_assign, h.breaker_assign]
  exact ⟨rfl, rfl⟩

theorem Reopens.half_open_at (h : s.Reopens now w) (hstep : step (.schedule now) s = some s') :
    s'.half_open_at w = s.moment := by
  cases hstep
  refine if_pos ⟨?_, ?_⟩
  · rw [h.2.2.1]
    simp
  · rw [h.breaker_assign]

theorem breaker_of_not_reopens (hs : s.Inv) (h : ¬ s.Reopens now w)
    (hstep : step (.schedule now) s = some s') :
    s'.breaker w = s.breaker w ∧ s'.half_open_at w = s.half_open_at w := by
  cases hstep
  have hsame := breaker_assign_of_not_reopens hs h
  exact ⟨hsame, half_open_at_advance hsame⟩

/-- What a scheduler call adds to the outstanding jobs. -/
theorem mem_outstanding_schedule (hstep : step (.schedule now) s = some s')
    {a : Assignment} : a ∈ s'.outstanding ↔
      a ∈ s.outstanding ∨ a ∈ (s.coord.assign now).2.filterMap (assignment? s.moment) := by
  cases hstep
  exact List.mem_append

end HalfOpen

/-! ## No phantom trial -/

/-- A worker whose breaker is half open with its trial spent has a job outstanding that was given to
it no earlier than the breaker became half open. -/
def NoPhantomTrial (s : Recovery) : Prop :=
  ∀ w, (s.breaker w).state = .HALF_OPEN → (s.breaker w).trial_task_assigned = true →
    ∃ a ∈ s.outstanding, a.worker = w ∧ s.half_open_at w ≤ a.moment

/-- A scheduler call reopens no worker but the one it chooses. -/
def ReopensChosen (s : Recovery) : Label → Prop
  | .schedule now => ∀ w, s.Reopens now w → Preferred (s.coord.admitted now) w
  | _ => True

section NoPhantom

variable {s s' : Recovery}

theorem noPhantomTrial_schedule (hs : s.Inv) (hP : s.NoPhantomTrial) {now : Str → ℚ}
    (h : step (.schedule now) s = some s') :
    s'.NoPhantomTrial ↔ s.ReopensChosen (.schedule now) := by
  constructor
  · intro hP' w hr
    obtain ⟨hstate, htrial⟩ := hr.state h
    obtain ⟨a, ha, rfl, hle⟩ := hP' w hstate htrial
    rw [hr.half_open_at h] at hle
    rcases (mem_outstanding_schedule h).mp ha with ha | ha
    · exact absurd hle (by have := hs.past a ha; omega)
    · by_cases hc : ∃ v, s.Chooses now v
      · obtain ⟨v, hv⟩ := hc
        obtain ⟨job, hnew, -⟩ := outstanding_of_chooses hs hv
        rw [hnew] at ha
        rw [List.mem_singleton.mp ha]
        exact hv.2
      · push Not at hc
        rw [(outstanding_of_not_chooses hc).1] at ha
        cases ha
  · intro hG w hstate htrial
    by_cases hr : s.Reopens now w
    · obtain ⟨job, hnew, -⟩ := outstanding_of_chooses hs ⟨hr.1, hG w hr⟩
      refine ⟨⟨w, job, s.moment⟩, (mem_outstanding_schedule h).mpr (.inr ?_), rfl, ?_⟩
      · rw [hnew]
        exact List.mem_singleton_self _
      · rw [hr.half_open_at h]
    · obtain ⟨hsame, hmoment⟩ := breaker_of_not_reopens hs hr h
      rw [hsame] at hstate htrial
      obtain ⟨a, ha, hw, hle⟩ := hP w hstate htrial
      exact ⟨a, (mem_outstanding_schedule h).mpr (.inl ha), hw, hmoment ▸ hle⟩

/-- The outcome of one worker's job leaves the trials of the others. -/
theorem Settles.noPhantomTrial {i : ℕ} {a : Assignment} (h : Settles s i a s')
    (hP : s.NoPhantomTrial) : s'.NoPhantomTrial := by
  intro w hstate htrial
  have hw : w ≠ a.worker := by
    rintro rfl
    exact h.state_ne hstate
  rw [h.breaker_ne w hw] at hstate htrial
  obtain ⟨b, hb, rfl, hle⟩ := hP w hstate htrial
  obtain ⟨j, hj⟩ := List.mem_iff_getElem?.mp hb
  refine ⟨b, ?_, rfl, ?_⟩
  · rw [h.outstanding, List.mem_eraseIdx_iff_getElem?]
    refine ⟨j, ?_, hj⟩
    rintro rfl
    rw [h.get] at hj
    cases hj
    exact hw rfl
  · rw [h.half_open_at _ hw]
    exact hle

theorem noPhantomTrial_step (hs : s.Inv) (hP : s.NoPhantomTrial) {l : Label}
    (h : step l s = some s') : s'.NoPhantomTrial ↔ s.ReopensChosen l := by
  cases l with
  | schedule now => exact noPhantomTrial_schedule hs hP h
  | jobCompleted i =>
    obtain ⟨a, ha, -⟩ := settles_jobCompleted hs h
    exact iff_of_true (ha.noPhantomTrial hP) trivial
  | taskFailed i error now =>
    obtain ⟨a, ha, -⟩ := settles_taskFailed hs h
    exact iff_of_true (ha.noPhantomTrial hP) trivial
  | jobSubmitted job =>
    cases h
    refine iff_of_true (fun w hstate htrial => ?_) trivial
    obtain ⟨a, ha, hw, hle⟩ := hP w hstate htrial
    exact ⟨a, ha, hw, by rwa [half_open_at_advance (c := s.coord.handleJobSubmitted job) rfl]⟩

variable (failure_threshold : ℤ) (recovery_timeout heartbeat_timeout : ℚ) (max_retries : ℤ)
  (store : PostgresStore)

theorem noPhantomTrial_init (workers : List (Str × Option ℤ × ℚ)) :
    (init failure_threshold recovery_timeout heartbeat_timeout max_retries store
      workers).NoPhantomTrial := by
  have hfold : ∀ c : CoordinatorService, (∀ w, (c.breaker w).state ≠ .HALF_OPEN) → ∀ w,
      ((workers.foldl (fun c w => c.handleRegister w.1 w.2.1 w.2.2) c).breaker w).state ≠
        .HALF_OPEN := by
    induction workers with
    | nil => exact fun c hc => hc
    | cons p ws ih =>
      intro c hc
      rw [List.foldl_cons]
      unfold CoordinatorService.handleRegister
      split_ifs
      · exact ih c hc
      · exact ih _ hc
  intro w hstate
  refine absurd hstate (hfold _ (fun w => ?_) w)
  simp [CoordinatorService.breaker, CoordinatorService.new, CircuitBreakerManager.breaker_new,
    WorkerCircuitBreaker.new]

/-- **No phantom trial, exactly.** -/
theorem noPhantomTrial_iff (workers : List (Str × Option ℤ × ℚ)) (ls : List Label) :
    (∀ p t, p <+: ls →
      run step p (init failure_threshold recovery_timeout heartbeat_timeout max_retries store
        workers) = some t → t.NoPhantomTrial) ↔
      Guarded step ReopensChosen ls (init failure_threshold recovery_timeout heartbeat_timeout
        max_retries store workers) := by
  refine run_invariant_iff (fun l s s' hs _ h _ => hs.step h)
    (fun l s s' hs hP h => noPhantomTrial_step hs hP h) (fun l s h _ _ => ?_)
    (inv_init _ _ _ _ _ _) (noPhantomTrial_init _ _ _ _ _ _)
  -- a step that is refused is an outcome, on which the guard asks nothing
  cases l with
  | schedule now => cases h
  | _ => trivial

end NoPhantom

/-- Two workers trip their breakers on one job each; the last call reopens both and chooses the
first. -/
def twoDue : List Label :=
  let job := fun id : Str => TaskRepository.rebuiltJob id "fail".toList "LOW".toList
  [.jobSubmitted (job ['1']), .jobSubmitted (job ['2']), .schedule fun _ => 0, .schedule fun _ => 0,
    .taskFailed 0 none 1, .taskFailed 0 none 1, .schedule fun _ => 6]

/-- Two workers of capacity 1; one failure trips a breaker. -/
def twoWorkers : Recovery :=
  init 1 5 10 3 ⟨true, true, ∅, ∅⟩ [(['a'], some 1, 0), (['b'], some 1, 0)]

theorem not_noPhantomTrial_twoDue :
    ∃ t, run step twoDue twoWorkers = some t ∧ ¬ t.NoPhantomTrial := by
  have h : (run step twoDue twoWorkers).map (fun t => decide ((t.breaker ['b']).state = .HALF_OPEN ∧
      (t.breaker ['b']).trial_task_assigned = true ∧ ∀ a ∈ t.outstanding, a.worker ≠ ['b'])) =
        some true := by decide +kernel
  obtain ⟨t, ht, hb⟩ := Option.map_eq_some_iff.mp h
  obtain ⟨hstate, htrial, hnone⟩ := of_decide_eq_true hb
  refine ⟨t, ht, fun hP => ?_⟩
  obtain ⟨a, ha, hw, -⟩ := hP _ hstate htrial
  exact hnone a ha hw

/-! ## Only the trial decides -/

/-- The assignment was made by the call that made its worker's breaker half open. -/
def IsTrial (s : Recovery) (a : Assignment) : Prop := a.moment = s.half_open_at a.worker

/-- Whatever step comes next, a half-open breaker closes only by the completion of its trial, and
opens only by the failure of its trial. -/
def OnlyTrialDecides (s : Recovery) : Prop :=
  ∀ l s', step l s = some s' → ∀ w, (s.breaker w).state = .HALF_OPEN →
    ((s'.breaker w).state = .CLOSED → ∃ i a, l = .jobCompleted i ∧ s.outstanding[i]? = some a ∧
      a.worker = w ∧ s.IsTrial a) ∧
    ((s'.breaker w).state = .OPEN → ∃ i error now a, l = .taskFailed i error now ∧
      s.outstanding[i]? = some a ∧ a.worker = w ∧ s.IsTrial a)

/-- A scheduler call reopens no worker that has a job outstanding. -/
def ReopensIdle (s : Recovery) : Label → Prop
  | .schedule now => ∀ w, s.Reopens now w → ∀ a ∈ s.outstanding, a.worker ≠ w
  | _ => True

/-- The jobs outstanding on a half-open worker are trials. -/
def OnlyTrials (s : Recovery) : Prop :=
  ∀ a ∈ s.outstanding, (s.breaker a.worker).state = .HALF_OPEN → s.IsTrial a

section OnlyTrial

variable {s s' : Recovery}

theorem state_recordSuccess {b : WorkerCircuitBreaker} (h : b.state = .HALF_OPEN) :
    b.recordSuccess.state = .CLOSED := by
  unfold WorkerCircuitBreaker.recordSuccess
  simp only [h]

theorem state_recordFailure {b : WorkerCircuitBreaker} (h : b.state = .HALF_OPEN) (now : ℚ) :
    (b.recordFailure now).state = .OPEN := by
  unfold WorkerCircuitBreaker.recordFailure
  simp only [h]

/-- Only an outcome of its own jobs moves a half-open breaker. -/
theorem state_of_other (hs : s.Inv) {l : Label} (h : step l s = some s') {w : Str}
    (hw : (s.breaker w).state = .HALF_OPEN) (hne : (s'.breaker w).state ≠ .HALF_OPEN) :
    ∃ i a, s.outstanding[i]? = some a ∧ a.worker = w ∧
      (l = .jobCompleted i ∧ (s'.breaker w).state = .CLOSED ∨
        ∃ error now, l = .taskFailed i error now ∧ (s'.breaker w).state = .OPEN) := by
  cases l with
  | schedule now =>
    by_cases hr : s.Reopens now w
    · exact absurd (hr.state h).1 hne
    · rw [(breaker_of_not_reopens hs hr h).1] at hne
      exact absurd hw hne
  | jobCompleted i =>
    obtain ⟨a, ha, hself⟩ := settles_jobCompleted hs h
    have haw : a.worker = w := by
      by_contra hd
      exact hne (by rw [ha.breaker_ne w (Ne.symm hd)]; exact hw)
    subst haw
    exact ⟨i, a, ha.get, rfl, .inl ⟨rfl, by rw [hself]; exact state_recordSuccess hw⟩⟩
  | taskFailed i error now =>
    obtain ⟨a, ha, hself⟩ := settles_taskFailed hs h
    have haw : a.worker = w := by
      by_contra hd
      exact hne (by rw [ha.breaker_ne w (Ne.symm hd)]; exact hw)
    subst haw
    exact ⟨i, a, ha.get, rfl, .inr ⟨error, now, rfl, by rw [hself]; exact state_recordFailure hw now⟩⟩
  | jobSubmitted job =>
    cases h
    exact absurd hw hne

theorem onlyTrialDecides_iff_onlyTrials (hs : s.Inv) : s.OnlyTrialDecides ↔ s.OnlyTrials := by
  constructor
  · intro h a ha hw
    obtain ⟨i, hi⟩ := List.mem_iff_getElem?.mp ha
    -- let the job complete
    obtain ⟨s', hstep⟩ : ∃ s', step (.jobCompleted i) s = some s' := by
      simp only [step, hi, Option.map_some, Option.some.injEq, exists_eq']
    obtain ⟨b, hb, hself⟩ := settles_jobCompleted hs hstep
    have hab : b = a := Option.some.inj (hb.get.symm.trans hi)
    subst hab
    have hclosed : (s'.breaker b.worker).state = .CLOSED := by
      rw [hself]
      exact state_recordSuccess hw
    obtain ⟨j, c, hl, hj, -, htrial⟩ := (h _ s' hstep b.worker hw).1 hclosed
    cases hl
    rw [hi] at hj
    cases hj
    exact htrial
  · intro h l s' hstep w hw
    refine ⟨fun hclosed => ?_, fun hopen => ?_⟩
    · obtain ⟨i, a, ha, rfl, ⟨hl, -⟩ | ⟨_, _, -, hopen⟩⟩ :=
        state_of_other hs hstep hw (by rw [hclosed]; simp)
      · exact ⟨i, a, hl, ha, rfl, h a (List.mem_of_getElem? ha) hw⟩
      · rw [hclosed] at hopen
        cases hopen
    · obtain ⟨i, a, ha, rfl, ⟨-, hclosed⟩ | ⟨error, now, hl, -⟩⟩ :=
        state_of_other hs hstep hw (by rw [hopen]; simp)
      · rw [hopen] at hclosed
        cases hclosed
      · exact ⟨i, error, now, a, hl, ha, rfl, h a (List.mem_of_getElem? ha) hw⟩

theorem onlyTrials_schedule (hs : s.Inv) (hP : s.OnlyTrials) {now : Str → ℚ}
    (h : step (.schedule now) s = some s') :
    s'.OnlyTrials ↔ s.ReopensIdle (.schedule now) := by
  constructor
  · rintro hP' w hr a ha rfl
    have hmem := (mem_outstanding_schedule h).mpr (.inl ha)
    have htrial : a.moment = s'.half_open_at a.worker := hP' a hmem (hr.state h).1
    rw [hr.half_open_at h] at htrial
    exact absurd htrial (hs.past a ha).ne
  · intro hG a ha hstate
    show a.moment = s'.half_open_at a.worker
    rcases (mem_outstanding_schedule h).mp ha with ha | ha
    · have hr : ¬ s.Reopens now a.worker := fun hr => hG _ hr a ha rfl
      obtain ⟨hsame, hmoment⟩ := breaker_of_not_reopens hs hr h
      rw [hmoment]
      exact hP a ha (hsame ▸ hstate)
    · by_cases hc : ∃ v, s.Chooses now v
      · obtain ⟨v, hv⟩ := hc
        obtain ⟨job, hnew, -⟩ := outstanding_of_chooses hs hv
        rw [hnew] at ha
        obtain rfl := List.mem_singleton.mp ha
        by_cases hr : s.Reopens now v
        · exact (hr.half_open_at h).symm
        · -- a breaker that is half open already has spent its trial and lets nothing through
          rw [(breaker_of_not_reopens hs hr h).1] at hstate
          rcases hv.admits with hadm | hadm | ⟨-, hadm⟩
          · rw [hadm] at hstate
            cases hstate
          · rw [hadm.1] at hstate
            cases hstate
          · rw [hs.spent v hstate] at hadm
            cases hadm
      · push Not at hc
        rw [(outstanding_of_not_chooses hc).1] at ha
        cases ha

theorem Settles.onlyTrials {i : ℕ} {a : Assignment} (h : Settles s i a s') (hP : s.OnlyTrials) :
    s'.OnlyTrials := by
  intro b hb hstate
  have hw : b.worker ≠ a.worker := fun e => h.state_ne (e ▸ hstate)
  rw [h.breaker_ne _ hw] at hstate
  rw [h.outstanding] at hb
  show b.moment = s'.half_open_at b.worker
  rw [h.half_open_at _ hw]
  exact hP b (List.mem_of_mem_eraseIdx hb) hstate

theorem onlyTrials_step (hs : s.Inv) (hP : s.OnlyTrials) {l : Label} (h : step l s = some s') :
    s'.OnlyTrials ↔ s.ReopensIdle l := by
  cases l with
  | schedule now => exact onlyTrials_schedule hs hP h
  | jobCompleted i =>
    obtain ⟨a, ha, -⟩ := settles_jobCompleted hs h
    exact iff_of_true (ha.onlyTrials hP) trivial
  | taskFailed i error now =>
    obtain ⟨a, ha, -⟩ := settles_taskFailed hs h
    exact iff_of_true (ha.onlyTrials hP) trivial
  | jobSubmitted job =>
    cases h
    refine iff_of_true (fun a ha hstate => ?_) trivial
    show a.moment = (s.advance _ _).half_open_at a.worker
    rw [half_open_at_advance (c := s.coord.handleJobSubmitted job) rfl]
    exact hP a ha hstate

variable (failure_threshold : ℤ) (recovery_timeout heartbeat_timeout : ℚ) (max_retries : ℤ)
  (store : PostgresStore)

/-- **Only the trial decides, exactly.** -/
theorem onlyTrialDecides_iff (workers : List (Str × Option ℤ × ℚ)) (ls : List Label) :
    (∀ p t, p <+: ls →
      run step p (init failure_threshold recovery_timeout heartbeat_timeout max_retries store
        workers) = some t → t.OnlyTrialDecides) ↔
      Guarded step ReopensIdle ls (init failure_threshold recovery_timeout heartbeat_timeout
        max_retries store workers) := by
  refine run_invariant_iff (J := Inv) (fun l s s' hs _ h _ => hs.step h) (fun l s s' hs hP h => ?_)
    (fun l s h _ _ => ?_) (inv_init _ _ _ _ _ _) ?_
  · rw [onlyTrialDecides_iff_onlyTrials (hs.step h)]
    exact onlyTrials_step hs ((onlyTrialDecides_iff_onlyTrials hs).mp hP) h
  · -- a step that is refused is an outcome, on which the guard asks nothing
    cases l with
    | schedule now => cases h
    | _ => trivial
  · rw [onlyTrialDecides_iff_onlyTrials (inv_init _ _ _ _ _ _)]
    exact fun a ha => (List.not_mem_nil ha).elim

end OnlyTrial

/-- A worker trips its breaker with one of its two jobs and is reopened while it has the other. -/
def reopenedBusy : List Label :=
  let job := fun id job_type : Str => TaskRepository.rebuiltJob id job_type "LOW".toList
  [.jobSubmitted (job ['1'] "fail".toList), .jobSubmitted (job ['2'] "ok".toList),
    .schedule fun _ => 0, .schedule fun _ => 0, .taskFailed 0 none 1, .schedule fun _ => 6]

/-- One worker of capacity 2; one failure trips a breaker. -/
def oneWorker : Recovery := init 1 5 10 3 ⟨true, true, ∅, ∅⟩ [(['a'], some 2, 0)]

theorem not_onlyTrialDecides_reopenedBusy :
    ∃ t, run step reopenedBusy oneWorker = some t ∧ ¬ t.OnlyTrialDecides := by
  have h : (run step reopenedBusy oneWorker).map (fun t => decide
      ((t.breaker ['a']).state = .HALF_OPEN ∧ ((step (.jobCompleted 0) t).map fun t' =>
        decide ((t'.breaker ['a']).state = .CLOSED)) = some true ∧
      (t.outstanding[0]?).map Assignment.moment = some 3 ∧ t.half_open_at ['a'] = 5)) =
        some true := by decide +kernel
  obtain ⟨t, ht, hb⟩ := Option.map_eq_some_iff.mp h
  obtain ⟨hstate, hnext, hthree, hfive⟩ := of_decide_eq_true hb
  obtain ⟨t', ht', hclosed⟩ := Option.map_eq_some_iff.mp hnext
  refine ⟨t, ht, fun hP => ?_⟩
  -- the job that was there before the breaker tripped completes
  obtain ⟨i, a, hl, ha, hw, htrial⟩ := (hP _ t' ht' _ hstate).1 (of_decide_eq_true hclosed)
  cases hl
  rw [ha] at hthree
  have hmoment : a.moment = 3 := Option.some.inj hthree
  rw [IsTrial, hw, hmoment, hfive] at htrial
  cases htrial

end Recovery

end JobSystem
