import JobSystem.Coordinator.Handlers

/-!
# The assigner and any event

Which events the assigner's thread survives: those that register workers with a number for a capacity,
and queue jobs whose type can be printed.

* `Prints`, `Fit`, `Sound`: what an iteration relies on; `Bounded`: the loads beside a float;
* `keeps_*`: the methods keep it; `returns_*`: the methods of an iteration do not raise;
* `Harmless`: the condition on a step; **`sound_step`**, **`alive_run`**: the thread survives every run of
  such steps.
-/

namespace JobSystem.Handlers

open PyText Raising
open PyJson (Json)

variable {py : Python} {cfg : Config}

/-! ## What an iteration relies on -/

/-- The standard output can encode a text. -/
def Prints (py : Python) (s : Str) : Prop := s.all py.encodable = true

instance (s : Str) : Decidable (Prints py s) := inferInstanceAs (Decidable (_ = true))

@[simp] theorem prints_append {s t : Str} : Prints py (s ++ t) ↔ Prints py s ∧ Prints py t := by
  simp [Prints]

/-- A text of ASCII characters. -/
theorem prints_of_ascii {s : Str} (h : (s.all fun c => c.toNat < 128) = true) : Prints py s := by
  refine List.all_eq_true.mpr fun c hc => py.encodable_of_lt c ?_
  simpa using List.all_eq_true.mp h c hc

/-- A value that is the name of a worker: it is hashable, and can be printed. -/
def Fit (py : Python) (worker_id : Json) : Prop :=
  (keyOf py.floats worker_id).isSome = true ∧ Prints py (text py worker_id)

/-- An entry that an iteration can use: the capacity is a number. -/
def FitEntry (py : Python) (p : Json × WorkerData) : Prop :=
  Fit py p.1 ∧ (numberOf p.2.capacity).isSome = true

/-- **The invariant**: all workers and jobs are such that an iteration can use them. -/
structure Sound (py : Python) (s : State) : Prop where
  workers : ∀ k p, s.workers.get? k = some p → FitEntry py p
  jobs : ∀ e ∈ s.pq, Prints py (text py (jobType e.job))

theorem sound_new (py : Python) : Sound py .new :=
  ⟨fun _ _ h => (by cases h), fun _ h => absurd h List.not_mem_nil⟩

/-- A load beside a float is in the range of floats. -/
def InRange (p : Json × WorkerData) : Prop :=
  ∀ lit, numberOf p.2.capacity = some (.float lit) → p.2.current_load < 2 ^ 1023

/-- The loads beside floats are in their range. -/
def Bounded (s : State) : Prop := ∀ k p, s.workers.get? k = some p → InRange p

/-! ## The methods keep it -/

section Keeps

theorem keeps_print {P : State → Prop} (line : Str) : Keeps P (print py line) :=
  keeps_ite (fun _ => keeps_pure _) (keeps_throw _)

theorem keeps_repoCall {P : State → Prop} (returns : Bool) : Keeps P (repoCall returns) :=
  keeps_ite (fun _ => keeps_pure _) (keeps_throw _)

/-- A change of neither the workers nor the queue. -/
theorem keeps_other {f : State → State} (hworkers : ∀ s, (f s).workers = s.workers)
    (hpq : ∀ s, (f s).pq = s.pq) : Keeps (Sound py) (modify f : Method PUnit) := by
  refine keeps_modify fun s h => ⟨?_, ?_⟩
  · rw [hworkers]
    exact h.workers
  · rw [hpq]
    exact h.jobs

theorem keeps_publish (event : Published) : Keeps (Sound py) (publish event) :=
  keeps_other (fun _ => rfl) fun _ => rfl

theorem sound_modifyWorker {s : State} (h : Sound py s) (k : Key) {f : WorkerData → WorkerData}
    (hf : ∀ data, (f data).capacity = data.capacity) :
    Sound py { s with workers := s.workers.modify k fun p => (p.1, f p.2) } := by
  refine ⟨fun k' p hp => ?_, h.jobs⟩
  change (s.workers.modify k _).get? k' = some p at hp
  rw [PyDict.get?_modify] at hp
  split_ifs at hp
  · obtain ⟨p', hp', rfl⟩ := Option.map_eq_some_iff.mp hp
    have hfit := h.workers k p' hp'
    exact ⟨hfit.1, by rw [hf]; exact hfit.2⟩
  · exact h.workers k' p hp

theorem keeps_modifyWorker (worker_id : Json) {f : WorkerData → WorkerData}
    (hf : ∀ data, (f data).capacity = data.capacity) :
    Keeps (Sound py) (modifyWorker py worker_id f) :=
  keeps_orRaise_bind fun k _ => keeps_modify fun _ h => sound_modifyWorker h k hf

/-- **A registration** keeps it if the worker is fit and the capacity a number. -/
theorem keeps_registerWorker {worker_id capacity : Json} (timestamp : ℚ)
    (h : (keyOf py.floats worker_id).isSome = true →
      Prints py (text py worker_id) ∧ (numberOf capacity).isSome = true) :
    Keeps (Sound py) (registerWorker py worker_id capacity timestamp) := by
  refine keeps_orRaise_bind fun k hk => keeps_bind (keeps_modify fun s hs => ⟨?_, hs.jobs⟩) fun _ =>
    keeps_print _
  have hfit : (keyOf py.floats worker_id).isSome = true := by rw [hk]; rfl
  intro k' p hp
  change (s.workers.set k _).get? k' = some p at hp
  rw [PyDict.get?_set] at hp
  split_ifs at hp with hkey
  · cases hp
    refine ⟨?_, (h hfit).2⟩
    cases hold : s.workers.get? k with
    | none => exact ⟨hfit, (h hfit).1⟩
    | some p => exact (hs.workers k p hold).1
  · exact hs.workers k' p hp

/-- A change without the workers. -/
theorem keeps_removeWorker (worker_id : Json) : Keeps (Sound py) (removeWorker py worker_id) := by
  refine keeps_orRaise_bind fun k _ => keeps_bind keeps_get fun s =>
    keeps_ite (fun _ => keeps_bind (keeps_modify fun s hs => ⟨?_, hs.jobs⟩) fun _ => keeps_print _)
      (keeps_pure _)
  intro k' p hp
  change (s.workers.erase k).get? k' = some p at hp
  rw [PyDict.get?_erase] at hp
  split_ifs at hp
  exact hs.workers k' p hp

theorem keeps_onBreaker {α : Type} (worker_id : Json)
    (call : WorkerCircuitBreaker → WorkerCircuitBreaker × α) (line : WorkerCircuitBreaker → Str) :
    Keeps (Sound py) (onBreaker py cfg worker_id call line) :=
  keeps_orRaise_bind fun _ _ => keeps_bind keeps_get fun _ =>
    keeps_bind (keeps_other (fun _ => rfl) fun _ => rfl) fun _ =>
      keeps_bind (keeps_ite (fun _ => keeps_print _) (keeps_pure _)) fun _ =>
        keeps_bind (keeps_ite (fun _ => keeps_publish _) (keeps_pure _)) fun _ => keeps_pure _

theorem keeps_removeBreaker (worker_id : Json) : Keeps (Sound py) (removeBreaker py worker_id) :=
  keeps_orRaise_bind fun _ _ => keeps_bind keeps_get fun _ =>
    keeps_ite (fun _ => keeps_bind (keeps_other (fun _ => rfl) fun _ => rfl) fun _ => keeps_print _)
      (keeps_pure _)

/-- **A job** keeps it if its type can be printed. -/
theorem keeps_queueJob {job : Fields} (h : Prints py (text py (jobType job))) :
    Keeps (Sound py) (queueJob py job) := by
  refine keeps_bind (keeps_modify fun s hs => ⟨hs.workers, fun e he => ?_⟩) fun _ =>
    keeps_bind keeps_get fun s => keeps_print _
  rcases (List.mem_orderedInsert _).mp he with rfl | he
  · exact h
  · exact hs.jobs e he

theorem keeps_recordSuccess (worker_id : Json) :
    Keeps (Sound py) (recordSuccess py cfg worker_id) := keeps_onBreaker _ _ _

theorem keeps_recordFailure (worker_id : Json) (now : ℚ) :
    Keeps (Sound py) (recordFailure py cfg worker_id now) := keeps_onBreaker _ _ _

/-! ## The handlers keep it -/

theorem keeps_handleRegister {event : Fields} (now : ℚ)
    (h : (get event "worker_id").truthy = true →
      (keyOf py.floats (get event "worker_id")).isSome = true →
        Prints py (text py (get event "worker_id")) ∧
          (numberOf ((event.lookup "capacity".toList).getD (.int 8))).isSome = true) :
    Keeps (Sound py) (handleRegister py event now) :=
  keeps_ite (fun htruthy => keeps_registerWorker now (h htruthy)) (keeps_pure _)

/-- The id that is set does not change the type. -/
theorem jobType_setField (event : Fields) (uuid : Str) :
    jobType (setField event idKey (.str uuid)) = jobType event := by
  have hne : jobTypeKey ≠ idKey := by decide
  rw [jobType, jobType, lookup_setField, if_neg hne]

theorem keeps_handleJobSubmitted {event : Fields} (uuid : Str)
    (h : Prints py (text py (jobType event))) :
    Keeps (Sound py) (handleJobSubmitted py event uuid) := by
  unfold handleJobSubmitted
  dsimp only
  refine keeps_bind (keeps_print _) fun _ => keeps_queueJob ?_
  cases event.lookup idKey with
  | some id => exact h
  | none =>
    dsimp only
    rwa [jobType_setField]

theorem keeps_handleHeartbeat (event : Fields) (now : ℚ) :
    Keeps (Sound py) (handleHeartbeat py event now) :=
  keeps_ite (fun _ => keeps_modifyWorker _ fun _ => rfl) (keeps_pure _)

theorem keeps_handleJobCompleted (event : Fields) :
    Keeps (Sound py) (handleJobCompleted py cfg event) :=
  keeps_ite (fun _ => keeps_bind (keeps_print _) fun _ =>
    keeps_bind (keeps_modifyWorker _ fun _ => rfl) fun _ => keeps_recordSuccess _) (keeps_pure _)

theorem keeps_addToDlq (task : Fields) (error : Json) (updated : Bool) :
    Keeps (Sound py) (addToDlq py task error updated) :=
  keeps_bind (keeps_print _) fun _ => keeps_bind (keeps_other (fun _ => rfl) fun _ => rfl) fun _ =>
    keeps_bind (keeps_repoCall _) fun _ => keeps_publish _

/-- A job that is queued again has failed no more than `max_retries` times. -/
def RetryPrints (py : Python) (cfg : Config) (s : State) (event : Fields) : Prop :=
  ∀ task k, (event.lookup "job".toList).getD (.obj []) = .obj task →
    keyOf py.floats ((task.lookup idKey).getD (.str "unknown".toList)) = some k →
    (s.retries_tracker.get? k).getD 0 < cfg.max_retries → Prints py (text py (jobType task))

theorem sound_retryTaskFailed {s : State} {event : Fields} (hs : Sound py s)
    (h : RetryPrints py cfg s event) (incremented updated : Bool) :
    Sound py (exec (retryTaskFailed py cfg event incremented updated) s).2 := by
  unfold retryTaskFailed
  cases hjob : (event.lookup "job".toList).getD (.obj []) with
  | obj task =>
    dsimp only
    unfold key
    cases hkey : keyOf py.floats ((task.lookup idKey).getD (.str "unknown".toList)) with
    | none => exact hs
    | some k =>
      rw [orRaise, exec_pure_bind, exec_get_bind]
      refine Keeps.exec ?_ hs
      refine keeps_bind (keeps_other (fun _ => rfl) fun _ => rfl) fun _ => ?_
      refine keeps_bind (keeps_repoCall _) fun _ => keeps_bind (keeps_print _) fun _ => ?_
      refine keeps_ite (fun hle => ?_) ?_
      · exact keeps_bind (keeps_print _) fun _ => keeps_bind (keeps_repoCall _) fun _ =>
          keeps_queueJob (h task k hjob hkey hle)
      · exact keeps_bind (keeps_print _) fun _ => keeps_addToDlq _ _ _
  | _ => exact hs

/-- The worker's part of a failure does not touch the retries. -/
theorem keeps_retries_noteFailure (t : PyDict Key ℕ) (worker_id : Json) (now : ℚ) :
    Keeps (fun s => s.retries_tracker = t) (do
      decrementLoad py worker_id
      recordFailure py cfg worker_id now) := by
  refine keeps_bind (keeps_orRaise_bind fun _ _ => keeps_modify fun _ h => h) fun _ => ?_
  refine keeps_orRaise_bind fun _ _ => keeps_bind keeps_get fun _ =>
    keeps_bind (keeps_modify fun _ h => h) fun _ => ?_
  exact keeps_bind (keeps_ite (fun _ => keeps_print _) (keeps_pure _)) fun _ =>
    keeps_bind (keeps_ite (fun _ => keeps_modify fun _ h => h) (keeps_pure _)) fun _ => keeps_pure _

theorem sound_handleTaskFailed {s : State} {event : Fields} (hs : Sound py s)
    (h : RetryPrints py cfg s event) (now : ℚ) (incremented updated : Bool) :
    Sound py (exec (handleTaskFailed py cfg event now incremented updated) s).2 := by
  unfold handleTaskFailed
  dsimp only
  have hnote : Keeps (fun s' => Sound py s' ∧ s'.retries_tracker = s.retries_tracker)
      (if (get event "worker_id").truthy = true then do
        decrementLoad py (get event "worker_id")
        recordFailure py cfg (get event "worker_id") now
      else pure ()) := by
    refine keeps_ite (fun _ => keeps_and ?_ (keeps_retries_noteFailure _ _ _)) (keeps_pure _)
    exact keeps_bind (keeps_modifyWorker _ fun _ => rfl) fun _ => keeps_recordFailure _ _
  have hfirst := hnote s ⟨hs, rfl⟩
  rw [exec_bind]
  cases hexec : exec (if (get event "worker_id").truthy = true then do
        decrementLoad py (get event "worker_id")
        recordFailure py cfg (get event "worker_id") now
      else pure ()) s with
  | mk r s' =>
    rw [hexec] at hfirst
    cases r with
    | error e => exact hfirst.1
    | ok a =>
      refine sound_retryTaskFailed hfirst.1 ?_ incremented updated
      unfold RetryPrints
      rw [hfirst.2]
      exact h

theorem keeps_handleWorkerFailure (event : Fields) :
    Keeps (Sound py) (handleWorkerFailure py event) :=
  keeps_ite (fun _ => keeps_bind (keeps_print _) fun _ => keeps_bind (keeps_removeWorker _) fun _ =>
    keeps_print _) (keeps_pure _)

theorem keeps_handleWorkerFailed (event : Fields) {tasks : List AssignedTask}
    (h : ∀ task ∈ tasks, Prints py task.job_type) :
    Keeps (Sound py) (handleWorkerFailed py event tasks) :=
  keeps_ite (fun _ => keeps_bind (keeps_removeBreaker _) fun _ => keeps_forM fun task htask =>
    keeps_bind (keeps_print _) fun _ => keeps_bind (keeps_repoCall _) fun _ =>
      keeps_queueJob (h task htask)) (keeps_pure _)

end Keeps

/-! ## An iteration does not raise -/

section Returns

theorem returns_print {P : State → Prop} {line : Str} (h : Prints py line) :
    Returns P (print py line) fun _ s => P s :=
  returns_ite (fun _ => returns_pure fun _ hs => hs) fun hno => absurd h hno

/-- A list of workers that an iteration can use. -/
def FitList (py : Python) (workers : List (Json × WorkerData)) : Prop :=
  ∀ p ∈ workers, FitEntry py p ∧ InRange p

theorem returns_available {P : State → Prop} {workers : List (Json × WorkerData)}
    (h : FitList py workers) :
    Returns P (available py workers) fun r s => FitList py r ∧ P s := by
  induction workers with
  | nil => exact returns_pure fun s hs => ⟨h, hs⟩
  | cons p workers ih =>
    obtain ⟨hp, hworkers⟩ := List.forall_mem_cons.mp h
    refine returns_orRaise_bind hp.1.2 fun capacity _ => returns_bind (ih hworkers) fun rest => ?_
    refine returns_pure fun s hs => ⟨?_, hs.2⟩
    split_ifs
    · exact List.forall_mem_cons.mpr ⟨hp, hs.1⟩
    · exact hs.1

theorem returns_getAvailableWorkers :
    Returns (fun s => Sound py s ∧ Bounded s) (getAvailableWorkers py) fun r s =>
      FitList py r ∧ Sound py s := by
  refine returns_get_bind fun s hs => (returns_available ?_).mono (fun s' hs' => hs') fun r s' h => ?_
  · intro p hp
    obtain ⟨⟨k, p'⟩, hmem, rfl⟩ := List.mem_map.mp hp
    have hget := PyDict.mem_entries_iff.mp hmem
    exact ⟨hs.1.workers k p' hget, hs.2 k p' hget⟩
  · exact ⟨h.1, h.2 ▸ hs.1⟩

theorem returns_onBreaker {α : Type} {worker_id : Json} (hfit : Fit py worker_id)
    (call : WorkerCircuitBreaker → WorkerCircuitBreaker × α) {line : WorkerCircuitBreaker → Str}
    (hline : ∀ b, Prints py (line b)) :
    Returns (Sound py) (onBreaker py cfg worker_id call line) fun _ s => Sound py s := by
  refine returns_orRaise_bind hfit.1 fun k _ => returns_get_bind fun s hs => ?_
  refine returns_bind (Q := fun _ s => Sound py s)
    (returns_modify fun s' hs' => ⟨hs' ▸ hs.workers, hs' ▸ hs.jobs⟩) fun _ => ?_
  refine returns_bind (Q := fun _ s => Sound py s)
    (returns_ite (fun _ => returns_print (hline _)) fun _ => returns_pure fun _ h => h) fun _ => ?_
  refine returns_bind (Q := fun _ s => Sound py s)
    (returns_ite (fun _ => returns_modify fun s' hs' => ⟨hs'.workers, hs'.jobs⟩)
      fun _ => returns_pure fun _ h => h) fun _ => ?_
  exact returns_pure fun _ h => h

theorem returns_canAssignTask {worker_id : Json} (hfit : Fit py worker_id) (now : ℚ) :
    Returns (Sound py) (canAssignTask py cfg worker_id now) fun _ s => Sound py s :=
  returns_onBreaker hfit _ fun _ => prints_of_ascii (by simp)

theorem returns_letThrough {workers : List (Json × WorkerData)} (h : FitList py workers)
    (now : Json → ℚ) :
    Returns (Sound py) (letThrough py cfg now workers) fun r s => FitList py r ∧ Sound py s := by
  induction workers with
  | nil => exact returns_pure fun s hs => ⟨h, hs⟩
  | cons p workers ih =>
    obtain ⟨hp, hworkers⟩ := List.forall_mem_cons.mp h
    refine returns_bind (returns_canAssignTask hp.1.1 _) fun allowed => ?_
    refine returns_bind (ih hworkers) fun rest => returns_pure fun s hs => ⟨?_, hs.2⟩
    split_ifs
    · exact List.forall_mem_cons.mpr ⟨hp, hs.1⟩
    · exact hs.1

/-- The subtraction does not overflow. -/
theorem isSome_minus {p : Json × WorkerData} (h : InRange p) {capacity : Number}
    (hcapacity : numberOf p.2.capacity = some capacity) :
    (capacity.minus py.floats p.2.current_load).isSome = true := by
  cases capacity with
  | int m => rfl
  | float lit =>
    show ((py.floats.sub lit p.2.current_load).map Number.float).isSome = true
    rw [Option.isSome_map]
    exact py.floats.sub_isSome lit _ (h lit hcapacity)

theorem returns_choose {P : State → Prop} {workers : List (Json × WorkerData)}
    (h : FitList py workers) {chosen_worker : Option Json} (hchosen : ∀ wid ∈ chosen_worker, Fit py wid)
    (max_free_capacity : Number) :
    Returns P (choose py workers chosen_worker max_free_capacity) fun r s =>
      (∀ wid ∈ r, Fit py wid) ∧ P s := by
  induction workers generalizing chosen_worker max_free_capacity with
  | nil => exact returns_pure fun s hs => ⟨hchosen, hs⟩
  | cons p workers ih =>
    obtain ⟨hp, hworkers⟩ := List.forall_mem_cons.mp h
    refine returns_orRaise_bind hp.1.2 fun capacity hcapacity =>
      returns_orRaise_bind (isSome_minus hp.2 hcapacity) fun free_capacity _ =>
        returns_ite (fun _ => ih hworkers ?_ _) fun _ => ih hworkers hchosen _
    intro wid hwid
    cases hwid
    exact hp.1.1

theorem returns_getNextJob : Returns (Sound py) getNextJob fun job s =>
    (∀ j ∈ job, Prints py (text py (jobType j))) ∧ Sound py s := by
  refine returns_get_bind fun s hs => ?_
  refine returns_bind (Q := fun _ s => Sound py s) (returns_modify fun s' hs' => ?_) fun _ =>
    returns_pure fun s' hs' => ⟨?_, hs'⟩
  · subst hs'
    exact ⟨hs.workers, fun e he => hs.jobs e (List.mem_of_mem_tail he)⟩
  · intro j hj
    obtain ⟨e, he, rfl⟩ := Option.map_eq_some_iff.mp hj
    exact hs.jobs e (List.mem_of_mem_head? he)

/-- **The scheduler** does not raise, and what it returns can be assigned. -/
theorem returns_getNextJobAndWorker (now : Json → ℚ) :
    Returns (fun s => Sound py s ∧ Bounded s) (getNextJobAndWorker py cfg now) fun r s =>
      (∀ p ∈ r, Prints py (text py (jobType p.1)) ∧ Fit py p.2) ∧ Sound py s := by
  refine returns_get_bind fun s hs => returns_ite (fun _ => returns_pure ?_) fun _ => ?_
  · rintro s' rfl
    exact ⟨fun p hp => (by cases hp), hs.1⟩
  · refine returns_bind (returns_getAvailableWorkers.mono (fun s' hs' => hs' ▸ hs) fun _ _ h => h)
      fun workers => ?_
    intro s' hs'
    refine returns_bind (returns_letThrough hs'.1 now) (fun admitted => ?_) s' hs'.2
    intro s'' hs''
    refine returns_bind (returns_choose hs''.1 (fun wid hwid => (by cases hwid)) _)
      (fun chosen_worker => ?_) s'' hs''.2
    cases hchosen : chosen_worker.filter Json.truthy with
    | none => exact returns_pure fun s h => ⟨fun p hp => (by cases hp), h.2⟩
    | some wid =>
      dsimp only
      intro s h
      have hfit := h.1 wid (Option.filter_eq_some_iff.mp hchosen).1
      refine returns_bind returns_getNextJob (fun job => returns_pure fun s h' => ⟨?_, h'.2⟩) s h.2
      intro p hp
      obtain ⟨j, hj, rfl⟩ := Option.map_eq_some_iff.mp hp
      exact ⟨h'.1 j hj, hfit⟩

/-- **An iteration does not raise**, and keeps what the next one relies on. -/
theorem returns_assignOnce (now : Json → ℚ) :
    Returns (fun s => Sound py s ∧ Bounded s) (assignOnce py cfg now) fun _ s => Sound py s := by
  refine returns_bind (returns_getNextJobAndWorker now) fun r => ?_
  cases r with
  | none => exact returns_pure fun s h => h.2
  | some p =>
    dsimp only
    refine returns_ite (fun _ => ?_) fun _ => returns_pure fun s h => h.2
    intro s h
    obtain ⟨hprints, hfit⟩ := h.1 p rfl
    refine returns_bind (Q := fun _ s => Sound py s) ?_ (fun _ => ?_) s h.2
    · refine returns_orRaise_bind hfit.1 fun k _ => returns_modify fun s hs => ?_
      exact sound_modifyWorker
        (f := fun data => { data with current_load := data.current_load + 1 }) hs k fun _ => rfl
    · refine returns_bind (Q := fun _ s => Sound py s)
        (returns_modify fun s hs => ⟨hs.workers, hs.jobs⟩) fun _ => returns_print ?_
      simp only [prints_append]
      exact ⟨⟨⟨⟨prints_of_ascii (by simp), hprints⟩, prints_of_ascii (by simp)⟩, hfit.2⟩,
        prints_of_ascii (by simp)⟩

end Returns

/-! ## Runs -/

/-- **The condition on a step**: a worker that is registered has a number for a capacity and can be
printed; the type of a job that is queued can be printed; and when an iteration comes, the loads beside
floats are in their range. -/
def Harmless (py : Python) (cfg : Config) (s : State) : Step → Prop
  | .register event _ => (get event "worker_id").truthy = true →
      (keyOf py.floats (get event "worker_id")).isSome = true →
        Prints py (text py (get event "worker_id")) ∧
          (numberOf ((event.lookup "capacity".toList).getD (.int 8))).isSome = true
  | .jobSubmitted event _ => Prints py (text py (jobType event))
  | .taskFailed event _ _ _ => RetryPrints py cfg s event
  | .workerFailed _ tasks => ∀ task ∈ tasks, Prints py task.job_type
  | .assign _ => Bounded s
  | _ => True

/-- All steps meet the condition, each in the state before it. -/
def AllHarmless (py : Python) (cfg : Config) : Assigner → List Step → Prop
  | _, [] => True
  | a, st :: steps => Harmless py cfg a.state st ∧ AllHarmless py cfg (a.step py cfg st) steps

/-- **A step.** -/
theorem sound_step {a : Assigner} (ha : Sound py a.state ∧ a.alive = true) {st : Step}
    (h : Harmless py cfg a.state st) :
    Sound py (a.step py cfg st).state ∧ (a.step py cfg st).alive = true := by
  obtain ⟨hs, halive⟩ := ha
  cases st with
  | register event now => exact ⟨(keeps_handleRegister now h).exec hs, halive⟩
  | heartbeat event now => exact ⟨(keeps_handleHeartbeat event now).exec hs, halive⟩
  | jobSubmitted event uuid => exact ⟨(keeps_handleJobSubmitted uuid h).exec hs, halive⟩
  | jobCompleted event => exact ⟨(keeps_handleJobCompleted event).exec hs, halive⟩
  | taskFailed event now incremented updated =>
    exact ⟨sound_handleTaskFailed hs h now incremented updated, halive⟩
  | workerFailed event tasks => exact ⟨(keeps_handleWorkerFailed event h).exec hs, halive⟩
  | workerFailure event => exact ⟨(keeps_handleWorkerFailure event).exec hs, halive⟩
  | assign now =>
    obtain ⟨_, s', hexec, hsound⟩ := @returns_assignOnce py cfg now a.state ⟨hs, h⟩
    show Sound py (if a.alive then _ else a).state ∧ (if a.alive then _ else a).alive = true
    rw [if_pos halive]
    change Sound py (exec (assignOnce py cfg now) a.state).2 ∧
      (exec (assignOnce py cfg now) a.state).1.isOk = true
    rw [hexec]
    exact ⟨hsound, rfl⟩

theorem sound_foldl {steps : List Step} {a : Assigner} (ha : Sound py a.state ∧ a.alive = true)
    (h : AllHarmless py cfg a steps) :
    Sound py (steps.foldl (Assigner.step py cfg) a).state ∧
      (steps.foldl (Assigner.step py cfg) a).alive = true := by
  induction steps generalizing a with
  | nil => exact ha
  | cons st steps ih => exact ih (sound_step ha h.1) h.2

/-- **The assigner's thread survives every run of such steps**: no iteration in it has raised. -/
theorem alive_run (py : Python) (cfg : Config) {steps : List Step}
    (h : AllHarmless py cfg ⟨.new, true⟩ steps) : (Assigner.run py cfg steps).alive = true :=
  (sound_foldl ⟨sound_new py, rfl⟩ h).2

/-- Floats in runs without floats. -/
def noFloats : FloatOps := ⟨fun _ => none, fun _ _ => false, fun _ _ => false, fun _ _ => false,
  fun x _ => some x, fun _ _ _ => rfl⟩

/-- An interpreter with a UTF-8 output, in runs without floats. -/
def utf8Python : Python := ⟨noFloats, fun _ => [], fun _ => true, fun _ _ => rfl⟩

/-- A registration. -/
def registration (worker_id capacity : Json) : Step :=
  .register [("worker_id".toList, worker_id), ("capacity".toList, capacity)] 0

/-- A submission. -/
def submission : Step := .jobSubmitted [(jobTypeKey, .str "email".toList)] "1".toList

/-- A worker that is named by a list is not registered, so its capacity does not count. -/
theorem alive_run_listName : (Assigner.run utf8Python ⟨3, 5, 3⟩
    [registration (.arr [.int 1]) (.str "8".toList), registration (.str "a".toList) (.bool true),
      submission, .assign fun _ => 0]).alive = true := by
  refine alive_run utf8Python ⟨3, 5, 3⟩ ⟨fun _ h => ?_, fun _ _ => ⟨rfl, rfl⟩, rfl, ?_, trivial⟩
  · exact absurd h (by decide +kernel)
  · intro k p hp lit hlit
    have hcapacity : ∀ e ∈ ((Assigner.run utf8Python ⟨3, 5, 3⟩
        [registration (.arr [.int 1]) (.str "8".toList), registration (.str "a".toList) (.bool true),
          submission]).state.workers.entries.map fun e => numberOf e.2.2.capacity),
        e = some (.int 1) := List.forall_mem_singleton.mpr rfl
    have := hcapacity _ (List.mem_map_of_mem (PyDict.mem_entries_iff.mpr hp))
    rw [this] at hlit
    cases hlit

/-- **A capacity that is a text stops the assigner** when the next job comes. -/
theorem not_alive_textCapacity : ¬ ∀ steps, (Assigner.run utf8Python ⟨3, 5, 3⟩ steps).alive = true := by
  intro h
  have hdead : (Assigner.run utf8Python ⟨3, 5, 3⟩
      [registration (.str "a".toList) (.str "8".toList), submission,
        .assign fun _ => 0]).alive = false := by decide +kernel
  rw [h] at hdead
  cases hdead

end JobSystem.Handlers
