import JobSystem.Coordinator.Survival

/-!
# The retry budget

`RetryQueue.handle_task_failed` on any events, with other jobs added to the queue and taken from it in
between. A failure is counted before anything else is done, so a call that raises after that has used one
of the retries up.

* `failedTask`: the task of a failure, and the key of its id;
* **`exec_retryTaskFailed`**: one call;
* `RetryStep`, `Tally`, `tallyOf`: runs; `failures`: how often an id has failed;
* `Spends`, `Budgeted`: what a failure may do, and a run; `Completes`: the condition on a call;
  **`retry_budget`**.
-/

namespace JobSystem.Handlers

open PyText Raising
open PyJson (Json)

/-- `task.get("id", "unknown")`. -/
def taskId (task : Fields) : Json := (task.lookup idKey).getD (.str "unknown".toList)

/-- `event.get("error", "Unknown error")`. -/
def errorMsg (event : Fields) : Json :=
  (event.lookup "error".toList).getD (.str "Unknown error".toList)

/-- The key of the id and the task; a job that is no dictionary, or has a container for an id, makes the
call raise. -/
def failedTask (floats : FloatOps) (event : Fields) : Option (Key × Fields) :=
  match (event.lookup "job".toList).getD (.obj []) with
  | .obj task => (keyOf floats (taskId task)).map fun k => (k, task)
  | _ => none

/-- The entry that `add_job` puts. -/
def entryOf (s : State) (job : Fields) : QueueEntry :=
  ⟨priorityNum ((job.lookup priorityKey).getD (.str "MEDIUM".toList)), s.counter + 1, job⟩

namespace State

/-- `self.retries_tracker[task_id]` after one failure more. -/
def retries (s : State) (k : Key) : ℕ := (s.retries_tracker.get? k).getD 0 + 1

/-- One failure more. -/
def counted (s : State) (k : Key) : State :=
  { s with retries_tracker := s.retries_tracker.set k (s.retries k) }

/-- A job more in the queue. -/
def queued (s : State) (job : Fields) : State :=
  { s with pq := s.pq.orderedInsert QueueEntry.Le (entryOf s job), counter := s.counter + 1 }

/-- A task more in the dead letter queue. -/
def buried (s : State) (task : Fields) : State := { s with dlq := s.dlq ++ [task] }

/-- The task is announced. -/
def announced (s : State) (task : Fields) (error : Json) : State :=
  { s with published := s.published ++ [.moveToDlq (taskId task) task error] }

end State

/-! ## One call -/

section Call

variable {py : Python} {cfg : Config}

theorem prints_natStr (n : ℕ) : Prints py (natStr n) := by
  refine prints_of_ascii (List.all_eq_true.mpr fun c hc => ?_)
  have := toNat_of_isDigit (isDigit_of_mem_natStr hc)
  simp only [decide_eq_true_eq]
  omega

theorem print_of_prints {line : Str} (h : Prints py line) : print py line = pure () := if_pos h

theorem print_of_not_prints {line : Str} (h : ¬ Prints py line) :
    print py line = throw .unicodeEncodeError := if_neg h

theorem exec_queueJob (job : Fields) (s : State) :
    exec (queueJob py job) s = (.ok (), s.queued job) := by
  have hline : ∀ n, Prints py ("[SCHEDULER] Job appended; Total backlog: ".toList ++ natStr n) :=
    fun n => prints_append.mpr ⟨prints_of_ascii (by simp), prints_natStr n⟩
  unfold queueJob
  simp only [print_of_prints (hline _)]
  rfl

variable {task : Fields}

/-- The first line about a failure can be printed if the id can. -/
theorem prints_failed (m n : ℕ) : Prints py ("[RETRY ENGINE] Task '".toList ++
    text py (taskId task) ++ "' failed; Retry ".toList ++ natStr m ++ "/".toList ++ natStr n) ↔
      Prints py (text py (taskId task)) := by
  simp only [prints_append]
  exact ⟨fun h => h.1.1.1.1.2, fun h => ⟨⟨⟨⟨⟨prints_of_ascii (by simp), h⟩, prints_of_ascii (by simp)⟩,
    prints_natStr m⟩, prints_of_ascii (by simp)⟩, prints_natStr n⟩⟩

/-- So can the other lines. -/
theorem print_task (h : Prints py (text py (taskId task))) {a b : Str}
    (ha : (a.all fun c => c.toNat < 128) = true) (hb : (b.all fun c => c.toNat < 128) = true) :
    print py (a ++ text py (taskId task) ++ b) = pure () :=
  print_of_prints (prints_append.mpr ⟨prints_append.mpr ⟨prints_of_ascii ha, h⟩, prints_of_ascii hb⟩)

/-- The dead letter queue has the task also if it is not announced. -/
theorem exec_addToDlq (h : Prints py (text py (taskId task))) (error : Json) (updated : Bool)
    (s : State) : (exec (addToDlq py task error updated) s).2 =
      if updated then (s.buried task).announced task error else s.buried task := by
  have hline := print_task h (a := "[DEAD LETTER QUEUE] [DLQ] Task '".toList)
    (b := "' permanently failed ; moved to DLQ".toList) (by simp) (by simp)
  unfold addToDlq
  dsimp only
  rw [show (task.lookup idKey).getD (.str "unknown".toList) = taskId task from rfl, hline]
  cases updated <;> rfl

/-- **One failure** is counted. If the id can be printed and the calls of the repository return, the task
is queued again or buried and announced. -/
theorem exec_retryTaskFailed {event : Fields} {k : Key}
    (h : failedTask py.floats event = some (k, task)) (incremented updated : Bool) (s : State) :
    (exec (retryTaskFailed py cfg event incremented updated) s).2 =
      if incremented = true ∧ Prints py (text py (taskId task)) then
        if s.retries k ≤ cfg.max_retries then
          if updated then (s.counted k).queued task else s.counted k
        else if updated then ((s.counted k).buried task).announced task (errorMsg event)
        else (s.counted k).buried task
      else s.counted k := by
  unfold failedTask at h
  unfold retryTaskFailed
  cases hjob : (event.lookup "job".toList).getD (.obj []) with
  | obj task' =>
    rw [hjob] at h
    obtain ⟨k', hkey, heq⟩ := Option.map_eq_some_iff.mp h
    cases heq
    dsimp only
    rw [show (task.lookup idKey).getD (.str "unknown".toList) = taskId task from rfl]
    unfold key
    rw [hkey, orRaise, exec_pure_bind, exec_get_bind, exec_modify_bind]
    cases incremented with
    | false => rfl
    | true =>
      rw [repoCall, if_pos rfl, exec_pure_bind]
      by_cases hprints : Prints py (text py (taskId task))
      · have hagain := print_task hprints (a := "[RETRY ENGINE] Re-queueing task '".toList)
          (b := "' for retry".toList) (by simp) (by simp)
        have hmax := print_task hprints (a := "[RETRY ENGINE] Max retries reached for '".toList)
          (b := "'; to DLQ transfer".toList) (by simp) (by simp)
        rw [print_of_prints ((prints_failed _ _).mpr hprints), exec_pure_bind, hagain, hmax,
          if_pos (show true = true ∧ _ from ⟨rfl, hprints⟩)]
        by_cases hle : s.retries k ≤ cfg.max_retries
        · have hcount : (s.retries_tracker.get? k).getD 0 + 1 ≤ cfg.max_retries := hle
          rw [if_pos hle, if_pos hcount, exec_pure_bind]
          cases updated with
          | false => rfl
          | true => exact congrArg Prod.snd (exec_queueJob task (s.counted k))
        · have hcount : ¬ (s.retries_tracker.get? k).getD 0 + 1 ≤ cfg.max_retries := hle
          rw [if_neg hle, if_neg hcount, exec_pure_bind]
          exact exec_addToDlq hprints (errorMsg event) updated (s.counted k)
      · have hraise := print_of_not_prints fun hline => hprints ((prints_failed
          ((s.retries_tracker.get? k).getD 0 + 1) cfg.max_retries).mp hline)
        rw [hraise, if_neg fun hc : true = true ∧ _ => hprints hc.2]
        rfl
  | _ =>
    rw [hjob] at h
    cases h

/-- A call on no task leaves everything as it was. -/
theorem exec_retryTaskFailed_of_none {event : Fields} (h : failedTask py.floats event = none)
    (incremented updated : Bool) (s : State) :
    (exec (retryTaskFailed py cfg event incremented updated) s).2 = s := by
  unfold failedTask at h
  unfold retryTaskFailed
  cases hjob : (event.lookup "job".toList).getD (.obj []) with
  | obj task =>
    rw [hjob] at h
    have hkey : keyOf py.floats ((task.lookup idKey).getD (.str "unknown".toList)) = none :=
      Option.map_eq_none_iff.mp h
    dsimp only
    unfold key
    rw [hkey]
    rfl
  | _ => rfl

end Call

/-! ## Runs -/

/-- A failure, with whether the calls of the task repository return, or another job added or taken. -/
inductive RetryStep where
  | taskFailed (event : Fields) (incremented updated : Bool)
  | addJob (job : Fields)
  | getNextJob

/-- The state, how many jobs the failures have put into the queue, and how many calls of
`handle_task_failed` there were. -/
structure Tally where
  state : State
  requeued : ℕ
  calls : ℕ

section Runs

variable (py : Python) (cfg : Config)

/-- The code of a step. -/
def RetryStep.code : RetryStep → Method Unit
  | .taskFailed event incremented updated => retryTaskFailed py cfg event incremented updated
  | .addJob job => queueJob py job
  | .getNextJob => do
    let _ ← Handlers.getNextJob
    pure ()

/-- One step. -/
def Tally.step (t : Tally) (st : RetryStep) : Tally :=
  let s := (exec (st.code py cfg) t.state).2
  match st with
  | .taskFailed _ _ _ => ⟨s, t.requeued + (s.pq.length - t.state.pq.length), t.calls + 1⟩
  | _ => { t with state := s }

/-- A new retry engine after some steps. -/
def tallyOf (steps : List RetryStep) : Tally := steps.foldl (Tally.step py cfg) ⟨.new, 0, 0⟩

/-- How often an id has failed. -/
def failures (k : Key) (steps : List RetryStep) : ℕ :=
  steps.countP fun
    | .taskFailed event _ _ => (failedTask py.floats event).map Prod.fst = some k
    | _ => false

/-- What the `n`-th failure of an id does: up to the maximum the task is queued once, and then it is
buried and announced once. -/
def Spends (n : ℕ) (task : Fields) (error : Json) (s s' : State) : Prop :=
  if n ≤ cfg.max_retries then
    s'.pq.Perm (entryOf s task :: s.pq) ∧ s'.dlq = s.dlq ∧ s'.published = s.published
  else
    s'.pq = s.pq ∧ s'.dlq = s.dlq ++ [task] ∧
      s'.published = s.published ++ [.moveToDlq (taskId task) task error]

/-- The budget is kept all along a run: the next failure of an id is its `k`-th for `k` one more than the
failures of that id so far, and the jobs queued again and those buried are as many as the calls. -/
structure Budgeted (steps : List RetryStep) : Prop where
  spends : ∀ done event incremented updated,
    done ++ [.taskFailed event incremented updated] <+: steps →
    ∀ k task, failedTask py.floats event = some (k, task) →
      Spends cfg (failures py k done + 1) task (errorMsg event) (tallyOf py cfg done).state
        (tallyOf py cfg (done ++ [.taskFailed event incremented updated])).state
  paid : ∀ done, done <+: steps → (tallyOf py cfg done).requeued +
    (tallyOf py cfg done).state.dlq.length = (tallyOf py cfg done).calls

/-- The condition on a call: the job is a dictionary with a hashable id that the standard output can
encode, and the calls of the task repository return. -/
def Completes : RetryStep → Prop
  | .taskFailed event incremented updated => ∃ k task, failedTask py.floats event = some (k, task) ∧
      Prints py (text py (taskId task)) ∧ incremented = true ∧ updated = true
  | _ => True

variable {py cfg}

theorem tallyOf_concat (steps : List RetryStep) (st : RetryStep) :
    tallyOf py cfg (steps ++ [st]) = (tallyOf py cfg steps).step py cfg st := by
  rw [tallyOf, List.foldl_append]
  rfl

theorem failures_concat (k : Key) (steps : List RetryStep) (st : RetryStep) :
    failures py k (steps ++ [st]) = failures py k steps + failures py k [st] :=
  List.countP_append

section Failure

variable {event : Fields} {k : Key} {task : Fields} (h : failedTask py.floats event = some (k, task))
  (incremented updated : Bool) (s : State)

include h

/-- The tracker after a failure, whatever comes of it. -/
theorem tracker_exec :
    (exec (retryTaskFailed py cfg event incremented updated) s).2.retries_tracker =
      s.retries_tracker.set k (s.retries k) := by
  rw [exec_retryTaskFailed h]
  split_ifs <;> rfl

/-- **A failure does what it should** exactly if nothing raises. -/
theorem spends_exec_iff : Spends cfg (s.retries k) task (errorMsg event) s
      (exec (retryTaskFailed py cfg event incremented updated) s).2 ↔
    Prints py (text py (taskId task)) ∧ incremented = true ∧ updated = true := by
  have hqueue : ∀ q : List QueueEntry, ¬ q.Perm (entryOf s task :: q) := fun q hq => by
    have := hq.length_eq
    rw [List.length_cons] at this
    omega
  have hbury : s.dlq ≠ s.dlq ++ [task] := fun hd => by simpa using congrArg List.length hd
  have hannounce : ∀ p : Published, s.published ≠ s.published ++ [p] := fun p hp => by
    simpa using congrArg List.length hp
  rw [exec_retryTaskFailed h, Spends]
  by_cases hle : s.retries k ≤ cfg.max_retries
  · simp only [if_pos hle]
    split_ifs with hgo hupdated
    · exact iff_of_true ⟨List.perm_orderedInsert _ _ _, rfl, rfl⟩ ⟨hgo.2, hgo.1, hupdated⟩
    · exact iff_of_false (fun hs => hqueue _ hs.1) fun hall => hupdated hall.2.2
    · exact iff_of_false (fun hs => hqueue _ hs.1) fun hall => hgo ⟨hall.2.1, hall.1⟩
  · simp only [if_neg hle]
    split_ifs with hgo hupdated
    · exact iff_of_true ⟨rfl, rfl, rfl⟩ ⟨hgo.2, hgo.1, hupdated⟩
    · exact iff_of_false (fun hs => hannounce _ hs.2.2) fun hall => hupdated hall.2.2
    · exact iff_of_false (fun hs => hbury hs.2.1) fun hall => hgo ⟨hall.2.1, hall.1⟩

end Failure

variable (cfg) in
/-- **The tracker counts the failures of each id**, and no others. -/
theorem tracker_tallyOf (steps : List RetryStep) (k : Key) :
    ((tallyOf py cfg steps).state.retries_tracker.get? k).getD 0 = failures py k steps := by
  induction steps using List.reverseRecOn with
  | nil => rfl
  | append_singleton steps st ih =>
    rw [tallyOf_concat, failures_concat, ← ih]
    generalize tallyOf py cfg steps = t
    cases st with
    | addJob job =>
      show (PyDict.get? (exec (queueJob _ job) t.state).2.retries_tracker k).getD 0 = _
      rw [exec_queueJob]
      rfl
    | getNextJob => rfl
    | taskFailed event incremented updated =>
      show (PyDict.get? (exec (retryTaskFailed py cfg event incremented updated)
        t.state).2.retries_tracker k).getD 0 = _
      cases hfailed : failedTask py.floats event with
      | none =>
        rw [exec_retryTaskFailed_of_none hfailed]
        simp [failures, hfailed]
      | some p =>
        obtain ⟨k', task⟩ := p
        rw [tracker_exec hfailed, PyDict.get?_set]
        by_cases hk : k = k'
        · subst hk
          simp [failures, hfailed, State.retries]
        · simp [failures, hfailed, hk, Ne.symm hk]

variable (cfg) in
/-- The next failure of an id, by the failures so far. -/
theorem spends_next_iff (done : List RetryStep) {event : Fields} {k : Key} {task : Fields}
    (h : failedTask py.floats event = some (k, task)) (incremented updated : Bool) :
    Spends cfg (failures py k done + 1) task (errorMsg event) (tallyOf py cfg done).state
        (tallyOf py cfg (done ++ [.taskFailed event incremented updated])).state ↔
      Completes py (.taskFailed event incremented updated) := by
  rw [tallyOf_concat, ← tracker_tallyOf cfg]
  refine (spends_exec_iff h incremented updated (tallyOf py cfg done).state).trans ?_
  constructor
  · exact fun hall => ⟨k, task, h, hall⟩
  · rintro ⟨k', task', h', hall⟩
    rw [h] at h'
    cases h'
    exact hall

/-- A failure that does what it should is paid for once. -/
theorem paid_of_spends {n : ℕ} {task : Fields} {error : Json} {s s' : State}
    (h : Spends cfg n task error s s') :
    s'.pq.length - s.pq.length + s'.dlq.length = s.dlq.length + 1 := by
  unfold Spends at h
  split_ifs at h
  · obtain ⟨hpq, hdlq, -⟩ := h
    have hlength := hpq.length_eq
    rw [List.length_cons] at hlength
    rw [hdlq]
    omega
  · obtain ⟨hpq, hdlq, -⟩ := h
    rw [hpq, hdlq, List.length_append, List.length_singleton]
    omega

/-- Every call is paid for once. -/
theorem paid_of_completes {steps : List RetryStep} (h : ∀ st ∈ steps, Completes py st) :
    (tallyOf py cfg steps).requeued + (tallyOf py cfg steps).state.dlq.length =
      (tallyOf py cfg steps).calls := by
  induction steps using List.reverseRecOn with
  | nil => rfl
  | append_singleton steps st ih =>
    rw [List.forall_mem_append, List.forall_mem_singleton] at h
    have ih := ih h.1
    cases st with
    | addJob job =>
      rw [tallyOf_concat]
      show (tallyOf py cfg steps).requeued +
        (exec (queueJob py job) (tallyOf py cfg steps).state).2.dlq.length = _
      rw [exec_queueJob]
      exact ih
    | getNextJob =>
      rw [tallyOf_concat]
      exact ih
    | taskFailed event incremented updated =>
      obtain ⟨k, task, hfailed, -⟩ := h.2
      have hpaid := paid_of_spends ((spends_next_iff cfg steps hfailed incremented
        updated).mpr h.2)
      rw [tallyOf_concat] at hpaid ⊢
      simp only [Tally.step] at hpaid ⊢
      omega

/-- A call on no task is not paid for. -/
theorem not_paid_of_none {done : List RetryStep} {event : Fields}
    (h : failedTask py.floats event = none) (incremented updated : Bool)
    (hdone : (tallyOf py cfg done).requeued + (tallyOf py cfg done).state.dlq.length =
      (tallyOf py cfg done).calls) :
    let t := tallyOf py cfg (done ++ [.taskFailed event incremented updated])
    t.requeued + t.state.dlq.length ≠ t.calls := by
  intro t
  have ht : t = (tallyOf py cfg done).step py cfg (.taskFailed event incremented updated) :=
    tallyOf_concat done _
  have hstate : (exec (retryTaskFailed py cfg event incremented updated)
      (tallyOf py cfg done).state).2 = (tallyOf py cfg done).state :=
    exec_retryTaskFailed_of_none h incremented updated _
  rw [ht, Tally.step, RetryStep.code, hstate]
  dsimp only
  omega

variable (py cfg)

/-- **The budget is kept all along a run exactly if every call completes**: each is about a dictionary
with an id that can be printed, and no call of the task repository raises. -/
theorem retry_budget (steps : List RetryStep) :
    Budgeted py cfg steps ↔ ∀ st ∈ steps, Completes py st := by
  constructor
  · intro h st hst
    obtain ⟨done, rest, rfl⟩ := List.append_of_mem hst
    have hprefix : done ++ [st] <+: done ++ st :: rest :=
      ⟨rest, by rw [List.append_assoc, List.singleton_append]⟩
    cases st with
    | addJob job => trivial
    | getNextJob => trivial
    | taskFailed event incremented updated =>
      cases hfailed : failedTask py.floats event with
      | none =>
        exact absurd (h.paid _ hprefix) (not_paid_of_none hfailed incremented updated
          (h.paid done (List.prefix_append _ _)))
      | some p =>
        exact (spends_next_iff cfg done hfailed incremented updated).mp
          (h.spends done event incremented updated hprefix p.1 p.2 hfailed)
  · intro h
    refine ⟨fun done event incremented updated hprefix k task hfailed => ?_, fun done hprefix => ?_⟩
    · exact (spends_next_iff cfg done hfailed incremented updated).mpr
        (h _ (List.IsPrefix.subset hprefix (List.mem_append_right _ (List.mem_singleton_self _))))
    · exact paid_of_completes fun st hst => h st (List.IsPrefix.subset hprefix hst)

/-- A standard output that is ASCII. -/
def asciiPython : Python :=
  ⟨noFloats, fun _ => [], fun c => c.toNat < 128, fun _ h => decide_eq_true h⟩

/-- A task whose id is no ASCII text. -/
def accentedTask : Fields := [(idKey, .str ['\u00e9'])]

/-- **The failure of a task whose id cannot be printed** is counted, and the task is neither queued again
nor buried. -/
theorem not_budgeted_accentedTask : ¬ ∀ steps, Budgeted asciiPython ⟨3, 5, 3⟩ steps := by
  intro h
  have hspends := (h [.taskFailed [("job".toList, .obj accentedTask)] true true]).paid _
    (List.prefix_refl _)
  revert hspends
  decide +kernel

end Runs

end JobSystem.Handlers
