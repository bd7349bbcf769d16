import JobSystem.Lib.Trans
import JobSystem.Coordinator.Repo

/-!
# The cache and the database

Calls of the two repositories, one at a time. Every call writes the cached record and then the row; a
transaction that is rolled back leaves the record as it was written.

* `RepoCall`, `call`;
* `Agrees`: the records without `result` and `error` are the rows; `Registered`: every row names a
  worker that has a row;
* `Named`: a call names no worker without a row; **`agrees_call_iff`**: one call;
* **`agrees_run_iff`**: runs of calls.
-/

namespace JobSystem

open PyText Trans
open PyJson (Json)

/-- What a cached record shares with a row. -/
def TaskRecord.shared (data : TaskRecord) : TaskRow :=
  ⟨data.job_type, data.priority, data.status, data.retries, data.worker_id⟩

/-- A call, with its arguments. -/
inductive RepoCall where
  | save_worker (worker_id : Str) (capacity : Option ℤ) (status : Str) (last_heartbeat : ℚ)
  | save_task (task_id : Str) (job_type priority : Json) (status : TaskStatus) (retries : ℤ)
      (worker_id : Option Str)
  | update_status (task_id : Str) (status : TaskStatus) (worker_id : Option Str)
      (result error : Json)
  | increment_retry (task_id : Str)

namespace TaskRepository

/-- One call. -/
def call (repr : Json → Str) : Machine TaskRepository RepoCall
  | .save_worker w capacity status last_heartbeat, repo =>
    some (repo.saveWorker w capacity status last_heartbeat)
  | .save_task t job_type priority status retries w, repo =>
    some (repo.saveTask repr t job_type priority status retries w)
  | .update_status t status w result error, repo => some (repo.updateStatus t status w result error)
  | .increment_retry t, repo => some (repo.incrementRetry t)

/-- Two empty stores, with PostgreSQL online. -/
def emptyStores : TaskRepository := ⟨⟨true, true, ∅, ∅⟩, ∅⟩

/-- A task has a record exactly when it has a row, and they share their fields. -/
def Agrees (repo : TaskRepository) : Prop :=
  ∀ t, (repo.task_cache.get? t).map TaskRecord.shared = repo.row? t

/-- The worker that a call writes into a row has a row itself. -/
def Named (repo : TaskRepository) : RepoCall → Prop
  | .save_task _ _ _ _ _ w => ∀ v ∈ w, v ∈ repo.store.workers
  | .update_status t _ w _ _ =>
    (repo.row? t).isSome → ∀ v ∈ w.filter (· ≠ []), v ∈ repo.store.workers
  | _ => True

/-- PostgreSQL is online, and every row names a worker that has a row. -/
structure Registered (repo : TaskRepository) : Prop where
  online : repo.store.online = true
  enforces_fk : repo.store.enforces_fk = true
  workers : ∀ t row, repo.row? t = some row → ∀ w ∈ row.worker_id, w ∈ repo.store.workers

/-- The cached record of a task, without `result` and `error`. -/
def cached? (repo : TaskRepository) (task_id : Str) : Option TaskRow :=
  (repo.task_cache.get? task_id).map TaskRecord.shared

/-! ## What each call writes -/

section Writes

variable (repo : TaskRepository) (repr : Json → Str) (t t' : Str) (job_type priority result error : Json)
  (status : TaskStatus) (retries : ℤ) (w : Option Str)

theorem cached?_saveTask :
    (repo.saveTask repr t job_type priority status retries w).cached? t' =
      if t' = t then some ⟨job_type.pyStr repr, priority.pyStr repr, status, retries, w⟩
      else repo.cached? t' := by
  unfold cached? saveTask
  rw [PyDict.get?_set]
  split_ifs <;> rfl

theorem cached?_updateStatus :
    (repo.updateStatus t status w result error).cached? t' =
      if t' = t then (repo.cached? t).map fun task =>
        { task with status := status, worker_id := (w.filter (· ≠ [])).or task.worker_id }
      else repo.cached? t' := by
  unfold cached? updateStatus
  rw [PyDict.get?_modify]
  split_ifs
  · cases repo.task_cache.get? t <;> rfl
  · rfl

theorem cached?_incrementRetry :
    (repo.incrementRetry t).cached? t' =
      if t' = t then (repo.cached? t).map fun task => { task with retries := task.retries + 1 }
      else repo.cached? t' := by
  unfold cached? incrementRetry
  rw [PyDict.get?_modify]
  split_ifs
  · cases repo.task_cache.get? t <;> rfl
  · rfl

variable (honline : repo.store.online = true)

include honline

/-- The transaction of `save_task` commits if the foreign key allows it. -/
theorem row?_saveTask_worker :
    (repo.saveTask repr t job_type priority status retries w).row? t' =
      if t' = t ∧ repo.store.Allows w then
        some ⟨job_type.pyStr repr, priority.pyStr repr, status, retries, w⟩
      else repo.row? t' := by
  simp only [row?, saveTask, PostgresStore.saveTask, honline, if_true]
  by_cases hfk : repo.store.Allows w
  · simp only [hfk, if_true, and_true]
    exact PyDict.get?_set _ _ _ _
  · simp only [hfk, if_false, and_false]

end Writes

/-! ## One call -/

section Call

variable {repr : Json → Str} {repo : TaskRepository}

theorem Registered.allows_iff (h : repo.Registered) (w : Option Str) :
    repo.store.Allows w ↔ ∀ v ∈ w, v ∈ repo.store.workers :=
  ⟨fun hfk => hfk h.enforces_fk, fun hfk _ => hfk⟩

/-- A row never names a worker that the foreign key refuses. -/
theorem Registered.not_refused (h : repo.Registered) {t : Str} {w : Option Str}
    (hfk : ¬ repo.store.Allows w) {row : TaskRow} (hw : ∀ v ∈ w, row.worker_id = some v) :
    repo.row? t ≠ some row := by
  intro hrow
  refine hfk ((h.allows_iff w).mpr fun v hv => ?_)
  exact h.workers t row hrow v (hw v hv)

theorem registered_emptyStores : emptyStores.Registered where
  online := rfl
  enforces_fk := rfl
  workers := by
    intro t row hrow
    cases hrow

theorem agrees_emptyStores : emptyStores.Agrees := fun _ => rfl

/-- The settings of the store stay, and the workers only grow. -/
theorem store_call {c : RepoCall} {repo' : TaskRepository} (hc : call repr c repo = some repo') :
    repo'.store.online = repo.store.online ∧ repo'.store.enforces_fk = repo.store.enforces_fk ∧
      ∀ v ∈ repo.store.workers, v ∈ repo'.store.workers := by
  cases c with
  | save_worker w capacity status last_heartbeat =>
    cases hc
    unfold saveWorker PostgresStore.saveWorker
    split_ifs
    · exact ⟨rfl, rfl, fun v hv => PyDict.mem_set.mpr (.inr hv)⟩
    · exact ⟨rfl, rfl, fun v hv => hv⟩
  | save_task t job_type priority status retries w =>
    cases hc
    unfold saveTask PostgresStore.saveTask
    dsimp only
    split_ifs <;> exact ⟨rfl, rfl, fun v hv => hv⟩
  | update_status t status w result error =>
    cases hc
    unfold updateStatus PostgresStore.updateStatus
    dsimp only
    split_ifs <;> exact ⟨rfl, rfl, fun v hv => hv⟩
  | increment_retry t =>
    cases hc
    unfold incrementRetry PostgresStore.incrementRetry
    dsimp only
    split_ifs <;> exact ⟨rfl, rfl, fun v hv => hv⟩

/-- Every call keeps the foreign key. -/
theorem registered_call (h : repo.Registered) {c : RepoCall} {repo' : TaskRepository}
    (hc : call repr c repo = some repo') : repo'.Registered := by
  obtain ⟨honline, hfk, hworkers⟩ := store_call hc
  refine ⟨honline.trans h.online, hfk.trans h.enforces_fk, fun t' row hrow v hv => hworkers v ?_⟩
  cases c with
  | save_worker w capacity status last_heartbeat =>
    cases hc
    rw [row?_saveWorker] at hrow
    exact h.workers t' row hrow v hv
  | save_task t job_type priority status retries w =>
    cases hc
    rw [row?_saveTask_worker _ _ _ _ _ _ _ _ _ h.online] at hrow
    split_ifs at hrow with hset
    · cases hrow
      exact (h.allows_iff w).mp hset.2 v hv
    · exact h.workers t' row hrow v hv
  | update_status t status w result error =>
    cases hc
    rw [row?_updateStatus h.online] at hrow
    split_ifs at hrow with hset
    · obtain ⟨old, hold, rfl⟩ := Option.map_eq_some_iff.mp hrow
      rcases Option.or_eq_some_iff.mp (Option.mem_def.mp hv) with hnew | ⟨-, hkept⟩
      · exact (h.allows_iff _).mp hset.2 v hnew
      · exact h.workers t old hold v hkept
    · exact h.workers t' row hrow v hv
  | increment_retry t =>
    cases hc
    rw [row?_incrementRetry h.online] at hrow
    split_ifs at hrow
    · obtain ⟨old, hold, rfl⟩ := Option.map_eq_some_iff.mp hrow
      exact h.workers t old hold v hv
    · exact h.workers t' row hrow v hv

theorem agrees_saveTask_iff (h : repo.Registered) (hagrees : repo.Agrees) (t : Str)
    (job_type priority : Json) (status : TaskStatus) (retries : ℤ) (w : Option Str) :
    (repo.saveTask repr t job_type priority status retries w).Agrees ↔ repo.store.Allows w := by
  have hrow := fun t' => row?_saveTask_worker repo repr t t' job_type priority status retries w h.online
  have hcached := fun t' => repo.cached?_saveTask repr t t' job_type priority status retries w
  by_cases hfk : repo.store.Allows w
  · refine iff_of_true (fun t' => ?_) hfk
    show cached? _ t' = _
    rw [hrow, hcached]
    simp only [hfk, and_true]
    split_ifs
    · rfl
    · exact hagrees t'
  · refine iff_of_false (fun h' => ?_) hfk
    have ht : cached? _ t = _ := h' t
    rw [hrow, hcached, if_pos rfl, if_neg fun hset => hfk hset.2] at ht
    exact h.not_refused hfk (fun v hv => hv) ht.symm

theorem agrees_updateStatus_iff (h : repo.Registered) (hagrees : repo.Agrees) (t : Str)
    (status : TaskStatus) (w : Option Str) (result error : Json) :
    (repo.updateStatus t status w result error).Agrees ↔
      ((repo.row? t).isSome → repo.store.Allows (w.filter (· ≠ []))) := by
  have hrow := fun t' => row?_updateStatus h.online t t' status w result error
  have hcached := fun t' => repo.cached?_updateStatus t t' result error status w
  have ht : repo.cached? t = repo.row? t := hagrees t
  cases hold : repo.row? t with
  | none =>
    refine iff_of_true (fun t' => ?_) fun hsome => absurd hsome (by decide)
    show cached? _ t' = _
    rw [hrow, hcached, ht, hold]
    by_cases htt : t' = t
    · subst htt
      simp [hold]
    · simp only [htt, false_and, if_false]
      exact hagrees t'
  | some old =>
    by_cases hfk : repo.store.Allows (w.filter (· ≠ []))
    · refine iff_of_true (fun t' => ?_) fun _ => hfk
      show cached? _ t' = _
      rw [hrow, hcached, ht]
      simp only [hfk, and_true]
      split_ifs
      · rfl
      · exact hagrees t'
    · refine iff_of_false (fun h' => ?_) fun hallowed => hfk (hallowed rfl)
      have ht' : cached? _ t = _ := h' t
      rw [hrow, hcached, if_pos rfl, if_neg fun hset => hfk hset.2, ht, hold] at ht'
      refine h.not_refused hfk (fun v hv => ?_) (hold.trans ht'.symm)
      rw [Option.mem_def.mp hv]
      rfl

/-- **One call** keeps the agreement exactly if it names no worker without a row. -/
theorem agrees_call_iff (h : repo.Registered) (hagrees : repo.Agrees) {c : RepoCall}
    {repo' : TaskRepository} (hc : call repr c repo = some repo') :
    repo'.Agrees ↔ repo.Named c := by
  cases c with
  | save_worker w capacity status last_heartbeat =>
    cases hc
    refine iff_of_true (fun t => ?_) trivial
    rw [row?_saveWorker]
    exact hagrees t
  | save_task t job_type priority status retries w =>
    cases hc
    exact (agrees_saveTask_iff h hagrees ..).trans (h.allows_iff w)
  | update_status t status w result error =>
    cases hc
    exact (agrees_updateStatus_iff h hagrees ..).trans (forall_congr' fun _ => h.allows_iff _)
  | increment_retry t =>
    cases hc
    refine iff_of_true (fun t' => ?_) trivial
    show cached? _ t' = _
    rw [row?_incrementRetry h.online, cached?_incrementRetry]
    split_ifs
    · rw [show repo.cached? t = repo.row? t from hagrees t]
    · exact hagrees t'

end Call

/-! ## Runs -/

/-- **The stores agree all along a run** exactly if no call names a worker that was not saved. -/
theorem agrees_run_iff (repr : Json → Str) (calls : List RepoCall) :
    (∀ done repo, done <+: calls → run (call repr) done emptyStores = some repo → repo.Agrees) ↔
      Guarded (call repr) Named calls emptyStores := by
  refine run_invariant_iff (J := Registered) ?_ ?_ ?_ registered_emptyStores agrees_emptyStores
  · intro c repo repo' h _ hc _
    exact registered_call h hc
  · intro c repo repo' h hagrees hc
    exact agrees_call_iff h hagrees hc
  · intro c repo hc _ _
    cases c <;> cases hc

/-- A task is assigned to a worker that was never saved. -/
def assignedToUnsaved : List RepoCall :=
  [.save_task ['1'] (.str ['a']) (.str "LOW".toList) .PENDING 0 none,
    .update_status ['1'] .ASSIGNED (some ['w']) .null .null]

theorem disagrees_assignedToUnsaved : ¬ ∀ (repr : Json → Str) (calls : List RepoCall)
    (repo : TaskRepository), run (call repr) calls emptyStores = some repo → repo.Agrees := by
  intro h
  have ht := h (fun _ => []) assignedToUnsaved _ rfl ['1']
  exact absurd (congrArg (Option.map TaskRow.status) ht) (by decide)

end TaskRepository

end JobSystem
