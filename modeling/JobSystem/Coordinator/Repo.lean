import JobSystem.Coordinator.Job

/-!
# The task repository

The two tables, the cached task records, and `TaskRepository` and `WorkerRepository` on them. The
cache neither fails nor evicts. A transaction commits unless the database checks the foreign key of
`tasks.worker_id` and finds no such worker: PostgreSQL does, the SQLite fallback does not.

* `saveTask`, `updateStatus`, `incrementRetry`, `getAssignedTasksForWorker`, `saveWorker`;
* **`row?_saveTask`**, **`row?_updateStatus`**, **`row?_incrementRetry`**: the rows after each;
* **`status?_saveTask`**, **`status?_updateStatus`**: the stored statuses after each;
* `mem_getAssignedTasksForWorker`: whose tasks are returned.
-/

namespace JobSystem

open PyText
open PyJson (Json)

/-- A `TaskDB` row; its primary key is the key of the table. -/
structure TaskRow where
  job_type : Str
  priority : Str
  status : TaskStatus
  retries : ℤ
  worker_id : Option Str

/-- `filter_by(worker_id=w, status="ASSIGNED")`. -/
def TaskRow.AssignedTo (row : TaskRow) (w : Str) : Prop :=
  row.worker_id = some w ∧ row.status = .ASSIGNED

instance (row : TaskRow) (w : Str) : Decidable (row.AssignedTo w) :=
  inferInstanceAs (Decidable (_ ∧ _))

/-- A `WorkerDB` row. -/
structure WorkerRow where
  capacity : Option ℤ
  status : Str
  last_heartbeat : ℚ

/-- The database. -/
structure PostgresStore where
  online : Bool
  enforces_fk : Bool
  workers : PyDict Str WorkerRow
  tasks : PyDict Str TaskRow

namespace PostgresStore

/-- The foreign key lets this `worker_id` be written. -/
def Allows (store : PostgresStore) (worker_id : Option Str) : Prop :=
  store.enforces_fk = true → ∀ w ∈ worker_id, w ∈ store.workers

instance (store : PostgresStore) : DecidablePred store.Allows := fun worker_id =>
  inferInstanceAs (Decidable (store.enforces_fk = true → ∀ w ∈ worker_id, w ∈ store.workers))

@[simp] theorem allows_none (store : PostgresStore) : store.Allows none := by
  intro _ w hw
  cases hw

/-- The session of `save_task`. -/
def saveTask (store : PostgresStore) (task_id : Str) (row : TaskRow) : PostgresStore :=
  if store.Allows row.worker_id then { store with tasks := store.tasks.set task_id row } else store

/-- The session of `update_status`, for a `worker_id` that is not empty. -/
def updateStatus (store : PostgresStore) (task_id : Str) (status : TaskStatus)
    (worker_id : Option Str) : PostgresStore :=
  if store.Allows worker_id then
    { store with
      tasks := store.tasks.modify task_id fun task =>
        { task with status := status, worker_id := worker_id.or task.worker_id } }
  else store

/-- The session of `increment_retry`. -/
def incrementRetry (store : PostgresStore) (task_id : Str) : PostgresStore :=
  { store with
    tasks := store.tasks.modify task_id fun task => { task with retries := task.retries + 1 } }

/-- `WorkerRepository.save_worker`. -/
def saveWorker (store : PostgresStore) (worker_id : Str) (capacity : Option ℤ) (status : Str)
    (last_heartbeat : ℚ) : PostgresStore :=
  if store.online then
    { store with workers := store.workers.set worker_id ⟨capacity, status, last_heartbeat⟩ }
  else store

end PostgresStore

/-- The JSON object under `task:<id>`; `result` and `error` are absent until they are written. -/
@[ext]
structure TaskRecord where
  job_type : Str
  priority : Str
  status : TaskStatus
  retries : ℤ
  worker_id : Option Str
  result : Option Json
  error : Option Json

/-- `TaskRepository`, with `task_cache`. -/
structure TaskRepository where
  store : PostgresStore
  task_cache : PyDict Str TaskRecord

namespace TaskRepository

/-- `save_task`; `repr` is the text of a float or a container. -/
def saveTask (repr : Json → Str) (repo : TaskRepository) (task_id : Str) (job_type priority : Json)
    (status : TaskStatus) (retries : ℤ) (worker_id : Option Str) : TaskRepository where
  store :=
    if repo.store.online then
      repo.store.saveTask task_id
        ⟨job_type.pyStr repr, priority.pyStr repr, status, retries, worker_id⟩
    else repo.store
  task_cache := repo.task_cache.set task_id
    ⟨job_type.pyStr repr, priority.pyStr repr, status, retries, worker_id, none, none⟩

/-- `update_status`; an empty `worker_id`, and a `result` or `error` that is `None`, are not written. -/
def updateStatus (repo : TaskRepository) (task_id : Str) (status : TaskStatus)
    (worker_id : Option Str) (result error : Json) : TaskRepository where
  store :=
    if repo.store.online then
      repo.store.updateStatus task_id status (worker_id.filter (· ≠ []))
    else repo.store
  task_cache := repo.task_cache.modify task_id fun data =>
    { data with
      status := status
      worker_id := (worker_id.filter (· ≠ [])).or data.worker_id
      result := result.notNone.or data.result
      error := error.notNone.or data.error }

/-- `increment_retry`. -/
def incrementRetry (repo : TaskRepository) (task_id : Str) : TaskRepository where
  store := if repo.store.online then repo.store.incrementRetry task_id else repo.store
  task_cache := repo.task_cache.modify task_id fun data => { data with retries := data.retries + 1 }

/-- `{"id": task_id, "job_type": job_type, "priority": priority}`. -/
def rebuiltJob (task_id job_type priority : Str) : Job where
  fields := ((PyDict.empty.set idKey (.str task_id)).set jobTypeKey (.str job_type)).set
    priorityKey (.str priority)
  id := task_id
  get_id := by
    rw [PyDict.get?_set_ne _ (by decide), PyDict.get?_set_ne _ (by decide), PyDict.get?_set_self]

/-- `get_assigned_tasks_for_worker`. -/
def getAssignedTasksForWorker (repo : TaskRepository) (worker_id : Str) : List Job :=
  if repo.store.online then
    (repo.store.tasks.entries.filter fun t => t.2.AssignedTo worker_id).map fun t =>
      rebuiltJob t.1 t.2.job_type t.2.priority
  else []

/-- `save_worker`. -/
def saveWorker (repo : TaskRepository) (worker_id : Str) (capacity : Option ℤ) (status : Str)
    (last_heartbeat : ℚ) : TaskRepository :=
  { repo with store := repo.store.saveWorker worker_id capacity status last_heartbeat }

/-- Where a status is stored. -/
inductive Place where
  | database
  | cache
  deriving DecidableEq

/-- The row of a task. -/
def row? (repo : TaskRepository) (task_id : Str) : Option TaskRow := repo.store.tasks.get? task_id

/-- The stored status of a task. -/
def status? (repo : TaskRepository) : Place → Str → Option TaskStatus
  | .database, t => (repo.row? t).map TaskRow.status
  | .cache, t => (repo.task_cache.get? t).map TaskRecord.status

@[simp] theorem online_saveTask (repr : Json → Str) (repo : TaskRepository) (t : Str)
    (job_type priority : Json) (status : TaskStatus) (retries : ℤ) (worker_id : Option Str) :
    (repo.saveTask repr t job_type priority status retries worker_id).store.online =
      repo.store.online := by
  unfold saveTask PostgresStore.saveTask
  split_ifs <;> rfl

@[simp] theorem online_updateStatus (repo : TaskRepository) (t : Str) (status : TaskStatus)
    (worker_id : Option Str) (result error : Json) :
    (repo.updateStatus t status worker_id result error).store.online = repo.store.online := by
  unfold updateStatus PostgresStore.updateStatus
  split_ifs <;> rfl

@[simp] theorem online_incrementRetry (repo : TaskRepository) (t : Str) :
    (repo.incrementRetry t).store.online = repo.store.online := by
  unfold incrementRetry PostgresStore.incrementRetry
  split_ifs <;> rfl

@[simp] theorem online_saveWorker (repo : TaskRepository) (w : Str) (capacity : Option ℤ)
    (status : Str) (last_heartbeat : ℚ) :
    (repo.saveWorker w capacity status last_heartbeat).store.online = repo.store.online := by
  unfold saveWorker PostgresStore.saveWorker
  split_ifs <;> rfl

@[simp] theorem row?_saveWorker (repo : TaskRepository) (w : Str) (capacity : Option ℤ)
    (status : Str) (last_heartbeat : ℚ) (t : Str) :
    (repo.saveWorker w capacity status last_heartbeat).row? t = repo.row? t := by
  unfold row? saveWorker PostgresStore.saveWorker
  split_ifs <;> rfl

/-! ## The rows after each operation -/

section Rows

variable {repo : TaskRepository} (honline : repo.store.online = true)

include honline

/-- A new task, which names no worker, is always saved. -/
theorem row?_saveTask (repr : Json → Str) (t t' : Str) (job_type priority : Json)
    (status : TaskStatus) (retries : ℤ) :
    (repo.saveTask repr t job_type priority status retries none).row? t' =
      if t' = t then some ⟨job_type.pyStr repr, priority.pyStr repr, status, retries, none⟩
      else repo.row? t' := by
  simp only [row?, saveTask, PostgresStore.saveTask, honline, if_true, PostgresStore.allows_none]
  exact PyDict.get?_set _ _ _ _

theorem row?_updateStatus (t t' : Str) (status : TaskStatus) (worker_id : Option Str)
    (result error : Json) :
    (repo.updateStatus t status worker_id result error).row? t' =
      if t' = t ∧ repo.store.Allows (worker_id.filter (· ≠ [])) then
        (repo.row? t).map fun task =>
          { task with
            status := status
            worker_id := (worker_id.filter (· ≠ [])).or task.worker_id }
      else repo.row? t' := by
  simp only [row?, updateStatus, PostgresStore.updateStatus, honline, if_true]
  split_ifs with hfk h h
  · rw [PyDict.get?_modify, if_pos h.1]
  · rw [PyDict.get?_modify, if_neg fun e => h ⟨e, hfk⟩]
  · exact absurd h.2 hfk
  · rfl

/-- Without a worker the foreign key plays no part. -/
theorem row?_updateStatus_none (t t' : Str) (status : TaskStatus) (result error : Json) :
    (repo.updateStatus t status none result error).row? t' =
      if t' = t then (repo.row? t).map fun task => { task with status := status }
      else repo.row? t' := by
  rw [row?_updateStatus honline]
  simp only [Option.filter_none, PostgresStore.allows_none, and_true, Option.none_or]

theorem row?_incrementRetry (t t' : Str) :
    (repo.incrementRetry t).row? t' =
      if t' = t then (repo.row? t).map fun task => { task with retries := task.retries + 1 }
      else repo.row? t' := by
  simp only [row?, incrementRetry, PostgresStore.incrementRetry, honline, if_true]
  exact PyDict.get?_modify _ _ _ _

omit honline in
/-- The database of a repository that is offline does not change. -/
theorem store_updateStatus_of_offline (hoff : repo.store.online = false) (t : Str)
    (status : TaskStatus) (worker_id : Option Str) (result error : Json) :
    (repo.updateStatus t status worker_id result error).store = repo.store :=
  if_neg (by rw [hoff]; exact Bool.false_ne_true)

omit honline in
theorem store_incrementRetry_of_offline (hoff : repo.store.online = false) (t : Str) :
    (repo.incrementRetry t).store = repo.store :=
  if_neg (by rw [hoff]; exact Bool.false_ne_true)

omit honline in
theorem store_saveTask_of_offline (hoff : repo.store.online = false) (repr : Json → Str) (t : Str)
    (job_type priority : Json) (status : TaskStatus) (retries : ℤ) (worker_id : Option Str) :
    (repo.saveTask repr t job_type priority status retries worker_id).store = repo.store :=
  if_neg (by rw [hoff]; exact Bool.false_ne_true)

omit honline in
theorem store_saveWorker_of_offline (hoff : repo.store.online = false) (w : Str)
    (capacity : Option ℤ) (status : Str) (last_heartbeat : ℚ) :
    (repo.saveWorker w capacity status last_heartbeat).store = repo.store :=
  if_neg (by rw [hoff]; exact Bool.false_ne_true)

theorem mem_getAssignedTasksForWorker (w : Str) (job : Job) :
    job ∈ repo.getAssignedTasksForWorker w ↔
      ∃ t row, repo.row? t = some row ∧ row.AssignedTo w ∧
        job = rebuiltJob t row.job_type row.priority := by
  simp only [getAssignedTasksForWorker, honline, if_true, List.mem_map, List.mem_filter,
    decide_eq_true_iff, row?, Prod.exists, PyDict.mem_entries_iff]
  constructor
  · rintro ⟨t, row, ⟨hrow, has⟩, rfl⟩
    exact ⟨t, row, hrow, has, rfl⟩
  · rintro ⟨t, row, hrow, has, rfl⟩
    exact ⟨t, row, ⟨hrow, has⟩, rfl⟩

theorem mem_ids_getAssignedTasksForWorker (w t : Str) :
    t ∈ (repo.getAssignedTasksForWorker w).map Job.id ↔
      ∃ row, repo.row? t = some row ∧ row.AssignedTo w := by
  rw [List.mem_map]
  constructor
  · rintro ⟨job, hjob, rfl⟩
    obtain ⟨t, row, hrow, has, rfl⟩ := (mem_getAssignedTasksForWorker honline w job).mp hjob
    exact ⟨row, hrow, has⟩
  · rintro ⟨row, hrow, has⟩
    exact ⟨_, (mem_getAssignedTasksForWorker honline w _).mpr ⟨t, row, hrow, has, rfl⟩, rfl⟩

omit honline in
/-- Only a database that is online returns tasks. -/
theorem online_of_mem_getAssignedTasksForWorker {w : Str} {job : Job}
    (h : job ∈ repo.getAssignedTasksForWorker w) : repo.store.online = true := by
  unfold getAssignedTasksForWorker at h
  split_ifs at h with honline
  · exact honline
  · cases h

omit honline in
/-- Each assigned task is returned once. -/
theorem nodup_getAssignedTasksForWorker (repo : TaskRepository) (w : Str) :
    ((repo.getAssignedTasksForWorker w).map Job.id).Nodup := by
  unfold getAssignedTasksForWorker
  split_ifs
  · rw [List.map_map]
    exact repo.store.tasks.nodup.sublist (List.filter_sublist.map _)
  · exact List.nodup_nil

end Rows

/-! ## The statuses after each operation -/

/-- A database that is offline was never connected. -/
def Steady (repo : TaskRepository) : Prop := repo.store.online = false → repo.store.tasks = ∅

section Steady

variable {repo : TaskRepository} (hsteady : repo.Steady)

include hsteady

/-- What keeps the database of an offline repository keeps the repository steady. -/
theorem Steady.mono {repo' : TaskRepository} (honline : repo'.store.online = repo.store.online)
    (hstore : repo.store.online = false → repo'.store = repo.store) : repo'.Steady := fun hoff => by
  have hoff' : repo.store.online = false := honline ▸ hoff
  rw [hstore hoff']
  exact hsteady hoff'

/-- A status that is stored nowhere is not changed. -/
theorem Steady.status?_of_offline {repo' : TaskRepository} (hoff : repo.store.online = false)
    (hstore : repo'.store = repo.store) (t : Str) : repo'.status? .database t = none := by
  have hnone : repo'.row? t = none := by
    unfold row?
    rw [hstore, hsteady hoff]
    rfl
  exact Option.map_eq_none_iff.mpr hnone

theorem steady_saveTask (repr : Json → Str) (t : Str) (job_type priority : Json)
    (status : TaskStatus) (retries : ℤ) (worker_id : Option Str) :
    (repo.saveTask repr t job_type priority status retries worker_id).Steady :=
  hsteady.mono (online_saveTask _ _ _ _ _ _ _ _) fun hoff =>
    store_saveTask_of_offline hoff _ _ _ _ _ _ _

theorem steady_saveWorker (w : Str) (capacity : Option ℤ) (status : Str) (last_heartbeat : ℚ) :
    (repo.saveWorker w capacity status last_heartbeat).Steady :=
  hsteady.mono (online_saveWorker _ _ _ _ _) fun hoff => store_saveWorker_of_offline hoff _ _ _ _

theorem steady_updateStatus (t : Str) (status : TaskStatus) (worker_id : Option Str)
    (result error : Json) : (repo.updateStatus t status worker_id result error).Steady :=
  hsteady.mono (online_updateStatus _ _ _ _ _ _) fun hoff => store_updateStatus_of_offline hoff _ _ _ _ _

theorem steady_incrementRetry (t : Str) : (repo.incrementRetry t).Steady :=
  hsteady.mono (online_incrementRetry _ _) fun hoff => store_incrementRetry_of_offline hoff _

omit hsteady in
/-- Offline, only the cached record is written. -/
theorem status?_saveTask (repr : Json → Str) (p : Place) (t t' : Str) (job_type priority : Json)
    (status : TaskStatus) (retries : ℤ) :
    (repo.saveTask repr t job_type priority status retries none).status? p t' =
      if t' = t ∧ (p = .database → repo.store.online = true) then some status
      else repo.status? p t' := by
  cases p with
  | database =>
    cases honline : repo.store.online with
    | false =>
      have hstore := store_saveTask_of_offline honline repr t job_type priority status retries none
      rw [if_neg fun h => Bool.false_ne_true (h.2 rfl)]
      simp only [status?, row?, hstore]
    | true =>
      simp only [status?, row?_saveTask honline, forall_const, and_true]
      split_ifs <;> rfl
  | cache =>
    simp only [status?, saveTask, PyDict.get?_set, reduceCtorEq, false_implies, and_true]
    split_ifs <;> rfl

theorem status?_updateStatus_none (p : Place) (t t' : Str) (status : TaskStatus)
    (result error : Json) :
    (repo.updateStatus t status none result error).status? p t' =
      if t' = t then (repo.status? p t).map fun _ => status else repo.status? p t' := by
  cases p with
  | database =>
    cases honline : repo.store.online with
    | false =>
      have hstore := store_updateStatus_of_offline honline t status none result error
      rw [hsteady.status?_of_offline honline hstore, hsteady.status?_of_offline honline rfl,
        hsteady.status?_of_offline honline rfl, Option.map_none, ite_self]
    | true =>
      simp only [status?, row?_updateStatus_none honline]
      split_ifs
      · cases repo.row? t <;> rfl
      · rfl
  | cache =>
    simp only [status?, updateStatus, PyDict.get?_modify]
    split_ifs
    · cases repo.task_cache.get? t <;> rfl
    · rfl

/-- A refused foreign key leaves the row, but not the cached record, as it was. -/
theorem status?_updateStatus (p : Place) (t t' : Str) (status : TaskStatus) (worker_id : Option Str)
    (result error : Json) :
    (repo.updateStatus t status worker_id result error).status? p t' =
        (if t' = t then (repo.status? p t).map fun _ => status else repo.status? p t') ∨
      (repo.updateStatus t status worker_id result error).status? p t' = repo.status? p t' := by
  cases p with
  | database =>
    cases honline : repo.store.online with
    | false =>
      have hstore := store_updateStatus_of_offline honline t status worker_id result error
      refine .inr ?_
      rw [hsteady.status?_of_offline honline hstore, hsteady.status?_of_offline honline rfl]
    | true =>
      simp only [status?, row?_updateStatus honline]
      by_cases hfk : repo.store.Allows (worker_id.filter (· ≠ []))
      · refine .inl ?_
        simp only [hfk, and_true]
        split_ifs
        · cases repo.row? t <;> rfl
        · rfl
      · exact .inr (by rw [if_neg fun h => hfk h.2])
  | cache =>
    refine .inl ?_
    simp only [status?, updateStatus, PyDict.get?_modify]
    split_ifs
    · cases repo.task_cache.get? t <;> rfl
    · rfl

theorem status?_incrementRetry (p : Place) (t t' : Str) :
    (repo.incrementRetry t).status? p t' = repo.status? p t' := by
  cases p with
  | database =>
    cases honline : repo.store.online with
    | false =>
      have hstore := store_incrementRetry_of_offline honline t
      rw [hsteady.status?_of_offline honline hstore, hsteady.status?_of_offline honline rfl]
    | true =>
      simp only [status?, row?_incrementRetry honline]
      split_ifs with h
      · rw [h]
        cases repo.row? t <;> rfl
      · rfl
  | cache =>
    simp only [status?, incrementRetry, PyDict.get?_modify]
    split_ifs with h
    · rw [h]
      cases repo.task_cache.get? t <;> rfl
    · rfl

omit hsteady in
theorem status?_saveWorker (p : Place) (w : Str) (capacity : Option ℤ) (status : Str)
    (last_heartbeat : ℚ) (t : Str) :
    (repo.saveWorker w capacity status last_heartbeat).status? p t = repo.status? p t := by
  cases p with
  | database => simp only [status?, row?_saveWorker]
  | cache => rfl

end Steady

end TaskRepository

end JobSystem
