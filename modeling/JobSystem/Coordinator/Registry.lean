import JobSystem.Lib.Text
import JobSystem.Lib.Dict

/-!
# The worker registry

`WorkerRegistry.workers` and its methods. Time is exact.

* `registerWorker`, `updateHeartbeat`, `incrementLoad`, `decrementLoad`, `removeWorker`,
  `getAvailableWorkers`;
* `mem_*`, `load?_*`: which workers are registered after each, and their loads.
-/

namespace JobSystem

open PyText

/-- The entry of a worker. -/
structure WorkerData where
  last_heartbeat : ℚ
  capacity : ℤ
  current_load : ℕ

/-- `data["capacity"] - data["current_load"]`. -/
def WorkerData.freeCapacity (data : WorkerData) : ℤ := data.capacity - data.current_load

/-- The workers, in the order of their first registration. -/
structure WorkerRegistry where
  workers : PyDict Str WorkerData

namespace WorkerRegistry

/-- A new registry. -/
def empty : WorkerRegistry := ⟨∅⟩

/-- `register_worker`. -/
def registerWorker (r : WorkerRegistry) (worker_id : Str) (capacity : ℤ) (timestamp : ℚ) :
    WorkerRegistry := ⟨r.workers.set worker_id ⟨timestamp, capacity, 0⟩⟩

/-- `update_heartbeat`. -/
def updateHeartbeat (r : WorkerRegistry) (worker_id : Str) (timestamp : ℚ) : WorkerRegistry :=
  ⟨r.workers.modify worker_id fun data => { data with last_heartbeat := timestamp }⟩

/-- `increment_load`. -/
def incrementLoad (r : WorkerRegistry) (worker_id : Str) : WorkerRegistry :=
  ⟨r.workers.modify worker_id fun data => { data with current_load := data.current_load + 1 }⟩

/-- `decrement_load`: `max(0, current_load - 1)`. -/
def decrementLoad (r : WorkerRegistry) (worker_id : Str) : WorkerRegistry :=
  ⟨r.workers.modify worker_id fun data => { data with current_load := data.current_load - 1 }⟩

/-- `remove_worker`. -/
def removeWorker (r : WorkerRegistry) (worker_id : Str) : WorkerRegistry :=
  ⟨r.workers.erase worker_id⟩

/-- `get_available_workers`. -/
def getAvailableWorkers (r : WorkerRegistry) : List (Str × WorkerData) :=
  r.workers.entries.filter fun p => p.2.capacity > p.2.current_load

instance : Membership Str WorkerRegistry := ⟨fun r w => w ∈ r.workers⟩

instance (w : Str) (r : WorkerRegistry) : Decidable (w ∈ r) :=
  inferInstanceAs (Decidable (w ∈ r.workers))

section Membership

variable {r : WorkerRegistry} {w w' : Str}

@[simp] theorem notMem_empty (w : Str) : w ∉ empty := List.not_mem_nil

@[simp] theorem mem_registerWorker {capacity : ℤ} {timestamp : ℚ} :
    w' ∈ r.registerWorker w capacity timestamp ↔ w' = w ∨ w' ∈ r := PyDict.mem_set

@[simp] theorem mem_updateHeartbeat {timestamp : ℚ} : w' ∈ r.updateHeartbeat w timestamp ↔ w' ∈ r :=
  PyDict.mem_modify

@[simp] theorem mem_incrementLoad : w' ∈ r.incrementLoad w ↔ w' ∈ r := PyDict.mem_modify

@[simp] theorem mem_decrementLoad : w' ∈ r.decrementLoad w ↔ w' ∈ r := PyDict.mem_modify

@[simp] theorem mem_removeWorker : w' ∈ r.removeWorker w ↔ w' ≠ w ∧ w' ∈ r := PyDict.mem_erase

end Membership

/-- `workers[worker_id]["current_load"]`. -/
def load? (r : WorkerRegistry) (worker_id : Str) : Option ℕ :=
  (r.workers.get? worker_id).map WorkerData.current_load

section Load

variable {r : WorkerRegistry} {w w' : Str}

theorem mem_iff_load? : w ∈ r ↔ ∃ n, r.load? w = some n := by
  rw [show w ∈ r ↔ w ∈ r.workers from Iff.rfl, PyDict.mem_iff_get?]
  unfold load?
  cases r.workers.get? w <;> simp

theorem load?_registerWorker (capacity : ℤ) (timestamp : ℚ) :
    (r.registerWorker w capacity timestamp).load? w' = if w' = w then some 0 else r.load? w' := by
  unfold load? registerWorker
  rw [PyDict.get?_set]
  split_ifs <;> rfl

theorem load?_updateHeartbeat (timestamp : ℚ) :
    (r.updateHeartbeat w timestamp).load? w' = r.load? w' := by
  unfold load? updateHeartbeat
  rw [PyDict.get?_modify]
  split_ifs with h
  · rw [h]
    cases r.workers.get? w <;> rfl
  · rfl

theorem load?_incrementLoad :
    (r.incrementLoad w).load? w' = if w' = w then (r.load? w).map (· + 1) else r.load? w' := by
  unfold load? incrementLoad
  rw [PyDict.get?_modify]
  split_ifs
  · cases r.workers.get? w <;> rfl
  · rfl

theorem load?_decrementLoad :
    (r.decrementLoad w).load? w' = if w' = w then (r.load? w).map (· - 1) else r.load? w' := by
  unfold load? decrementLoad
  rw [PyDict.get?_modify]
  split_ifs
  · cases r.workers.get? w <;> rfl
  · rfl

theorem load?_removeWorker :
    (r.removeWorker w).load? w' = if w' = w then none else r.load? w' := by
  unfold load? removeWorker
  rw [PyDict.get?_erase]
  split_ifs <;> rfl

end Load

/-- An available worker is registered and has a free slot. -/
theorem mem_getAvailableWorkers {r : WorkerRegistry} {p : Str × WorkerData}
    (h : p ∈ r.getAvailableWorkers) : p.1 ∈ r ∧ 0 < p.2.freeCapacity := by
  obtain ⟨hm, hfree⟩ := List.mem_filter.mp h
  refine ⟨PyDict.mem_of_mem_entries hm, ?_⟩
  rw [decide_eq_true_iff] at hfree
  simp only [WorkerData.freeCapacity]
  omega

theorem nodup_getAvailableWorkers (r : WorkerRegistry) :
    (r.getAvailableWorkers.map Prod.fst).Nodup :=
  r.workers.nodup.sublist (List.filter_sublist.map _)

end WorkerRegistry

end JobSystem
