import JobSystem.Lib.Json

/-!
# Jobs and events

A job is a JSON object with a string `id`: the gateway sets it on every submission. Events carry the
fields that the handlers read.

* `Job`, `priorityNum`;
* `TaskStatus`, `Event`.
-/

namespace JobSystem

open PyText
open PyJson (Json)

/-- `"id"`. -/
def idKey : Str := "id".toList

/-- `"job_type"`. -/
def jobTypeKey : Str := "job_type".toList

/-- `"priority"`. -/
def priorityKey : Str := "priority".toList

/-- `"payload"`. -/
def payloadKey : Str := "payload".toList

/-- A job dictionary. -/
structure Job where
  fields : PyDict Str Json
  id : Str
  get_id : fields.get? idKey = some (.str id)

/-- `job.get(key)`. -/
def Job.get? (job : Job) (key : Str) : Option Json := job.fields.get? key

/-- `priority_map.get(priority_str, 5)`. -/
def priorityMap (priority_str : Str) : ℤ :=
  if priority_str = "HIGH".toList then 1
  else if priority_str = "MEDIUM".toList then 5
  else if priority_str = "LOW".toList then 10
  else 5

/-- `priority_num` of a raw priority; a `bool` is an `int`. -/
def priorityNum : Json → ℤ
  | .str s => priorityMap (upper s)
  | .int n => 11 - n
  | .bool b => 11 - b.toNat
  | _ => 5

/-- The priority that `add_job` reads. -/
def Job.priorityNum (job : Job) : ℤ :=
  JobSystem.priorityNum ((job.get? priorityKey).getD (.str "MEDIUM".toList))

/-- The text of an integer is no key of `priority_map`. -/
theorem priorityNum_intStr (n : ℤ) : priorityNum (.str (intStr n)) = 5 := by
  obtain ⟨c, s, hc, h⟩ := exists_upper_intStr n
  have hne : ∀ (c' : Char) (w : Str), 65 ≤ c'.toNat → c :: s ≠ c' :: w := by
    rintro c' w hc' e
    obtain ⟨rfl, -⟩ := List.cons.inj e
    omega
  have hhigh : c :: s ≠ "HIGH".toList := hne 'H' ['I', 'G', 'H'] (by decide)
  have hmedium : c :: s ≠ "MEDIUM".toList := hne 'M' ['E', 'D', 'I', 'U', 'M'] (by decide)
  have hlow : c :: s ≠ "LOW".toList := hne 'L' ['O', 'W'] (by decide)
  simp only [priorityNum, priorityMap, h]
  rw [if_neg hhigh, if_neg hmedium, if_neg hlow]

/-- The status of a task. -/
inductive TaskStatus where
  | PENDING
  | ASSIGNED
  | RETRYING
  | COMPLETED
  | DLQ
  deriving DecidableEq

/-- No step is meant to leave a terminal status. -/
def TaskStatus.Terminal (status : TaskStatus) : Prop := status = .COMPLETED ∨ status = .DLQ

/-- The events on the bus. -/
inductive Event where
  | register (worker_id : Str) (capacity : Option ℤ)
  | heartbeat (worker_id : Str)
  | jobSubmitted (job : Job)
  | workerFailed (worker_id : Str)
  | taskAssigned (worker_id : Str) (job : Job)
  | jobCompleted (worker_id : Str) (job : Job) (result : Option Json)
  | taskFailed (worker_id : Str) (job : Job) (error : Option Json)
  | moveToDlq (job : Job) (error : Json)
  | alert (level message : Str)

end JobSystem
