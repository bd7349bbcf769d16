import JobSystem.Lib.Raising
import JobSystem.Coordinator.Breaker
import JobSystem.Gateway.Submit

/-!
# Handlers of any event

The handlers of the coordinator and the assigner on events with any JSON values: what they store,
compare and print, and what they raise. The calls of the task repository raise or not as they like, and
`publish` does not raise.

* `Number`, `Key`: the values for arithmetic, and the keys of dictionaries; `Python`: what the
  interpreter does with floats and texts;
* `registerWorker`, …, `queueJob`, `getNextJobAndWorker`: the methods;
* `handleRegister`, …, `handleWorkerFailed`; `assignOnce`: an iteration of `_assign_loop`;
* `Assigner`, `step`, `run`: events and iterations, until one of these raises.
-/

namespace JobSystem.Handlers

open PyText Raising
open PyJson (Json)

/-! ## Values -/

/-- The exceptions. -/
inductive PyError where
  | typeError
  | attributeError
  | overflowError
  | unicodeEncodeError
  deriving DecidableEq

/-- A value that is compared and subtracted; a float is its text. -/
inductive Number where
  | int (n : ℤ)
  | float (lit : Str)

/-- The number that a value is; a `bool` is an `int`. -/
def numberOf : Json → Option Number
  | .int n => some (.int n)
  | .bool b => some (.int b.toNat)
  | .float lit => some (.float lit)
  | _ => none

/-- A hashable value up to `==`. -/
inductive Key where
  | null
  | int (n : ℤ)
  | float (lit : Str)
  | str (s : Str)
  deriving DecidableEq

/-- Floats: the integer that one is equal to, `x > n`, `n > x`, `x > y`, and `x - n`, which raises when
`n` is too large for a float. -/
structure FloatOps where
  asInt : Str → Option ℤ
  gtInt : Str → ℤ → Bool
  intGt : ℤ → Str → Bool
  gt : Str → Str → Bool
  sub : Str → ℕ → Option Str
  sub_isSome : ∀ x n, n < 2 ^ 1023 → (sub x n).isSome = true

/-- The interpreter: its floats, `repr` of a float or a container, and the characters that the standard
output can encode. -/
structure Python where
  floats : FloatOps
  repr : Json → Str
  encodable : Char → Bool
  encodable_of_lt : ∀ c : Char, c.toNat < 128 → encodable c = true

/-- `a > b`. -/
def Number.gt (ops : FloatOps) : Number → Number → Bool
  | .int m, .int n => n < m
  | .int m, .float y => ops.intGt m y
  | .float x, .int n => ops.gtInt x n
  | .float x, .float y => ops.gt x y

/-- `a - n`; `none` is the `OverflowError`. -/
def Number.minus (ops : FloatOps) : Number → ℕ → Option Number
  | .int m, n => some (.int (m - n))
  | .float x, n => (ops.sub x n).map .float

/-- The key that a value is; containers are not hashable. -/
def keyOf (ops : FloatOps) : Json → Option Key
  | .null => some .null
  | .bool b => some (.int b.toNat)
  | .int n => some (.int n)
  | .float lit => some (match ops.asInt lit with | some n => .int n | none => .float lit)
  | .str s => some (.str s)
  | .arr _ => none
  | .obj _ => none

/-! ## The state -/

/-- The entry of a worker, under the value that it was first registered with. -/
structure WorkerData where
  last_heartbeat : ℚ
  capacity : Json
  current_load : ℕ

/-- `(priority_num, counter, job)`. -/
structure QueueEntry where
  priority_num : ℤ
  counter : ℕ
  job : Fields

/-- Tuple order; the counters differ. -/
def QueueEntry.Le (a b : QueueEntry) : Prop :=
  a.priority_num < b.priority_num ∨ a.priority_num = b.priority_num ∧ a.counter ≤ b.counter

instance : DecidableRel QueueEntry.Le := fun a b =>
  inferInstanceAs (Decidable (a.priority_num < b.priority_num ∨
    a.priority_num = b.priority_num ∧ a.counter ≤ b.counter))

/-- What is published. -/
inductive Published where
  | taskAssigned (worker_id : Json) (job : Fields)
  | moveToDlq (task_id : Json) (job : Fields) (error : Json)
  | alert (level message : Str)

/-- The registry, the breakers, the queue with its counter, the retries and the dead letters. -/
structure State where
  workers : PyDict Key (Json × WorkerData)
  breakers : PyDict Key WorkerCircuitBreaker
  pq : List QueueEntry
  counter : ℕ
  retries_tracker : PyDict Key ℕ
  dlq : List Fields
  published : List Published

/-- A new coordinator. -/
def State.new : State := ⟨∅, ∅, [], 0, ∅, [], []⟩

/-- The settings. -/
structure Config where
  failure_threshold : ℤ
  recovery_timeout : ℚ
  max_retries : ℕ

/-- A method of the coordinator. -/
abbrev Method (α : Type) := Raising PyError State α

/-- `event.get(key)`. -/
def get (event : Fields) (key : String) : Json := (event.lookup key.toList).getD .null

section Methods

variable (py : Python) (cfg : Config)

/-- `f"{value}"`. -/
def text (value : Json) : Str := value.pyStr py.repr

/-- `print(line)`. -/
def print (line : Str) : Method Unit :=
  if line.all py.encodable then pure () else throw .unicodeEncodeError

/-- `hash(value)`. -/
def key (value : Json) : Method Key := orRaise .typeError (keyOf py.floats value)

/-- The number that an operator takes. -/
def number (value : Json) : Method Number := orRaise .typeError (numberOf value)

/-- `event_bus.publish(event)`. -/
def publish (event : Published) : Method Unit :=
  modify fun s => { s with published := s.published ++ [event] }

/-- A call of the task repository. -/
def repoCall (returns : Bool) : Method Unit :=
  if returns then pure () else throw .unicodeEncodeError

/-! ## The registry -/

/-- `register_worker`. -/
def registerWorker (worker_id capacity : Json) (timestamp : ℚ) : Method Unit := do
  let k ← key py worker_id
  modify fun s => { s with
    workers := s.workers.set k (((s.workers.get? k).map Prod.fst).getD worker_id,
      ⟨timestamp, capacity, 0⟩) }
  print py ("[REGISTRY] New Worker Registered: '".toList ++ text py worker_id ++
    "' | Capacity: ".toList ++ text py capacity)

/-- A change of the entry of a worker, if there is one. -/
def modifyWorker (worker_id : Json) (f : WorkerData → WorkerData) : Method Unit := do
  let k ← key py worker_id
  modify fun s => { s with workers := s.workers.modify k fun p => (p.1, f p.2) }

/-- `update_heartbeat`. -/
def updateHeartbeat (worker_id : Json) (timestamp : ℚ) : Method Unit :=
  modifyWorker py worker_id fun data => { data with last_heartbeat := timestamp }

/-- `increment_load`. -/
def incrementLoad (worker_id : Json) : Method Unit :=
  modifyWorker py worker_id fun data => { data with current_load := data.current_load + 1 }

/-- `decrement_load`. -/
def decrementLoad (worker_id : Json) : Method Unit :=
  modifyWorker py worker_id fun data => { data with current_load := data.current_load - 1 }

/-- `remove_worker` of the registry. -/
def removeWorker (worker_id : Json) : Method Unit := do
  let k ← key py worker_id
  let s ← MonadState.get
  if k ∈ s.workers then do
    modify fun s => { s with workers := s.workers.erase k }
    print py ("[REGISTRY] Worker '".toList ++ text py worker_id ++ "' evicted from registry.".toList)
  else pure ()

/-- The comprehension of `get_available_workers`. -/
def available : List (Json × WorkerData) → Method (List (Json × WorkerData))
  | [] => pure []
  | (wid, data) :: workers => do
    let capacity ← number data.capacity
    let rest ← available workers
    pure (if capacity.gt py.floats (.int data.current_load) then (wid, data) :: rest else rest)

/-- `get_available_workers`. -/
def getAvailableWorkers : Method (List (Json × WorkerData)) := do
  let s ← MonadState.get
  available py (s.workers.entries.map Prod.snd)

/-! ## The breakers -/

/-- `publish_alert`, when the state has changed. -/
def publishAlert (worker_id : Json) (old_state new_state : CircuitBreakerState) : Method Unit :=
  if old_state ≠ new_state then
    publish (.alert (if new_state = .OPEN then "CRITICAL".toList else "INFO".toList)
      ("Circuit breaker for worker '".toList ++ text py worker_id ++ "' transitioned from ".toList ++
        old_state.text ++ " to ".toList ++ new_state.text))
  else pure ()

/-- A call on the breaker of a worker, which is new where there is none: `line` is printed when its
state changes. -/
def onBreaker {α : Type} (worker_id : Json) (call : WorkerCircuitBreaker → WorkerCircuitBreaker × α)
    (line : WorkerCircuitBreaker → Str) : Method α := do
  let k ← key py worker_id
  let s ← MonadState.get
  let breaker := (s.breakers.get? k).getD (.new cfg.failure_threshold cfg.recovery_timeout)
  modify fun s => { s with breakers := s.breakers.set k (call breaker).1 }
  (if breaker.state ≠ (call breaker).1.state then print py (line breaker) else pure ())
  publishAlert py worker_id breaker.state (call breaker).1.state
  pure (call breaker).2

/-- `record_success`. -/
def recordSuccess (worker_id : Json) : Method Unit :=
  onBreaker py cfg worker_id (fun b => (b.recordSuccess, ())) fun _ =>
    "[CIRCUIT BREAKER] Worker trial done, State: HALF_OPEN -> CLOSED".toList

/-- `record_failure`. -/
def recordFailure (worker_id : Json) (now : ℚ) : Method Unit :=
  onBreaker py cfg worker_id (fun b => (b.recordFailure now, ())) fun b =>
    if b.state = .HALF_OPEN then
      "[CIRCUIT BREAKER] Worker trial failed, State: HALF_OPEN -> OPEN (cooldown reset)".toList
    else
      "[CIRCUIT BREAKER] Worker hit failure threshold (".toList ++
        (natStr (b.consecutive_failures + 1) ++ "), State: CLOSED -> OPEN".toList)

/-- `can_assign_task`. -/
def canAssignTask (worker_id : Json) (now : ℚ) : Method Bool :=
  onBreaker py cfg worker_id (fun b => b.canAssignTask now) fun _ =>
    "[CIRCUIT BREAKER] Recovery timeout elapsed, State: OPEN -> HALF_OPEN (assigned trial task)".toList

/-- `remove_worker` of the breakers. -/
def removeBreaker (worker_id : Json) : Method Unit := do
  let k ← key py worker_id
  let s ← MonadState.get
  if k ∈ s.breakers then do
    modify fun s => { s with breakers := s.breakers.erase k }
    print py ("[CIRCUIT BREAKER] Purged tracker for worker '".toList ++ text py worker_id ++ "'".toList)
  else pure ()

/-! ## The queue and the scheduler -/

/-- `add_job`. -/
def addJob (job : Fields) : Method Unit :=
  modify fun s => { s with
    pq := s.pq.orderedInsert QueueEntry.Le
      ⟨priorityNum ((job.lookup priorityKey).getD (.str "MEDIUM".toList)), s.counter + 1, job⟩
    counter := s.counter + 1 }

/-- `queue_job`. -/
def queueJob (job : Fields) : Method Unit := do
  addJob job
  let s ← MonadState.get
  print py ("[SCHEDULER] Job appended; Total backlog: ".toList ++ natStr s.pq.length)

/-- `get_next_job`. -/
def getNextJob : Method (Option Fields) := do
  let s ← MonadState.get
  modify fun s => { s with pq := s.pq.tail }
  pure (s.pq.head?.map QueueEntry.job)

/-- The loop over `can_assign_task`; each call reads its own clock. -/
def letThrough (now : Json → ℚ) : List (Json × WorkerData) → Method (List (Json × WorkerData))
  | [] => pure []
  | (wid, data) :: workers => do
    let allowed ← canAssignTask py cfg wid (now wid)
    let rest ← letThrough now workers
    pure (if allowed then (wid, data) :: rest else rest)

/-- The choosing loop. -/
def choose : List (Json × WorkerData) → Option Json → Number → Method (Option Json)
  | [], chosen_worker, _ => pure chosen_worker
  | (wid, data) :: workers, chosen_worker, max_free_capacity => do
    let capacity ← number data.capacity
    let free_capacity ← orRaise .overflowError (capacity.minus py.floats data.current_load)
    if free_capacity.gt py.floats max_free_capacity then choose workers (some wid) free_capacity
    else choose workers chosen_worker max_free_capacity

/-- `get_next_job_and_worker`. -/
def getNextJobAndWorker (now : Json → ℚ) : Method (Option (Fields × Json)) := do
  let s ← MonadState.get
  if s.pq = [] then pure none
  else
    let workers ← getAvailableWorkers py
    let workers ← letThrough py cfg now workers
    let chosen_worker ← choose py workers none (.int (-1))
    match chosen_worker.filter Json.truthy with
    | none => pure none
    | some wid => do
      let job ← getNextJob
      pure (job.map fun job => (job, wid))

/-- `job.get('job_type', 'unknown task')`. -/
def jobType (job : Fields) : Json := (job.lookup jobTypeKey).getD (.str "unknown task".toList)

/-- One iteration of `_assign_loop`; an empty job is dropped. -/
def assignOnce (now : Json → ℚ) : Method Unit := do
  match ← getNextJobAndWorker py cfg now with
  | none => pure ()
  | some (job, worker_id) =>
    if (Json.obj job).truthy then
      incrementLoad py worker_id
      publish (.taskAssigned worker_id job)
      print py ("[TASK ASSIGNER] Assigned '".toList ++ text py (jobType job) ++ "' to worker '".toList ++
        text py worker_id ++ "'".toList)
    else pure ()

/-! ## The handlers -/

/-- `handle_register`. -/
def handleRegister (event : Fields) (now : ℚ) : Method Unit :=
  let capacity := (event.lookup "capacity".toList).getD (.int 8)
  if (get event "worker_id").truthy then registerWorker py (get event "worker_id") capacity now
  else pure ()

/-- `handle_job_submitted`. -/
def handleJobSubmitted (event : Fields) (uuid : Str) : Method Unit := do
  let event := match event.lookup idKey with
    | some _ => event
    | none => setField event idKey (.str uuid)
  print py ("[COORDINATOR] Consumed JOB_SUBMITTED event (".toList ++ text py (get event "id") ++
    ")".toList)
  queueJob py event

/-- `handle_heartbeat`. -/
def handleHeartbeat (event : Fields) (now : ℚ) : Method Unit :=
  if (get event "worker_id").truthy then updateHeartbeat py (get event "worker_id") now else pure ()

/-- `handle_job_completed`. -/
def handleJobCompleted (event : Fields) : Method Unit :=
  let worker_id := get event "worker_id"
  if worker_id.truthy then do
    print py ("[COORDINATOR] Worker '".toList ++ text py worker_id ++
      "' completed a job; Freeing capacity;".toList)
    decrementLoad py worker_id
    recordSuccess py cfg worker_id
  else pure ()

/-- `add_to_dlq`. -/
def addToDlq (task : Fields) (error : Json) (updated : Bool) : Method Unit := do
  let task_id := (task.lookup idKey).getD (.str "unknown".toList)
  print py ("[DEAD LETTER QUEUE] [DLQ] Task '".toList ++ text py task_id ++
    "' permanently failed ; moved to DLQ".toList)
  modify fun s => { s with dlq := s.dlq ++ [task] }
  repoCall updated
  publish (.moveToDlq task_id task error)

/-- `RetryQueue.handle_task_failed`; the flags are the calls of the task repository. -/
def retryTaskFailed (event : Fields) (incremented updated : Bool) : Method Unit :=
  match (event.lookup "job".toList).getD (.obj []) with
  | .obj task => do
    let task_id := (task.lookup idKey).getD (.str "unknown".toList)
    let error_msg := (event.lookup "error".toList).getD (.str "Unknown error".toList)
    let k ← key py task_id
    let s ← MonadState.get
    let retries := (s.retries_tracker.get? k).getD 0 + 1
    modify fun s => { s with retries_tracker := s.retries_tracker.set k retries }
    repoCall incremented
    print py ("[RETRY ENGINE] Task '".toList ++ text py task_id ++ "' failed; Retry ".toList ++
      natStr retries ++ "/".toList ++ natStr cfg.max_retries)
    if retries ≤ cfg.max_retries then do
      print py ("[RETRY ENGINE] Re-queueing task '".toList ++ text py task_id ++ "' for retry".toList)
      repoCall updated
      queueJob py task
    else do
      print py ("[RETRY ENGINE] Max retries reached for '".toList ++ text py task_id ++
        "'; to DLQ transfer".toList)
      addToDlq py task error_msg updated
  | _ => throw .attributeError

/-- `handle_task_failed`. -/
def handleTaskFailed (event : Fields) (now : ℚ) (incremented updated : Bool) : Method Unit := do
  let worker_id := get event "worker_id"
  (if worker_id.truthy then do
    decrementLoad py worker_id
    recordFailure py cfg worker_id now
  else pure ())
  retryTaskFailed py cfg event incremented updated

/-- A task of `get_assigned_tasks_for_worker`, and whether `update_status` returns for it. -/
structure AssignedTask where
  task_id : Str
  job_type : Str
  priority : Str
  updated : Bool

/-- `{"id": task_id, "job_type": job_type, "priority": priority}`. -/
def AssignedTask.job (task : AssignedTask) : Fields :=
  [(idKey, .str task.task_id), (jobTypeKey, .str task.job_type), (priorityKey, .str task.priority)]

/-- `handle_worker_failed`. -/
def handleWorkerFailed (event : Fields) (tasks : List AssignedTask) : Method Unit :=
  let worker_id := get event "worker_id"
  if worker_id.truthy then do
    removeBreaker py worker_id
    tasks.forM fun task => do
      print py ("[COORDINATOR] Re-queueing task '".toList ++ task.task_id ++
        "' from failed worker '".toList ++ text py worker_id ++ "'".toList)
      repoCall task.updated
      queueJob py task.job
  else pure ()

/-- `FailureDetector.handle_worker_failure`. -/
def handleWorkerFailure (event : Fields) : Method Unit :=
  let worker_id := get event "worker_id"
  if worker_id.truthy then do
    print py ("[FAILURE DETECTOR] Investigating worker '".toList ++ text py worker_id ++ "'".toList)
    removeWorker py worker_id
    print py ("[FAILURE DETECTOR] Worker '".toList ++ text py worker_id ++ "' purged".toList)
  else pure ()

end Methods

/-! ## Runs -/

/-- An event for one of the handlers, or an iteration of the assigner. -/
inductive Step where
  | register (event : Fields) (now : ℚ)
  | heartbeat (event : Fields) (now : ℚ)
  | jobSubmitted (event : Fields) (uuid : Str)
  | jobCompleted (event : Fields)
  | taskFailed (event : Fields) (now : ℚ) (incremented updated : Bool)
  | workerFailed (event : Fields) (tasks : List AssignedTask)
  | workerFailure (event : Fields)
  | assign (now : Json → ℚ)

/-- The code of a step. -/
def Step.code (py : Python) (cfg : Config) : Step → Method Unit
  | .register event now => handleRegister py event now
  | .heartbeat event now => handleHeartbeat py event now
  | .jobSubmitted event uuid => handleJobSubmitted py event uuid
  | .jobCompleted event => handleJobCompleted py cfg event
  | .taskFailed event now incremented updated =>
    handleTaskFailed py cfg event now incremented updated
  | .workerFailed event tasks => handleWorkerFailed py event tasks
  | .workerFailure event => handleWorkerFailure py event
  | .assign now => assignOnce py cfg now

/-- The coordinator, and whether the assigner's thread is alive. -/
structure Assigner where
  state : State
  alive : Bool

/-- One step: the subscriber loop catches what a handler raises, and nothing catches what an iteration
raises. -/
def Assigner.step (py : Python) (cfg : Config) (a : Assigner) (st : Step) : Assigner :=
  match st with
  | .assign _ =>
    if a.alive then ⟨(exec (st.code py cfg) a.state).2, (exec (st.code py cfg) a.state).1.isOk⟩ else a
  | _ => ⟨(exec (st.code py cfg) a.state).2, a.alive⟩

/-- All steps of a run. -/
def Assigner.run (py : Python) (cfg : Config) (steps : List Step) : Assigner :=
  steps.foldl (Assigner.step py cfg) ⟨.new, true⟩

end JobSystem.Handlers
