import JobSystem.Coordinator.Job

/-!
# The priority queue

`JobPriorityQueue`: a `queue.PriorityQueue` of `(priority_num, counter, job)`, kept as the sorted list
of its entries. The counter makes the first two fields of an entry unique, so a comparison never
reaches the job.

* `addJob`, `getNextJob`;
* `mem_addJob`, `perm_jobs_addJob`, `exists_getNextJob`: what is in the queue after each.
-/

namespace JobSystem

/-- `(priority_num, counter, job)`. -/
structure QueueEntry where
  priority_num : ℤ
  counter : ℕ
  job : Job

/-- Tuple order on the first two fields. -/
def QueueEntry.Le (a b : QueueEntry) : Prop :=
  a.priority_num < b.priority_num ∨ a.priority_num = b.priority_num ∧ a.counter ≤ b.counter

namespace QueueEntry

instance : DecidableRel Le := fun a b =>
  inferInstanceAs (Decidable (a.priority_num < b.priority_num ∨
    a.priority_num = b.priority_num ∧ a.counter ≤ b.counter))

instance : Std.Total Le where
  total a b := by
    unfold Le
    omega

instance : IsTrans QueueEntry Le where
  trans a b c := by
    unfold Le
    omega

end QueueEntry

/-- The entries, least first, and the counter that the last of them got. -/
structure JobPriorityQueue where
  pq : List QueueEntry
  counter : ℕ
  sorted : pq.Pairwise QueueEntry.Le
  le_counter : ∀ e ∈ pq, e.counter ≤ counter
  distinct : (pq.map QueueEntry.counter).Nodup

namespace JobPriorityQueue

/-- A new queue. -/
def empty : JobPriorityQueue :=
  ⟨[], 0, List.Pairwise.nil, fun _ he => (List.not_mem_nil he).elim, List.nodup_nil⟩

/-- `add_job`. -/
def addJob (q : JobPriorityQueue) (job : Job) : JobPriorityQueue where
  pq := q.pq.orderedInsert QueueEntry.Le ⟨job.priorityNum, q.counter + 1, job⟩
  counter := q.counter + 1
  sorted := q.sorted.orderedInsert _ _
  le_counter e he := by
    rcases (List.mem_orderedInsert _).mp he with rfl | he
    · exact le_rfl
    · exact Nat.le_succ_of_le (q.le_counter e he)
  distinct := by
    refine ((List.perm_orderedInsert _ _ _).map QueueEntry.counter).nodup_iff.mpr ?_
    refine List.nodup_cons.mpr ⟨fun hmem => ?_, q.distinct⟩
    obtain ⟨e, he, hc⟩ := List.mem_map.mp hmem
    have := q.le_counter e he
    simp only at hc
    omega

/-- `get_next_job`. -/
def getNextJob (q : JobPriorityQueue) : Option Job × JobPriorityQueue :=
  match h : q.pq with
  | [] => (none, q)
  | e :: es =>
    (some e.job,
      { pq := es
        counter := q.counter
        sorted := (List.pairwise_cons.mp (h ▸ q.sorted)).2
        le_counter := fun e' he => q.le_counter e' (h ▸ List.mem_cons_of_mem e he)
        distinct := (List.nodup_cons.mp (List.map_cons ▸ h ▸ q.distinct)).2 })

/-- `is_empty`. -/
def isEmpty (q : JobPriorityQueue) : Bool := q.pq.isEmpty

/-- The jobs in the queue. -/
def jobs (q : JobPriorityQueue) : List Job := q.pq.map QueueEntry.job

theorem mem_addJob {q : JobPriorityQueue} {job : Job} {e : QueueEntry} :
    e ∈ (q.addJob job).pq ↔ e = ⟨job.priorityNum, q.counter + 1, job⟩ ∨ e ∈ q.pq :=
  List.mem_orderedInsert _

theorem perm_jobs_addJob (q : JobPriorityQueue) (job : Job) :
    (q.addJob job).jobs.Perm (job :: q.jobs) :=
  (List.perm_orderedInsert _ _ _).map QueueEntry.job

/-- The head is returned and leaves the queue. -/
theorem exists_getNextJob {q : JobPriorityQueue} (h : q.isEmpty = false) :
    ∃ e es q', q.pq = e :: es ∧ q.getNextJob = (some e.job, q') ∧ q'.pq = es ∧
      q'.counter = q.counter := by
  unfold getNextJob
  split
  · rename_i h'
    rw [isEmpty, h'] at h
    cases h
  · rename_i e es h'
    exact ⟨e, es, _, h', rfl, rfl, rfl⟩

end JobPriorityQueue

end JobSystem
