import JobSystem.Lib.LeastFirst
import JobSystem.Coordinator.Queue

/-!
# The order of the priority queue

`JobPriorityQueue` on job dictionaries of any kind, over any `queue.PriorityQueue`.

* `Ticket`, `Backlog`: the entries, `add_job` and `get_next_job`; `Ledger`, `after`: a list of calls, with
  the jobs that were added and returned;
* `PriorityNumber`: the number of a priority; `priorityNumber_priorityOf`, `priorityNumber_iff`: it is the
  one that `add_job` computes;
* `Issued`: the invariant; `InOrder`: what the queue is for; **`inOrder_after`**;
* `Stands`, **`getNextJob_stands`**: `JobPriorityQueue` as the other modules have it is such a queue.
-/

namespace JobSystem

open PyText
open PyJson (Json)

/-- A job dictionary, with or without an `id`. -/
abbrev Dictionary := PyDict Str Json

/-- `priority_num` of a job. -/
def priorityOf (job : Dictionary) : ℤ :=
  priorityNum ((job.get? priorityKey).getD (.str "MEDIUM".toList))

/-- `(priority_num, counter, job)`. -/
structure Ticket where
  priority_num : ℤ
  counter : ℕ
  job : Dictionary

/-- What is compared before the dictionaries. -/
def Ticket.key (t : Ticket) : ℤ ×ₗ ℕ := toLex (t.priority_num, t.counter)

/-- `JobPriorityQueue`. -/
structure Backlog (pq : LeastFirst Ticket.key) where
  queue : pq.Queue
  counter : ℕ

namespace Backlog

variable {pq : LeastFirst Ticket.key}

/-- A new queue. -/
def empty (pq : LeastFirst Ticket.key) : Backlog pq := ⟨pq.empty, 0⟩

/-- `add_job`. -/
def addJob (b : Backlog pq) (job : Dictionary) : Backlog pq :=
  ⟨pq.put b.queue ⟨priorityOf job, b.counter + 1, job⟩, b.counter + 1⟩

/-- `get_next_job`. -/
def getNextJob (b : Backlog pq) : Option Dictionary × Backlog pq :=
  match pq.get b.queue with
  | none => (none, b)
  | some (t, queue) => (some t.job, ⟨queue, b.counter⟩)

/-- The entries in the queue. -/
def tickets (b : Backlog pq) : List Ticket := pq.items b.queue

/-- The jobs in the queue. -/
def jobs (b : Backlog pq) : List Dictionary := b.tickets.map Ticket.job

/-- What `get_next_job` does, by what is in the queue. -/
theorem getNextJob_cases (b : Backlog pq) :
    (b.tickets = [] ∧ b.getNextJob = (none, b)) ∨ ∃ t queue, pq.get b.queue = some (t, queue) ∧
      b.getNextJob = (some t.job, ⟨queue, b.counter⟩) ∧ b.tickets.Perm (t :: pq.items queue) := by
  unfold getNextJob
  cases hget : pq.get b.queue with
  | none => exact .inl ⟨(pq.get_eq_none_iff _).mp hget, rfl⟩
  | some p => exact .inr ⟨p.1, p.2, rfl, rfl, pq.items_get hget⟩

end Backlog

/-! ## Numbers -/

/-- Another word in upper case. -/
def OtherWord (w : Str) : Prop := w ≠ "HIGH".toList ∧ w ≠ "MEDIUM".toList ∧ w ≠ "LOW".toList

/-- The number of a priority: 1, 5 and 10 for the three words in any letter case, `11 - n` for an integer
(`True` and `False` are 1 and 0), and 5 for any other value, and where there is none. -/
inductive PriorityNumber : Option Json → ℤ → Prop where
  | missing : PriorityNumber none 5
  | high {s : Str} (h : upper s = "HIGH".toList) : PriorityNumber (some (.str s)) 1
  | medium {s : Str} (h : upper s = "MEDIUM".toList) : PriorityNumber (some (.str s)) 5
  | low {s : Str} (h : upper s = "LOW".toList) : PriorityNumber (some (.str s)) 10
  | other {s : Str} (h : OtherWord (upper s)) : PriorityNumber (some (.str s)) 5
  | int (n : ℤ) : PriorityNumber (some (.int n)) (11 - n)
  | isTrue : PriorityNumber (some (.bool true)) 10
  | isFalse : PriorityNumber (some (.bool false)) 11
  | null : PriorityNumber (some .null) 5
  | float (lit : Str) : PriorityNumber (some (.float lit)) 5
  | arr (xs : List Json) : PriorityNumber (some (.arr xs)) 5
  | obj (fields : List (Str × Json)) : PriorityNumber (some (.obj fields)) 5

theorem priorityNumber_str (s : Str) : PriorityNumber (some (.str s)) (priorityMap (upper s)) := by
  unfold priorityMap
  split_ifs with hhigh hmedium hlow
  · exact .high hhigh
  · exact .medium hmedium
  · exact .low hlow
  · exact .other ⟨hhigh, hmedium, hlow⟩

theorem priorityNumber_priorityNum (v : Json) : PriorityNumber (some v) (priorityNum v) := by
  cases v with
  | null => exact .null
  | bool b =>
    cases b with
    | true => exact .isTrue
    | false => exact .isFalse
  | int n => exact .int n
  | float lit => exact .float lit
  | str s => exact priorityNumber_str s
  | arr xs => exact .arr xs
  | obj fields => exact .obj fields

/-- `add_job` computes the number. -/
theorem priorityNumber_priorityOf (job : Dictionary) :
    PriorityNumber (job.get? priorityKey) (priorityOf job) := by
  unfold priorityOf
  cases job.get? priorityKey with
  | none => exact .missing
  | some v => exact priorityNumber_priorityNum v

/-- The words and their numbers. -/
def priorityWords : List (Str × ℤ) :=
  [("HIGH".toList, 1), ("MEDIUM".toList, 5), ("LOW".toList, 10)]

/-- **The letter case does not count.** -/
theorem priorityOf_anyCase {job : Dictionary} {s : Str} (hs : job.get? priorityKey = some (.str s))
    {p : Str × ℤ} (hp : p ∈ priorityWords) (h : s.map Char.toUpper = p.1) : priorityOf job = p.2 := by
  have hwords : ∀ p ∈ priorityWords, (∀ d ∈ p.1, 'A' ≤ d ∧ d ≤ 'Z') ∧ priorityMap p.1 = p.2 := by
    intro p hp
    simp only [priorityWords, List.mem_cons, List.not_mem_nil, or_false] at hp
    rcases hp with rfl | rfl | rfl <;> exact ⟨by simp, by simp [priorityMap]⟩
  obtain ⟨hletters, hnumber⟩ := hwords p hp
  rw [← h] at hletters
  rw [priorityOf, hs, Option.getD_some, priorityNum, upper_of_map_toUpper hletters, h, hnumber]

/-! ## Calls -/

/-- The calls. -/
inductive QueueCall where
  | add_job (job : Dictionary)
  | get_next_job

/-- The queue, and the jobs that were added to it and returned from it, in order. -/
structure Ledger (pq : LeastFirst Ticket.key) where
  backlog : Backlog pq
  added : List Dictionary
  returned : List Dictionary

namespace Ledger

variable {pq : LeastFirst Ticket.key}

/-- One call. -/
def call (l : Ledger pq) : QueueCall → Ledger pq
  | .add_job job => ⟨l.backlog.addJob job, l.added ++ [job], l.returned⟩
  | .get_next_job =>
    ⟨l.backlog.getNextJob.2, l.added, l.returned ++ l.backlog.getNextJob.1.toList⟩

/-- A new queue after some calls. -/
def after (pq : LeastFirst Ticket.key) (calls : List QueueCall) : Ledger pq :=
  calls.foldl call ⟨.empty pq, [], []⟩

/-- **The invariant.** The counter of an entry is the place of its job among those added. -/
structure Issued (l : Ledger pq) : Prop where
  counter : l.backlog.counter = l.added.length
  ticket : ∀ t ∈ l.backlog.tickets, t.priority_num = priorityOf t.job ∧
    ∃ i, t.counter = i + 1 ∧ l.added[i]? = some t.job
  distinct : (l.backlog.tickets.map Ticket.counter).Nodup
  kept : (l.returned ++ l.backlog.jobs).Perm l.added

/-- What the queue is for: every entry has the number of its priority, in any letter case; the next job
has the least number and is the first added of these; there is none only if the queue is empty; no job
is lost or comes twice; and no comparison comes to the dictionaries, also when one more job is added. -/
structure InOrder (l : Ledger pq) : Prop where
  number : ∀ t ∈ l.backlog.tickets, PriorityNumber (t.job.get? priorityKey) t.priority_num
  anyCase : ∀ t ∈ l.backlog.tickets, ∀ s, t.job.get? priorityKey = some (.str s) →
    ∀ p ∈ priorityWords, s.map Char.toUpper = p.1 → t.priority_num = p.2
  next : ∀ job b, l.backlog.getNextJob = (some job, b) → ∃ t, t.job = job ∧
    l.backlog.tickets.Perm (t :: b.tickets) ∧ ∀ t' ∈ b.tickets,
      t.priority_num < t'.priority_num ∨
        t.priority_num = t'.priority_num ∧ t.counter < t'.counter
  place : ∀ t ∈ l.backlog.tickets, ∃ i, t.counter = i + 1 ∧ l.added[i]? = some t.job
  empty_iff : l.backlog.getNextJob.1 = none ↔ l.backlog.tickets = []
  kept : (l.returned ++ l.backlog.jobs).Perm l.added
  compared : ∀ job, (l.backlog.addJob job).tickets.Pairwise fun t t' =>
    (tupleLt Ticket.key t t').isSome = true

section Issued

variable {l : Ledger pq}

theorem issued_empty (pq : LeastFirst Ticket.key) : Issued ⟨.empty pq, [], []⟩ where
  counter := rfl
  ticket t ht := by
    rw [Backlog.tickets, Backlog.empty, pq.items_empty] at ht
    cases ht
  distinct := by
    rw [Backlog.tickets, Backlog.empty, pq.items_empty]
    exact List.nodup_nil
  kept := by
    rw [Backlog.jobs, Backlog.tickets, Backlog.empty, pq.items_empty]
    exact List.Perm.refl _

/-- No entry has the next counter. -/
theorem Issued.le_counter (h : l.Issued) {t : Ticket} (ht : t ∈ l.backlog.tickets) :
    t.counter ≤ l.backlog.counter := by
  obtain ⟨-, i, hi, hjob⟩ := h.ticket t ht
  have := (List.getElem?_eq_some_iff.mp hjob).1
  rw [hi, h.counter]
  exact this

theorem Issued.add (h : l.Issued) (job : Dictionary) : Issued (l.call (.add_job job)) := by
  have hperm := pq.items_put l.backlog.queue ⟨priorityOf job, l.backlog.counter + 1, job⟩
  refine ⟨?_, fun t ht => ?_, ?_, ?_⟩
  · show l.backlog.counter + 1 = (l.added ++ [job]).length
    rw [h.counter, List.length_append, List.length_singleton]
  · rcases List.mem_cons.mp (hperm.subset ht) with rfl | ht
    · refine ⟨rfl, l.backlog.counter, rfl, ?_⟩
      rw [h.counter]
      exact List.getElem?_concat_length
    · obtain ⟨hpriority, i, hi, hjob⟩ := h.ticket t ht
      refine ⟨hpriority, i, hi, ?_⟩
      exact (List.getElem?_append_left (List.getElem?_eq_some_iff.mp hjob).1).trans hjob
  · refine ((hperm.map Ticket.counter).nodup_iff).mpr (List.nodup_cons.mpr ⟨fun hmem => ?_, h.distinct⟩)
    obtain ⟨t, ht, hcounter⟩ := List.mem_map.mp hmem
    have := h.le_counter ht
    dsimp only at hcounter
    omega
  · have hjobs : (l.call (.add_job job)).backlog.jobs.Perm (job :: l.backlog.jobs) :=
      hperm.map Ticket.job
    calc l.returned ++ (l.call (.add_job job)).backlog.jobs
        |>.Perm (l.returned ++ job :: l.backlog.jobs) := hjobs.append_left _
      _ |>.Perm (job :: (l.returned ++ l.backlog.jobs)) := List.perm_middle
      _ |>.Perm (job :: l.added) := h.kept.cons job
      _ |>.Perm (l.added ++ [job]) := (List.perm_append_singleton job l.added).symm

theorem Issued.get (h : l.Issued) : Issued (l.call .get_next_job) := by
  rcases l.backlog.getNextJob_cases with ⟨-, hnext⟩ | ⟨t, queue, -, hnext, hperm⟩
  · have hcall : l.call .get_next_job = l := by
      rw [call, hnext, Option.toList_none, List.append_nil]
    rw [hcall]
    exact h
  · have hcall : l.call .get_next_job =
        ⟨⟨queue, l.backlog.counter⟩, l.added, l.returned ++ [t.job]⟩ := by
      rw [call, hnext]
      rfl
    have hdistinct := ((hperm.map Ticket.counter).nodup_iff).mp h.distinct
    rw [hcall]
    refine ⟨h.counter, fun t' ht' => ?_, (List.nodup_cons.mp hdistinct).2, ?_⟩
    · exact h.ticket t' (hperm.symm.subset (List.mem_cons_of_mem t ht'))
    · refine List.Perm.trans ?_ h.kept
      rw [List.append_assoc]
      exact List.Perm.append_left _ (hperm.map Ticket.job).symm

theorem issued_call (h : l.Issued) (c : QueueCall) : (l.call c).Issued := by
  cases c with
  | add_job job => exact h.add job
  | get_next_job => exact h.get

theorem issued_after (pq : LeastFirst Ticket.key) (calls : List QueueCall) : (after pq calls).Issued := by
  induction calls using List.reverseRecOn with
  | nil => exact issued_empty pq
  | append_singleton calls c ih =>
    rw [after, List.foldl_append]
    exact issued_call ih c

/-- The counters make the keys distinct. -/
theorem Issued.nodup_keys (h : l.Issued) : (l.backlog.tickets.map Ticket.key).Nodup := by
  refine List.Nodup.of_map (fun key => (ofLex key).2) ?_
  rw [List.map_map]
  exact h.distinct

theorem Issued.inOrder (h : l.Issued) : l.InOrder where
  number t ht := (h.ticket t ht).1 ▸ priorityNumber_priorityOf t.job
  anyCase t ht s hs p hp hcase := (h.ticket t ht).1.trans (priorityOf_anyCase hs hp hcase)
  next job b hnext := by
    rcases l.backlog.getNextJob_cases with ⟨-, hnone⟩ | ⟨t, queue, hget, hsome, hperm⟩
    · rw [hnone] at hnext
      cases hnext
    · rw [hsome] at hnext
      cases hnext
      refine ⟨t, rfl, hperm, fun t' ht' => ?_⟩
      exact Prod.Lex.lt_iff.mp (LeastFirst.key_lt_of_get hget h.nodup_keys ht')
  place t ht := (h.ticket t ht).2
  empty_iff := by
    rcases l.backlog.getNextJob_cases with ⟨hempty, hnone⟩ | ⟨t, queue, -, hsome, hperm⟩
    · rw [hnone]
      exact iff_of_true rfl hempty
    · rw [hsome]
      refine iff_of_false (by simp) fun hempty => ?_
      rw [hempty] at hperm
      exact absurd hperm.length_eq (by simp)
  kept := h.kept
  compared job := LeastFirst.pairwise_isSome_iff.mpr (h.add job).nodup_keys

end Issued

/-- **The queue keeps the order of the priorities, and of the additions among equal ones**, after any
calls. -/
theorem inOrder_after (pq : LeastFirst Ticket.key) (calls : List QueueCall) : (after pq calls).InOrder :=
  (issued_after pq calls).inOrder

end Ledger

/-! ## The sorted list -/

namespace JobPriorityQueue

variable {pq : LeastFirst Ticket.key}

/-- The entry with the fields of the job. -/
def ticketOf (e : QueueEntry) : Ticket := ⟨e.priority_num, e.counter, e.job.fields⟩

/-- A queue of jobs with ids stands for a queue of dictionaries. -/
def Stands (q : JobPriorityQueue) (b : Backlog pq) : Prop :=
  b.counter = q.counter ∧ b.tickets.Perm (q.pq.map ticketOf)

theorem stands_empty (pq : LeastFirst Ticket.key) : Stands .empty (.empty pq) :=
  ⟨rfl, List.Perm.of_eq pq.items_empty⟩

theorem addJob_stands {q : JobPriorityQueue} {b : Backlog pq} (h : Stands q b) (job : Job) :
    Stands (q.addJob job) (b.addJob job.fields) := by
  obtain ⟨hcounter, hperm⟩ := h
  refine ⟨congrArg (· + 1) hcounter, (pq.items_put _ _).trans ?_⟩
  have hinsert : ((q.addJob job).pq.map ticketOf).Perm
      (ticketOf ⟨job.priorityNum, q.counter + 1, job⟩ :: q.pq.map ticketOf) :=
    (List.perm_orderedInsert _ _ _).map ticketOf
  refine List.Perm.trans ?_ hinsert.symm
  rw [hcounter]
  exact hperm.cons _

/-- **Both return the same job.** -/
theorem getNextJob_stands {q : JobPriorityQueue} {b : Backlog pq} (h : Stands q b) :
    b.getNextJob.1 = q.getNextJob.1.map Job.fields ∧ Stands q.getNextJob.2 b.getNextJob.2 := by
  obtain ⟨hcounter, hperm⟩ := h
  cases hempty : q.isEmpty with
  | true =>
    have hnil : q.pq = [] := List.isEmpty_iff.mp hempty
    have hq : q.getNextJob = (none, q) := by
      unfold getNextJob
      split
      · rfl
      · rename_i e es hcons
        rw [hnil] at hcons
        cases hcons
    rw [hnil, List.map_nil, List.perm_nil] at hperm
    rcases b.getNextJob_cases with ⟨-, hb⟩ | ⟨t, queue, -, -, hcons⟩
    · rw [hq, hb]
      refine ⟨rfl, hcounter, ?_⟩
      rw [hnil, hperm]
      exact List.Perm.refl _
    · rw [hperm] at hcons
      exact absurd hcons.length_eq (by simp)
  | false =>
    obtain ⟨e, es, q', hpq, hq, hes, hcounter'⟩ := exists_getNextJob hempty
    have hsorted : (q.pq.map ticketOf).Pairwise fun t t' => t.key ≤ t'.key := by
      rw [List.pairwise_map]
      refine q.sorted.imp fun {a c} hle => ?_
      rcases hle with hlt | ⟨heq, hle⟩
      · exact Prod.Lex.le_iff.mpr (.inl hlt)
      · exact Prod.Lex.le_iff.mpr (.inr ⟨heq, hle⟩)
    have hkeys : (b.tickets.map Ticket.key).Nodup := by
      refine ((hperm.map Ticket.key).nodup_iff).mpr (List.Nodup.of_map (fun key => (ofLex key).2) ?_)
      rw [List.map_map, List.map_map]
      exact q.distinct
    rw [hpq, List.map_cons] at hperm hsorted
    rcases b.getNextJob_cases with ⟨hnil, -⟩ | ⟨t, queue, hget, hb, -⟩
    · rw [hnil] at hperm
      exact absurd hperm.length_eq (by simp)
    · have hlist : (LeastFirst.sortedList Ticket.key).get ⟨ticketOf e :: es.map ticketOf, hsorted⟩ =
          some (ticketOf e, ⟨es.map ticketOf, (List.pairwise_cons.mp hsorted).2⟩) := rfl
      obtain ⟨rfl, hrest⟩ := LeastFirst.get_unique hget hlist hperm hkeys
      rw [hq, hb]
      refine ⟨rfl, hcounter.trans hcounter'.symm, ?_⟩
      rw [hes]
      exact hrest

end JobPriorityQueue

end JobSystem
