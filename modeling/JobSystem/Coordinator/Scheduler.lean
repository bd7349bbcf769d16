import JobSystem.Coordinator.Queue
import JobSystem.Coordinator.Registry
import JobSystem.Coordinator.Breaker

/-!
# The scheduler

`get_next_job_and_worker` asks the breaker of every available worker, with side effects, and then
chooses the first admitted worker with the most free capacity.

* `admitAll`: the loop over `can_assign_task`; **`breaker_admitAll`**, **`admitted_admitAll`**;
* `chooseWorker`; **`chooseWorker_iff`**: the choice is the `Preferred` worker;
* `getNextJobAndWorker`.
-/

namespace JobSystem

open PyText

/-! ## The breakers of the available workers -/

/-- The filtering loop; each `can_assign_task` reads its own clock. The manager after it, the workers
that were let through, and the alerts. -/
def admitAll (now : Str → ℚ) : CircuitBreakerManager → List (Str × WorkerData) →
    CircuitBreakerManager × List (Str × WorkerData) × List Event
  | m, [] => (m, [], [])
  | m, (wid, data) :: rest =>
    let r := m.canAssignTask wid (now wid)
    let r' := admitAll now r.1 rest
    (r'.1, if r.2.1 then (wid, data) :: r'.2.1 else r'.2.1, r.2.2 ++ r'.2.2)

section Admit

variable {now : Str → ℚ} {ws : List (Str × WorkerData)}

/-- Every worker in the list is asked once, and no other. -/
theorem breaker_admitAll (hws : (ws.map Prod.fst).Nodup) (m : CircuitBreakerManager) (w : Str) :
    (admitAll now m ws).1.breaker w =
      if w ∈ ws.map Prod.fst then ((m.breaker w).canAssignTask (now w)).1 else m.breaker w := by
  induction ws generalizing m with
  | nil => rfl
  | cons p ws ih =>
    obtain ⟨wid, data⟩ := p
    obtain ⟨hn, hws⟩ := List.nodup_cons.mp hws
    simp only [admitAll]
    rw [ih hws]
    simp only [CircuitBreakerManager.canAssignTask, CircuitBreakerManager.breaker_setBreaker,
      List.map_cons, List.mem_cons]
    by_cases hw : w = wid
    · subst hw
      simp only [if_neg hn, if_true, true_or]
    · simp only [hw, false_or, if_false]

/-- The workers let through are those whose breakers admit them. -/
theorem admitted_admitAll (hws : (ws.map Prod.fst).Nodup) (m : CircuitBreakerManager) :
    (admitAll now m ws).2.1 = ws.filter fun p => (m.breaker p.1).Admits (now p.1) := by
  induction ws generalizing m with
  | nil => rfl
  | cons p ws ih =>
    obtain ⟨wid, data⟩ := p
    obtain ⟨hn, hws⟩ := List.nodup_cons.mp hws
    have hrest : ws.filter (fun p => ((m.canAssignTask wid (now wid)).1.breaker p.1).Admits (now p.1)) =
        ws.filter fun p => (m.breaker p.1).Admits (now p.1) := by
      refine List.filter_congr fun p hp => ?_
      have hmem : p.1 ∈ ws.map Prod.fst := List.mem_map_of_mem hp
      have hne : p.1 ≠ wid := fun e => hn (e ▸ hmem)
      simp only [CircuitBreakerManager.canAssignTask, CircuitBreakerManager.breaker_setBreaker,
        if_neg hne]
    simp only [admitAll]
    rw [ih hws, hrest, List.filter_cons]
    simp only [CircuitBreakerManager.canAssignTask, WorkerCircuitBreaker.canAssignTask_snd]

/-- The breakers publish nothing but alerts. -/
theorem alerts_admitAll (m : CircuitBreakerManager) {e : Event}
    (he : e ∈ (admitAll now m ws).2.2) : ∃ level message, e = .alert level message := by
  induction ws generalizing m with
  | nil => cases he
  | cons p ws ih =>
    obtain ⟨wid, data⟩ := p
    rcases List.mem_append.mp he with he | he
    · exact CircuitBreakerManager.alert_of_mem_publishAlert he
    · exact ih _ he

end Admit

/-! ## The choice -/

/-- One round of the choosing loop. -/
def chooseStep (acc : Option Str × ℤ) (p : Str × WorkerData) : Option Str × ℤ :=
  if acc.2 < p.2.freeCapacity then (some p.1, p.2.freeCapacity) else acc

/-- The choosing loop, from `chosen_worker = None` and `max_free_capacity = -1`. -/
def chooseWorker (ws : List (Str × WorkerData)) : Option Str := (ws.foldl chooseStep (none, -1)).1

/-- A worker with more free capacity than those before it and at least that of those after it. -/
def Preferred (ws : List (Str × WorkerData)) (w : Str) : Prop :=
  ∃ before data after, ws = before ++ (w, data) :: after ∧
    (∀ p ∈ before, p.2.freeCapacity < data.freeCapacity) ∧
    ∀ p ∈ after, p.2.freeCapacity ≤ data.freeCapacity

section Choose

variable {ws : List (Str × WorkerData)}

theorem foldl_chooseStep_of_le {acc : Option Str × ℤ} (h : ∀ p ∈ ws, p.2.freeCapacity ≤ acc.2) :
    ws.foldl chooseStep acc = acc := by
  induction ws with
  | nil => rfl
  | cons p ws ih =>
    have hp := h p List.mem_cons_self
    rw [List.foldl_cons, chooseStep, if_neg (by omega)]
    exact ih fun q hq => h q (List.mem_cons_of_mem _ hq)

theorem foldl_chooseStep_lt {acc : Option Str × ℤ} {n : ℤ} (hacc : acc.2 < n)
    (h : ∀ p ∈ ws, p.2.freeCapacity < n) : (ws.foldl chooseStep acc).2 < n := by
  induction ws generalizing acc with
  | nil => exact hacc
  | cons p ws ih =>
    have hp := h p List.mem_cons_self
    rw [List.foldl_cons]
    refine ih ?_ fun q hq => h q (List.mem_cons_of_mem _ hq)
    unfold chooseStep
    split_ifs
    · exact hp
    · exact hacc

theorem chooseWorker_of_preferred (hfree : ∀ p ∈ ws, 0 < p.2.freeCapacity) {w : Str}
    (h : Preferred ws w) : chooseWorker ws = some w := by
  obtain ⟨before, data, after, rfl, hbefore, hafter⟩ := h
  have hpos := hfree (w, data) (by simp)
  have hlt : (before.foldl chooseStep (none, -1)).2 < data.freeCapacity :=
    foldl_chooseStep_lt (by simp only at hpos ⊢; omega) hbefore
  rw [chooseWorker, List.foldl_append, List.foldl_cons, chooseStep, if_pos hlt,
    foldl_chooseStep_of_le hafter]

/-- A nonempty list of workers has a preferred one. -/
theorem exists_preferred (hne : ws ≠ []) : ∃ w, Preferred ws w := by
  induction ws using List.reverseRecOn with
  | nil => exact absurd rfl hne
  | append_singleton ws p ih =>
    obtain ⟨w, data⟩ := p
    by_cases hnil : ws = []
    · exact ⟨w, [], data, [], by simp [hnil]⟩
    · obtain ⟨v, before, d, after, rfl, hbefore, hafter⟩ := ih hnil
      by_cases hlt : d.freeCapacity < data.freeCapacity
      · refine ⟨w, before ++ (v, d) :: after, data, [], rfl, fun p hp => ?_, by simp⟩
        rcases List.mem_append.mp hp with hp | hp
        · exact lt_trans (hbefore p hp) hlt
        · rcases List.mem_cons.mp hp with rfl | hp
          · exact hlt
          · exact lt_of_le_of_lt (hafter p hp) hlt
      · refine ⟨v, before, d, after ++ [(w, data)], by simp, hbefore, fun p hp => ?_⟩
        rcases List.mem_append.mp hp with hp | hp
        · exact hafter p hp
        · rw [List.mem_singleton.mp hp]
          exact not_lt.mp hlt

/-- **The scheduler chooses the preferred worker.** -/
theorem chooseWorker_iff (hfree : ∀ p ∈ ws, 0 < p.2.freeCapacity) (w : Str) :
    chooseWorker ws = some w ↔ Preferred ws w := by
  refine ⟨fun h => ?_, chooseWorker_of_preferred hfree⟩
  have hne : ws ≠ [] := by
    rintro rfl
    cases h
  obtain ⟨v, hv⟩ := exists_preferred hne
  have := chooseWorker_of_preferred hfree hv
  rw [h] at this
  cases this
  exact hv

theorem Preferred.mem {w : Str} (h : Preferred ws w) : ∃ data, (w, data) ∈ ws := by
  obtain ⟨before, data, after, rfl, -, -⟩ := h
  exact ⟨data, by simp⟩

end Choose

/-! ## The call -/

/-- What a call of `get_next_job_and_worker` leaves. -/
structure Scheduled where
  result : Option (Job × Str)
  queue : JobPriorityQueue
  manager : CircuitBreakerManager
  alerts : List Event

/-- `get_next_job_and_worker`; a chosen worker must be a nonempty string. -/
def getNextJobAndWorker (queue : JobPriorityQueue) (registry : WorkerRegistry)
    (manager : CircuitBreakerManager) (now : Str → ℚ) : Scheduled :=
  if queue.isEmpty then ⟨none, queue, manager, []⟩
  else
    let r := admitAll now manager registry.getAvailableWorkers
    match chooseWorker r.2.1 with
    | some w =>
      if w = [] then ⟨none, queue, r.1, r.2.2⟩
      else ⟨queue.getNextJob.1.map fun job => (job, w), queue.getNextJob.2, r.1, r.2.2⟩
    | none => ⟨none, queue, r.1, r.2.2⟩

/-- The workers that a call lets through. -/
def admitted (registry : WorkerRegistry) (manager : CircuitBreakerManager) (now : Str → ℚ) :
    List (Str × WorkerData) :=
  registry.getAvailableWorkers.filter fun p => (manager.breaker p.1).Admits (now p.1)

theorem chooseWorker_admitAll (registry : WorkerRegistry) (manager : CircuitBreakerManager)
    (now : Str → ℚ) (w : Str) :
    chooseWorker (admitAll now manager registry.getAvailableWorkers).2.1 = some w ↔
      Preferred (admitted registry manager now) w := by
  rw [admitted_admitAll registry.nodup_getAvailableWorkers]
  refine chooseWorker_iff (fun p hp => ?_) w
  exact (WorkerRegistry.mem_getAvailableWorkers (List.mem_filter.mp hp).1).2

end JobSystem
