import JobSystem.Coordinator.System

/-!
# Stale failures

The monitor finds a worker silent and publishes `WORKER_FAILED`, once or more and possibly later; the
event carries no more than the worker's id. A worker that registers again in the meantime is removed
when such an event reaches `handle_worker_failure` after its `REGISTER` reached `handle_register`.

* `MonitoredSystem`: the system, with what the monitor has found and who registered since;
* `Present`, `present_step`: a worker that registered since is registered, or its `REGISTER` waits;
* `registered_of_renewed`: runs in which no stale failure overtakes a registration;
* `not_present_of_not_guard`: what happens when one does.
-/

namespace JobSystem

open PyText Trans
open PyJson (Json)

/-- The worker that a `REGISTER` names. -/
def Event.registering? : Event → Option Str
  | .register w _ => some w
  | _ => none

namespace System

/-- A `REGISTER` of the worker waits at `handle_register`. -/
def Registering (s : System) (w : Str) : Prop :=
  ∃ capacity, .register w capacity ∈ s.bus .handle_register

instance (s : System) (w : Str) : Decidable (s.Registering w) :=
  decidable_of_iff (∃ e ∈ s.bus .handle_register, e.registering? = some w) <| by
    constructor
    · rintro ⟨e, he, hw⟩
      cases e with
      | register w' capacity =>
        cases hw
        exact ⟨capacity, he⟩
      | _ => cases hw
    · rintro ⟨capacity, h⟩
      exact ⟨_, h, rfl⟩

/-- The worker is registered, or is about to be. -/
def Present (s : System) (w : Str) : Prop := w ∈ s.coord.registry ∨ s.Registering w

section Present

variable {repr : Json → Str} {s s' : System} {w : Str}

theorem Registering.publish (h : s.Registering w) (e : Event) : (s.publish e).Registering w := by
  obtain ⟨capacity, hw⟩ := h
  exact ⟨capacity, mem_bus_publish.mpr (Or.inl hw)⟩

theorem Present.publish (h : s.Present w) (e : Event) : (s.publish e).Present w :=
  h.imp id fun h => h.publish e

/-- A delivery to another subscription than `handle_register`. -/
theorem Present.deliver (h : s.Present w) {sub : Subscription} (hbus : s'.bus = s.bus.rest sub)
    (hsub : sub ≠ .handle_register) (hreg : w ∈ s.coord.registry → w ∈ s'.coord.registry) :
    s'.Present w := by
  rcases h with h | ⟨capacity, h⟩
  · exact Or.inl (hreg h)
  · refine Or.inr ⟨capacity, ?_⟩
    rw [hbus]
    exact Bus.mem_rest_of_ne hsub.symm h

/-- Only `handle_worker_failure` makes a worker absent whose `REGISTER` does not wait. -/
theorem present_step {l : Label} (h : Step repr s l s') (hw : w ≠ []) (hp : s.Present w)
    (hg : ∀ now, l = .deliver .handle_worker_failure now →
      (s.bus .handle_worker_failure).head? = some (.workerFailed w) → s.Registering w) :
    s'.Present w := by
  cases h with
  | submit job => exact Present.publish (s := { s with submitted := _ }) hp _
  | register w' capacity => exact Present.publish (s := { s with connected := _ }) hp _
  | heartbeat w' => exact hp.publish _
  | idle now m => exact hp
  | assign now m e q w' hpq hcounter hw' =>
    refine Present.publish (s := { s with coord := _ }) ?_ _
    exact hp.imp WorkerRegistry.mem_incrementLoad.mpr id
  | complete i result w' job h =>
    exact Present.publish (s := { s with running := _, completed := _ }) hp _
  | fail i error w' job h => exact Present.publish (s := { s with running := _ }) hp _
  | crash w' => exact hp
  | monitor w' now hw' => exact hp.publish _
  | handle_register now w' capacity es h =>
    rcases hp with hp | ⟨capacity', hp⟩
    · exact Or.inl (CoordinatorService.mem_handleRegister.mpr (Or.inl hp))
    · rcases Bus.eq_head_or_mem_rest h hp with ⟨-, he, -⟩ | hp
      · exact Or.inl (CoordinatorService.mem_handleRegister.mpr (Or.inr ⟨rfl, hw⟩))
      · exact Or.inr ⟨capacity', hp⟩
  | handle_heartbeat now w' es h =>
    exact hp.deliver rfl (by decide) CoordinatorService.mem_handleHeartbeat.mpr
  | handle_worker_failure now w' es h =>
    have hregister : s.Registering w → Present { s with
        bus := s.bus.rest .handle_worker_failure
        coord := s.coord.handleWorkerFailure w' } w := by
      rintro ⟨capacity, hmem⟩
      have hne : Subscription.handle_register ≠ .handle_worker_failure := by decide
      exact Or.inr ⟨capacity, Bus.mem_rest_of_ne hne hmem⟩
    by_cases hww : w' = w
    · subst hww
      refine hregister (hg now rfl ?_)
      rw [h]
      rfl
    · rcases hp with hp | hp
      · refine Or.inl ?_
        by_cases hw' : w' = []
        · simpa only [CoordinatorService.handleWorkerFailure, hw', if_true] using hp
        · exact (CoordinatorService.mem_handleWorkerFailure hw').mpr ⟨Ne.symm hww, hp⟩
      · exact hregister hp
  | handle_worker_failed now w' es h =>
    refine hp.deliver rfl (by decide) fun hreg => ?_
    rwa [CoordinatorService.registry_handleWorkerFailed]
  | handle_job_completed now w' job result es h =>
    exact hp.deliver rfl (by decide) CoordinatorService.mem_handleJobCompleted.mpr
  | handle_task_failed now w' job error es h =>
    exact hp.deliver rfl (by decide) CoordinatorService.mem_handleTaskFailed.mpr
  | handle_job_submitted | persist_worker | persist_task | persist_task_assigned
  | persist_task_completed | send_to_worker => exact hp.deliver rfl (by decide) id

end Present

end System

/-- The system, whether the monitor has found each worker silent, and whether each worker's latest
`REGISTER` was sent after the monitor last found it so. -/
structure MonitoredSystem where
  sys : System
  timedOut : Str → Bool
  renewed : Str → Bool

namespace MonitoredSystem

/-- The monitor may find a worker silent and publish later, and it may publish again. -/
inductive Label where
  | sys (l : System.Label)
  | timeout (w : Str) (now : ℚ)
  | publishFailed (w : Str)

/-- The worker that a step finds silent. -/
def Label.timedOut? : Label → Option Str
  | .sys (.monitor w _) => some w
  | .timeout w _ => some w
  | _ => none

/-- The worker whose `REGISTER` a step sends. -/
def Label.registered? : Label → Option Str
  | .sys (.register w _) => some w
  | _ => none

/-- What a step does to the system. -/
def stepSystem (repr : Json → Str) (s : MonitoredSystem) : Label → Option System
  | .sys l => System.step repr l s.sys
  | .timeout w now => (System.step repr (.monitor w now) s.sys).map fun _ => s.sys
  | .publishFailed w => if s.timedOut w then some (s.sys.publish (.workerFailed w)) else none

/-- The step, with the record of it. -/
def step (repr : Json → Str) : Machine MonitoredSystem Label := fun l s =>
  (s.stepSystem repr l).map fun t =>
    { sys := t
      timedOut := fun w => if l.timedOut? = some w then true else s.timedOut w
      renewed := fun w =>
        if l.registered? = some w then true else if l.timedOut? = some w then false else s.renewed w }

/-- A new system on the given database. -/
def start (failure_threshold : ℤ) (recovery_timeout heartbeat_timeout : ℚ) (max_retries : ℤ)
    (store : PostgresStore) : MonitoredSystem :=
  ⟨.start failure_threshold recovery_timeout heartbeat_timeout max_retries store, fun _ => false, fun _ => false⟩

/-- The worker whose failure reaches `handle_worker_failure`. -/
def failing? (s : MonitoredSystem) : Label → Option Str
  | .sys (.deliver .handle_worker_failure _) =>
    match (s.sys.bus .handle_worker_failure).head? with
    | some (.workerFailed w) => some w
    | _ => none
  | _ => none

/-- A failure is stale when the worker has registered since; it may be handled only while that
`REGISTER` still waits. -/
def Guard (s : MonitoredSystem) (l : Label) : Prop :=
  ∀ w ∈ s.failing? l, s.renewed w = true → s.sys.Registering w

instance (s : MonitoredSystem) (l : Label) : Decidable (s.Guard l) :=
  inferInstanceAs (Decidable (∀ w ∈ s.failing? l, _))

/-- The states of guarded runs. -/
structure Renewed (s : MonitoredSystem) : Prop where
  valid : s.sys.Valid
  named : s.timedOut [] = false
  present : ∀ w, w ≠ [] → s.renewed w = true → s.sys.Present w

section Step

variable {repr : Json → Str} {s s' : MonitoredSystem} {l : Label}

theorem renewed_start (failure_threshold : ℤ) (recovery_timeout heartbeat_timeout : ℚ)
    (max_retries : ℤ) (store : PostgresStore) :
    (start failure_threshold recovery_timeout heartbeat_timeout max_retries store).Renewed where
  valid := System.valid_init (WorkerRegistry.notMem_empty _)
  named := rfl
  present := fun w _ h => by cases h

/-- The monitor finds only registered workers silent. -/
theorem mem_of_timedOut (h : step repr l s = some s') {w : Str} (hw : l.timedOut? = some w) :
    w ∈ s.sys.coord.registry := by
  obtain ⟨t, ht, -⟩ := Option.map_eq_some_iff.mp h
  have hmonitor : ∀ now t, System.step repr (.monitor w now) s.sys = some t →
      w ∈ s.sys.coord.registry := by
    intro now t ht
    simp only [System.step] at ht
    split at ht
    · next data hdata => exact PyDict.mem_of_get? hdata
    · cases ht
  cases l with
  | sys l =>
    cases l with
    | monitor w' now =>
      cases hw
      exact hmonitor now t ht
    | _ => cases hw
  | timeout w' now =>
    cases hw
    obtain ⟨t', ht', -⟩ := Option.map_eq_some_iff.mp ht
    exact hmonitor now t' ht'
  | publishFailed w' => cases hw

/-- The worker is present after what a step does to the system. -/
theorem present_stepSystem (h : s.Renewed) (hg : s.Guard l) {t : System}
    (ht : s.stepSystem repr l = some t) {w : Str} (hw : w ≠ [])
    (hr : s.renewed w = true ∨ l.registered? = some w) : t.Present w := by
  cases l with
  | timeout w' now =>
    obtain ⟨-, -, rfl⟩ := Option.map_eq_some_iff.mp ht
    exact h.present w hw (hr.resolve_right nofun)
  | publishFailed w' =>
    simp only [stepSystem] at ht
    split_ifs at ht
    cases ht
    exact (h.present w hw (hr.resolve_right nofun)).publish _
  | sys l =>
    by_cases hreg : (Label.sys l).registered? = some w
    · cases l with
      | register w' capacity =>
        cases hreg
        cases ht
        exact Or.inr ⟨capacity, System.mem_bus_publish.mpr (Or.inr ⟨rfl, rfl⟩)⟩
      | _ => cases hreg
    · have hren := hr.resolve_right hreg
      refine System.present_step (System.step_cases h.valid.heard ht) hw (h.present w hw hren) ?_
      rintro now rfl hhead
      exact hg w (by simp only [failing?, hhead, Option.mem_def]) hren

theorem valid_stepSystem (h : s.Renewed) {t : System} (ht : s.stepSystem repr l = some t) :
    t.Valid := by
  cases l with
  | timeout w' now =>
    obtain ⟨-, -, rfl⟩ := Option.map_eq_some_iff.mp ht
    exact h.valid
  | publishFailed w' =>
    simp only [stepSystem] at ht
    split_ifs at ht with hm
    cases ht
    refine h.valid.publish (.workerFailed w') ?_ (by simp) (by simp)
    rintro _ ⟨⟩ rfl
    rw [h.named] at hm
    cases hm
  | sys l => exact System.valid_step h.valid (System.step_cases h.valid.heard ht)

theorem renewed_step (l : Label) (s s' : MonitoredSystem) (h : s.Renewed) (hg : s.Guard l)
    (hs : step repr l s = some s') : s'.Renewed := by
  have htimed : ∀ w, l.timedOut? = some w → w ≠ [] := by
    rintro w hw rfl
    exact h.valid.registered (mem_of_timedOut hs hw)
  obtain ⟨t, ht, rfl⟩ := Option.map_eq_some_iff.mp hs
  refine ⟨valid_stepSystem h ht, ?_, fun w hw hren => ?_⟩
  · simp only [if_neg fun hn => htimed [] hn rfl, h.named]
  · refine present_stepSystem h hg ht hw ?_
    simp only at hren
    split_ifs at hren with hreg
    · exact Or.inr hreg
    · exact Or.inl hren

end Step

/-! ## Runs -/

section Runs

variable {repr : Json → Str}

/-- A worker whose latest `REGISTER` was sent after its latest timeout is recorded as such. -/
theorem renewed_of_append {post : List Label} {s t : MonitoredSystem} {w : Str}
    (hpost : ∀ l ∈ post, l.timedOut? ≠ some w) (hs : s.renewed w = true)
    (hr : run (step repr) post s = some t) : t.renewed w = true := by
  induction post generalizing s with
  | nil =>
    cases hr
    exact hs
  | cons l post ih =>
    obtain ⟨s', hl, hr⟩ := run_cons_eq_some.mp hr
    refine ih (fun l' hl' => hpost l' (List.mem_cons_of_mem _ hl')) ?_ hr
    obtain ⟨u, -, rfl⟩ := Option.map_eq_some_iff.mp hl
    simp only [if_neg (hpost l List.mem_cons_self), hs, ite_self]

/-- **A stale failure does not evict a live worker**, in a run in which it never overtakes the
registration: once every event has been handled, a worker whose latest `REGISTER` was sent after the
monitor last found it silent is registered. -/
theorem registered_of_renewed (repr : Json → Str) {failure_threshold : ℤ}
    {recovery_timeout heartbeat_timeout : ℚ} {max_retries : ℤ} {store : PostgresStore}
    {pre post : List Label} {w : Str} {capacity : Option ℤ} {t : MonitoredSystem}
    (hr : run (step repr) (pre ++ .sys (.register w capacity) :: post)
      (start failure_threshold recovery_timeout heartbeat_timeout max_retries store) = some t)
    (hg : Guarded (step repr) Guard (pre ++ .sys (.register w capacity) :: post)
      (start failure_threshold recovery_timeout heartbeat_timeout max_retries store))
    (hw : w ≠ []) (hpost : ∀ l ∈ post, l.timedOut? ≠ some w) (hquiet : t.sys.Quiet) :
    w ∈ t.sys.coord.registry := by
  have hinv : t.Renewed := run_invariant renewed_step (renewed_start _ _ _ _ _) hg hr
  have hren : t.renewed w = true := by
    obtain ⟨s, -, hr⟩ := run_append_eq_some.mp hr
    obtain ⟨s', hl, hr⟩ := run_cons_eq_some.mp hr
    obtain ⟨u, -, rfl⟩ := Option.map_eq_some_iff.mp hl
    exact renewed_of_append hpost (if_pos rfl) hr
  rcases hinv.present w hw hren with h | ⟨capacity, h⟩
  · exact h
  · rw [List.isEmpty_iff.mp (hquiet .handle_register)] at h
    exact (List.not_mem_nil h).elim

end Runs

theorem of_mem_failing? {s : MonitoredSystem} {l : Label} {w : Str} (h : w ∈ s.failing? l) :
    ∃ now es, l = .sys (.deliver .handle_worker_failure now) ∧
      s.sys.bus .handle_worker_failure = .workerFailed w :: es := by
  unfold failing? at h
  split at h
  · next now =>
    split at h
    · next w' hhead =>
      cases h
      obtain ⟨es, hes⟩ := List.head?_eq_some_iff.mp hhead
      exact ⟨now, es, rfl, hes⟩
    · cases h
  · cases h

/-- A stale failure that does overtake the registration leaves the worker neither registered nor
about to be. -/
theorem not_present_of_not_guard {repr : Json → Str} {s s' : MonitoredSystem} {l : Label}
    (h : s.Renewed) (hg : ¬ s.Guard l) (hs : step repr l s = some s') :
    ∃ w, s'.renewed w = true ∧ ¬ s'.sys.Present w := by
  simp only [Guard, not_forall] at hg
  obtain ⟨w, hw, hren, hreg⟩ := hg
  obtain ⟨now, es, rfl, hb⟩ := of_mem_failing? hw
  have hne : w ≠ [] := h.valid.removing w (hb ▸ List.mem_cons_self)
  have hstep : s.stepSystem repr (.sys (.deliver .handle_worker_failure now)) = some
      { s.sys with
        bus := s.sys.bus.rest .handle_worker_failure
        coord := s.sys.coord.handleWorkerFailure w } := by
    simp only [stepSystem, System.step, hb]
    rfl
  rw [step, hstep] at hs
  cases hs
  refine ⟨w, hren, not_or.mpr ⟨fun hm => ?_, fun hm => hreg ?_⟩⟩
  · exact ((CoordinatorService.mem_handleWorkerFailure hne).mp hm).1 rfl
  · obtain ⟨capacity, hm⟩ := hm
    have hm' : .register w capacity ∈ s.sys.bus.rest .handle_worker_failure .handle_register := hm
    exact ⟨capacity, Bus.mem_of_mem_rest hm'⟩

/-- A worker is found silent and starts again. -/
def silenced : List Label :=
  [.sys (.register ['a'] (some 1)), .sys (.deliver .handle_register 0),
    .sys (.deliver .persist_worker 0), .sys (.monitor ['a'] 11),
    .sys (.deliver .handle_worker_failed 11)]

/-- The worker's failure is handled before it registers again. -/
theorem registered_of_renewed_restart : ∃ t, run (step fun _ => [])
      (silenced ++ [.sys (.deliver .handle_worker_failure 11)] ++ .sys (.register ['a'] (some 1)) ::
        [.sys (.deliver .handle_register 12), .sys (.deliver .persist_worker 12)])
      (start 3 5 10 3 ⟨true, true, ∅, ∅⟩) = some t ∧ ['a'] ∈ t.sys.coord.registry := by
  have h : (run (step fun _ => [])
      (silenced ++ [.sys (.deliver .handle_worker_failure 11)] ++ .sys (.register ['a'] (some 1)) ::
        [.sys (.deliver .handle_register 12), .sys (.deliver .persist_worker 12)])
      (start 3 5 10 3 ⟨true, true, ∅, ∅⟩)).map (fun t => decide t.sys.Quiet) = some true := by
    decide +kernel
  obtain ⟨t, hr, ht⟩ := Option.map_eq_some_iff.mp h
  have hG : Guarded (step fun _ => []) Guard
      (silenced ++ [.sys (.deliver .handle_worker_failure 11)] ++ .sys (.register ['a'] (some 1)) ::
        [.sys (.deliver .handle_register 12), .sys (.deliver .persist_worker 12)])
      (start 3 5 10 3 ⟨true, true, ∅, ∅⟩) := by decide +kernel
  exact ⟨t, hr, registered_of_renewed _ hr hG (by decide) (by decide) (of_decide_eq_true ht)⟩

/-- The worker has registered again when its failure is handled. -/
theorem evicted_after_restart : ∃ t, run (step fun _ => [])
      (silenced ++ .sys (.register ['a'] (some 1)) ::
        [.sys (.deliver .handle_register 12), .sys (.deliver .persist_worker 12),
          .sys (.deliver .handle_worker_failure 12)])
      (start 3 5 10 3 ⟨true, true, ∅, ∅⟩) = some t ∧ t.sys.Quiet ∧
        ['a'] ∉ t.sys.coord.registry := by
  have h : (run (step fun _ => [])
      (silenced ++ .sys (.register ['a'] (some 1)) ::
        [.sys (.deliver .handle_register 12), .sys (.deliver .persist_worker 12),
          .sys (.deliver .handle_worker_failure 12)])
      (start 3 5 10 3 ⟨true, true, ∅, ∅⟩)).map (fun t =>
        decide (t.sys.Quiet ∧ ['a'] ∉ t.sys.coord.registry)) = some true := by decide +kernel
  obtain ⟨t, hr, ht⟩ := Option.map_eq_some_iff.mp h
  exact ⟨t, hr, of_decide_eq_true ht⟩

end MonitoredSystem

end JobSystem
