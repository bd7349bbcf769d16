import JobSystem.Lib.Text
import JobSystem.Lib.Dict
import JobSystem.Lib.Trans

/-!
# The autoscaler

`Autoscaler`, with the processes that it has started. A process exits by itself at any time; one that
`scale_down` stops no longer runs. Each `Popen` object is known by its number.

* `cleanDeadProcesses`, `scaleUp`, `scaleDown`, `shutdown`;
* `OneToOne`: every process that runs is tracked, within the bound, under an id of its own, and can be
  stopped; `FreshId`: the id of the next worker is not in use;
* `Handled`: what holds in any case; **`oneToOne_step_iff`**, **`oneToOne_iff`**.
-/

namespace JobSystem

open PyText Trans

/-- A process, and the worker id on its command line. -/
structure Process where
  popen : ℕ
  worker_id : Str

/-- The autoscaler, the processes that run, and the number of those started so far. -/
structure Autoscaler where
  min_workers : ℕ
  max_workers : ℕ
  active_subprocesses : PyDict Str ℕ
  running : List Process
  started : ℕ

namespace Autoscaler

/-- A new autoscaler. -/
def new (min_workers max_workers : ℕ) : Autoscaler := ⟨min_workers, max_workers, ∅, [], 0⟩

/-- `proc.poll() is None` -/
def alive (a : Autoscaler) (proc : ℕ) : Bool := a.running.any fun p => p.popen = proc

/-- `clean_dead_processes`. -/
def cleanDeadProcesses (a : Autoscaler) : Autoscaler :=
  { a with
    active_subprocesses := a.active_subprocesses.entries.foldl
      (fun d p => if a.alive p.2 then d else d.erase p.1) a.active_subprocesses }

/-- `f"worker-dynamic-{n}"` -/
def dynamicId (n : ℕ) : Str := "worker-dynamic-".toList ++ natStr n

/-- `worker_id` of `scale_up`. -/
def nextId (a : Autoscaler) : Str := dynamicId (a.active_subprocesses.size + 1)

/-- `scale_up`. -/
def scaleUp (a : Autoscaler) : Autoscaler :=
  let a := a.cleanDeadProcesses
  if a.max_workers ≤ a.active_subprocesses.size then a
  else
    { a with
      active_subprocesses := a.active_subprocesses.set a.nextId a.started
      running := a.running ++ [⟨a.started, a.nextId⟩]
      started := a.started + 1 }

/-- `proc.terminate()`; a process that does not end in time is killed. -/
def terminate (running : List Process) (proc : ℕ) : List Process :=
  running.filter fun p => p.popen ≠ proc

/-- `scale_down`. -/
def scaleDown (a : Autoscaler) : Autoscaler :=
  let a := a.cleanDeadProcesses
  if a.active_subprocesses.size ≤ a.min_workers then a
  else
    match a.active_subprocesses.entries.getLast? with
    | some (worker_id, proc) =>
      { a with
        active_subprocesses := a.active_subprocesses.erase worker_id
        running := terminate a.running proc }
    | none => a

/-- The processes that are left when the coordinator has terminated the tracked ones. -/
def shutdown (a : Autoscaler) : List Process :=
  (a.active_subprocesses.entries.map Prod.snd).foldl terminate a.running

/-- The calls, and the exit of a process. -/
inductive Label where
  | scale_up
  | scale_down
  | clean_dead_processes
  | exit (proc : ℕ)

/-- One of them. -/
def step : Machine Autoscaler Label
  | .scale_up, a => some a.scaleUp
  | .scale_down, a => some a.scaleDown
  | .clean_dead_processes, a => some a.cleanDeadProcesses
  | .exit proc, a => some { a with running := terminate a.running proc }

/-- The process is a value of `active_subprocesses`. -/
def Tracks (a : Autoscaler) (p : Process) : Prop :=
  ∃ worker_id, a.active_subprocesses.get? worker_id = some p.popen

/-- The dynamic workers are tracked one-to-one. -/
structure OneToOne (a : Autoscaler) : Prop where
  tracked : ∀ p ∈ a.running, a.Tracks p
  bounded : a.running.length ≤ a.max_workers
  distinct : (a.running.map Process.worker_id).Nodup
  stopped : a.shutdown = []

/-- Below the maximum, the next id is not in use. -/
def NextFree (a : Autoscaler) : Prop :=
  a.active_subprocesses.size < a.max_workers → a.nextId ∉ a.active_subprocesses

/-- The worker that `scale_up` starts gets an id that no live process has. -/
def FreshId (a : Autoscaler) : Label → Prop
  | .scale_up => a.cleanDeadProcesses.NextFree
  | _ => True

/-- Every process has its own number and is tracked under its own id, if at all. -/
structure Handled (a : Autoscaler) : Prop where
  size : a.active_subprocesses.size ≤ a.max_workers
  named : ∀ w, ∀ p ∈ a.running, a.active_subprocesses.get? w = some p.popen → w = p.worker_id
  distinct : (a.running.map Process.popen).Nodup
  started : ∀ p ∈ a.running, p.popen < a.started
  tracked : ∀ w n, a.active_subprocesses.get? w = some n → n < a.started
  single : ∀ w w' n, a.active_subprocesses.get? w = some n →
    a.active_subprocesses.get? w' = some n → w = w'

/-! ## Cleaning -/

section Clean

variable {a : Autoscaler}

theorem alive_iff {proc : ℕ} : a.alive proc = true ↔ ∃ p ∈ a.running, p.popen = proc := by
  unfold alive
  rw [List.any_eq_true]
  simp only [decide_eq_true_eq]

/-- The loop over `list(items())` removes what is dead, and nothing else. -/
theorem get?_foldl_erase (alive : ℕ → Bool) (items : List (Str × ℕ)) (d : PyDict Str ℕ) (w : Str) :
    (items.foldl (fun d p => if alive p.2 then d else d.erase p.1) d).get? w =
      if ∃ p ∈ items, p.1 = w ∧ alive p.2 = false then none else d.get? w := by
  induction items generalizing d with
  | nil => simp
  | cons p items ih =>
    rw [List.foldl_cons, ih]
    by_cases hlater : ∃ q ∈ items, q.1 = w ∧ alive q.2 = false
    · obtain ⟨q, hq, hdead⟩ := hlater
      rw [if_pos ⟨q, hq, hdead⟩, if_pos ⟨q, List.mem_cons_of_mem _ hq, hdead⟩]
    · rw [if_neg hlater]
      cases halive : alive p.2 with
      | true =>
        have hnone : ¬ ∃ q ∈ p :: items, q.1 = w ∧ alive q.2 = false := by
          rintro ⟨q, hq, hqw, hdead⟩
          rcases List.mem_cons.mp hq with rfl | hq
          · rw [halive] at hdead
            cases hdead
          · exact hlater ⟨q, hq, hqw, hdead⟩
        rw [if_neg hnone]
        rfl
      | false =>
        show (d.erase p.1).get? w = _
        rw [PyDict.get?_erase]
        by_cases hw : w = p.1
        · rw [if_pos hw, if_pos ⟨p, List.mem_cons_self, hw.symm, halive⟩]
        · have hnone : ¬ ∃ q ∈ p :: items, q.1 = w ∧ alive q.2 = false := by
            rintro ⟨q, hq, hqw, hdead⟩
            rcases List.mem_cons.mp hq with rfl | hq
            · exact hw hqw.symm
            · exact hlater ⟨q, hq, hqw, hdead⟩
          rw [if_neg hw, if_neg hnone]

/-- **What is tracked after cleaning**: the processes that are alive. -/
theorem get?_cleanDeadProcesses (a : Autoscaler) (w : Str) :
    a.cleanDeadProcesses.active_subprocesses.get? w =
      (a.active_subprocesses.get? w).filter a.alive := by
  unfold cleanDeadProcesses
  dsimp only
  rw [get?_foldl_erase]
  cases hw : a.active_subprocesses.get? w with
  | none => simp
  | some n =>
    have hdead : (∃ p ∈ a.active_subprocesses.entries, p.1 = w ∧ a.alive p.2 = false) ↔
        a.alive n = false := by
      constructor
      · rintro ⟨⟨w', n'⟩, hp, rfl, hdead⟩
        have hn := PyDict.mem_entries_iff.mp hp
        rw [hw] at hn
        cases hn
        exact hdead
      · exact fun hdead => ⟨(w, n), PyDict.mem_entries_iff.mpr hw, rfl, hdead⟩
    rw [Option.filter_some]
    cases halive : a.alive n with
    | true =>
      rw [if_neg fun h => by rw [hdead.mp h] at halive; cases halive]
      rfl
    | false =>
      rw [if_pos (hdead.mpr halive)]
      rfl

theorem tracked_of_cleaned {w : Str} {n : ℕ}
    (h : a.cleanDeadProcesses.active_subprocesses.get? w = some n) :
    a.active_subprocesses.get? w = some n ∧ a.alive n = true := by
  rw [get?_cleanDeadProcesses, Option.filter_eq_some_iff] at h
  exact h

theorem size_foldl_erase_le (alive : ℕ → Bool) (items : List (Str × ℕ)) (d : PyDict Str ℕ) :
    (items.foldl (fun d p => if alive p.2 then d else d.erase p.1) d).size ≤ d.size := by
  induction items generalizing d with
  | nil => exact le_rfl
  | cons p items ih =>
    rw [List.foldl_cons]
    refine (ih _).trans ?_
    split_ifs
    · exact le_rfl
    · exact d.size_erase_le p.1

/-- Cleaning loses no process that runs. -/
theorem tracks_cleanDeadProcesses {p : Process} (hp : p ∈ a.running) (h : a.Tracks p) :
    a.cleanDeadProcesses.Tracks p := by
  obtain ⟨w, hw⟩ := h
  refine ⟨w, ?_⟩
  rw [get?_cleanDeadProcesses, hw, Option.filter_some, if_pos (alive_iff.mpr ⟨p, hp, rfl⟩)]

end Clean

/-! ## The bookkeeping -/

section Handled

variable {a : Autoscaler}

theorem handled_new (min_workers max_workers : ℕ) : (new min_workers max_workers).Handled where
  size := Nat.zero_le _
  named := fun w p hp => by cases hp
  distinct := List.nodup_nil
  started := fun p hp => by cases hp
  tracked := fun w n h => by cases h
  single := fun w w' n h => by cases h

/-- Fewer processes, and less of them tracked. -/
theorem Handled.mono (h : a.Handled) {d : PyDict Str ℕ} {running : List Process}
    (hsize : d.size ≤ a.active_subprocesses.size)
    (hd : ∀ w n, d.get? w = some n → a.active_subprocesses.get? w = some n)
    (hrunning : running.Sublist a.running) :
    Handled { a with active_subprocesses := d, running := running } where
  size := hsize.trans h.size
  named := fun w p hp hw => h.named w p (hrunning.subset hp) (hd w _ hw)
  distinct := h.distinct.sublist (hrunning.map _)
  started := fun p hp => h.started p (hrunning.subset hp)
  tracked := fun w n hw => h.tracked w n (hd w n hw)
  single := fun w w' n hw hw' => h.single w w' n (hd w n hw) (hd w' n hw')

theorem Handled.clean (h : a.Handled) : a.cleanDeadProcesses.Handled :=
  h.mono (size_foldl_erase_le _ _ _) (fun _ _ hw => (tracked_of_cleaned hw).1) (List.Sublist.refl _)

theorem Handled.exit (h : a.Handled) (proc : ℕ) :
    Handled { a with running := terminate a.running proc } :=
  h.mono le_rfl (fun _ _ hw => hw) List.filter_sublist

theorem Handled.scaleUp (h : a.Handled) : a.scaleUp.Handled := by
  have hc := h.clean
  unfold Autoscaler.scaleUp
  dsimp only
  generalize a.cleanDeadProcesses = c at hc
  split_ifs with hroom
  · exact hc
  · have hget := fun w => PyDict.get?_set c.active_subprocesses c.nextId w c.started
    -- the new process is the only one with its number
    have hold : ∀ p ∈ c.running ++ [⟨c.started, c.nextId⟩], p.popen ≠ c.started → p ∈ c.running := by
      intro p hp hne
      rcases List.mem_append.mp hp with hp | hp
      · exact hp
      · rw [List.mem_singleton.mp hp] at hne
        exact absurd rfl hne
    refine ⟨?_, fun w p hp hw => ?_, ?_, fun p hp => ?_, fun w n hw => ?_, fun w w' n hw hw' => ?_⟩
    · by_cases hmem : c.nextId ∈ c.active_subprocesses
      · exact (PyDict.size_set_of_mem hmem _).trans_le hc.size
      · refine (PyDict.size_set_of_notMem hmem _).trans_le ?_
        dsimp only
        omega
    · dsimp only at hw
      rw [hget] at hw
      split_ifs at hw with hid
      · rcases List.mem_append.mp hp with hp | hp
        · have := hc.started p hp
          rw [Option.some.injEq] at hw
          omega
        · rw [List.mem_singleton.mp hp]
          exact hid
      · have := hc.tracked w _ hw
        exact hc.named w p (hold p hp (by omega)) hw
    · dsimp only
      rw [List.map_append, List.nodup_append]
      refine ⟨hc.distinct, List.nodup_singleton _, fun n hn n' hn' heq => ?_⟩
      obtain ⟨p, hp, rfl⟩ := List.mem_map.mp hn
      have := hc.started p hp
      rw [List.map_singleton, List.mem_singleton] at hn'
      dsimp only at hn'
      omega
    · rcases List.mem_append.mp hp with hp | hp
      · exact Nat.lt_succ_of_lt (hc.started p hp)
      · rw [List.mem_singleton.mp hp]
        exact Nat.lt_succ_self _
    · dsimp only at hw ⊢
      rw [hget] at hw
      split_ifs at hw
      · rw [Option.some.injEq] at hw
        omega
      · exact Nat.lt_succ_of_lt (hc.tracked w n hw)
    · dsimp only at hw hw'
      rw [hget] at hw hw'
      split_ifs at hw hw' with hid hid' hid'
      · exact hid.trans hid'.symm
      · have := hc.tracked w' n hw'
        rw [Option.some.injEq] at hw
        omega
      · have := hc.tracked w n hw
        rw [Option.some.injEq] at hw'
        omega
      · exact hc.single w w' n hw hw'

theorem Handled.scaleDown (h : a.Handled) : a.scaleDown.Handled := by
  have hc := h.clean
  unfold Autoscaler.scaleDown
  dsimp only
  generalize a.cleanDeadProcesses = c at hc
  split_ifs
  · exact hc
  · split
    · next w n hlast =>
      refine hc.mono (PyDict.size_erase_le _ _) (fun w' n' hw' => ?_) List.filter_sublist
      rw [PyDict.get?_erase] at hw'
      split_ifs at hw'
      exact hw'
    · exact hc

theorem handled_step (h : a.Handled) {l : Label} {a' : Autoscaler} (hs : step l a = some a') :
    a'.Handled := by
  cases l with
  | scale_up => exact Option.some.inj hs ▸ h.scaleUp
  | scale_down => exact Option.some.inj hs ▸ h.scaleDown
  | clean_dead_processes => exact Option.some.inj hs ▸ h.clean
  | exit proc => exact Option.some.inj hs ▸ h.exit proc

theorem foldl_terminate (procs : List ℕ) (running : List Process) :
    procs.foldl terminate running = running.filter fun p => p.popen ∉ procs := by
  induction procs generalizing running with
  | nil => simp
  | cons proc procs ih =>
    rw [List.foldl_cons, ih, terminate, List.filter_filter]
    refine List.filter_congr fun p _ => ?_
    rw [Bool.eq_iff_iff]
    simp [and_comm]

/-- **Tracking is all**: the rest of the correspondence follows from it. -/
theorem Handled.oneToOne (h : a.Handled) (htracked : ∀ p ∈ a.running, a.Tracks p) : a.OneToOne where
  tracked := htracked
  bounded := by
    have hsub : a.running.map Process.popen ⊆ a.active_subprocesses.entries.map Prod.snd := by
      intro n hn
      obtain ⟨p, hp, rfl⟩ := List.mem_map.mp hn
      obtain ⟨w, hw⟩ := htracked p hp
      exact PyDict.mem_values_iff.mpr ⟨w, PyDict.mem_entries_iff.mpr hw⟩
    have hlen := (List.subperm_of_subset h.distinct hsub).length_le
    rw [List.length_map, List.length_map] at hlen
    exact hlen.trans h.size
  distinct := by
    refine List.Nodup.map_on (fun p hp q hq heq => ?_) (List.Nodup.of_map _ h.distinct)
    obtain ⟨w, hw⟩ := htracked p hp
    obtain ⟨w', hw'⟩ := htracked q hq
    have hid : w = w' := by rw [h.named w p hp hw, h.named w' q hq hw', heq]
    rw [hid, hw'] at hw
    exact (List.inj_on_of_nodup_map h.distinct hq hp (Option.some.inj hw)).symm
  stopped := by
    unfold shutdown
    rw [foldl_terminate, List.filter_eq_nil_iff]
    intro p hp hleft
    obtain ⟨w, hw⟩ := htracked p hp
    exact of_decide_eq_true hleft (PyDict.mem_values_iff.mpr ⟨w, PyDict.mem_entries_iff.mpr hw⟩)

end Handled

/-! ## The runs -/

section Runs

variable {a : Autoscaler}

/-- **A new worker** is tracked with the others exactly if its id is not in use. -/
theorem oneToOne_scaleUp_iff (h : a.Handled) (htracked : ∀ p ∈ a.running, a.Tracks p) :
    a.scaleUp.OneToOne ↔ a.FreshId .scale_up := by
  have hc := h.clean
  have htracked : ∀ p ∈ a.cleanDeadProcesses.running, a.cleanDeadProcesses.Tracks p :=
    fun p hp => tracks_cleanDeadProcesses hp (htracked p hp)
  have halive : ∀ w n, a.cleanDeadProcesses.active_subprocesses.get? w = some n →
      ∃ p ∈ a.cleanDeadProcesses.running, p.popen = n :=
    fun w n hw => alive_iff.mp (tracked_of_cleaned hw).2
  have hup := h.scaleUp
  unfold Autoscaler.scaleUp at hup ⊢
  unfold FreshId NextFree
  dsimp only at hup ⊢
  generalize a.cleanDeadProcesses = c at hc htracked halive hup
  by_cases hroom : c.max_workers ≤ c.active_subprocesses.size
  · rw [if_pos hroom]
    exact iff_of_true (hc.oneToOne htracked) fun hlt => absurd hroom (not_le.mpr hlt)
  · rw [if_neg hroom] at hup ⊢
    have hget := fun w => PyDict.get?_set c.active_subprocesses c.nextId w c.started
    by_cases hfresh : c.nextId ∈ c.active_subprocesses
    · -- the process under that id is alive, and no longer tracked
      refine iff_of_false (fun hone => ?_) fun h' => h' (not_le.mp hroom) hfresh
      obtain ⟨n, hn⟩ := PyDict.mem_iff_get?.mp hfresh
      obtain ⟨p, hp, rfl⟩ := halive _ _ hn
      have hlt := hc.started p hp
      obtain ⟨w, hw⟩ := hone.tracked p (List.mem_append_left _ hp)
      dsimp only at hw
      rw [hget] at hw
      split_ifs at hw with hid
      · rw [Option.some.injEq] at hw
        omega
      · exact hid (hc.single _ _ _ hw hn)
    · refine iff_of_true (hup.oneToOne fun p hp => ?_) fun _ => hfresh
      rcases List.mem_append.mp hp with hp | hp
      · obtain ⟨w, hw⟩ := htracked p hp
        have hne : w ≠ c.nextId := by
          rintro rfl
          exact hfresh (PyDict.mem_of_get? hw)
        refine ⟨w, ?_⟩
        dsimp only
        rw [hget, if_neg hne]
        exact hw
      · refine ⟨c.nextId, ?_⟩
        dsimp only
        rw [hget, if_pos rfl, List.mem_singleton.mp hp]

/-- A process that is stopped is no longer tracked, and the others still are. -/
theorem oneToOne_scaleDown (h : a.Handled) (htracked : ∀ p ∈ a.running, a.Tracks p) :
    a.scaleDown.OneToOne := by
  refine h.scaleDown.oneToOne ?_
  have htracked : ∀ p ∈ a.cleanDeadProcesses.running, a.cleanDeadProcesses.Tracks p :=
    fun p hp => tracks_cleanDeadProcesses hp (htracked p hp)
  unfold Autoscaler.scaleDown
  dsimp only
  generalize a.cleanDeadProcesses = c at htracked
  split_ifs
  · exact htracked
  · split
    · next w n hlast =>
      have hn := PyDict.mem_entries_iff.mp (List.mem_of_getLast? hlast)
      intro p hp
      obtain ⟨hp, hne⟩ := List.mem_filter.mp hp
      obtain ⟨w', hw'⟩ := htracked p hp
      refine ⟨w', ?_⟩
      dsimp only
      rw [PyDict.get?_erase, if_neg, hw']
      rintro rfl
      rw [hn, Option.some.injEq] at hw'
      exact of_decide_eq_true hne hw'.symm
    · exact htracked

/-- **One step** keeps the correspondence exactly if it gives no id twice. -/
theorem oneToOne_step_iff (h : a.Handled) (hone : a.OneToOne) {l : Label} {a' : Autoscaler}
    (hs : step l a = some a') : a'.OneToOne ↔ a.FreshId l := by
  cases l with
  | scale_up =>
    cases hs
    exact oneToOne_scaleUp_iff h hone.tracked
  | scale_down =>
    cases hs
    exact iff_of_true (oneToOne_scaleDown h hone.tracked) trivial
  | clean_dead_processes =>
    cases hs
    refine iff_of_true (h.clean.oneToOne fun p hp => ?_) trivial
    exact tracks_cleanDeadProcesses hp (hone.tracked p hp)
  | exit proc =>
    cases hs
    refine iff_of_true ((h.exit proc).oneToOne fun p hp => ?_) trivial
    exact hone.tracked p (List.mem_filter.mp hp).1

/-- **The dynamic workers are tracked one-to-one all along a run** exactly if `scale_up` never takes an
id that a live process has. -/
theorem oneToOne_iff (min_workers max_workers : ℕ) (ls : List Label) :
    (∀ done a, done <+: ls → run step done (new min_workers max_workers) = some a → a.OneToOne) ↔
      Guarded step FreshId ls (new min_workers max_workers) := by
  have hnew := handled_new min_workers max_workers
  refine run_invariant_iff (J := Handled) ?_ ?_ ?_ hnew (hnew.oneToOne fun p hp => by cases hp)
  · intro l a a' h _ hs _
    exact handled_step h hs
  · intro l a a' h hone hs
    exact oneToOne_step_iff h hone hs
  · intro l a hs _ _
    cases l <;> cases hs

/-- The first of two workers exits, and the third gets the id of the second. -/
def sameIdTwice : List Label := [.scale_up, .scale_up, .exit 0, .scale_up]

theorem not_oneToOne_sameIdTwice : ¬ ∀ (max_workers : ℕ) (ls : List Label) (a : Autoscaler),
    1 ≤ max_workers → run step ls (new 0 max_workers) = some a → a.OneToOne := by
  intro h
  have hrun : (run step sameIdTwice (new 0 5)).map (fun a =>
      decide (a.running.map Process.worker_id).Nodup) = some false := by decide +kernel
  obtain ⟨a, ha, hdup⟩ := Option.map_eq_some_iff.mp hrun
  exact of_decide_eq_false hdup (h 5 sameIdTwice a (by decide) ha).distinct

end Runs

end Autoscaler

end JobSystem
