import JobSystem.Lib.Race
import JobSystem.Coordinator.Repo

/-!
# Updates of a cached task record

`update_status` and `increment_retry` read the cached record, change it and write it back, with
nothing in between to stop another call from doing the same.

* `RecordCall`, `apply`; `task_cache_updateStatus`, `task_cache_incrementRetry`: a call that runs
  alone;
* `Reflects`: the record shows the calls; `reflects_applyAll`: calls one after the other;
* `Untouched`: what a call keeps has not changed between its read and its write;
* `reflects_of_untouched`: runs of such calls.
-/

namespace JobSystem

open PyText Trans
open PyJson (Json)

/-- A call on the record of one task. -/
inductive RecordCall where
  | updateStatus (status : TaskStatus) (worker_id : Option Str) (result error : Json)
  | incrementRetry

namespace RecordCall

/-- What the call writes back. -/
def apply : RecordCall → TaskRecord → TaskRecord
  | .updateStatus status worker_id result error, data =>
    { data with
      status := status
      worker_id := (worker_id.filter (· ≠ [])).or data.worker_id
      result := result.notNone.or data.result
      error := error.notNone.or data.error }
  | .incrementRetry, data => { data with retries := data.retries + 1 }

/-- The status that the call writes. -/
def status? : RecordCall → Option TaskStatus
  | .updateStatus status _ _ _ => some status
  | .incrementRetry => none

/-- The `worker_id` that the call writes. -/
def worker? : RecordCall → Option Str
  | .updateStatus _ worker_id _ _ => worker_id.filter (· ≠ [])
  | .incrementRetry => none

/-- The result that the call writes. -/
def result? : RecordCall → Option Json
  | .updateStatus _ _ result _ => result.notNone
  | .incrementRetry => none

/-- The error that the call writes. -/
def error? : RecordCall → Option Json
  | .updateStatus _ _ _ error => error.notNone
  | .incrementRetry => none

/-- The call is an `increment_retry`. -/
def Increments : RecordCall → Prop
  | .updateStatus _ _ _ _ => False
  | .incrementRetry => True

instance : DecidablePred Increments
  | .updateStatus _ _ _ _ => isFalse id
  | .incrementRetry => isTrue trivial

/-- `update_status` on the cache, when nothing comes between. -/
theorem task_cache_updateStatus (repo : TaskRepository) (t : Str) (status : TaskStatus)
    (worker_id : Option Str) (result error : Json) :
    (repo.updateStatus t status worker_id result error).task_cache =
      repo.task_cache.modify t (RecordCall.updateStatus status worker_id result error).apply := rfl

/-- `increment_retry` on the cache, when nothing comes between. -/
theorem task_cache_incrementRetry (repo : TaskRepository) (t : Str) :
    (repo.incrementRetry t).task_cache = repo.task_cache.modify t RecordCall.incrementRetry.apply :=
  rfl

section Fields

variable (c : RecordCall) (data : TaskRecord)

theorem status_apply : some (c.apply data).status = c.status?.or (some data.status) := by
  cases c <;> rfl

theorem worker_apply : (c.apply data).worker_id = c.worker?.or data.worker_id := by
  cases c <;> rfl

theorem result_apply : (c.apply data).result = c.result?.or data.result := by
  cases c <;> rfl

theorem error_apply : (c.apply data).error = c.error?.or data.error := by
  cases c <;> rfl

theorem retries_apply :
    (c.apply data).retries = data.retries + if c.Increments then 1 else 0 := by
  cases c with
  | updateStatus status worker_id result error => exact (Int.add_zero _).symm
  | incrementRetry => rfl

end Fields

/-! ## Calls one after the other -/

/-- A field that some of the calls write has a value that one of them wrote. -/
def Shows {α : Type} (written : RecordCall → Option α) (value : Option α)
    (calls : List RecordCall) : Prop :=
  (∃ c ∈ calls, (written c).isSome = true) → ∃ c ∈ calls, ∃ v, written c = some v ∧ value = some v

/-- The record shows all of the calls. -/
structure Reflects (before : TaskRecord) (calls : List RecordCall) (after : TaskRecord) : Prop where
  retries : after.retries = before.retries + calls.countP Increments
  status : Shows status? (some after.status) calls
  worker : Shows worker? after.worker_id calls
  result : Shows result? after.result calls
  error : Shows error? after.error calls

/-- One more call writes the field, or leaves it. -/
theorem Shows.concat {α : Type} {written : RecordCall → Option α} {value value' : Option α}
    {calls : List RecordCall} (h : Shows written value calls) {c : RecordCall}
    (hvalue : value' = (written c).or value) : Shows written value' (calls ++ [c]) := by
  intro hex
  cases hc : written c with
  | some v =>
    rw [hc, Option.some_or] at hvalue
    exact ⟨c, List.mem_append_right _ (List.mem_singleton_self c), v, hc, hvalue⟩
  | none =>
    rw [hc, Option.none_or] at hvalue
    obtain ⟨d, hd, hsome⟩ := hex
    have hmem : d ∈ calls := by
      rcases List.mem_append.mp hd with hd | hd
      · exact hd
      · rw [List.mem_singleton.mp hd, hc] at hsome
        cases hsome
    obtain ⟨e, he, v, hv, hval⟩ := h ⟨d, hmem, hsome⟩
    exact ⟨e, List.mem_append_left _ he, v, hv, hvalue.trans hval⟩

theorem Shows.perm {α : Type} {written : RecordCall → Option α} {value : Option α}
    {calls calls' : List RecordCall} (h : Shows written value calls) (hp : calls.Perm calls') :
    Shows written value calls' := by
  rintro ⟨c, hc, hsome⟩
  obtain ⟨d, hd, v, hv⟩ := h ⟨c, hp.mem_iff.mpr hc, hsome⟩
  exact ⟨d, hp.mem_iff.mp hd, v, hv⟩

theorem Reflects.perm {before after : TaskRecord} {calls calls' : List RecordCall}
    (h : Reflects before calls after) (hp : calls.Perm calls') : Reflects before calls' after where
  retries := by rw [h.retries, hp.countP_eq]
  status := h.status.perm hp
  worker := h.worker.perm hp
  result := h.result.perm hp
  error := h.error.perm hp

/-- Calls that take effect one after the other are all shown. -/
theorem reflects_applyAll (before : TaskRecord) (calls : List RecordCall) :
    Reflects before calls (Race.applyAll apply before calls) := by
  induction calls using List.reverseRecOn with
  | nil =>
    refine ⟨by simp [Race.applyAll], ?_, ?_, ?_, ?_⟩ <;>
    · rintro ⟨c, hc, -⟩
      cases hc
  | append_singleton calls c ih =>
    have happly : Race.applyAll apply before (calls ++ [c]) =
        c.apply (Race.applyAll apply before calls) := List.foldl_concat ..
    rw [happly]
    refine ⟨?_, ih.status.concat (status_apply c _), ih.worker.concat (worker_apply c _),
      ih.result.concat (result_apply c _), ih.error.concat (error_apply c _)⟩
    rw [retries_apply, ih.retries, List.countP_append, List.countP_singleton]
    push_cast
    simp only [decide_eq_true_eq]
    omega

/-! ## Overlapping calls -/

/-- The fields that the call does not write are in the record as they were in its reply. -/
structure Keeps (c : RecordCall) (reply record : TaskRecord) : Prop where
  job_type : reply.job_type = record.job_type
  priority : reply.priority = record.priority
  retries : reply.retries = record.retries
  status : c.status? = none → reply.status = record.status
  worker : c.worker? = none → reply.worker_id = record.worker_id
  result : c.result? = none → reply.result = record.result
  error : c.error? = none → reply.error = record.error

/-- A write comes before any change of what its call keeps. -/
def Untouched (s : Race TaskRecord RecordCall) : Race.Label → Prop
  | .get _ => True
  | .set i => ∀ p, s.replied[i]? = some p → p.1.Keeps p.2 s.record

/-- A call that keeps its fields writes the same from the reply as from the record. -/
theorem Keeps.apply_eq {c : RecordCall} {reply record : TaskRecord} (h : c.Keeps reply record) :
    c.apply reply = c.apply record := by
  have hor : ∀ {α : Type} {w a b : Option α}, (w = none → a = b) → w.or a = w.or b := by
    intro α w a b hab
    cases w with
    | none => exact hab rfl
    | some v => rfl
  apply TaskRecord.ext
  · cases c <;> exact h.job_type
  · cases c <;> exact h.priority
  · apply Option.some.inj
    rw [status_apply, status_apply]
    exact hor fun hc => congrArg some (h.status hc)
  · rw [retries_apply, retries_apply, h.retries]
  · rw [worker_apply, worker_apply]
    exact hor h.worker
  · rw [result_apply, result_apply]
    exact hor h.result
  · rw [error_apply, error_apply]
    exact hor h.error

/-- **No update is lost** in a run whose writes come before any change of what their calls keep: once
all the calls have returned, the record shows them all. -/
theorem reflects_of_untouched {before : TaskRecord} {calls : List RecordCall}
    {ls : List Race.Label} {t : Race TaskRecord RecordCall}
    (hr : run (Race.step apply) ls (Race.start before calls) = some t)
    (hg : Guarded (Race.step apply) Untouched ls (Race.start before calls))
    (hwaiting : t.waiting = []) (hreplied : t.replied = []) : Reflects before calls t.record := by
  have hfresh : Guarded (Race.step apply) (Race.Fresh apply) ls (Race.start before calls) := by
    refine hg.mono fun s l hu => ?_
    cases l with
    | get i => exact trivial
    | set i => exact fun p hp => (hu p hp).apply_eq
  have hinv := Race.applied_of_fresh hr hfresh
  have hperm := hinv.perm
  rw [hwaiting, hreplied, List.map_nil, List.nil_append, List.nil_append] at hperm
  rw [hinv.record_eq]
  exact (reflects_applyAll before t.returned).perm hperm

/-- A new task. -/
def newRecord : TaskRecord := ⟨"ok".toList, "LOW".toList, .PENDING, 0, none, none, none⟩

/-- Two updates that write each of the four fields. -/
def fullUpdates : List RecordCall :=
  [.updateStatus .ASSIGNED (some ['a']) (.str ['1']) (.str ['2']),
    .updateStatus .COMPLETED (some ['b']) (.str ['3']) (.str ['4'])]

/-- Both calls read before either writes. -/
def overlapping : List Race.Label := [.get 0, .get 0, .set 0, .set 0]

theorem reflects_of_untouched_overlapping : ∃ t,
    run (Race.step apply) overlapping (Race.start newRecord fullUpdates) = some t ∧
      Reflects newRecord fullUpdates t.record := by
  have hg : Guarded (Race.step apply) Untouched overlapping
      (Race.start newRecord fullUpdates) := by
    refine ⟨trivial, fun _ h => ?_⟩
    cases h
    refine ⟨trivial, fun _ h => ?_⟩
    cases h
    refine ⟨fun p hp => ?_, fun _ h => ?_⟩
    · cases hp
      exact ⟨rfl, rfl, rfl, nofun, nofun, nofun, nofun⟩
    cases h
    -- the record is the first update's, and the second keeps none of the fields of that
    refine ⟨fun p hp => ?_, fun _ _ => trivial⟩
    cases hp
    exact ⟨rfl, rfl, rfl, nofun, nofun, nofun, nofun⟩
  have hr : (run (Race.step apply) overlapping (Race.start newRecord fullUpdates)).map
      (fun t => (t.waiting.length, t.replied.length)) = some (0, 0) := rfl
  obtain ⟨t, hr, ht⟩ := Option.map_eq_some_iff.mp hr
  injection ht with hwaiting hreplied
  exact ⟨t, hr, reflects_of_untouched hr hg (List.length_eq_zero_iff.mp hwaiting)
    (List.length_eq_zero_iff.mp hreplied)⟩

/-- The assignment and the completion of a task, as their two subscriptions store them. -/
def assignedAndCompleted : List RecordCall :=
  [.updateStatus .ASSIGNED (some ['a']) .null .null,
    .updateStatus .COMPLETED none (.str "done".toList) .null]

/-- Both read first; the assignment is written last, and the result is gone. -/
theorem lost_result : ∃ t, run (Race.step apply)
    [.get 0, .get 0, .set 1, .set 0] (Race.start newRecord assignedAndCompleted) = some t ∧
      t.waiting = [] ∧ t.replied = [] ∧ ¬ Reflects newRecord assignedAndCompleted t.record := by
  refine ⟨_, rfl, rfl, rfl, fun h => ?_⟩
  obtain ⟨c, -, v, -, hv⟩ := h.result ⟨_, List.mem_cons_of_mem _ List.mem_cons_self, rfl⟩
  cases hv

end RecordCall

end JobSystem
