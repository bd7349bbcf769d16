import JobSystem.EventBus.EventLoop

/-!
# The worker's events under back-pressure

`EventDrivenWorker.send_event` writes the line of an event to a non-blocking socket. When the socket
takes only a part of it, `sendall` raises `BlockingIOError`, which `send_event` ignores: the call
returns normally, and the part stays in the stream in front of the next event.

* `SendAll`, `WorkerLink`, `sendEvent`: the calls and the bytes they write;
* `count_written`: only a complete write ends a line;
* `WorkerEvent`: the events a worker sends; `hashable_workerId`;
* **`published_iff`**: the coordinator publishes exactly the events of the calls that returned exactly
  when every write was complete, no chunk looks like a health check, no event names its worker by a
  container and `publish` returns for all events before the last.
-/

namespace JobSystem

open PyText
open PyJson (Json FloatText Canonical Loaded)

/-! ## The calls -/

/-- `sendall` on a non-blocking socket: everything is written, or a proper prefix and then
`BlockingIOError` is raised. -/
inductive SendAll where
  | complete
  | blocked (n : ℕ)

/-- The bytes that are written. -/
def SendAll.write : SendAll → Bytes → Bytes
  | complete, payload => payload
  | blocked n, payload => payload.dropLast.take n

/-- Whether everything is written. -/
def SendAll.isComplete : SendAll → Bool
  | complete => true
  | blocked _ => false

theorem SendAll.isComplete_iff (o : SendAll) : o.isComplete = true ↔ o = complete := by
  cases o <;> simp [isComplete]

/-- `(json.dumps(event) + "\n").encode('utf-8')`. -/
def eventPayload (event : Fields) : Bytes := encodeUtf8 (eventText event ++ ['\n'])

/-- The bytes written to the socket, and the events whose call returned normally. -/
structure WorkerLink where
  written : Bytes
  returned : List Fields

namespace WorkerLink

/-- The call for an event returns normally. -/
def returnNormally (w : WorkerLink) (event : Fields) : WorkerLink :=
  { w with returned := w.returned ++ [event] }

/-- `send_event`. -/
def sendEvent (w : WorkerLink) (event : Fields) (sendall : SendAll) : WorkerLink :=
  let w' := { w with written := w.written ++ sendall.write (eventPayload event) }
  match sendall with
  | .complete => w'.returnNormally event
  -- `except BlockingIOError: pass`
  | .blocked _ => w'.returnNormally event

/-- The calls of all threads in the order of their `sendall`. -/
def sendEvents (w : WorkerLink) (calls : List (Fields × SendAll)) : WorkerLink :=
  calls.foldl (fun w c => w.sendEvent c.1 c.2) w

/-- A new connection. -/
def connected : WorkerLink := ⟨[], []⟩

theorem sendEvent_eq (w : WorkerLink) (event : Fields) (sendall : SendAll) :
    w.sendEvent event sendall =
      ⟨w.written ++ sendall.write (eventPayload event), w.returned ++ [event]⟩ := by
  cases sendall <;> rfl

theorem sendEvents_eq (w : WorkerLink) (calls : List (Fields × SendAll)) :
    w.sendEvents calls = ⟨w.written ++ calls.flatMap fun c => c.2.write (eventPayload c.1),
      w.returned ++ calls.map Prod.fst⟩ := by
  induction calls generalizing w with
  | nil => simp [sendEvents]
  | cons c calls ih =>
    rw [sendEvents, List.foldl_cons, sendEvent_eq]
    refine (ih _).trans ?_
    simp only [List.flatMap_cons, List.map_cons, List.append_assoc, List.singleton_append]

end WorkerLink

/-! ## The lines in the stream -/

variable {ft : FloatText}

theorem eventPayload_eq (event : Fields) :
    eventPayload event = encodeUtf8 (eventText event) ++ [10] := by
  rw [eventPayload, encodeUtf8_append]
  rfl

/-- A cut payload ends no line, a complete one ends one. -/
theorem count_write {event : Fields} (h : Canonical ft (.obj event)) (sendall : SendAll) :
    (sendall.write (eventPayload event)).count 10 = if sendall.isComplete then 1 else 0 := by
  have hline : 10 ∉ encodeUtf8 (eventText event) :=
    newline_notMem_encodeUtf8 (newline_notMem_eventText h)
  rw [eventPayload_eq]
  cases sendall with
  | complete =>
    rw [SendAll.write, List.count_append, List.count_eq_zero_of_not_mem hline]
    rfl
  | blocked n =>
    rw [SendAll.write, List.dropLast_concat]
    exact List.count_eq_zero_of_not_mem fun hm => hline (List.mem_of_mem_take hm)

/-- **The lines that end in the stream** are as many as the complete writes. -/
theorem count_written {calls : List (Fields × SendAll)}
    (h : ∀ c ∈ calls, Canonical ft (.obj c.1)) :
    (calls.flatMap fun c => c.2.write (eventPayload c.1)).count 10 =
      calls.countP fun c => c.2.isComplete := by
  induction calls with
  | nil => rfl
  | cons c calls ih =>
    rw [List.forall_mem_cons] at h
    rw [List.flatMap_cons, List.count_append, count_write h.1, ih h.2, List.countP_cons]
    exact Nat.add_comm _ _

/-- The stream of complete writes. -/
theorem written_of_complete {calls : List (Fields × SendAll)}
    (h : ∀ c ∈ calls, c.2 = .complete) :
    (calls.flatMap fun c => c.2.write (eventPayload c.1)) =
      encodeUtf8 (eventLines (calls.map Prod.fst)) := by
  induction calls with
  | nil => rfl
  | cons c calls ih =>
    rw [List.forall_mem_cons] at h
    rw [List.flatMap_cons, ih h.2, h.1, List.map_cons, eventLines_cons, eventPayload,
      SendAll.write, ← encodeUtf8_append, List.append_assoc]
    rfl

variable {env : LoopEnv}

/-- What the line of an event comes to. -/
theorem reading_eventText {load : Str → Loaded} {event : Fields}
    (h : load (eventText event) = .value (.obj event)) :
    reading load (encodeUtf8 (eventText event)) =
      if ∀ wid ∈ workerId event, Hashable wid then .publish event else .raise := by
  rw [reading, decodeIgnore_encodeUtf8_self, loadLine_eventText h]

theorem length_eventsOf_le (env : LoopEnv) (n : ℕ) (lines : List Bytes) :
    (eventsOf env n lines).length ≤ lines.length := by
  induction lines generalizing n with
  | nil => exact le_rfl
  | cons line lines ih =>
    rw [eventsOf]
    cases reading env.loads line with
    | blank => exact (ih n).trans (Nat.le_succ _)
    | publish event =>
      refine Nat.succ_le_succ ?_
      split_ifs
      · exact ih (n + 1)
      · exact Nat.zero_le _
    | raise => exact Nat.zero_le _

/-- `publish` returns for the events before the last, the first of which is the `n`-th. -/
def PublishesBeforeLast (env : LoopEnv) (n : ℕ) (events : List Fields) : Prop :=
  ∀ k event, k + 1 < events.length → events[k]? = some event →
    env.publishReturns (n + k) event = true

theorem publishesBeforeLast_cons {n : ℕ} {event : Fields} {events : List Fields} :
    PublishesBeforeLast env n (event :: events) ↔
      (events ≠ [] → env.publishReturns n event = true) ∧
        PublishesBeforeLast env (n + 1) events := by
  rw [PublishesBeforeLast, PublishesBeforeLast, ← List.length_pos_iff]
  constructor
  · refine fun h => ⟨fun hpos => h 0 event (Nat.succ_lt_succ hpos) rfl, fun k event' hk hget => ?_⟩
    rw [Nat.add_assoc, Nat.add_comm 1]
    exact h (k + 1) event' (Nat.succ_lt_succ hk) hget
  · rintro ⟨hfirst, hrest⟩ k event' hk hget
    cases k with
    | zero =>
      cases hget
      exact hfirst (Nat.lt_of_succ_lt_succ hk)
    | succ k =>
      rw [Nat.add_comm k, ← Nat.add_assoc]
      exact hrest k event' (Nat.lt_of_succ_lt_succ hk) hget

/-- The lines of events are all published when none raises before the last. -/
theorem eventsOf_eventTexts_iff {events : List Fields}
    (h : ∀ event ∈ events, env.loads (eventText event) = .value (.obj event)) {n : ℕ} :
    eventsOf env n (events.map fun event => encodeUtf8 (eventText event)) = events ↔
      (∀ event ∈ events, ∀ wid ∈ workerId event, Hashable wid) ∧
        PublishesBeforeLast env n events := by
  induction events generalizing n with
  | nil => exact iff_of_true rfl ⟨fun _ he => absurd he List.not_mem_nil, fun _ _ hk => by cases hk⟩
  | cons event events ih =>
    rw [List.forall_mem_cons] at h
    rw [List.map_cons, eventsOf, reading_eventText h.1, List.forall_mem_cons,
      publishesBeforeLast_cons]
    by_cases hwid : ∀ wid ∈ workerId event, Hashable wid
    · rw [if_pos hwid, and_iff_right hwid]
      dsimp only
      rw [List.cons_inj_right]
      by_cases hreturns : env.publishReturns n event = true
      · rw [if_pos hreturns, ih h.2]
        exact and_congr_right fun _ => (and_iff_right fun _ => hreturns).symm
      · -- what is behind the exception is lost
        rw [if_neg hreturns]
        constructor
        · rintro rfl
          exact ⟨fun _ he => absurd he List.not_mem_nil, fun hne => absurd rfl hne,
            fun _ _ hk => by cases hk⟩
        · rintro ⟨-, hfirst, -⟩
          by_contra hne
          exact hreturns (hfirst (Ne.symm hne))
    · rw [if_neg hwid]
      exact iff_of_false (List.cons_ne_nil _ _).symm fun hall => hwid hall.1.1

/-! ## The worker's own events -/

/-- The events that the threads of a worker send. -/
inductive WorkerEvent where
  | register (capacity : ℤ)
  | heartbeat
  | jobStarted (job : Json)
  | logEvent (component message : Str)
  | jobCompleted (job result : Json)
  | taskFailed (job : Json) (error : Str)

/-- The event as a dictionary. -/
def WorkerEvent.fields (worker_id : Str) : WorkerEvent → Fields
  | register capacity => [("event".toList, .str "REGISTER".toList),
      ("worker_id".toList, .str worker_id), ("capacity".toList, .int capacity)]
  | heartbeat => [("event".toList, .str "HEARTBEAT".toList), ("worker_id".toList, .str worker_id)]
  | jobStarted job => [("event".toList, .str "JOB_STARTED".toList),
      ("worker_id".toList, .str worker_id), ("job".toList, job)]
  | logEvent component message => [("event".toList, .str "LOG_EVENT".toList),
      ("level".toList, .str "INFO".toList), ("component".toList, .str component),
      ("message".toList, .str message)]
  | jobCompleted job result => [("event".toList, .str "JOB_COMPLETED".toList),
      ("worker_id".toList, .str worker_id), ("job".toList, job), ("result".toList, result)]
  | taskFailed job error => [("event".toList, .str "TASK_FAILED".toList),
      ("worker_id".toList, .str worker_id), ("job".toList, job), ("error".toList, .str error)]

/-- The objects that an event carries are JSON values. -/
def WorkerEvent.Carries (ft : FloatText) : WorkerEvent → Prop
  | register _ => True
  | heartbeat => True
  | jobStarted job => Canonical ft job
  | logEvent _ _ => True
  | jobCompleted job result => Canonical ft job ∧ Canonical ft result
  | taskFailed job _ => Canonical ft job

theorem WorkerEvent.canonical_fields (worker_id : Str) {e : WorkerEvent} (h : e.Carries ft) :
    Canonical ft (.obj (e.fields worker_id)) := by
  have hnodup : ((e.fields worker_id).map Prod.fst).Nodup := by
    cases e <;> simp [fields]
  refine .obj hnodup ?_
  have hnil : ∀ f ∈ ([] : Fields), Canonical ft f.2 := fun _ hf => absurd hf List.not_mem_nil
  cases e with
  | register capacity =>
    simp only [fields, List.forall_mem_cons]
    exact ⟨.str _, .str _, .int _, hnil⟩
  | heartbeat =>
    simp only [fields, List.forall_mem_cons]
    exact ⟨.str _, .str _, hnil⟩
  | jobStarted job =>
    simp only [fields, List.forall_mem_cons]
    exact ⟨.str _, .str _, h, hnil⟩
  | logEvent component message =>
    simp only [fields, List.forall_mem_cons]
    exact ⟨.str _, .str _, .str _, .str _, hnil⟩
  | jobCompleted job result =>
    simp only [fields, List.forall_mem_cons]
    exact ⟨.str _, .str _, h.1, h.2, hnil⟩
  | taskFailed job error =>
    simp only [fields, List.forall_mem_cons]
    exact ⟨.str _, .str _, h, .str _, hnil⟩

/-- **No event of a worker raises on the other end**: its worker id is a string. -/
theorem WorkerEvent.hashable_workerId (worker_id : Str) (e : WorkerEvent) :
    ∀ wid ∈ workerId (e.fields worker_id), Hashable wid := by
  intro wid hwid
  have hname : workerId (e.fields worker_id) = (some (Json.str worker_id)).filter Json.truthy ∨
      workerId (e.fields worker_id) = none := by
    cases e with
    | register capacity => exact Or.inl rfl
    | heartbeat => exact Or.inl rfl
    | jobStarted job => exact Or.inr rfl
    | logEvent component message => exact Or.inr rfl
    | jobCompleted job result => exact Or.inr rfl
    | taskFailed job error => exact Or.inr rfl
  rcases hname with hname | hname
  · rw [hname, Option.mem_def, Option.filter_eq_some_iff, Option.some.injEq] at hwid
    obtain ⟨rfl, -⟩ := hwid
    trivial
  · rw [hname] at hwid
    cases hwid

/-! ## What the coordinator publishes -/

section Published

variable {κ : Type} [DecidableEq κ] {conn : κ} {calls : List (Fields × SendAll)}
  {chunks : List Bytes} {l : EventLoop κ}

omit [DecidableEq κ] in
/-- The stream of complete writes ends with the end of a line. -/
theorem mem_of_suffix_written (hcomplete : ∀ c ∈ calls, c.2 = .complete) {rest : Bytes}
    (hrest : rest <:+ calls.flatMap fun c => c.2.write (eventPayload c.1)) (hne : rest ≠ []) :
    10 ∈ rest := by
  rcases List.eq_nil_or_concat calls with rfl | ⟨calls, c, rfl⟩
  · exact absurd (List.suffix_nil.mp hrest) hne
  · have hlast : c.2 = .complete := hcomplete c (by simp)
    rw [List.concat_eq_append, List.flatMap_append, List.flatMap_singleton, hlast, SendAll.write,
      eventPayload_eq, ← List.append_assoc, List.suffix_concat_iff] at hrest
    obtain ⟨t, rfl, -⟩ := hrest.resolve_left hne
    exact List.mem_append_right _ List.mem_cons_self

/-- If every event is published, every write was complete and no chunk is taken for a health check:
only a complete write ends a line, and the stream ends with one. -/
theorem complete_of_published (hcalls : ∀ c ∈ calls, Canonical ft (.obj c.1))
    (hne : ∀ chunk ∈ chunks, chunk ≠ [])
    (hflat : chunks.flatten = calls.flatMap fun c => c.2.write (eventPayload c.1))
    {n : ℕ} (h : eventsOf env n
      (splitLines 10 (chunks.takeWhile fun chunk => ¬ IsHttp chunk).flatten).1 =
        calls.map Prod.fst) :
    (∀ c ∈ calls, c.2 = .complete) ∧ ∀ chunk ∈ chunks, ¬ IsHttp chunk := by
  have hlines := length_eventsOf_le env n
    (splitLines 10 (chunks.takeWhile fun chunk => ¬ IsHttp chunk).flatten).1
  rw [h, List.length_map, length_splitLines] at hlines
  have hcount := count_written hcalls
  rw [← hflat] at hcount
  have hle : (calls.countP fun c => c.2.isComplete) ≤ calls.length := List.countP_le_length
  have hcomplete : (calls.countP fun c => c.2.isComplete) = calls.length →
      ∀ c ∈ calls, c.2 = .complete := fun heq c hc =>
    (SendAll.isComplete_iff c.2).mp (List.countP_eq_length.mp heq c hc)
  rcases exists_stop_or_quiet IsHttp chunks with hquiet | ⟨before, chunk, after, rfl, hhttp, hquiet⟩
  · rw [takeWhile_of_quiet hquiet] at hlines
    exact ⟨hcomplete (by omega), hquiet⟩
  · -- the health check would hide the last line
    rw [takeWhile_of_stop hquiet hhttp] at hlines
    rw [List.flatten_append] at hcount hflat
    rw [List.count_append] at hcount
    have hrest : (chunk :: after).flatten ≠ [] := by
      rw [List.flatten_cons]
      exact fun hnil => hne chunk (by simp) (List.append_eq_nil_iff.mp hnil).1
    have hmem : 10 ∈ (chunk :: after).flatten :=
      mem_of_suffix_written (hcomplete (by omega)) ⟨_, hflat⟩ hrest
    have hpos := List.count_pos_iff.mpr hmem
    omega

/-- **The events of a worker survive back-pressure** exactly when there is none: every write is
complete, no chunk looks like a health check, no event names its worker by a container, and `publish`
returns for all events before the last. -/
theorem published_iff (hcalls : ∀ c ∈ calls, Canonical ft (.obj c.1))
    (hread : ∀ c ∈ calls, env.loads (eventText c.1) = .value (.obj c.1))
    (hne : ∀ chunk ∈ chunks, chunk ≠ [])
    (hflat : chunks.flatten = (WorkerLink.connected.sendEvents calls).written)
    (hopen : l.closed conn = false) (hbuffer : l.buffers.get? conn = some []) :
    (l.serve env conn chunks).published =
        l.published ++ (WorkerLink.connected.sendEvents calls).returned ↔
      (∀ c ∈ calls, c.2 = .complete) ∧ (∀ chunk ∈ chunks, ¬ IsHttp chunk) ∧
        (∀ c ∈ calls, ∀ wid ∈ workerId c.1, Hashable wid) ∧
          PublishesBeforeLast env l.published.length (calls.map Prod.fst) := by
  have hbuffer' : (l.buffers.get? conn).getD [] = [] := by rw [hbuffer]; rfl
  simp only [WorkerLink.sendEvents_eq, WorkerLink.connected, List.nil_append] at hflat ⊢
  have hevents : ∀ event ∈ calls.map Prod.fst, Canonical ft (.obj event) :=
    List.forall_mem_map.mpr hcalls
  have hback : ∀ event ∈ calls.map Prod.fst, env.loads (eventText event) = .value (.obj event) :=
    List.forall_mem_map.mpr hread
  have hlines : (∀ c ∈ calls, c.2 = .complete) → (∀ chunk ∈ chunks, ¬ IsHttp chunk) →
      (splitLines 10 (chunks.takeWhile fun chunk => ¬ IsHttp chunk).flatten).1 =
        (calls.map Prod.fst).map fun event => encodeUtf8 (eventText event) := by
    intro hcomplete hquiet
    rw [takeWhile_of_quiet hquiet, hflat, written_of_complete hcomplete, splitLines_encodeUtf8,
      splitLines_eventLines hevents, List.map_map]
    rfl
  rw [EventLoop.serve_published hopen hbuffer' hne, List.append_cancel_left_eq]
  constructor
  · intro h
    obtain ⟨hcomplete, hquiet⟩ := complete_of_published hcalls hne hflat h
    rw [hlines hcomplete hquiet, eventsOf_eventTexts_iff hback, List.forall_mem_map] at h
    exact ⟨hcomplete, hquiet, h⟩
  · rintro ⟨hcomplete, hquiet, h⟩
    rw [hlines hcomplete hquiet, eventsOf_eventTexts_iff hback, List.forall_mem_map]
    exact h

end Published

/-- The heartbeat of worker `w`. -/
def heartbeatEvent : Fields := WorkerEvent.heartbeat.fields ['w']

theorem published_iff_heartbeat :
    (oneConnection.serve libraryEnv () [eventPayload heartbeatEvent]).published =
      [heartbeatEvent] := by
  have hcanonical : ∀ c ∈ [(heartbeatEvent, SendAll.complete)],
      Canonical FloatText.verbatim (.obj c.1) := by
    intro c hc
    rw [List.mem_singleton.mp hc]
    exact WorkerEvent.canonical_fields (e := .heartbeat) ['w'] trivial
  refine (published_iff (l := oneConnection) hcanonical
    (fun c hc => (readsEvent_library (hcanonical c hc)).whole) ?_ (by rfl) rfl rfl).mpr
    ⟨?_, ?_, ?_, ?_⟩
  · intro chunk hchunk
    rw [List.mem_singleton.mp hchunk]
    exact List.cons_ne_nil _ _
  · simp
  · intro chunk hchunk
    rw [List.mem_singleton.mp hchunk]
    decide
  · intro c hc
    rw [List.mem_singleton.mp hc]
    exact WorkerEvent.hashable_workerId ['w'] .heartbeat
  · intro k event hk
    exact absurd hk (by simp)

/-- The socket takes one byte of a heartbeat; the next one is lost with it. -/
theorem lost_under_back_pressure :
    let w := WorkerLink.connected.sendEvents
      [(heartbeatEvent, .blocked 1), (heartbeatEvent, .complete)]
    (oneConnection.serve libraryEnv () [w.written]).published ≠ w.returned := by
  have hnone : (oneConnection.serve libraryEnv () [(WorkerLink.connected.sendEvents
    [(heartbeatEvent, .blocked 1), (heartbeatEvent, .complete)]).written]).published = [] := rfl
  intro w h
  rw [hnone] at h
  cases h

end JobSystem
