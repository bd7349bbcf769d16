import JobSystem.Lib.LineServer
import JobSystem.EventBus.EventLine

/-!
# The coordinator's event loop

`EventLoop`: the connections of workers and of the gateway, a buffer for each, and the events that
are handed to `publish` for the lines they send. Answers are tried, and their exceptions ignored;
`publish` catches what it raises and prints it, so it raises only if the print does.

* `LoopEnv`, `topicOf`, `publishReturns`: what the loop runs on, and whether a `publish` returns;
* `register`, `handleLine`, `readWrapper`, `serve`: the calls for one connection until it is closed;
* `Reading`, `reading`, `eventsOf`: what a line comes to, and the events of a list of lines;
* **`serve_of_quiet`**, **`serve_of_stop`**: what the chunks of a stream publish;
* `GoesThrough`, `eventsOf_append_eq_iff`: no event behind the first lines; `NoEvent`,
  `eventsOf_eq_singleton_iff`: one event.
-/

namespace JobSystem

open PyText
open PyJson (Json Console Loaded library)

/-- The event loop; `worker_sockets` is the list of the assignments to it. -/
structure EventLoop (κ : Type) where
  buffers : PyDict κ Bytes
  worker_sockets : List (Json × κ)
  published : List Fields
  answers : List (κ × Str)
  closed : κ → Bool

/-- A value that can be the key of a dictionary. -/
def Hashable : Json → Prop
  | .arr _ => False
  | .obj _ => False
  | _ => True

instance : DecidablePred Hashable
  | .arr _ => isFalse id
  | .obj _ => isFalse id
  | .null => isTrue trivial
  | .bool _ => isTrue trivial
  | .int _ => isTrue trivial
  | .float _ => isTrue trivial
  | .str _ => isTrue trivial

/-! ## The bus -/

/-- What the loop runs on: `json.loads`, the standard output, and the bus. `attempt n event` is the text
of the exception that the `n`-th `publish` meets when it writes `event` to the broker. -/
structure LoopEnv where
  loads : Str → Loaded
  console : Console
  attempt : ℕ → Fields → Option Str

/-- `"JOB_SUBMITTED"` -/
def JOB_SUBMITTED : Str := "JOB_SUBMITTED".toList

/-- `topic` in `InternalEventBus.publish`. -/
def topicField (event : Fields) : Json :=
  match event.lookup "event".toList with
  | some topic => topic
  | none =>
    match event.lookup "job_type".toList with
    | some _ => .str JOB_SUBMITTED
    | none => .null

/-- The topic of `InternalEventBus.publish`; `none` is the `ValueError`. -/
def topicOf (event : Fields) : Option Json :=
  if (topicField event).truthy then some (topicField event) else none

namespace LoopEnv

/-- The text of the exception that a `publish` catches. -/
def publishError (env : LoopEnv) (n : ℕ) (event : Fields) : Option Str :=
  match topicOf event with
  | none => some "No topic/event field in event dict".toList
  | some _ => env.attempt n event

/-- A `publish` returns if it catches nothing, or can print what it catches. -/
def publishReturns (env : LoopEnv) (n : ℕ) (event : Fields) : Bool :=
  match env.publishError n event with
  | none => true
  | some e => env.console.prints ("[EVENT BUS CLIENT] Publish failed for topic ".toList ++
      ((topicField event).pyStr env.console.repr ++ (": ".toList ++ e)))

end LoopEnv

/-! ## The loop -/

/-- `event.get("event") in ["REGISTER", "HEARTBEAT"]`. -/
def fromWorker (event : Fields) : Bool :=
  match event.lookup "event".toList with
  | some (.str e) => e = "REGISTER".toList ∨ e = "HEARTBEAT".toList
  | _ => false

/-- The worker id that is entered in `worker_sockets`. -/
def workerId (event : Fields) : Option Json :=
  if fromWorker event then (event.lookup "worker_id".toList).filter Json.truthy else none

namespace EventLoop

variable {κ : Type}

/-- The assignment to `worker_sockets`; `none` is the `TypeError`. -/
def register (l : EventLoop κ) (conn : κ) (event : Fields) : Option (EventLoop κ) :=
  match workerId event with
  | none => some l
  | some wid =>
    if Hashable wid then some { l with worker_sockets := l.worker_sockets ++ [(wid, conn)] } else none

/-- `self.event_bus.publish(event)` is called. -/
def publish (l : EventLoop κ) (event : Fields) : EventLoop κ :=
  { l with published := l.published ++ [event] }

/-- One line, and whether there is no exception. -/
def handleLine (env : LoopEnv) (l : EventLoop κ) (conn : κ) (line_bytes : Bytes) :
    EventLoop κ × Bool :=
  match loadLine env.loads (decodeIgnore line_bytes) with
  | .notJson => (l, true)
  | .raises => (l, false)
  | .value (.obj event) =>
    match l.register conn event with
    | none => (l, false)
    | some l => (l.publish event, env.publishReturns l.published.length event)
  | .value _ => (l, false)

/-- `conn.sendall(text)`, whether it succeeds or not. -/
def answer (l : EventLoop κ) (conn : κ) (text : Str) : EventLoop κ :=
  { l with answers := l.answers ++ [(conn, text)] }

variable [DecidableEq κ]

/-- `accept_wrapper`, for a new connection. -/
def acceptWrapper (l : EventLoop κ) (conn : κ) : EventLoop κ :=
  { l with buffers := l.buffers.set conn [] }

/-- `conn.close()` and `self.buffers.pop(conn, None)`. -/
def close (l : EventLoop κ) (conn : κ) : EventLoop κ :=
  { l with
    buffers := l.buffers.erase conn
    closed := Function.update l.closed conn true }

/-- `read_wrapper` when `recv` returns `data`. -/
def readWrapper (env : LoopEnv) (l : EventLoop κ) (conn : κ) (data : Bytes) : EventLoop κ :=
  if data = [] then l.close conn
  else if IsHttp data then (l.answer conn httpReply).close conn
  else
    let lines := splitLines 10 ((l.buffers.get? conn).getD [] ++ data)
    let r := serveLines (fun l line => l.handleLine env conn line) lines.1 l
    if r.2 then { r.1 with buffers := r.1.buffers.set conn lines.2 }.answer conn "ACK\n".toList
    else r.1.close conn

/-- The calls for one connection; a closed one is no longer selected. -/
def serve (env : LoopEnv) (conn : κ) : List Bytes → EventLoop κ → EventLoop κ
  | [], l => l
  | chunk :: chunks, l =>
    if l.closed conn then l else serve env conn chunks (l.readWrapper env conn chunk)

end EventLoop

/-- An event loop with one connection. -/
def oneConnection : EventLoop Unit := EventLoop.acceptWrapper ⟨∅, [], [], [], fun _ => false⟩ ()

/-- A loop without limits, a standard output for ASCII, and a broker that takes everything. -/
def libraryEnv : LoopEnv := ⟨library .verbatim, ⟨fun _ => [], fun c => c.toNat < 128⟩, fun _ _ => none⟩

/-! ## What is published -/

/-- What a line comes to. -/
inductive Reading where
  | blank
  | publish (event : Fields)
  | raise

/-- What a line comes to: an exception if it is no object, or names a worker by a container. -/
def reading (load : Str → Loaded) (line_bytes : Bytes) : Reading :=
  match loadLine load (decodeIgnore line_bytes) with
  | .notJson => .blank
  | .raises => .raise
  | .value (.obj event) => if ∀ wid ∈ workerId event, Hashable wid then .publish event else .raise
  | .value _ => .raise

/-- The events of a list of lines, up to an exception, when `n` have been published. -/
def eventsOf (env : LoopEnv) : ℕ → List Bytes → List Fields
  | _, [] => []
  | n, line :: lines =>
    match reading env.loads line with
    | .blank => eventsOf env n lines
    | .publish event =>
      event :: if env.publishReturns n event then eventsOf env (n + 1) lines else []
    | .raise => []

/-- No line raises. -/
def GoesThrough (env : LoopEnv) : ℕ → List Bytes → Prop
  | _, [] => True
  | n, line :: lines =>
    match reading env.loads line with
    | .blank => GoesThrough env n lines
    | .publish event => env.publishReturns n event = true ∧ GoesThrough env (n + 1) lines
    | .raise => False

variable {env : LoopEnv} {κ : Type}

/-- The event of a line, behind those before it. -/
def readEvent (env : LoopEnv) (events : List Fields) (line : Bytes) : List Fields × Bool :=
  match reading env.loads line with
  | .blank => (events, true)
  | .publish event => (events ++ [event], env.publishReturns events.length event)
  | .raise => (events, false)

/-- What a line does by what it comes to. -/
theorem EventLoop.handleLine_spec (env : LoopEnv) (l : EventLoop κ) (conn : κ) (line_bytes : Bytes) :
    (l.handleLine env conn line_bytes).1.published = (readEvent env l.published line_bytes).1 ∧
      (l.handleLine env conn line_bytes).2 = (readEvent env l.published line_bytes).2 ∧
      (l.handleLine env conn line_bytes).1.buffers = l.buffers ∧
      (l.handleLine env conn line_bytes).1.closed = l.closed ∧
      (l.handleLine env conn line_bytes).1.answers = l.answers := by
  rw [handleLine, readEvent, reading]
  cases loadLine env.loads (decodeIgnore line_bytes) with
  | notJson => exact ⟨rfl, rfl, rfl, rfl, rfl⟩
  | raises => exact ⟨rfl, rfl, rfl, rfl, rfl⟩
  | value v =>
    cases v with
    | obj event =>
      dsimp only
      rw [register]
      cases workerId event with
      | none => simp [publish]
      | some wid => by_cases h : Hashable wid <;> simp [h, publish]
    | _ => exact ⟨rfl, rfl, rfl, rfl, rfl⟩

variable (env) in
theorem serveLines_readEvent (lines : List Bytes) (events : List Fields) :
    (serveLines (readEvent env) lines events).1 = events ++ eventsOf env events.length lines ∧
      ((serveLines (readEvent env) lines events).2 = true ↔
        GoesThrough env events.length lines) := by
  induction lines generalizing events with
  | nil => exact ⟨(List.append_nil events).symm, iff_of_true rfl trivial⟩
  | cons line lines ih =>
    rw [serveLines, eventsOf, GoesThrough, readEvent]
    cases reading env.loads line with
    | blank => exact ih events
    | publish event =>
      have ih := ih (events ++ [event])
      rw [List.length_append, List.length_singleton, List.append_assoc] at ih
      dsimp only
      by_cases hreturns : env.publishReturns events.length event = true
      · rw [if_pos hreturns, if_pos hreturns, and_iff_right hreturns]
        exact ih
      · rw [if_neg hreturns, if_neg hreturns]
        exact ⟨rfl, iff_of_false hreturns fun h => hreturns h.1⟩
    | raise => exact ⟨(List.append_nil events).symm, iff_of_false Bool.false_ne_true id⟩

namespace EventLoop

/-- Lines change neither the buffers nor the answers, and close nothing. -/
theorem serveLines_rest (env : LoopEnv) (conn : κ) (lines : List Bytes) (l : EventLoop κ) :
    let l' := (serveLines (fun l line => l.handleLine env conn line) lines l).1
    l'.buffers = l.buffers ∧ l'.closed = l.closed ∧ l'.answers = l.answers := by
  refine serveLines_induction (P := fun l' : EventLoop κ => l'.buffers = l.buffers ∧
    l'.closed = l.closed ∧ l'.answers = l.answers) ?_ lines ⟨rfl, rfl, rfl⟩
  rintro l' line ⟨hbuffers, hclosed, hanswers⟩
  obtain ⟨-, -, hb, hc, ha⟩ := handleLine_spec env l' conn line
  exact ⟨hb.trans hbuffers, hc.trans hclosed, ha.trans hanswers⟩

/-- **The lines of one call.** -/
theorem serveLines_spec (env : LoopEnv) (conn : κ) (lines : List Bytes) (l : EventLoop κ) :
    let r := serveLines (fun l line => l.handleLine env conn line) lines l
    r.1.published = l.published ++ eventsOf env l.published.length lines ∧
      (r.2 = true ↔ GoesThrough env l.published.length lines) := by
  have hlines := serveLines_congr (R := fun (l : EventLoop κ) events => l.published = events)
    (fun l line => l.handleLine env conn line) (readEvent env)
    (fun l events line h => by
      subst h
      obtain ⟨hpublished, hok, -⟩ := handleLine_spec env l conn line
      exact ⟨hpublished, hok⟩) lines (s := l) rfl
  obtain ⟨hevents, hok⟩ := serveLines_readEvent env lines l.published
  exact ⟨hlines.1.trans hevents, by rw [hlines.2, hok]⟩

variable [DecidableEq κ]

theorem close_closed (l : EventLoop κ) (conn : κ) : (l.close conn).closed conn = true := by
  simp [close]

theorem close_of_ne (l : EventLoop κ) {conn conn' : κ} (h : conn' ≠ conn) :
    (l.close conn).closed conn' = l.closed conn' ∧
      (l.close conn).buffers.get? conn' = l.buffers.get? conn' := by
  constructor
  · exact Function.update_of_ne h _ _
  · show (l.buffers.erase conn).get? conn' = _
    rw [PyDict.get?_erase, if_neg h]

/-- The other connections are left alone. -/
theorem readWrapper_of_ne (l : EventLoop κ) {conn conn' : κ} (h : conn' ≠ conn) (data : Bytes) :
    (l.readWrapper env conn data).closed conn' = l.closed conn' ∧
      (l.readWrapper env conn data).buffers.get? conn' = l.buffers.get? conn' := by
  obtain ⟨hbuffers, hclosed, -⟩ := serveLines_rest env conn
    (splitLines 10 ((l.buffers.get? conn).getD [] ++ data)).1 l
  unfold readWrapper
  dsimp only at hbuffers hclosed ⊢
  split_ifs with hnil hhttp hok
  · exact close_of_ne l h
  · exact close_of_ne (l.answer conn httpReply) h
  · constructor
    · exact congrFun hclosed conn'
    · show (PyDict.set _ conn _).get? conn' = _
      rw [PyDict.get?_set_ne _ h, hbuffers]
  · obtain ⟨hc, hb⟩ := close_of_ne (serveLines (fun l line => l.handleLine env conn line)
      (splitLines 10 ((l.buffers.get? conn).getD [] ++ data)).1 l).1 h
    rw [hc, hb, hclosed, hbuffers]
    exact ⟨rfl, rfl⟩

theorem serve_of_closed {l : EventLoop κ} {conn : κ} (h : l.closed conn = true)
    (chunks : List Bytes) : l.serve env conn chunks = l := by
  cases chunks with
  | nil => rfl
  | cons chunk chunks => rw [serve, if_pos h]

/-- The calls for a connection publish what a server of lines reads. -/
theorem serve_eq {conn : κ} {chunks : List Bytes} (hne : ∀ chunk ∈ chunks, chunk ≠ [])
    {l : EventLoop κ} (hopen : l.closed conn = false) {buffer : Bytes}
    (hbuffer : (l.buffers.get? conn).getD [] = buffer) :
    (l.serve env conn chunks).published =
      (serveChunks 10 IsHttp (readEvent env) buffer l.published chunks).1 := by
  induction chunks generalizing l buffer with
  | nil => rfl
  | cons chunk chunks ih =>
    rw [List.forall_mem_cons] at hne
    have hrun : ¬ l.closed conn = true := by
      rw [hopen]
      exact Bool.false_ne_true
    rw [serve, if_neg hrun, readWrapper, if_neg hne.1, hbuffer, serveChunks]
    by_cases hhttp : IsHttp chunk
    · rw [if_pos hhttp, if_pos hhttp, serve_of_closed (close_closed _ conn)]
      rfl
    · rw [if_neg hhttp, if_neg hhttp]
      obtain ⟨hpublished, hok⟩ := serveLines_spec env conn (splitLines 10 (buffer ++ chunk)).1 l
      obtain ⟨-, hclosed, -⟩ := serveLines_rest env conn (splitLines 10 (buffer ++ chunk)).1 l
      obtain ⟨hevents, hok'⟩ := serveLines_readEvent env
        (splitLines 10 (buffer ++ chunk)).1 l.published
      rw [← hok'] at hok
      rw [← hevents] at hpublished
      dsimp only at hok hpublished hclosed ⊢
      by_cases hr : (serveLines (readEvent env) (splitLines 10 (buffer ++ chunk)).1 l.published).2
      · rw [if_pos (hok.mpr hr), if_pos hr, ← hpublished]
        refine ih hne.2 ?_ ?_
        · rw [answer, hclosed, hopen]
        · change (PyDict.get? (PyDict.set _ conn _) conn).getD [] = _
          rw [PyDict.get?_set_self]
          rfl
      · rw [if_neg fun h => hr (hok.mp h), if_neg hr, serve_of_closed (close_closed _ conn)]
        exact hpublished

theorem serveStream_readEvent (stream : Bytes) (events : List Fields) :
    (serveStream 10 (readEvent env) events stream).1 =
      events ++ eventsOf env events.length (splitLines 10 stream).1 :=
  (serveLines_readEvent env (splitLines 10 stream).1 events).1

section Published

variable {conn : κ} {chunks : List Bytes} {l : EventLoop κ} (hopen : l.closed conn = false)
  (hbuffer : (l.buffers.get? conn).getD [] = []) (hquiet : ∀ chunk ∈ chunks, ¬ IsHttp chunk)

include hopen hbuffer hquiet

/-- **What the chunks of a stream publish.** -/
theorem serve_of_quiet (hne : ∀ chunk ∈ chunks, chunk ≠ []) :
    (l.serve env conn chunks).published =
      l.published ++ eventsOf env l.published.length (splitLines 10 chunks.flatten).1 := by
  rw [serve_eq hne hopen hbuffer, serveChunks_of_quiet hquiet List.not_mem_nil,
    serveStream_readEvent, List.nil_append]

/-- **A chunk that looks like a health check** ends it. -/
theorem serve_of_stop {chunk : Bytes} (hhttp : IsHttp chunk) {chunks' : List Bytes}
    (hne : ∀ c ∈ chunks ++ chunk :: chunks', c ≠ []) :
    (l.serve env conn (chunks ++ chunk :: chunks')).published =
      l.published ++ eventsOf env l.published.length (splitLines 10 chunks.flatten).1 := by
  rw [serve_eq hne hopen hbuffer, serveChunks_of_stop hquiet hhttp List.not_mem_nil,
    List.nil_append, ← serveStream_readEvent]
  split
  · rename_i hend
    rw [hend]
  · rfl

end Published

/-- What is published in any case. -/
theorem serve_published {conn : κ} {chunks : List Bytes} {l : EventLoop κ}
    (hopen : l.closed conn = false) (hbuffer : (l.buffers.get? conn).getD [] = [])
    (hne : ∀ chunk ∈ chunks, chunk ≠ []) : (l.serve env conn chunks).published = l.published ++
      eventsOf env l.published.length
        (splitLines 10 (chunks.takeWhile fun chunk => ¬ IsHttp chunk).flatten).1 := by
  rcases exists_stop_or_quiet IsHttp chunks with
    hquiet | ⟨before, chunk, after, rfl, hhttp, hquiet⟩
  · rw [serve_of_quiet hopen hbuffer hquiet hne, takeWhile_of_quiet hquiet]
  · rw [serve_of_stop hopen hbuffer hquiet hhttp hne, takeWhile_of_stop hquiet hhttp]

end EventLoop

/-! ## Events behind a part of the lines -/

variable {n : ℕ}

/-- Lines that raise nothing are followed by the others. -/
theorem eventsOf_append {lines : List Bytes} (h : GoesThrough env n lines) (lines' : List Bytes) :
    eventsOf env n (lines ++ lines') =
      eventsOf env n lines ++ eventsOf env (n + (eventsOf env n lines).length) lines' := by
  induction lines generalizing n with
  | nil => rfl
  | cons line lines ih =>
    rw [GoesThrough] at h
    rw [List.cons_append, eventsOf, eventsOf]
    cases hread : reading env.loads line with
    | blank =>
      rw [hread] at h
      exact ih h
    | publish event =>
      rw [hread] at h
      dsimp only
      rw [if_pos h.1, if_pos h.1, ih h.2, List.length_cons, List.cons_append, Nat.add_right_comm,
        Nat.add_assoc]
    | raise =>
      rw [hread] at h
      exact h.elim

/-- An exception ends the reading. -/
theorem eventsOf_of_raise {lines : List Bytes} (h : ¬ GoesThrough env n lines)
    (lines' : List Bytes) : eventsOf env n (lines ++ lines') = eventsOf env n lines := by
  induction lines generalizing n with
  | nil => exact absurd trivial h
  | cons line lines ih =>
    rw [GoesThrough] at h
    rw [List.cons_append, eventsOf, eventsOf]
    cases hread : reading env.loads line with
    | blank =>
      rw [hread] at h
      exact ih h
    | publish event =>
      rw [hread] at h
      dsimp only
      by_cases hreturns : env.publishReturns n event = true
      · rw [if_pos hreturns, if_pos hreturns, ih fun hrest => h ⟨hreturns, hrest⟩]
      · rw [if_neg hreturns, if_neg hreturns]
    | raise => rfl

theorem goesThrough_append {lines lines' : List Bytes} : GoesThrough env n (lines ++ lines') ↔
    GoesThrough env n lines ∧ GoesThrough env (n + (eventsOf env n lines).length) lines' := by
  induction lines generalizing n with
  | nil => exact (and_iff_right trivial).symm
  | cons line lines ih =>
    rw [List.cons_append, GoesThrough, GoesThrough, eventsOf]
    cases reading env.loads line with
    | blank => exact ih
    | publish event =>
      dsimp only
      rw [ih, and_assoc, and_congr_right_iff]
      intro hreturns
      rw [if_pos hreturns, List.length_cons, Nat.add_right_comm, Nat.add_assoc]
    | raise => exact iff_of_false id fun h => h.1

/-- Some line is the first event. -/
theorem exists_of_eventsOf_ne_nil {lines : List Bytes} (h : eventsOf env n lines ≠ []) :
    ∃ before line after event, lines = before ++ line :: after ∧ GoesThrough env n before ∧
      reading env.loads line = .publish event := by
  induction lines with
  | nil => exact absurd rfl h
  | cons line lines ih =>
    rw [eventsOf] at h
    cases hread : reading env.loads line with
    | blank =>
      rw [hread] at h
      obtain ⟨before, line', after, event, rfl, hbefore, hline⟩ := ih h
      refine ⟨line :: before, line', after, event, rfl, ?_, hline⟩
      rw [GoesThrough, hread]
      exact hbefore
    | publish event => exact ⟨[], line, lines, event, rfl, trivial, hread⟩
    | raise =>
      rw [hread] at h
      exact absurd rfl h

/-- **No event behind the first lines**: every line that is published is one of them. -/
theorem eventsOf_append_eq_iff (env : LoopEnv) (n : ℕ) (lines lines' : List Bytes) :
    eventsOf env n (lines ++ lines') = eventsOf env n lines ↔
      ∀ before line after event, lines ++ lines' = before ++ line :: after →
        GoesThrough env n before → reading env.loads line = .publish event →
        before.length < lines.length := by
  constructor
  · intro heq before line after event hsplit hbefore hline
    by_contra hlen
    have hprefix : lines <+: before := by
      refine List.prefix_of_prefix_length_le (List.prefix_append lines lines') ?_ (Nat.le_of_not_lt hlen)
      rw [hsplit]
      exact List.prefix_append _ _
    obtain ⟨rest, rfl⟩ := hprefix
    obtain ⟨hlines, hrest⟩ := goesThrough_append.mp hbefore
    rw [List.append_assoc] at hsplit
    rw [List.append_cancel_left hsplit, eventsOf_append hlines, eventsOf_append hrest, eventsOf,
      hline] at heq
    have hnil := List.append_cancel_left (heq.trans (List.append_nil _).symm)
    exact List.cons_ne_nil _ _ (List.append_eq_nil_iff.mp hnil).2
  · intro hall
    by_cases hthrough : GoesThrough env n lines
    · rw [eventsOf_append hthrough]
      have hnil : eventsOf env (n + (eventsOf env n lines).length) lines' = [] := by
        by_contra hne
        obtain ⟨before, line, after, event, rfl, hbefore, hline⟩ := exists_of_eventsOf_ne_nil hne
        have hlt := hall (lines ++ before) line after event (List.append_assoc _ _ _).symm
          (goesThrough_append.mpr ⟨hthrough, hbefore⟩) hline
        rw [List.length_append] at hlt
        omega
      rw [hnil, List.append_nil]
    · exact eventsOf_of_raise hthrough lines'

/-- No line is published: each comes behind one that raises, or is no event. -/
def NoEvent (load : Str → Loaded) (lines : List Bytes) : Prop :=
  ∀ before line after event, lines = before ++ line :: after →
    (∀ l ∈ before, reading load l ≠ .raise) → reading load line ≠ .publish event

theorem eventsOf_eq_nil_iff {lines : List Bytes} :
    eventsOf env n lines = [] ↔ NoEvent env.loads lines := by
  constructor
  · intro h before line after event hlines hbefore hline
    subst hlines
    induction before with
    | nil =>
      rw [List.nil_append, eventsOf, hline] at h
      exact List.cons_ne_nil _ _ h
    | cons l before ih =>
      rw [List.forall_mem_cons] at hbefore
      rw [List.cons_append, eventsOf] at h
      cases hread : reading env.loads l with
      | blank =>
        rw [hread] at h
        exact ih hbefore.2 h
      | publish event' =>
        rw [hread] at h
        exact List.cons_ne_nil _ _ h
      | raise => exact hbefore.1 hread
  · intro h
    by_contra hne
    obtain ⟨before, line, after, event, rfl, hbefore, hline⟩ := exists_of_eventsOf_ne_nil hne
    refine h before line after event rfl (fun l hl hraise => ?_) hline
    obtain ⟨front, back, rfl⟩ := List.append_of_mem hl
    obtain ⟨-, hrest⟩ := goesThrough_append.mp hbefore
    rw [GoesThrough, hraise] at hrest
    exact hrest

/-- One line is published: no event is behind it, unless its `publish` raises. -/
theorem eventsOf_eq_singleton_iff {lines : List Bytes} {event : Fields} :
    eventsOf env n lines = [event] ↔ ∃ before line after, lines = before ++ line :: after ∧
      (∀ l ∈ before, reading env.loads l = .blank) ∧ reading env.loads line = .publish event ∧
      (env.publishReturns n event = true → NoEvent env.loads after) := by
  have hrest : ∀ after, (event :: if env.publishReturns n event then eventsOf env (n + 1) after
      else []) = [event] ↔ (env.publishReturns n event = true → NoEvent env.loads after) := by
    intro after
    rw [List.cons_inj_right]
    split_ifs with hreturns
    · rw [eventsOf_eq_nil_iff]
      exact ⟨fun h _ => h, fun h => h hreturns⟩
    · exact iff_of_true rfl fun h => absurd h hreturns
  constructor
  · intro h
    induction lines with
    | nil => cases h
    | cons line lines ih =>
      rw [eventsOf] at h
      cases hread : reading env.loads line with
      | blank =>
        rw [hread] at h
        obtain ⟨before, line', after, rfl, hbefore, hline, hafter⟩ := ih h
        exact ⟨line :: before, line', after, rfl, List.forall_mem_cons.mpr ⟨hread, hbefore⟩, hline,
          hafter⟩
      | publish event' =>
        rw [hread] at h
        obtain ⟨rfl, -⟩ := List.cons.inj h
        exact ⟨[], line, lines, rfl, fun l hl => absurd hl List.not_mem_nil, hread,
          (hrest lines).mp h⟩
      | raise =>
        rw [hread] at h
        cases h
  · rintro ⟨before, line, after, rfl, hbefore, hline, hafter⟩
    induction before with
    | nil =>
      rw [List.nil_append, eventsOf, hline]
      exact (hrest after).mpr hafter
    | cons l before ih =>
      rw [List.forall_mem_cons] at hbefore
      rw [List.cons_append, eventsOf, hbefore.1]
      exact ih hbefore.2

theorem noEvent_of_blank {load : Str → Loaded} {lines : List Bytes}
    (h : ∀ line ∈ lines, reading load line = .blank) : NoEvent load lines := by
  intro before line after event hlines _ hline
  subst hlines
  rw [h line (List.mem_append_right _ List.mem_cons_self)] at hline
  cases hline

end JobSystem
