import JobSystem.EventBus.EventLoop

/-!
# Bad lines on a connection of the event loop

`read_wrapper` catches the `JSONDecodeError` of a line, so a line that is not JSON is skipped. Every
other exception reaches the outer handler, which closes the connection and drops its buffer:
`event.get` of a value that is no object, a worker id that is no key of a dictionary, what else
`json.loads` raises (the limits on nesting and on the digits of an integer), and the print of
`publish` about an exception of its own.

* `objectOf`, `HarmlessLine`: the object on a line, and a line that raises nothing by itself;
* `goesThrough_iff`: a list of lines raises nothing if its lines are harmless and the objects among
  them can be published;
* **`serve_iff`**: the objects among the lines are published and the connection stays open exactly
  in this case.
-/

namespace JobSystem

open PyText
open PyJson (Json Loaded)

/-! ## What a line does -/

/-- No exception reaches the outer handler before `publish`: the line is not JSON, or an object that
names its worker, if it names one, by a value that can be a key. -/
def Passes : Loaded → Prop
  | .notJson => True
  | .raises => False
  | .value (.obj event) => ∀ wid ∈ workerId event, Hashable wid
  | .value _ => False

instance : DecidablePred Passes
  | .notJson => isTrue trivial
  | .raises => isFalse id
  | .value (.obj event) => inferInstanceAs (Decidable (∀ wid ∈ workerId event, Hashable wid))
  | .value .null => isFalse id
  | .value (.bool _) => isFalse id
  | .value (.int _) => isFalse id
  | .value (.float _) => isFalse id
  | .value (.str _) => isFalse id
  | .value (.arr _) => isFalse id

section Lines

variable (load : Str → Loaded)

/-- The object that a line holds. -/
def objectOf (line_bytes : Bytes) : Option Fields :=
  match loadLine load (decodeIgnore line_bytes) with
  | .value (.obj event) => some event
  | _ => none

/-- A line that is blank, or that raises nothing by itself. -/
def HarmlessLine (line_bytes : Bytes) : Prop := Passes (loadLine load (decodeIgnore line_bytes))

instance : DecidablePred (HarmlessLine load) := fun _ => inferInstanceAs (Decidable (Passes _))

/-- **What a line comes to.** -/
theorem reading_spec (line_bytes : Bytes) :
    (HarmlessLine load line_bytes ∧ reading load line_bytes =
        match objectOf load line_bytes with | none => .blank | some event => .publish event) ∨
      (¬ HarmlessLine load line_bytes ∧ reading load line_bytes = .raise) := by
  rw [HarmlessLine, reading, objectOf]
  cases loadLine load (decodeIgnore line_bytes) with
  | notJson => exact .inl ⟨trivial, rfl⟩
  | raises => exact .inr ⟨id, rfl⟩
  | value v =>
    cases v with
    | obj event =>
      by_cases h : ∀ wid ∈ workerId event, Hashable wid
      · exact .inl ⟨h, if_pos h⟩
      · exact .inr ⟨h, if_neg h⟩
    | _ => exact .inr ⟨id, rfl⟩

variable {env : LoopEnv} {n : ℕ}

/-- A list of lines raises nothing exactly if its lines are harmless and the objects among them can be
published. -/
theorem goesThrough_iff {lines : List Bytes} : GoesThrough env n lines ↔
    (∀ line ∈ lines, HarmlessLine env.loads line) ∧
      ∀ k event, (lines.filterMap (objectOf env.loads))[k]? = some event →
        env.publishReturns (n + k) event = true := by
  induction lines generalizing n with
  | nil => simp [GoesThrough]
  | cons line lines ih =>
    rw [GoesThrough, List.forall_mem_cons]
    rcases reading_spec env.loads line with ⟨hharmless, hread⟩ | ⟨hraises, hread⟩
    · rw [hread, and_iff_right hharmless]
      cases hobject : objectOf env.loads line with
      | none =>
        rw [List.filterMap_cons_none hobject]
        exact ih
      | some event =>
        rw [List.filterMap_cons_some hobject]
        dsimp only
        rw [ih, and_left_comm, and_congr_right_iff]
        -- the first object, and the ones behind it
        refine fun _ => ⟨fun h k event' hk => ?_, fun h => ⟨h 0 event rfl, fun k event' hk => ?_⟩⟩
        · cases k with
          | zero =>
            cases hk
            exact h.1
          | succ k =>
            rw [Nat.add_comm k, ← Nat.add_assoc]
            exact h.2 k event' hk
        · rw [Nat.add_assoc, Nat.add_comm 1]
          exact h (k + 1) event' hk
    · rw [hread]
      exact iff_of_false id fun h => hraises h.1.1

/-- Lines that raise nothing publish the objects among them. -/
theorem eventsOf_of_goesThrough {lines : List Bytes} (h : GoesThrough env n lines) :
    eventsOf env n lines = lines.filterMap (objectOf env.loads) := by
  induction lines generalizing n with
  | nil => rfl
  | cons line lines ih =>
    rw [GoesThrough] at h
    rw [eventsOf]
    rcases reading_spec env.loads line with ⟨-, hread⟩ | ⟨-, hread⟩
    · rw [hread] at h ⊢
      cases hobject : objectOf env.loads line with
      | none =>
        rw [hobject] at h
        rw [List.filterMap_cons_none hobject]
        exact ih h
      | some event =>
        rw [hobject] at h
        rw [List.filterMap_cons_some hobject]
        dsimp only at h ⊢
        rw [if_pos h.1, ih h.2]
    · rw [hread] at h
      exact h.elim

end Lines

/-! ## What the chunks do -/

namespace EventLoop

variable {env : LoopEnv} {κ : Type} [DecidableEq κ] {conn : κ}

variable (env) in
/-- **The calls for a connection.** It stays open exactly if its lines raise nothing; then what is no
complete line yet is kept. -/
theorem serve_spec {chunks : List Bytes} (hne : ∀ chunk ∈ chunks, chunk ≠ [])
    (hquiet : ∀ chunk ∈ chunks, ¬ IsHttp chunk) {l : EventLoop κ} (hopen : l.closed conn = false)
    {buffer : Bytes} (hbuffer : l.buffers.get? conn = some buffer) (hbuf : 10 ∉ buffer) :
    let lines := splitLines 10 (buffer ++ chunks.flatten)
    ((l.serve env conn chunks).closed conn = false ↔
        GoesThrough env l.published.length lines.1) ∧
      (GoesThrough env l.published.length lines.1 →
        (l.serve env conn chunks).buffers.get? conn = some lines.2) := by
  induction chunks generalizing l buffer with
  | nil =>
    rw [List.flatten_nil, List.append_nil, splitLines_of_notMem hbuf]
    exact ⟨iff_of_true hopen trivial, fun _ => hbuffer⟩
  | cons chunk chunks ih =>
    rw [List.forall_mem_cons] at hne hquiet
    have hrun : ¬ l.closed conn = true := by
      rw [hopen]
      exact Bool.false_ne_true
    obtain ⟨hpublished, hok⟩ := serveLines_spec env conn (splitLines 10 (buffer ++ chunk)).1 l
    obtain ⟨-, hclosed, -⟩ := serveLines_rest env conn (splitLines 10 (buffer ++ chunk)).1 l
    have hsplit : splitLines 10 (buffer ++ (chunk :: chunks).flatten) =
        ((splitLines 10 (buffer ++ chunk)).1 ++
            (splitLines 10 ((splitLines 10 (buffer ++ chunk)).2 ++ chunks.flatten)).1,
          (splitLines 10 ((splitLines 10 (buffer ++ chunk)).2 ++ chunks.flatten)).2) := by
      rw [List.flatten_cons, ← List.append_assoc, splitLines_append]
    rw [serve, if_neg hrun, readWrapper, if_neg hne.1, if_neg hquiet.1, hbuffer,
      Option.getD_some, hsplit]
    dsimp only at hpublished hok hclosed ⊢
    rw [goesThrough_append, ← hok]
    by_cases hr : (serveLines (fun l line => l.handleLine env conn line)
      (splitLines 10 (buffer ++ chunk)).1 l).2 = true
    · -- the call ends as usual, and the next ones go on with the rest
      rw [if_pos hr, and_iff_right hr]
      generalize hl' : answer _ conn "ACK\n".toList = l'
      have hopen' : l'.closed conn = false := by
        rw [← hl', answer]
        exact (congrFun hclosed conn).trans hopen
      have hbuffer' : l'.buffers.get? conn = some (splitLines 10 (buffer ++ chunk)).2 := by
        rw [← hl']
        exact PyDict.get?_set_self ..
      have hlength : l'.published.length = l.published.length +
          (eventsOf env l.published.length (splitLines 10 (buffer ++ chunk)).1).length := by
        rw [← hl', answer]
        exact (congrArg List.length hpublished).trans List.length_append
      rw [← hlength]
      exact ih hne.2 hquiet.2 hopen' hbuffer' (sep_notMem_rest 10 _)
    · -- the call closes the connection
      rw [if_neg hr, serve_of_closed (close_closed _ conn), close_closed]
      exact ⟨iff_of_false Bool.noConfusion fun h => hr h.1, fun h => absurd h.1 hr⟩

/-- **A bad line does not harm its neighbours** exactly when nothing reaches the outer handler: the
objects among the lines are published in order, and the connection stays open with its unfinished line,
if and only if every line is harmless and `publish` returns for every object. -/
theorem serve_iff {l : EventLoop κ} (hopen : l.closed conn = false)
    (hbuffer : l.buffers.get? conn = some []) {chunks : List Bytes}
    (hne : ∀ chunk ∈ chunks, chunk ≠ []) (hquiet : ∀ chunk ∈ chunks, ¬ IsHttp chunk) :
    ((l.serve env conn chunks).published =
          l.published ++ (splitLines 10 chunks.flatten).1.filterMap (objectOf env.loads) ∧
        (l.serve env conn chunks).closed conn = false ∧
        (l.serve env conn chunks).buffers.get? conn = some (splitLines 10 chunks.flatten).2) ↔
      (∀ line ∈ (splitLines 10 chunks.flatten).1, HarmlessLine env.loads line) ∧
        ∀ k event, ((splitLines 10 chunks.flatten).1.filterMap (objectOf env.loads))[k]? =
          some event → env.publishReturns (l.published.length + k) event = true := by
  obtain ⟨hiff, hrest⟩ := serve_spec env hne hquiet hopen hbuffer List.not_mem_nil
  rw [List.nil_append] at hiff hrest
  rw [← goesThrough_iff]
  constructor
  · rintro ⟨-, hstays, -⟩
    exact hiff.mp hstays
  · intro h
    refine ⟨?_, hiff.mpr h, hrest h⟩
    rw [serve_of_quiet hopen (by rw [hbuffer]; rfl) hquiet hne, eventsOf_of_goesThrough h]

end EventLoop

/-- A line that is not JSON stands between two events. -/
theorem serve_iff_skipped : (oneConnection.serve libraryEnv ()
    [encodeUtf8 "\x7b\x7d\nx\n\x7b\x7d\n".toList]).published = [[], []] := by
  refine ((EventLoop.serve_iff (l := oneConnection) rfl rfl ?_ ?_).mpr
    ⟨?_, ?_⟩).1
  · intro chunk hchunk
    rw [List.mem_singleton.mp hchunk]
    exact List.cons_ne_nil _ _
  · intro chunk hchunk
    rw [List.mem_singleton.mp hchunk]
    decide
  · decide
  · -- `publish` has no topic, and prints so
    intro k event hk
    have hobjects : (splitLines 10 [encodeUtf8 "\x7b\x7d\nx\n\x7b\x7d\n".toList].flatten).1.filterMap
        (objectOf libraryEnv.loads) = [[], []] := rfl
    rw [hobjects] at hk
    have hevent : event = [] := by
      have hmem := List.mem_of_getElem? hk
      simpa using hmem
    subst hevent
    rfl

/-- A line that holds a list closes the connection, and the event behind it is lost. -/
theorem closed_by_list :
    let chunk := encodeUtf8 "[]\n\x7b\x7d\n".toList
    let l := oneConnection.serve libraryEnv () [chunk]
    ¬ (l.published = (splitLines 10 chunk).1.filterMap (objectOf libraryEnv.loads) ∧
      l.closed () = false ∧ l.buffers.get? () = some (splitLines 10 chunk).2) := by
  intro chunk l h
  have hclosed : l.closed () = true := rfl
  rw [hclosed] at h
  exact absurd h.2.1 Bool.noConfusion

end JobSystem
