import JobSystem.Lib.Interpreter
import JobSystem.Lib.JsonPieces
import JobSystem.EventBus.Delivery

/-!
# Lines of JSON

An event is a JSON object; `json.dumps(event) + "\n"` is its line.

* `eventText`, `eventLines`, `loadLine`; `ReadsEvent`: what `json.loads` does with such a line;
* `isPayload_dumps`: the broker's clients send such lines;
* **`loadLine_eventText`**, **`loadLine_suffix_ne`**: a line is read back, and a proper end of it is not.
-/

namespace JobSystem

open PyText
open PyJson (Json FloatText Canonical Loaded ReadsLike library loads dumps Printable)

/-- The fields of an event. -/
abbrev Fields := List (Str × Json)

/-- `json.dumps(event)`. -/
def eventText (event : Fields) : Str := dumps (.obj event)

/-- The lines of a list of events. -/
def eventLines (events : List Fields) : Str :=
  (events.map fun event => eventText event ++ ['\n']).flatten

/-- `json.loads(line.strip())`; a blank line is skipped like one that is not JSON. -/
def loadLine (load : Str → Loaded) (line : Str) : Loaded :=
  if strip line = [] then .notJson else load (strip line)

/-- `json.loads` reads the text of an event back, and what is cut from it like the library. -/
structure ReadsEvent (ft : FloatText) (load : Str → Loaded) (event : Fields) : Prop where
  whole : load (eventText event) = .value (.obj event)
  pieces : ReadsLike ft load (eventText event)

variable {ft : FloatText} {load : Str → Loaded} {event : Fields}

theorem readsEvent_library (h : Canonical ft (.obj event)) : ReadsEvent ft (library ft) event where
  whole := PyJson.library_eq_value.mpr (PyJson.loads_dumps h)
  pieces := PyJson.readsLike_library ft _

theorem printable_eventText (h : Canonical ft (.obj event)) : ∀ c ∈ eventText event, Printable c :=
  PyJson.printable_dumps h

theorem isAscii_of_printable {s : Str} (h : ∀ c ∈ s, Printable c) : IsAscii s := fun c hc => by
  have := (h c hc).2
  omega

theorem newline_notMem_of_printable {s : Str} (h : ∀ c ∈ s, Printable c) : '\n' ∉ s := fun hc =>
  absurd (h _ hc) (by decide)

theorem newline_notMem_eventText (h : Canonical ft (.obj event)) : '\n' ∉ eventText event :=
  newline_notMem_of_printable (printable_eventText h)

theorem getLast?_eventText (event : Fields) : (eventText event).getLast? = some '}' := by
  rw [eventText, dumps, ← List.cons_append, List.getLast?_concat]

theorem strip_eventText (event : Fields) : strip (eventText event) = eventText event := by
  refine strip_eq_self (fun c hc => ?_) (fun c hc => ?_)
  · cases hc
    rfl
  · rw [getLast?_eventText] at hc
    cases hc
    rfl

/-- **The line of an event is a message for the broker.** -/
theorem isPayload_dumps (h : Canonical ft (.obj event)) : IsPayload (eventText event) :=
  ⟨rfl, getLast?_eventText event, newline_notMem_eventText h⟩

/-- **A line is read back.** -/
theorem loadLine_eventText (h : load (eventText event) = .value (.obj event)) :
    loadLine load (eventText event) = .value (.obj event) := by
  have hne : eventText event ≠ [] := List.cons_ne_nil _ _
  rw [loadLine, strip_eventText, if_neg hne, h]

theorem isAscii_eventLines {events : List Fields}
    (h : ∀ event ∈ events, Canonical ft (.obj event)) : IsAscii (eventLines events) := by
  intro c hc
  obtain ⟨line, hline, hc⟩ := List.mem_flatten.mp hc
  obtain ⟨event, hevent, rfl⟩ := List.mem_map.mp hline
  rcases List.mem_append.mp hc with hc | hc
  · exact isAscii_of_printable (printable_eventText (h event hevent)) c hc
  · rw [List.mem_singleton.mp hc]
    decide

theorem eventLines_cons (event : Fields) (events : List Fields) :
    eventLines (event :: events) = eventText event ++ '\n' :: eventLines events := by
  rw [eventLines, List.map_cons, List.flatten_cons, List.append_assoc]
  rfl

/-- The lines in the text of a list of events. -/
theorem splitLines_eventLines {events : List Fields}
    (h : ∀ event ∈ events, Canonical ft (.obj event)) :
    splitLines '\n' (eventLines events) = (events.map eventText, []) := by
  induction events with
  | nil => rfl
  | cons event events ih =>
    have hline := newline_notMem_eventText (h event List.mem_cons_self)
    rw [eventLines_cons, splitLines_line hline, ih fun e he => h e (List.mem_cons_of_mem _ he)]
    rfl

/-- **A proper end of a line is not the event.** -/
theorem loadLine_suffix_ne (h : Canonical ft (.obj event))
    (hread : ReadsLike ft load (eventText event)) {a s : Str} (ha : a ≠ [])
    (hs : eventText event = a ++ s) : loadLine load s ≠ .value (.obj event) := by
  intro hvalue
  rw [loadLine] at hvalue
  split_ifs at hvalue with hblank
  obtain ⟨l, r, hstrip, -, hr⟩ := exists_strip s
  have hpiece : strip s <:+: eventText event :=
    ⟨a ++ l, r, by rw [List.append_assoc, List.append_assoc, ← hstrip, hs]⟩
  have hload := hread _ hpiece _ hvalue
  have htext : dumps (.obj event) = (a ++ l) ++ (strip s ++ r) := by
    rw [List.append_assoc, ← hstrip]
    exact hs
  have hproper : a ++ l ≠ [] := fun he => ha (List.append_eq_nil_iff.mp he).1
  rcases PyJson.loads_piece h htext (.inl hproper) hload with hlt | ⟨hne, -⟩
  · exact absurd hlt (lt_irrefl _)
  · -- what is stripped behind the piece would end in the closing brace
    have hlast := getLast?_eventText event
    rw [eventText, htext, List.getLast?_append_of_ne_nil _ (by simp [hne]),
      List.getLast?_append_of_ne_nil _ hne] at hlast
    have := hr '}' (List.mem_of_getLast? hlast)
    exact absurd this (by decide)

end JobSystem
