import JobSystem.EventBus.EventLine

/-!
# The subscriber loop

`InternalEventBus._subscriber_loop` on one connection: the first `recv` is taken for the answer to
`SUB`, and the rest of the stream is read line by line. What the first `recv` returns behind the
answer is dropped.

* `subscriberLoop`, `readEvents`; **`readEvents_eq`**: the pieces of an ASCII stream;
* `subscribedStream`: the answer and the events;
* **`subscriber_sees_all`**: every event is handled exactly if there is none, or the first piece ends
  between the `+OK` and the end of the answer.
-/

namespace JobSystem

open PyText
open PyJson (Json FloatText Canonical Loaded library)

/-- What the handler is called with for a line; what `json.loads` raises is caught. -/
def lineEvent (load : Str → Loaded) (line : Str) : Option Json := (loadLine load line).value?

/-- The loop over the pieces that `recv` returns; an empty one is the end. -/
def readEvents (load : Str → Loaded) : Str → List Bytes → List Json
  | _, [] => []
  | buffer, chunk :: chunks =>
    if chunk = [] then []
    else
      let lines := splitLines '\n' (buffer ++ decodeIgnore chunk)
      lines.1.filterMap (lineEvent load) ++ readEvents load lines.2 chunks

/-- The events that `handler_func` is called with. -/
def subscriberLoop (load : Str → Loaded) : List Bytes → List Json
  | [] => []
  | resp :: chunks =>
    if encodeUtf8 ['+', 'O', 'K'] <+: resp then readEvents load [] chunks else []

/-- `"+OK Subscribed\n"` -/
def subscribedAnswer : Str := "+OK Subscribed\n".toList

/-- What the broker sends to a subscriber. -/
def subscribedStream (events : List Fields) : Bytes :=
  encodeUtf8 (subscribedAnswer ++ eventLines events)

/-- `json.loads` reads the events, and knows that no end of the answer is JSON. -/
structure ReadsEvents (ft : FloatText) (load : Str → Loaded) (events : List Fields) : Prop where
  event : ∀ event ∈ events, ReadsEvent ft load event
  answer : ∀ p, p <:+ "Subscribed".toList → ∀ v, load p ≠ .value v

variable {ft : FloatText} {load : Str → Loaded}

/-- The `json.loads` without limits. -/
theorem readsEvents_library {events : List Fields}
    (h : ∀ event ∈ events, Canonical ft (.obj event)) : ReadsEvents ft (library ft) events where
  event event hevent := readsEvent_library (h event hevent)
  answer p hp v hv := by
    have hnone : ∀ n ≤ 10, PyJson.loads ft ("Subscribed".toList.drop n) = none := by
      intro n hn
      interval_cases n <;> rfl
    have hload := hnone ("Subscribed".toList.length - p.length) (Nat.sub_le _ _)
    rw [← List.suffix_iff_eq_drop.mp hp, PyJson.library_eq_value.mp hv] at hload
    cases hload

/-- **The pieces of a stream are read like the whole stream.** -/
theorem readEvents_eq {buffer : Str} (hbuffer : '\n' ∉ buffer) {chunks : List Bytes}
    (hne : ∀ chunk ∈ chunks, chunk ≠ []) {s : Str} (hs : IsAscii s)
    (h : chunks.flatten = encodeUtf8 s) :
    readEvents load buffer chunks =
      (splitLines '\n' (buffer ++ s)).1.filterMap (lineEvent load) := by
  obtain ⟨ts, rfl, rfl⟩ := exists_pieces hs h
  rw [← feedLines_eq hbuffer]
  clear h hs
  induction ts generalizing buffer with
  | nil => rfl
  | cons t ts ih =>
    have ht : encodeUtf8 t ≠ [] := hne _ List.mem_cons_self
    have ih' := ih (sep_notMem_rest '\n' (buffer ++ t)) fun c hc => hne c (List.mem_cons_of_mem _ hc)
    rw [List.map_cons, readEvents, if_neg ht, decodeIgnore_encodeUtf8_self]
    simp only [feedLines, List.filterMap_append, ih']

/-- No end of the answer is an event. -/
theorem loadLine_answer (hanswer : ∀ p, p <:+ "Subscribed".toList → ∀ v, load p ≠ .value v) {n : ℕ}
    (h : 3 ≤ n) : lineEvent load ("+OK Subscribed".toList.drop n) = none := by
  have hstrip : ∀ n, 3 ≤ n → n ≤ 14 →
      strip ("+OK Subscribed".toList.drop n) <:+ "Subscribed".toList := by
    intro n h hn
    interval_cases n <;> decide
  have hsuffix : strip ("+OK Subscribed".toList.drop n) <:+ "Subscribed".toList := by
    rcases Nat.le_total n 14 with hn | hn
    · exact hstrip n h hn
    · have hnil : "+OK Subscribed".toList.drop n = [] := List.drop_eq_nil_of_le (by simpa using hn)
      rw [hnil]
      exact List.nil_suffix
  rw [Option.eq_none_iff_forall_ne_some]
  intro v hv
  rw [lineEvent, PyJson.Loaded.value?_eq_some, loadLine] at hv
  split_ifs at hv
  exact hanswer _ hsuffix v hv

/-- The lines behind a first piece that ends inside the answer. -/
theorem lines_of_answer {n : ℕ} (h : 3 ≤ n) (hn : n ≤ 15) {events : List Fields}
    (hevents : ∀ event ∈ events, Canonical ft (.obj event)) (hread : ReadsEvents ft load events) :
    (splitLines '\n' ((subscribedAnswer ++ eventLines events).drop n)).1.filterMap (lineEvent load) =
      events.map Json.obj := by
  have hlines : (events.map eventText).filterMap (lineEvent load) = events.map Json.obj := by
    rw [List.filterMap_map, ← List.filterMap_eq_map']
    refine List.filterMap_congr fun event hevent => ?_
    rw [Function.comp_apply, lineEvent, loadLine_eventText (hread.event event hevent).whole]
    rfl
  have hsplit : subscribedAnswer ++ eventLines events =
      "+OK Subscribed".toList ++ '\n' :: eventLines events := rfl
  rcases Nat.lt_or_ge n 15 with hlt | hge
  · have hline : '\n' ∉ "+OK Subscribed".toList.drop n := by
      intro hm
      exact absurd (List.mem_of_mem_drop hm) (by decide)
    have hlen : n ≤ "+OK Subscribed".toList.length := Nat.lt_succ_iff.mp hlt
    rw [hsplit, List.drop_append_of_le_length hlen, splitLines_line hline,
      splitLines_eventLines hevents, List.filterMap_cons_none (loadLine_answer hread.answer h), hlines]
  · obtain rfl : n = 15 := le_antisymm hn hge
    have hdrop : (subscribedAnswer ++ eventLines events).drop 15 = eventLines events := rfl
    rw [hdrop, splitLines_eventLines hevents, hlines]

/-- Lines that are cut are too few, or the first one is not its event. -/
theorem lines_of_events {events : List Fields}
    (hevents : ∀ event ∈ events, Canonical ft (.obj event)) (hread : ReadsEvents ft load events)
    (hne : events ≠ []) {n : ℕ} (hn : 0 < n) :
    (splitLines '\n' ((eventLines events).drop n)).1.filterMap (lineEvent load) ≠
      events.map Json.obj := by
  obtain ⟨event, events, rfl⟩ := List.exists_cons_of_ne_nil hne
  have hcanon := hevents event List.mem_cons_self
  have hrest : ∀ e ∈ events, Canonical ft (.obj e) := fun e he =>
    hevents e (List.mem_cons_of_mem _ he)
  intro heq
  rw [eventLines_cons] at heq
  rcases Nat.lt_or_ge (eventText event).length n with hlt | hge
  · -- the newline of the first event is gone
    have hcount : (splitLines '\n' ((eventText event ++ '\n' :: eventLines events).drop n)).1.length ≤
        events.length := by
      obtain ⟨m, rfl⟩ := Nat.exists_eq_add_of_lt hlt
      have hdrop : (eventText event ++ '\n' :: eventLines events).drop
          ((eventText event).length + m + 1) = (eventLines events).drop m := by
        rw [Nat.add_assoc, List.drop_append, List.drop_eq_nil_of_le (by omega), List.nil_append,
          Nat.add_sub_cancel_left, List.drop_succ_cons]
      rw [hdrop, length_splitLines]
      refine ((List.drop_sublist m _).count_le '\n').trans ?_
      rw [← length_splitLines, splitLines_eventLines hrest, List.length_map]
    have hlen := congrArg List.length heq
    have hle := List.length_filterMap_le (lineEvent load)
      (splitLines '\n' ((eventText event ++ '\n' :: eventLines events).drop n)).1
    rw [List.length_map, List.length_cons] at hlen
    omega
  · have hline : '\n' ∉ (eventText event).drop n := fun hm =>
      newline_notMem_eventText hcanon (List.mem_of_mem_drop hm)
    rw [List.drop_append_of_le_length hge, splitLines_line hline, splitLines_eventLines hrest] at heq
    cases hload : lineEvent load ((eventText event).drop n) with
    | none =>
      rw [List.filterMap_cons_none hload] at heq
      have hlen := congrArg List.length heq
      have hle := List.length_filterMap_le (lineEvent load)
        (events.map eventText)
      simp only [List.length_map, List.length_cons] at hlen hle
      omega
    | some v =>
      rw [List.filterMap_cons_some hload, List.map_cons] at heq
      have htake : (eventText event).take n ≠ [] := by
        intro he
        have hlen := congrArg List.length he
        rw [List.length_take, List.length_nil, Nat.min_eq_left hge] at hlen
        omega
      refine loadLine_suffix_ne hcanon (hread.event event List.mem_cons_self).pieces htake
        (List.take_append_drop n _).symm ?_
      rw [PyJson.Loaded.value?_eq_some.mp hload, (List.cons.inj heq).1]

/-- The lines behind a first piece are the events exactly if it ends in the answer, or there is none. -/
theorem lines_of_drop_iff {n : ℕ} (h : 3 ≤ n) {events : List Fields}
    (hevents : ∀ event ∈ events, Canonical ft (.obj event)) (hread : ReadsEvents ft load events) :
    (splitLines '\n' ((subscribedAnswer ++ eventLines events).drop n)).1.filterMap (lineEvent load) =
      events.map Json.obj ↔ events = [] ∨ n ≤ subscribedAnswer.length := by
  by_cases hle : n ≤ subscribedAnswer.length
  · exact iff_of_true (lines_of_answer h hle hevents hread) (.inr hle)
  · have hbehind : (subscribedAnswer ++ eventLines events).drop n =
        (eventLines events).drop (n - subscribedAnswer.length) := by
      rw [List.drop_append, List.drop_eq_nil_of_le (Nat.le_of_not_le hle), List.nil_append]
    rw [hbehind, or_iff_left hle]
    constructor
    · intro heq
      by_contra hnil
      exact lines_of_events hevents hread hnil (by omega) heq
    · rintro rfl
      have hempty : (eventLines []).drop (n - subscribedAnswer.length) = [] := List.drop_nil
      rw [hempty]
      rfl

/-! ## The loop by its first piece -/

/-- A first piece is taken for the answer if it has three characters. -/
theorem isPrefix_ok_iff {t rest s : Str} (h : t ++ rest = subscribedAnswer ++ s) (ht : IsAscii t) :
    encodeUtf8 ['+', 'O', 'K'] <+: encodeUtf8 t ↔ 3 ≤ t.length := by
  constructor
  · intro hok
    have hle := hok.length_le
    rwa [(length_encodeUtf8_eq_iff t).mpr ht] at hle
  · intro hlen
    obtain ⟨k, hk⟩ := Nat.exists_eq_add_of_le hlen
    have htake : t = (subscribedAnswer ++ s).take t.length := by rw [← h, List.take_left]
    rw [hk, Nat.add_comm] at htake
    have hthree : t = ['+', 'O', 'K'] ++ (" Subscribed\n".toList ++ s).take k := htake
    rw [hthree, encodeUtf8_append]
    exact List.prefix_append _ _

/-- **The pieces of a front of the stream**: behind an answer, the lines of the others are read. -/
theorem subscriberLoop_pieces {t rest s : Str} {ts : List Str}
    (hascii : IsAscii (subscribedAnswer ++ s))
    (h : t ++ (ts.flatten ++ rest) = subscribedAnswer ++ s)
    (hne : ∀ chunk ∈ ts.map encodeUtf8, chunk ≠ []) :
    subscriberLoop load (encodeUtf8 t :: ts.map encodeUtf8) =
      if 3 ≤ t.length then (splitLines '\n' ts.flatten).1.filterMap (lineEvent load) else [] := by
  have hparts := isAscii_append.mp (h ▸ hascii)
  rw [subscriberLoop, readEvents_eq List.not_mem_nil hne (isAscii_append.mp hparts.2).1
    (flatten_map_encodeUtf8 ts), List.nil_append]
  exact if_congr (isPrefix_ok_iff h hparts.1) rfl rfl

/-- The first piece ends between the `+OK` and the end of the answer. -/
def EndsInAnswer : List Bytes → Prop
  | [] => False
  | resp :: _ => 3 ≤ resp.length ∧ resp.length ≤ subscribedAnswer.length

/-- **When a subscriber sees every event sent to it.** -/
theorem subscriber_sees_all {events : List Fields}
    (hevents : ∀ event ∈ events, Canonical ft (.obj event)) (hread : ReadsEvents ft load events)
    {chunks : List Bytes} (hne : ∀ chunk ∈ chunks, chunk ≠ [])
    (h : chunks.flatten = subscribedStream events) :
    subscriberLoop load chunks = events.map Json.obj ↔ events = [] ∨ EndsInAnswer chunks := by
  have hascii : IsAscii (subscribedAnswer ++ eventLines events) :=
    isAscii_append.mpr ⟨(length_encodeUtf8_eq_iff _).mp rfl, isAscii_eventLines hevents⟩
  obtain ⟨ts, rfl, hts⟩ := exists_pieces hascii h
  cases ts with
  | nil =>
    exfalso
    rw [List.flatten_nil] at hts
    exact List.cons_ne_nil _ _ hts.symm
  | cons t ts =>
    have hflat : t ++ (ts.flatten ++ []) = subscribedAnswer ++ eventLines events := by
      rw [List.append_nil, ← List.flatten_cons, hts]
    have hlen : (encodeUtf8 t).length = t.length :=
      (length_encodeUtf8_eq_iff t).mpr (isAscii_append.mp (hflat ▸ hascii)).1
    have hdrop : ts.flatten = (subscribedAnswer ++ eventLines events).drop t.length := by
      rw [← hflat, List.drop_left, List.append_nil]
    rw [List.map_cons, subscriberLoop_pieces hascii hflat fun c hc =>
      hne c (List.mem_cons_of_mem _ hc), hdrop]
    simp only [EndsInAnswer, hlen]
    by_cases hok : 3 ≤ t.length
    · rw [if_pos hok, lines_of_drop_iff hok hevents hread, and_iff_right hok]
    · rw [if_neg hok]
      constructor
      · exact fun hnil => .inl (List.map_eq_nil_iff.mp hnil.symm)
      · rintro (rfl | h)
        · rfl
        · exact absurd h.1 hok

/-- A completed job. -/
def completedEvent : Fields := [("event".toList, .str "JOB_COMPLETED".toList)]

theorem canonical_completedEvent :
    ∀ event ∈ [completedEvent], Canonical FloatText.verbatim (.obj event) := by
  intro event hevent
  rw [List.mem_singleton.mp hevent]
  refine .obj (List.nodup_singleton _) fun f hf => ?_
  rw [List.mem_singleton.mp hf]
  exact .str _

theorem subscriber_sees_all_apart :
    subscriberLoop (library .verbatim)
        [encodeUtf8 subscribedAnswer, encodeUtf8 (eventLines [completedEvent])] =
      [completedEvent].map Json.obj :=
  (subscriber_sees_all canonical_completedEvent (readsEvents_library canonical_completedEvent)
    (by
      intro chunk hchunk
      simp only [List.mem_cons, List.not_mem_nil, or_false] at hchunk
      rcases hchunk with rfl | rfl <;> exact List.cons_ne_nil _ _)
    (by simp [subscribedStream])).mpr (.inr ⟨by decide, by decide⟩)

/-- An event in the same piece as the answer is lost. -/
theorem lost_behind_answer : ¬ ∀ (events : List Fields) (chunks : List Bytes),
    (∀ event ∈ events, Canonical FloatText.verbatim (.obj event)) →
    (∀ chunk ∈ chunks, chunk ≠ []) → chunks.flatten = subscribedStream events →
    subscriberLoop (library .verbatim) chunks = events.map Json.obj := by
  intro h
  have hall := h [completedEvent] [subscribedStream [completedEvent]] canonical_completedEvent
    (fun chunk hchunk => by
      rw [List.mem_singleton.mp hchunk]
      exact List.cons_ne_nil _ _) (List.append_nil _)
  rw [subscriberLoop] at hall
  split_ifs at hall <;> exact List.cons_ne_nil _ _ hall.symm

end JobSystem
