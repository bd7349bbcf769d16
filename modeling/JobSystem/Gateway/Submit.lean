import JobSystem.Lib.JsonSpace
import JobSystem.EventBus.Framing

/-!
# Submissions

`POST /submit`: the validator of the gateway, what `process_client_socket` writes to the coordinator,
and what the event loop there publishes for it.

* `middlewareRequestValidator`, `processSubmit`;
* `Json.Same`: equal objects; `OneJob`: one submission is one job;
* `OneLine`, `CopyLine`, `EventOk`; **`submitted_once`**: when one submission is one job.
-/

namespace JobSystem

open PyText
open PyJson (Json FloatText Canonical Loaded Lawful dumps)

/-! ## The gateway -/

/-- `key in data`; `none` is the `TypeError`. -/
def isIn (key : Str) : Json → Option Bool
  | .obj fields => some (fields.lookup key).isSome
  | .arr xs => some (xs.any fun x => match x with | .str s => s = key | _ => false)
  | .str s => some (splitOnce key s).isSome
  | _ => none

/-- `json.loads(body.decode('utf-8'))`, every exception of which is caught. -/
def loadBody (load : Str → Loaded) (body : Bytes) : Option Json :=
  (decodeStrict body).bind fun s => (load s).value?

/-- A response with a JSON body. -/
def jsonResponse (status body : Str) : Str :=
  "HTTP/1.1 ".toList ++ (status ++ ("\r\nContent-Type: application/json\r\nContent-Length: ".toList ++
    (natStr body.length ++ ("\r\n\r\n".toList ++ body))))

/-- `middleware_request_validator`: the response to a request that does not pass. -/
def middlewareRequestValidator (load : Str → Loaded) (method path : Str) (body : Bytes) : Option Str :=
  if "/submit".toList <+: path ∧ method = "POST".toList then
    match (loadBody load body).bind (isIn "job_type".toList) with
    | some true => none
    | _ => some (jsonResponse "400 Bad Request".toList
        "\x7b\"error\": \"Bad Request: Invalid Job Payload\"\x7d".toList)
  else none

/-- `data[key] = value`: a new name goes last. -/
def setField (fields : Fields) (key : Str) (value : Json) : Fields :=
  match fields.lookup key with
  | some _ => fields.map fun f => if f.1 = key then (key, value) else f
  | none => fields ++ [(key, value)]

/-- The `try` block: the task id and the body that is forwarded. -/
def prepareSubmit (load : Str → Loaded) (uuid : Str) (body : Bytes) : Option Json × Bytes :=
  match loadBody load body with
  | some (.obj data) =>
    match data.lookup "id".toList with
    | some task_id => (some task_id, body)
    | none => (some (.str uuid), encodeUtf8 (eventText (setField data "id".toList (.str uuid))))
  | _ => (none, body)

/-- The connection to the coordinator: there is none, it raises after some bytes, or it takes all. -/
inductive BusConnection where
  | unavailable
  | raises (sent : ℕ) (detail : Str)
  | takes

/-- The answer to a submission. -/
inductive Answer where
  | unavailable
  | failed (detail : Str)
  | accepted (task_id : Option Json)

/-- The text of an answer; the error of a failed one comes without a content type. -/
def Answer.text : Answer → Str
  | unavailable => jsonResponse "503 Service Unavailable".toList
      "\x7b\"error\": \"Event Bus Unavailable\"\x7d".toList
  | failed detail =>
    let body := dumps (.obj [("error".toList, .str "Event Bus Forwarding Error".toList),
      ("detail".toList, .str detail)])
    "HTTP/1.1 500 Internal Server Error\r\nContent-Length: ".toList ++
      (natStr body.length ++ ("\r\n\r\n".toList ++ body))
  | accepted task_id => jsonResponse "202 Accepted".toList
      (dumps (.obj [("status".toList, .str "PENDING".toList), ("task_id".toList, task_id.getD .null),
        ("message".toList, .str "Task received and forwarded to Event Bus.".toList)]))

/-- The bytes that are forwarded. -/
def submitPayload (body : Bytes) : Bytes :=
  (if body = [] then encodeUtf8 "\x7b\"event\": \"ping\"\x7d".toList else body) ++ [10]

/-- `process_client_socket` for `/submit`: the answer, and what the coordinator is sent. -/
def processSubmit (load : Str → Loaded) (uuid : Str) (bus : BusConnection) (body : Bytes) :
    Answer × Option Bytes :=
  let r := prepareSubmit load uuid body
  match bus with
  | .unavailable => (.unavailable, none)
  | .raises sent detail => (.failed detail, some ((submitPayload r.2).take sent))
  | .takes => (.accepted r.1, some (submitPayload r.2))

/-! ## One job -/

/-- Equal values: the order of the fields of an object does not count. -/
inductive Json.Same : Json → Json → Prop
  | refl (v : Json) : Json.Same v v
  | arr {xs ys : List Json} (h : List.Forall₂ Json.Same xs ys) : Json.Same (.arr xs) (.arr ys)
  | obj {fields fields' : Fields} (hnames : (fields.map Prod.fst).Perm (fields'.map Prod.fst))
      (h : ∀ k v v', (k, v) ∈ fields → (k, v') ∈ fields' → Json.Same v v') :
      Json.Same (.obj fields) (.obj fields')

/-- What is published is one event, the submitted object, under the topic of submissions. -/
def OneJob (published published' : List Fields) (submitted : Fields) : Prop :=
  ∃ event, published' = published ++ [event] ∧ Json.Same (.obj event) (.obj submitted) ∧
    topicOf event = some (.str JOB_SUBMITTED)

/-- The field `event` does not choose another topic. -/
def EventOk (data : Fields) : Prop :=
  data.lookup "event".toList = none ∨ data.lookup "event".toList = some (.str JOB_SUBMITTED)

/-- The object is forwarded on one line: it is written anew, or came on one. -/
def OneLine (body : Bytes) (data : Fields) : Prop :=
  data.lookup "id".toList = none ∨ '\n' ∉ strip (decodeIgnore body)

/-- A line of a text on several lines is by itself the text of the object, and no other line is one
that is published, unless the `publish` of the first one raises. -/
def CopyLine (env : LoopEnv) (n : ℕ) (lines : List Bytes) (submitted : Fields) : Prop :=
  ∃ before line after event, lines = before ++ line :: after ∧
    (∀ l ∈ before, reading env.loads l = .blank) ∧ reading env.loads line = .publish event ∧
    Json.Same (.obj event) (.obj submitted) ∧
    (env.publishReturns n event = true → NoEvent env.loads after)

variable {ft : FloatText} {load : Str → Loaded}

theorem lookup_same {event data : Fields} (h : Json.Same (.obj event) (.obj data)) (key : Str) :
    (event.lookup key = none ↔ data.lookup key = none) ∧
      ∀ s, event.lookup key = some (.str s) ↔ data.lookup key = some (.str s) := by
  cases h with
  | refl => exact ⟨Iff.rfl, fun _ => Iff.rfl⟩
  | obj hnames hsame =>
    have hnone : event.lookup key = none ↔ data.lookup key = none := by
      rw [PyDict.lookup_eq_none_iff, PyDict.lookup_eq_none_iff, hnames.mem_iff]
    refine ⟨hnone, fun s => ⟨fun hs => ?_, fun hs => ?_⟩⟩
    · cases hv : data.lookup key with
      | none => rw [hnone.mpr hv] at hs; cases hs
      | some v =>
        have hval := hsame key _ v (PyDict.mem_of_lookup hs) (PyDict.mem_of_lookup hv)
        cases hval
        rfl
    · cases hv : event.lookup key with
      | none => rw [hnone.mp hv] at hs; cases hs
      | some v =>
        have hval := hsame key v _ (PyDict.mem_of_lookup hv) (PyDict.mem_of_lookup hs)
        cases hval
        rfl

theorem eventOk_same {event data : Fields} (h : Json.Same (.obj event) (.obj data)) :
    EventOk event ↔ EventOk data :=
  or_congr (lookup_same h _).1 ((lookup_same h _).2 _)

/-- **The topic of an event** that has a job type. -/
theorem topicOf_iff {event : Fields} (h : event.lookup "job_type".toList ≠ none) :
    topicOf event = some (.str JOB_SUBMITTED) ↔ EventOk event := by
  rw [topicOf, topicField, EventOk]
  cases event.lookup "event".toList with
  | none =>
    cases hjob : event.lookup "job_type".toList with
    | none => exact absurd hjob h
    | some v => exact ⟨fun _ => .inl rfl, fun _ => rfl⟩
  | some topic =>
    dsimp only
    constructor
    · intro ht
      split_ifs at ht
      exact .inr ht
    · rintro (ht | ht)
      · cases ht
      · cases ht
        rfl

/-! ## What is forwarded -/

theorem lookup_setField (fields : Fields) (key key' : Str) (value : Json) :
    (setField fields key value).lookup key' = if key' = key then some value else
      fields.lookup key' := by
  unfold setField
  cases hkey : fields.lookup key with
  | some v =>
    dsimp only
    rw [PyDict.lookup_map_set, hkey]
    rfl
  | none =>
    dsimp only
    rw [List.lookup_append]
    by_cases h : key' = key
    · rw [if_pos h, h, hkey, List.lookup_cons_self]
      rfl
    · have hb : (key' == key) = false := by simpa using h
      rw [if_neg h, List.lookup_cons, hb, List.lookup_nil, Option.or_none]

theorem setField_self {fields : Fields} (hnodup : (fields.map Prod.fst).Nodup) {key : Str}
    {value : Json} (h : fields.lookup key = some value) : setField fields key value = fields := by
  have hmem := PyDict.mem_of_lookup h
  unfold setField
  rw [h]
  refine (List.map_congr_left fun f hf => ?_).trans (List.map_id fields)
  split_ifs with hkey
  · exact (List.inj_on_of_nodup_map hnodup hf hmem hkey).symm
  · rfl

theorem canonical_setField {data : Fields} (h : Canonical ft (.obj data)) {key : Str}
    (hkey : data.lookup key = none) {value : Json} (hvalue : Canonical ft value) :
    Canonical ft (.obj (setField data key value)) := by
  have hset : setField data key value = data ++ [(key, value)] := by
    rw [setField, hkey]
  rw [hset]
  cases h with
  | obj hnodup hfields =>
    refine .obj ?_ fun f hf => ?_
    · rw [List.map_append, List.map_singleton, List.nodup_append]
      refine ⟨hnodup, List.nodup_singleton _, fun a ha b hb hab => ?_⟩
      have hak : a = key := hab.trans (List.mem_singleton.mp hb)
      rw [hak] at ha
      exact PyDict.lookup_eq_none_iff.mp hkey ha
    · rcases List.mem_append.mp hf with hf | hf
      · exact hfields f hf
      · rw [List.mem_singleton.mp hf]
        exact hvalue

/-- What an acknowledged submission has written. -/
theorem submitPayload_of_accepted {uuid : Str} {bus : BusConnection} {body payload : Bytes} {t : Json}
    (h : processSubmit load uuid bus body = (.accepted (some t), some payload)) :
    (prepareSubmit load uuid body).1 = some t ∧
      payload = submitPayload (prepareSubmit load uuid body).2 := by
  unfold processSubmit at h
  cases bus with
  | unavailable => cases (Prod.mk.inj h).1
  | raises sent detail => cases (Prod.mk.inj h).1
  | takes =>
    obtain ⟨hfirst, hsecond⟩ := Prod.mk.inj h
    exact ⟨Answer.accepted.inj hfirst, (Option.some.inj hsecond).symm⟩

/-- The bytes of a text get a newline. -/
theorem submitPayload_encodeUtf8 {T : Str} (hT : T ≠ []) :
    submitPayload (encodeUtf8 T) = encodeUtf8 T ++ [10] := by
  have hne : encodeUtf8 T ≠ [] := by
    intro hnil
    have hlen := length_le_length_encodeUtf8 T
    rw [hnil, List.length_nil] at hlen
    exact hT (List.length_eq_zero_iff.mp (Nat.le_zero.mp hlen))
  rw [submitPayload, if_neg hne]

/-- The text that is forwarded, on one line unless it came on several. -/
theorem exists_text (hlaw : Lawful ft load) {uuid : Str} {bus : BusConnection} {body payload : Bytes}
    {data : Fields} {t : Json} (hbody : loadBody load body = some (.obj data))
    (h202 : processSubmit load uuid bus body = (.accepted (some t), some payload))
    (hback : data.lookup "id".toList = none →
      load (eventText (setField data "id".toList t)) = .value (.obj (setField data "id".toList t))) :
    ∃ T, payload = encodeUtf8 T ++ [10] ∧
      load T = .value (.obj (setField data "id".toList t)) ∧
      ('\n' ∉ strip T ↔ OneLine body data) := by
  obtain ⟨text, htext, hvalue⟩ := Option.bind_eq_some_iff.mp hbody
  have hload := PyJson.Loaded.value?_eq_some.mp hvalue
  obtain ⟨hbytes, hdecode⟩ := decodeStrict_eq_some htext
  have hcanon := hlaw.canonical hload
  obtain ⟨hprepare, rfl⟩ := submitPayload_of_accepted h202
  rw [prepareSubmit, hbody] at hprepare ⊢
  dsimp only at hprepare ⊢
  cases hid : data.lookup "id".toList with
  | some task_id =>
    rw [hid] at hprepare
    cases hprepare
    have hnodup : (data.map Prod.fst).Nodup := by
      cases hcanon with
      | obj hnodup _ => exact hnodup
    have hne : text ≠ [] := by
      rintro rfl
      rw [hlaw.nil] at hload
      cases hload
    refine ⟨text, ?_, ?_, ?_⟩
    · dsimp only
      rw [hbytes, submitPayload_encodeUtf8 hne]
    · rw [setField_self hnodup hid, hload]
    · rw [OneLine, hid, hdecode]
      exact ⟨.inr, fun h => h.resolve_left (Option.some_ne_none _)⟩
  | none =>
    rw [hid] at hprepare
    cases hprepare
    have hnew := canonical_setField hcanon hid (.str uuid)
    refine ⟨eventText (setField data "id".toList (.str uuid)),
      submitPayload_encodeUtf8 (List.cons_ne_nil _ _), hback hid, iff_of_true ?_ (.inl hid)⟩
    rw [strip_eventText]
    exact newline_notMem_eventText hnew

/-! ## The lines of a text -/

theorem reading_blank {line : Str} (h : ∀ c ∈ line, isSpace c = true) :
    reading load (encodeUtf8 line) = .blank := by
  have hstrip : strip line = [] := by
    have := strip_append h (fun c hc => absurd hc List.not_mem_nil) []
    rwa [List.nil_append, List.append_nil] at this
  rw [reading, decodeIgnore_encodeUtf8_self, loadLine, if_pos hstrip]

/-- The lines of white space are blank. -/
theorem readings_blank {s : Str} (h : ∀ c ∈ s, isSpace c = true) :
    ∀ line ∈ (splitLines 10 (encodeUtf8 s)).1, reading load line = .blank := by
  intro line hline
  rw [splitLines_encodeUtf8] at hline
  obtain ⟨line', hline', rfl⟩ := List.mem_map.mp hline
  refine reading_blank fun c hc => h c ?_
  exact subset_of_mem_splitAll (List.mem_append_left _ hline') hc

theorem strip_strip (s : Str) : strip (strip s) = strip s := by
  obtain ⟨l, r, hs, hl, hr⟩ := exists_strip s
  have := strip_append hl hr (strip s)
  rw [← hs] at this
  exact this.symm

/-- The line with an object is published if its field `event` chooses no other topic. -/
theorem reading_publish (hnil : load [] = .notJson) {line : Str} {submitted : Fields}
    (hline : load (strip line) = .value (.obj submitted)) (hok : EventOk submitted) :
    reading load (encodeUtf8 line) = .publish submitted := by
  have hne : strip line ≠ [] := by
    intro hempty
    rw [hempty, hnil] at hline
    cases hline
  have hworker : workerId submitted = none := by
    have hfrom : fromWorker submitted = false := by
      rw [fromWorker]
      rcases hok with hok | hok
      · rw [hok]
      · rw [hok]
        rfl
    rw [workerId, hfrom]
    rfl
  rw [reading, decodeIgnore_encodeUtf8_self, loadLine, if_neg hne, hline]
  dsimp only
  rw [hworker]
  rfl

variable {env : LoopEnv} {n : ℕ}

/-- **A text on one line** is published as one event. -/
theorem eventsOf_oneLine (hlaw : Lawful ft env.loads) {T : Str} {submitted : Fields}
    (hT : env.loads T = .value (.obj submitted)) (hok : EventOk submitted) (hline : '\n' ∉ strip T) :
    eventsOf env n (splitLines 10 (encodeUtf8 T ++ [10])).1 = [submitted] := by
  obtain ⟨l, r, hstrip, hl, hr⟩ := exists_strip T
  have hcore := hlaw.strip hT
  have hidem := strip_strip T
  generalize strip T = core at hstrip hcore hline hidem
  have hrn : ∀ c ∈ r ++ ['\n'], isSpace c = true := by
    intro c hc
    rcases List.mem_append.mp hc with hc | hc
    · exact hr c hc
    · rw [List.mem_singleton.mp hc]
      rfl
  have hmem : '\n' ∈ r ++ ['\n'] := List.mem_append_right _ (List.mem_singleton_self _)
  obtain ⟨r₁, r₂, hsplit, hr₁⟩ := List.eq_append_cons_of_mem hmem
  have htext : encodeUtf8 T ++ [10] = encodeUtf8 (l ++ (core ++ (r₁ ++ '\n' :: r₂))) := by
    rw [← hsplit, ← List.append_assoc core, ← List.append_assoc l, ← hstrip, encodeUtf8_append]
    rfl
  -- the object stands on one line with the spaces next to it
  have hl' : ∀ c ∈ (splitLines '\n' l).2, isSpace c = true := fun c hc =>
    hl c (subset_of_mem_splitAll (List.mem_append_right _ (List.mem_singleton_self _)) hc)
  have hmiddle : '\n' ∉ (splitLines '\n' l).2 ++ (core ++ r₁) := by
    rw [List.mem_append, List.mem_append, not_or, not_or]
    exact ⟨sep_notMem_rest '\n' l, hline, hr₁⟩
  have hlines : (splitLines '\n' (l ++ (core ++ (r₁ ++ '\n' :: r₂)))).1 = (splitLines '\n' l).1 ++
      ((splitLines '\n' l).2 ++ (core ++ r₁)) :: (splitLines '\n' r₂).1 := by
    rw [splitLines_append]
    have hassoc : (splitLines '\n' l).2 ++ (core ++ (r₁ ++ '\n' :: r₂)) =
        ((splitLines '\n' l).2 ++ (core ++ r₁)) ++ '\n' :: r₂ := by
      simp only [List.append_assoc]
    rw [hassoc, splitLines_line hmiddle]
  have hspaces : ∀ s : Str, (∀ c ∈ s, isSpace c = true) →
      ∀ line ∈ (splitLines '\n' s).1.map encodeUtf8, reading env.loads line = .blank := by
    intro s hs line hmem
    refine readings_blank hs line ?_
    rwa [splitLines_encodeUtf8]
  rw [htext, splitLines_encodeUtf8, hlines, List.map_append, List.map_cons,
    eventsOf_eq_singleton_iff]
  refine ⟨_, _, _, rfl, hspaces l hl, reading_publish hlaw.nil ?_ hok,
    fun _ => noEvent_of_blank (hspaces r₂ ?_)⟩
  · have hr₁' : ∀ c ∈ r₁, isSpace c = true := fun c hc =>
      hrn c (hsplit ▸ List.mem_append_left _ hc)
    rw [strip_append hl' hr₁', hidem, hcore]
  · intro c hc
    exact hrn c (hsplit ▸ List.mem_append_right _ (List.mem_cons_of_mem _ hc))

/-- A byte of a letter is no white space. -/
theorem letter_notMem_encodeUtf8 {s : Str} (h : ∀ c ∈ s, isSpace c = true) {b : UInt8}
    (hb : b = 71 ∨ b = 72) : b ∉ encodeUtf8 s := by
  rcases hb with rfl | rfl
  · exact notMem_encodeUtf8 (c := 'G') (by decide) fun hc => absurd (h _ hc) (by decide)
  · exact notMem_encodeUtf8 (c := 'H') (by decide) fun hc => absurd (h _ hc) (by decide)

/-- **Before a health check inside the text** no line with anything on it is complete. -/
theorem eventsOf_before_letter {T : Str} (hline : '\n' ∉ strip T) {pre rest : Bytes} {b : UInt8}
    (hb : b = 71 ∨ b = 72) (h : encodeUtf8 T ++ [10] = pre ++ b :: rest) :
    eventsOf env n (splitLines 10 pre).1 = [] := by
  obtain ⟨l, r, hstrip, hl, hr⟩ := exists_strip T
  generalize strip T = core at hstrip hline
  have hblank : ∀ pre : Bytes, (splitLines 10 pre).1 <+: (splitLines 10 (encodeUtf8 l)).1 →
      eventsOf env n (splitLines 10 pre).1 = [] := by
    intro pre hfront
    rw [eventsOf_eq_nil_iff]
    exact noEvent_of_blank fun line hmem => readings_blank hl line (hfront.subset hmem)
  have htext : encodeUtf8 T ++ [10] =
      encodeUtf8 l ++ (encodeUtf8 core ++ (encodeUtf8 r ++ [10])) := by
    rw [hstrip, encodeUtf8_append, encodeUtf8_append]
    simp only [List.append_assoc]
  rw [htext] at h
  rcases List.append_eq_append_iff.mp h with ⟨q, rfl, hq⟩ | ⟨q, hq, -⟩
  · -- the letter stands in the object
    rcases List.append_eq_append_iff.mp hq with ⟨q', rfl, hq'⟩ | ⟨q', hq', -⟩
    · exfalso
      have hmem : b ∈ encodeUtf8 r ++ [10] := by
        rw [hq']
        exact List.mem_append_right _ List.mem_cons_self
      rcases List.mem_append.mp hmem with hmem | hmem
      · exact letter_notMem_encodeUtf8 hr hb hmem
      · rw [List.mem_singleton.mp hmem] at hb
        exact absurd hb (by decide)
    · have hno : 10 ∉ (splitLines 10 (encodeUtf8 l)).2 ++ q := by
        rw [List.mem_append, not_or]
        refine ⟨sep_notMem_rest 10 _, fun hm => newline_notMem_encodeUtf8 hline ?_⟩
        rw [hq']
        exact List.mem_append_left _ hm
      refine hblank _ ?_
      rw [splitLines_append, splitLines_of_notMem hno, List.append_nil]
  · refine hblank _ ?_
    rw [hq, splitLines_append]
    exact List.prefix_append _ _

theorem exists_letter {chunk : Bytes} (h : IsHttp chunk) :
    ∃ b rest, (b = 71 ∨ b = 72) ∧ chunk = b :: rest := by
  rcases h with ⟨rest, rfl⟩ | ⟨rest, rfl⟩
  · exact ⟨71, _, .inl rfl, rfl⟩
  · exact ⟨72, _, .inr rfl, rfl⟩

section OneJob

variable {κ : Type} [DecidableEq κ] {l : EventLoop κ} {conn : κ}

/-- **When a text is one job.** -/
theorem oneJob_iff (hlaw : Lawful ft env.loads) {T : Str} {submitted : Fields}
    (hT : env.loads T = .value (.obj submitted))
    (hjob : submitted.lookup "job_type".toList ≠ none) {chunks : List Bytes}
    (hsplit : SplitOf (encodeUtf8 T ++ [10]) chunks) (hopen : l.closed conn = false)
    (hbuffer : (l.buffers.get? conn).getD [] = []) :
    OneJob l.published (l.serve env conn chunks).published submitted ↔
      EventOk submitted ∧ ('\n' ∉ strip T ∧ (∀ chunk ∈ chunks, ¬ IsHttp chunk) ∨
        '\n' ∈ strip T ∧ CopyLine env l.published.length
          (splitLines 10 (chunks.takeWhile fun chunk => ¬ IsHttp chunk).flatten).1 submitted) := by
  have hsame : ∀ {event}, Json.Same (.obj event) (.obj submitted) →
      (topicOf event = some (.str JOB_SUBMITTED) ↔ EventOk submitted) := by
    intro event h
    rw [topicOf_iff fun hnone => hjob ((lookup_same h _).1.mp hnone), eventOk_same h]
  rw [OneJob, EventLoop.serve_published hopen hbuffer hsplit.1]
  constructor
  · rintro ⟨event, hevents, hequal, htopic⟩
    have hevents := List.append_cancel_left hevents
    refine ⟨(hsame hequal).mp htopic, ?_⟩
    by_cases hline : '\n' ∈ strip T
    · obtain ⟨before, line, after, hlines, hbefore, hpublish, hafter⟩ :=
        eventsOf_eq_singleton_iff.mp hevents
      exact .inr ⟨hline, before, line, after, event, hlines, hbefore, hpublish, hequal, hafter⟩
    · refine .inl ⟨hline, ?_⟩
      rcases exists_stop_or_quiet IsHttp chunks with
        hquiet | ⟨before, chunk, after, rfl, hhttp, hquiet⟩
      · exact hquiet
      · exfalso
        obtain ⟨b, rest, hb, rfl⟩ := exists_letter hhttp
        have hbytes : encodeUtf8 T ++ [10] = before.flatten ++ b :: (rest ++ after.flatten) := by
          rw [← hsplit.2, List.flatten_append, List.flatten_cons, List.cons_append]
        rw [takeWhile_of_stop hquiet hhttp, eventsOf_before_letter hline hb hbytes] at hevents
        cases hevents
  · rintro ⟨hok, ⟨hline, hquiet⟩ | ⟨-, before, line, after, event, hlines, hbefore, hpublish, hequal,
      hafter⟩⟩
    · refine ⟨submitted, ?_, .refl _, (hsame (.refl _)).mpr hok⟩
      rw [takeWhile_of_quiet hquiet, hsplit.2, eventsOf_oneLine hlaw hT hok hline]
    · refine ⟨event, ?_, hequal, (hsame hequal).mpr hok⟩
      rw [eventsOf_eq_singleton_iff.mpr ⟨before, line, after, hlines, hbefore, hpublish, hafter⟩]

/-- **When one submission is one job.** -/
theorem submitted_once (hlaw : Lawful ft env.loads) {uuid : Str} {bus : BusConnection}
    {body payload : Bytes} {data : Fields} {t : Json}
    (hbody : loadBody env.loads body = some (.obj data))
    (hvalid : middlewareRequestValidator env.loads "POST".toList "/submit".toList body = none)
    (h202 : processSubmit env.loads uuid bus body = (.accepted (some t), some payload))
    (hback : data.lookup "id".toList = none → env.loads (eventText (setField data "id".toList t)) =
      .value (.obj (setField data "id".toList t)))
    {chunks : List Bytes} (hsplit : SplitOf payload chunks) (hopen : l.closed conn = false)
    (hbuffer : (l.buffers.get? conn).getD [] = []) :
    OneJob l.published (l.serve env conn chunks).published (setField data "id".toList t) ↔
      EventOk data ∧ (OneLine body data ∧ (∀ chunk ∈ chunks, ¬ IsHttp chunk) ∨
        ¬ OneLine body data ∧ CopyLine env l.published.length
          (splitLines 10 (chunks.takeWhile fun chunk => ¬ IsHttp chunk).flatten).1
          (setField data "id".toList t)) := by
  obtain ⟨T, rfl, hT, hline⟩ := exists_text hlaw hbody h202 hback
  have hevent : EventOk (setField data "id".toList t) ↔ EventOk data := by
    have hne : "event".toList ≠ "id".toList := by decide
    rw [EventOk, EventOk, lookup_setField, if_neg hne]
  have hjob : (setField data "id".toList t).lookup "job_type".toList ≠ none := by
    have hne : "job_type".toList ≠ "id".toList := by decide
    rw [lookup_setField, if_neg hne]
    intro hnone
    have hin : (loadBody env.loads body).bind (isIn "job_type".toList) = some false := by
      rw [hbody, Option.bind_some, isIn, hnone]
      rfl
    rw [middlewareRequestValidator, if_pos ⟨List.prefix_refl _, rfl⟩, hin] at hvalid
    cases hvalid
  rw [oneJob_iff hlaw hT hjob hsplit hopen hbuffer, hevent, hline, ← not_iff_not.mpr hline, not_not]

/-- An event loop that has just accepted its connections. -/
def freshLoop : EventLoop Unit := ⟨∅, [], [], [], fun _ => false⟩

/-- The fields of a submission. -/
def plainData : Fields := [("job_type".toList, .str ['x']), ("id".toList, .str ['1'])]

/-- A submission on one line. -/
def plainBody : Bytes := encodeUtf8 "\x7b\"job_type\": \"x\", \"id\": \"1\"\x7d".toList

theorem submitted_once_plain : OneJob [] (freshLoop.serve libraryEnv () [plainBody ++ [10]]).published
    (setField plainData "id".toList (.str ['1'])) := by
  have hbody : loadBody libraryEnv.loads plainBody = some (.obj plainData) := rfl
  have h202 : processSubmit libraryEnv.loads [] .takes plainBody =
      (.accepted (some (.str ['1'])), some (plainBody ++ [10])) := rfl
  have hline : '\n' ∉ strip (decodeIgnore plainBody) := by decide
  have hquiet : ∀ chunk ∈ [plainBody ++ [10]], ¬ IsHttp chunk := by
    intro chunk hchunk
    rw [List.mem_singleton.mp hchunk]
    decide
  have hlaw : Lawful .verbatim libraryEnv.loads := PyJson.lawful_library .verbatim
  exact (submitted_once (l := freshLoop) hlaw hbody rfl h202 (fun hid => by cases hid)
    (splitOf_singleton (List.append_ne_nil_of_right_ne_nil _ (List.cons_ne_nil _ _))) rfl rfl).mpr
    ⟨.inl rfl, .inl ⟨.inr hline, hquiet⟩⟩

/-- The same submission on two lines. -/
def prettyBody : Bytes := encodeUtf8 "\x7b\"job_type\": \"x\",\n\"id\": \"1\"\x7d".toList

theorem lost_on_two_lines : ¬ ∀ (uuid : Str) (body payload : Bytes) (data : Fields) (t : Json)
    (chunks : List Bytes), loadBody libraryEnv.loads body = some (.obj data) →
    middlewareRequestValidator libraryEnv.loads "POST".toList "/submit".toList body = none →
    processSubmit libraryEnv.loads uuid .takes body = (.accepted (some t), some payload) →
    SplitOf payload chunks → OneJob [] (freshLoop.serve libraryEnv () chunks).published
      (setField data "id".toList t) := by
  intro h
  have hbody : loadBody libraryEnv.loads prettyBody = some (.obj plainData) := rfl
  have h202 : processSubmit libraryEnv.loads [] .takes prettyBody =
      (.accepted (some (.str ['1'])), some (prettyBody ++ [10])) := rfl
  obtain ⟨event, hpublished, -⟩ := h [] prettyBody (prettyBody ++ [10]) plainData (.str ['1']) _
    hbody rfl h202
    (splitOf_singleton (List.append_ne_nil_of_right_ne_nil _ (List.cons_ne_nil _ _)))
  have hnone : (freshLoop.serve libraryEnv () [prettyBody ++ [10]]).published = [] := rfl
  rw [hnone] at hpublished
  cases hpublished

end OneJob

end JobSystem
