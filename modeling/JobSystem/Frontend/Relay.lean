import JobSystem.Frontend.App

/-!
# From the browser to the coordinator and back

The front end and the gateway talk over a connection that delivers the request and the response in any
pieces.

* `dial`: a connection to a gateway;
* `readResponse_eq`, `relay_text`: what the front end reads off a response;
* `submitReply`; **`passes_on`**: the browser gets the code and the body of the gateway's response;
* `Agree`; `parse_request`, `parse_submit`: what the gateway reads off a request;
* **`browser_submits`**: a submission reaches the coordinator as one event;
* **`browser_asks`**: when a status query returns a record.
-/

namespace JobSystem

open PyText TokenBucket
open PyJson (Json Canonical Console FloatText Lawful library dumps)

namespace Frontend

/-- A connection to a gateway: it reads the request in pieces of these lengths, and what it answers
comes back in pieces of those. -/
def dial (g : Gateway) (client_ip : Str) (now : ℚ) (buckets : Buckets) (sizes sizes' : List ℕ) : Dial :=
  fun request =>
    .ok ⟨encodeUtf8 (g.processClientSocket client_ip now buckets ⟨request, sizes⟩).1, sizes'⟩

/-! ## Responses -/

/-- **The whole response is read**, however it comes. -/
theorem readResponse_eq (conn : Conn) : readResponse conn = conn.incoming := by
  obtain ⟨p, hread, hbytes, hdone, -⟩ := @Conn.readWhile_spec (fun _ => 4096) _ [] conn
    (Nat.lt_succ_self conn.incoming.length)
  have hend := hdone.resolve_left (by decide)
  rw [hend, List.append_nil] at hbytes
  rw [readResponse, hread, hbytes, List.nil_append]

/-- `int` reads a number back if it is not too long. -/
theorem toInt_natStr {max_str_digits n : ℕ}
    (h : max_str_digits = 0 ∨ (natStr n).length ≤ max_str_digits) :
    toInt max_str_digits (natStr n) = some (n : ℤ) := by
  have hcount := List.countP_le_length (p := fun c => (digitValue c).isSome) (l := natStr n)
  rw [toInt, if_neg (by omega), parseInt_natStr]

/-- The second field of a status line. -/
theorem code_of_statusLine (r : HttpResponse) :
    (split " ".toList r.statusLine)[1]? = some (natStr r.code) := by
  have hspace : ' ' ∉ natStr r.code := notMem_natStr (by decide) r.code
  have hsep : " ".toList = [' '] := rfl
  have hline : r.statusLine =
      "HTTP/1.1".toList ++ (" ".toList ++ (natStr r.code ++ (" ".toList ++ r.reason))) := rfl
  have hlong : 2 ≤ r.statusLine.length := by
    rw [hline, List.length_append]
    exact (by decide : 2 ≤ "HTTP/1.1".toList.length).trans (Nat.le_add_right _ _)
  obtain ⟨n, hn⟩ := Nat.exists_eq_add_of_le' hlong
  rw [split, hn, hline, splitMax_append hsep (by decide), splitMax_append hsep hspace]
  rfl

/-- **A response of the gateway is read**: its code and its body. -/
theorem relay_text (cfg : Config) {r : HttpResponse} (hr : r.Ok) (hcode : r.code ∈ gatewayCodes) :
    relay cfg (encodeUtf8 r.text) = .ok ((r.code : ℤ), encodeUtf8 r.body) := by
  have hshort : ∀ code ∈ gatewayCodes, (natStr code).length ≤ 640 := by
    simp [gatewayCodes, natStr_codes]
  have hint : toInt cfg.max_str_digits (natStr r.code) = some (r.code : ℤ) :=
    toInt_natStr (cfg.digits.imp_right (hshort _ hcode).trans)
  obtain ⟨hsplit, hlines⟩ :=
    HttpResponse.splitOnce_message (List.cons_ne_nil r.statusLine r.headers) hr.lines r.body
  change splitOnce blankLine (encodeUtf8 r.text) = _ at hsplit
  unfold relay
  rw [hsplit, Option.getD_some]
  dsimp only
  rw [hlines, List.headD_cons, code_of_statusLine]
  dsimp only
  rw [hint]

/-- The event of a submission with these fields. -/
def eventOf (data : Fields) : Fields :=
  submitEvent ((data.lookup "job_type".toList).getD .null)
    ((data.lookup "priority".toList).getD (.str "MEDIUM".toList))
    ((data.lookup "payload".toList).getD .null)

/-- The event with the id that the gateway gives it. -/
def acceptedEvent (data : Fields) (uuid : Str) : Fields := eventOf data ++ [("id".toList, .str uuid)]

/-- A submission is passed on if its job type is one. -/
def HasJobType (data : Fields) : Prop :=
  ((data.lookup "job_type".toList).getD .null).truthy = true

/-- The reply to a submission that the gateway answers with `r`: the lines about the two are printed
before. -/
def submitReply (cfg : Config) (data : Fields) (r : HttpResponse) : Reply :=
  match do
    cfg.print (cfg.proxyingLine ((data.lookup "job_type".toList).getD .null)
      ((data.lookup "priority".toList).getD (.str "MEDIUM".toList)))
    cfg.print (responseLine r.body) with
  | .ok () => .json r.code (encodeUtf8 r.body)
  | .error e => .error 400 "Failed to submit: ".toList e

/-- What `submit_task` prints of a response. -/
theorem responseBody_text {r : HttpResponse} (hr : r.Ok) :
    responseBody (encodeUtf8 r.text) = r.body := by
  obtain ⟨hsplit, -⟩ :=
    HttpResponse.splitOnce_message (List.cons_ne_nil r.statusLine r.headers) hr.lines r.body
  change splitOnce blankLine (encodeUtf8 r.text) = _ at hsplit
  rw [responseBody, hsplit]
  exact decodeIgnore_encodeUtf8_self r.body

/-- **A response with a JSON body** is read. -/
theorem relay_json (cfg : Config) {status : Str} (code : ℕ) (reason : Str)
    (hstatus : status = natStr code ++ ' ' :: reason) (hcode : code ∈ gatewayCodes)
    (hreason : '\r' ∉ reason) (body : Str) :
    relay cfg (encodeUtf8 (jsonResponse status body)) = .ok ((code : ℤ), encodeUtf8 body) := by
  rw [jsonResponse_eq code reason hstatus body]
  exact relay_text cfg (ok_jsonOf code hreason body) hcode

/-- A response that is read with the code 200 has it in its place. -/
theorem codeDigit_of_relay {cfg : Config} {r : HttpResponse} (hr : r.Ok) (hcode : r.code ∈ gatewayCodes)
    {body : Bytes} (h : relay cfg (encodeUtf8 r.text) = .ok (200, body)) :
    codeDigit r.text = some '2' := by
  rw [relay_text cfg hr hcode, Except.ok.injEq, Prod.mk.injEq] at h
  have h200 : r.code = 200 := by exact_mod_cast h.1
  have hdigits := natStr_codes.1
  have hninth : ∀ s t : Str, (("HTTP/1.1 ".toList ++ (['2', '0', '0'] ++ s)) ++ t)[9]? = some '2' :=
    fun _ _ => rfl
  rw [HttpResponse.text_eq, codeDigit]
  unfold HttpResponse.statusLine
  rw [h200, hdigits]
  exact hninth _ _

section Gateway

variable (cfg : Config) (g : Gateway) (client_ip : Str) (now : ℚ) (buckets : Buckets)
  (sizes sizes' : List ℕ)

/-- **The gateway sends a response**, and the front end reads the whole of it. -/
theorem exists_response (request : Bytes) : ∃ r : HttpResponse, r.Ok ∧ r.code ∈ gatewayCodes ∧
    (g.processClientSocket client_ip now buckets ⟨request, sizes⟩).1 = r.text ∧
    ∃ conn, dial g client_ip now buckets sizes sizes' request = .ok conn ∧
      readResponse conn = encodeUtf8 r.text := by
  obtain ⟨r, hok, hcode, -, htext⟩ := @responds_processClientSocket (fun _ => True)
    (fun _ _ => trivial) g (fun _ _ _ => trivial) client_ip now buckets ⟨request, sizes⟩
  refine ⟨r, hok, hcode, htext, _, rfl, ?_⟩
  rw [readResponse_eq, htext]

/-- What a status query comes to. -/
theorem doGet_status {index : Bytes} {d : Dial} {path : Str} {conn : Conn} {r : HttpResponse}
    (hpath : "/status".toList <+: path) (hr : r.Ok) (hcode : r.code ∈ gatewayCodes)
    (hdial : d (encodeUtf8 (statusRequest cfg path)) = .ok conn)
    (hread : readResponse conn = encodeUtf8 r.text) :
    doGet cfg index d path = .json r.code (encodeUtf8 r.body) := by
  have hindex : ¬ (path = "/".toList ∨ path = "/index.html".toList) := by
    rintro (rfl | rfl)
    · exact absurd hpath (by decide)
    · exact absurd hpath (by decide)
  have hrelay : ((d (encodeUtf8 (statusRequest cfg path))).bind fun conn =>
      relay cfg (readResponse conn)) = .ok ((r.code : ℤ), encodeUtf8 r.body) := by
    rw [hdial, ← relay_text cfg hr hcode, ← hread]
    rfl
  rw [doGet, if_neg hindex, if_pos hpath, hrelay]

/-- What a submission comes to. -/
theorem doPost_submit {d : Dial} {post_data : Bytes} {data : Fields} {conn : Conn} {r : HttpResponse}
    (hdata : loadBody cfg.loads post_data = some (.obj data)) (hjob : HasJobType data)
    (hr : r.Ok) (hcode : r.code ∈ gatewayCodes)
    (hdial : d (encodeUtf8 (submitRequest cfg (eventOf data))) = .ok conn)
    (hread : readResponse conn = encodeUtf8 r.text) :
    doPost cfg d "/submit".toList post_data = some (submitReply cfg data r) := by
  obtain ⟨text, htext, hvalue⟩ := Option.bind_eq_some_iff.mp hdata
  have hload := PyJson.Loaded.value?_eq_some.mp hvalue
  have hbody : responseBody (readResponse conn) = r.body := by rw [hread, responseBody_text hr]
  have hrelay : relay cfg (readResponse conn) = .ok ((r.code : ℤ), encodeUtf8 r.body) := by
    rw [hread, relay_text cfg hr hcode]
  have hsubmit : submitTask cfg d ((data.lookup "job_type".toList).getD .null)
      ((data.lookup "priority".toList).getD (.str "MEDIUM".toList))
      ((data.lookup "payload".toList).getD .null) =
        (cfg.print (responseLine r.body)).bind fun _ => .ok (readResponse conn) := by
    unfold eventOf at hdial
    rw [submitTask, hdial, ← hbody]
    rfl
  have htry : trySubmit cfg d text =
      (cfg.print (cfg.proxyingLine ((data.lookup "job_type".toList).getD .null)
        ((data.lookup "priority".toList).getD (.str "MEDIUM".toList)))).bind fun _ =>
          (cfg.print (responseLine r.body)).bind fun _ => .ok ((r.code : ℤ), encodeUtf8 r.body) := by
    unfold HasJobType at hjob
    rw [trySubmit, hload]
    dsimp only
    rw [if_pos hjob, hsubmit, ← hrelay]
    cases cfg.print (cfg.proxyingLine _ _) with
    | error e => rfl
    | ok _ => cases cfg.print (responseLine r.body) <;> rfl
  rw [doPost, if_pos rfl, htext, Option.map_some, htry, submitReply]
  -- the two prints, one after the other
  cases cfg.print (cfg.proxyingLine _ _) with
  | error e => rfl
  | ok _ => cases cfg.print (responseLine r.body) <;> rfl

/-- **What the gateway answers is passed on**: for a status query and for a submission with a job type,
whatever the gateway makes of them and however the bytes come, the browser gets the code and the body of
the response, unless a print about a submission raises. -/
theorem passes_on :
    (∀ (index : Bytes) (path : Str), "/status".toList <+: path → ∃ r : HttpResponse, r.Ok ∧
      (g.processClientSocket client_ip now buckets
        ⟨encodeUtf8 (statusRequest cfg path), sizes⟩).1 = r.text ∧
      doGet cfg index (dial g client_ip now buckets sizes sizes') path =
        .json r.code (encodeUtf8 r.body)) ∧
    ∀ (post_data : Bytes) (data : Fields), loadBody cfg.loads post_data = some (.obj data) →
      HasJobType data → ∃ r : HttpResponse, r.Ok ∧
        (g.processClientSocket client_ip now buckets
          ⟨encodeUtf8 (submitRequest cfg (eventOf data)), sizes⟩).1 = r.text ∧
        doPost cfg (dial g client_ip now buckets sizes sizes') "/submit".toList post_data =
          some (submitReply cfg data r) := by
  constructor
  · intro index path hpath
    obtain ⟨r, hok, hcode, htext, conn, hdial, hread⟩ :=
      exists_response g client_ip now buckets sizes sizes' (encodeUtf8 (statusRequest cfg path))
    exact ⟨r, hok, htext, doGet_status cfg hpath hok hcode hdial hread⟩
  · intro post_data data hdata hjob
    obtain ⟨r, hok, hcode, htext, conn, hdial, hread⟩ := exists_response g client_ip now buckets sizes
      sizes' (encodeUtf8 (submitRequest cfg (eventOf data)))
    exact ⟨r, hok, htext, doPost_submit cfg hdata hjob hok hcode hdial hread⟩

end Gateway

/-- The settings that the gateway has as well. -/
def plainConfig : Config where
  GATEWAY_HOST := "127.0.0.1".toList
  GATEWAY_PORT := 8000
  GATEWAY_AUTH_TOKEN := "secret-token-key".toList
  loads := library .verbatim
  console := ⟨fun _ => [], fun c => c.toNat < 128⟩
  max_str_digits := 4300
  digits := .inr (by decide)
  intError s := "invalid literal for int() with base 10: ".toList ++ s
  loadsError _ := "Expecting value: line 1 column 1 (char 0)".toList
  encodeError _ := "'ascii' codec can't encode character".toList

theorem passes_on_plain : (∃ r : HttpResponse,
    doGet plainConfig [] (dial (plainGateway ['1']) "127.0.0.1".toList 0 ∅ [5] [7, 1])
      "/status?id=1".toList = .json r.code (encodeUtf8 r.body)) ∧
    ∃ r : HttpResponse,
      doPost plainConfig (dial (plainGateway ['1']) "127.0.0.1".toList 0 ∅ [5] [7, 1])
        "/submit".toList plainBody = some (submitReply plainConfig plainData r) := by
  obtain ⟨hget, hpost⟩ := passes_on plainConfig (plainGateway ['1']) "127.0.0.1".toList 0 ∅ [5] [7, 1]
  obtain ⟨r, -, -, hr⟩ := hget [] "/status?id=1".toList ⟨"?id=1".toList, by simp⟩
  obtain ⟨r', -, -, hr'⟩ := hpost plainBody plainData rfl rfl
  exact ⟨⟨r, hr⟩, r', hr'⟩

/-! ## Requests -/

section Requests

open HttpResponse (eol splitOnce_message)

variable {lim : RequestLimits} {line method path version : Str} {more headers : List Str} {body : Str}

/-- **A request is read right**, however it comes. -/
theorem parse_request {n : ℕ} (hlines : ∀ l ∈ line :: headers, l ≠ [] ∧ '\r' ∉ l)
    (hsize : (encodeUtf8 (eol.intercalate (line :: headers))).length + 4 ≤ lim.max_header_size)
    (hfields : split " ".toList line = method :: path :: version :: more)
    (hlength : Declares lim headers n) (hmax : n ≤ lim.max_content_length)
    (hbody : n ≤ (encodeUtf8 body).length) (sizes : List ℕ) :
    parseHttpRequest lim ⟨encodeUtf8 (httpRequest (line :: headers) body), sizes⟩ =
      .ok ⟨method, path, headers, (encodeUtf8 body).take n⟩ := by
  obtain ⟨hblank, hheads⟩ := splitOnce_message (List.cons_ne_nil line headers) hlines body
  refine parse_of_wellFormed lim hblank ?_ hheads hfields hlength hmax hbody sizes
  rw [List.length_append]
  exact hsize

/-- A line that does not begin with the letter of the name is no length. -/
theorem isContentLength_append {name : Str} (h : (lower name).head?.any (· ≠ 'c') = true)
    (value : Str) : isContentLength (name ++ value) = false := by
  cases hname : lower name with
  | nil =>
    rw [hname] at h
    cases h
  | cons c cs =>
    rw [hname, List.head?_cons, Option.any_some, decide_eq_true_eq] at h
    have happ : lower (name ++ value) = lower name ++ lower value := List.flatMap_append
    have hletter : ('c' == c) = false := beq_false_of_ne fun e => h e.symm
    have hliteral : "content-length:".toList = 'c' :: "ontent-length:".toList := rfl
    rw [isContentLength, happ, hname, hliteral, List.cons_append, List.isPrefixOf, hletter,
      Bool.false_and]

theorem names_spec : (lower "Host: ".toList).head?.any (· ≠ 'c') = true ∧
    (lower "Authorization: Bearer ".toList).head?.any (· ≠ 'c') = true := by
  decide +kernel

/-- The length of a body is read back. -/
theorem lengthOf_lengthLine {n : ℕ}
    (h : lim.max_str_digits = 0 ∨ (natStr n).length ≤ lim.max_str_digits) :
    lengthOf lim ("Content-Length: ".toList ++ natStr n) = some (n : ℤ) := by
  have hname : "Content-Length: ".toList ++ natStr n =
      "Content-Length".toList ++ ([':'] ++ ' ' :: natStr n) := by
    unfold natStr
    rfl
  have hcolon : ':' ∉ "Content-Length".toList := by simp
  have hsplit : splitOnce [':'] ("Content-Length: ".toList ++ natStr n) =
      some ("Content-Length".toList, ' ' :: natStr n) := by
    rw [hname, splitOnce_append hcolon]
  have hspace : ∀ c ∈ [' '], isSpace c = true := List.forall_mem_singleton.mpr rfl
  have hstrip := strip_append hspace (fun c hc => absurd hc List.not_mem_nil) (natStr n)
  rw [List.append_nil, strip_natStr] at hstrip
  change strip (' ' :: natStr n) = _ at hstrip
  rw [lengthOf, hsplit, Option.bind_some, hstrip, toInt_natStr h]

/-! ## Submissions -/

/-- The front end has the token and the interpreter of the gateway, its settings are texts on one line,
and the gateway takes a request that is so long and reads its event. -/
structure Agree (cfg : Config) (g : Gateway) (event : Fields) : Prop where
  token : g.cfg.lower ("authorization: bearer ".toList ++ g.cfg.GATEWAY_AUTH_TOKEN) =
    g.cfg.lower ("Authorization: Bearer ".toList ++ cfg.GATEWAY_AUTH_TOKEN)
  loads : g.cfg.loads = cfg.loads
  back : g.cfg.loads (dumps (.obj event)) = .value (.obj event)
  host : '\r' ∉ cfg.GATEWAY_HOST
  auth : '\r' ∉ cfg.GATEWAY_AUTH_TOKEN
  head : (encodeUtf8 (eol.intercalate ("POST /submit HTTP/1.1".toList ::
    submitHeaders cfg (dumps (.obj event))))).length + 4 ≤ g.lim.max_header_size
  length : (encodeUtf8 (dumps (.obj event))).length ≤ g.lim.max_content_length
  digits : g.lim.max_str_digits = 0 ∨
    (natStr (encodeUtf8 (dumps (.obj event))).length).length ≤ g.lim.max_str_digits

theorem notMem_intStr {c : Char} (hc : c.isDigit = false) (hminus : c ≠ '-') (n : ℤ) :
    c ∉ intStr n := by
  cases n with
  | ofNat n => exact notMem_natStr hc n
  | negSucc n => exact List.not_mem_cons_of_ne_of_not_mem hminus (notMem_natStr hc (n + 1))

/-- The lines of a submission are lines. -/
theorem submitLines {cfg : Config} (hhost : '\r' ∉ cfg.GATEWAY_HOST)
    (hauth : '\r' ∉ cfg.GATEWAY_AUTH_TOKEN) (body : Str) :
    ∀ l ∈ "POST /submit HTTP/1.1".toList :: submitHeaders cfg body, l ≠ [] ∧ '\r' ∉ l := by
  have hline : ∀ {name value : Str}, (name ≠ [] ∧ '\r' ∉ name) → '\r' ∉ value →
      name ++ value ≠ [] ∧ '\r' ∉ name ++ value := by
    intro name value hname hvalue
    refine ⟨List.append_ne_nil_of_left_ne_nil hname.1 _, ?_⟩
    rw [List.mem_append, not_or]
    exact ⟨hname.2, hvalue⟩
  have hport : '\r' ∉ cfg.host := by
    rw [Config.host, List.mem_append, List.mem_cons, not_or, not_or]
    exact ⟨hhost, by decide, notMem_intStr (by decide) (by decide) _⟩
  simp only [submitHeaders, List.forall_mem_cons]
  exact ⟨by simp, hline (by simp) hport, hline (by simp) hauth, by simp,
    hline (by simp) (notMem_natStr (by decide) _), by simp, List.forall_mem_nil _⟩

/-- **The length** that a submission declares. -/
theorem declares_submit (cfg : Config) {body : Str} (h : lim.max_str_digits = 0 ∨
      (natStr (encodeUtf8 body).length).length ≤ lim.max_str_digits) :
    Declares lim (submitHeaders cfg body) (encodeUtf8 body).length := by
  have hbefore : ∀ l ∈ ["Host: ".toList ++ cfg.host,
      "Authorization: Bearer ".toList ++ cfg.GATEWAY_AUTH_TOKEN,
      "Content-Type: application/json".toList], isContentLength l = false := by
    simp only [List.forall_mem_cons]
    obtain ⟨hhost, hauth⟩ := names_spec
    exact ⟨isContentLength_append hhost _, isContentLength_append hauth _,
      (lines_spec _ List.mem_cons_self).2, List.forall_mem_nil _⟩
  exact @Declares.first lim _ ["Connection: close".toList] _ _ hbefore
    (HttpResponse.isContentLength_length _) (lengthOf_lengthLine h)

variable {cfg : Config} {g : Gateway} {event : Fields}

/-- **A submission of the front end** is read right. -/
theorem parse_submit (h : Agree cfg g event) (sizes : List ℕ) :
    parseHttpRequest g.lim ⟨encodeUtf8 (submitRequest cfg event), sizes⟩ =
      .ok ⟨"POST".toList, "/submit".toList, submitHeaders cfg (dumps (.obj event)),
        encodeUtf8 (dumps (.obj event))⟩ := by
  have hfields : split " ".toList "POST /submit HTTP/1.1".toList =
      ["POST".toList, "/submit".toList, "HTTP/1.1".toList] := by decide +kernel
  have hparse := parse_request (submitLines h.host h.auth (dumps (.obj event))) h.head hfields
    (declares_submit cfg h.digits) h.length le_rfl sizes
  rwa [List.take_length] at hparse

/-- The event is a JSON object, if what it is made of came as JSON. -/
theorem canonical_eventOf {ft : FloatText} {data : Fields} (h : Canonical ft (.obj data)) :
    Canonical ft (.obj (eventOf data)) := by
  have hvalue : ∀ (key : Str) (default : Json), Canonical ft default →
      Canonical ft ((data.lookup key).getD default) := by
    intro key default hdefault
    cases hkey : data.lookup key with
    | none => exact hdefault
    | some value =>
      cases h with
      | obj hnodup hfields => exact hfields _ (PyDict.mem_of_lookup hkey)
  have hjob_type := hvalue "job_type".toList .null .null
  have hpriority := hvalue "priority".toList (.str "MEDIUM".toList) (.str _)
  have hpayload := hvalue "payload".toList .null .null
  unfold eventOf submitEvent
  generalize (data.lookup "job_type".toList).getD .null = job_type at hjob_type ⊢
  generalize (data.lookup "priority".toList).getD (.str "MEDIUM".toList) = priority at hpriority ⊢
  generalize (data.lookup "payload".toList).getD .null = payload at hpayload ⊢
  have hthree : ∀ f ∈ [("event".toList, Json.str JOB_SUBMITTED), ("job_type".toList, job_type),
      ("priority".toList, priority)], Canonical ft f.2 :=
    List.forall_mem_cons.mpr ⟨.str _, List.forall_mem_cons.mpr ⟨hjob_type,
      List.forall_mem_singleton.mpr hpriority⟩⟩
  have hcases : payload.notNone = none ∨ payload.notNone = some payload := by
    cases payload with
    | null => exact .inl rfl
    | _ => exact .inr rfl
  rcases hcases with hnone | hsome
  · have hnames : ["event".toList, "job_type".toList, "priority".toList].Nodup := by simp
    rw [hnone]
    exact .obj hnames hthree
  · have hnames : ["event".toList, "job_type".toList, "priority".toList, "payload".toList].Nodup := by
      simp
    rw [hsome]
    refine .obj hnames fun f hf => ?_
    rcases List.mem_append.mp hf with hf | hf
    · exact hthree f hf
    · rw [List.mem_singleton.mp hf]
      exact hpayload

/-- The first names of an event. -/
theorem lookup_eventOf (data : Fields) :
    (eventOf data).lookup "event".toList = some (.str JOB_SUBMITTED) ∧
      (eventOf data).lookup "job_type".toList = some ((data.lookup "job_type".toList).getD .null) ∧
      (eventOf data).lookup "id".toList = none := by
  unfold eventOf submitEvent
  generalize (data.lookup "job_type".toList).getD .null = job_type
  generalize (data.lookup "priority".toList).getD (.str "MEDIUM".toList) = priority
  generalize (data.lookup "payload".toList).getD .null = payload
  refine ⟨rfl, rfl, ?_⟩
  cases payload with
  | null => rfl
  | _ => rfl

theorem setField_eventOf (data : Fields) (uuid : Str) :
    setField (eventOf data) "id".toList (.str uuid) = acceptedEvent data uuid := by
  rw [setField, (lookup_eventOf data).2.2]
  rfl

theorem canonical_acceptedEvent {ft : FloatText} {data : Fields} (h : Canonical ft (.obj data))
    (uuid : Str) : Canonical ft (.obj (acceptedEvent data uuid)) := by
  rw [← setField_eventOf]
  exact canonical_setField (canonical_eventOf h) (lookup_eventOf data).2.2 (.str uuid)

theorem lookup_acceptedEvent (data : Fields) (uuid : Str) :
    (acceptedEvent data uuid).lookup "event".toList = some (.str JOB_SUBMITTED) := by
  unfold acceptedEvent
  rw [List.lookup_append, (lookup_eventOf data).1, Option.some_or]

/-! ## From the browser to the coordinator -/

/-- What the coordinator is sent for a client. -/
def sends (g : Gateway) (client_ip : Str) (now : ℚ) (buckets : Buckets) (client_conn : Conn) :
    Option Bytes := do
  let request ← (parseHttpRequest g.lim client_conn).toOption
  if (processClientSocket g.cfg ⟨client_ip, now, request⟩ buckets).1 = .getConnection then
    (processSubmit g.cfg.loads g.uuid g.bus request.body).2
  else none

variable {client_ip : Str} {now : ℚ} {buckets : Buckets} {data : Fields}

/-- The gateway reads the event of a submission. -/
theorem loadBody_eventOf (h : Agree cfg g (eventOf data)) :
    loadBody g.cfg.loads (encodeUtf8 (dumps (.obj (eventOf data)))) = some (.obj (eventOf data)) := by
  rw [loadBody, decodeStrict_encodeUtf8, Option.bind_some, h.back]
  rfl

/-- **A submission of the front end gets a connection** to the event bus. -/
theorem opensBus_submit (h : Agree cfg g (eventOf data))
    (hquota : InQuota buckets client_ip (submitHeaders cfg (dumps (.obj (eventOf data)))) now) :
    OpensBus g.cfg ⟨client_ip, now, ⟨"POST".toList, "/submit".toList,
      submitHeaders cfg (dumps (.obj (eventOf data))),
      encodeUtf8 (dumps (.obj (eventOf data)))⟩⟩ buckets := by
  have hin : isIn "job_type".toList (.obj (eventOf data)) = some true := by
    rw [isIn, (lookup_eventOf data).2.1]
    rfl
  have hline : isTokenLine g.cfg ("Authorization: Bearer ".toList ++ cfg.GATEWAY_AUTH_TOKEN) = true := by
    rw [isTokenLine, h.token]
    exact List.isPrefixOf_iff_prefix.mpr (List.prefix_refl _)
  exact (opensBus_iff _ _ _).mpr ⟨⟨rfl, hquota, fun _ => ⟨_, loadBody_eventOf h, hin⟩⟩,
    _, List.mem_cons_of_mem _ List.mem_cons_self, .inl hline⟩

/-- What the gateway makes of a submission of the front end. -/
theorem processSubmit_eventOf (h : Agree cfg g (eventOf data)) (hbus : g.bus = .takes) :
    processSubmit g.cfg.loads g.uuid g.bus (encodeUtf8 (dumps (.obj (eventOf data)))) =
      (.accepted (some (.str g.uuid)),
        some (encodeUtf8 (eventText (acceptedEvent data g.uuid)) ++ [10])) := by
  have hprepare : prepareSubmit g.cfg.loads g.uuid (encodeUtf8 (dumps (.obj (eventOf data)))) =
      (some (.str g.uuid), encodeUtf8 (eventText (acceptedEvent data g.uuid))) := by
    rw [prepareSubmit, loadBody_eventOf h]
    dsimp only
    rw [(lookup_eventOf data).2.2]
    dsimp only
    rw [setField_eventOf]
  have hne : encodeUtf8 (eventText (acceptedEvent data g.uuid)) ≠ [] := by
    intro hnil
    have hlen := length_le_length_encodeUtf8 (eventText (acceptedEvent data g.uuid))
    rw [hnil, List.length_nil] at hlen
    exact List.cons_ne_nil _ _ (List.length_eq_zero_iff.mp (Nat.le_zero.mp hlen))
  unfold processSubmit
  rw [hbus, hprepare]
  dsimp only
  rw [submitPayload, if_neg hne]

/-- What the gateway answers. -/
theorem answer_submit (h : Agree cfg g (eventOf data)) (hbus : g.bus = .takes)
    (hquota : InQuota buckets client_ip (submitHeaders cfg (dumps (.obj (eventOf data)))) now)
    (sizes : List ℕ) :
    (g.processClientSocket client_ip now buckets
        ⟨encodeUtf8 (submitRequest cfg (eventOf data)), sizes⟩).1 =
      (Answer.accepted (some (.str g.uuid))).text := by
  have hopens : (processClientSocket g.cfg _ buckets).1 = .getConnection :=
    opensBus_submit h hquota
  unfold Gateway.processClientSocket
  rw [parse_submit h sizes]
  dsimp only
  rw [hopens]
  dsimp only
  rw [processSubmit_eventOf h hbus]

/-- What the gateway sends the coordinator. -/
theorem sends_submit (h : Agree cfg g (eventOf data)) (hbus : g.bus = .takes)
    (hquota : InQuota buckets client_ip (submitHeaders cfg (dumps (.obj (eventOf data)))) now)
    (sizes : List ℕ) :
    sends g client_ip now buckets ⟨encodeUtf8 (submitRequest cfg (eventOf data)), sizes⟩ =
      some (encodeUtf8 (eventText (acceptedEvent data g.uuid)) ++ [10]) := by
  have hopens : (processClientSocket g.cfg _ buckets).1 = .getConnection :=
    opensBus_submit h hquota
  rw [sends, parse_submit h sizes]
  show (if _ then _ else _) = _
  rw [if_pos hopens, processSubmit_eventOf h hbus]

/-- What the coordinator makes of it. -/
theorem published_submit {κ : Type} [DecidableEq κ] {ft : FloatText} {uuid : Str} {env : LoopEnv}
    (hcanon : Canonical ft (.obj data)) (hlaw : Lawful ft env.loads)
    (hload : env.loads (eventText (acceptedEvent data uuid)) = .value (.obj (acceptedEvent data uuid)))
    {l : EventLoop κ} {conn : κ} {chunks : List Bytes}
    (hsplit : SplitOf (encodeUtf8 (eventText (acceptedEvent data uuid)) ++ [10]) chunks)
    (hopen : l.closed conn = false) (hbuffer : (l.buffers.get? conn).getD [] = [])
    (hquiet : ∀ chunk ∈ chunks, ¬ IsHttp chunk) :
    (l.serve env conn chunks).published = l.published ++ [acceptedEvent data uuid] := by
  have hnew := canonical_acceptedEvent hcanon uuid
  have hline : '\n' ∉ strip (eventText (acceptedEvent data uuid)) := by
    rw [strip_eventText]
    exact newline_notMem_eventText hnew
  rw [EventLoop.serve_published hopen hbuffer hsplit.1, takeWhile_of_quiet hquiet, hsplit.2,
    eventsOf_oneLine hlaw hload (.inr (lookup_acceptedEvent data uuid)) hline]

/-- The body of the response to a submission that is accepted. -/
def acceptedBody (uuid : Str) : Fields :=
  [("status".toList, .str "PENDING".toList), ("task_id".toList, .str uuid),
    ("message".toList, .str "Task received and forwarded to Event Bus.".toList)]

theorem isAscii_responseLine (uuid : Str) :
    IsAscii (responseLine (dumps (.obj (acceptedBody uuid)))) := by
  have hnames : ((acceptedBody uuid).map Prod.fst).Nodup := by simp [acceptedBody]
  have hcanonical : ∀ f ∈ acceptedBody uuid, Canonical .verbatim f.2 := by
    simp only [acceptedBody, List.forall_mem_cons]
    exact ⟨.str _, .str _, .str _, List.forall_mem_nil _⟩
  have hbody := isAscii_dumps_fields hnames hcanonical
  have hfront : IsAscii "[GATEWAY RESPONSE] ".toList := isAscii_of_all (by simp)
  have hstrip : strip (dumps (.obj (acceptedBody uuid))) = dumps (.obj (acceptedBody uuid)) :=
    strip_eventText (acceptedBody uuid)
  generalize dumps (.obj (acceptedBody uuid)) = body at hbody hstrip ⊢
  unfold responseLine
  rw [hstrip]
  exact isAscii_append.mpr ⟨hfront, hbody⟩

/-- **A submission reaches the coordinator**: the browser is told the id that the gateway has given it,
and the coordinator publishes the event with this id, once and under the topic of submissions, if no
piece of what it receives looks like a health check. -/
theorem browser_submits {κ : Type} [DecidableEq κ] {post_data : Bytes} (sizes sizes' : List ℕ)
    (hdata : loadBody cfg.loads post_data = some (.obj data)) (hjob : HasJobType data)
    (h : Agree cfg g (eventOf data)) (hbus : g.bus = .takes)
    (hquota : InQuota buckets client_ip (submitHeaders cfg (dumps (.obj (eventOf data)))) now)
    (hascii : ∀ c : Char, c.toNat < 128 → cfg.console.encodable c = true)
    (hprints : cfg.console.prints (cfg.proxyingLine ((data.lookup "job_type".toList).getD .null)
      ((data.lookup "priority".toList).getD (.str "MEDIUM".toList))) = true) :
    doPost cfg (dial g client_ip now buckets sizes sizes') "/submit".toList post_data =
      some (.json 202 (encodeUtf8 (dumps (.obj (acceptedBody g.uuid))))) ∧
    ∃ payload, sends g client_ip now buckets
        ⟨encodeUtf8 (submitRequest cfg (eventOf data)), sizes⟩ = some payload ∧
      topicOf (acceptedEvent data g.uuid) = some (.str JOB_SUBMITTED) ∧
      ∀ (env : LoopEnv) (l : EventLoop κ) (conn : κ) (chunks : List Bytes),
        Lawful g.cfg.ft env.loads → env.loads (eventText (acceptedEvent data g.uuid)) =
          .value (.obj (acceptedEvent data g.uuid)) →
        SplitOf payload chunks → l.closed conn = false → (l.buffers.get? conn).getD [] = [] →
        (∀ chunk ∈ chunks, ¬ IsHttp chunk) →
        (l.serve env conn chunks).published = l.published ++ [acceptedEvent data g.uuid] := by
  obtain ⟨text, htext, hvalue⟩ := Option.bind_eq_some_iff.mp hdata
  have hload := PyJson.Loaded.value?_eq_some.mp hvalue
  rw [← h.loads] at hload
  have hcanon := g.cfg.lawful.canonical hload
  refine ⟨?_, _, sends_submit h hbus hquota sizes, ?_,
    fun env l conn chunks hlaw hback hsplit hopen hbuffer hquiet =>
      published_submit hcanon hlaw hback hsplit hopen hbuffer hquiet⟩
  · -- the response is the one with the code 202
    have hresponse : (Answer.accepted (some (.str g.uuid))).text =
        (jsonOf 202 "Accepted".toList (dumps (.obj (acceptedBody g.uuid)))).text :=
      jsonResponse_eq 202 "Accepted".toList (by simp [natStr_codes]) _
    have hpost := doPost_submit cfg hdata hjob
      (ok_jsonOf 202 (by simp : '\r' ∉ "Accepted".toList) (dumps (.obj (acceptedBody g.uuid))))
      (show 202 ∈ gatewayCodes by decide)
      (show dial g client_ip now buckets sizes sizes' _ = .ok _ from rfl)
      (by rw [readResponse_eq, answer_submit h hbus hquota sizes, hresponse])
    have hline : cfg.console.prints (responseLine (jsonOf 202 "Accepted".toList
        (dumps (.obj (acceptedBody g.uuid)))).body) = true :=
      List.all_eq_true.mpr fun c hc => hascii c (isAscii_responseLine g.uuid c hc)
    rw [hpost, submitReply, Config.print, Config.print, if_pos hprints, if_pos hline]
    rfl
  · rw [topicOf, topicField, lookup_acceptedEvent]
    rfl

/-- A gateway that the coordinator takes everything from. -/
def plainTaking : Gateway := { plainGateway ['1'] with uuid := ['u'], bus := .takes }

theorem canonical_plainData : Canonical .verbatim (.obj plainData) := by
  refine .obj (by simp [plainData]) ?_
  simp only [plainData, List.forall_mem_cons]
  exact ⟨.str _, .str _, List.forall_mem_nil _⟩

theorem agree_plain : Agree plainConfig plainTaking (eventOf plainData) where
  token := by decide +kernel
  loads := rfl
  back := PyJson.library_eq_value.mpr (PyJson.loads_dumps (canonical_eventOf canonical_plainData))
  host := by decide +kernel
  auth := by decide +kernel
  head := by decide +kernel
  length := by decide +kernel
  digits := .inr (by decide +kernel)

/-- A client that the rate limiter does not know passes. -/
theorem inQuota_empty (client_ip : Str) (headers : List Str) : InQuota ∅ client_ip headers 0 := by
  have hfull : bucketAt ∅ client_ip [0] = ⟨MAX_TOKENS, 0⟩ := rfl
  refine .inr ?_
  rw [hfull]
  norm_num [refill, MAX_TOKENS]

theorem browser_submits_plain :
    (doPost plainConfig (dial plainTaking "127.0.0.1".toList 0 ∅ [5] [7, 1]) "/submit".toList
      plainBody).map (fun reply => reply.code) = some 202 := by
  have hsubmits := @browser_submits plainConfig plainTaking "127.0.0.1".toList 0 ∅ plainData Unit _
    plainBody [5] [7, 1] rfl rfl agree_plain rfl (inQuota_empty _ _)
    (fun c hc => decide_eq_true hc) (by decide)
  rw [hsubmits.1]
  rfl

end Requests

/-! ## From the browser to the cache -/

section Asks

open HttpResponse (eol splitOnce_message)

variable (cfg : Config) (client_ip : Str) (now : ℚ) (buckets : Buckets) (sizes sizes' : List ℕ)

/-- The lines of a status query. -/
def statusLines (task_id : Str) : List Str := requestLine task_id :: statusHeaders cfg

/-- The status query of the front end. -/
def statusQuery (task_id : Str) (hhost : '\r' ∉ cfg.GATEWAY_HOST) : StatusQuery task_id :=
  have hlines : ∀ l ∈ statusLines cfg task_id, l ≠ [] ∧ '\r' ∉ l := by
    have hport : '\r' ∉ cfg.host := by
      rw [Config.host, List.mem_append, List.mem_cons, not_or, not_or]
      exact ⟨hhost, by decide, notMem_intStr (by decide) (by decide) _⟩
    have hfirst : '\r' ∉ "Host: ".toList := by simp
    simp only [statusLines, statusHeaders, List.forall_mem_cons]
    refine ⟨⟨List.cons_ne_nil _ _, cr_notMem_requestLine task_id⟩, ⟨List.cons_ne_nil _ _, ?_⟩,
      by simp, List.forall_mem_nil _⟩
    rw [List.mem_append, not_or]
    exact ⟨hfirst, hport⟩
  have hmessage := splitOnce_message (List.cons_ne_nil _ _) hlines []
  { client_ip, now, buckets
    conn := ⟨encodeUtf8 (statusRequest cfg (statusPath task_id)), sizes⟩
    header_part := encodeUtf8 (eol.intercalate (statusLines cfg task_id))
    rest := []
    version := "HTTP/1.1".toList
    headers := statusHeaders cfg
    found := hmessage.1
    lines := hmessage.2 }

variable {cfg client_ip now buckets sizes}

/-- **When a status query is taken**: it declares no body, so only the rate limiter refuses it. -/
theorem taken_statusQuery {g : Gateway} {task_id : Str} (hhost : '\r' ∉ cfg.GATEWAY_HOST)
    (hhead : (encodeUtf8 (eol.intercalate (statusLines cfg task_id))).length + 4 ≤
      g.lim.max_header_size) :
    (statusQuery cfg client_ip now buckets sizes task_id hhost).Taken g ↔
      InQuota buckets client_ip (statusHeaders cfg) now := by
  have hnone : ∀ l ∈ statusHeaders cfg, isContentLength l = false := by
    simp only [statusHeaders, List.forall_mem_cons]
    exact ⟨isContentLength_append names_spec.1 _, (lines_spec _ (by simp)).2, List.forall_mem_nil _⟩
  have hlength : declaredLength g.lim
      (statusQuery cfg client_ip now buckets sizes task_id hhost).header_part = 0 := by
    rw [declaredLength, (statusQuery cfg client_ip now buckets sizes task_id hhost).lines,
      List.tail_cons]
    exact contentLength_of_declares (.absent hnone)
  refine ⟨fun h => h.quota, fun hquota => ⟨?_, ?_, ?_, hquota⟩⟩
  · obtain ⟨body_part, hfound, -⟩ := readHeaders_of_le
      (statusQuery cfg client_ip now buckets sizes task_id hhost).found hhead
    rw [hfound]
    exact Option.some_ne_none _
  · rw [hlength]
    exact Int.natCast_nonneg _
  · rw [hlength]
    exact Int.natCast_nonneg _

/-- **A JSON text is read with the code 200** off its own response, among those to a status query. -/
theorem relay_statusAnswer_iff (task_id : Str) (res : Except Str (Option Str)) (text : Str) :
    relay cfg (encodeUtf8 (statusAnswer task_id res)) = .ok (200, encodeUtf8 text) ↔
      statusAnswer task_id res = jsonResponse "200 OK".toList text := by
  have h200 : ∀ body, relay cfg (encodeUtf8 (jsonResponse "200 OK".toList body)) =
      .ok (200, encodeUtf8 body) :=
    relay_json cfg 200 "OK".toList (by simp [natStr_codes]) (by decide) (by simp)
  have hbody : ∀ body, relay cfg (encodeUtf8 (jsonResponse "200 OK".toList body)) =
      .ok (200, encodeUtf8 text) ↔
        jsonResponse "200 OK".toList body = jsonResponse "200 OK".toList text := by
    intro body
    rw [h200, Except.ok.injEq, Prod.mk.injEq, eq_self, true_and]
    refine ⟨fun h => ?_, fun h => by rw [jsonResponse_injective _ h]⟩
    have hsame := congrArg decodeIgnore h
    rw [decodeIgnore_encodeUtf8_self, decodeIgnore_encodeUtf8_self] at hsame
    rw [hsame]
  unfold statusAnswer
  split
  · exact hbody _
  · exact hbody _
  · rename_i detail
    obtain ⟨r, hok, hcode, -, htext⟩ := @responds_exception (fun _ => True)
      (dumps (.obj [("error".toList, .str "Cache Read Error".toList),
        ("detail".toList, .str detail)])) trivial
    -- the code of the error begins with another digit
    have hfive : codeDigit r.text = some '5' := by
      rw [← htext]
      rfl
    dsimp only
    rw [htext]
    refine iff_of_false (fun h => ?_) fun h => ?_
    · rw [codeDigit_of_relay hok hcode h] at hfive
      exact absurd hfive (by decide)
    · have htwo : codeDigit r.text = some '2' := by
        rw [h]
        rfl
      rw [hfive] at htwo
      exact absurd htwo (by decide)

/-- **When a status query returns a record**: however the request and the response come, the browser gets
the record of a task with the code 200 if and only if the rate limiter lets the front end pass and the
cache has the record under the encoding of the id. -/
theorem browser_asks (index : Bytes) (repr : Json → Str) (g : Gateway) {s : Save}
    (hid : s.task_id ≠ []) (sizes' : List ℕ) (hhost : '\r' ∉ cfg.GATEWAY_HOST)
    (hhead : (encodeUtf8 (eol.intercalate (statusLines cfg s.task_id))).length + 4 ≤
      g.lim.max_header_size) :
    doGet cfg index (dial g client_ip now buckets sizes sizes') (statusPath s.task_id) =
        .json 200 (encodeUtf8 (s.text repr)) ↔
      InQuota buckets client_ip (statusHeaders cfg) now ∧
        g.get (taskKey (Percent.encode s.task_id)) = .ok (some (s.text repr)) := by
  have hpath : "/status".toList <+: statusPath s.task_id := ⟨"?id=".toList ++ _, rfl⟩
  obtain ⟨r, hok, hcode, htext, conn, hdial, hread⟩ := exists_response g client_ip now buckets sizes
    sizes' (encodeUtf8 (statusRequest cfg (statusPath s.task_id)))
  have hreply : doGet cfg index (dial g client_ip now buckets sizes sizes') (statusPath s.task_id) =
      .json 200 (encodeUtf8 (s.text repr)) ↔
        relay cfg (encodeUtf8 r.text) = .ok (200, encodeUtf8 (s.text repr)) := by
    rw [doGet_status cfg hpath hok hcode hdial hread, relay_text cfg hok hcode, Reply.json,
      Reply.json, Reply.mk.injEq, Except.ok.injEq, Prod.mk.injEq, eq_self, true_and]
  have hquery : (g.query (statusQuery cfg client_ip now buckets sizes s.task_id hhost)).1 = r.text :=
    htext
  rw [hreply, ← taken_statusQuery hhost hhead]
  by_cases htaken : (statusQuery cfg client_ip now buckets sizes s.task_id hhost).Taken g
  · rw [StatusQuery.query_of_taken htaken, processStatus_statusPath _ hid] at hquery
    rw [← hquery, and_iff_right htaken, relay_statusAnswer_iff]
    exact statusAnswer_eq_iff _ _ _ _
  · refine iff_of_false (fun h => ?_) fun h => htaken h.1
    have hfour := (StatusQuery.query_of_not_taken htaken).1
    rw [hquery, codeDigit_of_relay hok hcode h] at hfour
    exact absurd hfour (by decide)

theorem browser_asks_plain :
    doGet plainConfig [] (dial (plainGateway "task-123".toList) "127.0.0.1".toList 0 ∅ [5] [7, 1])
      (statusPath (plainSave "task-123".toList).task_id) =
        .json 200 (encodeUtf8 ((plainSave "task-123".toList).text noRepr)) := by
  have hplain : ("task-123".toList.all fun c => decide (Percent.IsUnreserved c)) = true := rfl
  have hun : ∀ c ∈ "task-123".toList, Percent.IsUnreserved c := fun c hc =>
    of_decide_eq_true (List.all_eq_true.mp hplain c hc)
  have hkey : (plainGateway "task-123".toList).get (taskKey (Percent.encode "task-123".toList)) =
      .ok (some ((plainSave "task-123".toList).text noRepr)) := by
    rw [Percent.encode_eq_self_iff.mpr hun]
    exact get_plainGateway "task-123".toList
  exact (browser_asks [] noRepr (plainGateway "task-123".toList) (s := plainSave "task-123".toList)
    (List.cons_ne_nil _ _) [7, 1] (by decide +kernel) (by decide +kernel)).mpr
      ⟨inQuota_empty _ _, hkey⟩

end Asks

end Frontend

end JobSystem
