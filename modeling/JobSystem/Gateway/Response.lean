import JobSystem.Lib.Heads
import JobSystem.Gateway.Status

/-!
# The responses of the gateway

* `HttpResponse`: a status, header lines and a body; `HttpResponse.Ok`: the lines are lines, and the
  length that they declare is that of the body;
* `HttpResponse.eq_text`: the texts that the code writes are responses;
* `Responds`, `responds_*`: the middlewares and the branches;
* **`gateway_responds`**: whatever a client sends, however it comes, it is sent a response.
-/

namespace JobSystem

open PyText TokenBucket
open PyJson (Json Canonical FloatText dumps)

/-! ## Responses -/

/-- A response. -/
structure HttpResponse where
  code : ℕ
  reason : Str
  headers : List Str
  body : Str

namespace HttpResponse

/-- CR LF. -/
def eol : Str := ['\r', '\n']

/-- The first line. -/
def statusLine (r : HttpResponse) : Str := "HTTP/1.1 ".toList ++ (natStr r.code ++ ' ' :: r.reason)

/-- The lines before the body. -/
def head (r : HttpResponse) : Str := eol.intercalate (r.statusLine :: r.headers)

/-- The text. -/
def text (r : HttpResponse) : Str := r.head ++ (eol ++ eol ++ r.body)

/-- The line with the length of a body. -/
def lengthLine (body : Str) : Str := "Content-Length: ".toList ++ natStr body.length

/-- The lines are lines, and the first length is that of the body. -/
structure Ok (r : HttpResponse) : Prop where
  lines : ∀ line ∈ r.statusLine :: r.headers, line ≠ [] ∧ '\r' ∉ line
  length : r.headers.find? isContentLength = some (lengthLine r.body)

/-- The text, line by line. -/
theorem text_eq (r : HttpResponse) :
    r.text = r.statusLine ++ (r.headers.flatMap (eol ++ ·) ++ (eol ++ eol ++ r.body)) := by
  have hjoin : ∀ (line : Str) (lines : List Str),
      eol.intercalate (line :: lines) = line ++ lines.flatMap (eol ++ ·) := by
    intro line lines
    induction lines generalizing line with
    | nil => rw [List.intercalate_singleton, List.flatMap_nil, List.append_nil]
    | cons line' lines ih =>
      rw [List.intercalate_cons_cons, ih, List.flatMap_cons]
      simp only [List.append_assoc]
  rw [text, head, hjoin, List.append_assoc]

/-- A response with lines before and after the length. -/
def of (code : ℕ) (reason : Str) (before after : List Str) (body : Str) : HttpResponse :=
  ⟨code, reason, before ++ lengthLine body :: after, body⟩

variable {code : ℕ} {reason : Str} {before after : List Str}

/-- **A text that is written as a response**: what stands before the length, and what follows it. -/
theorem eq_text {front behind : Str}
    (hfront : front = "HTTP/1.1 ".toList ++ (natStr code ++ ' ' :: reason) ++
      (before.flatMap (eol ++ ·) ++ (eol ++ "Content-Length: ".toList)))
    (hbehind : behind = after.flatMap (eol ++ ·) ++ (eol ++ eol)) (body : Str) :
    front ++ (natStr body.length ++ (behind ++ body)) = (of code reason before after body).text := by
  subst hfront hbehind
  have hassoc : ∀ v s b l n a : Str, v ++ s ++ (b ++ (eol ++ l)) ++
      (n ++ (a ++ (eol ++ eol) ++ body)) = v ++ s ++ (b ++ (eol ++ (l ++ n) ++ a) ++
        (eol ++ eol ++ body)) := by
    intro v s b l n a
    simp only [List.append_assoc]
  rw [text_eq, of, List.flatMap_append, List.flatMap_cons]
  exact hassoc _ _ _ _ _ _

theorem isContentLength_length (value : Str) :
    isContentLength ("Content-Length: ".toList ++ value) = true := by
  have happ : ∀ s t, lower (s ++ t) = lower s ++ lower t := fun s t => List.flatMap_append
  have hname : "content-length:".toList <+: lower "Content-Length: ".toList := by
    simp [lower, lowerChar, lowerTable, List.lookup]
  unfold isContentLength
  rw [happ]
  exact List.isPrefixOf_iff_prefix.mpr (hname.trans (List.prefix_append _ _))

theorem ok_of (hreason : '\r' ∉ reason)
    (hbefore : ∀ line ∈ before, (line ≠ [] ∧ '\r' ∉ line) ∧ isContentLength line = false)
    (hafter : ∀ line ∈ after, line ≠ [] ∧ '\r' ∉ line) (body : Str) :
    (of code reason before after body).Ok where
  lines := by
    have hdigits : ∀ n, '\r' ∉ natStr n := fun n => notMem_natStr (by decide) n
    have hstatus : (of code reason before after body).statusLine ≠ [] ∧
        '\r' ∉ (of code reason before after body).statusLine := by
      have hne : "HTTP/1.1 ".toList ≠ [] := by simp
      have hversion : '\r' ∉ "HTTP/1.1 ".toList := by simp
      have hspace : '\r' ≠ ' ' := by simp
      refine ⟨List.append_ne_nil_of_left_ne_nil hne _, ?_⟩
      unfold statusLine
      rw [List.mem_append, List.mem_append, List.mem_cons, not_or, not_or, not_or]
      exact ⟨hversion, hdigits _, hspace, hreason⟩
    have hlength : lengthLine body ≠ [] ∧ '\r' ∉ lengthLine body := by
      have hne : "Content-Length: ".toList ≠ [] := by simp
      have hname : '\r' ∉ "Content-Length: ".toList := by simp
      unfold lengthLine
      rw [List.mem_append, not_or]
      exact ⟨List.append_ne_nil_of_left_ne_nil hne _, hname, hdigits _⟩
    refine List.forall_mem_cons.mpr ⟨hstatus, fun line hline => ?_⟩
    rcases List.mem_append.mp hline with hline | hline
    · exact (hbefore line hline).1
    · rcases List.mem_cons.mp hline with rfl | hline
      · exact hlength
      · exact hafter line hline
  length := by
    have hnone : before.find? isContentLength = none :=
      List.find?_eq_none.mpr fun line hline => by simp [(hbefore line hline).2]
    rw [of, List.find?_append, hnone, Option.none_or, List.find?_cons_of_pos]
    exact isContentLength_length _

/-! ## Reading -/

/-- **The head of a message** is found in its bytes, and has its lines. -/
theorem splitOnce_message {lines : List Str} (hne : lines ≠ [])
    (h : ∀ line ∈ lines, line ≠ [] ∧ '\r' ∉ line) (body : Str) :
    splitOnce blankLine (encodeUtf8 (eol.intercalate lines ++ (eol ++ eol ++ body))) =
        some (encodeUtf8 (eol.intercalate lines), encodeUtf8 body) ∧
      headerLines (encodeUtf8 (eol.intercalate lines)) = lines := by
  have heol : encodeUtf8 eol = [13, 10] := by decide
  have hblank : encodeUtf8 (eol ++ eol ++ body) = [13, 10, 13, 10] ++ encodeUtf8 body := by
    rw [encodeUtf8_append, encodeUtf8_append, heol]
    rfl
  have hlines : ∀ line ∈ lines.map encodeUtf8, line ≠ [] ∧ (13 : UInt8) ∉ line := by
    intro line hline
    obtain ⟨l, hl, rfl⟩ := List.mem_map.mp hline
    obtain ⟨hnil, hcr⟩ := h l hl
    obtain ⟨c, cs, rfl⟩ := List.exists_cons_of_ne_nil hnil
    refine ⟨?_, notMem_encodeUtf8 (c := '\r') (by decide) hcr⟩
    rw [encodeUtf8_cons]
    exact List.append_ne_nil_of_left_ne_nil (List.length_pos_iff.mp (by
      rw [String.length_utf8EncodeChar]; exact c.utf8Size_pos)) _
  constructor
  · rw [encodeUtf8_append, encodeUtf8_intercalate, heol, hblank]
    exact splitOnce_intercalate (by decide) (by simpa using hne) hlines _
  · rw [headerLines, decodeIgnore_encodeUtf8_self]
    exact splitMax_intercalate hne (fun l hl => (h l hl).2) (length_le_length_intercalate lines)

end HttpResponse

/-! ## What the gateway writes -/

/-- The codes. -/
def gatewayCodes : List ℕ := [200, 202, 400, 401, 413, 429, 431, 500, 503]

theorem natStr_codes : natStr 200 = ['2', '0', '0'] ∧ natStr 202 = ['2', '0', '2'] ∧
    natStr 400 = ['4', '0', '0'] ∧ natStr 401 = ['4', '0', '1'] ∧ natStr 413 = ['4', '1', '3'] ∧
    natStr 429 = ['4', '2', '9'] ∧ natStr 431 = ['4', '3', '1'] ∧ natStr 500 = ['5', '0', '0'] ∧
    natStr 503 = ['5', '0', '3'] := by
  decide

/-- The text is a response with one of the codes, and its body is one of these. -/
def Responds (P : Str → Prop) (text : Str) : Prop :=
  ∃ r : HttpResponse, r.Ok ∧ r.code ∈ gatewayCodes ∧ P r.body ∧ text = r.text

section Responds

open HttpResponse

variable {P : Str → Prop}

/-- A text that is written as a response. -/
theorem responds_of {code : ℕ} {reason : Str} {before after : List Str} {front behind body : Str}
    (hfront : front = "HTTP/1.1 ".toList ++ (natStr code ++ ' ' :: reason) ++
      (before.flatMap (eol ++ ·) ++ (eol ++ "Content-Length: ".toList)))
    (hbehind : behind = after.flatMap (eol ++ ·) ++ (eol ++ eol)) (hcode : code ∈ gatewayCodes)
    (hreason : '\r' ∉ reason)
    (hbefore : ∀ line ∈ before, (line ≠ [] ∧ '\r' ∉ line) ∧ isContentLength line = false)
    (hafter : ∀ line ∈ after, line ≠ [] ∧ '\r' ∉ line) (hbody : P body) :
    Responds P (front ++ (natStr body.length ++ (behind ++ body))) :=
  ⟨of code reason before after body, ok_of hreason hbefore hafter body, hcode, hbody,
    eq_text hfront hbehind body⟩

/-- The lines besides the length. -/
theorem lines_spec : ∀ line ∈ ["Content-Type: application/json".toList,
    "Content-Type: text/html".toList, "Connection: close".toList],
      (line ≠ [] ∧ '\r' ∉ line) ∧ isContentLength line = false := by
  decide +kernel

/-- The type of a JSON body comes before the length. -/
theorem json_eq : "\r\nContent-Type: application/json\r\nContent-Length: ".toList =
    ["Content-Type: application/json".toList].flatMap (eol ++ ·) ++
      (eol ++ "Content-Length: ".toList) := by
  simp [eol]

/-- Nothing comes between the length and the body. -/
theorem blank_eq : "\r\n\r\n".toList = ([] : List Str).flatMap (eol ++ ·) ++ (eol ++ eol) := by
  simp [eol]

/-- A response with a JSON body. -/
def jsonOf (code : ℕ) (reason body : Str) : HttpResponse :=
  of code reason ["Content-Type: application/json".toList] [] body

theorem jsonResponse_eq {status : Str} (code : ℕ) (reason : Str)
    (hstatus : status = natStr code ++ ' ' :: reason) (body : Str) :
    jsonResponse status body = (jsonOf code reason body).text := by
  subst hstatus
  have htext := eq_text (congrArg ("HTTP/1.1 ".toList ++ (natStr code ++ ' ' :: reason) ++ ·) json_eq)
    blank_eq body
  unfold jsonResponse jsonOf
  rwa [List.append_assoc, List.append_assoc] at htext

theorem ok_jsonOf (code : ℕ) {reason : Str} (hreason : '\r' ∉ reason) (body : Str) :
    (jsonOf code reason body).Ok := by
  unfold jsonOf
  exact ok_of hreason (List.forall_mem_singleton.mpr (lines_spec _ List.mem_cons_self))
    (List.forall_mem_nil _) body

theorem responds_json {status body : Str} (code : ℕ) (reason : Str)
    (hstatus : status = natStr code ++ ' ' :: reason) (hcode : code ∈ gatewayCodes)
    (hreason : '\r' ∉ reason) (hbody : P body) : Responds P (jsonResponse status body) :=
  ⟨jsonOf code reason body, ok_jsonOf code hreason body, hcode, hbody,
    jsonResponse_eq code reason hstatus body⟩

/-- The response to an exception of the bus or of the cache. -/
theorem responds_exception {body : Str} (hbody : P body) :
    Responds P ("HTTP/1.1 500 Internal Server Error\r\nContent-Length: ".toList ++
      (natStr body.length ++ ("\r\n\r\n".toList ++ body))) := by
  have hfront : "HTTP/1.1 500 Internal Server Error\r\nContent-Length: ".toList =
      "HTTP/1.1 ".toList ++ (natStr 500 ++ ' ' :: "Internal Server Error".toList) ++
        (([] : List Str).flatMap (eol ++ ·) ++ (eol ++ "Content-Length: ".toList)) := by
    simp [eol, natStr_codes]
  exact responds_of hfront blank_eq (by decide) (by simp) (List.forall_mem_nil _) (List.forall_mem_nil _) hbody

/-- A JSON body is printable. -/
theorem isAscii_dumps_fields {ft : FloatText} {fields : Fields} (hnodup : (fields.map Prod.fst).Nodup)
    (h : ∀ f ∈ fields, Canonical ft f.2) : IsAscii (dumps (.obj fields)) :=
  isAscii_of_printable (PyJson.printable_dumps (.obj hnodup h))

theorem isAscii_of_all {s : Str} (h : (s.all fun c => c.toNat < 128) = true) : IsAscii s :=
  fun c hc => of_decide_eq_true (List.all_eq_true.mp h c hc)

/-- A request without a credential. -/
theorem responds_unauthorized (hP : ∀ s, IsAscii s → P s) : Responds P unauthorized := by
  have hfront : "HTTP/1.1 401 Unauthorized\r\nContent-Type: text/html\r\nContent-Length: ".toList =
      "HTTP/1.1 ".toList ++ (natStr 401 ++ ' ' :: "Unauthorized".toList) ++
        (["Content-Type: text/html".toList].flatMap (eol ++ ·) ++
          (eol ++ "Content-Length: ".toList)) := by
    simp [eol, natStr_codes]
  exact responds_of hfront blank_eq (by decide) (by simp)
    (List.forall_mem_singleton.mpr (lines_spec _ (by simp))) (List.forall_mem_nil _)
    (hP _ (isAscii_of_all (by simp)))

/-- A request too many. -/
theorem responds_tooManyRequests (hP : ∀ s, IsAscii s → P s) : Responds P tooManyRequests := by
  have hfront : "HTTP/1.1 429 Too Many Requests\r\nContent-Type: text/html\r\nContent-Length: ".toList =
      "HTTP/1.1 ".toList ++ (natStr 429 ++ ' ' :: "Too Many Requests".toList) ++
        (["Content-Type: text/html".toList].flatMap (eol ++ ·) ++
          (eol ++ "Content-Length: ".toList)) := by
    simp [eol, natStr_codes]
  exact responds_of hfront blank_eq (by decide) (by simp)
    (List.forall_mem_singleton.mpr (lines_spec _ (by simp))) (List.forall_mem_nil _)
    (hP _ (isAscii_of_all (by simp)))

/-- A request that cannot be read. -/
theorem responds_refusal (hP : ∀ s, IsAscii s → P s) (e : RequestError) : Responds P (refusal e) := by
  have hrefusal : ∀ {status body : Str} (code : ℕ) (reason : Str), status = natStr code ++ ' ' :: reason →
      code ∈ gatewayCodes → '\r' ∉ reason → IsAscii body → Responds P ("HTTP/1.1 ".toList ++ (status ++
        ("\r\nContent-Type: application/json\r\nContent-Length: ".toList ++ (natStr body.length ++
          ("\r\nConnection: close\r\n\r\n".toList ++ body))))) := by
    rintro status body code reason rfl hcode hreason hbody
    have hbehind : "\r\nConnection: close\r\n\r\n".toList =
        ["Connection: close".toList].flatMap (eol ++ ·) ++ (eol ++ eol) := by
      simp [eol]
    have hresponds := responds_of
      (congrArg ("HTTP/1.1 ".toList ++ (natStr code ++ ' ' :: reason) ++ ·) json_eq) hbehind hcode
      hreason (List.forall_mem_singleton.mpr (lines_spec _ List.mem_cons_self)) (by simp)
      (hP _ hbody)
    rwa [List.append_assoc, List.append_assoc] at hresponds
  have h400 : "400 Bad Request".toList = natStr 400 ++ ' ' :: "Bad Request".toList := by
    simp [natStr_codes]
  unfold refusal
  dsimp only
  split_ifs
  · exact hrefusal 431 "Request Header Fields Too Large".toList (by simp [natStr_codes]) (by decide)
      (by simp) (isAscii_of_all (by simp))
  · exact hrefusal 413 "Content Too Large".toList (by simp [natStr_codes]) (by decide)
      (by simp) (isAscii_of_all (by simp))
  · exact hrefusal 400 "Bad Request".toList h400 (by decide)
      (by simp) (isAscii_of_all (by simp))
  · exact hrefusal 400 "Bad Request".toList h400 (by decide) (by simp)
      (@isAscii_dumps_fields .verbatim _ (List.nodup_singleton _)
        (List.forall_mem_singleton.mpr (.str _)))

/-- The task id of a submission is a JSON value. -/
theorem canonical_prepareSubmit (cfg : GatewayConfig) (uuid : Str) (body : Bytes) :
    Canonical cfg.ft ((prepareSubmit cfg.loads uuid body).1.getD .null) := by
  unfold prepareSubmit
  split
  · rename_i data hdata
    split
    · rename_i task_id hid
      obtain ⟨text, -, hloads⟩ := Option.bind_eq_some_iff.mp hdata
      cases cfg.lawful.canonical (PyJson.Loaded.value?_eq_some.mp hloads) with
      | obj hnodup hfields => exact hfields _ (PyDict.mem_of_lookup hid)
    · exact .str uuid
  · exact .null

/-- A submission. -/
theorem responds_submit (hP : ∀ s, IsAscii s → P s) (cfg : GatewayConfig) (uuid : Str)
    (bus : BusConnection) (body : Bytes) :
    Responds P (processSubmit cfg.loads uuid bus body).1.text := by
  cases bus with
  | unavailable =>
    exact responds_json 503 "Service Unavailable".toList (by simp [natStr_codes]) (by decide)
      (by simp) (hP _ (isAscii_of_all (by simp)))
  | raises sent detail =>
    have hnames : ["error".toList, "detail".toList].Nodup := by simp
    exact responds_exception (hP _ (@isAscii_dumps_fields .verbatim _ hnames
      (List.forall_mem_cons.mpr ⟨.str _, List.forall_mem_singleton.mpr (.str _)⟩)))
  | takes =>
    have hnames : ["status".toList, "task_id".toList, "message".toList].Nodup := by simp
    exact responds_json 202 "Accepted".toList (by simp [natStr_codes]) (by decide) (by simp)
      (hP _ (@isAscii_dumps_fields cfg.ft _ hnames (List.forall_mem_cons.mpr ⟨.str _,
        List.forall_mem_cons.mpr ⟨canonical_prepareSubmit cfg uuid body,
          List.forall_mem_singleton.mpr (.str _)⟩⟩)))

/-- A status query, from a cache with such texts. -/
theorem responds_status (hP : ∀ s, IsAscii s → P s) {get : CacheGet}
    (hget : ∀ key text, get key = .ok (some text) → P text) (path : Str) :
    Responds P (processStatus get path).1 := by
  have h200 : "200 OK".toList = natStr 200 ++ ' ' :: "OK".toList := by simp [natStr_codes]
  have hok : '\r' ∉ "OK".toList := by simp
  have hpending : ∀ task_id, Responds P (jsonResponse "200 OK".toList
      (dumps (.obj [("status".toList, .str "PENDING".toList), ("task_id".toList, .str task_id),
        ("message".toList, .str "Task not found in cache yet.".toList)]))) := by
    intro task_id
    have hnames : ["status".toList, "task_id".toList, "message".toList].Nodup := by simp
    exact responds_json 200 "OK".toList h200 (by decide) hok (hP _ (@isAscii_dumps_fields .verbatim _
      hnames (List.forall_mem_cons.mpr ⟨.str _, List.forall_mem_cons.mpr ⟨.str _,
        List.forall_mem_singleton.mpr (.str _)⟩⟩)))
  unfold processStatus
  split
  · rename_i task_id hid
    unfold statusAnswer
    split
    · rename_i c task_raw hraw
      exact responds_json 200 "OK".toList h200 (by decide) hok (hget _ _ hraw)
    · exact hpending task_id
    · rename_i detail hraw
      have hnames : ["error".toList, "detail".toList].Nodup := by simp
      exact responds_exception (hP _ (@isAscii_dumps_fields .verbatim _ hnames
        (List.forall_mem_cons.mpr ⟨.str _, List.forall_mem_singleton.mpr (.str _)⟩)))
  · exact responds_json 400 "Bad Request".toList (by simp [natStr_codes]) (by decide) (by simp)
      (hP _ (isAscii_of_all (by simp)))

/-- What blocks a request is what one of the middlewares answers. -/
theorem exists_run_of_runPipeline {cfg : GatewayConfig} {a : Arrival} {middlewares : List Middleware}
    {buckets : Buckets} {error_payload : Str}
    (h : (runPipeline cfg a middlewares buckets).1 = some error_payload) :
    ∃ (middleware : Middleware) (buckets' : Buckets),
      (middleware.run cfg a buckets').1 = some error_payload := by
  induction middlewares generalizing buckets with
  | nil => cases h
  | cons middleware rest ih =>
    rw [runPipeline] at h
    split at h
    · rename_i error_payload' buckets' hrun
      cases h
      exact ⟨middleware, buckets, congrArg Prod.fst hrun⟩
    · exact ih h

theorem responds_blocked (hP : ∀ s, IsAscii s → P s) {cfg : GatewayConfig} {a : Arrival}
    {buckets : Buckets} {error_payload : Str}
    (h : (processClientSocket cfg a buckets).1 = .blocked error_payload) :
    Responds P error_payload := by
  have hrun : (runPipeline cfg a MIDDLEWARE_PIPELINE buckets).1 = some error_payload := by
    unfold processClientSocket at h
    split at h
    · rename_i error_payload' buckets' hrun
      cases h
      exact congrArg Prod.fst hrun
    · split_ifs at h
  obtain ⟨middleware, buckets', hanswer⟩ := exists_run_of_runPipeline hrun
  cases middleware with
  | logger => cases hanswer
  | authenticator =>
    unfold Middleware.run middlewareAuthenticator at hanswer
    dsimp only at hanswer
    split_ifs at hanswer
    cases hanswer
    exact responds_unauthorized hP
  | rateLimiter =>
    rw [eq_tooManyRequests hanswer]
    exact responds_tooManyRequests hP
  | requestValidator =>
    unfold Middleware.run middlewareRequestValidator at hanswer
    dsimp only at hanswer
    split_ifs at hanswer
    split at hanswer
    · cases hanswer
    · cases hanswer
      exact responds_json 400 "Bad Request".toList (by simp [natStr_codes]) (by decide)
        (by simp) (hP _ (isAscii_of_all (by simp)))

/-- The response to a client, from a cache with such texts. -/
theorem responds_processClientSocket (hP : ∀ s, IsAscii s → P s) (g : Gateway)
    (hget : ∀ key text, g.get key = .ok (some text) → P text) (client_ip : Str) (now : ℚ)
    (buckets : Buckets) (client_conn : Conn) :
    Responds P (g.processClientSocket client_ip now buckets client_conn).1 := by
  unfold Gateway.processClientSocket
  split
  · exact responds_refusal hP _
  · split
    · rename_i error_payload hblocked
      exact responds_blocked hP hblocked
    · exact responds_submit hP g.cfg _ _ _
    · exact responds_status hP hget _
    · exact responds_json 200 "OK".toList (by simp [natStr_codes]) (by decide) (by simp)
        (hP _ (isAscii_of_all (by simp)))

/-- **Whatever a client sends**, however it comes, it is sent a response: a status line with one of the
codes, header lines, the first length among which is the number of bytes of the body, a blank line and
the body. The texts in the cache are ASCII. -/
theorem gateway_responds (g : Gateway)
    (hget : ∀ key text, g.get key = .ok (some text) → IsAscii text) (client_ip : Str) (now : ℚ)
    (buckets : Buckets) (client_conn : Conn) : ∃ r : HttpResponse,
      (g.processClientSocket client_ip now buckets client_conn).1 = r.text ∧ r.code ∈ gatewayCodes ∧
        (∀ line ∈ r.statusLine :: r.headers, line ≠ [] ∧ '\r' ∉ line) ∧
        r.headers.find? isContentLength =
          some ("Content-Length: ".toList ++ natStr (encodeUtf8 r.body).length) := by
  obtain ⟨r, hok, hcode, hbody, htext⟩ :=
    responds_processClientSocket (fun _ => id) g hget client_ip now buckets client_conn
  refine ⟨r, htext, hcode, hok.lines, ?_⟩
  rw [(length_encodeUtf8_eq_iff r.body).mpr hbody]
  exact hok.length

/-- What a submission has put into the cache is ASCII. -/
theorem isAscii_plainGateway (task_id key text : Str)
    (h : (plainGateway task_id).get key = .ok (some text)) : IsAscii text := by
  have hget : ((plainSave task_id).cache noRepr ∅).get? key = some text := Except.ok.inj h
  rw [Save.cache, PyDict.get?_set] at hget
  split_ifs at hget
  · cases hget
    exact (length_encodeUtf8_eq_iff _).mp (Save.length_encodeUtf8_text noRepr _)
  · cases hget

theorem gateway_responds_plain : ∃ r : HttpResponse,
    ((plainGateway ['1']).processClientSocket "127.0.0.1".toList 0 ∅
        ⟨encodeUtf8 "GET /status?id=1 HTTP/1.1\r\n\r\n".toList, [3, 1]⟩).1 = r.text ∧
      r.headers.find? isContentLength =
        some ("Content-Length: ".toList ++ natStr (encodeUtf8 r.body).length) := by
  obtain ⟨r, htext, -, -, hlength⟩ := gateway_responds (plainGateway ['1'])
    (isAscii_plainGateway ['1']) "127.0.0.1".toList 0 ∅
    ⟨encodeUtf8 "GET /status?id=1 HTTP/1.1\r\n\r\n".toList, [3, 1]⟩
  exact ⟨r, htext, hlength⟩

end Responds

end JobSystem
