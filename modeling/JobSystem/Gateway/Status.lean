import JobSystem.Lib.Percent
import JobSystem.Coordinator.Repo
import JobSystem.Gateway.Auth

/-!
# Status queries

`GET /status?id=…`: the gateway looks a task up under the text that the query has for its id, and
`TaskRepository.save_task` has stored the record under the id itself. Nothing decodes the query.

* `Save`, `taskKey`, `Save.text`: what `save_task` puts into the cache, the text of the record of
  `TaskRepository` (`text_saveTask`); `OwnRecords`, **`ownRecords_foldl`**: every run of it keeps the
  records apart;
* `statusTaskId`, `processStatus`; `Gateway.processClientSocket`: what a client is sent, and the keys
  that are read for it;
* `StatusQuery`: a request for `/status?id=E`, where `E` is the percent-encoding of an id; `Taken`: it is
  not refused; `StatusQuery.bare`: there is one for every id;
* `returns_iff`, `keys_of_taken`: what is answered, and the key that is read;
* **`status_found_iff`**: the ids whose record is found.
-/

namespace JobSystem

open PyText TokenBucket
open PyJson (Json dumps)

/-! ## What is stored -/

/-- `f"task:{task_id}"` -/
def taskKey (task_id : Str) : Str := "task:".toList ++ task_id

/-- `task_data` of `save_task`. -/
def taskData (task_id job_type priority status : Str) (retries : ℤ) (worker_id : Option Str) : Fields :=
  [("task_id".toList, .str task_id), ("job_type".toList, .str job_type),
    ("priority".toList, .str priority), ("status".toList, .str status),
    ("retries".toList, .int retries), ("worker_id".toList, (worker_id.map Json.str).getD .null)]

/-- The arguments of `save_task`. -/
structure Save where
  task_id : Str
  job_type : Json
  priority : Json
  status : Str
  retries : ℤ
  worker_id : Option Str

namespace Save

variable (repr : Json → Str) (s : Save)

/-- `json.dumps(task_data)` -/
def text : Str :=
  dumps (.obj (taskData s.task_id (s.job_type.pyStr repr) (s.priority.pyStr repr) s.status s.retries
    s.worker_id))

/-- `task_cache.set(f"task:{task_id}", json.dumps(task_data))` -/
def cache (texts : PyDict Str Str) : PyDict Str Str := texts.set (taskKey s.task_id) (s.text repr)

end Save

/-- `status` as text. -/
def TaskStatus.text : TaskStatus → Str
  | PENDING => "PENDING".toList
  | ASSIGNED => "ASSIGNED".toList
  | RETRYING => "RETRYING".toList
  | COMPLETED => "COMPLETED".toList
  | DLQ => "DLQ".toList

/-- **The text is that of the record** that the repository caches. -/
theorem TaskRepository.text_saveTask (repr : Json → Str) (repo : TaskRepository) (t : Str)
    (job_type priority : Json) (status : TaskStatus) (retries : ℤ) (worker_id : Option Str) :
    ((repo.saveTask repr t job_type priority status retries worker_id).task_cache.get? t).map
        (fun r => dumps (.obj (taskData t r.job_type r.priority r.status.text r.retries r.worker_id))) =
      some (Save.text repr ⟨t, job_type, priority, status.text, retries, worker_id⟩) := by
  rw [saveTask, PyDict.get?_set_self]
  rfl

/-- `task_cache.get`: a text or `None`, or it raises. -/
abbrev CacheGet := Str → Except Str (Option Str)

/-- A cache that neither fails nor evicts. -/
def readTexts (texts : PyDict Str Str) : CacheGet := fun key => .ok (texts.get? key)

/-- The cache has under the key of a task only objects with the id of that task in front. -/
def OwnRecords (get : CacheGet) : Prop := ∀ t text, get (taskKey t) = .ok (some text) →
  ∃ fields, text = dumps (.obj (("task_id".toList, .str t) :: fields))

/-- A record is printable ASCII, so its length is the number of its bytes. -/
theorem Save.length_encodeUtf8_text (repr : Json → Str) (s : Save) :
    (encodeUtf8 (s.text repr)).length = (s.text repr).length := by
  have hcanonical : PyJson.Canonical .verbatim (.obj (taskData s.task_id (s.job_type.pyStr repr)
      (s.priority.pyStr repr) s.status s.retries s.worker_id)) := by
    have hnames : ["task_id".toList, "job_type".toList, "priority".toList, "status".toList,
        "retries".toList, "worker_id".toList].Nodup := by decide
    refine .obj hnames fun f hf => ?_
    simp only [taskData, List.mem_cons, List.not_mem_nil, or_false] at hf
    rcases hf with rfl | rfl | rfl | rfl | rfl | rfl
    · exact .str _
    · exact .str _
    · exact .str _
    · exact .str _
    · exact .int _
    · cases s.worker_id with
      | none => exact .null
      | some worker_id => exact .str _
  exact (length_encodeUtf8_eq_iff _).mpr (isAscii_of_printable (PyJson.printable_dumps hcanonical))

theorem taskKey_injective : Function.Injective taskKey := fun _ _ h => List.append_cancel_left h

theorem ownRecords_empty : OwnRecords (readTexts ∅) := by
  intro t text h
  cases h

/-- **`save_task` keeps the records apart.** -/
theorem OwnRecords.save {texts : PyDict Str Str} (h : OwnRecords (readTexts texts))
    (repr : Json → Str) (s : Save) : OwnRecords (readTexts (s.cache repr texts)) := by
  intro t text hget
  rw [readTexts, Save.cache, PyDict.get?_set] at hget
  split_ifs at hget with hkey
  · cases hget
    rw [taskKey_injective hkey]
    exact ⟨_, rfl⟩
  · exact h t text hget

/-- **Every run of `save_task`** keeps the records apart. -/
theorem ownRecords_foldl (repr : Json → Str) (saves : List Save) :
    OwnRecords (readTexts (saves.foldl (fun texts s => s.cache repr texts) ∅)) := by
  induction saves using List.reverseRecOn with
  | nil => exact ownRecords_empty
  | append_singleton saves s ih =>
    rw [List.foldl_append]
    exact ih.save repr s

theorem exists_commaJoin_cons (t : Str) (ts : List Str) :
    ∃ rest, PyJson.commaJoin (t :: ts) = t ++ rest := by
  cases ts with
  | nil => exact ⟨[], (List.append_nil t).symm⟩
  | cons t' ts => exact ⟨_, rfl⟩

/-- The object begins with the id. -/
theorem dumps_task_id (t : Str) (fields : Fields) : ∃ rest,
    dumps (.obj (("task_id".toList, .str t) :: fields)) =
      "\x7b\"task_id\": \"".toList ++ (t.flatMap PyJson.escapeChar ++ '"' :: rest) := by
  obtain ⟨rest, hrest⟩ := exists_commaJoin_cons
    (PyJson.dumpsStr "task_id".toList ++ (':' :: ' ' :: dumps (.str t))) (PyJson.dumpsFields fields)
  have hfirst : PyJson.dumpsStr "task_id".toList ++ (':' :: ' ' :: dumps (.str t)) =
      "\"task_id\": \"".toList ++ (t.flatMap PyJson.escapeChar ++ ['"']) := rfl
  refine ⟨rest ++ ['\x7d'], ?_⟩
  rw [dumps, PyJson.dumpsFields, hrest, hfirst]
  simp only [List.append_assoc]
  rfl

/-- **Objects of different tasks have different texts.** -/
theorem task_id_of_dumps {t t' : Str} {fields fields' : Fields}
    (h : dumps (.obj (("task_id".toList, .str t) :: fields)) =
      dumps (.obj (("task_id".toList, .str t') :: fields'))) : t = t' := by
  obtain ⟨rest, hrest⟩ := dumps_task_id t fields
  obtain ⟨rest', hrest'⟩ := dumps_task_id t' fields'
  rw [hrest, hrest'] at h
  have hscan := congrArg PyJson.scanString (List.append_cancel_left h)
  rw [PyJson.scanString_dumps, PyJson.scanString_dumps] at hscan
  simp only [Option.some.injEq, Prod.mk.injEq] at hscan
  exact hscan.1

/-! ## The gateway -/

/-- The `for` loop over the pairs of the query: the value of the first `id`. -/
def queryId : List Str → Option Str
  | [] => none
  | pair :: pairs =>
    match splitOnce ['='] pair with
    | some (k, v) => if k = "id".toList then some v else queryId pairs
    | none => queryId pairs

/-- `task_id` in the branch `/status`. -/
def statusTaskId (original_path : Str) : Option Str :=
  match splitOnce ['?'] original_path with
  | some (_, query) => queryId (split ['&'] query)
  | none => none

/-- The response to a query that `task_cache.get` has answered; the one for an exception comes without
a content type. -/
def statusAnswer (task_id : Str) : Except Str (Option Str) → Str
  | .ok (some (c :: task_raw)) => jsonResponse "200 OK".toList (c :: task_raw)
  | .ok _ => jsonResponse "200 OK".toList (dumps (.obj [("status".toList, .str "PENDING".toList),
      ("task_id".toList, .str task_id),
      ("message".toList, .str "Task not found in cache yet.".toList)]))
  | .error detail =>
    let body := dumps (.obj [("error".toList, .str "Cache Read Error".toList),
      ("detail".toList, .str detail)])
    "HTTP/1.1 500 Internal Server Error\r\nContent-Length: ".toList ++
      (natStr body.length ++ ("\r\n\r\n".toList ++ body))

/-- The branch `/status`: the response, and the keys that are read from the cache. -/
def processStatus (get : CacheGet) (original_path : Str) : Str × List Str :=
  match (statusTaskId original_path).filter (· ≠ []) with
  | some task_id => (statusAnswer task_id (get (taskKey task_id)), [taskKey task_id])
  | none => (jsonResponse "400 Bad Request".toList
      "\x7b\"error\": \"Missing task ID\"\x7d".toList, [])

/-- The code of a response starts with this digit. -/
def codeDigit (response : Str) : Option Char := response[9]?

/-- The response to a request that `parse_http_request` refuses. -/
def refusal (e : RequestError) : Str :=
  let err_msg := e.text
  let has (code : Str) : Bool := (splitOnce code err_msg).isSome
  let (status, body) :=
    if has "431".toList then ("431 Request Header Fields Too Large".toList,
      "\x7b\"error\": \"Request Header Fields Too Large\"\x7d".toList)
    else if has "413".toList then ("413 Content Too Large".toList,
      "\x7b\"error\": \"Payload Content Too Large (Limit 1MB)\"\x7d".toList)
    else if has "400".toList then ("400 Bad Request".toList,
      "\x7b\"error\": \"Bad Request: Invalid format\"\x7d".toList)
    else ("400 Bad Request".toList,
      dumps (.obj [("error".toList, .str ("Bad Request: ".toList ++ err_msg))]))
  "HTTP/1.1 ".toList ++ (status ++
    ("\r\nContent-Type: application/json\r\nContent-Length: ".toList ++ (natStr body.length ++
      ("\r\nConnection: close\r\n\r\n".toList ++ body))))

/-- A refusal has a code that starts with 4. -/
theorem codeDigit_refusal (e : RequestError) : codeDigit (refusal e) = some '4' := by
  unfold refusal
  dsimp only
  split_ifs <;> rfl

/-- What the gateway works with; `uuid` and `bus` are what `uuid4` and the pool give for the client. -/
structure Gateway where
  lim : RequestLimits
  cfg : GatewayConfig
  get : CacheGet
  uuid : Str
  bus : BusConnection

/-- `process_client_socket`: what the client is sent, and the keys that are read from the cache. -/
def Gateway.processClientSocket (g : Gateway) (client_ip : Str) (now : ℚ) (buckets : Buckets)
    (client_conn : Conn) : Str × List Str :=
  match parseHttpRequest g.lim client_conn with
  | .error e => (refusal e, [])
  | .ok request =>
    match (JobSystem.processClientSocket g.cfg ⟨client_ip, now, request⟩ buckets).1 with
    | .blocked error_payload => (error_payload, [])
    | .getConnection => ((processSubmit g.cfg.loads g.uuid g.bus request.body).1.text, [])
    | .status => processStatus g.get request.path
    | .ok => (jsonResponse "200 OK".toList "\x7b\"status\": \"Gateway OK\"\x7d".toList, [])

/-! ## The query -/

/-- `/status?id=E` -/
def statusPath (task_id : Str) : Str := "/status?id=".toList ++ Percent.encode task_id

/-- **The query has the encoding of the id.** -/
theorem statusTaskId_statusPath (t : Str) :
    statusTaskId (statusPath t) = some (Percent.encode t) := by
  have hpath : statusPath t = "/status".toList ++ (['?'] ++ ("id=".toList ++ Percent.encode t)) := rfl
  have hamp : '&' ∉ "id=".toList ++ Percent.encode t := by
    rw [List.mem_append, not_or]
    exact ⟨by decide, Percent.notMem_encode (by decide) (by decide) t⟩
  have hpairs : split ['&'] ("id=".toList ++ Percent.encode t) = ["id=".toList ++ Percent.encode t] :=
    splitMax_of_notMem rfl hamp _
  have hpair : splitOnce ['='] ("id=".toList ++ Percent.encode t) =
      some ("id".toList, Percent.encode t) :=
    @splitOnce_append _ _ '=' [] "id".toList (by decide) (Percent.encode t)
  rw [statusTaskId, hpath, splitOnce_append (by decide)]
  dsimp only
  rw [hpairs, queryId, hpair]
  exact if_pos rfl

/-- **The query reads one key**, that of the encoding. -/
theorem processStatus_statusPath (get : CacheGet) {t : Str} (h : t ≠ []) :
    processStatus get (statusPath t) =
      (statusAnswer (Percent.encode t) (get (taskKey (Percent.encode t))),
        [taskKey (Percent.encode t)]) := by
  have hne : Percent.encode t ≠ [] := by
    intro hnil
    have hlen := Percent.length_le_length_encode t
    rw [hnil, List.length_nil, Nat.le_zero] at hlen
    exact h (List.length_eq_zero_iff.mp hlen)
  rw [processStatus, statusTaskId_statusPath, Option.filter_some, if_pos (decide_eq_true hne)]

theorem exists_cons_splitMax (sep : Str) (n : ℕ) (s : Str) : ∃ a l, splitMax sep n s = a :: l := by
  cases n with
  | zero => exact ⟨_, _, rfl⟩
  | succ n =>
    rw [splitMax]
    split
    · exact ⟨_, _, rfl⟩
    · exact ⟨_, _, rfl⟩

/-- The fields of the request line. -/
theorem split_requestLine (t version : Str) : ∃ version' more,
    split " ".toList ("GET ".toList ++ (statusPath t ++ ' ' :: version)) =
      "GET".toList :: statusPath t :: version' :: more := by
  have hspace : ' ' ∉ statusPath t := by
    unfold statusPath
    rw [List.mem_append, not_or]
    exact ⟨by decide, Percent.notMem_encode (by decide) (by decide) t⟩
  have hlong : 2 ≤ ("GET ".toList ++ (statusPath t ++ ' ' :: version)).length := by
    rw [List.length_append]
    exact (by decide : 2 ≤ "GET ".toList.length).trans (Nat.le_add_right _ _)
  obtain ⟨n, hn⟩ := Nat.exists_eq_add_of_le' hlong
  obtain ⟨version', more, hversion⟩ := exists_cons_splitMax " ".toList n version
  refine ⟨version', more, ?_⟩
  have hline : "GET ".toList ++ (statusPath t ++ ' ' :: version) =
      "GET".toList ++ (" ".toList ++ (statusPath t ++ (" ".toList ++ version))) := rfl
  have hsep : " ".toList = [' '] := rfl
  rw [split, hn, hline, splitMax_append hsep (by decide), splitMax_append hsep hspace, hversion]

/-! ## What is let through -/

/-- The rate limiter has a token for the request, or leaves it alone. -/
def InQuota (buckets : Buckets) (client_ip : Str) (headers : List Str) (now : ℚ) : Prop :=
  headers.any isBenchmark = true ∨
    1 ≤ refill MAX_TOKENS REFILL_RATE (bucketAt buckets client_ip [now]) now

section Dispatch

variable {cfg : GatewayConfig} {a : Arrival} {buckets : Buckets}

theorem eq_tooManyRequests {client_ip : Str} {headers : List Str} {now : ℚ} {error_payload : Str}
    (h : (middlewareRateLimiter buckets client_ip headers now).1 = some error_payload) :
    error_payload = tooManyRequests := by
  unfold middlewareRateLimiter at h
  dsimp only at h
  split_ifs at h
  cases h
  rfl

/-- **A status query passes the pipeline** as far as the rate limiter lets it. -/
theorem runPipeline_status (h : "/status".toList <+: a.request.path) :
    runPipeline cfg a MIDDLEWARE_PIPELINE buckets =
      middlewareRateLimiter buckets a.client_ip a.request.headers a.now := by
  have hauth : middlewareAuthenticator cfg a.request.headers a.request.path = none := if_pos (.inl h)
  have hsubmit : ¬ "/submit".toList <+: a.request.path := by
    intro hsubmit
    have hboth := List.prefix_of_prefix_length_le h hsubmit (by decide)
    exact absurd hboth (by decide)
  have hvalid : middlewareRequestValidator cfg.loads a.request.method a.request.path a.request.body =
      none := if_neg fun hn => hsubmit hn.1
  simp only [MIDDLEWARE_PIPELINE, runPipeline, Middleware.run, hauth, hvalid]
  cases middlewareRateLimiter buckets a.client_ip a.request.headers a.now with
  | mk answer buckets' => cases answer <;> rfl

theorem processClientSocket_status (h : "/status".toList <+: a.request.path)
    (hquota : InQuota buckets a.client_ip a.request.headers a.now) :
    (processClientSocket cfg a buckets).1 = .status := by
  have hpass := (middlewareRateLimiter_fst_eq_none a buckets).mpr hquota
  have hsubmit : a.request.path ≠ "/submit".toList := by
    intro heq
    rw [heq] at h
    exact absurd h (by decide)
  rw [processClientSocket, runPipeline_status h]
  cases hlimit : middlewareRateLimiter buckets a.client_ip a.request.headers a.now with
  | mk answer buckets' =>
    rw [hlimit] at hpass
    subst hpass
    dsimp only
    rw [if_neg hsubmit, if_pos h]

theorem processClientSocket_blocked (h : "/status".toList <+: a.request.path)
    (hquota : ¬ InQuota buckets a.client_ip a.request.headers a.now) :
    (processClientSocket cfg a buckets).1 = .blocked tooManyRequests := by
  have hstop := mt (middlewareRateLimiter_fst_eq_none a buckets).mp hquota
  rw [processClientSocket, runPipeline_status h]
  cases hlimit : middlewareRateLimiter buckets a.client_ip a.request.headers a.now with
  | mk answer buckets' =>
    rw [hlimit] at hstop
    obtain ⟨error_payload, rfl⟩ := Option.ne_none_iff_exists'.mp hstop
    rw [eq_tooManyRequests (congrArg Prod.fst hlimit)]

end Dispatch

/-! ## Responses -/

/-- The response returns a JSON text, and the length that it declares is the number of bytes. -/
def Returns (response text : Str) : Prop :=
  response = jsonResponse "200 OK".toList text ∧ (encodeUtf8 text).length = text.length

theorem returns_text_iff (repr : Json → Str) (s : Save) (response : Str) :
    Returns response (s.text repr) ↔ response = jsonResponse "200 OK".toList (s.text repr) :=
  and_iff_left (s.length_encodeUtf8_text repr)

/-- A response has one body. -/
theorem jsonResponse_injective (status : Str) : Function.Injective (jsonResponse status) := by
  intro body body' h
  have h := List.append_cancel_left (List.append_cancel_left (List.append_cancel_left h))
  have hcr : ∀ n, '\r' ∉ natStr n := fun n => notMem_natStr (by decide) n
  have hsplit := congrArg (splitOnce "\r\n\r\n".toList) h
  have hsep : "\r\n\r\n".toList = ['\r', '\n', '\r', '\n'] := rfl
  rw [hsep, splitOnce_append (hcr _), splitOnce_append (hcr _)] at hsplit
  simp only [Option.some.injEq, Prod.mk.injEq] at hsplit
  exact hsplit.2

/-- **Only the record itself is answered with the record.** -/
theorem statusAnswer_eq_iff (task_id t : Str) (fields : Fields) (r : Except Str (Option Str)) :
    statusAnswer task_id r = jsonResponse "200 OK".toList
        (dumps (.obj (("task_id".toList, .str t) :: fields))) ↔
      r = .ok (some (dumps (.obj (("task_id".toList, .str t) :: fields)))) := by
  obtain ⟨rest, htext⟩ := dumps_task_id t fields
  rw [htext]
  constructor
  · intro h
    unfold statusAnswer at h
    split at h
    · rw [jsonResponse_injective _ h]
    · -- the answer without a record has the status in front
      have hbody : some 's' = some 't' := congrArg (·[2]?) (jsonResponse_injective _ h)
      exact absurd hbody (by decide)
    · have hcode : some '5' = some '2' := congrArg codeDigit h
      exact absurd hcode (by decide)
  · rintro rfl
    rfl

/-! ## What is answered -/

/-- A GET request for the status of a task: its bytes, as they come, and the client that sends them. -/
structure StatusQuery (task_id : Str) where
  client_ip : Str
  now : ℚ
  buckets : Buckets
  conn : Conn
  header_part : Bytes
  rest : Bytes
  version : Str
  headers : List Str
  found : splitOnce blankLine conn.incoming = some (header_part, rest)
  lines : headerLines header_part =
    ("GET ".toList ++ (statusPath task_id ++ ' ' :: version)) :: headers

/-- `process_client_socket` for a status query. -/
def Gateway.query (g : Gateway) {task_id : Str} (q : StatusQuery task_id) : Str × List Str :=
  g.processClientSocket q.client_ip q.now q.buckets q.conn

namespace StatusQuery

variable {g : Gateway} {t : Str} {q : StatusQuery t}

/-- The request is not refused: its header block ends before the buffer is full, its body is not too
long and comes, and the rate limiter lets it pass. -/
structure Taken (g : Gateway) (q : StatusQuery t) : Prop where
  found : splitOnce blankLine (readHeaders g.lim q.conn).1 ≠ none
  length : declaredLength g.lim q.header_part ≤ g.lim.max_content_length
  body : declaredLength g.lim q.header_part ≤ q.rest.length
  quota : InQuota q.buckets q.client_ip q.headers q.now

theorem requestFields_eq (q : StatusQuery t) : ∃ version more,
    requestFields q.header_part = "GET".toList :: statusPath t :: version :: more := by
  rw [requestFields, q.lines, List.headD_cons]
  exact split_requestLine t q.version

/-- The request that is read. -/
theorem eq_of_parse {request : HttpRequest} (h : parseHttpRequest g.lim q.conn = .ok request) :
    request.path = statusPath t ∧ request.headers = q.headers := by
  obtain ⟨version, more, hfields, hheaders⟩ := fields_of_parse q.found h
  obtain ⟨version', more', hquery⟩ := q.requestFields_eq
  rw [hquery] at hfields
  simp only [List.cons.injEq] at hfields
  refine ⟨hfields.2.1.symm, ?_⟩
  rw [hheaders, q.lines, List.tail_cons]

/-- A request that is read is refused by the rate limiter only. -/
theorem taken_iff : q.Taken g ↔
    (parseHttpRequest g.lim q.conn).isOk ∧ InQuota q.buckets q.client_ip q.headers q.now := by
  obtain ⟨version, more, hquery⟩ := q.requestFields_eq
  have hthree : 3 ≤ (requestFields q.header_part).length := by
    rw [hquery]
    simp
  rw [isOk_parse_iff q.found]
  exact ⟨fun h => ⟨⟨h.found, hthree, h.length, h.body⟩, h.quota⟩,
    fun h => ⟨h.1.1, h.1.2.2.1, h.1.2.2.2, h.2⟩⟩

/-- What the rate limiter makes of a request that is read. -/
theorem query_of_parse {request : HttpRequest} (h : parseHttpRequest g.lim q.conn = .ok request) :
    (InQuota q.buckets q.client_ip q.headers q.now →
        g.query q = processStatus g.get (statusPath t)) ∧
      (¬ InQuota q.buckets q.client_ip q.headers q.now → g.query q = (tooManyRequests, [])) := by
  obtain ⟨hpath, hheaders⟩ := eq_of_parse h
  have hprefix : "/status".toList <+: request.path := by
    rw [hpath]
    exact ⟨"?id=".toList ++ Percent.encode t, rfl⟩
  rw [Gateway.query, Gateway.processClientSocket, h, ← hheaders, ← hpath]
  dsimp only
  constructor
  · intro hquota
    rw [processClientSocket_status (a := ⟨q.client_ip, q.now, request⟩) hprefix hquota]
  · intro hquota
    rw [processClientSocket_blocked (a := ⟨q.client_ip, q.now, request⟩) hprefix hquota]

/-- **A query that is taken** is answered from the cache. -/
theorem query_of_taken (h : q.Taken g) : g.query q = processStatus g.get (statusPath t) := by
  obtain ⟨hok, hquota⟩ := taken_iff.mp h
  cases hparse : parseHttpRequest g.lim q.conn with
  | error e =>
    rw [hparse] at hok
    cases hok
  | ok request => exact (query_of_parse hparse).1 hquota

/-- **A query that is not taken** gets a response that starts with 4, and reads no key. -/
theorem query_of_not_taken (h : ¬ q.Taken g) :
    codeDigit (g.query q).1 = some '4' ∧ (g.query q).2 = [] := by
  rw [taken_iff, not_and] at h
  cases hparse : parseHttpRequest g.lim q.conn with
  | error e =>
    rw [Gateway.query, Gateway.processClientSocket, hparse]
    exact ⟨codeDigit_refusal e, rfl⟩
  | ok request =>
    rw [hparse] at h
    rw [(query_of_parse hparse).2 (h rfl)]
    exact ⟨rfl, rfl⟩

/-- **When a query returns a record**: it is taken, and the cache has the record under the encoding. -/
theorem returns_iff (repr : Json → Str) (g : Gateway) {s : Save} (hid : s.task_id ≠ [])
    (q : StatusQuery s.task_id) : Returns (g.query q).1 (s.text repr) ↔
      q.Taken g ∧ g.get (taskKey (Percent.encode s.task_id)) = .ok (some (s.text repr)) := by
  rw [returns_text_iff]
  by_cases htaken : q.Taken g
  · rw [query_of_taken htaken, processStatus_statusPath _ hid, and_iff_right htaken]
    exact statusAnswer_eq_iff _ _ _ _
  · refine iff_of_false (fun h => ?_) fun h => htaken h.1
    have hcode := (query_of_not_taken htaken).1
    rw [h] at hcode
    have hdigit : some '2' = some '4' := hcode
    exact absurd hdigit (by decide)

/-- A query that is taken reads the key of the encoding. -/
theorem keys_of_taken (h : q.Taken g) (ht : t ≠ []) :
    (g.query q).2 = [taskKey (Percent.encode t)] := by
  rw [query_of_taken h, processStatus_statusPath _ ht]

/-- The record of a task is only under its own id. -/
theorem isUnreserved_of_returns {repr : Json → Str} (hown : OwnRecords g.get) {s : Save}
    (hid : s.task_id ≠ []) {q : StatusQuery s.task_id} (h : Returns (g.query q).1 (s.text repr)) :
    ∀ c ∈ s.task_id, Percent.IsUnreserved c := by
  obtain ⟨fields, htext⟩ := hown _ _ ((returns_iff repr g hid q).mp h).2
  exact Percent.encode_eq_self_iff.mp (task_id_of_dumps htext).symm

/-- **The ids whose record is found**: a query that is not refused returns the record, from every cache
that has it, if and only if the percent-encoding leaves the id alone; from a cache that has only records
under their own ids it returns no other. The queries for two ids read two keys. -/
theorem status_found_iff (repr : Json → Str) (g : Gateway) {s : Save} (hid : s.task_id ≠ [])
    (q : StatusQuery s.task_id) :
    ((∀ get : CacheGet, get (taskKey s.task_id) = .ok (some (s.text repr)) →
        Returns (({ g with get := get } : Gateway).query q).1 (s.text repr)) ↔
      q.Taken g ∧ ∀ c ∈ s.task_id, Percent.IsUnreserved c) ∧
    (OwnRecords g.get → Returns (g.query q).1 (s.text repr) →
      ∀ c ∈ s.task_id, Percent.IsUnreserved c) ∧
    ∀ (t : Str) (q' : StatusQuery t), t ≠ [] → t ≠ s.task_id → q.Taken g → q'.Taken g →
      ∃ key key', (g.query q).2 = [key] ∧ (g.query q').2 = [key'] ∧ key ≠ key' := by
  refine ⟨⟨fun h => ?_, fun ⟨htaken, hun⟩ get hget => ?_⟩,
    fun hown h => isUnreserved_of_returns hown hid h, fun t q' ht hne htaken htaken' => ?_⟩
  · -- the cache that has nothing but the record
    have hget : readTexts (s.cache repr ∅) (taskKey s.task_id) = .ok (some (s.text repr)) :=
      congrArg Except.ok (PyDict.get?_set_self _ _ _)
    have hreturns := h _ hget
    obtain ⟨htaken, -⟩ := (returns_iff repr { g with get := readTexts (s.cache repr ∅) } hid q).mp
      hreturns
    exact ⟨⟨htaken.found, htaken.length, htaken.body, htaken.quota⟩,
      isUnreserved_of_returns (ownRecords_empty.save repr s) hid hreturns⟩
  · refine (returns_iff repr { g with get := get } hid q).mpr
      ⟨⟨htaken.found, htaken.length, htaken.body, htaken.quota⟩, ?_⟩
    rw [Percent.encode_eq_self_iff.mpr hun]
    exact hget
  · refine ⟨_, _, keys_of_taken htaken hid, keys_of_taken htaken' ht, fun hkey => ?_⟩
    exact hne (Percent.encode_injective (taskKey_injective hkey)).symm

end StatusQuery

/-! ## A query for every id -/

/-- The request line. -/
def requestLine (t : Str) : Str := "GET ".toList ++ (statusPath t ++ ' ' :: "HTTP/1.1".toList)

theorem cr_notMem_requestLine (t : Str) : '\r' ∉ requestLine t := by
  unfold requestLine statusPath
  rw [List.mem_append, List.mem_append, List.mem_append, not_or, not_or, not_or]
  exact ⟨by decide, ⟨by decide, Percent.notMem_encode (by decide) (by decide) t⟩, by decide⟩

theorem isAscii_requestLine (t : Str) : IsAscii (requestLine t) := by
  unfold requestLine statusPath
  have hmethod : IsAscii "GET ".toList := (length_encodeUtf8_eq_iff _).mp rfl
  have hpath : IsAscii "/status?id=".toList := (length_encodeUtf8_eq_iff _).mp rfl
  have hversion : IsAscii (' ' :: "HTTP/1.1".toList) := (length_encodeUtf8_eq_iff _).mp rfl
  exact isAscii_append.mpr ⟨hmethod,
    isAscii_append.mpr ⟨isAscii_append.mpr ⟨hpath, Percent.isAscii_encode t⟩, hversion⟩⟩

/-- The query without headers, from a client that the rate limiter does not know. -/
def StatusQuery.bare (t : Str) : StatusQuery t where
  client_ip := "127.0.0.1".toList
  now := 0
  buckets := ∅
  conn := ⟨encodeUtf8 (requestLine t) ++ blankLine, []⟩
  header_part := encodeUtf8 (requestLine t)
  rest := []
  version := "HTTP/1.1".toList
  headers := []
  found := by
    have happ : encodeUtf8 (requestLine t) ++ blankLine =
        encodeUtf8 (requestLine t) ++ (13 :: [10, 13, 10] ++ []) := rfl
    show splitOnce blankLine (encodeUtf8 (requestLine t) ++ blankLine) = _
    rw [happ]
    exact splitOnce_append
      (notMem_encodeUtf8 (c := '\r') (by decide) (cr_notMem_requestLine t)) []
  lines := by
    have hsep : "\r\n".toList = ['\r', '\n'] := rfl
    rw [headerLines, decodeIgnore_encodeUtf8_self, split, hsep]
    cases (requestLine t).length with
    | zero => rfl
    | succ n =>
      rw [splitMax, splitOnce_eq_none_of_notMem (cr_notMem_requestLine t)]
      rfl

/-- **The query without headers is taken** if its request line is within the limit. -/
theorem StatusQuery.taken_bare {g : Gateway} {t : Str}
    (h : (requestLine t).length + 4 ≤ g.lim.max_header_size) : (StatusQuery.bare t).Taken g := by
  rw [← (length_encodeUtf8_eq_iff _).mpr (isAscii_requestLine t)] at h
  have hlength : declaredLength g.lim (StatusQuery.bare t).header_part = 0 := by
    rw [declaredLength, (StatusQuery.bare t).lines]
    rfl
  refine ⟨?_, ?_, ?_, .inr ?_⟩
  · obtain ⟨body_part, hfound, -⟩ := readHeaders_of_le (StatusQuery.bare t).found h
    rw [hfound]
    exact Option.some_ne_none _
  · rw [hlength]
    exact Int.natCast_nonneg _
  · rw [hlength]
    exact Int.natCast_nonneg _
  · have hfull : bucketAt ∅ (StatusQuery.bare t).client_ip [0] = ⟨MAX_TOKENS, 0⟩ := rfl
    show 1 ≤ refill MAX_TOKENS REFILL_RATE (bucketAt ∅ (StatusQuery.bare t).client_ip [0]) 0
    rw [hfull]
    norm_num [refill, MAX_TOKENS]

/-- A submission under an id. -/
def plainSave (task_id : Str) : Save :=
  ⟨task_id, .str "audio-enhancement".toList, .str "HIGH".toList, "PENDING".toList, 0, none⟩

/-- The text of a float or a container, of which the submission has none. -/
def noRepr : Json → Str := fun _ => []

/-- A gateway with the cache that this submission has filled. -/
def plainGateway (task_id : Str) : Gateway where
  lim := ⟨8192, 1048576, 4300⟩
  cfg := libraryConfig "secret-token-key".toList
  get := readTexts ((plainSave task_id).cache noRepr ∅)
  uuid := []
  bus := .unavailable

theorem get_plainGateway (task_id : Str) : (plainGateway task_id).get (taskKey task_id) =
    .ok (some ((plainSave task_id).text noRepr)) :=
  congrArg Except.ok (PyDict.get?_set_self _ _ _)

theorem status_found_iff_plain :
    Returns ((plainGateway "task-123".toList).query (StatusQuery.bare "task-123".toList)).1
      ((plainSave "task-123".toList).text noRepr) := by
  have hsize : (requestLine "task-123".toList).length + 4 ≤ 8192 := by decide +kernel
  have hplain : ("task-123".toList.all fun c => decide (Percent.IsUnreserved c)) = true := rfl
  have hun : ∀ c ∈ "task-123".toList, Percent.IsUnreserved c := fun c hc =>
    of_decide_eq_true (List.all_eq_true.mp hplain c hc)
  exact (StatusQuery.status_found_iff noRepr (plainGateway "task-123".toList)
    (s := plainSave "task-123".toList) (List.cons_ne_nil _ _)
    (StatusQuery.bare "task-123".toList)).1.mpr
    ⟨StatusQuery.taken_bare hsize, hun⟩ _ (get_plainGateway "task-123".toList)

/-- **An id with a space is not found**, though the cache has its record and the query is taken. -/
theorem not_found_spaced : ¬ ∀ (repr : Json → Str) (g : Gateway) (s : Save), s.task_id ≠ [] →
    g.get (taskKey s.task_id) = .ok (some (s.text repr)) →
    ∀ q : StatusQuery s.task_id, q.Taken g → Returns (g.query q).1 (s.text repr) := by
  intro h
  have hsize : (requestLine "a b".toList).length + 4 ≤ 8192 := by decide +kernel
  have hreturns := h noRepr (plainGateway "a b".toList) (plainSave "a b".toList)
    (List.cons_ne_nil _ _) (get_plainGateway "a b".toList) (StatusQuery.bare "a b".toList)
    (StatusQuery.taken_bare hsize)
  -- the query reads `task:a%20b`
  have hother : (plainGateway "a b".toList).get (taskKey (Percent.encode "a b".toList)) = .ok none := by
    decide +kernel
  have hstored := ((StatusQuery.returns_iff noRepr (plainGateway "a b".toList)
    (s := plainSave "a b".toList) (List.cons_ne_nil _ _) _).mp hreturns).2
  rw [show (plainSave "a b".toList).task_id = "a b".toList from rfl, hother] at hstored
  cases hstored

end JobSystem
