import JobSystem.Gateway.Response

/-!
# The front end

A browser's requests are passed on to the gateway, and what the gateway answers is passed back.

* `submitTask`, `statusRequest`: what the gateway is sent;
* `readResponse`, `relay`: what is made of its answer;
* `doGet`, `doPost`: `FrontendProxyHandler`.
-/

namespace JobSystem

open PyText
open PyJson (Json Console Loaded dumps)

namespace Frontend

/-- The settings, `json.loads`, the standard output, the interpreter's limit on the digits of `int`, and
the texts of the exceptions that `int`, `json.loads` and `print` raise for a text. -/
structure Config where
  GATEWAY_HOST : Str
  GATEWAY_PORT : ℤ
  GATEWAY_AUTH_TOKEN : Str
  loads : Str → Loaded
  console : Console
  max_str_digits : ℕ
  digits : max_str_digits = 0 ∨ 640 ≤ max_str_digits
  intError : Str → Str
  loadsError : Str → Str
  encodeError : Str → Str

/-- A connection to the gateway: it raises, or these bytes come back for those that are sent. -/
abbrev Dial := Bytes → Except Str Conn

/-- What `http.server` sends the browser: the status, the content type and the body. -/
structure Reply where
  code : ℤ
  content_type : Option Str
  body : Bytes

/-! ## Requests -/

/-- `event` of `submit_task`; `None` is no payload. -/
def submitEvent (job_type priority payload : Json) : Fields :=
  [("event".toList, .str JOB_SUBMITTED), ("job_type".toList, job_type),
      ("priority".toList, priority)] ++
    (payload.notNone.map fun payload => ("payload".toList, payload)).toList

/-- `{GATEWAY_HOST}:{GATEWAY_PORT}` -/
def Config.host (cfg : Config) : Str := cfg.GATEWAY_HOST ++ ':' :: intStr cfg.GATEWAY_PORT

/-- The header lines of `submit_task`. -/
def submitHeaders (cfg : Config) (body : Str) : List Str :=
  ["Host: ".toList ++ cfg.host, "Authorization: Bearer ".toList ++ cfg.GATEWAY_AUTH_TOKEN,
    "Content-Type: application/json".toList,
    "Content-Length: ".toList ++ natStr (encodeUtf8 body).length, "Connection: close".toList]

/-- A request: the lines with CR LF after them, a blank line and the body. -/
def httpRequest (lines : List Str) (body : Str) : Str :=
  HttpResponse.eol.intercalate lines ++ (HttpResponse.eol ++ HttpResponse.eol ++ body)

/-- `http_request` of `submit_task`. -/
def submitRequest (cfg : Config) (event : Fields) : Str :=
  httpRequest ("POST /submit HTTP/1.1".toList :: submitHeaders cfg (dumps (.obj event)))
    (dumps (.obj event))

/-- The header lines of a status request. -/
def statusHeaders (cfg : Config) : List Str :=
  ["Host: ".toList ++ cfg.host, "Connection: close".toList]

/-- `http_request` of `do_GET`. -/
def statusRequest (cfg : Config) (path : Str) : Str :=
  httpRequest (("GET ".toList ++ (path ++ " HTTP/1.1".toList)) :: statusHeaders cfg) []

/-! ## Responses -/

/-- The loop of `recv(4096)` until there is nothing more. -/
def readResponse (conn : Conn) : Bytes :=
  (conn.readWhile (fun _ => 4096) (conn.incoming.length + 1) []).1

/-- The status code and the body of a response; `except` has the texts of `IndexError` and
`ValueError`. -/
def relay (cfg : Config) (response : Bytes) : Except Str (ℤ × Bytes) :=
  let (head, body) := (splitOnce blankLine response).getD (response, encodeUtf8 "\x7b\x7d".toList)
  let status_line := (headerLines head).headD []
  match (split " ".toList status_line)[1]? with
  | none => .error "list index out of range".toList
  | some code =>
    match toInt cfg.max_str_digits code with
    | none => .error (cfg.intError code)
    | some status_code => .ok (status_code, body)

/-- A reply with a JSON body. -/
def Reply.json (code : ℤ) (body : Bytes) : Reply := ⟨code, some "application/json".toList, body⟩

/-- The reply to an exception. -/
def Reply.error (code : ℤ) (failed detail : Str) : Reply :=
  .json code (encodeUtf8 (dumps (.obj [("error".toList, .str (failed ++ detail))])))

/-! ## The handler -/

/-- `do_GET`; `index` is the page. -/
def doGet (cfg : Config) (index : Bytes) (dial : Dial) (path : Str) : Reply :=
  if path = "/".toList ∨ path = "/index.html".toList then
    ⟨200, some "text/html".toList, index⟩
  else if "/status".toList <+: path then
    match (dial (encodeUtf8 (statusRequest cfg path))).bind fun conn =>
        relay cfg (readResponse conn) with
    | .ok (status_code, body) => .json status_code body
    | .error e => .error 500 "Failed to get status: ".toList e
  else ⟨404, none, []⟩

/-- The class of a value that is no dictionary. -/
def className : Json → Str
  | .null => "NoneType".toList
  | .bool _ => "bool".toList
  | .int _ => "int".toList
  | .float _ => "float".toList
  | .str _ => "str".toList
  | .arr _ => "list".toList
  | .obj _ => "dict".toList

/-- `print(line)` -/
def Config.print (cfg : Config) (line : Str) : Except Str Unit :=
  if cfg.console.prints line then .ok () else .error (cfg.encodeError line)

/-- The line about a submission. -/
def Config.proxyingLine (cfg : Config) (job_type priority : Json) : Str :=
  "[FRONTEND APP] Proxying '".toList ++ (job_type.pyStr cfg.console.repr ++ ("' (".toList ++
    (priority.pyStr cfg.console.repr ++ ") to Gateway".toList)))

/-- The line about the body of a response. -/
def responseLine (resp_body : Str) : Str := "[GATEWAY RESPONSE] ".toList ++ strip resp_body

/-- The body of a response as `submit_task` prints it. -/
def responseBody (response : Bytes) : Str :=
  match splitOnce blankLine response with
  | some (_, body) => decodeIgnore body
  | none => "\x7b\x7d".toList

/-- `submit_task` -/
def submitTask (cfg : Config) (dial : Dial) (job_type priority payload : Json) : Except Str Bytes := do
  let conn ← dial (encodeUtf8 (submitRequest cfg (submitEvent job_type priority payload)))
  let response := readResponse conn
  cfg.print (responseLine (responseBody response))
  return response

/-- The `try` block of `do_POST`. -/
def trySubmit (cfg : Config) (dial : Dial) (post_data : Str) : Except Str (ℤ × Bytes) :=
  match cfg.loads post_data with
  | .value (.obj data) =>
    let job_type := (data.lookup "job_type".toList).getD .null
    let priority := (data.lookup "priority".toList).getD (.str "MEDIUM".toList)
    let payload := (data.lookup "payload".toList).getD .null
    if job_type.truthy then do
      cfg.print (cfg.proxyingLine job_type priority)
      let raw_gateway_resp ← submitTask cfg dial job_type priority payload
      relay cfg raw_gateway_resp
    else .error "job_type missing".toList
  | .value data =>
    .error ("'".toList ++ (className data ++ "' object has no attribute 'get'".toList))
  | _ => .error (cfg.loadsError post_data)

/-- `do_POST`, with the bytes that are read; bytes that are no UTF-8 raise outside the `try`. -/
def doPost (cfg : Config) (dial : Dial) (path : Str) (post_data : Bytes) : Option Reply :=
  if path = "/submit".toList then
    (decodeStrict post_data).map fun post_data =>
      match trySubmit cfg dial post_data with
      | .ok (status_code, body) => .json status_code body
      | .error e => .error 400 "Failed to submit: ".toList e
  else some ⟨404, none, []⟩

end Frontend

end JobSystem
