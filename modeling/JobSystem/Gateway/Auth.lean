import JobSystem.Gateway.RateLimiter
import JobSystem.Gateway.Request
import JobSystem.Gateway.Submit

/-!
# The authenticator and the pipeline

A request goes through the logger, the authenticator, the rate limiter and the validator; a submission
that passes them all gets a connection to the event bus. The authenticator compares lower-cased header
lines: by a prefix with the token, by a substring with the session cookie.

* `middlewareAuthenticator`, `MIDDLEWARE_PIPELINE`, `processClientSocket`: the pipeline and the paths;
* `HasToken`, `HasSession`: the exact credentials;
* `opensBus_iff`: what opens the bus;
* **`onlyExact_iff`**: the requests that do not open the bus without an exact credential.
-/

namespace JobSystem

open PyText TokenBucket
open PyJson (FloatText Lawful Loaded lawful_library library)

/-! ## The pipeline -/

/-- What the gateway is configured with; `str.lower`, of which nothing is assumed; and `json.loads`. -/
structure GatewayConfig where
  lower : Str → Str
  GATEWAY_AUTH_TOKEN : Str
  ft : FloatText
  loads : Str → Loaded
  lawful : Lawful ft loads

/-- The line begins with the token header, in lower case. -/
def isTokenLine (cfg : GatewayConfig) (line : Str) : Bool :=
  (cfg.lower ("authorization: bearer ".toList ++ cfg.GATEWAY_AUTH_TOKEN)).isPrefixOf (cfg.lower line)

/-- The line is a cookie header with the session cookie somewhere in it, in lower case. -/
def isSessionLine (cfg : GatewayConfig) (line : Str) : Bool :=
  "cookie:".toList.isPrefixOf (cfg.lower line) &&
    (splitOnce "session_id=valid-session-id".toList (cfg.lower line)).isSome

/-- The response to a request without a credential. -/
def unauthorized : Str :=
  let body :=
    "<h1>401 Unauthorized</h1><p>Gateway Shield Exception: Invalid Bearer Token.</p>".toList
  "HTTP/1.1 401 Unauthorized\r\nContent-Type: text/html\r\nContent-Length: ".toList ++
    (natStr body.length ++ ("\r\n\r\n".toList ++ body))

/-- `middleware_authenticator`: the response to a request that does not pass. -/
def middlewareAuthenticator (cfg : GatewayConfig) (headers : List Str) (path : Str) : Option Str :=
  if "/status".toList <+: path ∨ "/health".toList <+: path then none
  else if headers.any fun line => isTokenLine cfg line || isSessionLine cfg line then none
  else some unauthorized

/-- `rate_limit_buckets` -/
abbrev Buckets := PyDict Str (ℚ × ℚ)

/-- A parsed request, its client and the time that the rate limiter samples for it. -/
structure Arrival where
  client_ip : Str
  now : ℚ
  request : HttpRequest

/-- The middlewares. -/
inductive Middleware where
  | logger
  | authenticator
  | rateLimiter
  | requestValidator

/-- A middleware: the response to a request that does not pass, and the buckets after it. -/
def Middleware.run (cfg : GatewayConfig) (a : Arrival) (buckets : Buckets) :
    Middleware → Option Str × Buckets
  | logger => (none, buckets)
  | authenticator => (middlewareAuthenticator cfg a.request.headers a.request.path, buckets)
  | rateLimiter => middlewareRateLimiter buckets a.client_ip a.request.headers a.now
  | requestValidator =>
    (middlewareRequestValidator cfg.loads a.request.method a.request.path a.request.body, buckets)

/-- `MIDDLEWARE_PIPELINE` -/
def MIDDLEWARE_PIPELINE : List Middleware :=
  [.logger, .authenticator, .rateLimiter, .requestValidator]

/-- The middlewares in turn, up to the first that does not pass the request. -/
def runPipeline (cfg : GatewayConfig) (a : Arrival) :
    List Middleware → Buckets → Option Str × Buckets
  | [], buckets => (none, buckets)
  | middleware :: rest, buckets =>
    match middleware.run cfg a buckets with
    | (some error_payload, buckets) => (some error_payload, buckets)
    | (none, buckets) => runPipeline cfg a rest buckets

/-- Where `process_client_socket` takes a request. -/
inductive Dispatch where
  | blocked (error_payload : Str)
  | getConnection
  | status
  | ok
  deriving DecidableEq

/-- `process_client_socket` up to `bus_pool.get_connection`, which only a submission reaches. -/
def processClientSocket (cfg : GatewayConfig) (a : Arrival) (buckets : Buckets) : Dispatch × Buckets :=
  match runPipeline cfg a MIDDLEWARE_PIPELINE buckets with
  | (some error_payload, buckets) => (.blocked error_payload, buckets)
  | (none, buckets) =>
    if a.request.path = "/submit".toList then (.getConnection, buckets)
    else if "/status".toList <+: a.request.path then (.status, buckets)
    else (.ok, buckets)

/-- The request gets a connection to the event bus. -/
def OpensBus (cfg : GatewayConfig) (a : Arrival) (buckets : Buckets) : Prop :=
  (processClientSocket cfg a buckets).1 = .getConnection

/-! ## The exact credentials -/

/-- `Authorization: Bearer T` with the token itself; the name and the scheme in any case. -/
def HasToken (token : Str) (headers : List Str) : Prop :=
  ∃ name, name.map Char.toLower = "authorization: bearer ".toList ∧ name ++ token ∈ headers

/-- A text without the spaces and tabs around it. -/
def trim (s : Str) : Str :=
  (s.dropWhile fun c => c = ' ' ∨ c = '\t').rdropWhile fun c => c = ' ' ∨ c = '\t'

/-- The pairs of a cookie header. -/
def cookies (value : Str) : List (Str × Str) :=
  (value.splitOn ';').filterMap fun pair =>
    (splitOnce ['='] pair).map fun p => (trim p.1, trim p.2)

/-- A `Cookie` header, its name in any case, with the cookie `session_id=valid-session-id`. -/
def HasSession (headers : List Str) : Prop :=
  ∃ name value, name.map Char.toLower = "cookie:".toList ∧ name ++ value ∈ headers ∧
    ("session_id".toList, "valid-session-id".toList) ∈ cookies value

/-- **Only the exact credential opens the bus.** -/
def OnlyExact (cfg : GatewayConfig) (a : Arrival) (buckets : Buckets) : Prop :=
  OpensBus cfg a buckets →
    HasToken cfg.GATEWAY_AUTH_TOKEN a.request.headers ∨ HasSession a.request.headers

/-! ## What opens the bus -/

variable (cfg : GatewayConfig) (a : Arrival) (buckets : Buckets)

/-- What a submission needs besides a credential. -/
structure Admitted : Prop where
  path : a.request.path = "/submit".toList
  tokens : a.request.headers.any isBenchmark = true ∨
    1 ≤ refill MAX_TOKENS REFILL_RATE (bucketAt buckets a.client_ip [a.now]) a.now
  body : a.request.method = "POST".toList → ∃ data, loadBody cfg.loads a.request.body = some data ∧
    isIn "job_type".toList data = some true

/-- Some header line passes the lower-cased comparisons. -/
def LooksAuthentic : Prop :=
  ∃ line ∈ a.request.headers, isTokenLine cfg line = true ∨ isSessionLine cfg line = true

/-- A benchmark, or a token in the client's bucket. -/
theorem middlewareRateLimiter_fst_eq_none : (middlewareRateLimiter buckets a.client_ip
    a.request.headers a.now).1 = none ↔ a.request.headers.any isBenchmark = true ∨
      1 ≤ refill MAX_TOKENS REFILL_RATE (bucketAt buckets a.client_ip [a.now]) a.now := by
  by_cases hbench : a.request.headers.any isBenchmark = true
  · rw [middlewareRateLimiter, if_pos hbench]
    exact iff_of_true rfl (.inl hbench)
  · have hplain : (TimedRequest.mk a.client_ip a.request.headers a.now).benchmark = false := by
      simpa [TimedRequest.benchmark] using hbench
    have hspec := (middlewareRateLimiter_spec buckets hplain []).1
    rw [or_iff_right hbench, ← Option.isNone_iff_eq_none, hspec, take]
    split_ifs with htokens
    · exact iff_of_true rfl htokens
    · exact iff_of_false id htokens

theorem middlewareRequestValidator_eq_none (load : Str → Loaded) {method path : Str} (body : Bytes)
    (hpath : path = "/submit".toList) : middlewareRequestValidator load method path body = none ↔
      (method = "POST".toList → ∃ data, loadBody load body = some data ∧
        isIn "job_type".toList data = some true) := by
  subst hpath
  rw [middlewareRequestValidator]
  by_cases hmethod : method = "POST".toList
  · have hloads : (loadBody load body).bind (isIn "job_type".toList) = some true ↔
        ∃ data, loadBody load body = some data ∧ isIn "job_type".toList data = some true :=
      Option.bind_eq_some_iff
    rw [if_pos ⟨List.prefix_rfl, hmethod⟩, ← hloads]
    split
    · rename_i h
      exact iff_of_true rfl fun _ => h
    · rename_i h
      exact iff_of_false (Option.some_ne_none _) fun hn => h (hn hmethod)
  · rw [if_neg fun h => hmethod h.2]
    exact ⟨fun _ h => absurd h hmethod, fun _ => rfl⟩

theorem middlewareAuthenticator_eq_none {headers : List Str} {path : Str}
    (hpath : path = "/submit".toList) : middlewareAuthenticator cfg headers path = none ↔
      ∃ line ∈ headers, isTokenLine cfg line = true ∨ isSessionLine cfg line = true := by
  subst hpath
  -- the paths without authentication are not the one that submits
  have hexempt : ¬ ("/status".toList <+: "/submit".toList ∨ "/health".toList <+: "/submit".toList) := by
    decide
  rw [middlewareAuthenticator, if_neg hexempt]
  split_ifs with hany
  · simpa [List.any_eq_true] using hany
  · simpa [List.any_eq_true] using hany

theorem runPipeline_nil_fst : (runPipeline cfg a [] buckets).1 = none := rfl

/-- A request passes a pipeline if it passes the first middleware and then the rest. -/
theorem runPipeline_cons_fst_eq_none (middleware : Middleware) (rest : List Middleware) :
    (runPipeline cfg a (middleware :: rest) buckets).1 = none ↔
      (middleware.run cfg a buckets).1 = none ∧
        (runPipeline cfg a rest (middleware.run cfg a buckets).2).1 = none := by
  rw [runPipeline]
  split
  · rename_i error_payload buckets' h
    rw [h]
    exact iff_of_false (Option.some_ne_none _) fun hn => Option.some_ne_none _ hn.1
  · rename_i buckets' h
    rw [h]
    exact (and_iff_right rfl).symm

theorem opensBus_iff_runPipeline : OpensBus cfg a buckets ↔ a.request.path = "/submit".toList ∧
    (runPipeline cfg a MIDDLEWARE_PIPELINE buckets).1 = none := by
  unfold OpensBus processClientSocket
  split
  · rename_i error_payload buckets' h
    rw [h]
    exact iff_of_false (by simp) fun hn => Option.some_ne_none _ hn.2
  · rename_i buckets' h
    rw [h]
    split_ifs with hpath hstatus
    · exact iff_of_true rfl ⟨hpath, rfl⟩
    · exact iff_of_false (by simp) fun hn => hpath hn.1
    · exact iff_of_false (by simp) fun hn => hpath hn.1

/-- **What opens the bus**: a submission with a token left and a valid body, and a header line that
passes the lower-cased comparisons. -/
theorem opensBus_iff : OpensBus cfg a buckets ↔ Admitted cfg a buckets ∧ LooksAuthentic cfg a := by
  have hopens : OpensBus cfg a buckets ↔ a.request.path = "/submit".toList ∧
      (middlewareAuthenticator cfg a.request.headers a.request.path = none ∧
        (middlewareRateLimiter buckets a.client_ip a.request.headers a.now).1 = none ∧
        middlewareRequestValidator cfg.loads a.request.method a.request.path a.request.body = none) := by
    rw [opensBus_iff_runPipeline, MIDDLEWARE_PIPELINE]
    simp only [runPipeline_cons_fst_eq_none, Middleware.run, runPipeline_nil_fst, true_and, and_true]
  rw [hopens]
  constructor
  · rintro ⟨hpath, hauth, hrate, hvalid⟩
    exact ⟨⟨hpath, (middlewareRateLimiter_fst_eq_none a buckets).mp hrate,
      (middlewareRequestValidator_eq_none cfg.loads _ hpath).mp hvalid⟩,
      (middlewareAuthenticator_eq_none cfg hpath).mp hauth⟩
  · rintro ⟨⟨hpath, hrate, hvalid⟩, hauth⟩
    exact ⟨hpath, (middlewareAuthenticator_eq_none cfg hpath).mpr hauth,
      (middlewareRateLimiter_fst_eq_none a buckets).mpr hrate,
      (middlewareRequestValidator_eq_none cfg.loads _ hpath).mpr hvalid⟩

/-- **The exact credential opens the bus, and nothing else does**, exactly when an admitted submission
has an exact credential or no header line that only looks like one. -/
theorem onlyExact_iff : OnlyExact cfg a buckets ↔
    (Admitted cfg a buckets → HasToken cfg.GATEWAY_AUTH_TOKEN a.request.headers ∨
      HasSession a.request.headers ∨ ¬ LooksAuthentic cfg a) := by
  rw [OnlyExact, opensBus_iff]
  constructor
  · intro h hadmitted
    by_cases hlooks : LooksAuthentic cfg a
    · exact (h ⟨hadmitted, hlooks⟩).imp id .inl
    · exact .inr (.inr hlooks)
  · rintro h ⟨hadmitted, hlooks⟩
    rcases h hadmitted with h | h | h
    · exact .inl h
    · exact .inr h
    · exact absurd hlooks h

/-! ## What only looks like a credential -/

theorem isTokenLine_append {cfg : GatewayConfig} (h : cfg.lower = lower) (name more : Str) {T : Str}
    (hname : lower name = "authorization: bearer ".toList)
    (hT : lower T = lower cfg.GATEWAY_AUTH_TOKEN) : isTokenLine cfg (name ++ (T ++ more)) = true := by
  have hself : lower "authorization: bearer ".toList = "authorization: bearer ".toList := by decide
  have happ : ∀ s t, lower (s ++ t) = lower s ++ lower t := fun s t => List.flatMap_append
  rw [isTokenLine, h, happ, happ, happ, hself, hname, hT, ← List.append_assoc]
  exact List.isPrefixOf_iff_prefix.mpr (List.prefix_append _ _)

/-- A gateway with a token and the `json.loads` without limits. -/
def libraryConfig (token : Str) : GatewayConfig :=
  ⟨lower, token, .verbatim, library .verbatim, lawful_library .verbatim⟩

/-- A submission with the token `secret` and one more letter. -/
def longerToken : Arrival :=
  ⟨"10.0.0.1".toList, 0, ⟨"POST".toList, "/submit".toList,
    ["Authorization: Bearer ".toList ++ ("secret".toList ++ ['X'])], plainBody⟩⟩

/-- **A longer token opens the bus.** -/
theorem not_onlyExact_longerToken : ¬ OnlyExact (libraryConfig "secret".toList) longerToken ∅ := by
  have hadmitted : Admitted (libraryConfig "secret".toList) longerToken ∅ := by
    have hfull : bucketAt ∅ longerToken.client_ip [longerToken.now] = ⟨MAX_TOKENS, 0⟩ := rfl
    have hnow : longerToken.now = 0 := rfl
    have hbody : loadBody (library .verbatim) plainBody = some (.obj plainData) := rfl
    refine ⟨rfl, .inr ?_, fun _ => ⟨.obj plainData, hbody, rfl⟩⟩
    rw [hfull, hnow]
    norm_num [refill, MAX_TOKENS]
  have hline : isTokenLine (libraryConfig "secret".toList)
      ("Authorization: Bearer ".toList ++ ("secret".toList ++ ['X'])) = true :=
    isTokenLine_append rfl _ _ (by decide) rfl
  have hlooks : LooksAuthentic (libraryConfig "secret".toList) longerToken :=
    ⟨_, List.mem_singleton.mpr rfl, .inl hline⟩
  have hopens : OpensBus (libraryConfig "secret".toList) longerToken ∅ :=
    (opensBus_iff _ _ _).mpr ⟨hadmitted, hlooks⟩
  intro honly
  rcases honly hopens with ⟨name, -, hmem⟩ | ⟨name, value, hname, hmem, -⟩
  · -- the line does not end with the token
    have hend : ¬ "secret".toList <:+
        "Authorization: Bearer ".toList ++ ("secret".toList ++ ['X']) := by decide
    exact hend ⟨name, List.mem_singleton.mp hmem⟩
  · have hlen : name.length = 7 := by
      have h := congrArg List.length hname
      rwa [List.length_map] at h
    have hprefix : "cookie:".toList = ("Authorization: Bearer ".toList.take 7).map Char.toLower := by
      have htake := congrArg (List.take 7) (List.mem_singleton.mp hmem)
      rw [← hlen, List.take_left, hlen] at htake
      rw [← hname, htake]
      rfl
    exact absurd hprefix (by decide)

end JobSystem
