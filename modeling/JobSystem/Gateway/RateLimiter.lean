import JobSystem.Lib.Text
import JobSystem.Lib.Dict
import JobSystem.Lib.TokenBucket

/-!
# The rate limiter

`middleware_rate_limiter`: a token bucket for each client address. The clock is read before the lock
is taken, so the times of a client's requests come in any order. Time is exact.

* `middlewareRateLimiter`, `serve`: one request, and requests in the order of the lock;
* `bucketOf`, **`serve_answersOf`**: the answers to a client are those of its own bucket;
* **`rate_limited`**: the bound on what a client is let through, and who is never refused.
-/

namespace JobSystem

open PyText TokenBucket

/-- `MAX_TOKENS` -/
def MAX_TOKENS : ℚ := 100

/-- `REFILL_RATE` -/
def REFILL_RATE : ℚ := 100

/-- `line.lower().startswith("x-benchmark:")` -/
def isBenchmark (line : Str) : Bool := "x-benchmark:".toList.isPrefixOf (lower line)

/-- The response to a request that is dropped. -/
def tooManyRequests : Str :=
  let body := "<h1>429 Too Many Requests</h1><p>Gateway Traffic Clamped.</p>".toList
  "HTTP/1.1 429 Too Many Requests\r\nContent-Type: text/html\r\nContent-Length: ".toList ++
    (natStr body.length ++ ("\r\n\r\n".toList ++ body))

/-- `middleware_rate_limiter`: the response to a request that does not pass, and
`rate_limit_buckets` after it. A client without a bucket gets a full one. -/
def middlewareRateLimiter (rate_limit_buckets : PyDict Str (ℚ × ℚ)) (client_ip : Str)
    (headers : List Str) (now : ℚ) : Option Str × PyDict Str (ℚ × ℚ) :=
  if headers.any isBenchmark then (none, rate_limit_buckets)
  else
    let (tokens, last_updated) := (rate_limit_buckets.get? client_ip).getD (MAX_TOKENS, now)
    let elapsed := now - last_updated
    let tokens := min MAX_TOKENS (tokens + elapsed * REFILL_RATE)
    if 1 ≤ tokens then (none, rate_limit_buckets.set client_ip (tokens - 1, now))
    else (some tooManyRequests, rate_limit_buckets.set client_ip (tokens, now))

/-- A request, with the time that was sampled for it. -/
structure TimedRequest where
  client_ip : Str
  headers : List Str
  now : ℚ

/-- The request has an `X-Benchmark` header. -/
def TimedRequest.benchmark (r : TimedRequest) : Bool := r.headers.any isBenchmark

/-- The requests in the order in which they take the lock, each with its answer. -/
def serve (rate_limit_buckets : PyDict Str (ℚ × ℚ)) :
    List TimedRequest → List (TimedRequest × Option Str)
  | [] => []
  | r :: rs =>
    let answer := middlewareRateLimiter rate_limit_buckets r.client_ip r.headers r.now
    (r, answer.1) :: serve answer.2 rs

/-- The times of a client's requests, and whether each of them passed. -/
def answersOf (rate_limit_buckets : PyDict Str (ℚ × ℚ)) (client_ip : Str) (rs : List TimedRequest) :
    List (ℚ × Bool) :=
  ((serve rate_limit_buckets rs).filter fun p => p.1.client_ip = client_ip).map fun p =>
    (p.1.now, p.2.isNone)

/-- The times of a client's requests. -/
def timesOf (client_ip : Str) (rs : List TimedRequest) : List ℚ :=
  (rs.filter fun r => r.client_ip = client_ip).map TimedRequest.now

/-! ## One bucket for each client -/

/-- The bucket that a client's requests meet: its own, or a full one at the time of the first. -/
def bucketAt (rate_limit_buckets : PyDict Str (ℚ × ℚ)) (client_ip : Str) (times : List ℚ) : Bucket ℚ :=
  match rate_limit_buckets.get? client_ip with
  | some (tokens, last_updated) => ⟨tokens, last_updated⟩
  | none => ⟨MAX_TOKENS, times.headD 0⟩

variable {buckets : PyDict Str (ℚ × ℚ)}

variable (buckets) in
/-- **One request** is a request to the client's bucket, and leaves the other buckets alone. -/
theorem middlewareRateLimiter_spec {r : TimedRequest} (h : r.benchmark = false) (times : List ℚ) :
    let answer := middlewareRateLimiter buckets r.client_ip r.headers r.now
    let next := take MAX_TOKENS REFILL_RATE (bucketAt buckets r.client_ip (r.now :: times)) r.now
    answer.1.isNone = next.1 ∧
      ∀ client_ip, answer.2.get? client_ip =
        if client_ip = r.client_ip then some (next.2.tokens, r.now) else buckets.get? client_ip := by
  have hget : ∃ b : Bucket ℚ, bucketAt buckets r.client_ip (r.now :: times) = b ∧
      (buckets.get? r.client_ip).getD (MAX_TOKENS, r.now) = (b.tokens, b.last_updated) := by
    unfold bucketAt
    cases buckets.get? r.client_ip with
    | none => exact ⟨_, rfl, rfl⟩
    | some p => exact ⟨_, rfl, rfl⟩
  obtain ⟨b, hb, hget⟩ := hget
  have hheaders : ¬ r.headers.any isBenchmark = true := fun h' => by
    rw [show r.headers.any isBenchmark = r.benchmark from rfl, h] at h'
    cases h'
  intro answer next
  simp only [answer, next, middlewareRateLimiter]
  rw [if_neg hheaders, hget, hb]
  by_cases hle : 1 ≤ refill MAX_TOKENS REFILL_RATE b r.now
  · have htake : take MAX_TOKENS REFILL_RATE b r.now =
        (true, ⟨refill MAX_TOKENS REFILL_RATE b r.now - 1, r.now⟩) := if_pos hle
    rw [htake, if_pos (show 1 ≤ min MAX_TOKENS (b.tokens + (r.now - b.last_updated) * REFILL_RATE)
      from hle)]
    exact ⟨rfl, fun client_ip => PyDict.get?_set _ _ _ _⟩
  · have htake : take MAX_TOKENS REFILL_RATE b r.now =
        (false, ⟨refill MAX_TOKENS REFILL_RATE b r.now, r.now⟩) := if_neg hle
    rw [htake, if_neg (show ¬ 1 ≤ min MAX_TOKENS (b.tokens + (r.now - b.last_updated) * REFILL_RATE)
      from hle)]
    exact ⟨rfl, fun client_ip => PyDict.get?_set _ _ _ _⟩

/-- **The answers to a client** are those of its own bucket, whatever the others do. -/
theorem answersOf_eq {rs : List TimedRequest} (hplain : ∀ r ∈ rs, r.benchmark = false)
    (client_ip : Str) :
    answersOf buckets client_ip rs = answers MAX_TOKENS REFILL_RATE
      (bucketAt buckets client_ip (timesOf client_ip rs)) (timesOf client_ip rs) := by
  induction rs generalizing buckets with
  | nil => rfl
  | cons r rs ih =>
    have hplain' : ∀ r' ∈ rs, r'.benchmark = false := fun r' hr' =>
      hplain r' (List.mem_cons_of_mem _ hr')
    obtain ⟨hpass, hget⟩ := middlewareRateLimiter_spec buckets (hplain r List.mem_cons_self)
      (timesOf client_ip rs)
    by_cases hclient : r.client_ip = client_ip
    · subst hclient
      have htimes : timesOf r.client_ip (r :: rs) = r.now :: timesOf r.client_ip rs := by
        simp [timesOf]
      have hnext : bucketAt (middlewareRateLimiter buckets r.client_ip r.headers r.now).2 r.client_ip
          (timesOf r.client_ip rs) = (take MAX_TOKENS REFILL_RATE
            (bucketAt buckets r.client_ip (r.now :: timesOf r.client_ip rs)) r.now).2 := by
        rw [bucketAt, hget r.client_ip, if_pos rfl]
        exact Bucket.ext rfl (take_last_updated r.now).symm
      have hcons : answersOf buckets r.client_ip (r :: rs) =
          (r.now, (middlewareRateLimiter buckets r.client_ip r.headers r.now).1.isNone) ::
            answersOf (middlewareRateLimiter buckets r.client_ip r.headers r.now).2 r.client_ip rs := by
        simp [answersOf, serve]
      rw [hcons, ih hplain', hnext, hpass, htimes]
      rfl
    · have htimes : timesOf client_ip (r :: rs) = timesOf client_ip rs := by
        simp [timesOf, hclient]
      have hskip : answersOf buckets client_ip (r :: rs) =
          answersOf (middlewareRateLimiter buckets r.client_ip r.headers r.now).2 client_ip rs := by
        simp [answersOf, serve, hclient]
      have hsame : bucketAt (middlewareRateLimiter buckets r.client_ip r.headers r.now).2 client_ip
          (timesOf client_ip rs) = bucketAt buckets client_ip (timesOf client_ip rs) := by
        rw [bucketAt, hget client_ip, if_neg (Ne.symm hclient), bucketAt]
      rw [hskip, ih hplain', hsame, htimes]

/-! ## The limit -/

/-- **Every stretch of a client's requests is bounded, and spaced requests all pass.** -/
theorem rate_limited {rs : List TimedRequest} (hplain : ∀ r ∈ rs, r.benchmark = false)
    (client_ip : Str) :
    (∀ before stretch later earliest latest,
      answersOf ∅ client_ip rs = before ++ (stretch ++ later) → stretch ≠ [] →
      (∀ a ∈ stretch, earliest ≤ a.1 ∧ a.1 ≤ latest) →
      (stretch.countP Prod.snd : ℚ) ≤ MAX_TOKENS + REFILL_RATE * (latest - earliest)) ∧
    ((timesOf client_ip rs).IsChain (fun t t' => t ≤ t' ∧ 1 / REFILL_RATE ≤ t' - t) →
      ∀ a ∈ answersOf ∅ client_ip rs, a.2 = true) := by
  rw [answersOf_eq hplain]
  have hfull : bucketAt ∅ client_ip (timesOf client_ip rs) =
      ⟨MAX_TOKENS, (timesOf client_ip rs).headD 0⟩ := rfl
  rw [hfull]
  constructor
  · intro before stretch later earliest latest heq hne htimes
    obtain ⟨b, hb⟩ := exists_answers_of_append heq
    have hcount : stretch.countP Prod.snd =
        TokenBucket.admitted MAX_TOKENS REFILL_RATE b (stretch.map Prod.fst) := by
      rw [TokenBucket.admitted, ← hb]
    obtain ⟨a, ha⟩ := List.exists_mem_of_ne_nil stretch hne
    have hspan : earliest ≤ latest := (htimes a ha).1.trans (htimes a ha).2
    rw [hcount]
    refine admitted_le (by norm_num [MAX_TOKENS]) (by norm_num [REFILL_RATE]) b ?_ ?_ hspan
    · exact List.forall_mem_map.mpr fun a ha => (htimes a ha).1
    · exact List.forall_mem_map.mpr fun a ha => (htimes a ha).2
  · intro hchain
    cases hts : timesOf client_ip rs with
    | nil =>
      intro a ha
      cases ha
    | cons t ts =>
      rw [hts] at hchain
      -- the first request meets a full bucket, the others leave time for a token
      have hfirst : take MAX_TOKENS REFILL_RATE ⟨MAX_TOKENS, t⟩ t = (true, ⟨99, t⟩) := by
        norm_num [take, refill, MAX_TOKENS]
      have hgaps : ((⟨99, t⟩ : Bucket ℚ).last_updated :: ts).IsChain
          fun t t' => 1 ≤ (t' - t) * REFILL_RATE := by
        refine hchain.imp fun t t' h => ?_
        have hgap := h.2
        norm_num [REFILL_RATE] at hgap ⊢
        linarith
      intro a ha
      rw [List.headD_cons, answers, hfirst] at ha
      rcases List.mem_cons.mp ha with rfl | ha
      · rfl
      · exact answers_of_spaced (by norm_num [MAX_TOKENS]) (by norm_num) hgaps a ha

/-- Two requests of one client, the second with the earlier time. -/
def twoRequests : List TimedRequest := [⟨['a'], [], 1⟩, ⟨['a'], [], 0⟩]

theorem rate_limited_twoRequests : answersOf ∅ ['a'] twoRequests = [(1, true), (0, false)] ∧
    ((([(1, true), (0, false)] : List (ℚ × Bool)).countP Prod.snd : ℕ) : ℚ) ≤
      MAX_TOKENS + REFILL_RATE * (1 - 0) := by
  have hplain : ∀ r ∈ twoRequests, r.benchmark = false := by decide
  have hanswers : answersOf ∅ ['a'] twoRequests = [(1, true), (0, false)] := by
    rw [answersOf_eq hplain, show bucketAt ∅ ['a'] (timesOf ['a'] twoRequests) = ⟨MAX_TOKENS, 1⟩ from rfl,
      show timesOf ['a'] twoRequests = [1, 0] from rfl]
    norm_num [answers, take, refill, MAX_TOKENS, REFILL_RATE]
  refine ⟨hanswers, (rate_limited hplain ['a']).1 [] _ [] 0 1 hanswers (List.cons_ne_nil _ _) ?_⟩
  intro a ha
  fin_cases ha <;> norm_num

end JobSystem
