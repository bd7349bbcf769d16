import Mathlib

/-!
# Token buckets

A bucket fills at a constant rate up to a capacity, and a request takes one token or is refused. The
clock of a request may be behind that of the one before it: then the bucket loses what it would have
gained.

* `Bucket`, `take`, `answers`, `after`, `admitted`;
* `admitted_add_tokens_le`: what is admitted and what is left over was there or has flowed in;
* **`admitted_le`**: the bound on any run of requests, from any bucket;
* **`answers_of_spaced`**: requests that leave time for a token are all admitted.
-/

namespace TokenBucket

/-- The tokens, and the time of the last request. -/
@[ext]
structure Bucket (α : Type) where
  tokens : α
  last_updated : α

variable {α : Type} [Field α] [LinearOrder α]

section Request

variable (capacity rate : α)

/-- The tokens at a time. -/
def refill (b : Bucket α) (now : α) : α := min capacity (b.tokens + (now - b.last_updated) * rate)

/-- A request: whether it is admitted, and the bucket after it. -/
def take (b : Bucket α) (now : α) : Bool × Bucket α :=
  if 1 ≤ refill capacity rate b now then (true, ⟨refill capacity rate b now - 1, now⟩)
  else (false, ⟨refill capacity rate b now, now⟩)

/-- The requests at the given times, each with its answer. -/
def answers : Bucket α → List α → List (α × Bool)
  | _, [] => []
  | b, t :: ts => (t, (take capacity rate b t).1) :: answers (take capacity rate b t).2 ts

/-- The bucket after them. -/
def after (b : Bucket α) (ts : List α) : Bucket α :=
  ts.foldl (fun b t => (take capacity rate b t).2) b

/-- How many of them are admitted. -/
def admitted (b : Bucket α) (ts : List α) : ℕ := (answers capacity rate b ts).countP Prod.snd

end Request

variable {capacity rate : α} {b : Bucket α}

@[simp] theorem take_last_updated (now : α) : (take capacity rate b now).2.last_updated = now := by
  unfold take
  split_ifs <;> rfl

variable (capacity rate b) in
theorem map_fst_answers (ts : List α) : (answers capacity rate b ts).map Prod.fst = ts := by
  induction ts generalizing b with
  | nil => rfl
  | cons t ts ih => rw [answers, List.map_cons, ih]

theorem answers_append (ts us : List α) : answers capacity rate b (ts ++ us) =
    answers capacity rate b ts ++ answers capacity rate (after capacity rate b ts) us := by
  induction ts generalizing b with
  | nil => rfl
  | cons t ts ih =>
    rw [List.cons_append, answers, ih, answers, List.cons_append]
    rfl

theorem admitted_append (ts us : List α) : admitted capacity rate b (ts ++ us) =
    admitted capacity rate b ts + admitted capacity rate (after capacity rate b ts) us := by
  unfold admitted
  rw [answers_append, List.countP_append]

theorem admitted_cons (t : α) (ts : List α) : admitted capacity rate b (t :: ts) =
    (take capacity rate b t).1.toNat + admitted capacity rate (take capacity rate b t).2 ts := by
  unfold admitted
  rw [answers, List.countP_cons, add_comm]
  cases (take capacity rate b t).1 <;> rfl

theorem admitted_singleton (t : α) :
    admitted capacity rate b [t] = (take capacity rate b t).1.toNat := admitted_cons t []

variable (capacity rate b) in
theorem length_answers (ts : List α) : (answers capacity rate b ts).length = ts.length := by
  calc (answers capacity rate b ts).length
      = ((answers capacity rate b ts).map Prod.fst).length := (List.length_map _).symm
    _ = ts.length := by rw [map_fst_answers]

/-- Contiguous requests are answered from the bucket that those before them leave. -/
theorem exists_answers_of_append {ts : List α} {before stretch later : List (α × Bool)}
    (h : answers capacity rate b ts = before ++ (stretch ++ later)) :
    ∃ b', stretch = answers capacity rate b' (stretch.map Prod.fst) := by
  have hts : ts = before.map Prod.fst ++ (stretch.map Prod.fst ++ later.map Prod.fst) := by
    rw [← map_fst_answers capacity rate b ts, h, List.map_append,
      List.map_append]
  have hlen : ∀ (b : Bucket α) (us : List (α × Bool)),
      (answers capacity rate b (us.map Prod.fst)).length = us.length := by
    intro b us
    rw [length_answers, List.length_map]
  rw [hts, answers_append, answers_append] at h
  have hrest := (List.append_inj h (hlen b before)).2
  exact ⟨_, (List.append_inj hrest (hlen _ stretch)).1.symm⟩

variable [IsStrictOrderedRing α]

/-! ## The bound -/

variable (capacity rate b) in
/-- A request takes its token from what was refilled. -/
theorem take_add_tokens (now : α) :
    ((take capacity rate b now).1.toNat : α) + (take capacity rate b now).2.tokens =
      refill capacity rate b now := by
  unfold take
  split_ifs
  · simp
  · simp

/-- An admitted request leaves no debt. -/
theorem tokens_nonneg_of_admitted {now : α} (h : (take capacity rate b now).1 = true) :
    0 ≤ (take capacity rate b now).2.tokens := by
  unfold take at h ⊢
  split_ifs at h ⊢ with hle
  exact sub_nonneg.mpr hle

variable (capacity rate) in
/-- **What is admitted and left over** was in the bucket or has flowed in since. -/
theorem admitted_add_tokens_le (b : Bucket α) (ts : List α) :
    (admitted capacity rate b ts : α) + (after capacity rate b ts).tokens ≤
      b.tokens + ((after capacity rate b ts).last_updated - b.last_updated) * rate := by
  induction ts generalizing b with
  | nil =>
    show ((0 : ℕ) : α) + b.tokens ≤ b.tokens + (b.last_updated - b.last_updated) * rate
    rw [Nat.cast_zero, zero_add, sub_self, zero_mul, add_zero]
  | cons t ts ih =>
    have hrest := ih (take capacity rate b t).2
    have htake := take_add_tokens capacity rate b t
    have hrefill : refill capacity rate b t ≤ b.tokens + (t - b.last_updated) * rate :=
      min_le_right _ _
    rw [take_last_updated] at hrest
    rw [admitted_cons, Nat.cast_add]
    show _ + (after capacity rate (take capacity rate b t).2 ts).tokens ≤ b.tokens +
      ((after capacity rate (take capacity rate b t).2 ts).last_updated - b.last_updated) * rate
    linarith

variable (capacity rate) in
/-- The first request starts from at most a full bucket. -/
theorem admitted_cons_add_tokens_le (b : Bucket α) (t : α) (ts : List α) :
    (admitted capacity rate b (t :: ts) : α) + (after capacity rate b (t :: ts)).tokens ≤
      capacity + ((after capacity rate b (t :: ts)).last_updated - t) * rate := by
  have hrest := admitted_add_tokens_le capacity rate (take capacity rate b t).2 ts
  have htake := take_add_tokens capacity rate b t
  have hfull : refill capacity rate b t ≤ capacity := min_le_left _ _
  rw [take_last_updated] at hrest
  rw [admitted_cons, Nat.cast_add]
  show _ + (after capacity rate (take capacity rate b t).2 ts).tokens ≤ capacity +
    ((after capacity rate (take capacity rate b t).2 ts).last_updated - t) * rate
  linarith

/-- **The bound.** The last request that is admitted leaves no debt, so the times up to it count. -/
theorem admitted_le (hcapacity : 0 ≤ capacity) (hrate : 0 ≤ rate) (b : Bucket α) {ts : List α}
    {lo hi : α} (hlo : ∀ t ∈ ts, lo ≤ t) (hhi : ∀ t ∈ ts, t ≤ hi) (h : lo ≤ hi) :
    (admitted capacity rate b ts : α) ≤ capacity + rate * (hi - lo) := by
  induction ts using List.reverseRecOn with
  | nil =>
    have hflow : 0 ≤ rate * (hi - lo) := mul_nonneg hrate (sub_nonneg.mpr h)
    show ((0 : ℕ) : α) ≤ _
    rw [Nat.cast_zero]
    linarith
  | append_singleton ts u ih =>
    have ihts := ih (fun t ht => hlo t (List.mem_append_left _ ht))
      (fun t ht => hhi t (List.mem_append_left _ ht))
    cases hu : (take capacity rate (after capacity rate b ts) u).1 with
    | false =>
      rw [admitted_append, admitted_singleton, hu]
      exact ihts
    | true =>
      obtain ⟨t, rest, hts⟩ : ∃ t rest, ts ++ [u] = t :: rest :=
        List.exists_cons_of_ne_nil (List.append_ne_nil_of_right_ne_nil _ (List.cons_ne_nil _ _))
      have hafter : after capacity rate b (t :: rest) =
          (take capacity rate (after capacity rate b ts) u).2 := by
        rw [← hts, after, List.foldl_append]
        rfl
      have hbound := admitted_cons_add_tokens_le capacity rate b t rest
      have hdebt := tokens_nonneg_of_admitted hu
      have htlo : lo ≤ t := hlo t (hts ▸ List.mem_cons_self)
      have huhi : u ≤ hi := hhi u (List.mem_append_right _ (List.mem_singleton_self u))
      have hflow : (u - t) * rate ≤ rate * (hi - lo) := by
        rw [mul_comm]
        exact mul_le_mul_of_nonneg_left (by linarith) hrate
      rw [hafter, take_last_updated] at hbound
      rw [hts]
      linarith

/-! ## Spaced requests -/

/-- Where a token has flowed in, the request is admitted. -/
theorem take_of_spaced (hcapacity : 1 ≤ capacity) (hb : 0 ≤ b.tokens) {now : α}
    (hgap : 1 ≤ (now - b.last_updated) * rate) : (take capacity rate b now).1 = true := by
  have hrefill : 1 ≤ refill capacity rate b now := le_min hcapacity (by linarith)
  unfold take
  rw [if_pos hrefill]

/-- **Requests that leave time for a token** are admitted, once one of them was. -/
theorem answers_of_spaced (hcapacity : 1 ≤ capacity) (hb : 0 ≤ b.tokens) {ts : List α}
    (hgaps : (b.last_updated :: ts).IsChain fun t t' => 1 ≤ (t' - t) * rate) :
    ∀ a ∈ answers capacity rate b ts, a.2 = true := by
  induction ts generalizing b with
  | nil =>
    intro a ha
    cases ha
  | cons t ts ih =>
    obtain ⟨hgap, hrest⟩ := List.isChain_cons_cons.mp hgaps
    have htake := take_of_spaced hcapacity hb hgap
    intro a ha
    rcases List.mem_cons.mp ha with rfl | ha
    · exact htake
    · refine ih (tokens_nonneg_of_admitted htake) ?_ a ha
      rwa [take_last_updated]

end TokenBucket
