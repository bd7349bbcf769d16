import JobSystem.Cache.RespRoundTrip

/-!
# Requests that have only begun to arrive

What the parser makes of a proper prefix of an encoded request.

* `parseResp_bulk_cut`, `parseResp_header_cut`: an argument or a header that is cut short is
  incomplete;
* **`parseResp_cut`**: a request cut after its first argument is returned at once, with `None` for
  every argument that is missing;
* `completeArgs`, `exists_cut`: where a prefix cuts the arguments.
-/

namespace JobSystem

open PyText

/-! ## Cut lines -/

/-- A proper prefix of `p ++ t` is a proper prefix of `p`, or `p` and a proper prefix of `t`. -/
theorem prefix_append_cases {q p t : Str} (h : q <+: p ++ t) (hne : q ≠ p ++ t) :
    (q <+: p ∧ q ≠ p) ∨ ∃ r, q = p ++ r ∧ r <+: t ∧ r ≠ t := by
  by_cases hlen : q.length < p.length
  · left
    refine ⟨List.prefix_of_prefix_length_le h (List.prefix_append p t) (by omega), ?_⟩
    rintro rfl
    omega
  · right
    have hp : p <+: q := List.prefix_of_prefix_length_le (List.prefix_append p t) h (by omega)
    obtain ⟨r, rfl⟩ := hp
    refine ⟨r, rfl, (List.prefix_append_right_inj p).mp h, ?_⟩
    rintro rfl
    exact hne rfl

/-- A line whose `'\r\n'` is cut is not found. -/
theorem splitOnce_line_cut {line q : Str} (hcr : '\r' ∉ line) (h : q <+: line ++ crlf)
    (hne : q ≠ line ++ crlf) : splitOnce crlf q = none := by
  rcases prefix_append_cases h hne with ⟨hq, -⟩ | ⟨r, rfl, hr, hrne⟩
  · exact splitOnce_eq_none_of_notMem fun hm => hcr (hq.subset hm)
  · refine splitOnce_append_eq_none hcr ?_
    have := hr.length_le
    refine lt_of_le_of_ne this fun hl => hrne (hr.eq_of_length hl)

/-- A length line whose `'\r\n'` is cut is not found. -/
theorem splitOnce_cut {c : Char} (hc : '\r' ≠ c) {n : ℕ} {q : Str}
    (h : q <+: c :: (natStr n ++ crlf)) (hne : q ≠ c :: (natStr n ++ crlf)) :
    splitOnce crlf q = none := by
  have hcr : '\r' ∉ c :: natStr n := by
    simp only [List.mem_cons, not_or]
    exact ⟨hc, cr_notMem_natStr n⟩
  exact splitOnce_line_cut hcr h hne

/-- A cut argument is incomplete. -/
theorem parseResp_bulk_cut {a q : Str} (ha : IsAscii a) (h : q <+: bulkText a)
    (hne : q ≠ bulkText a) : parseResp q = some (.none, q) := by
  have hn : (encodeUtf8 a).length = a.length := (length_encodeUtf8_eq_iff a).mpr ha
  cases q with
  | nil => rw [parseResp_eq]; rfl
  | cons c q =>
    have hb : bulkText a = '$' :: (natStr a.length ++ crlf) ++ (a ++ crlf) := by
      simp [bulkText, hn]
    have hc : c = '$' := (List.cons_prefix_cons.mp h).1
    subst hc
    rw [hb] at h hne
    rcases prefix_append_cases h hne with ⟨hq, hqne⟩ | ⟨r, hr, hrp, hrne⟩
    · have hs := splitOnce_cut (by decide) hq hqne
      rw [parseResp_bulk, parseBulk, hs]
    · have hlt : r.length < a.length + 2 := by
        have hle := hrp.length_le
        have hl : (a ++ crlf).length = a.length + 2 := by simp [crlf]
        rw [hl] at hle
        refine lt_of_le_of_ne hle fun e => hrne (hrp.eq_of_length (e.trans hl.symm))
      have hq : '$' :: q = '$' :: (natStr a.length ++ (crlf ++ r)) := by
        rw [hr]; simp
      rw [hq, parseResp_bulk, parseBulk_lengthLine, if_pos hlt]

/-- A cut header is incomplete. -/
theorem parseResp_header_cut {n : ℕ} {q : Str} (h : q <+: arrayHeader n)
    (hne : q ≠ arrayHeader n) : parseResp q = some (.none, q) := by
  cases q with
  | nil => rw [parseResp_eq]; rfl
  | cons c q =>
    have hc : c = '*' := (List.cons_prefix_cons.mp h).1
    subst hc
    have hs := splitOnce_cut (by decide) h hne
    rw [parseResp_array, parseArray, hs]

/-! ## Cut requests -/

/-- The loop over complete arguments, before `n` more. -/
theorem parseElements_bulkText_append {args : List Str} (h : AllAscii args) (rest tail : Str)
    (n : ℕ) : parseElements parseResp rest (args.length + n) (args.flatMap bulkText ++ tail) =
      (parseElements parseResp rest n tail).map fun r =>
        r.map fun p => (args.map .str ++ p.1, p.2) := by
  induction args with
  | nil =>
    rw [List.length_nil, Nat.zero_add, List.flatMap_nil, List.nil_append]
    cases parseElements parseResp rest n tail with
    | none => rfl
    | some r => cases r <;> rfl
  | cons a args ih =>
    have hargs : AllAscii args := fun b hb => h b (List.mem_cons_of_mem _ hb)
    rw [List.length_cons, Nat.succ_add, parseElements, List.flatMap_cons, List.append_assoc,
      parseResp_bulkText (h a List.mem_cons_self)]
    simp only [Value.isNone, Bool.false_eq_true, false_and, if_false]
    rw [ih hargs, Option.map_map]
    congr 1
    funext r
    cases r <;> rfl

/-- The loop on incomplete text that is not the start of the arguments: `None` every time. -/
theorem parseElements_incomplete {rest q : Str} (hq : parseResp q = some (.none, q))
    (hne : q ≠ rest) (n : ℕ) :
    parseElements parseResp rest n q = some (some (List.replicate n .none, q)) := by
  induction n with
  | zero => rfl
  | succ n ih =>
    rw [parseElements, hq]
    simp only [Value.isNone, hne, and_false, if_false]
    rw [ih]
    rfl

/-- A request of which no argument is complete is incomplete. -/
theorem parseResp_cut_zero {n : ℕ} (hn : 0 < n) {q : Str} (hq : parseResp q = some (.none, q)) :
    parseResp (arrayHeader n ++ q) = some (.none, arrayHeader n ++ q) := by
  have hb : arrayHeader n ++ q = '*' :: (natStr n ++ (crlf ++ q)) := by simp [arrayHeader]
  obtain ⟨m, rfl⟩ := Nat.exists_eq_succ_of_ne_zero hn.ne'
  rw [hb, parseResp_arrayHeader, parseElements, hq]
  simp [Value.isNone]

/-- **A request cut after some arguments is returned with `None` for the missing ones.** The text
of the cut argument stays in the buffer. -/
theorem parseResp_cut {args : List Str} (h : AllAscii args) (hne : args ≠ []) (n : ℕ) {q : Str}
    (hq : parseResp q = some (.none, q)) :
    parseResp (arrayHeader (args.length + n) ++ (args.flatMap bulkText ++ q)) =
      some (.list (args.map .str ++ List.replicate n .none), q) := by
  have hb : arrayHeader (args.length + n) ++ (args.flatMap bulkText ++ q) =
      '*' :: (natStr (args.length + n) ++ (crlf ++ (args.flatMap bulkText ++ q))) := by
    simp [arrayHeader]
  have hrest : q ≠ args.flatMap bulkText ++ q := by
    intro e
    have hl := congrArg List.length e
    obtain ⟨a, args, rfl⟩ := List.exists_cons_of_ne_nil hne
    rw [List.flatMap_cons, bulkText] at hl
    simp only [List.length_append, List.length_cons] at hl
    omega
  rw [hb, parseResp_arrayHeader, parseElements_bulkText_append h, parseElements_incomplete hq hrest]
  rfl

/-! ## Where a prefix cuts the arguments -/

/-- The number of arguments whose encoding lies within the first `n` characters. -/
def completeArgs : List Str → ℕ → ℕ
  | [], _ => 0
  | a :: args, n =>
    if (bulkText a).length ≤ n then completeArgs args (n - (bulkText a).length) + 1 else 0

theorem length_bulkText_pos (a : Str) : 0 < (bulkText a).length := by
  rw [bulkText, List.length_cons]
  omega

theorem completeArgs_zero (args : List Str) : completeArgs args 0 = 0 := by
  cases args with
  | nil => rfl
  | cons a args =>
    have := length_bulkText_pos a
    rw [completeArgs, if_neg (by omega)]

theorem completeArgs_append (done rest : List Str) (n : ℕ) :
    completeArgs (done ++ rest) ((done.flatMap bulkText).length + n) =
      done.length + completeArgs rest n := by
  induction done with
  | nil => simp
  | cons a done ih =>
    rw [List.cons_append, completeArgs, List.flatMap_cons, List.length_append, if_pos (by omega),
      Nat.add_assoc, Nat.add_sub_cancel_left, ih, List.length_cons]
    omega

theorem completeArgs_of_lt {e : Str} {n : ℕ} (h : n < (bulkText e).length) (todo : List Str) :
    completeArgs (e :: todo) n = 0 := by
  rw [completeArgs, if_neg (by omega)]

/-- **Where a cut falls.** The complete arguments, and a proper prefix of the next one. -/
theorem exists_cut {args : List Str} {r : Str} (h : r <+: args.flatMap bulkText)
    (hne : r ≠ args.flatMap bulkText) : ∃ done e todo q, args = done ++ e :: todo ∧
      r = done.flatMap bulkText ++ q ∧ q <+: bulkText e ∧ q ≠ bulkText e ∧
      completeArgs args r.length = done.length := by
  induction args generalizing r with
  | nil => exact absurd (List.prefix_nil.mp h) hne
  | cons a args ih =>
    rw [List.flatMap_cons] at h hne
    rcases prefix_append_cases h hne with ⟨hq, hqne⟩ | ⟨r', rfl, hr, hrne⟩
    · refine ⟨[], a, args, r, rfl, rfl, hq, hqne, ?_⟩
      have hlt : r.length < (bulkText a).length :=
        lt_of_le_of_ne hq.length_le fun e => hqne (hq.eq_of_length e)
      rw [completeArgs, if_neg (by omega)]
      rfl
    · obtain ⟨done, e, todo, q, rfl, rfl, hq, hqne, hk⟩ := ih hr hrne
      refine ⟨a :: done, e, todo, q, rfl, by rw [List.flatMap_cons, List.append_assoc], hq, hqne, ?_⟩
      rw [completeArgs, List.length_append, if_pos (by omega), Nat.add_sub_cancel_left, hk]
      rfl

end JobSystem
