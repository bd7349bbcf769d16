import JobSystem.Lib.Consuming
import JobSystem.Lib.Text

/-!
# The RESP protocol: `parse_resp` and the request encoder

`parseResp` is `cache_manager.parse_resp`. The recursion through nested arrays is bounded by fuel
(`parseFuel`), of which `parseResp` is given enough; every later proof uses its equation,
`parseResp_eq`, only.

* `parseStep`: one level of the parser, the recursive call a parameter; `descends_parseStep`: it calls
  itself on shorter buffers only;
* **`parseResp_suffix`**: the remainder is a suffix of the buffer, shorter when a value came out;
* `encodeReq`: the array of bulk strings that `_send_command` sends and `append_to_log` writes.
-/

namespace JobSystem

open PyText
open Consuming (Suffixes Descends fix)

/-! ## Values -/

/-- What `parse_resp` returns as a value: `none` is `None`, `err` an `Exception` object. -/
inductive Value where
  | none
  | str (s : Str)
  | err (msg : Str)
  | int (n : ℤ)
  | list (xs : List Value)

/-- `v is None`. -/
def Value.isNone : Value → Bool
  | .none => true
  | _ => false

/-- `'\r\n'`. -/
def crlf : Str := ['\r', '\n']

/-- A parser: the value and the remaining buffer, or `none` when it raises `ValueError`. -/
abbrev Parser := Str → Option (Value × Str)

/-! ## The parser -/

/-- The branches `'+'`, `'-'` and `':'`: the line up to the first `'\r\n'`, read by `f`. -/
def parseLine (f : Str → Option Value) (buffer : Str) : Option (Value × Str) :=
  match splitOnce crlf buffer with
  | none => some (.none, buffer)
  | some (line, rest) => (f line.tail).map fun v => (v, rest)

/-- The branch `'$'`. -/
def parseBulk (buffer : Str) : Value × Str :=
  match splitOnce crlf buffer with
  | none => (.none, buffer)
  | some (len_line, rest) =>
    match parseInt len_line.tail with
    | none => (.none, buffer)
    | some str_len =>
      if str_len = -1 then (.none, rest)
      else if (rest.length : ℤ) < str_len + 2 then (.none, buffer)
      else (.str (sliceTo rest str_len), sliceFrom rest (str_len + 2))

/-- The loop of the branch `'*'`: `n` more elements from `temp`. The inner `none` is the early
`return None, buffer`, taken when an element is `None` and `temp` is back at `rest`. -/
def parseElements (parse : Parser) (rest : Str) : ℕ → Str → Option (Option (List Value × Str))
  | 0, temp => some (some ([], temp))
  | n + 1, temp =>
    match parse temp with
    | none => none
    | some (val, temp') =>
      if val.isNone = true ∧ temp' = rest then some none
      else (parseElements parse rest n temp').map fun r => r.map fun p => (val :: p.1, p.2)

/-- The branch `'*'`. -/
def parseArray (parse : Parser) (buffer : Str) : Option (Value × Str) :=
  match splitOnce crlf buffer with
  | none => some (.none, buffer)
  | some (len_line, rest) =>
    match parseInt len_line.tail with
    | none => some (.none, buffer)
    | some num_elements =>
      if num_elements = -1 then some (.none, rest)
      else (parseElements parse rest num_elements.toNat rest).map fun
        | none => (.none, buffer)
        | some (elements, temp) => (.list elements, temp)

/-- The words of an inline command. -/
def inlineTokens (line : Str) : Value :=
  .list ((splitWords line).map fun t => .str (stripChar '"' t))

/-- The last branch: an inline command line. -/
def parseInline (buffer : Str) : Value × Str :=
  match splitOnce crlf buffer with
  | some (line, rest) => (inlineTokens line, rest)
  | none =>
    match splitOnce ['\n'] buffer with
    | some (line, rest) => (inlineTokens line, rest)
    | none => (.none, buffer)

/-- The body of `parse_resp`, with `parse` for the recursive call. -/
def parseStep (parse : Parser) : Parser
  | [] => some (.none, [])
  | c :: cs =>
    if c = '+' then parseLine (fun s => some (.str s)) (c :: cs)
    else if c = '-' then parseLine (fun s => some (.err s)) (c :: cs)
    else if c = ':' then parseLine (fun s => (parseInt s).map .int) (c :: cs)
    else if c = '$' then some (parseBulk (c :: cs))
    else if c = '*' then parseArray parse (c :: cs)
    else some (parseInline (c :: cs))

/-- `parse_resp` with a bound on the nesting depth. -/
def parseFuel : ℕ → Parser
  | 0 => fun buffer => some (.none, buffer)
  | fuel + 1 => parseStep (parseFuel fuel)

/-- `parse_resp(buffer)`. -/
def parseResp (buffer : Str) : Option (Value × Str) := parseFuel (buffer.length + 1) buffer

/-! ## The remainder is a suffix -/

/-- A result keeps a suffix of the buffer, a shorter one when its value is not `None`. -/
def Progress (buffer : Str) (r : Value × Str) : Prop :=
  r.2 <:+ buffer ∧ (r.1.isNone = false → r.2.length < buffer.length)

theorem Progress.refl (buffer : Str) : Progress buffer (.none, buffer) :=
  ⟨List.suffix_rfl, fun h => Bool.noConfusion h⟩

theorem progress_of_splitOnce {sep buffer line rest rest' : Str} {v : Value} (hsep : sep ≠ [])
    (h : splitOnce sep buffer = some (line, rest)) (hs : rest' <:+ rest) :
    Progress buffer (v, rest') := by
  have hb := splitOnce_eq_some h
  have hlen := length_of_splitOnce h
  have hpos := List.length_pos_iff.mpr hsep
  have hl := hs.length_le
  refine ⟨hs.trans ?_, fun _ => ?_⟩
  · rw [hb, ← List.append_assoc]
    exact List.suffix_append _ _
  · change rest'.length < buffer.length
    omega

theorem parseLine_progress {f : Str → Option Value} {buffer : Str} {r : Value × Str}
    (h : parseLine f buffer = some r) : Progress buffer r := by
  unfold parseLine at h
  split at h
  · cases h; exact Progress.refl _
  · rename_i line rest hs
    obtain ⟨v, -, rfl⟩ := Option.map_eq_some_iff.mp h
    exact progress_of_splitOnce (List.cons_ne_nil _ _) hs List.suffix_rfl

theorem parseBulk_progress (buffer : Str) : Progress buffer (parseBulk buffer) := by
  unfold parseBulk
  split
  · exact Progress.refl _
  · rename_i len_line rest hs
    have hsep : crlf ≠ [] := List.cons_ne_nil _ _
    split
    · exact Progress.refl _
    · split_ifs
      · exact progress_of_splitOnce hsep hs List.suffix_rfl
      · exact Progress.refl _
      · exact progress_of_splitOnce hsep hs (sliceFrom_suffix _ _)

theorem parseInline_progress (buffer : Str) : Progress buffer (parseInline buffer) := by
  unfold parseInline
  split
  · rename_i hs; exact progress_of_splitOnce (List.cons_ne_nil _ _) hs List.suffix_rfl
  · split
    · rename_i hs; exact progress_of_splitOnce (List.cons_ne_nil _ _) hs List.suffix_rfl
    · exact Progress.refl _

theorem parseElements_suffix {parse : Parser} {rest : Str}
    (hp : ∀ b r, parse b = some r → r.2 <:+ b) (n : ℕ) {temp : Str} {vs : List Value} {t : Str}
    (h : parseElements parse rest n temp = some (some (vs, t))) : t <:+ temp := by
  induction n generalizing temp vs with
  | zero => cases h; exact List.suffix_rfl
  | succ n ih =>
    simp only [parseElements] at h
    split at h
    · cases h
    · rename_i val temp' hv
      split_ifs at h
      · cases h
      · obtain ⟨r, hr, he⟩ := Option.map_eq_some_iff.mp h
        obtain ⟨p, rfl, hq⟩ := Option.map_eq_some_iff.mp he
        cases hq
        exact (ih hr).trans (hp _ _ hv)

theorem parseArray_progress {parse : Parser} (hp : ∀ b r, parse b = some r → r.2 <:+ b)
    {buffer : Str} {r : Value × Str} (h : parseArray parse buffer = some r) : Progress buffer r := by
  unfold parseArray at h
  split at h
  · cases h; exact Progress.refl _
  · rename_i len_line rest hs
    have hsep : crlf ≠ [] := List.cons_ne_nil _ _
    split at h
    · cases h; exact Progress.refl _
    · split_ifs at h
      · cases h; exact progress_of_splitOnce hsep hs List.suffix_rfl
      · obtain ⟨e, he, hr⟩ := Option.map_eq_some_iff.mp h
        cases e with
        | none => cases hr; exact Progress.refl _
        | some p =>
          cases hr
          exact progress_of_splitOnce hsep hs (parseElements_suffix hp _ he)

theorem parseStep_progress {parse : Parser} (hp : ∀ b r, parse b = some r → r.2 <:+ b)
    {buffer : Str} {r : Value × Str} (h : parseStep parse buffer = some r) : Progress buffer r := by
  cases buffer with
  | nil => cases h; exact Progress.refl _
  | cons c cs =>
    simp only [parseStep] at h
    split_ifs at h
    · exact parseLine_progress h
    · exact parseLine_progress h
    · exact parseLine_progress h
    · cases h; exact parseBulk_progress _
    · exact parseArray_progress hp h
    · cases h; exact parseInline_progress _

/-! ## The fuel is enough -/

theorem parseElements_congr {p q : Parser} {rest : Str} {N : ℕ}
    (hp : ∀ b r, p b = some r → r.2 <:+ b) (hpq : ∀ b, b.length ≤ N → p b = q b) (n : ℕ)
    {temp : Str} (ht : temp.length ≤ N) :
    parseElements p rest n temp = parseElements q rest n temp := by
  induction n generalizing temp with
  | zero => rfl
  | succ n ih =>
    simp only [parseElements, ← hpq temp ht]
    cases hv : p temp with
    | none => rfl
    | some r =>
      obtain ⟨val, temp'⟩ := r
      have hle := (hp _ _ hv).length_le
      simp only
      rw [ih (by simp only at hle; omega)]

theorem parseStep_congr {p q : Parser} {buffer : Str} (hp : ∀ b r, p b = some r → r.2 <:+ b)
    (hpq : ∀ b, b.length < buffer.length → p b = q b) : parseStep p buffer = parseStep q buffer := by
  cases buffer with
  | nil => rfl
  | cons c cs =>
    have ha : parseArray p (c :: cs) = parseArray q (c :: cs) := by
      unfold parseArray
      cases hs : splitOnce crlf (c :: cs) with
      | none => rfl
      | some lr =>
        obtain ⟨len_line, rest⟩ := lr
        have hlen := length_of_splitOnce hs
        have h2 : crlf.length = 2 := rfl
        simp only
        cases parseInt len_line.tail with
        | none => rfl
        | some m =>
          simp only
          rw [parseElements_congr (N := rest.length) hp (fun b hb => hpq b (by omega)) _ le_rfl]
    simp only [parseStep, ha]

/-- **`parse_resp` calls itself on shorter buffers only.** -/
theorem descends_parseStep : Descends parseStep where
  suffixes hp _ _ hr := (parseStep_progress hp hr).1
  calls := parseStep_congr

theorem parseFuel_eq_iterate (fuel : ℕ) :
    parseFuel fuel = parseStep^[fuel] fun buffer => some (.none, buffer) := by
  induction fuel with
  | zero => rfl
  | succ fuel ih =>
    rw [Function.iterate_succ_apply', ← ih]
    rfl

theorem parseResp_eq_fix : parseResp = fix parseStep := by
  funext buffer
  rw [parseResp, parseFuel_eq_iterate]
  exact descends_parseStep.iterate_eq_fix _ (Nat.lt_succ_self _)

/-- **The recursion equation of `parse_resp`.** -/
theorem parseResp_eq (buffer : Str) : parseResp buffer = parseStep parseResp buffer := by
  rw [parseResp_eq_fix]
  exact descends_parseStep.fix_eq buffer

theorem suffixes_parseResp : Suffixes parseResp := by
  rw [parseResp_eq_fix]
  exact descends_parseStep.suffixes_fix

/-- **The parser makes progress.** -/
theorem parseResp_suffix {buffer : Str} {r : Value × Str} (h : parseResp buffer = some r) :
    r.2 <:+ buffer ∧ (r.1.isNone = false → r.2.length < buffer.length) := by
  rw [parseResp_eq] at h
  exact parseStep_progress suffixes_parseResp h

/-! ## The encoder -/

/-- `f"${len(arg_str.encode('utf-8'))}\r\n{arg_str}\r\n"`. -/
def bulkText (arg_str : Str) : Str :=
  '$' :: (natStr (encodeUtf8 arg_str).length ++ (crlf ++ (arg_str ++ crlf)))

/-- `f"*{len(cmd_array)}\r\n"`. -/
def arrayHeader (n : ℕ) : Str := '*' :: (natStr n ++ crlf)

/-- The text `req` of `CacheClient._send_command` and of `LRUCacheServer.append_to_log`, for an
array of strings. -/
def encodeReq (cmd_array : List Str) : Str :=
  arrayHeader cmd_array.length ++ cmd_array.flatMap bulkText

end JobSystem
