import JobSystem.Cache.Resp

/-!
# Reading back an encoded request

The encoder announces each argument by its length in bytes, the parser takes that many characters.

* `parseResp_bulkText`: what the parser makes of one encoded argument;
* `parseElements_bulkText`: the loop over the encoded arguments of a request;
* **`parseResp_encodeReq_iff`**: an encoded request is read back exactly when every argument is
  ASCII, whatever follows it.
-/

namespace JobSystem

open PyText

/-- Every argument is ASCII. -/
def AllAscii (args : List Str) : Prop := ∀ a ∈ args, IsAscii a

instance (args : List Str) : Decidable (AllAscii args) :=
  inferInstanceAs (Decidable (∀ a ∈ args, IsAscii a))

/-! ## One argument -/

theorem cr_notMem_natStr (n : ℕ) : '\r' ∉ natStr n := notMem_natStr (by decide) n

theorem splitOnce_lengthLine {c : Char} (hc : '\r' ≠ c) (n : ℕ) (rest : Str) :
    splitOnce crlf (c :: (natStr n ++ (crlf ++ rest))) = some (c :: natStr n, rest) := by
  have h : '\r' ∉ c :: natStr n := by
    simp only [List.mem_cons, not_or]
    exact ⟨hc, cr_notMem_natStr n⟩
  exact splitOnce_append h rest

theorem parseResp_bulk (buffer : Str) : parseResp ('$' :: buffer) = some (parseBulk ('$' :: buffer)) := by
  rw [parseResp_eq]; rfl

theorem parseResp_array (buffer : Str) :
    parseResp ('*' :: buffer) = parseArray parseResp ('*' :: buffer) := by
  rw [parseResp_eq]; rfl

/-- An announced length cuts the value out by characters. -/
theorem parseBulk_lengthLine (n : ℕ) (rest : Str) :
    parseBulk ('$' :: (natStr n ++ (crlf ++ rest))) =
      if rest.length < n + 2 then (.none, '$' :: (natStr n ++ (crlf ++ rest)))
      else (.str (rest.take n), rest.drop (n + 2)) := by
  unfold parseBulk
  rw [splitOnce_lengthLine (by decide)]
  simp only [List.tail_cons, parseInt_natStr]
  rw [if_neg (by omega)]
  have h2 : ((n : ℤ) + 2) = ((n + 2 : ℕ) : ℤ) := by push_cast; rfl
  rw [h2, sliceTo_ofNat, sliceFrom_ofNat]
  simp only [Nat.cast_lt]

theorem bulkText_append (arg_str t : Str) : bulkText arg_str ++ t =
    '$' :: (natStr (encodeUtf8 arg_str).length ++ (crlf ++ (arg_str ++ (crlf ++ t)))) := by
  simp [bulkText]

theorem drop_text_crlf (a t : Str) : (a ++ (crlf ++ t)).drop (a.length + 2) = t := by
  rw [List.drop_append]
  simp [crlf]

theorem length_text_crlf (a t : Str) : (a ++ (crlf ++ t)).length = a.length + 2 + t.length := by
  simp only [List.length_append, crlf, List.length_cons, List.length_nil]
  omega

/-- **An ASCII argument is read back.** -/
theorem parseResp_bulkText {a : Str} (ha : IsAscii a) (t : Str) :
    parseResp (bulkText a ++ t) = some (.str a, t) := by
  have hn : (encodeUtf8 a).length = a.length := (length_encodeUtf8_eq_iff a).mpr ha
  have hlen := length_text_crlf a t
  rw [bulkText_append, parseResp_bulk, parseBulk_lengthLine, hn, if_neg (by omega), List.take_left,
    drop_text_crlf]

/-- An argument that is read back as itself is ASCII: the value has the announced length. -/
theorem isAscii_of_parseResp_bulkText {a t t' : Str}
    (h : parseResp (bulkText a ++ t) = some (.str a, t')) : IsAscii a ∧ t' = t := by
  have ha : IsAscii a := by
    rw [bulkText_append, parseResp_bulk, parseBulk_lengthLine] at h
    split_ifs at h with hlt
    · cases h
    · simp only [Option.some.injEq, Prod.mk.injEq, Value.str.injEq] at h
      have hlen := congrArg List.length h.1
      rw [List.length_take] at hlen
      rw [← length_encodeUtf8_eq_iff]
      omega
  refine ⟨ha, ?_⟩
  rw [parseResp_bulkText ha] at h
  cases h
  rfl

theorem isAscii_natStr (n : ℕ) : IsAscii (natStr n) := fun _ hc =>
  lt_trans (toNat_of_isDigit (isDigit_of_mem_natStr hc)).2 (by decide)

theorem isAscii_crlf : IsAscii crlf := by simp [IsAscii, crlf]

theorem isAscii_bulkText {a : Str} (ha : IsAscii a) : IsAscii (bulkText a) := by
  have h : bulkText a = ['$'] ++ (natStr (encodeUtf8 a).length ++ (crlf ++ (a ++ crlf))) := rfl
  rw [h]
  simp only [isAscii_append]
  exact ⟨by simp [IsAscii], isAscii_natStr _, isAscii_crlf, ha, isAscii_crlf⟩

/-! ## The loop over the arguments -/

/-- The loop reads back ASCII arguments. -/
theorem parseElements_bulkText {args : List Str} (h : AllAscii args) (rest tail : Str) :
    parseElements parseResp rest args.length (args.flatMap bulkText ++ tail) =
      some (some (args.map .str, tail)) := by
  induction args with
  | nil => rfl
  | cons a args ih =>
    have hargs : AllAscii args := fun b hb => h b (List.mem_cons_of_mem _ hb)
    rw [List.length_cons, parseElements, List.flatMap_cons, List.append_assoc,
      parseResp_bulkText (h a List.mem_cons_self)]
    simp only [Value.isNone, Bool.false_eq_true, false_and, if_false]
    rw [ih hargs]
    rfl

/-- What the loop reads back is ASCII, and the tail is left alone. -/
theorem allAscii_of_parseElements {args : List Str} {rest tail t : Str}
    (h : parseElements parseResp rest args.length (args.flatMap bulkText ++ tail) =
      some (some (args.map .str, t))) : AllAscii args := by
  induction args with
  | nil => intro a ha; cases ha
  | cons a args ih =>
    rw [List.length_cons, parseElements, List.flatMap_cons, List.append_assoc] at h
    split at h
    · cases h
    · rename_i val temp' hv
      split_ifs at h
      · cases h
      · obtain ⟨r, hr, he⟩ := Option.map_eq_some_iff.mp h
        obtain ⟨⟨vs, t'⟩, rfl, hq⟩ := Option.map_eq_some_iff.mp he
        simp only [Prod.mk.injEq, List.map_cons, List.cons.injEq] at hq
        obtain ⟨⟨rfl, rfl⟩, rfl⟩ := hq
        obtain ⟨ha, rfl⟩ := isAscii_of_parseResp_bulkText hv
        intro b hb
        rcases List.mem_cons.mp hb with rfl | hb
        · exact ha
        · exact ih hr b hb

/-! ## The request -/

theorem encodeReq_append (args : List Str) (tail : Str) : encodeReq args ++ tail =
    '*' :: (natStr args.length ++ (crlf ++ (args.flatMap bulkText ++ tail))) := by
  simp [encodeReq, arrayHeader]

/-- The array branch on an announced count runs the loop on what follows. -/
theorem parseResp_arrayHeader (n : ℕ) (rest : Str) :
    parseResp ('*' :: (natStr n ++ (crlf ++ rest))) =
      (parseElements parseResp rest n rest).map fun
        | none => (.none, '*' :: (natStr n ++ (crlf ++ rest)))
        | some (elements, temp) => (.list elements, temp) := by
  rw [parseResp_array]
  unfold parseArray
  rw [splitOnce_lengthLine (by decide)]
  simp only [List.tail_cons, parseInt_natStr, Int.toNat_natCast]
  exact if_neg (by omega)

theorem isAscii_encodeReq {args : List Str} (h : AllAscii args) : IsAscii (encodeReq args) := by
  have hhead : arrayHeader args.length = ['*'] ++ (natStr args.length ++ crlf) := rfl
  rw [encodeReq, hhead]
  simp only [isAscii_append]
  refine ⟨⟨by simp [IsAscii], isAscii_natStr _, isAscii_crlf⟩, fun c hc => ?_⟩
  obtain ⟨a, ha, hca⟩ := List.mem_flatMap.mp hc
  exact isAscii_bulkText (h a ha) c hca

theorem parseResp_encodeReq {args : List Str} (h : AllAscii args) (tail : Str) :
    parseResp (encodeReq args ++ tail) = some (.list (args.map .str), tail) := by
  rw [encodeReq_append, parseResp_arrayHeader, parseElements_bulkText h]
  rfl

/-- **A request is read back exactly when its arguments are ASCII.** -/
theorem parseResp_encodeReq_iff (args : List Str) (tail : Str) :
    parseResp (encodeReq args ++ tail) = some (.list (args.map .str), tail) ↔ AllAscii args := by
  refine ⟨fun h => ?_, fun h => parseResp_encodeReq h tail⟩
  rw [encodeReq_append, parseResp_arrayHeader] at h
  obtain ⟨e, he, hr⟩ := Option.map_eq_some_iff.mp h
  cases e with
  | none => cases hr
  | some p =>
    obtain ⟨vs, t⟩ := p
    simp only [Prod.mk.injEq, Value.list.injEq] at hr
    obtain ⟨rfl, rfl⟩ := hr
    exact allAscii_of_parseElements he

/-- The two bytes of `é` make the parser wait for a character that never comes. -/
theorem parseResp_encodeReq_e_acute :
    parseResp (encodeReq [['é']] ++ []) ≠ some (.list [.str ['é']], []) := by
  have h : parseResp (encodeReq [['é']] ++ []) = some (.none, encodeReq [['é']]) := rfl
  rw [h]
  intro e
  cases e

end JobSystem
