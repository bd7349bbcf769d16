import JobSystem.Lib.Text

/-!
# Lines in a stream

A reader keeps what follows the last separator until more of the stream arrives.

* `splitLines`: the lines that are complete, and the rest; **`splitLines_append`**: more input after
  the rest;
* `splitLines_eq`: the loop that cuts one line off as long as there is a separator;
* `feedLines`, **`feedLines_eq`**: the pieces of a stream give the lines of the stream;
* `splitAll`: `s.split(sep)`; `linePieces`: the pieces in which each line arrives;
* **`filter_splitAll_strip`**: `s.strip().split('\n')` without the empty lines.
-/

namespace PyText

variable {α : Type} [DecidableEq α]

/-- The lines that the separator ends, and what is left after the last one. -/
def splitLines (sep : α) : List α → List (List α) × List α
  | [] => ([], [])
  | c :: cs =>
    if c = sep then ([] :: (splitLines sep cs).1, (splitLines sep cs).2)
    else
      match (splitLines sep cs).1 with
      | [] => ([], c :: (splitLines sep cs).2)
      | line :: lines => ((c :: line) :: lines, (splitLines sep cs).2)

section Split

variable {sep : α} {line rest : List α}

theorem splitLines_cons_self (sep : α) (cs : List α) :
    splitLines sep (sep :: cs) = ([] :: (splitLines sep cs).1, (splitLines sep cs).2) := by
  rw [splitLines, if_pos rfl]

theorem splitLines_of_notMem (h : sep ∉ line) : splitLines sep line = ([], line) := by
  induction line with
  | nil => rfl
  | cons c line ih =>
    rw [List.mem_cons, not_or] at h
    rw [splitLines, if_neg (Ne.symm h.1), ih h.2]

/-- A complete line comes off the front. -/
theorem splitLines_line (h : sep ∉ line) (rest : List α) :
    splitLines sep (line ++ sep :: rest) =
      (line :: (splitLines sep rest).1, (splitLines sep rest).2) := by
  induction line with
  | nil => exact splitLines_cons_self sep rest
  | cons c line ih =>
    rw [List.mem_cons, not_or] at h
    rw [List.cons_append, splitLines, if_neg (Ne.symm h.1), ih h.2]

/-- The loop `while sep in buffer: line, buffer = buffer.split(sep, 1)`. -/
theorem splitLines_eq (sep : α) (l : List α) : splitLines sep l =
    match splitOnce [sep] l with
    | some (line, rest) => (line :: (splitLines sep rest).1, (splitLines sep rest).2)
    | none => ([], l) := by
  by_cases h : sep ∈ l
  · obtain ⟨line, rest, rfl, hline⟩ := List.eq_append_cons_of_mem h
    rw [splitLines_line hline]
    have : splitOnce [sep] (line ++ ([sep] ++ rest)) = some (line, rest) :=
      splitOnce_append hline rest
    rw [List.singleton_append] at this
    rw [this]
  · rw [splitLines_of_notMem h, splitOnce_eq_none_of_notMem h]

theorem sep_notMem_rest (sep : α) (l : List α) : sep ∉ (splitLines sep l).2 := by
  induction l with
  | nil => exact List.not_mem_nil
  | cons c cs ih =>
    rw [splitLines]
    split_ifs with hc
    · exact ih
    · split
      · exact List.not_mem_cons_of_ne_of_not_mem (Ne.symm hc) ih
      · exact ih

/-- As many lines as separators. -/
theorem length_splitLines (sep : α) (l : List α) : (splitLines sep l).1.length = l.count sep := by
  induction l with
  | nil => rfl
  | cons c cs ih =>
    by_cases hc : c = sep
    · subst hc
      rw [splitLines_cons_self, List.length_cons, ih, List.count_cons_self]
    · rw [List.count_cons_of_ne hc, ← ih, splitLines, if_neg hc]
      cases (splitLines sep cs).1 with
      | nil => rfl
      | cons line lines => rfl

/-- More input goes behind the rest. -/
theorem splitLines_append (sep : α) (l l' : List α) : splitLines sep (l ++ l') =
    ((splitLines sep l).1 ++ (splitLines sep ((splitLines sep l).2 ++ l')).1,
      (splitLines sep ((splitLines sep l).2 ++ l')).2) := by
  induction l with
  | nil => rfl
  | cons c cs ih =>
    rw [List.cons_append, splitLines, ih]
    by_cases hc : c = sep
    · subst hc
      simp only [splitLines_cons_self, if_true, List.cons_append]
    · simp only [if_neg hc]
      rw [splitLines, if_neg hc]
      cases (splitLines sep cs).1 with
      | nil => simp only [List.nil_append, List.cons_append, splitLines, if_neg hc]
      | cons line lines => rfl

end Split

/-! ## Pieces of a stream -/

/-- The lines that a reader sees in the pieces that it receives, and what it has left. -/
def feedLines (sep : α) : List α → List (List α) → List (List α) × List α
  | buffer, [] => ([], buffer)
  | buffer, chunk :: chunks =>
    let r := splitLines sep (buffer ++ chunk)
    let r' := feedLines sep r.2 chunks
    (r.1 ++ r'.1, r'.2)

/-- **The pieces of a stream give the lines of the stream.** -/
theorem feedLines_eq {sep : α} {buffer : List α} (h : sep ∉ buffer) (chunks : List (List α)) :
    feedLines sep buffer chunks = splitLines sep (buffer ++ chunks.flatten) := by
  induction chunks generalizing buffer with
  | nil => rw [feedLines, List.flatten_nil, List.append_nil, splitLines_of_notMem h]
  | cons chunk chunks ih =>
    rw [List.flatten_cons, ← List.append_assoc, splitLines_append sep (buffer ++ chunk), feedLines]
    simp only [ih (sep_notMem_rest sep (buffer ++ chunk))]

/-! ## Lines in pieces -/

/-- `s.split(sep)` for one character. -/
def splitAll (sep : α) (l : List α) : List (List α) := (splitLines sep l).1 ++ [(splitLines sep l).2]

/-- The last item of a list and the first one of another are one. -/
def glue {β γ : Type} (f : β → γ → γ) (g : β → γ) : List β → List γ → List γ
  | [], qs => qs
  | [p], q :: qs => f p q :: qs
  | p :: ps, qs => g p :: glue f g ps qs

/-- The pieces in which each line of a stream arrives. -/
def linePieces (sep : α) : List (List α) → List (List (List α))
  | [] => [[]]
  | chunk :: chunks => glue List.cons (fun p => [p]) (splitAll sep chunk) (linePieces sep chunks)

section Pieces

variable {sep : α}

theorem splitAll_nil (sep : α) : splitAll sep [] = [[]] := rfl

theorem splitAll_cons_self (sep : α) (l : List α) : splitAll sep (sep :: l) = [] :: splitAll sep l := by
  rw [splitAll, splitLines_cons_self]
  rfl

theorem splitAll_cons_of_ne {c : α} (h : c ≠ sep) (l : List α) :
    splitAll sep (c :: l) = glue List.append id [[c]] (splitAll sep l) := by
  unfold splitAll
  rw [splitLines, if_neg h]
  cases (splitLines sep l).1 with
  | nil => rfl
  | cons line lines => rfl

theorem splitAll_ne_nil (sep : α) (l : List α) : splitAll sep l ≠ [] := by
  simp [splitAll]

/-- The line at a cut is in both parts. -/
theorem splitAll_append (sep : α) (l l' : List α) :
    splitAll sep (l ++ l') = glue List.append id (splitAll sep l) (splitAll sep l') := by
  obtain ⟨q, qs, hq⟩ := List.exists_cons_of_ne_nil (splitAll_ne_nil sep l')
  induction l with
  | nil =>
    rw [List.nil_append, splitAll_nil, hq]
    rfl
  | cons c l ih =>
    obtain ⟨p, ps, hp⟩ := List.exists_cons_of_ne_nil (splitAll_ne_nil sep l)
    rw [List.cons_append]
    by_cases hc : c = sep
    · subst hc
      rw [splitAll_cons_self, splitAll_cons_self, ih, hp, hq]
      rfl
    · rw [splitAll_cons_of_ne hc, splitAll_cons_of_ne hc, ih, hp, hq]
      cases ps with
      | nil => rfl
      | cons p' ps => rfl

theorem splitAll_concat_self (sep : α) (l : List α) :
    splitAll sep (l ++ [sep]) = splitAll sep l ++ [[]] := by
  have hglue : ∀ ps : List (List α), ps ≠ [] → glue List.append id ps [[], []] = ps ++ [[]] := by
    intro ps hps
    induction ps with
    | nil => exact absurd rfl hps
    | cons p ps ih =>
      cases ps with
      | nil =>
        change [p ++ [], []] = [p] ++ [[]]
        rw [List.append_nil]
        rfl
      | cons p' ps =>
        change p :: glue List.append id (p' :: ps) [[], []] = _
        rw [ih (List.cons_ne_nil _ _)]
        rfl
  rw [splitAll_append, splitAll_cons_self, splitAll_nil, hglue _ (splitAll_ne_nil sep l)]

/-- Each piece of a part is in a piece of the whole. -/
theorem countP_splitAll_le {P : List α → Bool}
    (hP : ∀ p q, p <:+: q → P p = true → P q = true) {s l : List α} (h : s <:+: l) :
    (splitAll sep s).countP P ≤ (splitAll sep l).countP P := by
  have hcons : ∀ {p q : List α} (ps : List (List α)), p <:+: q →
      (p :: ps).countP P ≤ (q :: ps).countP P := by
    intro p q ps hpq
    rw [List.countP_cons, List.countP_cons]
    by_cases hp : P p = true
    · rw [if_pos hp, if_pos (hP p q hpq hp)]
    · rw [if_neg hp]
      exact Nat.add_le_add_left (Nat.zero_le _) _
  have hleft : ∀ ps qs : List (List α), qs.countP P ≤ (glue List.append id ps qs).countP P := by
    intro ps qs
    induction ps with
    | nil => exact le_refl _
    | cons p ps ih =>
      cases ps with
      | nil =>
        cases qs with
        | nil => exact Nat.zero_le _
        | cons q qs => exact hcons qs (List.suffix_append p q).isInfix
      | cons p' ps =>
        exact ih.trans (List.sublist_cons_self p _).countP_le
  have hright : ∀ ps qs : List (List α), ps.countP P ≤ (glue List.append id ps qs).countP P := by
    intro ps qs
    induction ps with
    | nil => exact Nat.zero_le _
    | cons p ps ih =>
      cases ps with
      | nil =>
        cases qs with
        | nil => exact le_refl _
        | cons q qs =>
          refine (hcons [] (List.prefix_append p q).isInfix).trans ?_
          change _ ≤ ((p ++ q) :: qs).countP P
          rw [List.countP_cons, List.countP_cons, List.countP_nil]
          omega
      | cons p' ps =>
        change _ ≤ (p :: glue List.append id (p' :: ps) qs).countP P
        generalize glue List.append id (p' :: ps) qs = gs at ih
        generalize p' :: ps = ps at ih
        rw [List.countP_cons, List.countP_cons]
        exact Nat.add_le_add_right ih _
  obtain ⟨a, b, rfl⟩ := h
  rw [splitAll_append, splitAll_append]
  exact (hleft _ _).trans (hright _ _)

theorem flatten_glue {β : Type} (ps : List β) (G : List (List β)) :
    (glue List.cons (fun p => [p]) ps G).flatten = ps ++ G.flatten := by
  induction ps with
  | nil => rfl
  | cons p ps ih =>
    cases ps with
    | nil =>
      cases G with
      | nil => rfl
      | cons g gs => rfl
    | cons p' ps =>
      change ([p] :: glue List.cons (fun p => [p]) (p' :: ps) G).flatten = _
      rw [List.flatten_cons, ih]
      rfl

/-- The pieces are those of the chunks. -/
theorem flatten_linePieces (sep : α) (chunks : List (List α)) :
    (linePieces sep chunks).flatten = chunks.flatMap (splitAll sep) := by
  induction chunks with
  | nil => rfl
  | cons chunk chunks ih => rw [linePieces, flatten_glue, ih, List.flatMap_cons]

/-- The pieces of a line make the line. -/
theorem map_flatten_linePieces (sep : α) (chunks : List (List α)) :
    (linePieces sep chunks).map List.flatten = splitAll sep chunks.flatten := by
  have hglue : ∀ (ps : List (List α)) (G : List (List (List α))),
      (glue List.cons (fun p => [p]) ps G).map List.flatten =
        glue List.append id ps (G.map List.flatten) := by
    intro ps G
    induction ps with
    | nil => rfl
    | cons p ps ih =>
      cases ps with
      | nil =>
        cases G with
        | nil =>
          change [[p].flatten] = [p]
          rw [List.flatten_singleton]
        | cons g gs => rfl
      | cons p' ps =>
        change [p].flatten :: (glue List.cons (fun p => [p]) (p' :: ps) G).map List.flatten = _
        rw [ih, List.flatten_singleton]
        rfl
  induction chunks with
  | nil => rfl
  | cons chunk chunks ih => rw [linePieces, hglue, ih, List.flatten_cons, splitAll_append]

end Pieces

theorem subset_of_mem_splitAll {sep : α} {line l : List α} (h : line ∈ splitAll sep l) : line ⊆ l := by
  induction l generalizing line with
  | nil =>
    rw [splitAll_nil, List.mem_singleton] at h
    rw [h]
    exact List.Subset.refl _
  | cons c l ih =>
    by_cases hc : c = sep
    · subst hc
      rw [splitAll_cons_self, List.mem_cons] at h
      rcases h with rfl | h
      · exact List.nil_subset _
      · exact List.subset_cons_of_subset c (ih h)
    · obtain ⟨q, qs, hq⟩ := List.exists_cons_of_ne_nil (splitAll_ne_nil sep l)
      rw [splitAll_cons_of_ne hc, hq] at h
      rw [hq] at ih
      rcases List.mem_cons.mp h with rfl | h
      · exact List.cons_subset_cons c (ih List.mem_cons_self)
      · exact List.subset_cons_of_subset c (ih (List.mem_cons_of_mem _ h))

/-- The lines of encoded text are its encoded lines. -/
theorem splitLines_encodeUtf8 (s : Str) : splitLines 10 (encodeUtf8 s) =
    ((splitLines '\n' s).1.map encodeUtf8, encodeUtf8 (splitLines '\n' s).2) := by
  have hfront : ∀ a l : Bytes, 10 ∉ a → splitLines 10 (a ++ l) =
      match (splitLines 10 l).1 with
      | [] => ([], a ++ (splitLines 10 l).2)
      | line :: lines => ((a ++ line) :: lines, (splitLines 10 l).2) := by
    intro a l ha
    induction a with
    | nil => cases hl : (splitLines 10 l).1 <;> exact Prod.ext hl rfl
    | cons c a ih =>
      rw [List.mem_cons, not_or] at ha
      rw [List.cons_append, splitLines, if_neg (Ne.symm ha.1), ih ha.2]
      cases (splitLines 10 l).1 <;> rfl
  induction s with
  | nil => rfl
  | cons c s ih =>
    by_cases hc : c = '\n'
    · subst hc
      have hbyte : encodeUtf8 ('\n' :: s) = 10 :: encodeUtf8 s := rfl
      rw [hbyte, splitLines_cons_self, splitLines_cons_self, ih]
      rfl
    · have hone : 10 ∉ encodeUtf8 [c] := newline_notMem_encodeUtf8 (by simpa using Ne.symm hc)
      have hsplit : encodeUtf8 (c :: s) = encodeUtf8 [c] ++ encodeUtf8 s := encodeUtf8_append [c] s
      rw [hsplit, hfront _ _ hone, ih, splitLines, if_neg hc]
      cases (splitLines '\n' s).1 with
      | nil => exact congrArg (Prod.mk []) (encodeUtf8_append [c] _).symm
      | cons line lines =>
        change (_ :: _, _) = (_ :: _, _)
        rw [← encodeUtf8_append]
        rfl

/-- White space at the ends of the lines is only newlines. -/
def NoOuterSpace (line : Str) : Prop :=
  (∀ c ∈ line.head?, isSpace c = false) ∧ ∀ c ∈ line.getLast?, isSpace c = false

/-- **`strip` takes off empty lines only**, where the lines have no white space at their ends. -/
theorem filter_splitAll_strip {s : Str} (h : ∀ line ∈ splitAll '\n' s, NoOuterSpace line) :
    (splitAll '\n' (strip s)).filter (· ≠ []) = (splitAll '\n' s).filter (· ≠ []) := by
  have hdrop : ∀ s : Str, (∀ line ∈ splitAll '\n' s, NoOuterSpace line) →
      (splitAll '\n' (s.dropWhile isSpace)).filter (· ≠ []) = (splitAll '\n' s).filter (· ≠ []) ∧
        ∀ line ∈ splitAll '\n' (s.dropWhile isSpace), NoOuterSpace line := by
    intro s h
    induction s with
    | nil => exact ⟨rfl, h⟩
    | cons c s ih =>
      by_cases hc : isSpace c = true
      · rw [List.dropWhile_cons_of_pos hc]
        by_cases hnl : c = '\n'
        · subst hnl
          rw [splitAll_cons_self] at h ⊢
          exact ih fun line hline => h line (List.mem_cons_of_mem _ hline)
        · -- the first line would begin with a space
          exfalso
          obtain ⟨q, qs, hq⟩ := List.exists_cons_of_ne_nil (splitAll_ne_nil '\n' s)
          rw [splitAll_cons_of_ne hnl, hq] at h
          have hfirst := (h (c :: q) List.mem_cons_self).1 c rfl
          rw [hc] at hfirst
          cases hfirst
      · rw [List.dropWhile_cons_of_neg hc]
        exact ⟨rfl, h⟩
  have hrdrop : ∀ s : Str, (∀ line ∈ splitAll '\n' s, NoOuterSpace line) →
      (splitAll '\n' (s.rdropWhile isSpace)).filter (· ≠ []) =
        (splitAll '\n' s).filter (· ≠ []) := by
    intro s h
    induction s using List.reverseRecOn with
    | nil => rfl
    | append_singleton s c ih =>
      by_cases hc : isSpace c = true
      · rw [List.rdropWhile_concat_pos _ _ _ hc]
        by_cases hnl : c = '\n'
        · subst hnl
          rw [splitAll_concat_self] at h ⊢
          rw [ih fun line hline => h line (List.mem_append_left _ hline), List.filter_append]
          exact (List.append_nil _).symm
        · -- the last line would end in a space
          exfalso
          have hrest : '\n' ∉ (splitLines '\n' s).2 ++ [c] := by
            rw [List.mem_append, List.mem_singleton]
            exact fun hm => hm.elim (sep_notMem_rest '\n' s) (Ne.symm hnl)
          have hmem : (splitLines '\n' s).2 ++ [c] ∈ splitAll '\n' (s ++ [c]) := by
            rw [splitAll, splitLines_append, splitLines_of_notMem hrest]
            exact List.mem_append_right _ (List.mem_singleton_self _)
          have hlast := (h _ hmem).2 c List.getLast?_concat
          rw [hc] at hlast
          cases hlast
      · rw [List.rdropWhile_concat_neg _ _ _ hc]
  rw [strip, hrdrop _ (hdrop s h).2, (hdrop s h).1]

end PyText
