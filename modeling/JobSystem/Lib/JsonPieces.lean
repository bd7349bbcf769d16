import JobSystem.Lib.JsonRoundTrip

/-!
# Pieces of a JSON text

A scanner that only knows quotes, backslashes and brackets. What `loads` accepts leaves it where it
was (`loads_reads`); what `dumps` writes keeps backslashes and the letter `v` inside strings
(`writes_dumps`).

* `At`, `walk`, `Scan`;
* `Reads`: a text that is read, with the depth and the names of what it is;
* `Writes`: a text that is written;
* **`loads_piece`**: a proper piece of the text of an object is no text of as deep an object, unless
  it starts inside a string.
-/

namespace PyJson

open PyText

/-! ## The scanner -/

/-- Outside a string, inside one, and after a backslash in one. -/
inductive Mode where
  | out
  | str
  | esc

/-- Where the scanner is, and how many brackets are open. -/
abbrev At := Mode × ℤ

/-- One character. -/
def next : At → Char → At
  | (.out, d), c =>
    if c = '"' then (.str, d)
    else if c = '{' ∨ c = '[' then (.out, d + 1)
    else if c = '}' ∨ c = ']' then (.out, d - 1)
    else (.out, d)
  | (.str, d), c => if c = '"' then (.out, d) else if c = '\\' then (.esc, d) else (.str, d)
  | (.esc, d), _ => (.str, d)

/-- Where a text leads. -/
def walk (p : At) (s : Str) : At := s.foldl next p

/-- Every character is met in a place where `Q` allows it. -/
def Scan (Q : At → Char → Prop) : At → Str → Prop
  | _, [] => True
  | p, c :: cs => Q p c ∧ Scan Q (next p c) cs

theorem walk_append (p : At) (s t : Str) : walk p (s ++ t) = walk (walk p s) t :=
  List.foldl_append

theorem walk_cons (p : At) (c : Char) (s : Str) : walk p (c :: s) = walk (next p c) s := rfl

section Scan

variable {Q Q' : At → Char → Prop} {p : At} {s t : Str}

theorem scan_append : Scan Q p (s ++ t) ↔ Scan Q p s ∧ Scan Q (walk p s) t := by
  induction s generalizing p with
  | nil => exact ⟨fun h => ⟨trivial, h⟩, And.right⟩
  | cons c s ih =>
    rw [List.cons_append, Scan, Scan, ih, walk_cons, and_assoc]

theorem Scan.mono (h : ∀ p c, Q p c → Q' p c) (hs : Scan Q p s) : Scan Q' p s := by
  induction s generalizing p with
  | nil => trivial
  | cons c s ih => exact ⟨h p c hs.1, ih hs.2⟩

end Scan

/-- A character that means nothing to the scanner, and is not the letter `v`. -/
def Inert (c : Char) : Prop :=
  c ≠ '"' ∧ c ≠ '\\' ∧ c ≠ '{' ∧ c ≠ '[' ∧ c ≠ '}' ∧ c ≠ ']' ∧ c ≠ 'v'

instance (c : Char) : Decidable (Inert c) := inferInstanceAs (Decidable (_ ∧ _))

theorem next_inert {c : Char} (h : Inert c) (d : ℤ) : next (.out, d) c = (.out, d) := by
  obtain ⟨hquote, -, hbrace, hbracket, hbrace', hbracket', -⟩ := h
  rw [next, if_neg hquote, if_neg (not_or.mpr ⟨hbrace, hbracket⟩),
    if_neg (not_or.mpr ⟨hbrace', hbracket'⟩)]

theorem walk_inert {s : Str} (h : ∀ c ∈ s, Inert c) (d : ℤ) : walk (.out, d) s = (.out, d) := by
  induction s with
  | nil => rfl
  | cons c s ih =>
    rw [walk_cons, next_inert (h c List.mem_cons_self), ih fun c' hc => h c' (List.mem_cons_of_mem _ hc)]

theorem scan_inert {Q : At → Char → Prop} {s : Str} (h : ∀ c ∈ s, Inert c) {d : ℤ}
    (hQ : ∀ c ∈ s, Q (.out, d) c) : Scan Q (.out, d) s := by
  induction s with
  | nil => trivial
  | cons c s ih =>
    refine ⟨hQ c List.mem_cons_self, ?_⟩
    rw [next_inert (h c List.mem_cons_self)]
    exact ih (fun c' hc => h c' (List.mem_cons_of_mem _ hc))
      fun c' hc => hQ c' (List.mem_cons_of_mem _ hc)

theorem inert_of_isWs {c : Char} (h : isWs c = true) : Inert c := by
  simp only [isWs, decide_eq_true_eq] at h
  rcases h with rfl | rfl | rfl | rfl <;> decide

theorem inert_of_isDigit {c : Char} (h : c.isDigit = true) : Inert c :=
  ⟨ne_of_isDigit h (by decide), ne_of_isDigit h (by decide), ne_of_isDigit h (by decide),
    ne_of_isDigit h (by decide), ne_of_isDigit h (by decide), ne_of_isDigit h (by decide),
    ne_of_isDigit h (by decide)⟩

theorem inert_of_numberChar {c : Char} (h : NumberChar c) : Inert c := by
  rcases h with h | h
  · exact inert_of_isDigit h
  · simp only [List.mem_cons, List.not_mem_nil, or_false] at h
    rcases h with rfl | rfl | rfl | rfl | rfl <;> decide

theorem NumberShape.inert {sign int frac : Str} (h : NumberShape sign int frac) :
    ∀ c ∈ sign ++ (int ++ frac), Inert c := fun c hc => inert_of_numberChar (h.chars c hc)

/-! ## Text that is read -/

/-- A text that closes `-δ` brackets, in which brackets are nested `n` deep and the characters of
certain names are met inside strings. -/
structure Reads (δ : ℤ) (t : Str) (n : ℕ) (names : List Str) : Prop where
  walk : ∀ d, walk (.out, d) t = (.out, d + δ)
  outside : ∀ d, Scan (fun p c => p.1 = .out → c ≠ '\\') (.out, d) t
  depth : ∀ d hi, Scan (fun p _ => p.2 ≤ hi) (.out, d) t → d + n ≤ hi
  names : ∀ P : Char → Prop, ¬ P '\\' →
    ∀ d, Scan (fun p c => p.1 = .str → c = '"' ∨ P c) (.out, d) t → ∀ k ∈ names, ∀ c ∈ k, P c

namespace Reads

variable {δ : ℤ} {t t' : Str} {n n' : ℕ} {names names' : List Str}

theorem weaken (h : Reads δ t n names) (hn : n' ≤ n) (hnames : names' ⊆ names) :
    Reads δ t n' names' where
  walk := h.walk
  outside := h.outside
  depth := fun d hi hs => by
    have := h.depth d hi hs
    omega
  names := fun P hP d hs k hk => h.names P hP d hs k (hnames hk)

theorem append (h : Reads 0 t n names) (h' : Reads δ t' n' names') :
    Reads δ (t ++ t') (max n n') (names ++ names') where
  walk := fun d => by rw [walk_append, h.walk, add_zero, h'.walk]
  outside := fun d => by
    rw [scan_append, h.walk]
    exact ⟨h.outside d, h'.outside _⟩
  depth := fun d hi hs => by
    rw [scan_append, h.walk, add_zero] at hs
    have h₁ := h.depth d hi hs.1
    have h₂ := h'.depth d hi hs.2
    omega
  names := fun P hP d hs k hk => by
    rw [scan_append, h.walk, add_zero] at hs
    rcases List.mem_append.mp hk with hk | hk
    · exact h.names P hP d hs.1 k hk
    · exact h'.names P hP d hs.2 k hk

theorem of_inert (hne : t ≠ []) (h : ∀ c ∈ t, Inert c) : Reads 0 t 0 [] where
  walk := fun d => by rw [walk_inert h, add_zero]
  outside := fun d => scan_inert h fun c hc _ => (h c hc).2.1
  depth := fun d hi hs => by
    obtain ⟨c, cs, rfl⟩ := List.exists_cons_of_ne_nil hne
    have : d ≤ hi := hs.1
    omega
  names := fun _ _ _ _ _ hk => by cases hk

/-- White space in front. -/
theorem space_append {w : Str} (hw : ∀ c ∈ w, isWs c = true) (h : Reads δ t n names) :
    Reads δ (w ++ t) n names := by
  cases w with
  | nil => exact h
  | cons c w =>
    have hinert : Reads 0 (c :: w) 0 [] :=
      of_inert (List.cons_ne_nil c w) fun c' hc => inert_of_isWs (hw c' hc)
    exact (hinert.append h).weaken (le_max_right _ _) (List.subset_append_right _ _)

/-- White space behind a value. -/
theorem append_space {w : Str} (hw : ∀ c ∈ w, isWs c = true) (h : Reads 0 t n names) :
    Reads 0 (t ++ w) n names := by
  cases w with
  | nil => rwa [List.append_nil]
  | cons c w =>
    have hinert : Reads 0 (c :: w) 0 [] :=
      of_inert (List.cons_ne_nil c w) fun c' hc => inert_of_isWs (hw c' hc)
    exact (h.append hinert).weaken (le_max_left _ _) (List.subset_append_left _ _)

theorem open_bracket {c : Char} (hc : c = '{' ∨ c = '[') (h : Reads δ t n names) :
    Reads (δ + 1) (c :: t) (n + 1) names := by
  have hnext : ∀ d, next (.out, d) c = (.out, d + 1) := by rcases hc with rfl | rfl <;> intro d <;> rfl
  have hback : c ≠ '\\' ∧ c ≠ '"' := by rcases hc with rfl | rfl <;> decide
  exact
    { walk := fun d => by rw [walk_cons, hnext, h.walk, add_assoc, add_comm 1 δ]
      outside := fun d => ⟨fun _ => hback.1, by rw [hnext]; exact h.outside _⟩
      depth := fun d hi hs => by
        have h₁ := hs.2
        rw [hnext] at h₁
        have := h.depth _ _ h₁
        push_cast
        omega
      names := fun P hP d hs => by
        have h₁ := hs.2
        rw [hnext] at h₁
        exact h.names P hP _ h₁ }

theorem close_bracket {c : Char} (hc : c = '}' ∨ c = ']') : Reads (-1) [c] 0 [] where
  walk := fun d => by rcases hc with rfl | rfl <;> rfl
  outside := fun d => ⟨fun _ => by rcases hc with rfl | rfl <;> decide, trivial⟩
  depth := fun d hi hs => by
    have : d ≤ hi := hs.1
    omega
  names := fun _ _ _ _ _ hk => by cases hk

end Reads

/-! ### Strings -/

/-- The rest of a string with its closing quote. -/
structure ReadsString (t : Str) (units : List ℕ) : Prop where
  walk : ∀ d, walk (.str, d) t = (.out, d)
  outside : ∀ d, Scan (fun p c => p.1 = .out → c ≠ '\\') (.str, d) t
  units : ∀ P : Char → Prop, ¬ P '\\' →
    ∀ d, Scan (fun p c => p.1 = .str → c = '"' ∨ P c) (.str, d) t → ∀ u ∈ units, ∃ c, P c ∧ u = c.toNat

theorem hexValue_ne {c : Char} {h : ℕ} (hc : hexValue c = some h) : c ≠ '"' ∧ c ≠ '\\' := by
  have hquote : hexValue '"' = none := rfl
  have hback : hexValue '\\' = none := rfl
  constructor
  · rintro rfl
    rw [hquote] at hc
    cases hc
  · rintro rfl
    rw [hback] at hc
    cases hc

theorem readHex_spec {n : ℕ} {s rest : Str} {u v : ℕ} (h : readHex n s u = some (v, rest)) :
    ∃ t, s = t ++ rest ∧ ∀ c ∈ t, c ≠ '"' ∧ c ≠ '\\' := by
  induction n generalizing s u with
  | zero =>
    cases h
    exact ⟨[], rfl, fun _ hc => by cases hc⟩
  | succ n ih =>
    cases s with
    | nil => cases h
    | cons c cs =>
      rw [readHex, Option.bind_eq_some_iff] at h
      obtain ⟨x, hx, h⟩ := h
      obtain ⟨t, rfl, ht⟩ := ih h
      refine ⟨c :: t, rfl, fun c' hc' => ?_⟩
      rcases List.mem_cons.mp hc' with rfl | hc'
      · exact hexValue_ne hx
      · exact ht c' hc'

/-- Plain characters of a string. -/
theorem walk_plain {t : Str} (h : ∀ c ∈ t, c ≠ '"' ∧ c ≠ '\\') (d : ℤ) :
    walk (.str, d) t = (.str, d) := by
  induction t with
  | nil => rfl
  | cons c t ih =>
    have hc := h c List.mem_cons_self
    rw [walk_cons, next, if_neg hc.1, if_neg hc.2]
    exact ih fun c' hc' => h c' (List.mem_cons_of_mem _ hc')

theorem scan_plain {Q : At → Char → Prop} {t : Str} (h : ∀ c ∈ t, c ≠ '"' ∧ c ≠ '\\') {d : ℤ}
    (hQ : ∀ c ∈ t, Q (.str, d) c) : Scan Q (.str, d) t := by
  induction t with
  | nil => trivial
  | cons c t ih =>
    have hc := h c List.mem_cons_self
    refine ⟨hQ c List.mem_cons_self, ?_⟩
    rw [next, if_neg hc.1, if_neg hc.2]
    exact ih (fun c' hc' => h c' (List.mem_cons_of_mem _ hc'))
      fun c' hc' => hQ c' (List.mem_cons_of_mem _ hc')

/-- A code unit: an escape, or a character of its own. -/
theorem readUnit_spec {s rest : Str} {u : ℕ} (h : readUnit s = some (some u, rest)) :
    (∃ e t, s = '\\' :: e :: (t ++ rest) ∧ ∀ c ∈ t, c ≠ '"' ∧ c ≠ '\\') ∨
    ∃ c, s = c :: rest ∧ c ≠ '"' ∧ c ≠ '\\' ∧ u = c.toNat := by
  cases s with
  | nil => cases h
  | cons c cs =>
    unfold readUnit at h
    simp only at h
    split_ifs at h with hquote hback hctrl
    · cases h
    · subst hback
      left
      cases cs with
      | nil => cases h
      | cons e cs =>
        simp only at h
        split_ifs at h with he
        · rw [Option.map_eq_some_iff] at h
          obtain ⟨⟨v, r⟩, hx, h⟩ := h
          cases h
          obtain ⟨t, rfl, ht⟩ := readHex_spec hx
          exact ⟨e, t, rfl, ht⟩
        · rw [Option.map_eq_some_iff] at h
          obtain ⟨x, -, h⟩ := h
          cases h
          exact ⟨e, [], rfl, fun _ hc => by cases hc⟩
    · cases h
      exact .inr ⟨c, rfl, hquote, hback, rfl⟩

theorem readUnit_end {s rest : Str} (h : readUnit s = some (none, rest)) : s = '"' :: rest := by
  cases s with
  | nil => cases h
  | cons c cs =>
    unfold readUnit at h
    simp only at h
    split_ifs at h with hquote hback hctrl
    · cases h
      rw [hquote]
    · cases cs with
      | nil => cases h
      | cons e cs =>
        simp only at h
        split_ifs at h with he
        · rw [Option.map_eq_some_iff] at h
          obtain ⟨x, -, h⟩ := h
          cases h
        · rw [Option.map_eq_some_iff] at h
          obtain ⟨x, -, h⟩ := h
          cases h
    · cases h

theorem readUnits_spec {n : ℕ} {s rest : Str} {units : List ℕ}
    (h : readUnits n s = some (units, rest)) : ∃ t, s = t ++ rest ∧ ReadsString t units := by
  induction n generalizing s units with
  | zero => cases h
  | succ n ih =>
    rw [readUnits, Option.bind_eq_some_iff] at h
    obtain ⟨⟨x, r⟩, hx, h⟩ := h
    cases x with
    | none =>
      cases h
      refine ⟨['"'], readUnit_end hx, fun _ => rfl, fun _ => ⟨fun _ => by decide, trivial⟩, ?_⟩
      intro _ _ _ _ u hu
      cases hu
    | some u =>
      rw [Option.map_eq_some_iff] at h
      obtain ⟨⟨us, r'⟩, hus, h⟩ := h
      cases h
      obtain ⟨t, rfl, ht⟩ := ih hus
      rcases readUnit_spec hx with ⟨e, t₁, rfl, ht₁⟩ | ⟨c, rfl, hquote, hback, rfl⟩
      · have hwalk : ∀ d, walk (.str, d) ('\\' :: e :: (t₁ ++ t)) = walk (.str, d) t := by
          intro d
          change walk (.str, d) (t₁ ++ t) = _
          rw [walk_append, walk_plain ht₁]
        refine ⟨'\\' :: e :: (t₁ ++ t), ?_, fun d => (hwalk d).trans (ht.walk d), fun d => ?_, ?_⟩
        · rw [List.cons_append, List.cons_append, List.append_assoc]
        · refine ⟨fun h => (by cases h), fun h => (by cases h), ?_⟩
          change Scan _ (.str, d) (t₁ ++ t)
          rw [scan_append, walk_plain ht₁]
          exact ⟨scan_plain ht₁ fun _ _ h => (by cases h), ht.outside d⟩
        · intro P hP d hs
          rcases hs.1 rfl with h | h
          · exact absurd h (by decide)
          · exact absurd h hP
      · have hnext : ∀ d, next (.str, d) c = (.str, d) := fun d => by
          rw [next, if_neg hquote, if_neg hback]
        refine ⟨c :: t, rfl, fun d => ?_, fun d => ⟨fun h => (by cases h), ?_⟩, ?_⟩
        · rw [walk_cons, hnext, ht.walk]
        · rw [hnext]
          exact ht.outside d
        · intro P hP d hs u hu
          obtain ⟨hc, hs⟩ := hs
          rw [hnext] at hs
          rcases List.mem_cons.mp hu with rfl | hu
          · exact ⟨c, (hc rfl).resolve_left hquote, rfl⟩
          · exact ht.units P hP d hs u hu

theorem mem_of_joinUnits {P : Char → Prop} {units : List ℕ} {s : Str} (h : joinUnits units = some s)
    (hunits : ∀ u ∈ units, ∃ c, P c ∧ u = c.toNat) : ∀ c ∈ s, P c := by
  induction units generalizing s with
  | nil =>
    cases h
    exact fun c hc => by cases hc
  | cons u units ih =>
    obtain ⟨c, hc, rfl⟩ := hunits u List.mem_cons_self
    have hvalid := c.valid
    have hval : c.val.toNat = c.toNat := rfl
    simp only [UInt32.isValidChar, Nat.isValidChar, hval] at hvalid
    rw [joinUnits_cons (by omega), Option.map_eq_some_iff] at h
    obtain ⟨s', hs', rfl⟩ := h
    intro c' hc'
    rcases List.mem_cons.mp hc' with rfl | hc'
    · rwa [Char.ofNat_toNat]
    · exact ih hs' (fun u hu => hunits u (List.mem_cons_of_mem _ hu)) c' hc'

theorem scanString_reads {s k rest : Str} (h : scanString s = some (k, rest)) :
    ∃ t, '"' :: s = t ++ rest ∧ Reads 0 t 0 [k] := by
  rw [scanString, Option.bind_eq_some_iff] at h
  obtain ⟨⟨units, r⟩, hunits, h⟩ := h
  rw [Option.map_eq_some_iff] at h
  obtain ⟨k', hk, h⟩ := h
  cases h
  obtain ⟨t, rfl, ht⟩ := readUnits_spec hunits
  refine ⟨'"' :: t, rfl, fun d => ?_, fun d => ⟨fun _ => by decide, ht.outside d⟩, ?_, ?_⟩
  · rw [add_zero]
    exact ht.walk d
  · intro d hi hs
    have : d ≤ hi := hs.1
    omega
  · intro P hP d hs k hk'
    rw [List.mem_singleton.mp hk']
    exact mem_of_joinUnits hk (ht.units P hP d hs.2)

/-! ### Values -/

/-- Every constant is a word without depth and names. -/
theorem constants_spec : ∀ e ∈ constants,
    e.1 ≠ [] ∧ (∀ c ∈ e.1, Inert c) ∧ e.2.depth = 0 ∧ e.2.names = [] := by
  intro e he
  simp only [constants, floatConstants, List.map_cons, List.map_nil, List.cons_append,
    List.nil_append, List.mem_cons, List.not_mem_nil, or_false] at he
  rcases he with rfl | rfl | rfl | rfl | rfl | rfl <;>
    exact ⟨List.cons_ne_nil _ _, by simp [Inert], rfl, rfl⟩

variable {ft : FloatText}

theorem scanAtom_reads {s rest : Str} {v : Json} (h : scanAtom ft s = some (v, rest)) :
    v.depth = 0 ∧ v.names = [] ∧ ∃ t, s = t ++ rest ∧ Reads 0 t 0 [] := by
  unfold scanAtom at h
  split at h
  · rename_i e he
    cases h
    obtain ⟨hne, hinert, hdepth, hnames⟩ := constants_spec e (List.mem_of_find?_eq_some he)
    have hprefix : e.1.isPrefixOf s = true :=
      List.find?_some (p := fun e : Str × Json => e.1.isPrefixOf s) he
    obtain ⟨r, hr⟩ := List.isPrefixOf_iff_prefix.mp hprefix
    refine ⟨hdepth, hnames, e.1, ?_, Reads.of_inert hne hinert⟩
    rw [← hr, List.drop_left]
  · rw [scanNumber, Option.map_eq_some_iff] at h
    obtain ⟨⟨⟨sign, int, frac⟩, r⟩, hparts, h⟩ := h
    cases h
    obtain ⟨hshape, hs⟩ := exists_shape hparts
    have hne : sign ++ (int ++ frac) ≠ [] := fun h =>
      hshape.int.1.1 (List.append_eq_nil_iff.mp (List.append_eq_nil_iff.mp h).2).1
    have hs' : s = (sign ++ (int ++ frac)) ++ r := by rw [hs, List.append_assoc, List.append_assoc]
    have hreads := Reads.of_inert hne hshape.inert
    simp only
    split_ifs <;> exact ⟨rfl, rfl, _, hs', hreads⟩

theorem exists_skipWs (s : Str) : ∃ w, s = w ++ skipWs s ∧ ∀ c ∈ w, isWs c = true :=
  ⟨s.takeWhile isWs, List.takeWhile_append_dropWhile.symm, fun _ hc => List.mem_takeWhile_imp hc⟩

section Seq

variable {α : Type} {close : Char} {item : Str → Option (α × Str)} (depthOf : α → ℕ)
  (namesOf : α → List Str)

/-- Items that are read make a sequence that is read. -/
theorem scanSeq_reads (hclose : close = '}' ∨ close = ']')
    (hitem : ∀ s x rest, item s = some (x, rest) →
      ∃ t, s = t ++ rest ∧ Reads 0 t (depthOf x) (namesOf x))
    {n : ℕ} {s rest : Str} {xs : List α} (h : scanSeq close item n s = some (xs, rest)) :
    ∃ t m names, s = t ++ rest ∧ Reads (-1) t m names ∧
      ∀ x ∈ xs, depthOf x ≤ m ∧ namesOf x ⊆ names := by
  induction n generalizing s xs with
  | zero => cases h
  | succ n ih =>
    rw [scanSeq, Option.bind_eq_some_iff] at h
    obtain ⟨⟨x, r⟩, hx, h⟩ := h
    obtain ⟨t₁, rfl, ht₁⟩ := hitem s x r hx
    obtain ⟨w, hw, hws⟩ := exists_skipWs r
    cases hr : skipWs r with
    | nil =>
      simp only [hr] at h
      cases h
    | cons c cs =>
      simp only [hr] at h
      rw [hr] at hw
      split_ifs at h with hc hcomma
      · cases h
        subst hc
        have hread := (ht₁.append_space hws).append (Reads.close_bracket hclose)
        refine ⟨_, _, _, ?_, hread, ?_⟩
        · rw [hw, List.append_assoc, List.append_assoc, List.singleton_append]
        · intro y hy
          rw [List.mem_singleton.mp hy]
          exact ⟨le_max_left _ _, List.subset_append_left _ _⟩
      · rw [Option.map_eq_some_iff] at h
        obtain ⟨⟨ys, r'⟩, hys, h⟩ := h
        cases h
        obtain ⟨t₂, m, names, ht₂, hread₂, hall⟩ := ih hys
        obtain ⟨w', hw', hws'⟩ := exists_skipWs cs
        have hcomma' : Reads 0 [','] 0 [] :=
          Reads.of_inert (List.cons_ne_nil _ _) fun c hc => by
            rw [List.mem_singleton.mp hc]
            decide
        have hread :=
          ((ht₁.append_space hws).append hcomma').append (hread₂.space_append hws')
        refine ⟨_, _, _, ?_, hread, ?_⟩
        · rw [hw, hcomma, hw', ht₂]
          simp only [List.append_assoc, List.cons_append, List.nil_append]
        · intro y hy
          rcases List.mem_cons.mp hy with rfl | hy
          · refine ⟨(le_max_left _ _).trans (le_max_left _ _), ?_⟩
            exact List.subset_append_of_subset_left _ (List.subset_append_left _ _)
          · refine ⟨(hall y hy).1.trans (le_max_right _ _), ?_⟩
            exact List.subset_append_of_subset_right _ (hall y hy).2

end Seq

theorem scanField_reads {value : Str → Option (Json × Str)}
    (hvalue : ∀ s v rest, value s = some (v, rest) → ∃ t, s = t ++ rest ∧ Reads 0 t v.depth v.names)
    {s rest : Str} {f : Str × Json} (h : scanField value s = some (f, rest)) :
    ∃ t, s = t ++ rest ∧ Reads 0 t f.2.depth [f.1] := by
  cases s with
  | nil => cases h
  | cons c cs =>
    rw [scanField] at h
    split_ifs at h with hquote
    subst hquote
    rw [Option.bind_eq_some_iff] at h
    obtain ⟨⟨k, r⟩, hk, h⟩ := h
    obtain ⟨t₁, ht₁, hread₁⟩ := scanString_reads hk
    obtain ⟨w, hw, hws⟩ := exists_skipWs r
    cases hr : skipWs r with
    | nil =>
      simp only [hr] at h
      cases h
    | cons c cs' =>
      simp only [hr] at h
      rw [hr] at hw
      split_ifs at h with hcolon
      rw [Option.map_eq_some_iff] at h
      obtain ⟨⟨v, r'⟩, hv, h⟩ := h
      cases h
      obtain ⟨t₂, ht₂, hread₂⟩ := hvalue _ _ _ hv
      obtain ⟨w', hw', hws'⟩ := exists_skipWs cs'
      have hcolon' : Reads 0 [':'] 0 [] :=
        Reads.of_inert (List.cons_ne_nil _ _) fun c hc => by
          rw [List.mem_singleton.mp hc]
          decide
      have hread :=
        ((hread₁.append_space hws).append hcolon').append (hread₂.space_append hws')
      refine ⟨_, ?_, hread.weaken (le_max_right _ _) ?_⟩
      · rw [ht₁, hw, hcolon, hw', ht₂]
        simp only [List.append_assoc, List.cons_append, List.nil_append]
      · exact List.subset_append_of_subset_left _ (List.subset_append_left _ _)

theorem mem_ofPairs {pairs : List (Str × Json)} {f : Str × Json} (h : f ∈ (ofPairs pairs).entries) :
    f ∈ pairs := by
  have hfold : ∀ (pairs : List (Str × Json)) (d : PyDict Str Json),
      f ∈ (pairs.foldl (fun d p => d.set p.1 p.2) d).entries → f ∈ d.entries ∨ f ∈ pairs := by
    intro pairs
    induction pairs with
    | nil => exact fun d h => .inl h
    | cons p pairs ih =>
      intro d hf
      rcases ih _ hf with hf | hf
      · rw [PyDict.mem_entries_iff, PyDict.get?_set] at hf
        split_ifs at hf with hk
        · right
          rw [List.mem_cons]
          left
          exact Prod.ext hk (Option.some.inj hf).symm
        · exact .inl (PyDict.mem_entries_iff.mpr hf)
      · exact .inr (List.mem_cons_of_mem _ hf)
  rcases hfold pairs ∅ h with h | h
  · cases h
  · exact h

theorem scanOnce_reads {n : ℕ} {s rest : Str} {v : Json} (h : scanOnce ft n s = some (v, rest)) :
    ∃ t, s = t ++ rest ∧ Reads 0 t v.depth v.names := by
  induction n generalizing s v rest with
  | zero => cases s <;> cases h
  | succ n ih =>
    cases s with
    | nil => cases h
    | cons c cs =>
      have hempty : ∀ {c c' : Char} {cs : Str}, c = '{' ∨ c = '[' → c' = '}' ∨ c' = ']' →
          (skipWs cs).head? = some c' → ∃ t, c :: cs = t ++ (skipWs cs).tail ∧ Reads 0 t 1 [] := by
        intro c c' cs hc hc' hhead
        obtain ⟨w, hw, hws⟩ := exists_skipWs cs
        have hcons : skipWs cs = c' :: (skipWs cs).tail := by
          cases hcs : skipWs cs with
          | nil => rw [hcs] at hhead; cases hhead
          | cons d ds => rw [hcs] at hhead; cases hhead; rfl
        refine ⟨_, ?_, ((Reads.close_bracket hc').space_append hws).open_bracket hc⟩
        rw [List.cons_append, List.append_assoc, List.singleton_append, ← hcons, ← hw]
      rw [scanOnce] at h
      split_ifs at h with hquote hbrace hend hbracket hend
      · subst hquote
        rw [Option.map_eq_some_iff] at h
        obtain ⟨⟨k, r⟩, hk, h⟩ := h
        cases h
        obtain ⟨t, ht, hread⟩ := scanString_reads hk
        exact ⟨t, ht, hread.weaken (le_refl _) (List.nil_subset _)⟩
      · cases h
        exact hempty (.inl hbrace) (.inl rfl) hend
      · rw [Option.map_eq_some_iff] at h
        obtain ⟨⟨pairs, r⟩, hpairs, h⟩ := h
        cases h
        obtain ⟨t, m, names, ht, hread, hall⟩ := scanSeq_reads (fun f : Str × Json => f.2.depth)
          (fun f => [f.1]) (.inl rfl)
          (fun s f rest hf => scanField_reads (fun s v rest hv => ih hv) hf) hpairs
        obtain ⟨w, hw, hws⟩ := exists_skipWs cs
        refine ⟨_, ?_, ((hread.space_append hws).open_bracket (.inl hbrace)).weaken ?_ ?_⟩
        · rw [List.cons_append, List.append_assoc, ← ht, ← hw]
        · rw [Json.depth, Nat.add_le_add_iff_right, depthFields_le_iff]
          exact fun f hf => (hall f (mem_ofPairs hf)).1
        · intro k hk
          obtain ⟨f, hf, rfl⟩ := List.mem_map.mp hk
          exact (hall f (mem_ofPairs hf)).2 List.mem_cons_self
      · cases h
        exact hempty (.inr hbracket) (.inr rfl) hend
      · rw [Option.map_eq_some_iff] at h
        obtain ⟨⟨xs, r⟩, hxs, h⟩ := h
        cases h
        obtain ⟨t, m, names, ht, hread, hall⟩ := scanSeq_reads Json.depth Json.names
          (.inr rfl) (fun s v rest hv => ih hv) hxs
        obtain ⟨w, hw, hws⟩ := exists_skipWs cs
        refine ⟨_, ?_, ((hread.space_append hws).open_bracket (.inr hbracket)).weaken ?_
          (List.nil_subset _)⟩
        · rw [List.cons_append, List.append_assoc, ← ht, ← hw]
        · rw [Json.depth, Nat.add_le_add_iff_right, depthItems_le_iff]
          exact fun x hx => (hall x hx).1
      · obtain ⟨hdepth, hnames, t, ht, hread⟩ := scanAtom_reads h
        rw [hdepth, hnames]
        exact ⟨t, ht, hread⟩

/-- What `loads` accepts. -/
theorem loads_reads {s : Str} {v : Json} (h : loads ft s = some v) : Reads 0 s v.depth v.names := by
  rw [loads, Option.bind_eq_some_iff] at h
  obtain ⟨⟨v', r⟩, hv, h⟩ := h
  simp only at h
  split_ifs at h with hr
  cases h
  obtain ⟨w, hw, hws⟩ := exists_skipWs s
  obtain ⟨w', hw', hws'⟩ := exists_skipWs r
  rw [hr, List.append_nil] at hw'
  obtain ⟨t, ht, hread⟩ := scanOnce_reads hv
  rw [hw, ht, hw']
  exact (hread.append_space hws').space_append hws

/-- The text of an object starts with a brace. -/
theorem head_of_loads_obj {s : Str} {fields : List (Str × Json)}
    (h : loads ft s = some (.obj fields)) : (skipWs s).head? = some '{' := by
  rw [loads, Option.bind_eq_some_iff] at h
  obtain ⟨⟨v, r⟩, hv, h⟩ := h
  simp only at h
  split_ifs at h with hr
  cases h
  generalize s.length = n at hv
  cases n with
  | zero => cases hs : skipWs s <;> rw [hs] at hv <;> cases hv
  | succ n =>
    cases hs : skipWs s with
    | nil => rw [hs] at hv; cases hv
    | cons c cs =>
      rw [hs, scanOnce] at hv
      split_ifs at hv with hquote hbrace hend hbracket hend
      · rw [Option.map_eq_some_iff] at hv
        obtain ⟨_, -, hv⟩ := hv
        cases hv
      · rw [hbrace]
        rfl
      · rw [hbrace]
        rfl
      · cases hv
      · rw [Option.map_eq_some_iff] at hv
        obtain ⟨_, -, hv⟩ := hv
        cases hv
      · -- no constant and no number is an object
        unfold scanAtom at hv
        split at hv
        · rename_i e he
          have hmem := List.mem_of_find?_eq_some he
          simp only [constants, floatConstants, List.map_cons, List.map_nil, List.cons_append,
            List.nil_append, List.mem_cons, List.not_mem_nil, or_false] at hmem
          rcases hmem with rfl | rfl | rfl | rfl | rfl | rfl <;> cases hv
        · rw [scanNumber, Option.map_eq_some_iff] at hv
          obtain ⟨p, -, hv⟩ := hv
          simp only at hv
          split_ifs at hv <;> cases hv

/-! ## Text that is written -/

/-- Where `dumps` writes a character: between two depths, backslashes and the letter `v` inside
strings only, and a letter after a backslash. -/
def Written (lo hi : ℤ) (p : At) (c : Char) : Prop :=
  lo ≤ p.2 ∧ p.2 ≤ hi ∧ (p.1 = .out → c ≠ '\\' ∧ c ≠ 'v') ∧ (p.1 = .esc → isWs c = false ∧ c ≠ '{')

/-- A text that closes `-δ` brackets, in which brackets are nested at most `n` deep. -/
structure Writes (δ : ℤ) (t : Str) (n : ℕ) : Prop where
  walk : ∀ d, walk (.out, d) t = (.out, d + δ)
  scan : ∀ d, Scan (Written d (d + n)) (.out, d) t

namespace Writes

variable {δ : ℤ} {t t' : Str} {n n' : ℕ}

theorem mono (h : Writes δ t n) (hn : n ≤ n') : Writes δ t n' where
  walk := h.walk
  scan := fun d => (h.scan d).mono fun p c hc => by
    obtain ⟨hlo, hhi, hchars⟩ := hc
    exact ⟨hlo, by omega, hchars⟩

theorem append (h : Writes 0 t n) (h' : Writes δ t' n) : Writes δ (t ++ t') n where
  walk := fun d => by rw [walk_append, h.walk, add_zero, h'.walk]
  scan := fun d => by
    rw [scan_append, h.walk, add_zero]
    exact ⟨h.scan d, h'.scan d⟩

theorem of_inert (h : ∀ c ∈ t, Inert c) : Writes 0 t 0 where
  walk := fun d => by rw [walk_inert h, add_zero]
  scan := fun d => scan_inert h fun c hc => by
    obtain ⟨-, hback, -, -, -, -, hv⟩ := h c hc
    refine ⟨le_refl _, ?_, fun _ => ⟨hback, hv⟩, fun h => by cases h⟩
    simp

theorem open_bracket {c : Char} (hc : c = '{' ∨ c = '[') (h : Writes δ t n) :
    Writes (δ + 1) (c :: t) (n + 1) := by
  have hnext : ∀ d, next (.out, d) c = (.out, d + 1) := by rcases hc with rfl | rfl <;> intro d <;> rfl
  have hback : c ≠ '\\' ∧ c ≠ 'v' := by rcases hc with rfl | rfl <;> decide
  refine ⟨fun d => by rw [walk_cons, hnext, h.walk, add_assoc, add_comm 1 δ], fun d => ⟨?_, ?_⟩⟩
  · refine ⟨le_refl _, ?_, fun _ => hback, fun h => by cases h⟩
    simp only
    omega
  · rw [hnext]
    refine (h.scan (d + 1)).mono fun p c hc => ?_
    obtain ⟨hlo, hhi, hchars⟩ := hc
    refine ⟨by omega, ?_, hchars⟩
    push_cast
    omega

theorem close_bracket {c : Char} (hc : c = '}' ∨ c = ']') : Writes (-1) [c] 0 := by
  refine ⟨fun d => by rcases hc with rfl | rfl <;> rfl, fun d => ⟨?_, trivial⟩⟩
  refine ⟨le_refl _, by simp, fun _ => ?_, fun h => by cases h⟩
  rcases hc with rfl | rfl <;> decide

theorem commaJoin {ts : List Str} (h : ∀ t ∈ ts, Writes 0 t n) : Writes 0 (commaJoin ts) n := by
  induction ts with
  | nil => exact (of_inert (t := []) fun c hc => by cases hc).mono (Nat.zero_le n)
  | cons t ts ih =>
    cases ts with
    | nil => exact h t List.mem_cons_self
    | cons t' ts =>
      have hcomma : Writes 0 [',', ' '] 0 := of_inert fun c hc => by
        simp only [List.mem_cons, List.not_mem_nil, or_false] at hc
        rcases hc with rfl | rfl <;> decide
      have hrest := (hcomma.mono (Nat.zero_le n)).append
        (ih fun t ht => h t (List.mem_cons_of_mem _ ht))
      exact (h t List.mem_cons_self).append hrest

end Writes

/-- A hexadecimal digit is a plain character. -/
theorem digitChar_plain (k : ℕ) (h : k < 16) :
    Nat.digitChar k ≠ '"' ∧ Nat.digitChar k ≠ '\\' := by
  revert k
  decide

/-- An escaped character leads back into the string. -/
theorem walk_escapeChar (c : Char) (d lo hi : ℤ) (hlo : lo ≤ d) (hhi : d ≤ hi) :
    walk (.str, d) (escapeChar c) = (.str, d) ∧ Scan (Written lo hi) (.str, d) (escapeChar c) := by
  have hstr : ∀ c, Written lo hi (.str, d) c := fun c =>
    ⟨hlo, hhi, fun h => (by cases h), fun h => (by cases h)⟩
  have hesc : ∀ c, isWs c = false → c ≠ '{' → Written lo hi (.esc, d) c := fun c hws hbrace =>
    ⟨hlo, hhi, fun h => (by cases h), fun _ => ⟨hws, hbrace⟩⟩
  have hhex : ∀ us : List ℕ, (∀ u ∈ us, u < 65536) →
      walk (.str, d) (us.flatMap hexEscape) = (.str, d) ∧
        Scan (Written lo hi) (.str, d) (us.flatMap hexEscape) := by
    intro us hus
    induction us with
    | nil => exact ⟨rfl, trivial⟩
    | cons u us ih =>
      obtain ⟨hwalk, hscan⟩ := ih fun u' hu => hus u' (List.mem_cons_of_mem _ hu)
      have hu := hus u List.mem_cons_self
      have hplain : ∀ c ∈ [Nat.digitChar (u / 4096), Nat.digitChar (u / 256 % 16),
          Nat.digitChar (u / 16 % 16), Nat.digitChar (u % 16)], c ≠ '"' ∧ c ≠ '\\' := by
        intro c hc
        simp only [List.mem_cons, List.not_mem_nil, or_false] at hc
        rcases hc with rfl | rfl | rfl | rfl <;> exact digitChar_plain _ (by omega)
      have hone : walk (.str, d) (hexEscape u) = (.str, d) := walk_plain hplain d
      rw [List.flatMap_cons, walk_append, scan_append, hone]
      refine ⟨hwalk, ⟨hstr _, hesc 'u' (by decide) (by decide), ?_⟩, hscan⟩
      exact scan_plain hplain fun c _ => hstr c
  unfold escapeChar
  split
  · rename_i e he
    have hmem := List.mem_of_find?_eq_some he
    have hletters : ∀ e ∈ shortEscapes, isWs e.1 = false ∧ e.1 ≠ '{' := by decide
    obtain ⟨hws, hbrace⟩ := hletters e hmem
    exact ⟨rfl, hstr _, hesc _ hws hbrace, trivial⟩
  · rename_i hnone
    split_ifs with hp
    · rw [List.find?_eq_none] at hnone
      have hplain : ∀ c' ∈ [c], c' ≠ '"' ∧ c' ≠ '\\' := by
        intro c' hc'
        rw [List.mem_singleton.mp hc']
        constructor
        · rintro rfl
          exact hnone ('"', '"') (by decide) (by decide)
        · rintro rfl
          exact hnone ('\\', '\\') (by decide) (by decide)
      exact ⟨walk_plain hplain d, scan_plain hplain fun c _ => hstr c⟩
    · exact hhex (codeUnits c) fun u => lt_of_mem_codeUnits

theorem writes_dumpsStr (s : Str) : Writes 0 (dumpsStr s) 0 := by
  have hbody : ∀ (s : Str) (d : ℤ), walk (.str, d) (s.flatMap escapeChar ++ ['"']) = (.out, d) ∧
      Scan (Written d (d + (0 : ℕ))) (.str, d) (s.flatMap escapeChar ++ ['"']) := by
    intro s d
    induction s with
    | nil => exact ⟨rfl, ⟨le_refl _, by simp, fun h => (by cases h), fun h => (by cases h)⟩, trivial⟩
    | cons c s ih =>
      obtain ⟨hwalk, hscan⟩ := walk_escapeChar c d d (d + (0 : ℕ)) (le_refl _) (by simp)
      rw [List.flatMap_cons, List.append_assoc, walk_append, scan_append, hwalk]
      exact ⟨ih.1, hscan, ih.2⟩
  refine ⟨fun d => ?_, fun d => ⟨?_, (hbody s d).2⟩⟩
  · rw [add_zero]
    exact (hbody s d).1
  · exact ⟨le_refl _, by simp, fun _ => by decide, fun h => by cases h⟩

/-- The fields of an object with the closing brace. -/
theorem writes_fields {fields : List (Str × Json)}
    (h : ∀ f ∈ fields, Writes 0 (dumps f.2) f.2.depth) :
    Writes (-1) (commaJoin (dumpsFields fields) ++ ['}']) (Json.depthFields fields) := by
  have hitems : ∀ t ∈ dumpsFields fields, Writes 0 t (Json.depthFields fields) := by
    intro t ht
    rw [dumpsFields_eq] at ht
    obtain ⟨f, hf, rfl⟩ := List.mem_map.mp ht
    have hcolon : Writes 0 [':', ' '] 0 := Writes.of_inert fun c hc => by
      simp only [List.mem_cons, List.not_mem_nil, or_false] at hc
      rcases hc with rfl | rfl <;> decide
    have hvalue := (h f hf).mono (depthFields_le_iff.mp (le_refl _) f hf)
    exact ((writes_dumpsStr f.1).mono (Nat.zero_le _)).append
      ((hcolon.mono (Nat.zero_le _)).append hvalue)
  have hclose := (Writes.close_bracket (.inl rfl)).mono (Nat.zero_le (Json.depthFields fields))
  exact (Writes.commaJoin hitems).append hclose

/-- **What `dumps` writes.** -/
theorem writes_dumps {v : Json} (h : Canonical ft v) : Writes 0 (dumps v) v.depth := by
  have hinert : ∀ (t : Str) (n : ℕ), (∀ c ∈ t, Inert c) → Writes 0 t n := fun t n ht =>
    (Writes.of_inert ht).mono (Nat.zero_le n)
  induction h with
  | null => exact hinert _ _ (by simp [dumps, Inert])
  | bool b => cases b <;> exact hinert _ _ (by simp [dumps, Inert])
  | int n =>
    obtain ⟨sign, hn, hshape, -⟩ := numberShape_intStr n
    rw [dumps, hn]
    have := hshape.inert
    rw [List.append_nil] at this
    exact hinert _ _ this
  | float h =>
    rw [dumps]
    rcases h with h | ⟨⟨sign, int, frac, hparts, -⟩, -⟩
    · simp only [floatConstants, List.mem_cons, List.not_mem_nil, or_false] at h
      rcases h with rfl | rfl | rfl <;> exact hinert _ _ (by simp [Inert])
    · obtain ⟨hshape, hlit⟩ := exists_shape hparts
      rw [List.append_nil] at hlit
      rw [hlit]
      exact hinert _ _ hshape.inert
  | str s => exact writes_dumpsStr s
  | @arr xs h ih =>
    have hitems : ∀ t ∈ dumpsItems xs, Writes 0 t (Json.depthItems xs) := by
      intro t ht
      rw [dumpsItems_eq] at ht
      obtain ⟨x, hx, rfl⟩ := List.mem_map.mp ht
      exact (ih x hx).mono (depthItems_le_iff.mp (le_refl _) x hx)
    have hclose := (Writes.close_bracket (.inr rfl)).mono (Nat.zero_le (Json.depthItems xs))
    exact ((Writes.commaJoin hitems).append hclose).open_bracket (.inr rfl)
  | obj hnodup h ih => exact (writes_fields ih).open_bracket (.inl rfl)

/-! ## Pieces -/

/-- Two scanners, one in a string where the other is not, stay so where neither meets a backslash
outside. -/
theorem walk_opposite {p : Str} {m m' : Mode} {d d' : ℤ}
    (hm : m = .str ∧ m' = .out ∨ m = .out ∧ m' = .str)
    (h : Scan (fun p c => p.1 = .out → c ≠ '\\' ∧ c ≠ 'v') (m, d) p)
    (h' : Scan (fun p c => p.1 = .out → c ≠ '\\') (m', d') p) :
    ((walk (m, d) p).1 = .str ∧ (walk (m', d') p).1 = .out ∨
      (walk (m, d) p).1 = .out ∧ (walk (m', d') p).1 = .str) ∧
    Scan (fun p c => p.1 = .str → c = '"' ∨ (c ≠ '\\' ∧ c ≠ 'v')) (m', d') p := by
  have hout : ∀ (d : ℤ) (c : Char), c ≠ '"' → ∃ d₁, next (.out, d) c = (.out, d₁) := by
    intro d c hc
    rw [next, if_neg hc]
    split_ifs
    · exact ⟨_, rfl⟩
    · exact ⟨_, rfl⟩
    · exact ⟨_, rfl⟩
  induction p generalizing m m' d d' with
  | nil => exact ⟨hm, trivial⟩
  | cons c p ih =>
    rcases hm with ⟨rfl, rfl⟩ | ⟨rfl, rfl⟩
    · have hback := h'.1 rfl
      by_cases hc : c = '"'
      · subst hc
        obtain ⟨hwalk, hscan⟩ := ih (.inr ⟨rfl, rfl⟩) h.2 h'.2
        exact ⟨hwalk, fun h => (by cases h), hscan⟩
      · obtain ⟨d₁, hnext'⟩ := hout d' c hc
        have hnext : next (.str, d) c = (.str, d) := by rw [next, if_neg hc, if_neg hback]
        have h₂ := h.2
        have h₂' := h'.2
        rw [hnext] at h₂
        rw [hnext'] at h₂'
        obtain ⟨hwalk, hscan⟩ := ih (.inl ⟨rfl, rfl⟩) h₂ h₂'
        rw [walk_cons, walk_cons, hnext, hnext']
        refine ⟨hwalk, fun h => (by cases h), ?_⟩
        rw [hnext']
        exact hscan
    · have hchars := h.1 rfl
      by_cases hc : c = '"'
      · subst hc
        obtain ⟨hwalk, hscan⟩ := ih (.inl ⟨rfl, rfl⟩) h.2 h'.2
        exact ⟨hwalk, fun _ => .inl rfl, hscan⟩
      · obtain ⟨d₁, hnext⟩ := hout d c hc
        have hnext' : next (.str, d') c = (.str, d') := by rw [next, if_neg hc, if_neg hchars.1]
        have h₂ := h.2
        have h₂' := h'.2
        rw [hnext] at h₂
        rw [hnext'] at h₂'
        obtain ⟨hwalk, hscan⟩ := ih (.inr ⟨rfl, rfl⟩) h₂ h₂'
        rw [walk_cons, walk_cons, hnext, hnext']
        refine ⟨hwalk, fun _ => .inr hchars, ?_⟩
        rw [hnext']
        exact hscan

/-- **A proper piece of the text of an object** that is the text of an object: a shallower one, or,
inside a string and not up to the end, one without the letter `v` in its names. -/
theorem loads_piece {fields fields' : List (Str × Json)} (hv : Canonical ft (.obj fields))
    {a p z : Str} (h : dumps (.obj fields) = a ++ (p ++ z)) (hproper : a ≠ [] ∨ z ≠ [])
    (hp : loads ft p = some (.obj fields')) :
    (Json.obj fields').depth < (Json.obj fields).depth ∨
      z ≠ [] ∧ ∀ k ∈ fields'.map Prod.fst, 'v' ∉ k := by
  have hreads := loads_reads hp
  have hhead := head_of_loads_obj hp
  have hne : p ≠ [] := by
    rintro rfl
    cases hhead
  have hbody : Writes (-1) (commaJoin (dumpsFields fields) ++ ['}']) (Json.depthFields fields) := by
    cases hv with
    | obj _ hfields => exact writes_fields fun f hf => writes_dumps (hfields f hf)
  rw [dumps] at h
  cases a with
  | nil =>
    -- the piece is a prefix, and one bracket is still open
    exfalso
    obtain ⟨c, z, rfl⟩ := List.exists_cons_of_ne_nil (hproper.resolve_left (fun h => h rfl))
    obtain ⟨c', p, rfl⟩ := List.exists_cons_of_ne_nil hne
    obtain ⟨rfl, hrest⟩ := List.cons.inj h
    have hscan := hbody.scan 1
    have hwalk := hreads.walk 0
    rw [hrest] at hscan
    change Scan _ _ (p ++ c :: z) at hscan
    rw [scan_append] at hscan
    change walk (.out, 0 + 1) p = _ at hwalk
    rw [zero_add] at hwalk
    rw [hwalk] at hscan
    exact absurd hscan.2.1.1 (by decide)
  | cons b a =>
    obtain ⟨rfl, hrest⟩ := List.cons.inj h
    have hscan := hbody.scan 1
    have hend := hbody.walk 1
    rw [hrest] at hscan hend
    change Scan _ _ (a ++ (p ++ z)) at hscan
    change walk _ (a ++ (p ++ z)) = _ at hend
    rw [scan_append, scan_append] at hscan
    rw [walk_append, walk_append] at hend
    obtain ⟨-, hscanp, -⟩ := hscan
    generalize walk (.out, 1) a = q at hscanp hend
    obtain ⟨m, d⟩ := q
    cases m with
    | out =>
      left
      obtain ⟨c, p', hcons⟩ := List.exists_cons_of_ne_nil hne
      have hlo : 1 ≤ d := by
        rw [hcons] at hscanp
        exact hscanp.1.1
      have hdepth := hreads.depth d _ (hscanp.mono fun q c hc => hc.2.1)
      simp only [Json.depth] at hdepth ⊢
      push_cast at hdepth
      omega
    | esc =>
      -- the letter after a backslash starts no object
      exfalso
      obtain ⟨c, p', rfl⟩ := List.exists_cons_of_ne_nil hne
      obtain ⟨hws, hbrace⟩ := hscanp.1.2.2.2 rfl
      rw [skipWs_cons hws] at hhead
      exact hbrace (Option.some.inj hhead)
    | str =>
      right
      obtain ⟨hwalk, hscan⟩ := walk_opposite (.inl ⟨rfl, rfl⟩)
        (hscanp.mono fun q c hc => hc.2.2.1) (hreads.outside 0)
      have hout := hreads.walk 0
      constructor
      · rintro rfl
        rw [hout] at hwalk
        rcases hwalk with ⟨hstr, -⟩ | ⟨-, hstr⟩
        · change (walk (walk (.str, d) p) []).1 = _ at hstr
          rw [hend] at hstr
          cases hstr
        · cases hstr
      · intro k hk hmem
        exact (hreads.names (fun c => c ≠ '\\' ∧ c ≠ 'v') (fun h => h.1 rfl) 0 hscan k hk 'v'
          hmem).2 rfl

end PyJson
