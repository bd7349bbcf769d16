import JobSystem.Lib.Json

/-!
# `loads` undoes `dumps`

* `readUnits_escapeChar`, `joinUnits_codeUnits`, **`scanString_dumps`**: strings;
* `NumberShape`, `numberParts_append`, `exists_shape`: the numbers that are read;
* `scanSeq_commaJoin`: items between brackets;
* **`loads_dumps`**: canonical values are read back.
-/

namespace PyJson

open PyText

/-! ## Strings -/

theorem hexValue_digitChar {k : ℕ} (h : k < 16) : hexValue (Nat.digitChar k) = some k := by
  revert k
  decide

/-- The four digits of a code unit. -/
theorem readUnit_hexEscape {u : ℕ} (h : u < 65536) (s : Str) :
    readUnit (hexEscape u ++ s) = some (some u, s) := by
  have h₁ := hexValue_digitChar (k := u / 4096) (by omega)
  have h₂ := hexValue_digitChar (k := u / 256 % 16) (by omega)
  have h₃ := hexValue_digitChar (k := u / 16 % 16) (by omega)
  have h₄ := hexValue_digitChar (k := u % 16) (by omega)
  have hu : 16 * (16 * (16 * (16 * 0 + u / 4096) + u / 256 % 16) + u / 16 % 16) + u % 16 = u := by
    omega
  have hhex : readHex 4 (Nat.digitChar (u / 4096) :: Nat.digitChar (u / 256 % 16) ::
      Nat.digitChar (u / 16 % 16) :: Nat.digitChar (u % 16) :: s) 0 = some (u, s) := by
    simp only [readHex, h₁, h₂, h₃, h₄, Option.bind_some, hu]
  exact congrArg (Option.map fun p : ℕ × Str => (some p.1, p.2)) hhex

theorem unescape_of_mem {e : Char × Char} (h : e ∈ shortEscapes) : unescape e.1 = some e.2 := by
  revert e
  decide

theorem readUnit_shortEscape {e : Char × Char} (h : e ∈ shortEscapes) (s : Str) :
    readUnit ('\\' :: e.1 :: s) = some (some e.2.toNat, s) := by
  have hu : e.1 ≠ 'u' := by
    revert e
    decide
  change (if e.1 = 'u' then _ else (unescape e.1).map fun c => (some c.toNat, s)) = _
  rw [if_neg hu, unescape_of_mem h]
  rfl

theorem readUnit_of_ne {c : Char} (hquote : c ≠ '"') (hback : c ≠ '\\') (hc : 0x20 ≤ c.toNat)
    (s : Str) : readUnit (c :: s) = some (some c.toNat, s) := by
  unfold readUnit
  simp only [if_neg hquote, if_neg hback, if_neg (Nat.not_lt.mpr hc)]

/-- The code units of a character fit in four digits. -/
theorem lt_of_mem_codeUnits {c : Char} {u : ℕ} (h : u ∈ codeUnits c) : u < 65536 := by
  have hc : c.toNat < 0x110000 := by
    have := c.valid
    rcases this with hv | hv
    · exact lt_trans hv (by decide)
    · exact hv.2
  unfold codeUnits at h
  split_ifs at h with hb
  · rw [List.mem_singleton] at h
    omega
  · simp only [List.mem_cons, List.not_mem_nil, or_false] at h
    omega

theorem readUnits_hexEscapes (us : List ℕ) (hus : ∀ u ∈ us, u < 65536) (n : ℕ) (s : Str) :
    readUnits (n + us.length) (us.flatMap hexEscape ++ s) =
      (readUnits n s).map fun q => (us ++ q.1, q.2) := by
  induction us with
  | nil => cases h : readUnits n s <;> simp [h]
  | cons u us ih =>
    have hu := readUnit_hexEscape (hus u List.mem_cons_self) (us.flatMap hexEscape ++ s)
    have ih' := ih fun u' h => hus u' (List.mem_cons_of_mem _ h)
    rw [List.flatMap_cons, List.append_assoc, List.length_cons, ← Nat.add_assoc, readUnits, hu,
      Option.bind_some]
    simp only [ih', Option.map_map]
    rfl

/-- An escaped character is read as its code units. -/
theorem readUnits_escapeChar (c : Char) (n : ℕ) (s : Str) :
    readUnits (n + (codeUnits c).length) (escapeChar c ++ s) =
      (readUnits n s).map fun q => (codeUnits c ++ q.1, q.2) := by
  have hsingle : ∀ t : Str, c.toNat < 0x10000 → readUnit (t ++ s) = some (some c.toNat, s) →
      readUnits (n + (codeUnits c).length) (t ++ s) =
        (readUnits n s).map fun q => (codeUnits c ++ q.1, q.2) := by
    intro t hc ht
    have hunits : codeUnits c = [c.toNat] := if_pos hc
    rw [hunits]
    change readUnits (n + 1) _ = _
    rw [readUnits, ht]
    rfl
  unfold escapeChar
  split
  · rename_i e he
    have hmem := List.mem_of_find?_eq_some he
    have hc : e.2 = c := by
      have := List.find?_some he
      simpa using this
    have hlt : ∀ e ∈ shortEscapes, e.2.toNat < 0x10000 := by decide
    subst hc
    exact hsingle _ (hlt e hmem) (readUnit_shortEscape hmem s)
  · rename_i hnone
    split_ifs with hp
    · refine hsingle [c] (by omega) ?_
      rw [List.find?_eq_none] at hnone
      have hquote : c ≠ '"' := by
        rintro rfl
        exact hnone ('"', '"') (by decide) (by decide)
      have hback : c ≠ '\\' := by
        rintro rfl
        exact hnone ('\\', '\\') (by decide) (by decide)
      exact readUnit_of_ne hquote hback hp.1 s
    · exact readUnits_hexEscapes (codeUnits c) (fun u => lt_of_mem_codeUnits) n s

theorem readUnits_flatMap (t : Str) (n : ℕ) (rest : Str) :
    readUnits (n + (t.flatMap codeUnits).length + 1) (t.flatMap escapeChar ++ '"' :: rest) =
      some (t.flatMap codeUnits, rest) := by
  induction t with
  | nil => rfl
  | cons c t ih =>
    have hlen : n + ((c :: t).flatMap codeUnits).length + 1 =
        (n + (t.flatMap codeUnits).length + 1) + (codeUnits c).length := by
      rw [List.flatMap_cons, List.length_append]
      omega
    rw [hlen, List.flatMap_cons, List.append_assoc, readUnits_escapeChar, ih]
    rfl

theorem joinUnits_cons {u : ℕ} (h : ¬ (0xd800 ≤ u ∧ u < 0xe000)) (us : List ℕ) :
    joinUnits (u :: us) = (joinUnits us).map fun s => Char.ofNat u :: s := by
  cases us with
  | nil => simp [joinUnits, h]
  | cons u' us =>
    have hpair : ¬ (0xd800 ≤ u ∧ u < 0xdc00 ∧ 0xdc00 ≤ u' ∧ u' < 0xe000) := by
      rintro ⟨h₁, h₂, -⟩
      exact h ⟨h₁, by omega⟩
    rw [joinUnits, if_neg hpair, if_neg h]

/-- The code units of a text give back the text. -/
theorem joinUnits_codeUnits (t : Str) : joinUnits (t.flatMap codeUnits) = some t := by
  induction t with
  | nil => rfl
  | cons c t ih =>
    have hvalid := c.valid
    have hc : c.val.toNat = c.toNat := rfl
    simp only [UInt32.isValidChar, Nat.isValidChar, hc] at hvalid
    rw [List.flatMap_cons]
    by_cases hb : c.toNat < 0x10000
    · have hunits : codeUnits c = [c.toNat] := if_pos hb
      rw [hunits, List.singleton_append, joinUnits_cons (by omega), ih, Option.map_some,
        Char.ofNat_toNat]
    · have hunits : codeUnits c =
          [0xd800 + (c.toNat - 0x10000) / 0x400, 0xdc00 + (c.toNat - 0x10000) % 0x400] := if_neg hb
      have hback : 0x10000 + (0xd800 + (c.toNat - 0x10000) / 0x400 - 0xd800) * 0x400 +
          (0xdc00 + (c.toNat - 0x10000) % 0x400 - 0xdc00) = c.toNat := by omega
      rw [hunits, List.cons_append, List.singleton_append, joinUnits, if_pos (by omega), ih,
        Option.map_some, hback, Char.ofNat_toNat]

theorem length_codeUnits_le (t : Str) :
    (t.flatMap codeUnits).length ≤ (t.flatMap escapeChar).length := by
  induction t with
  | nil => exact le_refl _
  | cons c t ih =>
    have hc : (codeUnits c).length ≤ (escapeChar c).length := by
      have hunits : (codeUnits c).length ≤ ((codeUnits c).flatMap hexEscape).length := by
        rw [List.length_flatMap]
        unfold codeUnits
        split_ifs <;> simp [hexEscape]
      have hone : c.toNat ≤ 0x7e → (codeUnits c).length = 1 := by
        intro h
        have hunits : codeUnits c = [c.toNat] := if_pos (by omega)
        rw [hunits]
        rfl
      unfold escapeChar
      split
      · unfold codeUnits
        split_ifs <;> simp
      · split_ifs with hp
        · rw [hone hp.2]
          exact le_refl _
        · exact hunits
    rw [List.flatMap_cons, List.flatMap_cons, List.length_append, List.length_append]
    omega

/-- **A string is read back.** -/
theorem scanString_dumps (t rest : Str) :
    scanString (t.flatMap escapeChar ++ '"' :: rest) = some (t, rest) := by
  have hlen := length_codeUnits_le t
  obtain ⟨n, hn⟩ : ∃ n, (t.flatMap escapeChar ++ '"' :: rest).length =
      n + (t.flatMap codeUnits).length + 1 := by
    refine ⟨(t.flatMap escapeChar).length + rest.length - (t.flatMap codeUnits).length, ?_⟩
    rw [List.length_append, List.length_cons]
    omega
  rw [scanString, hn, readUnits_flatMap, Option.bind_some, joinUnits_codeUnits]
  rfl

/-! ## Numbers -/

/-- No digit at the front. -/
def NoDigit (s : Str) : Prop := ∀ c ∈ s.head?, c.isDigit = false

/-- What may follow a number. -/
def Follows (s : Str) : Prop := ∀ c ∈ s.head?, c.isDigit = false ∧ c ≠ '.' ∧ c ≠ 'e' ∧ c ≠ 'E'

theorem Follows.noDigit {s : Str} (h : Follows s) : NoDigit s := fun c hc => (h c hc).1

theorem follows_cons {c : Char} (h : c.isDigit = false ∧ c ≠ '.' ∧ c ≠ 'e' ∧ c ≠ 'E') (s : Str) :
    Follows (c :: s) := by
  rintro _ ⟨⟩
  exact h

/-- A nonempty run of digits. -/
def IsDigits (ds : Str) : Prop := ds ≠ [] ∧ ∀ c ∈ ds, c.isDigit = true

/-- `0|[1-9]\d*`. -/
def IntShape (s : Str) : Prop := IsDigits s ∧ (s = ['0'] ∨ s.head? ≠ some '0')

/-- `(\.\d+)?`. -/
def FracShape (s : Str) : Prop := s = [] ∨ ∃ ds, s = '.' :: ds ∧ IsDigits ds

/-- `([eE][-+]?\d+)?`. -/
def ExpShape (s : Str) : Prop :=
  s = [] ∨ ∃ c sign ds, s = c :: (sign ++ ds) ∧ (c = 'e' ∨ c = 'E') ∧
    (sign = [] ∨ sign = ['+'] ∨ sign = ['-']) ∧ IsDigits ds

/-- The parts of a number. -/
structure NumberShape (sign int frac : Str) : Prop where
  sign : sign = [] ∨ sign = ['-']
  int : IntShape int
  frac : ∃ f e, frac = f ++ e ∧ FracShape f ∧ ExpShape e

theorem takeWhile_digits {ds s : Str} (h : ∀ c ∈ ds, c.isDigit = true) (hs : NoDigit s) :
    (ds ++ s).takeWhile Char.isDigit = ds := by
  rw [List.takeWhile_append_of_pos h]
  cases s with
  | nil => exact List.append_nil ds
  | cons c s =>
    rw [List.takeWhile_cons_of_neg (by rw [hs c rfl]; exact Bool.false_ne_true), List.append_nil]

theorem dropWhile_digits {ds s : Str} (h : ∀ c ∈ ds, c.isDigit = true) (hs : NoDigit s) :
    (ds ++ s).dropWhile Char.isDigit = s := by
  rw [List.dropWhile_append_of_pos h]
  cases s with
  | nil => rfl
  | cons c s => rw [List.dropWhile_cons_of_neg (by rw [hs c rfl]; exact Bool.false_ne_true)]

theorem ne_of_isDigit {c d : Char} (h : c.isDigit = true) (hd : d.isDigit = false) : c ≠ d := by
  rintro rfl
  exact Bool.noConfusion (h.symm.trans hd)

section Completeness

variable {s rest : Str}

theorem signPart_of_ne (h : ∀ c ∈ s.head?, c ≠ '-') : signPart s = ([], s) := by
  cases s with
  | nil => rfl
  | cons c cs => rw [signPart, if_neg (h c rfl)]

theorem intPart_append (h : IntShape s) (hrest : NoDigit rest) :
    intPart (s ++ rest) = some (s, rest) := by
  obtain ⟨⟨hne, hdigits⟩, hzero⟩ := h
  cases s with
  | nil => exact absurd rfl hne
  | cons c cs =>
    rw [List.cons_append, intPart]
    rcases hzero with hzero | hzero
    · obtain ⟨rfl, rfl⟩ := List.cons.inj hzero
      rfl
    · have hc : c ≠ '0' := fun he => hzero (he ▸ rfl)
      have hcs : ∀ d ∈ cs, d.isDigit = true := fun d hd => hdigits d (List.mem_cons_of_mem _ hd)
      rw [if_neg hc, if_pos (hdigits c List.mem_cons_self), takeWhile_digits hcs hrest,
        dropWhile_digits hcs hrest]

theorem fracPart_append (h : FracShape s) (hrest : NoDigit rest)
    (hdot : s = [] → ∀ c ∈ rest.head?, c ≠ '.') : fracPart (s ++ rest) = (s, rest) := by
  rcases h with rfl | ⟨ds, rfl, hne, hdigits⟩
  · cases rest with
    | nil => rfl
    | cons c cs => rw [List.nil_append, fracPart, if_neg fun hc => hdot rfl c rfl hc.1]
  · rw [List.cons_append, fracPart, takeWhile_digits hdigits hrest, if_pos ⟨rfl, hne⟩,
      dropWhile_digits hdigits hrest]

theorem expSign_append {sign : Str} (h : sign = [] ∨ sign = ['+'] ∨ sign = ['-'])
    (hs : ∀ c ∈ s.head?, c.isDigit = true) : expSign (sign ++ s) = (sign, s) := by
  rcases h with rfl | rfl | rfl
  · cases s with
    | nil => rfl
    | cons c cs =>
      have hplus := ne_of_isDigit (d := '+') (hs c rfl) (by decide)
      have hminus := ne_of_isDigit (d := '-') (hs c rfl) (by decide)
      rw [List.nil_append, expSign, if_neg (not_or.mpr ⟨hplus, hminus⟩)]
  · rfl
  · rfl

theorem expPart_append (h : ExpShape s) (hrest : Follows rest) : expPart (s ++ rest) = (s, rest) := by
  rcases h with rfl | ⟨c, sign, ds, rfl, hc, hsign, hne, hdigits⟩
  · cases rest with
    | nil => rfl
    | cons c cs =>
      obtain ⟨-, -, he, hE⟩ := hrest c rfl
      rw [List.nil_append, expPart, if_neg]
      rintro ⟨rfl | rfl, -⟩
      · exact he rfl
      · exact hE rfl
  · have hhead : ∀ d ∈ (ds ++ rest).head?, d.isDigit = true := by
      intro d hd
      rw [List.head?_append_of_ne_nil _ hne] at hd
      exact hdigits d (List.mem_of_mem_head? hd)
    rw [List.cons_append, List.append_assoc, expPart, expSign_append hsign hhead]
    simp only [takeWhile_digits hdigits hrest.noDigit, dropWhile_digits hdigits hrest.noDigit]
    rw [if_pos ⟨hc, hne⟩]

/-- A number is read to its end. -/
theorem numberParts_append {sign int frac : Str} (h : NumberShape sign int frac)
    (hrest : Follows rest) :
    numberParts (sign ++ (int ++ (frac ++ rest))) = some ((sign, int, frac), rest) := by
  obtain ⟨hsign, hint, f, e, rfl, hf, he⟩ := h
  have hexp : NoDigit (e ++ rest) ∧ (f = [] → ∀ c ∈ (e ++ rest).head?, c ≠ '.') := by
    rcases he with rfl | ⟨c, sign, ds, rfl, hc, -⟩
    · exact ⟨hrest.noDigit, fun _ c hc => (hrest c hc).2.1⟩
    · rcases hc with rfl | rfl
      · refine ⟨?_, ?_⟩
        · rintro _ ⟨⟩
          rfl
        · rintro - _ ⟨⟩
          decide
      · refine ⟨?_, ?_⟩
        · rintro _ ⟨⟩
          rfl
        · rintro - _ ⟨⟩
          decide
  have hfrac : NoDigit (f ++ (e ++ rest)) := by
    rcases hf with rfl | ⟨ds, rfl, -⟩
    · exact hexp.1
    · rintro _ ⟨⟩
      rfl
  have hpart : signPart (sign ++ (int ++ (f ++ (e ++ rest)))) =
      (sign, int ++ (f ++ (e ++ rest))) := by
    rcases hsign with rfl | rfl
    · refine signPart_of_ne fun c hc => ?_
      rw [List.nil_append, List.head?_append_of_ne_nil _ hint.1.1] at hc
      exact ne_of_isDigit (hint.1.2 c (List.mem_of_mem_head? hc)) (by decide)
    · rfl
  rw [List.append_assoc, numberParts, hpart]
  simp only
  rw [intPart_append hint hfrac, Option.map_some]
  simp only [fracPart_append hf hexp.1 hexp.2, expPart_append he hrest]

end Completeness

section Soundness

variable {s rest : Str}

theorem signPart_spec (s : Str) :
    s = (signPart s).1 ++ (signPart s).2 ∧ ((signPart s).1 = [] ∨ (signPart s).1 = ['-']) := by
  cases s with
  | nil => exact ⟨rfl, .inl rfl⟩
  | cons c cs =>
    rw [signPart]
    split_ifs with h
    · exact ⟨rfl, .inr (by rw [h])⟩
    · exact ⟨rfl, .inl rfl⟩

theorem isDigits_takeWhile {ds : Str} (h : ds.takeWhile Char.isDigit ≠ []) :
    IsDigits (ds.takeWhile Char.isDigit) := ⟨h, fun _ hc => List.mem_takeWhile_imp hc⟩

theorem intPart_spec {int : Str} (h : intPart s = some (int, rest)) :
    s = int ++ rest ∧ IntShape int := by
  cases s with
  | nil => exact absurd h (Option.some_ne_none _).symm
  | cons c cs =>
    rw [intPart] at h
    split_ifs at h with hzero hdigit
    · cases h
      subst hzero
      exact ⟨rfl, ⟨List.cons_ne_nil _ _, fun d hd => by rw [List.mem_singleton.mp hd]; rfl⟩, .inl rfl⟩
    · cases h
      refine ⟨?_, ⟨List.cons_ne_nil _ _, ?_⟩, .inr fun he => hzero (Option.some.inj he)⟩
      · rw [List.cons_append, List.takeWhile_append_dropWhile]
      · intro d hd
        rcases List.mem_cons.mp hd with rfl | hd
        · exact hdigit
        · exact List.mem_takeWhile_imp hd

theorem fracPart_spec (s : Str) :
    s = (fracPart s).1 ++ (fracPart s).2 ∧ FracShape (fracPart s).1 := by
  cases s with
  | nil => exact ⟨rfl, .inl rfl⟩
  | cons c cs =>
    rw [fracPart]
    split_ifs with h
    · refine ⟨?_, .inr ⟨_, by rw [h.1], isDigits_takeWhile h.2⟩⟩
      rw [List.cons_append, List.takeWhile_append_dropWhile]
    · exact ⟨rfl, .inl rfl⟩

theorem expSign_spec (s : Str) : s = (expSign s).1 ++ (expSign s).2 ∧
    ((expSign s).1 = [] ∨ (expSign s).1 = ['+'] ∨ (expSign s).1 = ['-']) := by
  cases s with
  | nil => exact ⟨rfl, .inl rfl⟩
  | cons c cs =>
    rw [expSign]
    split_ifs with h
    · rcases h with rfl | rfl
      · exact ⟨rfl, .inr (.inl rfl)⟩
      · exact ⟨rfl, .inr (.inr rfl)⟩
    · exact ⟨rfl, .inl rfl⟩

theorem expPart_spec (s : Str) : s = (expPart s).1 ++ (expPart s).2 ∧ ExpShape (expPart s).1 := by
  cases s with
  | nil => exact ⟨rfl, .inl rfl⟩
  | cons c cs =>
    obtain ⟨hcs, hsign⟩ := expSign_spec cs
    rw [expPart]
    split_ifs with h
    · refine ⟨?_, .inr ⟨c, _, _, rfl, h.1, hsign, isDigits_takeWhile h.2⟩⟩
      rw [List.cons_append, List.append_assoc, List.takeWhile_append_dropWhile, ← hcs]
    · exact ⟨rfl, .inl rfl⟩

/-- The parts of a number that is read. -/
theorem exists_shape {sign int frac : Str} (h : numberParts s = some ((sign, int, frac), rest)) :
    NumberShape sign int frac ∧ s = sign ++ (int ++ (frac ++ rest)) := by
  rw [numberParts, Option.map_eq_some_iff] at h
  obtain ⟨⟨int', s'⟩, hint, h⟩ := h
  cases h
  obtain ⟨hs, hsign⟩ := signPart_spec s
  obtain ⟨hs', hshape⟩ := intPart_spec hint
  obtain ⟨hf, hfshape⟩ := fracPart_spec s'
  obtain ⟨he, heshape⟩ := expPart_spec (fracPart s').2
  refine ⟨⟨hsign, hshape, _, _, rfl, hfshape, heshape⟩, ?_⟩
  rw [List.append_assoc, ← he, ← hf, ← hs', ← hs]

/-- A character of a number. -/
def NumberChar (c : Char) : Prop := c.isDigit = true ∨ c ∈ ['-', '+', '.', 'e', 'E']

theorem NumberShape.chars {sign int frac : Str} (h : NumberShape sign int frac) :
    ∀ c ∈ sign ++ (int ++ frac), NumberChar c := by
  obtain ⟨hsign, hint, f, e, rfl, hf, he⟩ := h
  intro c hc
  simp only [List.mem_append] at hc
  rcases hc with hc | hc | hc | hc
  · rcases hsign with rfl | rfl
    · cases hc
    · exact .inr (List.mem_of_mem_take (i := 1) hc)
  · exact .inl (hint.1.2 c hc)
  · rcases hf with rfl | ⟨ds, rfl, hds⟩
    · cases hc
    · rcases List.mem_cons.mp hc with rfl | hc
      · exact .inr (by decide)
      · exact .inl (hds.2 c hc)
  · rcases he with rfl | ⟨e, sign, ds, rfl, he, hsign, hds⟩
    · cases hc
    · rcases List.mem_cons.mp hc with rfl | hc
      · exact .inr (by rcases he with rfl | rfl <;> decide)
      · rcases List.mem_append.mp hc with hc | hc
        · refine .inr ?_
          rcases hsign with rfl | rfl | rfl
          · cases hc
          · rw [List.mem_singleton.mp hc]
            decide
          · rw [List.mem_singleton.mp hc]
            decide
        · exact .inl (hds.2 c hc)

end Soundness

/-! ## Values without brackets -/

/-- No leading zero. -/
theorem intShape_natStr (n : ℕ) : IntShape (natStr n) := by
  refine ⟨⟨natStr_ne_nil n, fun c hc => isDigit_of_mem_natStr hc⟩, ?_⟩
  induction n using Nat.strong_induction_on with
  | _ n ih =>
    by_cases hn : n < 10
    · have hone : natStr n = [Nat.digitChar n] := Nat.toDigits_of_lt_base hn
      have hall : ∀ k < 10, [Nat.digitChar k] = ['0'] ∨ [Nat.digitChar k].head? ≠ some '0' := by
        decide
      rw [hone]
      exact hall n hn
    · have hsplit : natStr n = natStr (n / 10) ++ [Nat.digitChar (n % 10)] :=
        Nat.toDigits_of_base_le (by omega) (by omega)
      have hhead : (natStr n).head? = (natStr (n / 10)).head? := by
        rw [hsplit, List.head?_append_of_ne_nil _ (natStr_ne_nil _)]
      rw [hhead]
      rcases ih (n / 10) (by omega) with hzero | hhead'
      · -- the digits of a positive number are not a single zero
        have := parseDigits_natStr (n / 10)
        rw [hzero] at this
        have hz : n / 10 = 0 := (Option.some.inj this).symm
        omega
      · exact .inr hhead'

theorem numberShape_intStr (n : ℤ) :
    ∃ sign, intStr n = sign ++ natStr n.natAbs ∧ NumberShape sign (natStr n.natAbs) [] ∧
      n = if sign = [] then (n.natAbs : ℤ) else -(n.natAbs : ℤ) := by
  have hfrac : ∃ f e : Str, ([] : Str) = f ++ e ∧ FracShape f ∧ ExpShape e :=
    ⟨[], [], rfl, .inl rfl, .inl rfl⟩
  cases n with
  | ofNat n => exact ⟨[], rfl, ⟨.inl rfl, intShape_natStr n, hfrac⟩, rfl⟩
  | negSucc n => exact ⟨['-'], rfl, ⟨.inr rfl, intShape_natStr (n + 1), hfrac⟩, rfl⟩

/-- A number starts with a digit, perhaps after a minus sign. -/
theorem NumberShape.head {sign int frac : Str} (h : NumberShape sign int frac) (rest : Str) :
    ∃ c cs, c.isDigit = true ∧ (sign ++ (int ++ rest) = c :: cs ∨
      sign ++ (int ++ rest) = '-' :: c :: cs) := by
  obtain ⟨c, cs, rfl⟩ := List.exists_cons_of_ne_nil h.int.1.1
  refine ⟨c, cs ++ rest, h.int.1.2 c List.mem_cons_self, ?_⟩
  rcases h.sign with hs | hs
  · exact .inl (by rw [hs]; rfl)
  · exact .inr (by rw [hs]; rfl)

theorem find?_constants {s : Str} {c : Char} {cs : Str} (hc : c.isDigit = true)
    (h : s = c :: cs ∨ s = '-' :: c :: cs) : constants.find? (fun e => e.1.isPrefixOf s) = none := by
  have hne : ∀ d : Char, d.isDigit = false → (d == c) = false := by
    intro d hd
    rw [beq_eq_false_iff_ne]
    exact (ne_of_isDigit hc hd).symm
  have hn := hne 'n' (by decide)
  have ht := hne 't' (by decide)
  have hf := hne 'f' (by decide)
  have hN := hne 'N' (by decide)
  have hI := hne 'I' (by decide)
  have hm := hne '-' (by decide)
  rw [List.find?_eq_none]
  intro e he
  simp only [constants, floatConstants, List.map_cons, List.map_nil, List.cons_append,
    List.nil_append, List.mem_cons, List.not_mem_nil, or_false] at he
  rcases h with rfl | rfl
  · rcases he with rfl | rfl | rfl | rfl | rfl | rfl <;>
      simp [List.isPrefixOf, hn, ht, hf, hN, hI, hm]
  · rcases he with rfl | rfl | rfl | rfl | rfl | rfl <;> simp [List.isPrefixOf, hI]

variable {ft : FloatText}

variable (ft) in
/-- A number in front of what may follow it. -/
theorem scanAtom_number {sign int frac rest : Str} (h : NumberShape sign int frac)
    (hrest : Follows rest) : scanAtom ft (sign ++ (int ++ (frac ++ rest))) =
      some (if frac = [] then .int (if sign = [] then (Nat.ofDigitChars 10 int 0 : ℕ)
        else -(Nat.ofDigitChars 10 int 0 : ℕ)) else .float (ft.text (sign ++ (int ++ frac))), rest) := by
  obtain ⟨c, cs, hc, hhead⟩ := h.head (frac ++ rest)
  rw [scanAtom, find?_constants hc hhead]
  simp only [scanNumber, numberParts_append h hrest, Option.map_some]

variable (ft) in
theorem scanAtom_intStr (n : ℤ) {rest : Str} (hrest : Follows rest) :
    scanAtom ft (intStr n ++ rest) = some (.int n, rest) := by
  obtain ⟨sign, hn, hshape, hval⟩ := numberShape_intStr n
  have hdigits : Nat.ofDigitChars 10 (natStr n.natAbs) 0 = n.natAbs :=
    Nat.ofDigitChars_ten_toDigits
  have := scanAtom_number ft hshape hrest
  rw [List.nil_append, ← List.append_assoc, ← hn, if_pos rfl, hdigits, ← hval] at this
  exact this

theorem scanAtom_float {lit rest : Str} (h : IsFloatText ft lit) (hrest : Follows rest) :
    scanAtom ft (lit ++ rest) = some (.float lit, rest) := by
  rcases h with h | ⟨⟨sign, int, frac, hparts, hfrac⟩, htext⟩
  · simp only [floatConstants, List.mem_cons, List.not_mem_nil, or_false] at h
    rcases h with rfl | rfl | rfl <;> rfl
  · obtain ⟨hshape, hlit⟩ := exists_shape hparts
    rw [List.append_nil] at hlit
    have := scanAtom_number ft hshape hrest
    rw [if_neg hfrac, ← hlit, htext] at this
    rw [hlit, List.append_assoc, List.append_assoc]
    rw [hlit] at this
    exact this

/-! ## Containers -/

theorem skipWs_cons {c : Char} (h : isWs c = false) (s : Str) : skipWs (c :: s) = c :: s :=
  List.dropWhile_cons_of_neg (by rw [h]; exact Bool.false_ne_true)

theorem skipWs_space {c : Char} (h : isWs c = true) (s : Str) : skipWs (c :: s) = skipWs s :=
  List.dropWhile_cons_of_pos h

theorem commaJoin_cons_cons (t t' : Str) (ts : List Str) :
    commaJoin (t :: t' :: ts) = t ++ (',' :: ' ' :: commaJoin (t' :: ts)) := rfl

/-- Every text is in the joined text. -/
theorem length_le_commaJoin {t : Str} {ts : List Str} (h : t ∈ ts) :
    t.length ≤ (commaJoin ts).length := by
  induction ts with
  | nil => cases h
  | cons t₁ ts ih =>
    cases ts with
    | nil => rw [List.mem_singleton.mp h]; exact le_refl _
    | cons t₂ ts =>
      rw [commaJoin_cons_cons, List.length_append, List.length_cons, List.length_cons]
      rcases List.mem_cons.mp h with rfl | h
      · omega
      · have := ih h
        omega

theorem length_le_length_commaJoin {ts : List Str} (h : ∀ t ∈ ts, t ≠ []) :
    ts.length ≤ (commaJoin ts).length := by
  induction ts with
  | nil => exact le_refl _
  | cons t₁ ts ih =>
    have h₁ := List.length_pos_of_ne_nil (h t₁ List.mem_cons_self)
    have ih' := ih fun t ht => h t (List.mem_cons_of_mem _ ht)
    cases ts with
    | nil => exact h₁
    | cons t₂ ts =>
      rw [commaJoin_cons_cons]
      simp only [List.length_append, List.length_cons] at ih' ⊢
      omega

section Seq

variable {α : Type} {close : Char} {item : Str → Option (α × Str)} {text : α → Str}

/-- The text starts with a character that is neither white space nor a bracket that closes. -/
def Starts (s : Str) : Prop := ∃ c cs, s = c :: cs ∧ isWs c = false ∧ c ≠ '}' ∧ c ≠ ']'

theorem Starts.append {s : Str} (h : Starts s) (t : Str) : Starts (s ++ t) := by
  obtain ⟨c, cs, rfl, hc⟩ := h
  exact ⟨c, cs ++ t, rfl, hc⟩

theorem Starts.skipWs {s : Str} (h : Starts s) : skipWs s = s := by
  obtain ⟨c, cs, rfl, hc, -⟩ := h
  exact skipWs_cons hc cs

theorem starts_commaJoin {t : Str} (h : Starts t) (ts : List Str) : Starts (commaJoin (t :: ts)) := by
  cases ts with
  | nil => exact h
  | cons t' ts => exact h.append _

/-- Items that can be read one by one can be read between brackets. -/
theorem scanSeq_commaJoin (hclose : close = '}' ∨ close = ']') {x : α} {xs : List α}
    (hitem : ∀ y ∈ x :: xs, ∀ rest, Follows rest → item (text y ++ rest) = some (y, rest))
    (hstarts : ∀ y ∈ x :: xs, Starts (text y)) {n : ℕ} (hn : xs.length < n) (rest : Str) :
    scanSeq close item n (commaJoin ((x :: xs).map text) ++ close :: rest) =
      some (x :: xs, rest) := by
  induction xs generalizing x n with
  | nil =>
    obtain ⟨n, rfl⟩ := Nat.exists_eq_succ_of_ne_zero (Nat.ne_of_gt hn)
    have hfollows : Follows (close :: rest) := by
      rcases hclose with rfl | rfl <;> exact follows_cons (by decide) rest
    have hws : isWs close = false := by rcases hclose with rfl | rfl <;> rfl
    rw [List.map_singleton, commaJoin, scanSeq, hitem x List.mem_cons_self _ hfollows,
      Option.bind_some]
    simp only [skipWs_cons hws, if_true]
  | cons x' xs ih =>
    obtain ⟨n, rfl⟩ := Nat.exists_eq_succ_of_ne_zero (Nat.ne_of_gt (Nat.zero_lt_of_lt hn))
    have hcomma : ',' ≠ close := by rcases hclose with rfl | rfl <;> decide
    have hstart : Starts (commaJoin ((x' :: xs).map text) ++ close :: rest) := by
      rw [List.map_cons]
      exact (starts_commaJoin (hstarts x' (List.mem_cons_of_mem _ List.mem_cons_self)) _).append _
    have ih' := ih (fun y hy => hitem y (List.mem_cons_of_mem _ hy))
      (fun y hy => hstarts y (List.mem_cons_of_mem _ hy)) (n := n)
      (by rw [List.length_cons] at hn; omega)
    have hfollows : Follows (',' :: ' ' :: (commaJoin ((x' :: xs).map text) ++ close :: rest)) :=
      follows_cons (by decide) _
    rw [List.map_cons, List.map_cons, commaJoin_cons_cons, List.append_assoc, ← List.map_cons,
      List.cons_append, List.cons_append, scanSeq, hitem x List.mem_cons_self _ hfollows,
      Option.bind_some]
    simp only
    rw [skipWs_cons (by decide)]
    simp only [if_neg hcomma, if_true]
    rw [skipWs_space (by decide), hstart.skipWs, ih']
    rfl

end Seq

/-! ## Values -/

theorem dumpsItems_eq (xs : List Json) : dumpsItems xs = xs.map dumps := by
  induction xs with
  | nil => rfl
  | cons x xs ih => rw [dumpsItems, ih, List.map_cons]

/-- The text of a field. -/
def dumpsField (f : Str × Json) : Str := dumpsStr f.1 ++ (':' :: ' ' :: dumps f.2)

theorem dumpsFields_eq (fields : List (Str × Json)) :
    dumpsFields fields = fields.map dumpsField := by
  induction fields with
  | nil => rfl
  | cons f fields ih =>
    rw [dumpsFields, ih, List.map_cons]
    rfl

theorem depthItems_le_iff {xs : List Json} {n : ℕ} :
    Json.depthItems xs ≤ n ↔ ∀ x ∈ xs, x.depth ≤ n := by
  induction xs with
  | nil => simp [Json.depthItems]
  | cons x xs ih => rw [Json.depthItems, max_le_iff, ih, List.forall_mem_cons]

theorem depthFields_le_iff {fields : List (Str × Json)} {n : ℕ} :
    Json.depthFields fields ≤ n ↔ ∀ f ∈ fields, f.2.depth ≤ n := by
  induction fields with
  | nil => simp [Json.depthFields]
  | cons f fields ih => rw [Json.depthFields, max_le_iff, ih, List.forall_mem_cons]

/-- Text that is no string and no container. -/
theorem starts_number {sign int frac : Str} (h : NumberShape sign int frac) (rest : Str) :
    ∃ c cs, sign ++ (int ++ rest) = c :: cs ∧ (c.isDigit = true ∨ c = '-') := by
  obtain ⟨c, cs, hc, hs | hs⟩ := h.head rest
  · exact ⟨c, cs, hs, .inl hc⟩
  · exact ⟨'-', c :: cs, hs, .inr rfl⟩

/-- The first character of a value without brackets and quotes. -/
def AtomHead (c : Char) : Prop :=
  isWs c = false ∧ c ≠ '}' ∧ c ≠ ']' ∧ c ≠ '"' ∧ c ≠ '{' ∧ c ≠ '['

theorem atomHead_of_digit {c : Char} (h : c.isDigit = true ∨ c = '-') : AtomHead c := by
  have hne : ∀ d : Char, d.isDigit = false → d ≠ '-' → c ≠ d := by
    rintro d hd hminus rfl
    rcases h with h | h
    · exact Bool.noConfusion (h.symm.trans hd)
    · exact hminus h
  have hws : isWs c = false := by
    simp only [isWs, decide_eq_false_iff_not, not_or]
    exact ⟨hne _ (by decide) (by decide), hne _ (by decide) (by decide),
      hne _ (by decide) (by decide), hne _ (by decide) (by decide)⟩
  exact ⟨hws, hne _ (by decide) (by decide), hne _ (by decide) (by decide),
    hne _ (by decide) (by decide), hne _ (by decide) (by decide), hne _ (by decide) (by decide)⟩

theorem exists_atomHead_intStr (n : ℤ) : ∃ c cs, intStr n = c :: cs ∧ AtomHead c := by
  obtain ⟨sign, hn, hshape, -⟩ := numberShape_intStr n
  obtain ⟨c, cs, hs, hc⟩ := starts_number hshape []
  rw [List.append_nil, ← hn] at hs
  exact ⟨c, cs, hs, atomHead_of_digit hc⟩

variable {ft : FloatText}

theorem exists_atomHead_float {lit : Str} (h : IsFloatText ft lit) :
    ∃ c cs, lit = c :: cs ∧ AtomHead c := by
  rcases h with h | ⟨⟨sign, int, frac, hparts, -⟩, -⟩
  · simp only [floatConstants, List.mem_cons, List.not_mem_nil, or_false] at h
    rcases h with rfl | rfl | rfl <;> exact ⟨_, _, rfl, by unfold AtomHead; decide⟩
  · obtain ⟨hshape, hlit⟩ := exists_shape hparts
    obtain ⟨c, cs, hs, hc⟩ := starts_number hshape (frac ++ [])
    exact ⟨c, cs, hlit.trans hs, atomHead_of_digit hc⟩

/-- The text of a value starts the value. -/
theorem starts_dumps {v : Json} (h : Canonical ft v) : Starts (dumps v) := by
  have hatom : ∀ {s : Str}, (∃ c cs, s = c :: cs ∧ AtomHead c) → Starts s := by
    rintro s ⟨c, cs, rfl, hc⟩
    exact ⟨c, cs, rfl, hc.1, hc.2.1, hc.2.2.1⟩
  cases h with
  | null => exact ⟨_, _, rfl, by decide⟩
  | bool b => cases b <;> exact ⟨_, _, rfl, by decide⟩
  | int n => exact hatom (exists_atomHead_intStr n)
  | float h => exact hatom (exists_atomHead_float h)
  | str s => exact ⟨_, _, rfl, by decide⟩
  | arr h => exact ⟨_, _, rfl, by decide⟩
  | obj hnodup h => exact ⟨_, _, rfl, by decide⟩

theorem dumps_ne_nil {v : Json} (h : Canonical ft v) : dumps v ≠ [] := by
  obtain ⟨c, cs, hs, -⟩ := starts_dumps h
  rw [hs]
  exact List.cons_ne_nil c cs

/-- The text of a value is longer than its brackets are deep. -/
theorem depth_lt_length {v : Json} (h : Canonical ft v) : v.depth < (dumps v).length := by
  induction h with
  | null => decide
  | bool b => cases b <;> decide
  | int n => exact List.length_pos_of_ne_nil (dumps_ne_nil (Canonical.int n : Canonical ft _))
  | float h => exact List.length_pos_of_ne_nil (dumps_ne_nil (.float h))
  | str s => exact List.length_pos_of_ne_nil (dumps_ne_nil (Canonical.str s : Canonical ft _))
  | @arr xs h ih =>
    have hle : Json.depthItems xs ≤ (commaJoin (dumpsItems xs)).length := by
      rw [depthItems_le_iff]
      intro x hx
      rw [dumpsItems_eq]
      exact (ih x hx).le.trans (length_le_commaJoin (List.mem_map_of_mem hx))
    simp only [Json.depth, dumps, List.length_cons, List.length_append, List.length_nil]
    omega
  | @obj fields hnodup h ih =>
    have hle : Json.depthFields fields ≤ (commaJoin (dumpsFields fields)).length := by
      rw [depthFields_le_iff]
      intro f hf
      rw [dumpsFields_eq]
      have hfield : (dumps f.2).length ≤ (dumpsField f).length := by
        rw [dumpsField, List.length_append, List.length_cons, List.length_cons]
        omega
      exact (ih f hf).le.trans (hfield.trans (length_le_commaJoin (List.mem_map_of_mem hf)))
    simp only [Json.depth, dumps, List.length_cons, List.length_append, List.length_nil]
    omega

theorem scanOnce_atom {n : ℕ} {c : Char} (h : AtomHead c) (cs : Str) :
    scanOnce ft (n + 1) (c :: cs) = scanAtom ft (c :: cs) := by
  obtain ⟨-, -, -, hquote, hbrace, hbracket⟩ := h
  rw [scanOnce, if_neg hquote, if_neg hbrace, if_neg hbracket]

/-- The pairs of a dictionary, each name once. -/
theorem entries_ofPairs {pairs : List (Str × Json)} (h : (pairs.map Prod.fst).Nodup) :
    (ofPairs pairs).entries = pairs := by
  have hfold : ∀ (pairs : List (Str × Json)) (d : PyDict Str Json),
      (d.keys ++ pairs.map Prod.fst).Nodup →
      (pairs.foldl (fun d p => d.set p.1 p.2) d).entries = d.entries ++ pairs := by
    intro pairs
    induction pairs with
    | nil => exact fun d _ => (List.append_nil _).symm
    | cons p pairs ih =>
      intro d hd
      have hnot : p.1 ∉ d := by
        intro hmem
        rw [List.map_cons, List.nodup_append] at hd
        exact hd.2.2 _ hmem _ List.mem_cons_self rfl
      rw [List.foldl_cons, ih, PyDict.entries_set_of_notMem hnot, List.append_assoc]
      · rfl
      · rw [PyDict.keys_set_of_notMem hnot, List.append_assoc]
        exact hd
  exact hfold pairs ∅ h

/-- A value in front of what may follow it. -/
theorem scanOnce_dumps {v : Json} (h : Canonical ft v) {n : ℕ} (hn : v.depth < n) {rest : Str}
    (hrest : Follows rest) : scanOnce ft n (dumps v ++ rest) = some (v, rest) := by
  induction h generalizing n rest with
  | null =>
    obtain ⟨n, rfl⟩ := Nat.exists_eq_succ_of_ne_zero (Nat.ne_of_gt hn)
    rfl
  | bool b =>
    obtain ⟨n, rfl⟩ := Nat.exists_eq_succ_of_ne_zero (Nat.ne_of_gt hn)
    cases b <;> rfl
  | int i =>
    obtain ⟨n, rfl⟩ := Nat.exists_eq_succ_of_ne_zero (Nat.ne_of_gt hn)
    obtain ⟨c, cs, hs, hc⟩ := exists_atomHead_intStr i
    have hscan := scanAtom_intStr ft i hrest
    rw [hs] at hscan
    rw [dumps, hs]
    exact (scanOnce_atom hc _).trans hscan
  | @float lit h =>
    obtain ⟨n, rfl⟩ := Nat.exists_eq_succ_of_ne_zero (Nat.ne_of_gt hn)
    have hscan := scanAtom_float h hrest
    obtain ⟨c, cs, hs, hc⟩ := exists_atomHead_float h
    rw [dumps]
    nth_rewrite 1 [hs]
    nth_rewrite 1 [hs] at hscan
    exact (scanOnce_atom hc _).trans hscan
  | str s =>
    obtain ⟨n, rfl⟩ := Nat.exists_eq_succ_of_ne_zero (Nat.ne_of_gt hn)
    rw [dumps, dumpsStr, List.cons_append, List.append_assoc, List.singleton_append, scanOnce,
      if_pos rfl, scanString_dumps]
    rfl
  | @arr xs h ih =>
    obtain ⟨n, rfl⟩ := Nat.exists_eq_succ_of_ne_zero (Nat.ne_of_gt (Nat.zero_lt_of_lt hn))
    have hdepth : ∀ x ∈ xs, x.depth < n := by
      have : Json.depthItems xs < n := by rw [Json.depth] at hn; omega
      exact fun x hx => lt_of_le_of_lt (depthItems_le_iff.mp (le_refl _) x hx) this
    rw [dumps, dumpsItems_eq, List.cons_append, List.append_assoc, List.singleton_append, scanOnce,
      if_neg (by decide), if_neg (by decide), if_pos rfl]
    cases xs with
    | nil => rfl
    | cons x xs =>
      have hstarts : ∀ y ∈ x :: xs, Starts (dumps y) := fun y hy => starts_dumps (h y hy)
      have hjoin : Starts (commaJoin ((x :: xs).map dumps) ++ ']' :: rest) := by
        rw [List.map_cons]
        exact (starts_commaJoin (hstarts x List.mem_cons_self) _).append _
      have hlen : xs.length < (commaJoin ((x :: xs).map dumps) ++ ']' :: rest).length := by
        have hne : ∀ t ∈ (x :: xs).map dumps, t ≠ [] := by
          intro t ht
          obtain ⟨y, hy, rfl⟩ := List.mem_map.mp ht
          exact dumps_ne_nil (h y hy)
        have := length_le_length_commaJoin hne
        rw [List.length_map, List.length_cons] at this
        rw [List.length_append]
        omega
      have hhead : (commaJoin ((x :: xs).map dumps) ++ ']' :: rest).head? ≠ some ']' := by
        obtain ⟨c, cs, hs, -, -, hc⟩ := hjoin
        rw [hs]
        exact fun he => hc (Option.some.inj he)
      rw [hjoin.skipWs, if_neg hhead,
        scanSeq_commaJoin (.inr rfl) (fun y hy rest hrest => ih y hy (hdepth y hy) hrest) hstarts
          hlen]
      rfl
  | @obj fields hnodup h ih =>
    obtain ⟨n, rfl⟩ := Nat.exists_eq_succ_of_ne_zero (Nat.ne_of_gt (Nat.zero_lt_of_lt hn))
    have hdepth : ∀ f ∈ fields, f.2.depth < n := by
      have : Json.depthFields fields < n := by rw [Json.depth] at hn; omega
      exact fun f hf => lt_of_le_of_lt (depthFields_le_iff.mp (le_refl _) f hf) this
    rw [dumps, dumpsFields_eq, List.cons_append, List.append_assoc, List.singleton_append, scanOnce,
      if_neg (by decide), if_pos rfl]
    cases hfields : fields with
    | nil => rfl
    | cons f fs =>
      rw [hfields] at h ih hdepth hnodup
      have hstarts : ∀ g ∈ f :: fs, Starts (dumpsField g) := fun g _ =>
        ⟨'"', _, rfl, by decide⟩
      have hjoin : Starts (commaJoin ((f :: fs).map dumpsField) ++ '}' :: rest) := by
        rw [List.map_cons]
        exact (starts_commaJoin (hstarts f List.mem_cons_self) _).append _
      have hlen : fs.length < (commaJoin ((f :: fs).map dumpsField) ++ '}' :: rest).length := by
        have hne : ∀ t ∈ (f :: fs).map dumpsField, t ≠ [] := by
          intro t ht
          obtain ⟨g, -, rfl⟩ := List.mem_map.mp ht
          exact List.cons_ne_nil _ _
        have := length_le_length_commaJoin hne
        rw [List.length_map, List.length_cons] at this
        rw [List.length_append]
        omega
      have hhead : (commaJoin ((f :: fs).map dumpsField) ++ '}' :: rest).head? ≠ some '}' := by
        obtain ⟨c, cs, hs, -, hc, -⟩ := hjoin
        rw [hs]
        exact fun he => hc (Option.some.inj he)
      have hitem : ∀ g ∈ f :: fs, ∀ rest, Follows rest →
          scanField (scanOnce ft n) (dumpsField g ++ rest) = some (g, rest) := by
        intro g hg rest hrest
        have hvalue := ih g hg (hdepth g hg) hrest
        have hstart := (starts_dumps (h g hg)).append rest
        rw [dumpsField, dumpsStr, List.cons_append, List.cons_append, List.append_assoc,
          List.append_assoc, List.singleton_append, List.cons_append, List.cons_append, scanField,
          if_pos rfl, scanString_dumps, Option.bind_some]
        simp only
        rw [skipWs_cons (by decide)]
        simp only [if_true]
        rw [skipWs_space (by decide), hstart.skipWs, hvalue]
        rfl
      rw [hjoin.skipWs, if_neg hhead, scanSeq_commaJoin (.inl rfl) hitem hstarts hlen,
        Option.map_some, entries_ofPairs hnodup]

/-- **`loads` undoes `dumps`.** -/
theorem loads_dumps {v : Json} (h : Canonical ft v) : loads ft (dumps v) = some v := by
  have hscan : scanOnce ft (dumps v).length (dumps v ++ []) = some (v, []) :=
    scanOnce_dumps h (depth_lt_length h) fun _ hc => by cases hc
  rw [List.append_nil] at hscan
  rw [loads, (starts_dumps h).skipWs, hscan]
  rfl

/-! ## ASCII -/

/-- A printable ASCII character. -/
def Printable (c : Char) : Prop := 0x20 ≤ c.toNat ∧ c.toNat ≤ 0x7e

instance (c : Char) : Decidable (Printable c) := inferInstanceAs (Decidable (_ ∧ _))

theorem printable_of_numberChar {c : Char} (h : NumberChar c) : Printable c := by
  rcases h with h | h
  · have := toNat_of_isDigit h
    exact ⟨by omega, by omega⟩
  · simp only [List.mem_cons, List.not_mem_nil, or_false] at h
    rcases h with rfl | rfl | rfl | rfl | rfl <;> decide

theorem printable_escapeChar (c : Char) : ∀ c' ∈ escapeChar c, Printable c' := by
  have hdigit : ∀ k < 16, Printable (Nat.digitChar k) := by decide
  unfold escapeChar
  split
  · rename_i e he
    have hletters : ∀ e ∈ shortEscapes, Printable e.1 := by decide
    intro c' hc'
    simp only [List.mem_cons, List.not_mem_nil, or_false] at hc'
    rcases hc' with rfl | rfl
    · decide
    · exact hletters e (List.mem_of_find?_eq_some he)
  · split_ifs with hp
    · intro c' hc'
      rw [List.mem_singleton.mp hc']
      exact hp
    · intro c' hc'
      obtain ⟨u, hu, hc'⟩ := List.mem_flatMap.mp hc'
      have hlt := lt_of_mem_codeUnits hu
      simp only [hexEscape, List.mem_cons, List.not_mem_nil, or_false] at hc'
      rcases hc' with rfl | rfl | rfl | rfl | rfl | rfl
      · decide
      · decide
      all_goals exact hdigit _ (by omega)

theorem printable_dumpsStr (s : Str) : ∀ c ∈ dumpsStr s, Printable c := by
  intro c hc
  rw [dumpsStr, List.mem_cons, List.mem_append, List.mem_singleton] at hc
  rcases hc with rfl | hc | rfl
  · decide
  · obtain ⟨c', -, hc⟩ := List.mem_flatMap.mp hc
    exact printable_escapeChar c' c hc
  · decide

theorem printable_commaJoin {ts : List Str} (h : ∀ t ∈ ts, ∀ c ∈ t, Printable c) :
    ∀ c ∈ commaJoin ts, Printable c := by
  induction ts with
  | nil => exact fun c hc => by cases hc
  | cons t ts ih =>
    cases ts with
    | nil => exact h t List.mem_cons_self
    | cons t' ts =>
      intro c hc
      rw [commaJoin_cons_cons, List.mem_append, List.mem_cons, List.mem_cons] at hc
      rcases hc with hc | rfl | rfl | hc
      · exact h t List.mem_cons_self c hc
      · decide
      · decide
      · exact ih (fun t ht => h t (List.mem_cons_of_mem _ ht)) c hc

/-- **`dumps` writes printable ASCII.** -/
theorem printable_dumps {v : Json} (h : Canonical ft v) : ∀ c ∈ dumps v, Printable c := by
  induction h with
  | null => simp [dumps, Printable]
  | bool b => cases b <;> simp [dumps, Printable]
  | int n =>
    obtain ⟨sign, hn, hshape, -⟩ := numberShape_intStr n
    rw [dumps, hn]
    intro c hc
    refine printable_of_numberChar (hshape.chars c ?_)
    rwa [List.append_nil]
  | float h =>
    rcases h with h | ⟨⟨sign, int, frac, hparts, -⟩, -⟩
    · simp only [floatConstants, List.mem_cons, List.not_mem_nil, or_false] at h
      rcases h with rfl | rfl | rfl <;> simp [dumps, Printable]
    · obtain ⟨hshape, hlit⟩ := exists_shape hparts
      rw [List.append_nil] at hlit
      rw [dumps, hlit]
      exact fun c hc => printable_of_numberChar (hshape.chars c hc)
  | str s => exact printable_dumpsStr s
  | @arr xs h ih =>
    intro c hc
    rw [dumps, List.mem_cons, List.mem_append, List.mem_singleton] at hc
    rcases hc with rfl | hc | rfl
    · decide
    · refine printable_commaJoin (fun t ht => ?_) c hc
      rw [dumpsItems_eq] at ht
      obtain ⟨x, hx, rfl⟩ := List.mem_map.mp ht
      exact ih x hx
    · decide
  | @obj fields hnodup h ih =>
    intro c hc
    rw [dumps, List.mem_cons, List.mem_append, List.mem_singleton] at hc
    rcases hc with rfl | hc | rfl
    · decide
    · refine printable_commaJoin (fun t ht => ?_) c hc
      rw [dumpsFields_eq] at ht
      obtain ⟨f, hf, rfl⟩ := List.mem_map.mp ht
      intro c hc
      rw [dumpsField, List.mem_append, List.mem_cons, List.mem_cons] at hc
      rcases hc with hc | rfl | rfl | hc
      · exact printable_dumpsStr f.1 c hc
      · decide
      · decide
      · exact ih f hf c hc
    · decide

end PyJson
