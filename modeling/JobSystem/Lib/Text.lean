import Mathlib

/-!
# Python text

A `str` is the list of its code points. This file has the `str`, `int` and UTF-8 operations that
text protocols use, with the Unicode 14 tables of CPython 3.11.

* `splitOnce`: `s.split(sep, 1)` when the separator occurs; `splitMax`: `s.split(sep, n)`.
  `splitOnce_append` finds the first separator, `splitOnce_eq_some` inverts it.
* `parseInt` is `int(s)`, `natStr` and `intStr` are `str(n)`; **`parseInt_natStr`**: the first reads
  back the second. The digit cap of `int` (an interpreter setting) is off.
* `sliceTo`, `sliceFrom`: `s[:i]` and `s[i:]`, where a negative `i` counts from the end.
* `upper`, `lower`, `splitWords`, `strip`, `stripChar`.
* `encodeUtf8`, `decodeIgnore`: `s.encode('utf-8')` and `b.decode('utf-8', errors='ignore')`;
  **`decodeIgnore_encodeUtf8`**; `decodeStrict`; `notMem_encodeUtf8`.
* `IsAscii`: `length_encodeUtf8_eq_iff`, **`exists_pieces`**.
-/

namespace PyText

/-- A Python `str`. -/
abbrev Str := List Char

/-- A Python `bytes`. -/
abbrev Bytes := List UInt8

/-- Python's truth value of an object. -/
class Truthy (α : Type) where
  truthy : α → Bool

/-- A `str` is true unless it is empty. -/
instance : Truthy Str := ⟨fun s => !s.isEmpty⟩

/-! ## Splitting at a separator -/

section Split

variable {α : Type} [DecidableEq α]

/-- The text before and after the first occurrence of a nonempty separator. -/
def splitOnce (sep : List α) : List α → Option (List α × List α)
  | [] => none
  | c :: cs =>
    if sep.isPrefixOf (c :: cs) then some ([], (c :: cs).drop sep.length)
    else (splitOnce sep cs).map fun p => (c :: p.1, p.2)

theorem splitOnce_append {s : α} {sep line : List α} (h : s ∉ line) (rest : List α) :
    splitOnce (s :: sep) (line ++ (s :: sep ++ rest)) = some (line, rest) := by
  induction line with
  | nil => simp [splitOnce]
  | cons c line ih =>
    have hc : s ≠ c := fun e => h (by simp [e])
    have hl : s ∉ line := fun hm => h (List.mem_cons_of_mem _ hm)
    rw [List.cons_append, splitOnce, if_neg (by simp [hc]), ih hl]
    rfl

theorem splitOnce_eq_some {sep l a b : List α} (h : splitOnce sep l = some (a, b)) :
    l = a ++ (sep ++ b) := by
  induction l generalizing a with
  | nil => simp [splitOnce] at h
  | cons c cs ih =>
    simp only [splitOnce] at h
    split_ifs at h with hp
    · obtain ⟨t, ht⟩ := List.isPrefixOf_iff_prefix.mp hp
      simp only [Option.some.injEq, Prod.mk.injEq] at h
      obtain ⟨rfl, rfl⟩ := h
      rw [← ht, List.drop_left, List.nil_append]
    · simp only [Option.map_eq_some_iff, Prod.mk.injEq, Prod.exists] at h
      obtain ⟨a', b', h', rfl, rfl⟩ := h
      rw [List.cons_append, ← ih h']

theorem splitOnce_eq_none_of_length_lt {sep l : List α} (h : l.length < sep.length) :
    splitOnce sep l = none := by
  cases hs : splitOnce sep l with
  | none => rfl
  | some p =>
    have := congrArg List.length (splitOnce_eq_some (a := p.1) (b := p.2) hs)
    simp only [List.length_append] at this
    omega

/-- A separator that has only begun to arrive is not found. -/
theorem splitOnce_append_eq_none {s : α} {sep line q : List α} (h : s ∉ line)
    (hq : q.length < (s :: sep).length) : splitOnce (s :: sep) (line ++ q) = none := by
  induction line with
  | nil => exact splitOnce_eq_none_of_length_lt hq
  | cons c line ih =>
    have hc : s ≠ c := fun e => h (by simp [e])
    have hl : s ∉ line := fun hm => h (List.mem_cons_of_mem _ hm)
    rw [List.cons_append, splitOnce, if_neg (by simp [hc]), ih hl]
    rfl

theorem splitOnce_eq_none_of_notMem {s : α} {sep l : List α} (h : s ∉ l) :
    splitOnce (s :: sep) l = none := by
  have := splitOnce_append_eq_none (q := []) h (Nat.zero_lt_succ sep.length)
  rwa [List.append_nil] at this

/-- What follows the first separator does not matter. -/
theorem splitOnce_append_right {sep l a b : List α} (h : splitOnce sep l = some (a, b))
    (rest : List α) : splitOnce sep (l ++ rest) = some (a, b ++ rest) := by
  induction l generalizing a with
  | nil => cases h
  | cons c cs ih =>
    rw [splitOnce] at h
    rw [List.cons_append, splitOnce]
    split_ifs at h with hsep
    · have hstart := List.isPrefixOf_iff_prefix.mp hsep
      rw [← List.cons_append, if_pos (List.isPrefixOf_iff_prefix.mpr (hstart.trans (List.prefix_append _ _))),
        List.drop_append_of_le_length hstart.length_le]
      cases h
      rfl
    · obtain ⟨⟨a', b'⟩, hcs, heq⟩ := Option.map_eq_some_iff.mp h
      cases heq
      have hlen := congrArg List.length (splitOnce_eq_some hcs)
      rw [List.length_append, List.length_append] at hlen
      have hno : ¬ sep.isPrefixOf (c :: (cs ++ rest)) = true := by
        intro hlong
        refine hsep (List.isPrefixOf_iff_prefix.mpr ?_)
        refine List.prefix_of_prefix_length_le (List.isPrefixOf_iff_prefix.mp hlong)
          (List.prefix_append (c :: cs) rest) ?_
        rw [List.length_cons]
        omega
      rw [if_neg hno, ih hcs]
      rfl

/-- A list that reaches behind the first separator has it. -/
theorem splitOnce_of_append {sep l rest a t : List α} (hsep : sep ≠ [])
    (h : splitOnce sep (l ++ rest) = some (a, t)) (hlen : a.length + sep.length ≤ l.length) :
    ∃ b, splitOnce sep l = some (a, b) ∧ t = b ++ rest := by
  induction l generalizing a with
  | nil =>
    have := List.length_pos_iff.mpr hsep
    rw [List.length_nil] at hlen
    omega
  | cons c cs ih =>
    rw [List.cons_append, splitOnce] at h
    rw [splitOnce]
    split_ifs at h with hfirst
    · cases h
      have hstart : sep <+: c :: cs := List.prefix_of_prefix_length_le
        (List.isPrefixOf_iff_prefix.mp hfirst) (List.prefix_append (c :: cs) rest)
        (by rwa [List.length_nil, Nat.zero_add] at hlen)
      refine ⟨(c :: cs).drop sep.length, if_pos (List.isPrefixOf_iff_prefix.mpr hstart), ?_⟩
      rw [← List.cons_append, List.drop_append_of_le_length hstart.length_le]
    · obtain ⟨⟨a', t'⟩, hcs, heq⟩ := Option.map_eq_some_iff.mp h
      cases heq
      have hlen' : a'.length + sep.length ≤ cs.length := by
        simp only [List.length_cons] at hlen
        omega
      obtain ⟨b, hb, rfl⟩ := ih hcs hlen'
      have hno : ¬ sep.isPrefixOf (c :: cs) = true := fun hshort =>
        hfirst (List.isPrefixOf_iff_prefix.mpr
          ((List.isPrefixOf_iff_prefix.mp hshort).trans (List.prefix_append (c :: cs) rest)))
      exact ⟨b, by rw [if_neg hno, hb]; rfl, rfl⟩

theorem length_of_splitOnce {sep l a b : List α} (h : splitOnce sep l = some (a, b)) :
    l.length = a.length + sep.length + b.length := by
  rw [splitOnce_eq_some h]
  simp [Nat.add_assoc]

/-- `s.split(sep, n)`. -/
def splitMax (sep : List α) : ℕ → List α → List (List α)
  | 0, l => [l]
  | n + 1, l =>
    match splitOnce sep l with
    | some (a, b) => a :: splitMax sep n b
    | none => [l]

theorem splitMax_append {s line : List α} {c : α} (hs : s = [c]) (h : c ∉ line) (n : ℕ)
    (rest : List α) : splitMax s (n + 1) (line ++ (s ++ rest)) = line :: splitMax s n rest := by
  subst hs
  rw [splitMax, splitOnce_append h]

theorem splitMax_of_notMem {s line : List α} {c : α} (hs : s = [c]) (h : c ∉ line) (n : ℕ) :
    splitMax s n line = [line] := by
  subst hs
  cases n with
  | zero => rfl
  | succ n => rw [splitMax, splitOnce_eq_none_of_notMem h]

end Split

/-! ## Slices -/

section Slice

variable {α : Type}

/-- `s[:i]`. -/
def sliceTo (l : List α) (i : ℤ) : List α :=
  if 0 ≤ i then l.take i.toNat else l.take (l.length + i).toNat

/-- `s[i:]`. -/
def sliceFrom (l : List α) (i : ℤ) : List α :=
  if 0 ≤ i then l.drop i.toNat else l.drop (l.length + i).toNat

theorem sliceTo_ofNat (l : List α) (n : ℕ) : sliceTo l n = l.take n := by simp [sliceTo]

theorem sliceFrom_ofNat (l : List α) (n : ℕ) : sliceFrom l n = l.drop n := by simp [sliceFrom]

theorem sliceFrom_suffix (l : List α) (i : ℤ) : sliceFrom l i <:+ l := by
  unfold sliceFrom
  split_ifs <;> exact List.drop_suffix _ _

end Slice

/-! ## Integers -/

/-- The zeros of the decimal digit runs (general category Nd). -/
def decimalZeros : List ℕ :=
  [0x30, 0x660, 0x6f0, 0x7c0, 0x966, 0x9e6, 0xa66, 0xae6, 0xb66, 0xbe6, 0xc66, 0xce6, 0xd66, 0xde6,
    0xe50, 0xed0, 0xf20, 0x1040, 0x1090, 0x17e0, 0x1810, 0x1946, 0x19d0, 0x1a80, 0x1a90, 0x1b50,
    0x1bb0, 0x1c40, 0x1c50, 0xa620, 0xa8d0, 0xa900, 0xa9d0, 0xa9f0, 0xaa50, 0xabf0, 0xff10,
    0x104a0, 0x10d30, 0x11066, 0x110f0, 0x11136, 0x111d0, 0x112f0, 0x11450, 0x114d0, 0x11650,
    0x116c0, 0x11730, 0x118e0, 0x11950, 0x11c50, 0x11d50, 0x11da0, 0x16a60, 0x16ac0, 0x16b50,
    0x1d7ce, 0x1d7d8, 0x1d7e2, 0x1d7ec, 0x1d7f6, 0x1e140, 0x1e2f0, 0x1e950, 0x1fbf0]

/-- The value of a decimal digit of any script. -/
def digitValue (c : Char) : Option ℕ :=
  (decimalZeros.find? fun z => z ≤ c.toNat ∧ c.toNat < z + 10).map fun z => c.toNat - z

/-- `str.isspace` of one character. -/
def isSpace (c : Char) : Bool :=
  let n := c.toNat
  (0x9 ≤ n ∧ n ≤ 0xd) ∨ (0x1c ≤ n ∧ n ≤ 0x20) ∨ n = 0x85 ∨ n = 0xa0 ∨ n = 0x1680 ∨
    (0x2000 ≤ n ∧ n ≤ 0x200a) ∨ n = 0x2028 ∨ n = 0x2029 ∨ n = 0x202f ∨ n = 0x205f ∨ n = 0x3000

/-- The spaces `int` strips: it keeps the separators U+001C to U+001F. -/
def isIntSpace (c : Char) : Bool := isSpace c && !(0x1c ≤ c.toNat ∧ c.toNat ≤ 0x1f)

/-- The digits after the first one; single underscores may stand between digits. -/
def digitsFrom (acc : ℕ) : Str → Option ℕ
  | [] => some acc
  | '_' :: c :: cs => (digitValue c).bind fun d => digitsFrom (10 * acc + d) cs
  | c :: cs => (digitValue c).bind fun d => digitsFrom (10 * acc + d) cs

/-- A nonempty run of digits. -/
def parseDigits : Str → Option ℕ
  | [] => none
  | c :: cs => (digitValue c).bind fun d => digitsFrom d cs

/-- `int(s)`; `none` is the `ValueError`. -/
def parseInt (s : Str) : Option ℤ :=
  match (s.dropWhile isIntSpace).rdropWhile isIntSpace with
  | '-' :: cs => (parseDigits cs).map fun n : ℕ => -(n : ℤ)
  | '+' :: cs => (parseDigits cs).map fun n : ℕ => (n : ℤ)
  | cs => (parseDigits cs).map fun n : ℕ => (n : ℤ)

/-- `str(n)` of a nonnegative integer. -/
def natStr (n : ℕ) : Str := Nat.toDigits 10 n

/-- `str(n)` of an integer. -/
def intStr : ℤ → Str
  | .ofNat n => natStr n
  | .negSucc n => '-' :: natStr (n + 1)

theorem isDigit_of_mem_natStr {n : ℕ} {c : Char} (h : c ∈ natStr n) : c.isDigit = true :=
  Nat.isDigit_of_mem_toDigits (by omega) (by omega) h

theorem toNat_of_isDigit {c : Char} (h : c.isDigit = true) : 48 ≤ c.toNat ∧ c.toNat < 58 := by
  simp only [Char.isDigit, Bool.and_eq_true, decide_eq_true_eq, ge_iff_le, UInt32.le_iff_toNat_le] at h
  have h₁ : 48 ≤ c.toNat := h.1
  have h₂ : c.toNat ≤ 57 := h.2
  omega

theorem digitValue_of_isDigit {c : Char} (h : c.isDigit = true) :
    digitValue c = some (c.toNat - '0'.toNat) := by
  obtain ⟨h₁, h₂⟩ := toNat_of_isDigit h
  have hp : (0x30 ≤ c.toNat ∧ c.toNat < 0x30 + 10) := ⟨h₁, by omega⟩
  simp only [digitValue, decimalZeros]
  rw [List.find?_cons_of_pos (by simpa using hp)]
  rfl

theorem ne_underscore_of_isDigit {c : Char} (h : c.isDigit = true) : c ≠ '_' := by
  rintro rfl; exact absurd h (by decide)

theorem isIntSpace_of_isDigit {c : Char} (h : c.isDigit = true) : isIntSpace c = false := by
  obtain ⟨h₁, h₂⟩ := toNat_of_isDigit h
  simp only [isIntSpace, isSpace, Bool.and_eq_false_iff, decide_eq_false_iff_not]
  left
  omega

theorem notMem_natStr {c : Char} (hc : c.isDigit = false) (n : ℕ) : c ∉ natStr n := fun h => by
  rw [isDigit_of_mem_natStr h] at hc
  exact Bool.noConfusion hc

theorem natStr_ne_nil (n : ℕ) : natStr n ≠ [] := Nat.toDigits_ne_nil

theorem digitsFrom_of_isDigit (l : Str) (h : ∀ c ∈ l, c.isDigit = true) (acc : ℕ) :
    digitsFrom acc l = some (Nat.ofDigitChars 10 l acc) := by
  induction l generalizing acc with
  | nil => simp [digitsFrom]
  | cons c cs ih =>
    have hc := h c List.mem_cons_self
    have hcs : ∀ c ∈ cs, c.isDigit = true := fun c hm => h c (List.mem_cons_of_mem _ hm)
    rw [digitsFrom.eq_3 _ _ _ fun _ _ e _ => ne_underscore_of_isDigit hc e,
      digitValue_of_isDigit hc, Option.bind_some, ih hcs, Nat.ofDigitChars_cons]

theorem parseDigits_natStr (n : ℕ) : parseDigits (natStr n) = some n := by
  cases h : natStr n with
  | nil => exact absurd h (natStr_ne_nil n)
  | cons c cs =>
    have hd : ∀ c' ∈ c :: cs, c'.isDigit = true := fun c' hm => isDigit_of_mem_natStr (h ▸ hm)
    have hn : Nat.ofDigitChars 10 (c :: cs) 0 = n := by rw [← h]; exact Nat.ofDigitChars_ten_toDigits
    rw [Nat.ofDigitChars_cons, Nat.mul_zero, Nat.zero_add] at hn
    rw [parseDigits, digitValue_of_isDigit (hd c List.mem_cons_self), Option.bind_some,
      digitsFrom_of_isDigit cs (fun c' hm => hd c' (List.mem_cons_of_mem _ hm)), hn]

/-- **`int` reads back `str` of a length.** -/
theorem parseInt_natStr (n : ℕ) : parseInt (natStr n) = some (n : ℤ) := by
  have hd : ∀ c ∈ natStr n, isIntSpace c = false := fun c h =>
    isIntSpace_of_isDigit (isDigit_of_mem_natStr h)
  have hstrip : ((natStr n).dropWhile isIntSpace).rdropWhile isIntSpace = natStr n := by
    have h₁ : (natStr n).dropWhile isIntSpace = natStr n :=
      List.dropWhile_eq_self_iff.mpr fun hl => by simpa using hd _ (List.getElem_mem hl)
    rw [h₁]
    exact List.rdropWhile_eq_self_iff.mpr fun hl => by simpa using hd _ (List.getLast_mem hl)
  have hminus := notMem_natStr (c := '-') (by decide) n
  have hplus := notMem_natStr (c := '+') (by decide) n
  unfold parseInt
  rw [hstrip]
  split
  · rename_i heq; rw [heq] at hminus; simp at hminus
  · rename_i heq; rw [heq] at hplus; simp at hplus
  · rw [parseDigits_natStr, Option.map_some]

/-! ## Upper case and words -/

/-- The other characters whose upper case is ASCII. -/
def upperTable : List (ℕ × Str) :=
  [(0xdf, ['S', 'S']), (0x131, ['I']), (0x17f, ['S']), (0xfb00, ['F', 'F']), (0xfb01, ['F', 'I']),
    (0xfb02, ['F', 'L']), (0xfb03, ['F', 'F', 'I']), (0xfb04, ['F', 'F', 'L']), (0xfb05, ['S', 'T']),
    (0xfb06, ['S', 'T'])]

/-- The upper case of a character. A character whose upper case is not ASCII is kept: upper-cased
text is only compared with ASCII words, or refused if it is not ASCII. -/
def upperChar (c : Char) : Str :=
  if 'a' ≤ c ∧ c ≤ 'z' then [Char.ofNat (c.toNat - 32)]
  else (upperTable.lookup c.toNat).getD [c]

/-- `s.upper()`. -/
def upper (s : Str) : Str := s.flatMap upperChar

/-- The other characters whose lower case has ASCII in it. -/
def lowerTable : List (ℕ × Str) := [(0x130, ['i', '\u0307']), (0x212a, ['k'])]

/-- The lower case of a character. A character whose lower case is not ASCII is kept: lower-cased text
is only compared with ASCII words. -/
def lowerChar (c : Char) : Str :=
  if 'A' ≤ c ∧ c ≤ 'Z' then [Char.ofNat (c.toNat + 32)]
  else (lowerTable.lookup c.toNat).getD [c]

/-- `s.lower()`. -/
def lower (s : Str) : Str := s.flatMap lowerChar

theorem upper_cons (c : Char) (s : Str) : upper (c :: s) = upperChar c ++ upper s := rfl

/-- Characters below the small letters are their own upper case. -/
theorem upperChar_of_lt {c : Char} (h : c.toNat < 97) : upperChar c = [c] := by
  have hnot : ¬ ('a' ≤ c ∧ c ≤ 'z') := fun hc => by
    have : 97 ≤ c.toNat := hc.1
    omega
  have htable : ∀ p ∈ upperTable, 97 ≤ p.1 := by decide
  have hnone : upperTable.lookup c.toNat = none := by
    rw [List.lookup_eq_none_iff]
    intro p hp
    have := htable p hp
    simp only [bne_iff_ne, ne_eq]
    omega
  rw [upperChar, if_neg hnot, hnone, Option.getD_none]

/-- A character that is a capital letter but for its case. -/
theorem upperChar_of_toUpper {c : Char} (h : 'A' ≤ c.toUpper ∧ c.toUpper ≤ 'Z') :
    upperChar c = [c.toUpper] := by
  by_cases hlower : 'a' ≤ c ∧ c ≤ 'z'
  · have hletters : ∀ n < 26, (Char.ofNat (97 + n)).toUpper = Char.ofNat (65 + n) := by decide
    have hle : 97 ≤ c.toNat := hlower.1
    have hge : c.toNat ≤ 122 := hlower.2
    have hletter := hletters (c.toNat - 97) (by omega)
    rw [Nat.add_sub_cancel' hle, Char.ofNat_toNat] at hletter
    rw [upperChar, if_pos hlower, hletter]
    congr 2
    omega
  · have hsame : c.toUpper = c := dif_neg hlower
    rw [hsame] at h ⊢
    have : c.toNat ≤ 90 := h.2
    exact upperChar_of_lt (by omega)

/-- A text that is a word of capital letters but for its case. -/
theorem upper_of_map_toUpper {s : Str} (h : ∀ d ∈ s.map Char.toUpper, 'A' ≤ d ∧ d ≤ 'Z') :
    upper s = s.map Char.toUpper := by
  induction s with
  | nil => rfl
  | cons c s ih =>
    rw [List.map_cons, List.forall_mem_cons] at h
    rw [upper_cons, upperChar_of_toUpper h.1, ih h.2]
    rfl
/-- The decimal text of an integer starts below the letters, and so does its upper case. -/
theorem exists_upper_intStr (n : ℤ) : ∃ c s, c.toNat < 65 ∧ upper (intStr n) = c :: s := by
  have hcons : ∃ c s, c.toNat < 65 ∧ intStr n = c :: s := by
    cases n with
    | ofNat n =>
      obtain ⟨c, s, h⟩ := List.exists_cons_of_ne_nil (natStr_ne_nil n)
      have hd := toNat_of_isDigit (isDigit_of_mem_natStr (n := n) (c := c) (by rw [h]; simp))
      exact ⟨c, s, by omega, h⟩
    | negSucc n => exact ⟨'-', natStr (n + 1), by decide, rfl⟩
  obtain ⟨c, s, hc, h⟩ := hcons
  exact ⟨c, upper s, hc, by rw [h, upper_cons, upperChar_of_lt (by omega)]; rfl⟩

/-- `s.split()`. -/
def splitWords (s : Str) : List Str := (s.splitOnP isSpace).filter (· ≠ [])

/-- `s.strip()`. -/
def strip (s : Str) : Str := (s.dropWhile isSpace).rdropWhile isSpace

/-- `s.strip(q)` for one character `q`. -/
def stripChar (q : Char) (s : Str) : Str := (s.dropWhile (· = q)).rdropWhile (· = q)

/-- `strip` takes white space off both ends. -/
theorem exists_strip (s : Str) : ∃ l r, s = l ++ (strip s ++ r) ∧ (∀ c ∈ l, isSpace c = true) ∧
    ∀ c ∈ r, isSpace c = true := by
  refine ⟨s.takeWhile isSpace, (s.dropWhile isSpace).rtakeWhile isSpace, ?_,
    fun c hc => List.mem_takeWhile_imp hc, fun c hc => List.mem_rtakeWhile_imp hc⟩
  rw [strip, List.rdropWhile_append_rtakeWhile, List.takeWhile_append_dropWhile]

/-- Nothing to strip. -/
theorem strip_eq_self {s : Str} (hhead : ∀ c ∈ s.head?, isSpace c = false)
    (hlast : ∀ c ∈ s.getLast?, isSpace c = false) : strip s = s := by
  have hdrop : s.dropWhile isSpace = s := by
    cases s with
    | nil => rfl
    | cons c cs => rw [List.dropWhile_cons_of_neg (by rw [hhead c rfl]; exact Bool.false_ne_true)]
  rw [strip, hdrop, List.rdropWhile_eq_self_iff]
  intro hne
  rw [hlast _ (List.getLast?_eq_getLast_of_ne_nil hne)]
  exact Bool.false_ne_true

/-- White space around a text is taken off first. -/
theorem strip_append {l r : Str} (hl : ∀ c ∈ l, isSpace c = true) (hr : ∀ c ∈ r, isSpace c = true)
    (s : Str) : strip (l ++ (s ++ r)) = strip s := by
  have hright : ∀ t : Str, (t ++ r).rdropWhile isSpace = t.rdropWhile isSpace := by
    intro t
    induction r using List.reverseRecOn with
    | nil => rw [List.append_nil]
    | append_singleton r c ih =>
      rw [← List.append_assoc,
        List.rdropWhile_concat_pos _ _ _ (hr c (List.mem_append_right _ (List.mem_singleton_self c)))]
      exact ih fun c' hc' => hr c' (List.mem_append_left _ hc')
  have hleft : (l ++ (s ++ r)).dropWhile isSpace = (s ++ r).dropWhile isSpace := by
    induction l with
    | nil => rfl
    | cons c l ih =>
      rw [List.cons_append, List.dropWhile_cons_of_pos (hl c List.mem_cons_self)]
      exact ih fun c' hc' => hl c' (List.mem_cons_of_mem _ hc')
  rw [strip, strip, hleft, List.dropWhile_append]
  split_ifs with hempty
  · have hnil := List.isEmpty_iff.mp hempty
    have hall : r.dropWhile isSpace = [] := List.dropWhile_eq_nil_iff.mpr hr
    rw [hnil, hall]
  · exact hright _

/-! ## UTF-8 -/

/-- `s.encode('utf-8')`. -/
def encodeUtf8 (s : Str) : Bytes := s.flatMap String.utf8EncodeChar

/-- The bytes of a buffer after `skip` of them, decoded; a byte that starts no character is
dropped. -/
def decodeFrom : ℕ → Bytes → Str
  | _, [] => []
  | skip + 1, _ :: bs => decodeFrom skip bs
  | 0, b :: bs =>
    match (ByteArray.mk (b :: bs).toArray).utf8DecodeChar? 0 with
    | some c => c :: decodeFrom (c.utf8Size - 1) bs
    | none => decodeFrom 0 bs

/-- `b.decode('utf-8', errors='ignore')`. -/
def decodeIgnore (bs : Bytes) : Str := decodeFrom 0 bs

@[simp] theorem encodeUtf8_nil : encodeUtf8 [] = [] := rfl

@[simp] theorem encodeUtf8_cons (c : Char) (s : Str) :
    encodeUtf8 (c :: s) = String.utf8EncodeChar c ++ encodeUtf8 s := rfl

@[simp] theorem encodeUtf8_append (s t : Str) : encodeUtf8 (s ++ t) = encodeUtf8 s ++ encodeUtf8 t := by
  simp [encodeUtf8]

theorem decodeFrom_append (l bs : Bytes) : decodeFrom l.length (l ++ bs) = decodeFrom 0 bs := by
  induction l with
  | nil => rfl
  | cons b l ih => simpa [decodeFrom] using ih

theorem decodeIgnore_char (c : Char) (bs : Bytes) :
    decodeIgnore (String.utf8EncodeChar c ++ bs) = c :: decodeIgnore bs := by
  have hlen := String.length_utf8EncodeChar c
  cases h : String.utf8EncodeChar c with
  | nil => rw [h] at hlen; have := Char.utf8Size_pos c; simp at hlen; omega
  | cons b l =>
    rw [h, List.length_cons] at hlen
    have hd : (ByteArray.mk (b :: (l ++ bs)).toArray).utf8DecodeChar? 0 = some c := by
      have := ByteArray.utf8DecodeChar?_utf8EncodeChar_append (b := ByteArray.mk bs.toArray) (c := c)
      rw [h] at this
      rw [← this]
      congr 1
      ext1
      simp
    have hl : c.utf8Size - 1 = l.length := by omega
    rw [decodeIgnore, List.cons_append, decodeFrom, hd]
    dsimp only
    rw [hl, decodeFrom_append, decodeIgnore]

/-- **Decoding undoes encoding.** -/
theorem decodeIgnore_encodeUtf8 (s : Str) (bs : Bytes) :
    decodeIgnore (encodeUtf8 s ++ bs) = s ++ decodeIgnore bs := by
  induction s with
  | nil => rfl
  | cons c s ih => rw [encodeUtf8_cons, List.append_assoc, decodeIgnore_char, ih, List.cons_append]

theorem decodeIgnore_encodeUtf8_self (s : Str) : decodeIgnore (encodeUtf8 s) = s := by
  have h : decodeIgnore [] = [] := rfl
  have := decodeIgnore_encodeUtf8 s []
  rwa [List.append_nil, h, List.append_nil] at this

/-- `b.decode('utf-8')`; `none` is the `UnicodeDecodeError`. -/
def decodeStrict (bs : Bytes) : Option Str :=
  if encodeUtf8 (decodeIgnore bs) = bs then some (decodeIgnore bs) else none

theorem decodeStrict_encodeUtf8 (s : Str) : decodeStrict (encodeUtf8 s) = some s := by
  rw [decodeStrict, decodeIgnore_encodeUtf8_self, if_pos rfl]

theorem decodeStrict_eq_some {bs : Bytes} {s : Str} (h : decodeStrict bs = some s) :
    bs = encodeUtf8 s ∧ decodeIgnore bs = s := by
  rw [decodeStrict] at h
  split_ifs at h with hbs
  cases h
  exact ⟨hbs.symm, rfl⟩

/-- An ASCII byte stands for its own character. -/
theorem toNat_of_mem_utf8EncodeChar {c : Char} {b : UInt8} (h : b ∈ String.utf8EncodeChar c)
    (hb : b.toNat < 128) : c.toNat = b.toNat := by
  change c.val.toNat = b.toNat
  rw [String.utf8EncodeChar] at h
  split_ifs at h <;> simp only [List.mem_cons, List.not_mem_nil, or_false] at h
  · subst h
    rw [UInt8.toNat_ofNat']
    omega
  · rcases h with rfl | rfl <;> rw [UInt8.toNat_ofNat'] at hb <;> omega
  · rcases h with rfl | rfl | rfl <;> rw [UInt8.toNat_ofNat'] at hb <;> omega
  · rcases h with rfl | rfl | rfl | rfl <;> rw [UInt8.toNat_ofNat'] at hb <;> omega

/-- The byte of an ASCII character that does not occur in a text is not among its bytes. -/
theorem notMem_encodeUtf8 {c : Char} (hc : c.toNat < 128) {s : Str} (h : c ∉ s) :
    UInt8.ofNat c.toNat ∉ encodeUtf8 s := by
  intro hm
  obtain ⟨d, hd, hb⟩ := List.mem_flatMap.mp hm
  have hbyte : (UInt8.ofNat c.toNat).toNat = c.toNat :=
    (UInt8.toNat_ofNat').trans (Nat.mod_eq_of_lt (by omega))
  have hn := toNat_of_mem_utf8EncodeChar hb (hbyte.trans_lt hc)
  have hdc : d = c := Char.ext (UInt32.toNat_inj.mp (hn.trans hbyte))
  exact h (hdc ▸ hd)

theorem newline_notMem_encodeUtf8 {s : Str} (h : '\n' ∉ s) : 10 ∉ encodeUtf8 s :=
  notMem_encodeUtf8 (c := '\n') (by decide) h

/-! ## ASCII -/

/-- All characters are ASCII. -/
def IsAscii (s : Str) : Prop := ∀ c ∈ s, c.toNat < 128

instance (s : Str) : Decidable (IsAscii s) := inferInstanceAs (Decidable (∀ c ∈ s, c.toNat < 128))

theorem utf8Size_eq_one_iff_lt {c : Char} : c.utf8Size = 1 ↔ c.toNat < 128 := by
  rw [Char.utf8Size_eq_one_iff, UInt32.le_iff_toNat_le]
  exact Nat.lt_succ_iff.symm

theorem length_encodeUtf8_cons (c : Char) (s : Str) :
    (encodeUtf8 (c :: s)).length = c.utf8Size + (encodeUtf8 s).length := by
  simp

theorem length_le_length_encodeUtf8 (s : Str) : s.length ≤ (encodeUtf8 s).length := by
  induction s with
  | nil => simp
  | cons c s ih =>
    have := Char.utf8Size_pos c
    rw [length_encodeUtf8_cons, List.length_cons]
    omega

/-- The byte length is the character count exactly for ASCII text. -/
theorem length_encodeUtf8_eq_iff (s : Str) : (encodeUtf8 s).length = s.length ↔ IsAscii s := by
  induction s with
  | nil => simp [IsAscii]
  | cons c s ih =>
    have h₁ := Char.utf8Size_pos c
    have h₂ := length_le_length_encodeUtf8 s
    have hc := utf8Size_eq_one_iff_lt (c := c)
    rw [length_encodeUtf8_cons, List.length_cons]
    simp only [IsAscii, List.mem_cons, forall_eq_or_imp] at ih ⊢
    rw [← ih, ← hc]
    omega

theorem isAscii_append {s t : Str} : IsAscii (s ++ t) ↔ IsAscii s ∧ IsAscii t :=
  List.forall_mem_append

/-- ASCII text is encoded character by character. -/
theorem encodeUtf8_eq_map {s : Str} (h : IsAscii s) :
    encodeUtf8 s = s.map fun c => c.val.toUInt8 := by
  induction s with
  | nil => rfl
  | cons c s ih =>
    have hc := String.utf8EncodeChar_eq_singleton (utf8Size_eq_one_iff_lt.mpr (h c List.mem_cons_self))
    rw [encodeUtf8_cons, hc, ih fun c' hc' => h c' (List.mem_cons_of_mem _ hc')]
    rfl

theorem flatten_map_encodeUtf8 (ts : List Str) :
    (ts.map encodeUtf8).flatten = encodeUtf8 ts.flatten := by
  induction ts with
  | nil => rfl
  | cons t ts ih => rw [List.map_cons, List.flatten_cons, List.flatten_cons, encodeUtf8_append, ih]

/-- The pieces of encoded ASCII text are encoded pieces of the text. -/
theorem exists_pieces {s : Str} (h : IsAscii s) {chunks : List Bytes}
    (hc : chunks.flatten = encodeUtf8 s) : ∃ ts : List Str, chunks = ts.map encodeUtf8 ∧ ts.flatten = s := by
  induction chunks generalizing s with
  | nil =>
    have := length_le_length_encodeUtf8 s
    rw [← hc, List.flatten_nil, List.length_nil, Nat.le_zero, List.length_eq_zero_iff] at this
    exact ⟨[], rfl, this.symm⟩
  | cons chunk chunks ih =>
    rw [List.flatten_cons, encodeUtf8_eq_map h] at hc
    obtain ⟨t, s', rfl, ht, hs'⟩ := List.append_eq_map_iff.mp hc
    obtain ⟨hta, hsa⟩ := isAscii_append.mp h
    obtain ⟨ts, rfl, rfl⟩ := ih hsa (by rw [encodeUtf8_eq_map hsa, hs'])
    refine ⟨t :: ts, ?_, rfl⟩
    rw [List.map_cons, encodeUtf8_eq_map hta, ht]

end PyText
