import JobSystem.Lib.JsonPieces

/-!
# White space around JSON text

White space behind a text does not change what `scanOnce` reads, only what it leaves, and any fuel
from the length of the text on is enough.

* `behind`; `scanString_append`, `scanAtom_append`, `scanSeq_append`, `scanField_append`,
  **`scanOnce_append`**;
* **`loads_strip`**: `json.loads(s.strip())` of the text of an object;
* **`canonical_of_loads`**: what `json.loads` returns.
-/

namespace PyJson

open PyText

variable {ft : FloatText}

/-- The text `r` stands behind what is left. -/
def behind {α : Type} (r : Str) (p : α × Str) : α × Str := (p.1, p.2 ++ r)

/-- A character that white space is not. -/
theorem ne_of_isWs {c d : Char} (hc : isWs c = true) (hd : isWs d = false) : c ≠ d := by
  rintro rfl
  rw [hc] at hd
  cases hd

section Behind

variable {r : Str} (hr : ∀ c ∈ r, isWs c = true)

include hr

theorem skipWs_append (s : Str) :
    skipWs (s ++ r) = if skipWs s = [] then [] else skipWs s ++ r := by
  rw [skipWs, skipWs, List.dropWhile_append]
  by_cases h : s.dropWhile isWs = []
  · rw [if_pos h, if_pos (by rw [h]; rfl), List.dropWhile_eq_nil_iff]
    exact hr
  · rw [if_neg h, if_neg (by simpa using h)]

/-! ## Strings -/

theorem readHex_append (n : ℕ) (s : Str) (u : ℕ) :
    readHex n (s ++ r) u = (readHex n s u).map (behind r) := by
  induction n generalizing s u with
  | zero => cases s <;> rfl
  | succ n ih =>
    cases s with
    | nil =>
      cases r with
      | nil => rfl
      | cons c cs =>
        have hc : hexValue c = none := by
          have := hr c List.mem_cons_self
          simp only [isWs, decide_eq_true_eq] at this
          rcases this with rfl | rfl | rfl | rfl <;> rfl
        rw [List.nil_append, readHex, hc]
        rfl
    | cons c cs =>
      rw [List.cons_append, readHex, readHex]
      cases hexValue c with
      | none => rfl
      | some h => exact ih cs _

theorem readUnit_append {s : Str} (hs : s ≠ []) :
    readUnit (s ++ r) = (readUnit s).map (behind r) := by
  obtain ⟨c, cs, rfl⟩ := List.exists_cons_of_ne_nil hs
  unfold readUnit
  dsimp only [List.cons_append]
  split_ifs with hquote hback hctrl
  · rfl
  · cases cs with
    | nil =>
      cases r with
      | nil => rfl
      | cons e es =>
        have he : e ≠ 'u' ∧ unescape e = none := by
          have := hr e List.mem_cons_self
          simp only [isWs, decide_eq_true_eq] at this
          rcases this with rfl | rfl | rfl | rfl <;> exact ⟨by decide, rfl⟩
        dsimp only [List.nil_append]
        rw [if_neg he.1, he.2]
        rfl
    | cons e es =>
      dsimp only [List.cons_append]
      split_ifs
      · rw [readHex_append hr]
        cases readHex 4 es 0 <;> rfl
      · cases unescape e <;> rfl
  · rfl
  · rfl

/-- White space ends no string. -/
theorem readUnits_space (n : ℕ) : readUnits n r = none := by
  induction n generalizing r with
  | zero => rfl
  | succ n ih =>
    rw [readUnits]
    cases r with
    | nil => rfl
    | cons c cs =>
      have hcs := ih fun c hc => hr c (List.mem_cons_of_mem _ hc)
      have hc := hr c List.mem_cons_self
      simp only [isWs, decide_eq_true_eq] at hc
      rcases hc with rfl | rfl | rfl | rfl
      · change (readUnits n cs).map _ = none
        rw [hcs]
        rfl
      · rfl
      · rfl
      · rfl

end Behind

/-- A unit is read off the front. -/
theorem length_readUnit {s rest : Str} {u : Option ℕ} (h : readUnit s = some (u, rest)) :
    rest.length < s.length := by
  cases u with
  | none =>
    rw [readUnit_end h]
    exact Nat.lt_succ_self _
  | some u =>
    rcases readUnit_spec h with ⟨e, t, rfl, -⟩ | ⟨c, rfl, -⟩
    · rw [List.length_cons, List.length_cons, List.length_append]
      omega
    · exact Nat.lt_succ_self _

/-! ## What is left -/

theorem length_skipWs (s : Str) : (skipWs s).length ≤ s.length := List.length_dropWhile_le isWs s

theorem length_scanString {s : Str} {p : Str × Str} (h : scanString s = some p) :
    p.2.length ≤ s.length := by
  rw [scanString, Option.bind_eq_some_iff] at h
  obtain ⟨⟨units, rest⟩, hunits, h⟩ := h
  rw [Option.map_eq_some_iff] at h
  obtain ⟨k, -, rfl⟩ := h
  obtain ⟨t, rfl, -⟩ := readUnits_spec hunits
  rw [List.length_append]
  exact Nat.le_add_left _ _

theorem length_scanAtom {s rest : Str} {v : Json} (h : scanAtom ft s = some (v, rest)) :
    rest.length < s.length := by
  unfold scanAtom at h
  split at h
  · rename_i e he
    cases h
    have hne := (constants_spec e (List.mem_of_find?_eq_some he)).1
    have hprefix : e.1.isPrefixOf s = true :=
      List.find?_some (p := fun e : Str × Json => e.1.isPrefixOf s) he
    have hlen := (List.isPrefixOf_iff_prefix.mp hprefix).length_le
    have hpos := List.length_pos_iff_ne_nil.mpr hne
    rw [List.length_drop]
    omega
  · rw [scanNumber, Option.map_eq_some_iff] at h
    obtain ⟨⟨⟨sign, int, frac⟩, r⟩, hparts, h⟩ := h
    cases h
    obtain ⟨hshape, hs⟩ := exists_shape hparts
    have hpos := List.length_pos_iff_ne_nil.mpr hshape.int.1.1
    rw [hs]
    simp only [List.length_append]
    omega

theorem length_scanSeq {α : Type} {close : Char} {item : Str → Option (α × Str)}
    (hless : ∀ t x rest, item t = some (x, rest) → rest.length < t.length) {n : ℕ} {s rest : Str}
    {xs : List α} (h : scanSeq close item n s = some (xs, rest)) : rest.length < s.length := by
  induction n generalizing s xs with
  | zero => cases h
  | succ n ih =>
    rw [scanSeq, Option.bind_eq_some_iff] at h
    obtain ⟨⟨x, r⟩, hx, h⟩ := h
    have hitem := hless s x r hx
    have hskip := length_skipWs r
    cases hr : skipWs r with
    | nil =>
      simp only [hr] at h
      cases h
    | cons c cs =>
      simp only [hr] at h
      rw [hr, List.length_cons] at hskip
      split_ifs at h
      · cases h
        omega
      · rw [Option.map_eq_some_iff] at h
        obtain ⟨⟨ys, r'⟩, hys, h⟩ := h
        cases h
        have hrest := ih hys
        have hcs := length_skipWs cs
        omega

theorem length_scanField {value : Str → Option (Json × Str)}
    (hless : ∀ t v rest, value t = some (v, rest) → rest.length < t.length) {s rest : Str}
    {f : Str × Json} (h : scanField value s = some (f, rest)) : rest.length < s.length := by
  cases s with
  | nil => cases h
  | cons c cs =>
    rw [scanField] at h
    split_ifs at h
    rw [Option.bind_eq_some_iff] at h
    obtain ⟨k, hk, h⟩ := h
    have hname := length_scanString hk
    have hskip := length_skipWs k.2
    cases hr : skipWs k.2 with
    | nil =>
      simp only [hr] at h
      cases h
    | cons c' cs' =>
      simp only [hr] at h
      rw [hr, List.length_cons] at hskip
      split_ifs at h
      rw [Option.map_eq_some_iff] at h
      obtain ⟨⟨v, r'⟩, hv, h⟩ := h
      cases h
      have hvalue := hless _ _ _ hv
      have hcs := length_skipWs cs'
      rw [List.length_cons]
      dsimp only
      omega

/-- A value is read off the front. -/
theorem length_scanOnce {n : ℕ} {s rest : Str} {v : Json} (h : scanOnce ft n s = some (v, rest)) :
    rest.length < s.length := by
  induction n generalizing s v rest with
  | zero => cases s <;> cases h
  | succ n ih =>
    cases s with
    | nil => cases h
    | cons c cs =>
      have hskip := length_skipWs cs
      rw [scanOnce] at h
      rw [List.length_cons]
      split_ifs at h
      · rw [Option.map_eq_some_iff] at h
        obtain ⟨k, hk, h⟩ := h
        cases h
        have := length_scanString hk
        omega
      · cases h
        rw [List.length_tail]
        omega
      · rw [Option.map_eq_some_iff] at h
        obtain ⟨⟨pairs, r⟩, hpairs, h⟩ := h
        cases h
        have := length_scanSeq (fun t f rest hf => length_scanField (fun t v rest hv => ih hv) hf)
          hpairs
        dsimp only
        omega
      · cases h
        rw [List.length_tail]
        omega
      · rw [Option.map_eq_some_iff] at h
        obtain ⟨⟨xs, r⟩, hxs, h⟩ := h
        cases h
        have := length_scanSeq (fun t v rest hv => ih hv) hxs
        dsimp only
        omega
      · exact length_scanAtom h

section Behind

variable {r : Str} (hr : ∀ c ∈ r, isWs c = true)

include hr

theorem readUnits_append {n m : ℕ} {s : Str} (hn : s.length ≤ n) (hm : s.length ≤ m) :
    readUnits m (s ++ r) = (readUnits n s).map (behind r) := by
  induction n generalizing m s with
  | zero =>
    rw [List.length_eq_zero_iff.mp (Nat.le_zero.mp hn)]
    exact readUnits_space hr m
  | succ n ih =>
    cases s with
    | nil =>
      rw [List.nil_append, readUnits_space hr m]
      rfl
    | cons c cs =>
      obtain ⟨m, rfl⟩ := Nat.exists_eq_succ_of_ne_zero (Nat.ne_of_gt (Nat.lt_of_lt_of_le
        (Nat.succ_pos _) hm))
      rw [readUnits, readUnits, readUnit_append hr (List.cons_ne_nil c cs)]
      cases hunit : readUnit (c :: cs) with
      | none => rfl
      | some p =>
        obtain ⟨u, rest⟩ := p
        have hlen := length_readUnit hunit
        rw [Option.map_some, Option.bind_some, Option.bind_some]
        cases u with
        | none => rfl
        | some u =>
          have hih := ih (m := m) (s := rest) (by omega) (by omega)
          change (readUnits m (rest ++ r)).map _ = _
          rw [hih]
          cases readUnits n rest <;> rfl

theorem scanString_append (s : Str) : scanString (s ++ r) = (scanString s).map (behind r) := by
  have hlen : s.length ≤ (s ++ r).length := by
    rw [List.length_append]
    exact Nat.le_add_right _ _
  rw [scanString, scanString, readUnits_append hr (le_refl s.length) hlen]
  cases readUnits s.length s with
  | none => rfl
  | some p =>
    rw [Option.map_some, Option.bind_some, Option.bind_some]
    change (joinUnits p.1).map _ = _
    cases joinUnits p.1 <;> rfl

/-! ## Numbers and words -/

theorem takeWhile_digits_append (s : Str) :
    (s ++ r).takeWhile Char.isDigit = s.takeWhile Char.isDigit ∧
      (s ++ r).dropWhile Char.isDigit = s.dropWhile Char.isDigit ++ r := by
  have hno : ∀ c, isWs c = true → c.isDigit = false := by
    intro c hc
    simp only [isWs, decide_eq_true_eq] at hc
    rcases hc with rfl | rfl | rfl | rfl <;> rfl
  induction s with
  | nil =>
    cases r with
    | nil => exact ⟨rfl, rfl⟩
    | cons c cs =>
      have hc := hno c (hr c List.mem_cons_self)
      rw [List.nil_append, List.takeWhile_cons_of_neg (by rw [hc]; exact Bool.false_ne_true),
        List.dropWhile_cons_of_neg (by rw [hc]; exact Bool.false_ne_true)]
      exact ⟨rfl, rfl⟩
  | cons c s ih =>
    by_cases hc : c.isDigit = true
    · rw [List.cons_append, List.takeWhile_cons_of_pos hc, List.dropWhile_cons_of_pos hc,
        List.takeWhile_cons_of_pos hc, List.dropWhile_cons_of_pos hc, ih.1, ih.2]
      exact ⟨rfl, rfl⟩
    · rw [List.cons_append, List.takeWhile_cons_of_neg hc, List.dropWhile_cons_of_neg hc,
        List.takeWhile_cons_of_neg hc, List.dropWhile_cons_of_neg hc]
      exact ⟨rfl, rfl⟩

theorem signPart_append (s : Str) : signPart (s ++ r) = behind r (signPart s) := by
  cases s with
  | nil =>
    cases r with
    | nil => rfl
    | cons c cs =>
      change signPart (c :: cs) = ([], c :: cs)
      rw [signPart, if_neg (ne_of_isWs (hr c List.mem_cons_self) rfl)]
  | cons c cs =>
    rw [List.cons_append, signPart, signPart]
    split_ifs <;> rfl

theorem intPart_append_space (s : Str) : intPart (s ++ r) = (intPart s).map (behind r) := by
  cases s with
  | nil =>
    cases r with
    | nil => rfl
    | cons c cs =>
      have hc : c.isDigit = false := by
        have := hr c List.mem_cons_self
        simp only [isWs, decide_eq_true_eq] at this
        rcases this with rfl | rfl | rfl | rfl <;> rfl
      change intPart (c :: cs) = none
      rw [intPart, if_neg (ne_of_isWs (hr c List.mem_cons_self) rfl), hc]
      rfl
  | cons c cs =>
    rw [List.cons_append, intPart, intPart, (takeWhile_digits_append hr cs).1,
      (takeWhile_digits_append hr cs).2]
    split_ifs <;> rfl

theorem fracPart_append_space (s : Str) : fracPart (s ++ r) = behind r (fracPart s) := by
  cases s with
  | nil =>
    cases r with
    | nil => rfl
    | cons c cs =>
      have hc : ¬ (c = '.' ∧ cs.takeWhile Char.isDigit ≠ []) := fun h =>
        ne_of_isWs (hr c List.mem_cons_self) rfl h.1
      change fracPart (c :: cs) = ([], c :: cs)
      rw [fracPart, if_neg hc]
  | cons c cs =>
    rw [List.cons_append, fracPart, fracPart, (takeWhile_digits_append hr cs).1,
      (takeWhile_digits_append hr cs).2]
    split_ifs <;> rfl

theorem expSign_append_space (s : Str) : expSign (s ++ r) = behind r (expSign s) := by
  cases s with
  | nil =>
    cases r with
    | nil => rfl
    | cons c cs =>
      have hc : ¬ (c = '+' ∨ c = '-') := fun h =>
        h.elim (ne_of_isWs (hr c List.mem_cons_self) rfl)
          (ne_of_isWs (hr c List.mem_cons_self) rfl)
      change expSign (c :: cs) = ([], c :: cs)
      rw [expSign, if_neg hc]
  | cons c cs =>
    rw [List.cons_append, expSign, expSign]
    split_ifs <;> rfl

theorem expPart_append_space (s : Str) : expPart (s ++ r) = behind r (expPart s) := by
  cases s with
  | nil =>
    cases r with
    | nil => rfl
    | cons c cs =>
      have hc : ¬ ((c = 'e' ∨ c = 'E') ∧ (expSign cs).2.takeWhile Char.isDigit ≠ []) := fun h =>
        h.1.elim (ne_of_isWs (hr c List.mem_cons_self) rfl)
          (ne_of_isWs (hr c List.mem_cons_self) rfl)
      change expPart (c :: cs) = ([], c :: cs)
      rw [expPart, if_neg hc]
  | cons c cs =>
    rw [List.cons_append, expPart, expPart, expSign_append_space hr cs]
    simp only [behind, (takeWhile_digits_append hr (expSign cs).2).1,
      (takeWhile_digits_append hr (expSign cs).2).2]
    split_ifs <;> rfl

theorem numberParts_append_space (s : Str) :
    numberParts (s ++ r) = (numberParts s).map (behind r) := by
  rw [numberParts, numberParts, signPart_append hr]
  simp only [behind, intPart_append_space hr]
  cases intPart (signPart s).2 with
  | none => rfl
  | some p =>
    simp only [Option.map_some, behind, fracPart_append_space hr, expPart_append_space hr]

theorem prefix_append_space {e s : Str} (he : ∀ c ∈ e, isWs c = false) :
    e <+: s ++ r ↔ e <+: s := by
  constructor
  · intro h
    rcases List.prefix_or_prefix_of_prefix h (List.prefix_append s r) with h | ⟨t, rfl⟩
    · exact h
    · -- what reaches into the white space is empty
      rw [List.prefix_append_right_inj] at h
      cases t with
      | nil => exact (List.append_nil s).symm ▸ List.prefix_refl s
      | cons c t =>
        have hc := he c (List.mem_append_right _ List.mem_cons_self)
        rw [hr c (h.subset List.mem_cons_self)] at hc
        cases hc
  · exact fun h => h.trans (List.prefix_append s r)

theorem scanAtom_append (s : Str) : scanAtom ft (s ++ r) = (scanAtom ft s).map (behind r) := by
  have hwords : ∀ e ∈ constants, ∀ c ∈ e.1, isWs c = false := by
    intro e he
    simp only [constants, floatConstants, List.map_cons, List.map_nil, List.cons_append,
      List.nil_append, List.mem_cons, List.not_mem_nil, or_false] at he
    rcases he with rfl | rfl | rfl | rfl | rfl | rfl <;> simp [isWs]
  have hfind : (constants.find? fun e => e.1.isPrefixOf (s ++ r)) =
      constants.find? fun e => e.1.isPrefixOf s := by
    refine List.find?_congr fun e he => ?_
    rw [Bool.eq_iff_iff, List.isPrefixOf_iff_prefix, List.isPrefixOf_iff_prefix]
    exact prefix_append_space hr (hwords e he)
  unfold scanAtom
  rw [hfind]
  cases hfound : constants.find? fun e => e.1.isPrefixOf s with
  | none =>
    dsimp only
    rw [scanNumber, scanNumber, numberParts_append_space hr]
    cases numberParts s <;> rfl
  | some e =>
    have hprefix : e.1.isPrefixOf s = true :=
      List.find?_some (p := fun e : Str × Json => e.1.isPrefixOf s) hfound
    have hlen := (List.isPrefixOf_iff_prefix.mp hprefix).length_le
    dsimp only
    rw [List.drop_append_of_le_length hlen]
    rfl

/-! ## Containers -/

section Seq

variable {α : Type} {close : Char} {item item' : Str → Option (α × Str)}

omit hr in
theorem scanSeq_nil (h : item [] = none) (n : ℕ) : scanSeq close item n [] = none := by
  cases n with
  | zero => rfl
  | succ n =>
    rw [scanSeq, h]
    rfl

/-- Items that white space does not change make a sequence that it does not change. -/
theorem scanSeq_append {n m : ℕ} {s : Str}
    (hitem : ∀ t : Str, t.length ≤ s.length → item' (t ++ r) = (item t).map (behind r))
    (hless : ∀ t x rest, item t = some (x, rest) → rest.length < t.length) (hnil' : item' [] = none)
    (hn : s.length ≤ n) (hm : s.length ≤ m) :
    scanSeq close item' m (s ++ r) = (scanSeq close item n s).map (behind r) := by
  have hnil : item [] = none := by
    cases h : item [] with
    | none => rfl
    | some p => exact absurd (hless [] p.1 p.2 h) (Nat.not_lt_zero _)
  induction n generalizing m s with
  | zero =>
    obtain rfl := List.length_eq_zero_iff.mp (Nat.le_zero.mp hn)
    cases m with
    | zero => rfl
    | succ m =>
      change (item' ([] ++ r)).bind _ = none
      rw [hitem [] (le_refl _), hnil]
      rfl
  | succ n ih =>
    cases m with
    | zero =>
      obtain rfl := List.length_eq_zero_iff.mp (Nat.le_zero.mp hm)
      rw [scanSeq, scanSeq, hnil]
      rfl
    | succ m =>
      rw [scanSeq, scanSeq, hitem s (le_refl _)]
      cases hx : item s with
      | none => rfl
      | some p =>
        obtain ⟨x, rest⟩ := p
        have hlen := hless s x rest hx
        rw [Option.map_some, Option.bind_some, Option.bind_some]
        simp only [behind, skipWs_append hr]
        have hskip := length_skipWs rest
        cases hrest : skipWs rest with
        | nil => rfl
        | cons c cs =>
          rw [if_neg (List.cons_ne_nil c cs)]
          dsimp only [List.cons_append]
          split_ifs with hclose hcomma
          · rfl
          · rw [hrest, List.length_cons] at hskip
            rw [skipWs_append hr]
            have hcs := length_skipWs cs
            have hih := ih (m := m) (s := skipWs cs) (fun t ht => hitem t (by omega)) (by omega)
              (by omega)
            by_cases hempty : skipWs cs = []
            · rw [if_pos hempty, hempty, scanSeq_nil hnil, scanSeq_nil hnil']
              rfl
            · rw [if_neg hempty, hih]
              cases scanSeq close item n (skipWs cs) <;> rfl
          · rfl

end Seq

theorem scanField_append {value value' : Str → Option (Json × Str)} {s : Str}
    (hvalue : ∀ t : Str, t.length ≤ s.length → value' (t ++ r) = (value t).map (behind r))
    (hnil : value [] = none) (hnil' : value' [] = none) :
    scanField value' (s ++ r) = (scanField value s).map (behind r) := by
  cases s with
  | nil =>
    cases r with
    | nil => rfl
    | cons c cs =>
      change scanField value' (c :: cs) = none
      rw [scanField, if_neg (ne_of_isWs (hr c List.mem_cons_self) rfl)]
  | cons c cs =>
    rw [List.cons_append, scanField, scanField, scanString_append hr]
    split_ifs with hquote
    · cases hk : scanString cs with
      | none => rfl
      | some k =>
        rw [Option.map_some, Option.bind_some, Option.bind_some]
        simp only [behind, skipWs_append hr]
        have hlen : k.2.length ≤ cs.length := length_scanString hk
        have hskip := length_skipWs k.2
        cases hrest : skipWs k.2 with
        | nil => rfl
        | cons c' cs' =>
          rw [if_neg (List.cons_ne_nil c' cs')]
          dsimp only [List.cons_append]
          split_ifs with hcolon
          · rw [hrest, List.length_cons] at hskip
            rw [skipWs_append hr]
            have hcs := length_skipWs cs'
            by_cases hempty : skipWs cs' = []
            · rw [if_pos hempty, hempty, hnil, hnil']
              rfl
            · rw [if_neg hempty, hvalue _ (by rw [List.length_cons]; omega)]
              cases value (skipWs cs') <;> rfl
          · rfl
    · rfl

omit hr in
theorem scanOnce_nil (n : ℕ) : scanOnce ft n [] = none := by
  cases n <;> rfl

/-- White space is no value. -/
theorem scanOnce_space (n : ℕ) : scanOnce ft n r = none := by
  cases r with
  | nil => exact scanOnce_nil n
  | cons c cs =>
    cases n with
    | zero => rfl
    | succ n =>
      have hc := hr c List.mem_cons_self
      have hatom : scanAtom ft (c :: cs) = (scanAtom ft []).map (behind (c :: cs)) :=
        scanAtom_append hr []
      rw [scanOnce, if_neg (ne_of_isWs hc rfl), if_neg (ne_of_isWs hc rfl),
        if_neg (ne_of_isWs hc rfl), hatom]
      rfl

/-- A closing bracket behind white space. -/
theorem tail_skipWs_append {s : Str} {c : Char} (h : (skipWs s).head? = some c) :
    (skipWs (s ++ r)).tail = (skipWs s).tail ++ r := by
  rw [skipWs_append hr]
  cases hs : skipWs s with
  | nil =>
    rw [hs] at h
    cases h
  | cons d ds => rfl

/-- A sequence behind white space. -/
theorem scanSeq_skipWs_append {α : Type} {close : Char} {item item' : Str → Option (α × Str)}
    {s : Str} (hitem : ∀ t : Str, t.length ≤ s.length → item' (t ++ r) = (item t).map (behind r))
    (hless : ∀ t x rest, item t = some (x, rest) → rest.length < t.length)
    (hnil : item [] = none) (hnil' : item' [] = none) :
    scanSeq close item' (s ++ r).length (skipWs (s ++ r)) =
      (scanSeq close item s.length (skipWs s)).map (behind r) := by
  have hskip := length_skipWs s
  rw [skipWs_append hr]
  by_cases hempty : skipWs s = []
  · rw [if_pos hempty, hempty, scanSeq_nil hnil, scanSeq_nil hnil']
    rfl
  · rw [if_neg hempty]
    refine scanSeq_append hr (fun t ht => hitem t (ht.trans hskip)) hless hnil' hskip ?_
    rw [List.length_append]
    omega

/-- **White space behind a value** stays behind it, and any fuel is enough. -/
theorem scanOnce_append {n m : ℕ} {s : Str} (hn : s.length ≤ n) (hm : s.length ≤ m) :
    scanOnce ft m (s ++ r) = (scanOnce ft n s).map (behind r) := by
  induction n generalizing m s with
  | zero =>
    obtain rfl := List.length_eq_zero_iff.mp (Nat.le_zero.mp hn)
    rw [List.nil_append, scanOnce_space hr, scanOnce_nil]
    rfl
  | succ n ih =>
    cases s with
    | nil =>
      rw [List.nil_append, scanOnce_space hr, scanOnce_nil]
      rfl
    | cons c cs =>
      rw [List.length_cons] at hn hm
      obtain ⟨m, rfl⟩ := Nat.exists_eq_succ_of_ne_zero (Nat.ne_of_gt (Nat.lt_of_lt_of_le
        (Nat.succ_pos _) hm))
      have hvalue : ∀ t : Str, t.length ≤ cs.length →
          scanOnce ft m (t ++ r) = (scanOnce ft n t).map (behind r) := fun t ht =>
        ih (by omega) (by omega)
      have hempty : ∀ close : Char, (skipWs (cs ++ r)).head? = some close ↔
          (skipWs cs).head? = some close := by
        intro close
        rw [skipWs_append hr]
        cases skipWs cs with
        | nil => exact Iff.rfl
        | cons d ds => exact Iff.rfl
      rw [List.cons_append, scanOnce, scanOnce]
      simp only [hempty, scanString_append hr]
      split_ifs with hquote hbrace hend hbracket hend
      · cases scanString cs <;> rfl
      · rw [tail_skipWs_append hr hend]
        rfl
      · have hitem : ∀ t : Str, t.length ≤ cs.length → scanField (scanOnce ft m) (t ++ r) =
            (scanField (scanOnce ft n) t).map (behind r) := fun t ht =>
          scanField_append hr (fun u hu => hvalue u (hu.trans ht)) (scanOnce_nil n) (scanOnce_nil m)
        rw [scanSeq_skipWs_append hr hitem
          (fun t f rest hf => length_scanField (fun t v rest hv => length_scanOnce hv) hf) rfl rfl]
        cases scanSeq '}' (scanField (scanOnce ft n)) cs.length (skipWs cs) <;> rfl
      · rw [tail_skipWs_append hr hend]
        rfl
      · rw [scanSeq_skipWs_append hr hvalue (fun t v rest hv => length_scanOnce hv)
          (scanOnce_nil n) (scanOnce_nil m)]
        cases scanSeq ']' (scanOnce ft n) cs.length (skipWs cs) <;> rfl
      · rw [← List.cons_append, scanAtom_append hr]

end Behind

/-! ## `loads` -/

/-- A sequence ends with its bracket. -/
theorem scanSeq_close {α : Type} {close : Char} {item : Str → Option (α × Str)}
    (hitem : ∀ t x rest, item t = some (x, rest) → rest <:+ t) {n : ℕ} {s rest : Str} {xs : List α}
    (h : scanSeq close item n s = some (xs, rest)) : close :: rest <:+ s := by
  have hskip : ∀ t : Str, skipWs t <:+ t := fun t => List.dropWhile_suffix isWs
  induction n generalizing s xs with
  | zero => cases h
  | succ n ih =>
    rw [scanSeq, Option.bind_eq_some_iff] at h
    obtain ⟨⟨x, r⟩, hx, h⟩ := h
    have hr : skipWs r <:+ s := (hskip r).trans (hitem s x r hx)
    cases hrest : skipWs r with
    | nil =>
      simp only [hrest] at h
      cases h
    | cons c cs =>
      simp only [hrest] at h
      rw [hrest] at hr
      split_ifs at h with hclose
      · cases h
        exact hclose ▸ hr
      · rw [Option.map_eq_some_iff] at h
        obtain ⟨⟨ys, r'⟩, hys, h⟩ := h
        cases h
        exact (ih hys).trans ((hskip cs).trans ((List.suffix_cons c cs).trans hr))

/-- The text of an object ends with a brace. -/
theorem scanOnce_close {n : ℕ} {s rest : Str} {fields : List (Str × Json)}
    (h : scanOnce ft n s = some (.obj fields, rest)) : '}' :: rest <:+ s := by
  have hsuffix : ∀ {t u rest : Str}, t = u ++ rest → rest <:+ t := fun h => ⟨_, h.symm⟩
  have hcs : ∀ (c : Char) (cs : Str), skipWs cs <:+ c :: cs := fun c cs =>
    (List.dropWhile_suffix isWs).trans (List.suffix_cons c cs)
  cases s with
  | nil =>
    rw [scanOnce_nil] at h
    cases h
  | cons c cs =>
    cases n with
    | zero => cases h
    | succ n =>
      rw [scanOnce] at h
      split_ifs at h with hquote hbrace hend hbracket hend
      · rw [Option.map_eq_some_iff] at h
        obtain ⟨k, -, h⟩ := h
        cases h
      · cases h
        have hcons : skipWs cs = '}' :: (skipWs cs).tail := by
          cases hs : skipWs cs with
          | nil => rw [hs] at hend; cases hend
          | cons d ds => rw [hs] at hend; cases hend; rfl
        rw [← hcons]
        exact hcs c cs
      · rw [Option.map_eq_some_iff] at h
        obtain ⟨⟨pairs, r⟩, hpairs, h⟩ := h
        cases h
        refine (scanSeq_close (fun t f rest hf => ?_) hpairs).trans (hcs c cs)
        obtain ⟨u, hu, -⟩ := scanField_reads (fun s v rest hv => scanOnce_reads hv) hf
        exact hsuffix hu
      · cases h
      · rw [Option.map_eq_some_iff] at h
        obtain ⟨p, -, h⟩ := h
        cases h
      · exact absurd (scanAtom_reads h).1 (Nat.succ_ne_zero _)

/-- **`json.loads(s.strip())`** of the text of an object. -/
theorem loads_strip {s : Str} {fields : List (Str × Json)} (h : loads ft s = some (.obj fields)) :
    loads ft (strip s) = some (.obj fields) := by
  have hspace : ∀ c, isWs c = true → isSpace c = true := by
    intro c hc
    simp only [isWs, decide_eq_true_eq] at hc
    rcases hc with rfl | rfl | rfl | rfl <;> rfl
  have hhead := head_of_loads_obj h
  rw [loads, Option.bind_eq_some_iff] at h
  obtain ⟨⟨v, rest⟩, hv, h⟩ := h
  simp only at h
  split_ifs at h with hrest
  cases h
  have hws : ∀ c ∈ rest, isWs c = true := List.dropWhile_eq_nil_iff.mp hrest
  obtain ⟨t, ht⟩ := scanOnce_close hv
  obtain ⟨w, hw, hwws⟩ := exists_skipWs s
  have hcore : skipWs s = (t ++ ['}']) ++ rest := by
    rw [← ht, List.append_assoc]
    rfl
  generalize hc : t ++ ['}'] = core at hcore
  have hcorehead : core.head? = some '{' := by
    rw [hcore] at hhead
    cases core with
    | nil => cases t <;> cases hc
    | cons c cs => exact hhead
  have hstrip : strip s = core := by
    rw [hw, hcore, strip_append (fun c hc => hspace c (hwws c hc)) fun c hc => hspace c (hws c hc)]
    refine strip_eq_self (fun c hc => ?_) (fun c hlast => ?_)
    · rw [hcorehead] at hc
      cases hc
      rfl
    · rw [← hc, List.getLast?_concat] at hlast
      cases hlast
      rfl
  have hskip : skipWs core = core := by
    obtain ⟨c, cs, rfl⟩ := List.exists_cons_of_ne_nil (l := core) (by rintro rfl; cases hcorehead)
    cases hcorehead
    exact skipWs_cons rfl cs
  have hlen : core.length ≤ s.length := by
    have := congrArg List.length hcore
    rw [List.length_append] at this
    have := length_skipWs s
    omega
  rw [hcore, scanOnce_append hws (le_refl core.length) hlen, Option.map_eq_some_iff] at hv
  obtain ⟨p, hp, hbehind⟩ := hv
  have hnil : p.2 = [] := by
    have := congrArg Prod.snd hbehind
    exact List.append_left_eq_self.mp this
  rw [hstrip, loads, hskip, hp, Option.bind_some, hnil]
  exact congrArg (fun p : Json × Str => some p.1) hbehind

/-! ## What is read -/

theorem scanSeq_forall {α : Type} {close : Char} {item : Str → Option (α × Str)} {P : α → Prop}
    (hitem : ∀ t x rest, item t = some (x, rest) → P x) {n : ℕ} {s rest : Str} {xs : List α}
    (h : scanSeq close item n s = some (xs, rest)) : ∀ x ∈ xs, P x := by
  induction n generalizing s xs with
  | zero => cases h
  | succ n ih =>
    rw [scanSeq, Option.bind_eq_some_iff] at h
    obtain ⟨⟨x, r⟩, hx, h⟩ := h
    have hfirst := hitem s x r hx
    cases hrest : skipWs r with
    | nil =>
      simp only [hrest] at h
      cases h
    | cons c cs =>
      simp only [hrest] at h
      split_ifs at h
      · cases h
        intro y hy
        rw [List.mem_singleton.mp hy]
        exact hfirst
      · rw [Option.map_eq_some_iff] at h
        obtain ⟨⟨ys, r'⟩, hys, h⟩ := h
        cases h
        exact List.forall_mem_cons.mpr ⟨hfirst, ih hys⟩

theorem canonical_of_scanField {value : Str → Option (Json × Str)}
    (hvalue : ∀ t v rest, value t = some (v, rest) → Canonical ft v) {s rest : Str}
    {f : Str × Json} (h : scanField value s = some (f, rest)) : Canonical ft f.2 := by
  cases s with
  | nil => cases h
  | cons c cs =>
    rw [scanField] at h
    split_ifs at h
    rw [Option.bind_eq_some_iff] at h
    obtain ⟨k, -, h⟩ := h
    cases hr : skipWs k.2 with
    | nil =>
      simp only [hr] at h
      cases h
    | cons c' cs' =>
      simp only [hr] at h
      split_ifs at h
      rw [Option.map_eq_some_iff] at h
      obtain ⟨⟨v, r'⟩, hv, h⟩ := h
      cases h
      exact hvalue _ _ _ hv

theorem canonical_of_scanAtom {s rest : Str} {v : Json} (h : scanAtom ft s = some (v, rest)) :
    Canonical ft v := by
  unfold scanAtom at h
  split at h
  · rename_i e he
    cases h
    have hmem := List.mem_of_find?_eq_some he
    rw [constants, List.mem_append, List.mem_map] at hmem
    rcases hmem with hmem | ⟨t, ht, rfl⟩
    · simp only [List.mem_cons, List.not_mem_nil, or_false] at hmem
      rcases hmem with rfl | rfl | rfl
      · exact .null
      · exact .bool true
      · exact .bool false
    · exact .float (.inl ht)
  · rw [scanNumber, Option.map_eq_some_iff] at h
    obtain ⟨⟨⟨sign, int, frac⟩, r⟩, hparts, h⟩ := h
    cases h
    simp only
    split_ifs with hfrac
    · exact .int _
    · exact .int _
    · have hlit : IsFloatLit (sign ++ (int ++ frac)) := by
        refine ⟨sign, int, frac, ?_, hfrac⟩
        have hfollows : Follows [] := fun c hc => absurd hc (by simp)
        have := numberParts_append (exists_shape hparts).1 hfollows
        rwa [List.append_nil] at this
      exact .float (ft.text_spec _ hlit)

theorem canonical_of_scanOnce {n : ℕ} {s rest : Str} {v : Json}
    (h : scanOnce ft n s = some (v, rest)) : Canonical ft v := by
  induction n generalizing s v rest with
  | zero => cases s <;> cases h
  | succ n ih =>
    cases s with
    | nil => cases h
    | cons c cs =>
      rw [scanOnce] at h
      split_ifs at h
      · rw [Option.map_eq_some_iff] at h
        obtain ⟨k, -, h⟩ := h
        cases h
        exact .str _
      · cases h
        exact .obj List.nodup_nil fun f hf => absurd hf List.not_mem_nil
      · rw [Option.map_eq_some_iff] at h
        obtain ⟨⟨pairs, r⟩, hpairs, h⟩ := h
        cases h
        have hall : ∀ f ∈ pairs, Canonical ft f.2 := scanSeq_forall
          (fun t f rest hf => canonical_of_scanField (fun t v rest hv => ih hv) hf) hpairs
        exact .obj (ofPairs pairs).nodup fun f hf => hall f (mem_ofPairs hf)
      · cases h
        exact .arr fun x hx => absurd hx List.not_mem_nil
      · rw [Option.map_eq_some_iff] at h
        obtain ⟨⟨xs, r⟩, hxs, h⟩ := h
        cases h
        exact .arr (scanSeq_forall (fun t v rest hv => ih hv) hxs)
      · exact canonical_of_scanAtom h

/-- **What `json.loads` returns.** -/
theorem canonical_of_loads {s : Str} {v : Json} (h : loads ft s = some v) : Canonical ft v := by
  rw [loads, Option.bind_eq_some_iff] at h
  obtain ⟨⟨v', r⟩, hv, h⟩ := h
  simp only at h
  split_ifs at h
  cases h
  exact canonical_of_scanOnce hv

end PyJson
