import JobSystem.Lib.Text

/-!
# Heads of messages

The head of a message is some lines with a separator of two letters between them, and ends where the
separator comes twice.

* `splitOnce_skip`: text without the first letter of a separator;
* **`splitOnce_intercalate`**: the head is found, whatever follows;
* **`splitMax_intercalate`**: its lines are read back;
* `encodeUtf8_intercalate`; `strip_natStr`: the value of a header with a number.
-/

namespace PyText

section Heads

variable {α : Type} [DecidableEq α] {a b : α}

/-- Text without the first letter of the separator is skipped. -/
theorem splitOnce_skip {sep line : List α} (h : a ∉ line) (rest : List α) :
    splitOnce (a :: sep) (line ++ rest) =
      (splitOnce (a :: sep) rest).map fun p => (line ++ p.1, p.2) := by
  induction line with
  | nil =>
    show _ = (splitOnce (a :: sep) rest).map id
    rw [Option.map_id]
    rfl
  | cons c line ih =>
    have hc : a ≠ c := fun e => h (by simp [e])
    have hl : a ∉ line := fun hm => h (List.mem_cons_of_mem _ hm)
    rw [List.cons_append, splitOnce, if_neg (by simp [hc]), ih hl, Option.map_map]
    rfl

/-- **The head is found**: its lines are not empty and do not have the first letter of the separator. -/
theorem splitOnce_intercalate (hab : a ≠ b) {lines : List (List α)} (hne : lines ≠ [])
    (h : ∀ line ∈ lines, line ≠ [] ∧ a ∉ line) (rest : List α) :
    splitOnce [a, b, a, b] ([a, b].intercalate lines ++ ([a, b, a, b] ++ rest)) =
      some ([a, b].intercalate lines, rest) := by
  induction lines with
  | nil => exact absurd rfl hne
  | cons line lines ih =>
    have hline := (h line List.mem_cons_self).2
    cases lines with
    | nil =>
      rw [List.intercalate_singleton]
      exact splitOnce_append hline rest
    | cons line' lines =>
      have hrest := ih (List.cons_ne_nil _ _) fun l hl => h l (List.mem_cons_of_mem _ hl)
      obtain ⟨hne', hline'⟩ := h line' (List.mem_cons_of_mem _ List.mem_cons_self)
      obtain ⟨c, cs, rfl⟩ := List.exists_cons_of_ne_nil hne'
      have hc : a ≠ c := fun e => hline' (by simp [e])
      -- the separator between two lines is not the end of the head
      obtain ⟨more, hmore⟩ : ∃ more, [a, b].intercalate ((c :: cs) :: lines) = c :: more := by
        cases lines with
        | nil => exact ⟨cs, List.intercalate_singleton⟩
        | cons l ls => exact ⟨_, List.intercalate_cons_cons.trans (by rw [List.cons_append, List.cons_append])⟩
      rw [hmore] at hrest
      rw [List.intercalate_cons_cons, hmore]
      simp only [List.append_assoc]
      rw [splitOnce_skip hline]
      simp only [List.cons_append, List.nil_append] at hrest ⊢
      rw [splitOnce, if_neg (by simp [hc]), splitOnce, if_neg (by simp [hab]), hrest]
      rfl

/-- **The lines of a head** are read back. -/
theorem splitMax_intercalate {lines : List (List α)} (hne : lines ≠ [])
    (h : ∀ line ∈ lines, a ∉ line) {n : ℕ} (hn : lines.length ≤ n + 1) :
    splitMax [a, b] n ([a, b].intercalate lines) = lines := by
  induction lines generalizing n with
  | nil => exact absurd rfl hne
  | cons line lines ih =>
    have hline := h line List.mem_cons_self
    cases lines with
    | nil =>
      rw [List.intercalate_singleton]
      cases n with
      | zero => rfl
      | succ n => rw [splitMax, splitOnce_eq_none_of_notMem hline]
    | cons line' lines =>
      obtain ⟨n, rfl⟩ : ∃ m, n = m + 1 := Nat.exists_eq_succ_of_ne_zero fun h0 => by
        subst h0
        simp at hn
      have hfirst : splitOnce [a, b] ([a, b].intercalate (line :: line' :: lines)) =
          some (line, [a, b].intercalate (line' :: lines)) := by
        rw [List.intercalate_cons_cons, List.append_assoc]
        exact splitOnce_append hline _
      rw [splitMax, hfirst]
      dsimp only
      rw [ih (List.cons_ne_nil _ _) (fun l hl => h l (List.mem_cons_of_mem _ hl))
        (by simpa using hn)]

omit [DecidableEq α] in
theorem length_le_length_intercalate (lines : List (List α)) :
    lines.length ≤ ([a, b].intercalate lines).length + 1 := by
  induction lines with
  | nil => exact Nat.zero_le _
  | cons line lines ih =>
    cases lines with
    | nil => exact Nat.le_add_left 1 _
    | cons line' lines =>
      rw [List.intercalate_cons_cons, List.length_append, List.length_append, List.length_cons]
      rw [List.length_cons (a := a)]
      omega

end Heads

theorem encodeUtf8_intercalate (sep : Str) (lines : List Str) :
    encodeUtf8 (sep.intercalate lines) = (encodeUtf8 sep).intercalate (lines.map encodeUtf8) := by
  induction lines with
  | nil => rfl
  | cons line lines ih =>
    cases lines with
    | nil => rw [List.intercalate_singleton, List.map_singleton, List.intercalate_singleton]
    | cons line' lines =>
      rw [List.intercalate_cons_cons, List.map_cons, List.map_cons, List.intercalate_cons_cons,
        encodeUtf8_append, encodeUtf8_append, ih, List.map_cons]

/-- A number has no white space around it. -/
theorem strip_natStr (n : ℕ) : strip (natStr n) = natStr n := by
  have hdigit : ∀ c ∈ natStr n, isSpace c = false := by
    intro c hc
    obtain ⟨hlow, hhigh⟩ := toNat_of_isDigit (isDigit_of_mem_natStr hc)
    rw [isSpace, decide_eq_false_iff_not]
    omega
  exact strip_eq_self (fun c hc => hdigit c (List.mem_of_mem_head? hc))
    fun c hc => hdigit c (List.mem_of_mem_getLast? hc)

end PyText
