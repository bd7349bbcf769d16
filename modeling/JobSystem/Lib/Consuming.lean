import Mathlib

/-!
# Recursion and loops that consume

A parser that calls itself on shorter texts only needs no deeper calls than the text is long, and a
loop whose rounds lower a measure ends.

* `fuel_congr`: enough fuel is any fuel above a measure;
* `Suffixes`, `Descends`, `fix`: the body of a recursive parser, and the parser;
  **`Descends.iterate_eq_fix`**: calls that are nested deeper than the text is long are never made;
* `Descends.fix_eq`, `Descends.eq_fix`: the recursion equation and its only solution;
* `Loop`, `Loop.Runs`, `Loop.EndsWithin`; **`Loop.endsWithin`**, **`Loop.Runs.countP_le`**: how many
  rounds a loop has.
-/

namespace Consuming

/-! ## Fuel -/

/-- **Fuel enough is fuel enough**: of two functions whose calls lower a measure alike, it does not
matter how much fuel above the measure each is given. -/
theorem fuel_congr {γ ρ : Type} {f g : ℕ → γ → ρ} (size : γ → ℕ)
    (hstep : ∀ n m x, (∀ y, size y < size x → f n y = g m y) → f (n + 1) x = g (m + 1) x)
    {n m : ℕ} {x : γ} (hn : size x < n) (hm : size x < m) : f n x = g m x := by
  induction n generalizing m x with
  | zero => omega
  | succ n ih =>
    cases m with
    | zero => omega
    | succ m => exact hstep n m x fun y hy => ih (by omega) (by omega)

/-! ## Recursive parsers -/

section Recursion

variable {α β : Type}

/-- A parser: a value and what is left of the text, or an exception. -/
abbrev Parser (α β : Type) := List α → Option (β × List α)

/-- What is left is an end of the text. -/
def Suffixes (p : Parser α β) : Prop := ∀ text r, p text = some r → r.2 <:+ text

/-- The body of a recursive parser, with the parser for its calls: it leaves suffixes if they do, and
calls on shorter texts only. -/
structure Descends (step : Parser α β → Parser α β) : Prop where
  suffixes : ∀ {p}, Suffixes p → Suffixes (step p)
  calls : ∀ {p q text}, Suffixes p → (∀ t, t.length < text.length → p t = q t) →
    step p text = step q text

/-- The recursive parser: the body, unrolled once more than the text is long. -/
def fix (step : Parser α β → Parser α β) : Parser α β := fun text =>
  step^[text.length + 1] (fun _ => none) text

namespace Descends

variable {step : Parser α β → Parser α β} (h : Descends step)

include h

theorem suffixes_iterate (n : ℕ) : Suffixes (step^[n] fun _ => none) := by
  induction n with
  | zero =>
    intro text r hr
    cases hr
  | succ n ih =>
    rw [Function.iterate_succ_apply']
    exact h.suffixes ih

theorem iterate_eq (deeper : Parser α β) {n m : ℕ} {text : List α} (hn : text.length < n)
    (hm : text.length < m) : (step^[n] fun _ => none) text = step^[m] deeper text := by
  refine fuel_congr (f := fun n => step^[n] fun _ => none) (g := fun m => step^[m] deeper)
    List.length (fun n m text ih => ?_) hn hm
  simp only [Function.iterate_succ_apply']
  exact h.calls (h.suffixes_iterate n) ih

/-- **No call is nested deeper than the text is long**: it does not matter what such calls would do. -/
theorem iterate_eq_fix (deeper : Parser α β) {n : ℕ} {text : List α} (hn : text.length < n) :
    step^[n] deeper text = fix step text :=
  (h.iterate_eq deeper (Nat.lt_succ_self _) hn).symm

/-- **The recursion equation.** -/
theorem fix_eq (text : List α) : fix step text = step (fix step) text := by
  rw [fix, Function.iterate_succ_apply']
  exact h.calls (h.suffixes_iterate _) fun t ht => h.iterate_eq_fix _ ht

theorem suffixes_fix : Suffixes (fix step) := fun _ _ hr => h.suffixes_iterate _ _ _ hr

/-- **The equation has one solution.** -/
theorem eq_fix {p : Parser α β} (hp : ∀ text, p text = step p text) : p = fix step := by
  have hfixed : step p = p := (funext hp).symm
  funext text
  rw [← h.iterate_eq_fix p (Nat.lt_succ_self _), Function.iterate_fixed hfixed]

end Descends

end Recursion

/-! ## Loops -/

/-- A `while` loop: its condition, and a round, which breaks off with an outcome or goes on. -/
structure Loop (σ β : Type) where
  again : σ → Bool
  round : σ → β ⊕ σ

namespace Loop

variable {σ β : Type} {l : Loop σ β}

/-- The loop runs through a list of states, one at the start of each round; it breaks off, or its
condition fails. -/
inductive Runs (l : Loop σ β) : σ → List σ → β ⊕ σ → Prop
  | ended {s : σ} (h : l.again s = false) : Runs l s [] (.inr s)
  | broken {s : σ} {b : β} (h : l.again s = true) (hround : l.round s = .inl b) :
      Runs l s [s] (.inl b)
  | next {s s' : σ} {states : List σ} {r : β ⊕ σ} (h : l.again s = true)
      (hround : l.round s = .inr s') (hrest : Runs l s' states r) : Runs l s (s :: states) r

/-- The loop ends, and after so many rounds at most. -/
def EndsWithin (l : Loop σ β) (s : σ) (bound : ℕ) : Prop :=
  (∃ states r, l.Runs s states r) ∧ ∀ states r, l.Runs s states r → states.length ≤ bound

section Measure

variable {m : σ → ℕ} (hdec : ∀ s s', l.again s = true → l.round s = .inr s' → m s' < m s)

include hdec

theorem exists_runs (s : σ) : ∃ states r, l.Runs s states r := by
  induction hn : m s using Nat.strong_induction_on generalizing s with
  | _ n ih =>
    subst hn
    cases hagain : l.again s with
    | false => exact ⟨_, _, .ended hagain⟩
    | true =>
      cases hround : l.round s with
      | inl b => exact ⟨_, _, .broken hagain hround⟩
      | inr s' =>
        obtain ⟨states, r, hrest⟩ := ih _ (hdec s s' hagain hround) s' rfl
        exact ⟨_, _, .next hagain hround hrest⟩

/-- **The rounds of a kind**, if the measure is positive where such a round starts. -/
theorem Runs.countP_le {kind : σ → Bool}
    (hpos : ∀ s, l.again s = true → kind s = true → 0 < m s) {s : σ} {states : List σ} {r : β ⊕ σ}
    (h : l.Runs s states r) : states.countP kind ≤ m s := by
  induction h with
  | ended hagain => exact Nat.zero_le _
  | @broken s b hagain hround =>
    rw [List.countP_singleton]
    split_ifs with hkind
    · exact hpos s hagain hkind
    · exact Nat.zero_le _
  | @next s s' states r hagain hround hrest ih =>
    have hlt := hdec s s' hagain hround
    rw [List.countP_cons]
    split_ifs <;> omega

/-- **A loop whose rounds lower a measure**, which is positive where a round starts, ends. -/
theorem endsWithin (hpos : ∀ s, l.again s = true → 0 < m s) (s : σ) : l.EndsWithin s (m s) := by
  refine ⟨exists_runs hdec s, fun states r h => ?_⟩
  have hall : states.countP (fun _ => true) ≤ m s :=
    h.countP_le hdec fun s hagain _ => hpos s hagain
  rwa [List.countP_true] at hall

end Measure

end Loop

end Consuming
