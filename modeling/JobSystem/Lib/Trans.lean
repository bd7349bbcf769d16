import Mathlib

/-!
# Guarded runs of labelled machines

A machine takes a label and a state to the next state, or refuses. A run is a list of labels; a
run is guarded when a condition on each label and the state before it holds at every step.

* `run`, `Guarded`, `guarded_append`, `guarded_iff_forall`;
* **`run_invariant`**: what every guarded step keeps holds after every guarded run.
* **`run_invariant_iff`**: when a step keeps the invariant exactly if its guard holds, the
  invariant holds all along a run exactly if the run is guarded.
-/

namespace Trans

variable {σ Λ : Type}

/-- A partial transition function. -/
abbrev Machine (σ Λ : Type) := Λ → σ → Option σ

/-- The state after a list of labels. -/
def run (M : Machine σ Λ) : List Λ → σ → Option σ
  | [], s => some s
  | l :: ls, s => (M l s).bind (run M ls)

/-- Every step of the run from `s` meets `G` in the state it starts from. -/
def Guarded (M : Machine σ Λ) (G : σ → Λ → Prop) : List Λ → σ → Prop
  | [], _ => True
  | l :: ls, s => G s l ∧ ∀ s', M l s = some s' → Guarded M G ls s'

variable {M : Machine σ Λ} {G : σ → Λ → Prop}

/-- A guard can be checked along a run. -/
instance decidableGuarded [∀ s l, Decidable (G s l)] :
    (ls : List Λ) → (s : σ) → Decidable (Guarded M G ls s)
  | [], _ => isTrue trivial
  | l :: ls, s =>
    match hl : M l s with
    | none => decidable_of_iff (G s l) (by simp [Guarded, hl])
    | some s' =>
      have := decidableGuarded ls s'
      decidable_of_iff (G s l ∧ Guarded M G ls s') (by simp [Guarded, hl])

@[simp] theorem run_nil (s : σ) : run M [] s = some s := rfl

theorem run_cons (l : Λ) (ls : List Λ) (s : σ) : run M (l :: ls) s = (M l s).bind (run M ls) := rfl

theorem run_cons_eq_some {l : Λ} {ls : List Λ} {s t : σ} :
    run M (l :: ls) s = some t ↔ ∃ s', M l s = some s' ∧ run M ls s' = some t := by
  rw [run_cons, Option.bind_eq_some_iff]

theorem run_append_eq_some {ls ls' : List Λ} {s t : σ} :
    run M (ls ++ ls') s = some t ↔ ∃ s', run M ls s = some s' ∧ run M ls' s' = some t := by
  induction ls generalizing s with
  | nil => simp
  | cons l ls ih =>
    simp only [List.cons_append, run_cons_eq_some, ih]
    constructor
    · rintro ⟨s₁, hl, s₂, hr, hr'⟩
      exact ⟨s₂, ⟨s₁, hl, hr⟩, hr'⟩
    · rintro ⟨s₂, ⟨s₁, hl, hr⟩, hr'⟩
      exact ⟨s₁, hl, s₂, hr, hr'⟩

theorem guarded_append {ls ls' : List Λ} {s : σ} : Guarded M G (ls ++ ls') s ↔
    Guarded M G ls s ∧ ∀ s', run M ls s = some s' → Guarded M G ls' s' := by
  induction ls generalizing s with
  | nil => simp [Guarded]
  | cons l ls ih =>
    simp only [List.cons_append, Guarded, ih, run_cons_eq_some]
    constructor
    · rintro ⟨h₁, h₂⟩
      exact ⟨⟨h₁, fun s' hs => (h₂ s' hs).1⟩, fun s' ⟨s₁, hs₁, hr⟩ => (h₂ s₁ hs₁).2 s' hr⟩
    · rintro ⟨⟨h₁, h₂⟩, h₃⟩
      exact ⟨h₁, fun s₁ hs₁ => ⟨h₂ s₁ hs₁, fun s' hr => h₃ s' ⟨s₁, hs₁, hr⟩⟩⟩

/-- A run is guarded when the guard holds after every prefix, for the label that follows it. -/
theorem guarded_iff_forall {ls : List Λ} {s : σ} : Guarded M G ls s ↔
    ∀ p l t, p ++ [l] <+: ls → run M p s = some t → G t l := by
  induction ls generalizing s with
  | nil =>
    refine ⟨fun _ p l t hp => ?_, fun _ => trivial⟩
    have := List.prefix_nil.mp hp
    simp at this
  | cons l₀ ls ih =>
    constructor
    · rintro ⟨h₁, h₂⟩ p l t hp hr
      cases p with
      | nil =>
        cases hr
        obtain ⟨rfl, -⟩ := List.cons_prefix_cons.mp hp
        exact h₁
      | cons l₁ p =>
        obtain ⟨rfl, hp'⟩ := List.cons_prefix_cons.mp hp
        obtain ⟨s', hl, hr⟩ := run_cons_eq_some.mp hr
        exact ih.mp (h₂ s' hl) p l t hp' hr
    · intro h
      refine ⟨h [] l₀ s (by simp) rfl, fun s' hs' => ih.mpr fun p l t hp hr => ?_⟩
      exact h (l₀ :: p) l t (List.cons_prefix_cons.mpr ⟨rfl, hp⟩)
        (run_cons_eq_some.mpr ⟨s', hs', hr⟩)

/-- Every run is guarded by `True`. -/
theorem guarded_true (ls : List Λ) (s : σ) : Guarded M (fun _ _ => True) ls s := by
  induction ls generalizing s with
  | nil => trivial
  | cons l ls ih => exact ⟨trivial, fun s' _ => ih s'⟩

theorem Guarded.mono {G' : σ → Λ → Prop} {ls : List Λ} {s : σ} (h : Guarded M G ls s)
    (himp : ∀ s l, G s l → G' s l) : Guarded M G' ls s := by
  induction ls generalizing s with
  | nil => trivial
  | cons l ls ih => exact ⟨himp s l h.1, fun s' hs => ih (h.2 s' hs)⟩

theorem Guarded.and {G' : σ → Λ → Prop} {ls : List Λ} {s : σ} (h : Guarded M G ls s)
    (h' : Guarded M G' ls s) : Guarded M (fun s l => G s l ∧ G' s l) ls s := by
  induction ls generalizing s with
  | nil => trivial
  | cons l ls ih => exact ⟨⟨h.1, h'.1⟩, fun s' hs => ih (h.2 s' hs) (h'.2 s' hs)⟩

/-- A condition on the labels of a run may join its guard. -/
theorem Guarded.and_label {p : Λ → Prop} {ls : List Λ} {s : σ} (h : Guarded M G ls s)
    (hp : ∀ l ∈ ls, p l) : Guarded M (fun s l => G s l ∧ p l) ls s := by
  induction ls generalizing s with
  | nil => trivial
  | cons l ls ih =>
    refine ⟨⟨h.1, hp l List.mem_cons_self⟩, fun s' hs => ih (h.2 s' hs) fun l' hl => ?_⟩
    exact hp l' (List.mem_cons_of_mem _ hl)

/-- **The invariant rule.** -/
theorem run_invariant {I : σ → Prop}
    (hstep : ∀ l s s', I s → G s l → M l s = some s' → I s') {ls : List Λ} {s t : σ}
    (hs : I s) (hg : Guarded M G ls s) (hr : run M ls s = some t) : I t := by
  induction ls generalizing s with
  | nil => cases hr; exact hs
  | cons l ls ih =>
    obtain ⟨s', hl, hr⟩ := run_cons_eq_some.mp hr
    exact ih (hstep l s s' hs hg.1 hl) (hg.2 s' hl) hr

/-- **The exact invariant rule.** The auxiliary invariant `J` may depend on `I` holding so far;
`P` is the property of the states that the guard characterises. -/
theorem run_invariant_iff {J P : σ → Prop}
    (hJ : ∀ l s s', J s → P s → M l s = some s' → P s' → J s')
    (hP : ∀ l s s', J s → P s → M l s = some s' → (P s' ↔ G s l))
    (hen : ∀ l s, M l s = none → J s → P s → G s l) {ls : List Λ} {s : σ} (hs : J s)
    (hPs : P s) : (∀ p t, p <+: ls → run M p s = some t → P t) ↔ Guarded M G ls s := by
  induction ls generalizing s with
  | nil =>
    refine ⟨fun _ => trivial, fun _ p t hp hr => ?_⟩
    rw [List.prefix_nil.mp hp] at hr
    cases hr
    exact hPs
  | cons l ls ih =>
    constructor
    · intro h
      cases hl : M l s with
      | none => exact ⟨hen l s hl hs hPs, fun s' hs' => by rw [hl] at hs'; cases hs'⟩
      | some s₁ =>
        have hP₁ : P s₁ := h [l] s₁ (by simp) (by simp [run_cons, hl])
        refine ⟨(hP l s s₁ hs hPs hl).mp hP₁, fun s' hs' => ?_⟩
        rw [hl] at hs'
        cases hs'
        refine (ih (hJ l s s₁ hs hPs hl hP₁) hP₁).mp fun p t hp hr => ?_
        exact h (l :: p) t (List.cons_prefix_cons.mpr ⟨rfl, hp⟩) (by rw [run_cons, hl]; exact hr)
    · rintro ⟨hg, hrest⟩ p t hp hr
      cases p with
      | nil => cases hr; exact hPs
      | cons l' p =>
        obtain ⟨rfl, hp'⟩ := List.cons_prefix_cons.mp hp
        obtain ⟨s₁, hl, hr⟩ := run_cons_eq_some.mp hr
        have hP₁ := (hP l' s s₁ hs hPs hl).mpr hg
        exact (ih (hJ l' s s₁ hs hPs hl hP₁) hP₁).mpr (hrest s₁ hl) p t hp' hr

end Trans
