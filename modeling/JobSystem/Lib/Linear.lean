import Mathlib

/-!
# Linearizable objects

Calls of many processes on one object overlap. A call begins, takes effect at one moment, and may
return. One that never returns may take effect at any time after it began, or not at all.

* `Object`, `results`: an object, and what a list of operations returns on it, one at a time;
* `Moment`, `effects`: a run, and the operations in the order in which they take effect;
* `Linearizes`: an order of operations explains what the calls of a run return, and keeps to the
  order of calls that do not overlap;
* `Pointed`: a run in which each call takes effect between its begin and its return, and returns what
  the operation does then;
* **`linearizes_effects`**: the order of the effects explains such a run.
-/

namespace Linear

variable {ι σ Op Res : Type}

/-! ## Objects -/

/-- An operation takes a state to the next one and returns a result. -/
abbrev Object (σ Op Res : Type) := Op → σ → σ × Res

/-- The state after some calls, one at a time. -/
def after (O : Object σ Op Res) (s : σ) (calls : List (ι × Op)) : σ :=
  calls.foldl (fun s call => (O call.2 s).1) s

/-- What the calls return, one at a time. -/
def results (O : Object σ Op Res) : σ → List (ι × Op) → List (ι × Res)
  | _, [] => []
  | s, call :: calls => (call.1, (O call.2 s).2) :: results O (O call.2 s).1 calls

section Results

variable (O : Object σ Op Res)

theorem after_concat (s : σ) (calls : List (ι × Op)) (call : ι × Op) :
    after O s (calls ++ [call]) = (O call.2 (after O s calls)).1 :=
  List.foldl_append

theorem results_concat (s : σ) (calls : List (ι × Op)) (call : ι × Op) :
    results O s (calls ++ [call]) =
      results O s calls ++ [(call.1, (O call.2 (after O s calls)).2)] := by
  induction calls generalizing s with
  | nil => rfl
  | cons first calls ih =>
    rw [List.cons_append, results, ih]
    rfl

theorem map_fst_results (s : σ) (calls : List (ι × Op)) :
    (results O s calls).map Prod.fst = calls.map Prod.fst := by
  induction calls generalizing s with
  | nil => rfl
  | cons call calls ih => rw [results, List.map_cons, ih, List.map_cons]

variable {O}

/-- A result is that of its call, after those before it. -/
theorem mem_results {s : σ} {calls : List (ι × Op)} {i : ι} {res : Res}
    (h : (i, res) ∈ results O s calls) : ∃ before op rest, calls = before ++ (i, op) :: rest ∧
      res = (O op (after O s before)).2 := by
  induction calls generalizing s with
  | nil => cases h
  | cons call calls ih =>
    rcases List.mem_cons.mp h with heq | hmem
    · cases heq
      exact ⟨[], call.2, calls, rfl, rfl⟩
    · obtain ⟨before, op, rest, rfl, hres⟩ := ih hmem
      exact ⟨call :: before, op, rest, rfl, hres⟩

end Results

/-! ## Runs -/

/-- What happens to a call. -/
inductive Moment (ι Op Res : Type) where
  | begin_ (i : ι) (op : Op)
  | effect (i : ι) (op : Op)
  | return_ (i : ι) (res : Res)

/-- The calls in the order in which they take effect. -/
def effects (run : List (Moment ι Op Res)) : List (ι × Op) :=
  run.filterMap fun
    | .effect i op => some (i, op)
    | _ => none

/-- One moment is before another. -/
def Precedes (run : List (Moment ι Op Res)) (m m' : Moment ι Op Res) : Prop :=
  [m, m'].Sublist run

/-- An order of calls explains a run: it has each call at most once and only calls that began, what
the calls return is what they return in this order, one at a time, and a call that began after
another had returned comes later. -/
structure Linearizes (O : Object σ Op Res) (s : σ) (run : List (Moment ι Op Res))
    (order : List (ι × Op)) : Prop where
  once : (order.map Prod.fst).Nodup
  began : ∀ i op, (i, op) ∈ order → .begin_ i op ∈ run
  returned : ∀ i res, .return_ i res ∈ run → (i, res) ∈ results O s order
  realTime : ∀ i res j op, Precedes run (.return_ i res) (.begin_ j op) →
    ∀ before op' rest, order = before ++ (j, op') :: rest → i ∈ before.map Prod.fst

/-- A call begins once; it takes effect at most once, after it began and before it returns; and it
returns what the operation does when it takes effect. -/
inductive Pointed (O : Object σ Op Res) (s : σ) : List (Moment ι Op Res) → Prop where
  | start : Pointed O s []
  | begin_ {run : List (Moment ι Op Res)} {i : ι} {op : Op} (h : Pointed O s run)
      (hnew : ∀ op', .begin_ i op' ∉ run) : Pointed O s (run ++ [.begin_ i op])
  | effect {run : List (Moment ι Op Res)} {i : ι} {op : Op} (h : Pointed O s run)
      (hbegan : .begin_ i op ∈ run) (hnew : i ∉ (effects run).map Prod.fst) :
      Pointed O s (run ++ [.effect i op])
  | return_ {run : List (Moment ι Op Res)} {i : ι} {res : Res} (h : Pointed O s run)
      (hres : (i, res) ∈ results O s (effects run)) : Pointed O s (run ++ [.return_ i res])

section Pointed

variable {O : Object σ Op Res} {s : σ} {run : List (Moment ι Op Res)}

theorem effects_append (run run' : List (Moment ι Op Res)) :
    effects (run ++ run') = effects run ++ effects run' :=
  List.filterMap_append

@[simp] theorem effects_begin (run : List (Moment ι Op Res)) (i : ι) (op : Op) :
    effects (run ++ [.begin_ i op]) = effects run := by
  rw [effects_append]
  exact List.append_nil _

@[simp] theorem effects_effect (run : List (Moment ι Op Res)) (i : ι) (op : Op) :
    effects (run ++ [.effect i op]) = effects run ++ [(i, op)] := by
  rw [effects_append]
  rfl

@[simp] theorem effects_return (run : List (Moment ι Op Res)) (i : ι) (res : Res) :
    effects (run ++ [.return_ i res]) = effects run := by
  rw [effects_append]
  exact List.append_nil _

/-- A call begins with one operation. -/
theorem Pointed.begin_unique (h : Pointed O s run) {i : ι} {op op' : Op}
    (hop : .begin_ i op ∈ run) (hop' : .begin_ i op' ∈ run) : op = op' := by
  induction h with
  | start => cases hop
  | begin_ h hnew ih =>
    rcases List.mem_append.mp hop with hold | hlast
    · rcases List.mem_append.mp hop' with hold' | hlast'
      · exact ih hold hold'
      · cases List.mem_singleton.mp hlast'
        exact absurd hold (hnew op)
    · cases List.mem_singleton.mp hlast
      rcases List.mem_append.mp hop' with hold' | hlast'
      · exact absurd hold' (hnew op')
      · cases List.mem_singleton.mp hlast'
        rfl
  | effect h hbegan hnew ih =>
    exact ih (by simpa using hop) (by simpa using hop')
  | return_ h hres ih =>
    exact ih (by simpa using hop) (by simpa using hop')

/-- What is before a moment, with one more moment behind. -/
theorem precedes_concat {m m' last : Moment ι Op Res} :
    Precedes (run ++ [last]) m m' ↔ Precedes run m m' ∨ m ∈ run ∧ m' = last := by
  unfold Precedes
  constructor
  · intro h
    rw [List.sublist_append_iff] at h
    obtain ⟨l₁, l₂, heq, h₁, h₂⟩ := h
    rcases List.sublist_singleton.mp h₂ with rfl | rfl
    · rw [List.append_nil] at heq
      exact Or.inl (heq ▸ h₁)
    · obtain ⟨rfl, hlast⟩ : l₁ = [m] ∧ m' = last := by
        have hsplit : [m] ++ [m'] = l₁ ++ [last] := heq
        obtain ⟨h₁, h₂⟩ := List.append_inj' hsplit rfl
        exact ⟨h₁.symm, List.singleton_inj.mp h₂⟩
      exact Or.inr ⟨List.singleton_sublist.mp h₁, hlast⟩
  · rintro (h | ⟨hm, rfl⟩)
    · exact h.trans (List.sublist_append_left _ _)
    · exact (List.singleton_sublist.mpr hm).append (List.Sublist.refl _)

/-- **Linearization points.** The order of the effects explains a pointed run. -/
theorem linearizes_effects (h : Pointed O s run) : Linearizes O s run (effects run) := by
  induction h with
  | start =>
    exact ⟨List.nodup_nil, fun _ _ h => absurd h List.not_mem_nil,
      fun _ _ h => absurd h List.not_mem_nil, fun _ _ _ _ h => by cases h⟩
  | @begin_ run i op h hnew ih =>
    rw [effects_begin]
    refine ⟨ih.once, fun j op' hj => List.mem_append_left _ (ih.began j op' hj), ?_, ?_⟩
    · intro j res hj
      rcases List.mem_append.mp hj with hj | hj
      · exact ih.returned j res hj
      · cases List.mem_singleton.mp hj
    · intro j res k op' hpre before op'' rest horder
      rcases precedes_concat.mp hpre with hpre | ⟨-, hlast⟩
      · exact ih.realTime j res k op' hpre before op'' rest horder
      · -- a call that begins now has not taken effect
        cases hlast
        have hmem : (i, op'') ∈ effects run := by
          rw [horder]
          exact List.mem_append_right _ List.mem_cons_self
        exact absurd (ih.began i op'' hmem) (hnew op'')
  | @effect run i op h hbegan hnew ih =>
    rw [effects_effect]
    refine ⟨?_, ?_, ?_, ?_⟩
    · rw [List.map_append, List.nodup_append]
      refine ⟨ih.once, List.nodup_singleton _, fun j hj j' hj' => ?_⟩
      rw [List.mem_singleton.mp hj']
      rintro rfl
      exact hnew hj
    · intro j op' hj
      rcases List.mem_append.mp hj with hj | hj
      · exact List.mem_append_left _ (ih.began j op' hj)
      · cases List.mem_singleton.mp hj
        exact List.mem_append_left _ hbegan
    · intro j res hj
      rw [results_concat]
      rcases List.mem_append.mp hj with hj | hj
      · exact List.mem_append_left _ (ih.returned j res hj)
      · cases List.mem_singleton.mp hj
    · intro j res k op' hpre before op'' rest horder
      rcases precedes_concat.mp hpre with hpre | ⟨-, hlast⟩
      · rcases List.eq_nil_or_concat rest with rfl | ⟨rest, last, rfl⟩
        · -- the call takes effect now, the other one has returned
          obtain ⟨rfl, -⟩ := List.append_inj' horder rfl
          have hj : (j, res) ∈ results O s (effects run) :=
            ih.returned j res (hpre.subset List.mem_cons_self)
          rw [← map_fst_results O s]
          exact List.mem_map_of_mem hj
        · rw [List.concat_eq_append, ← List.cons_append, ← List.append_assoc] at horder
          exact ih.realTime j res k op' hpre before op'' rest (List.append_inj' horder rfl).1
      · cases hlast
  | @return_ run i res h hres ih =>
    rw [effects_return]
    refine ⟨ih.once, fun j op' hj => List.mem_append_left _ (ih.began j op' hj), ?_, ?_⟩
    · intro j res' hj
      rcases List.mem_append.mp hj with hj | hj
      · exact ih.returned j res' hj
      · cases List.mem_singleton.mp hj
        exact hres
    · intro j res' k op' hpre before op'' rest horder
      rcases precedes_concat.mp hpre with hpre | ⟨-, hlast⟩
      · exact ih.realTime j res' k op' hpre before op'' rest horder
      · cases hlast

end Pointed

end Linear
