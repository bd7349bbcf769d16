import JobSystem.Lib.Trans

/-!
# Read-modify-write calls

Some calls on one shared record, each a read followed by a write of what the call makes of the reply.

* `Race`, `step`: the calls that have not read, have read, and have returned;
* `Fresh`: a write is the one that the call would make of the record as it is now;
* `applied_of_fresh`: such calls take effect one after the other.
-/

open Trans

/-- The record, and the calls by how far they are. -/
structure Race (ρ κ : Type) where
  record : ρ
  waiting : List κ
  replied : List (κ × ρ)
  returned : List κ

namespace Race

variable {ρ κ : Type}

/-- One call reads, or writes. -/
inductive Label where
  | get (i : ℕ)
  | set (i : ℕ)

/-- One read or write. -/
def step (apply : κ → ρ → ρ) : Machine (Race ρ κ) Label
  | .get i, s => s.waiting[i]?.map fun c =>
    { s with waiting := s.waiting.eraseIdx i, replied := s.replied ++ [(c, s.record)] }
  | .set i, s => s.replied[i]?.map fun p =>
    { s with
      record := apply p.1 p.2
      replied := s.replied.eraseIdx i
      returned := s.returned ++ [p.1] }

/-- Nothing has been read. -/
def start (record : ρ) (calls : List κ) : Race ρ κ := ⟨record, calls, [], []⟩

/-- The record after some calls, one after the other. -/
def applyAll (apply : κ → ρ → ρ) (record : ρ) (calls : List κ) : ρ :=
  calls.foldl (fun r c => apply c r) record

/-- A write makes of the reply what it would make of the record. -/
def Fresh (apply : κ → ρ → ρ) (s : Race ρ κ) : Label → Prop
  | .get _ => True
  | .set i => ∀ p, s.replied[i]? = some p → apply p.1 p.2 = apply p.1 s.record

/-- The returned calls have taken effect one after the other, and no call is lost. -/
structure Applied (apply : κ → ρ → ρ) (record : ρ) (calls : List κ) (s : Race ρ κ) : Prop where
  record_eq : s.record = applyAll apply record s.returned
  perm : (s.waiting ++ s.replied.map Prod.fst ++ s.returned).Perm calls

variable {apply : κ → ρ → ρ} {record : ρ} {calls : List κ}

theorem applied_start (apply : κ → ρ → ρ) (record : ρ) (calls : List κ) :
    Applied apply record calls (start record calls) where
  record_eq := rfl
  perm := by simp [start]

theorem applied_step (l : Label) (s s' : Race ρ κ) (h : Applied apply record calls s)
    (hg : Fresh apply s l) (hs : step apply l s = some s') : Applied apply record calls s' := by
  cases l with
  | get i =>
    obtain ⟨c, hc, rfl⟩ := Option.map_eq_some_iff.mp hs
    obtain ⟨hi, rfl⟩ := List.getElem?_eq_some_iff.mp hc
    refine ⟨h.record_eq, List.Perm.trans ?_ h.perm⟩
    have hperm := List.getElem_cons_eraseIdx_perm hi
    rw [List.map_append, List.map_cons, List.map_nil]
    refine List.Perm.append_right _ ?_
    rw [← List.append_assoc]
    exact (List.perm_append_singleton _ _).trans (hperm.append_right _)
  | set i =>
    obtain ⟨p, hp, rfl⟩ := Option.map_eq_some_iff.mp hs
    refine ⟨?_, List.Perm.trans ?_ h.perm⟩
    · simp only [hg p hp, h.record_eq, applyAll, List.foldl_append, List.foldl_cons, List.foldl_nil]
    · obtain ⟨hi, rfl⟩ := List.getElem?_eq_some_iff.mp hp
      have hperm := (List.getElem_cons_eraseIdx_perm hi).map Prod.fst
      simp only [List.append_assoc]
      refine List.Perm.append_left _ ?_
      rw [← List.append_assoc]
      refine (List.perm_append_singleton _ _).trans ?_
      rw [← List.cons_append]
      exact hperm.append_right _

/-- **Fresh calls take effect one after the other**, in the order of their writes. -/
theorem applied_of_fresh {ls : List Label} {s : Race ρ κ}
    (hr : run (step apply) ls (start record calls) = some s)
    (hg : Guarded (step apply) (Fresh apply) ls (start record calls)) :
    Applied apply record calls s :=
  run_invariant applied_step (applied_start apply record calls) hg hr

end Race
