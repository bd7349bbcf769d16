import JobSystem.Lib.Dict

/-!
# Logs of writes to single keys

A write stores a value under a key or removes the key. What a log leaves under a key depends only on
the writes to that key, in their order; writes to different keys may change places.

* `apply`, `applyAll`, `writesTo`;
* **`applyAll_congr`**: logs with the same writes to each key leave the same dictionary;
* `applyAll_concat_equiv`: a write may be moved before writes to other keys.
-/

/-- A write to one key; `none` removes the key. -/
structure Write (κ ν : Type) where
  key : κ
  value : Option ν

namespace Write

variable {κ ν : Type} [DecidableEq κ]

/-- One write. -/
def apply (d : PyDict κ ν) (w : Write κ ν) : PyDict κ ν :=
  match w.value with
  | some v => d.set w.key v
  | none => d.erase w.key

/-- A log of writes. -/
def applyAll (d : PyDict κ ν) (ws : List (Write κ ν)) : PyDict κ ν := ws.foldl apply d

/-- The writes of a log to one key. -/
def writesTo (k : κ) (ws : List (Write κ ν)) : List (Write κ ν) := ws.filter fun w => w.key = k

theorem applyAll_cons (d : PyDict κ ν) (w : Write κ ν) (ws : List (Write κ ν)) :
    applyAll d (w :: ws) = applyAll (w.apply d) ws := rfl

theorem applyAll_append (d : PyDict κ ν) (ws ws' : List (Write κ ν)) :
    applyAll d (ws ++ ws') = applyAll (applyAll d ws) ws' := List.foldl_append ..

theorem get?_apply (d : PyDict κ ν) (w : Write κ ν) (k : κ) :
    (w.apply d).get? k = if k = w.key then w.value else d.get? k := by
  unfold apply
  cases h : w.value with
  | some v => exact PyDict.get?_set d w.key k v
  | none => exact PyDict.get?_erase d w.key k

/-- The last write to a key decides its value. -/
theorem get?_applyAll (d : PyDict κ ν) (ws : List (Write κ ν)) (k : κ) :
    (applyAll d ws).get? k = (writesTo k ws).foldl (fun _ w => w.value) (d.get? k) := by
  induction ws generalizing d with
  | nil => rfl
  | cons w ws ih =>
    rw [applyAll_cons, ih, get?_apply, writesTo, writesTo, List.filter_cons]
    by_cases hk : w.key = k
    · subst hk
      simp
    · rw [if_neg (Ne.symm hk), if_neg (by simpa using hk)]

/-- **Only the writes to each key matter.** -/
theorem applyAll_congr {d e : PyDict κ ν} {ws ws' : List (Write κ ν)} (hd : d.Equiv e)
    (h : ∀ k, writesTo k ws = writesTo k ws') : (applyAll d ws).Equiv (applyAll e ws') := by
  intro k
  rw [get?_applyAll, get?_applyAll, h k, hd k]

theorem writesTo_append (k : κ) (ws ws' : List (Write κ ν)) :
    writesTo k (ws ++ ws') = writesTo k ws ++ writesTo k ws' := List.filter_append ..

theorem writesTo_of_ne {k : κ} {w : Write κ ν} (h : w.key ≠ k) : writesTo k [w] = [] := by
  simp [writesTo, h]

theorem writesTo_eq_nil {k : κ} {ws : List (Write κ ν)} (h : ∀ w ∈ ws, w.key ≠ k) :
    writesTo k ws = [] := by
  rw [writesTo, List.filter_eq_nil_iff]
  intro w hw
  simpa using h w hw

theorem writesTo_move {w : Write κ ν} {ws : List (Write κ ν)} (h : ∀ w' ∈ ws, w'.key ≠ w.key)
    (k : κ) : writesTo k (ws ++ [w]) = writesTo k ([w] ++ ws) := by
  rw [writesTo_append, writesTo_append]
  by_cases hk : w.key = k
  · subst hk
    rw [writesTo_eq_nil h, List.append_nil, List.nil_append]
  · rw [writesTo_of_ne hk, List.append_nil, List.nil_append]

/-- A write may be moved before writes to other keys. -/
theorem applyAll_concat_equiv {w : Write κ ν} {ws : List (Write κ ν)}
    (h : ∀ w' ∈ ws, w'.key ≠ w.key) (d : PyDict κ ν) :
    (w.apply (applyAll d ws)).Equiv (applyAll (w.apply d) ws) := by
  have := applyAll_congr (PyDict.Equiv.refl d) (writesTo_move h)
  rwa [applyAll_append, List.singleton_append] at this

/-- Storing a new key makes up for a removal before it. -/
theorem size_le_size_applyAll_pair (d : PyDict κ ν) (e k : κ) (v : ν) (hk : k ∉ d) :
    d.size ≤ (applyAll d [⟨e, none⟩, ⟨k, some v⟩]).size := by
  have hk' : k ∉ d.erase e := fun h => hk (PyDict.mem_erase.mp h).2
  have hset : (applyAll d [⟨e, none⟩, ⟨k, some v⟩]).size = (d.erase e).size + 1 :=
    PyDict.size_set_of_notMem hk' v
  by_cases he : e ∈ d
  · have := PyDict.size_erase_of_mem he
    omega
  · rw [PyDict.erase_of_notMem he] at hset
    omega

theorem size_le_size_set (d : PyDict κ ν) (k : κ) (v : ν) : d.size ≤ (d.set k v).size := by
  by_cases hk : k ∈ d
  · exact (PyDict.size_set_of_mem hk v).ge
  · rw [PyDict.size_set_of_notMem hk]
    omega

end Write
