import Mathlib

/-!
# Priority queues

A queue that takes out the item with the least key. Items whose keys are equal cannot be compared.

* `tupleLt`: the comparison;
* `LeastFirst`: such queues; **`key_lt_of_get`**, **`get_unique`**: what they take out;
* `sortedList`: a sorted list is one.
-/

/-- `a < b` by the keys; `none` is the exception of a comparison that goes on behind equal keys. -/
def tupleLt {α ι : Type} [LinearOrder ι] (key : α → ι) (a b : α) : Option Bool :=
  if key a = key b then none else some (decide (key a < key b))

/-- A priority queue: what is in it, and its two operations. If no comparison of two items in it raises,
`get` takes out one that no other is less than. -/
structure LeastFirst {α ι : Type} [LinearOrder ι] (key : α → ι) where
  Queue : Type
  items : Queue → List α
  empty : Queue
  put : Queue → α → Queue
  get : Queue → Option (α × Queue)
  items_empty : items empty = []
  items_put : ∀ q a, (items (put q a)).Perm (a :: items q)
  get_eq_none_iff : ∀ q, get q = none ↔ items q = []
  items_get : ∀ {q a q'}, get q = some (a, q') → (items q).Perm (a :: items q')
  least : ∀ {q a q'}, get q = some (a, q') →
    (items q).Pairwise (fun b c => (tupleLt key b c).isSome = true) →
      ∀ b ∈ items q', tupleLt key b a ≠ some true

namespace LeastFirst

variable {α ι : Type} [LinearOrder ι] {key : α → ι}

theorem isSome_tupleLt_iff {a b : α} : (tupleLt key a b).isSome = true ↔ key a ≠ key b := by
  unfold tupleLt
  split_ifs with h <;> simp [h]

/-- Items with distinct keys are compared without an exception. -/
theorem pairwise_isSome_iff {l : List α} :
    l.Pairwise (fun a b => (tupleLt key a b).isSome = true) ↔ (l.map key).Nodup := by
  rw [List.Nodup, List.pairwise_map]
  exact List.Pairwise.iff fun _ _ => isSome_tupleLt_iff

section Get

variable {pq pq' : LeastFirst key} {q q' : pq.Queue} {p p' : pq'.Queue} {a b : α}

/-- **The key of what is taken out** is less than all others. -/
theorem key_lt_of_get (h : pq.get q = some (a, q')) (hkeys : ((pq.items q).map key).Nodup)
    (hb : b ∈ pq.items q') : key a < key b := by
  have hne : key b ≠ key a := by
    have hdistinct := (((pq.items_get h).map key).nodup_iff).mp hkeys
    rw [List.map_cons, List.nodup_cons] at hdistinct
    exact fun he => hdistinct.1 (he ▸ List.mem_map_of_mem hb)
  refine lt_of_le_of_ne (not_lt.mp fun hlt => ?_) hne.symm
  refine pq.least h (pairwise_isSome_iff.mpr hkeys) b hb ?_
  rw [tupleLt, if_neg hne, decide_eq_true hlt]

/-- **Two queues with the same items** take out the same one. -/
theorem get_unique (h : pq.get q = some (a, q')) (h' : pq'.get p = some (b, p'))
    (hperm : (pq.items q).Perm (pq'.items p)) (hkeys : ((pq.items q).map key).Nodup) :
    a = b ∧ (pq.items q').Perm (pq'.items p') := by
  have hall := (pq.items_get h).symm.trans (hperm.trans (pq'.items_get h'))
  have hab : a = b := by
    by_contra hne
    have ha := (List.mem_cons.mp (hall.subset List.mem_cons_self)).resolve_left hne
    have hb := (List.mem_cons.mp (hall.symm.subset List.mem_cons_self)).resolve_left (Ne.symm hne)
    have hlt := key_lt_of_get h hkeys hb
    have hlt' := key_lt_of_get h' ((hperm.map key).nodup_iff.mp hkeys) ha
    exact absurd hlt hlt'.asymm
  subst hab
  exact ⟨rfl, hall.cons_inv⟩

end Get

/-- A list that is kept sorted. -/
def sortedList (key : α → ι) : LeastFirst key where
  Queue := { l : List α // l.Pairwise fun a b => key a ≤ key b }
  items := Subtype.val
  empty := ⟨[], List.Pairwise.nil⟩
  put q a := ⟨q.1.orderedInsert (fun b c => key b ≤ key c) a, by
    have : Std.Total fun b c : α => key b ≤ key c := ⟨fun b c => le_total _ _⟩
    have : IsTrans α fun b c => key b ≤ key c := ⟨fun _ _ _ => le_trans⟩
    exact q.2.orderedInsert _ _⟩
  get
    | ⟨[], _⟩ => none
    | ⟨a :: l, h⟩ => some (a, ⟨l, (List.pairwise_cons.mp h).2⟩)
  items_empty := rfl
  items_put q a := List.perm_orderedInsert _ _ _
  get_eq_none_iff := by
    rintro ⟨_ | ⟨a, l⟩, h⟩ <;> simp
  items_get := by
    rintro ⟨_ | ⟨b, l⟩, h⟩ a q' hget
    · cases hget
    · cases hget
      exact List.Perm.refl _
  least := by
    rintro ⟨_ | ⟨b, l⟩, h⟩ a q' hget - c hc hlt
    · cases hget
    · cases hget
      have hle := (List.pairwise_cons.mp h).1 c hc
      unfold tupleLt at hlt
      split_ifs at hlt
      exact absurd (of_decide_eq_true (Option.some.inj hlt)) (not_lt.mpr hle)

end LeastFirst
