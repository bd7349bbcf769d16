import Mathlib

/-!
# Insertion-ordered dictionaries

`PyDict κ α` is Python's `dict` (and `OrderedDict`): entries in insertion order, each key once.
Assigning to a present key keeps its place.

* `set`, `erase`, `moveToEnd`, `popFirst`, `modify`, `filterMap`;
* `get?_set`, `get?_erase`, `get?_moveToEnd`, `get?_popFirst`, `get?_modify`, `get?_filterMap`: what
  a lookup sees after each operation;
* `keys_set_of_notMem`, `keys_erase`, `keys_moveToEnd`, `keys_popFirst`: the order of the keys.
-/

/-- A dictionary, oldest entry first. -/
structure PyDict (κ α : Type) where
  entries : List (κ × α)
  nodup : (entries.map Prod.fst).Nodup

namespace PyDict

variable {κ α : Type}

theorem ext {d e : PyDict κ α} (h : d.entries = e.entries) : d = e := by
  cases d; cases e; cases h; rfl

/-- `list(d.keys())`. -/
def keys (d : PyDict κ α) : List κ := d.entries.map Prod.fst

/-- `len(d)`. -/
def size (d : PyDict κ α) : ℕ := d.entries.length

/-- `{}`. -/
def empty : PyDict κ α := ⟨[], List.nodup_nil⟩

instance : EmptyCollection (PyDict κ α) := ⟨empty⟩

instance : Membership κ (PyDict κ α) := ⟨fun d k => k ∈ d.keys⟩

theorem mem_iff {d : PyDict κ α} {k : κ} : k ∈ d ↔ k ∈ d.keys := Iff.rfl

theorem length_keys (d : PyDict κ α) : d.keys.length = d.size := by simp [keys, size]

theorem nodup_keys (d : PyDict κ α) : d.keys.Nodup := d.nodup

@[simp] theorem notMem_empty (k : κ) : k ∉ (∅ : PyDict κ α) := List.not_mem_nil

theorem mem_of_mem_entries {d : PyDict κ α} {e : κ × α} (h : e ∈ d.entries) : e.1 ∈ d :=
  List.mem_map_of_mem h

variable [DecidableEq κ]

instance (k : κ) (d : PyDict κ α) : Decidable (k ∈ d) := inferInstanceAs (Decidable (k ∈ d.keys))

/-- `d.get(k)`. -/
def get? (d : PyDict κ α) (k : κ) : Option α := d.entries.lookup k

/-- `d[k] = v`. -/
def set (d : PyDict κ α) (k : κ) (v : α) : PyDict κ α :=
  if h : k ∈ d then
    ⟨d.entries.map fun e => if e.1 = k then (k, v) else e, by
      rw [List.map_map]
      have : (Prod.fst ∘ fun e : κ × α => if e.1 = k then (k, v) else e) = Prod.fst := by
        funext e
        simp only [Function.comp_apply]
        split_ifs with he
        · exact he.symm
        · rfl
      rw [this]
      exact d.nodup⟩
  else
    ⟨d.entries ++ [(k, v)], by
      rw [List.map_append, List.nodup_append]
      exact ⟨d.nodup, List.nodup_singleton _, fun a ha b hb e => h (by simp_all [mem_iff, keys])⟩⟩

/-- `d.pop(k, None)`, `del d[k]`. -/
def erase (d : PyDict κ α) (k : κ) : PyDict κ α :=
  ⟨d.entries.filter fun e => e.1 ≠ k, d.nodup.sublist ((List.filter_sublist).map _)⟩

/-- `d.move_to_end(k)` of a present key. -/
def moveToEnd (d : PyDict κ α) (k : κ) : PyDict κ α :=
  match d.get? k with
  | some v => (d.erase k).set k v
  | none => d

/-- `d.popitem(last=False)`. -/
def popFirst (d : PyDict κ α) : PyDict κ α :=
  ⟨d.entries.tail, d.nodup.sublist ((List.tail_sublist _).map _)⟩

/-- `d[k] = f(d[k])` of a present key. -/
def modify (d : PyDict κ α) (k : κ) (f : α → α) : PyDict κ α :=
  match d.get? k with
  | some v => d.set k (f v)
  | none => d

/-- `{k: g(k, v) for k, v in d.items() if …}`: the values that `f` gives back. -/
def filterMap {β : Type} (d : PyDict κ α) (f : κ → α → Option β) : PyDict κ β :=
  ⟨d.entries.filterMap fun e => (f e.1 e.2).map fun v => (e.1, v), by
    have hsub : ((d.entries.filterMap fun e => (f e.1 e.2).map fun v => (e.1, v)).map
        Prod.fst).Sublist (d.entries.map Prod.fst) := by
      induction d.entries with
      | nil => exact List.Sublist.refl _
      | cons e l ih =>
        rw [List.filterMap_cons, List.map_cons]
        cases f e.1 e.2 with
        | none => exact ih.cons _
        | some v => exact ih.cons_cons _
    exact d.nodup.sublist hsub⟩

/-! ## Lookups -/

theorem lookup_eq_none_iff {κ α : Type} [BEq κ] [LawfulBEq κ] {l : List (κ × α)} {k : κ} :
    l.lookup k = none ↔ k ∉ l.map Prod.fst := by
  induction l with
  | nil => simp
  | cons e l ih =>
    obtain ⟨a, b⟩ := e
    by_cases h : k = a
    · subst h; simp
    · have hb : (k == a) = false := by simpa using h
      simp only [List.lookup_cons, hb, List.map_cons, List.mem_cons, ih, not_or]
      exact ⟨fun hn => ⟨h, hn⟩, fun hn => hn.2⟩

theorem mem_of_lookup {κ α : Type} [BEq κ] [LawfulBEq κ] {l : List (κ × α)} {k : κ} {v : α}
    (h : l.lookup k = some v) : (k, v) ∈ l := by
  obtain ⟨before, after, rfl, -⟩ := List.lookup_eq_some_iff.mp h
  exact List.mem_append_right _ List.mem_cons_self

theorem lookup_filter_ne (l : List (κ × α)) (k k' : κ) :
    (l.filter fun e => e.1 ≠ k).lookup k' = if k' = k then none else l.lookup k' := by
  induction l with
  | nil => simp
  | cons e l ih =>
    obtain ⟨a, b⟩ := e
    by_cases ha : a = k
    · subst ha
      rw [List.filter_cons_of_neg (by simp), ih, List.lookup_cons]
      split_ifs with h
      · rfl
      · have hb : (k' == a) = false := by simpa using h
        rw [hb]
    · rw [List.filter_cons_of_pos (by simpa using ha), List.lookup_cons, List.lookup_cons, ih]
      by_cases hk : k' = a
      · subst hk; simp [ha]
      · have hb : (k' == a) = false := by simpa using hk
        rw [hb]

theorem lookup_map_set {κ α : Type} [BEq κ] [LawfulBEq κ] [DecidableEq κ] (l : List (κ × α))
    (k k' : κ) (v : α) :
    (l.map fun e => if e.1 = k then (k, v) else e).lookup k' =
      if k' = k then (l.lookup k).map fun _ => v else l.lookup k' := by
  induction l with
  | nil => simp
  | cons e l ih =>
    obtain ⟨a, b⟩ := e
    rw [List.map_cons]
    by_cases ha : a = k
    · subst ha
      rw [if_pos rfl, List.lookup_cons, List.lookup_cons, List.lookup_cons, ih]
      by_cases hk : k' = a
      · subst hk; simp
      · have hb : (k' == a) = false := by simpa using hk
        simp [hb, hk]
    · rw [if_neg ha, List.lookup_cons, List.lookup_cons, List.lookup_cons, ih]
      by_cases hk : k' = k
      · subst hk
        have hb : (k' == a) = false := by simpa using Ne.symm ha
        simp [hb]
      · simp [hk]

theorem get?_eq_none_iff {d : PyDict κ α} {k : κ} : d.get? k = none ↔ k ∉ d := lookup_eq_none_iff

theorem mem_iff_get? {d : PyDict κ α} {k : κ} : k ∈ d ↔ ∃ v, d.get? k = some v := by
  rw [← not_iff_not, ← get?_eq_none_iff, Option.eq_none_iff_forall_ne_some]
  simp

theorem mem_of_get? {d : PyDict κ α} {k : κ} {v : α} (h : d.get? k = some v) : k ∈ d :=
  mem_iff_get?.mpr ⟨v, h⟩

theorem get?_set (d : PyDict κ α) (k k' : κ) (v : α) :
    (d.set k v).get? k' = if k' = k then some v else d.get? k' := by
  unfold set get?
  split_ifs with hm hk hk
  · subst hk
    obtain ⟨w, hw⟩ := mem_iff_get?.mp hm
    rw [lookup_map_set, if_pos rfl, show d.entries.lookup k' = some w from hw]
    rfl
  · rw [lookup_map_set, if_neg hk]
  · subst hk
    rw [List.lookup_append, show d.entries.lookup k' = none from get?_eq_none_iff.mpr hm]
    simp
  · have hb : (k' == k) = false := by simpa using hk
    rw [List.lookup_append]
    simp [List.lookup_cons, hb]

@[simp] theorem get?_set_self (d : PyDict κ α) (k : κ) (v : α) : (d.set k v).get? k = some v := by
  rw [get?_set, if_pos rfl]

theorem get?_set_ne (d : PyDict κ α) {k k' : κ} (h : k' ≠ k) (v : α) :
    (d.set k v).get? k' = d.get? k' := by
  rw [get?_set, if_neg h]

theorem get?_erase (d : PyDict κ α) (k k' : κ) :
    (d.erase k).get? k' = if k' = k then none else d.get? k' :=
  lookup_filter_ne _ _ _

theorem get?_moveToEnd (d : PyDict κ α) (k k' : κ) : (d.moveToEnd k).get? k' = d.get? k' := by
  unfold moveToEnd
  cases h : d.get? k with
  | none => rfl
  | some v =>
    simp only [get?_set, get?_erase]
    split_ifs with hk
    · rw [hk, h]
    · rfl

theorem get?_modify (d : PyDict κ α) (k k' : κ) (f : α → α) :
    (d.modify k f).get? k' = if k' = k then (d.get? k).map f else d.get? k' := by
  unfold modify
  cases h : d.get? k with
  | none =>
    simp only [Option.map_none]
    split_ifs with hk
    · rw [hk, h]
    · rfl
  | some v => simp only [get?_set, Option.map_some]

theorem mem_entries_iff {d : PyDict κ α} {k : κ} {v : α} :
    (k, v) ∈ d.entries ↔ d.get? k = some v := by
  obtain ⟨l, hl⟩ := d
  unfold get?
  simp only
  induction l with
  | nil => simp
  | cons e l ih =>
    obtain ⟨a, b⟩ := e
    rw [List.map_cons, List.nodup_cons] at hl
    rw [List.mem_cons, List.lookup_cons]
    by_cases hk : k = a
    · subst hk
      have hn : (k, v) ∉ l := fun hm => hl.1 (List.mem_map.mpr ⟨_, hm, rfl⟩)
      simp [hn, eq_comm]
    · have hb : (k == a) = false := by simpa using hk
      simp [hb, hk, ih hl.2]

theorem get?_filterMap {β : Type} (d : PyDict κ α) (f : κ → α → Option β) (k : κ) :
    (d.filterMap f).get? k = (d.get? k).bind (f k) := by
  ext v
  rw [← mem_entries_iff, Option.bind_eq_some_iff, filterMap, List.mem_filterMap]
  constructor
  · rintro ⟨e, he, hv⟩
    obtain ⟨u, hu, heq⟩ := Option.map_eq_some_iff.mp hv
    obtain ⟨rfl, rfl⟩ := Prod.mk.inj heq
    exact ⟨e.2, mem_entries_iff.mp he, hu⟩
  · rintro ⟨u, hu, hv⟩
    exact ⟨(k, u), mem_entries_iff.mpr hu, by rw [hv]; rfl⟩

/-- What keeps every entry keeps the dictionary. -/
theorem filterMap_eq_self {d : PyDict κ α} {f : κ → α → Option α}
    (h : ∀ k v, d.get? k = some v → f k v = some v) : d.filterMap f = d := by
  refine ext ?_
  have hentries : ∀ e ∈ d.entries, ((f e.1 e.2).map fun v => (e.1, v)) = some e := by
    intro e he
    rw [h e.1 e.2 (mem_entries_iff.mp he)]
    rfl
  exact (List.filterMap_congr hentries).trans List.filterMap_some

/-! ## Membership -/

@[simp] theorem mem_set {d : PyDict κ α} {k k' : κ} {v : α} : k' ∈ d.set k v ↔ k' = k ∨ k' ∈ d := by
  rw [mem_iff_get?, get?_set]
  split_ifs with h
  · simp [h]
  · simp [h, mem_iff_get?]

@[simp] theorem mem_erase {d : PyDict κ α} {k k' : κ} : k' ∈ d.erase k ↔ k' ≠ k ∧ k' ∈ d := by
  rw [mem_iff_get?, get?_erase]
  split_ifs with h
  · simp [h]
  · simp [h, mem_iff_get?]

@[simp] theorem mem_modify {d : PyDict κ α} {k k' : κ} {f : α → α} :
    k' ∈ d.modify k f ↔ k' ∈ d := by
  rw [mem_iff_get?, get?_modify, mem_iff_get?]
  split_ifs with h
  · subst h; simp
  · rfl

/-! ## Key order and size -/

theorem entries_set_of_notMem {d : PyDict κ α} {k : κ} (h : k ∉ d) (v : α) :
    (d.set k v).entries = d.entries ++ [(k, v)] := by
  rw [set, dif_neg h]

theorem keys_set_of_notMem {d : PyDict κ α} {k : κ} (h : k ∉ d) (v : α) :
    (d.set k v).keys = d.keys ++ [k] := by
  simp [keys, entries_set_of_notMem h]

theorem keys_set_of_mem {d : PyDict κ α} {k : κ} (h : k ∈ d) (v : α) : (d.set k v).keys = d.keys := by
  rw [set, dif_pos h, keys, keys, List.map_map]
  refine List.map_congr_left fun e _ => ?_
  simp only [Function.comp_apply]
  split_ifs with he
  · exact he.symm
  · rfl

theorem keys_erase (d : PyDict κ α) (k : κ) : (d.erase k).keys = d.keys.erase k := by
  rw [d.nodup_keys.erase_eq_filter, keys, erase, keys, List.filter_map]
  congr 1
  exact List.filter_congr fun e _ => by
    by_cases he : e.1 = k <;> simp [he]

theorem keys_moveToEnd {d : PyDict κ α} {k : κ} (h : k ∈ d) :
    (d.moveToEnd k).keys = d.keys.erase k ++ [k] := by
  obtain ⟨v, hv⟩ := mem_iff_get?.mp h
  unfold moveToEnd
  rw [hv]
  simp only
  rw [keys_set_of_notMem (by simp), keys_erase]

omit [DecidableEq κ] in
theorem keys_popFirst (d : PyDict κ α) : d.popFirst.keys = d.keys.tail := by
  simp [keys, popFirst, List.map_tail]

/-- Popping the first entry erases its key. -/
theorem get?_popFirst {d : PyDict κ α} {k : κ} {ks : List κ} (h : d.keys = k :: ks) (k' : κ) :
    d.popFirst.get? k' = if k' = k then none else d.get? k' := by
  obtain ⟨l, hl⟩ := d
  cases l with
  | nil => cases h
  | cons e l =>
    obtain ⟨a, b⟩ := e
    simp only [keys, List.map_cons, List.cons.injEq] at h
    obtain ⟨rfl, -⟩ := h
    rw [List.map_cons, List.nodup_cons] at hl
    simp only [get?, popFirst, List.tail_cons, List.lookup_cons]
    split_ifs with hk
    · subst hk; exact lookup_eq_none_iff.mpr hl.1
    · have hb : (k' == a) = false := by simpa using hk
      rw [hb]

theorem size_set_of_notMem {d : PyDict κ α} {k : κ} (h : k ∉ d) (v : α) :
    (d.set k v).size = d.size + 1 := by
  simp [← length_keys, keys_set_of_notMem h]

theorem size_set_of_mem {d : PyDict κ α} {k : κ} (h : k ∈ d) (v : α) : (d.set k v).size = d.size := by
  rw [← length_keys, ← length_keys, keys_set_of_mem h]

theorem size_erase_of_mem {d : PyDict κ α} {k : κ} (h : k ∈ d) : (d.erase k).size + 1 = d.size := by
  have hpos := List.length_pos_of_mem (mem_iff.mp h)
  rw [← length_keys, ← length_keys, keys_erase, List.length_erase_of_mem h]
  omega

omit [DecidableEq κ] in
theorem mem_values_iff {d : PyDict κ α} {v : α} :
    v ∈ d.entries.map Prod.snd ↔ ∃ k, (k, v) ∈ d.entries := by
  rw [List.mem_map]
  constructor
  · rintro ⟨⟨k, v⟩, he, rfl⟩
    exact ⟨k, he⟩
  · rintro ⟨k, he⟩
    exact ⟨(k, v), he, rfl⟩

theorem size_erase_le (d : PyDict κ α) (k : κ) : (d.erase k).size ≤ d.size :=
  List.length_filter_le _ _

theorem erase_of_notMem {d : PyDict κ α} {k : κ} (h : k ∉ d) : d.erase k = d := by
  refine ext (List.filter_eq_self.mpr fun e he => ?_)
  have : e.1 ≠ k := fun hk => h (hk ▸ mem_of_mem_entries he)
  simpa using this

/-- Two dictionaries with the same lookups have the same size. -/
theorem size_eq_of_get? {d e : PyDict κ α} (h : ∀ k, d.get? k = e.get? k) : d.size = e.size := by
  rw [← length_keys, ← length_keys]
  refine List.Perm.length_eq ((List.perm_ext_iff_of_nodup d.nodup_keys e.nodup_keys).mpr fun k => ?_)
  rw [← mem_iff, ← mem_iff, mem_iff_get?, mem_iff_get?, h]

/-! ## Equal contents -/

/-- The same lookups, in whatever order. -/
def Equiv (d e : PyDict κ α) : Prop := ∀ k, d.get? k = e.get? k

namespace Equiv

variable {d e f : PyDict κ α}

theorem refl (d : PyDict κ α) : Equiv d d := fun _ => rfl

theorem symm (h : Equiv d e) : Equiv e d := fun k => (h k).symm

theorem trans (h : Equiv d e) (h' : Equiv e f) : Equiv d f := fun k => (h k).trans (h' k)

theorem mem_iff (h : Equiv d e) (k : κ) : k ∈ d ↔ k ∈ e := by
  rw [mem_iff_get?, mem_iff_get?, h k]

theorem size_eq (h : Equiv d e) : d.size = e.size := size_eq_of_get? h

end Equiv

end PyDict
