import JobSystem.Lib.Text
import JobSystem.Lib.Dict

/-!
# The LRU store

The `OrderedDict` of `LRUCacheServer` and the three operations on it, over any type of keys with a
truth value: `executeLruSet`, `executeLruGet`, `delete`. A `SET` or `DEL` also says which commands
it passes to `append_to_log` (`setLog`, `serve`), and `LogCmd.exec` is what recovery does with one.

* `get?_executeLruSet_*`: the mapping after a `SET`, with and without an eviction;
* `mem_serve`, `size_serve_le`: the keys and the size after a request.
-/

namespace JobSystem

open PyText

/-- `max_capacity` and `data_store` of a server; the oldest key comes first. -/
structure LruStore (κ ν : Type) where
  max_capacity : ℕ
  capacity_pos : 0 < max_capacity
  data_store : PyDict κ ν

/-- A request of a client. -/
inductive Request (κ ν : Type) where
  | set (key : κ) (value : ν)
  | get (key : κ)
  | del (key : κ)

/-- A command passed to `append_to_log`. -/
inductive LogCmd (κ ν : Type) where
  | set (key : κ) (value : ν)
  | del (key : κ)

/-- The key of a request. -/
def Request.key {κ ν : Type} : Request κ ν → κ
  | .set key _ => key
  | .get key => key
  | .del key => key

/-- The key of a logged command. -/
def LogCmd.key {κ ν : Type} : LogCmd κ ν → κ
  | .set key _ => key
  | .del key => key

namespace LruStore

variable {κ ν : Type}

/-- A new server's store. -/
def init (max_capacity : ℕ+) : LruStore κ ν := ⟨max_capacity, max_capacity.pos, ∅⟩

variable [DecidableEq κ]

/-- `execute_lru_set` up to the release of `store_lock`, with the evicted key. -/
def executeLruSet (s : LruStore κ ν) (key : κ) (value : ν) : LruStore κ ν × Option κ :=
  if key ∈ s.data_store then
    ({ s with data_store := (s.data_store.set key value).moveToEnd key }, none)
  else if s.data_store.size ≥ s.max_capacity then
    ({ s with data_store := s.data_store.popFirst.set key value }, s.data_store.keys.head?)
  else ({ s with data_store := s.data_store.set key value }, none)

/-- `execute_lru_get`. -/
def executeLruGet (s : LruStore κ ν) (key : κ) : LruStore κ ν × Option ν :=
  match s.data_store.get? key with
  | some value => ({ s with data_store := s.data_store.moveToEnd key }, some value)
  | none => (s, none)

/-- `if key in self.data_store: del self.data_store[key]`. -/
def delete (s : LruStore κ ν) (key : κ) : LruStore κ ν :=
  { s with data_store := s.data_store.erase key }

/-- The commands that `execute_lru_set` logs: `if evicted_key:` tests the truth of the key. -/
def setLog [Truthy κ] (evicted_key : Option κ) (key : κ) (value : ν) : List (LogCmd κ ν) :=
  match evicted_key with
  | some e => if Truthy.truthy e then [.del e, .set key value] else [.set key value]
  | none => [.set key value]

/-- One request: the store after it and the commands it logs. -/
def serve [Truthy κ] (s : LruStore κ ν) : Request κ ν → LruStore κ ν × List (LogCmd κ ν)
  | .set key value =>
    ((s.executeLruSet key value).1, setLog (s.executeLruSet key value).2 key value)
  | .get key => ((s.executeLruGet key).1, [])
  | .del key => if key ∈ s.data_store then (s.delete key, [.del key]) else (s, [])

/-- What recovery does with one logged command. -/
def exec (s : LruStore κ ν) : LogCmd κ ν → LruStore κ ν
  | .set key value => (s.executeLruSet key value).1
  | .del key => s.delete key

/-- What recovery does with a log. -/
def execAll (s : LruStore κ ν) (log : List (LogCmd κ ν)) : LruStore κ ν := log.foldl exec s

theorem execAll_append (s : LruStore κ ν) (l l' : List (LogCmd κ ν)) :
    s.execAll (l ++ l') = (s.execAll l).execAll l' := List.foldl_append ..

theorem execAll_concat (s : LruStore κ ν) (l : List (LogCmd κ ν)) (c : LogCmd κ ν) :
    s.execAll (l ++ [c]) = (s.execAll l).exec c := by
  rw [execAll_append]; rfl

/-- The key-to-value mappings agree. -/
def SameMap (s t : LruStore κ ν) : Prop := ∀ k, s.data_store.get? k = t.data_store.get? k

theorem SameMap.mem_iff {s t : LruStore κ ν} (h : SameMap s t) (k : κ) :
    k ∈ s.data_store ↔ k ∈ t.data_store := by
  rw [PyDict.mem_iff_get?, PyDict.mem_iff_get?, h k]

theorem SameMap.size_eq {s t : LruStore κ ν} (h : SameMap s t) :
    s.data_store.size = t.data_store.size := PyDict.size_eq_of_get? h

/-! ## `SET` -/

section Set

variable {s : LruStore κ ν} {key : κ}

theorem executeLruSet_of_mem (h : key ∈ s.data_store) (value : ν) : s.executeLruSet key value =
    ({ s with data_store := (s.data_store.set key value).moveToEnd key }, none) := by
  rw [executeLruSet, if_pos h]

theorem executeLruSet_of_lt (h : key ∉ s.data_store) (hlt : s.data_store.size < s.max_capacity)
    (value : ν) :
    s.executeLruSet key value = ({ s with data_store := s.data_store.set key value }, none) := by
  rw [executeLruSet, if_neg h, if_neg (by omega)]

theorem executeLruSet_of_ge (h : key ∉ s.data_store) (hge : s.max_capacity ≤ s.data_store.size)
    (value : ν) : s.executeLruSet key value =
      ({ s with data_store := s.data_store.popFirst.set key value }, s.data_store.keys.head?) := by
  rw [executeLruSet, if_neg h, if_pos hge]

omit [DecidableEq κ] in
/-- A full store has an oldest key. -/
theorem exists_keys_of_ge (hge : s.max_capacity ≤ s.data_store.size) :
    ∃ e ks, s.data_store.keys = e :: ks := by
  have hpos := s.capacity_pos
  rw [← PyDict.length_keys] at hge
  exact List.exists_cons_of_length_pos (by omega)

@[simp] theorem max_capacity_executeLruSet (s : LruStore κ ν) (key : κ) (value : ν) :
    (s.executeLruSet key value).1.max_capacity = s.max_capacity := by
  unfold executeLruSet
  split_ifs <;> rfl

theorem snd_executeLruSet (h : key ∈ s.data_store ∨ s.data_store.size < s.max_capacity)
    (value : ν) : (s.executeLruSet key value).2 = none := by
  by_cases hm : key ∈ s.data_store
  · rw [executeLruSet_of_mem hm]
  · rw [executeLruSet_of_lt hm (h.resolve_left hm)]

/-- The mapping after a `SET` that evicts nothing. -/
theorem get?_executeLruSet (h : key ∈ s.data_store ∨ s.data_store.size < s.max_capacity)
    (value : ν) (k : κ) : (s.executeLruSet key value).1.data_store.get? k =
      if k = key then some value else s.data_store.get? k := by
  by_cases hm : key ∈ s.data_store
  · rw [executeLruSet_of_mem hm]
    simp only [PyDict.get?_moveToEnd, PyDict.get?_set]
  · rw [executeLruSet_of_lt hm (h.resolve_left hm)]
    exact PyDict.get?_set _ _ _ _

/-- The mapping after a `SET` that evicts `e`. -/
theorem get?_executeLruSet_of_ge (h : key ∉ s.data_store)
    (hge : s.max_capacity ≤ s.data_store.size) {e : κ} {ks : List κ}
    (hk : s.data_store.keys = e :: ks) (value : ν) (k : κ) :
    (s.executeLruSet key value).1.data_store.get? k =
      if k = key then some value else if k = e then none else s.data_store.get? k := by
  rw [executeLruSet_of_ge h hge]
  simp only [PyDict.get?_set, PyDict.get?_popFirst hk]

/-- After a `SET` the key has the new value, and any other key at most its old one. -/
theorem get?_executeLruSet_cases {value : ν} {k : κ} {v : ν}
    (h : (s.executeLruSet key value).1.data_store.get? k = some v) :
    (k = key ∧ v = value) ∨ s.data_store.get? k = some v := by
  by_cases hm : key ∈ s.data_store ∨ s.data_store.size < s.max_capacity
  · rw [get?_executeLruSet hm] at h
    split_ifs at h with hk
    · exact Or.inl ⟨hk, (Option.some.inj h).symm⟩
    · exact Or.inr h
  · obtain ⟨hn, hge⟩ := not_or.mp hm
    rw [not_lt] at hge
    obtain ⟨e, ks, hks⟩ := exists_keys_of_ge hge
    rw [get?_executeLruSet_of_ge hn hge hks] at h
    split_ifs at h with hk he
    · exact Or.inl ⟨hk, (Option.some.inj h).symm⟩
    · exact Or.inr h

theorem get?_executeLruSet_self (s : LruStore κ ν) (key : κ) (value : ν) :
    (s.executeLruSet key value).1.data_store.get? key = some value := by
  by_cases hm : key ∈ s.data_store ∨ s.data_store.size < s.max_capacity
  · rw [get?_executeLruSet hm, if_pos rfl]
  · obtain ⟨hn, hge⟩ := not_or.mp hm
    rw [not_lt] at hge
    obtain ⟨e, ks, hks⟩ := exists_keys_of_ge hge
    rw [get?_executeLruSet_of_ge hn hge hks, if_pos rfl]

theorem mem_of_mem_executeLruSet {value : ν} {k : κ}
    (h : k ∈ (s.executeLruSet key value).1.data_store) : k = key ∨ k ∈ s.data_store := by
  rw [PyDict.mem_iff_get?] at h ⊢
  obtain ⟨v, hv⟩ := h
  rcases get?_executeLruSet_cases hv with ⟨hk, -⟩ | hold
  · exact Or.inl hk
  · exact Or.inr ⟨v, hold⟩

/-- The evicted key was in the store. -/
theorem mem_of_evicted {value : ν} {e : κ} (h : (s.executeLruSet key value).2 = some e) :
    e ∈ s.data_store := by
  unfold executeLruSet at h
  split_ifs at h
  exact List.mem_of_mem_head? h

/-- A `SET` never leaves more keys than the capacity, or than there were. -/
theorem size_executeLruSet_le (s : LruStore κ ν) (key : κ) (value : ν)
    (h : s.data_store.size ≤ s.max_capacity) :
    (s.executeLruSet key value).1.data_store.size ≤ s.max_capacity := by
  by_cases hm : key ∈ s.data_store
  · rw [executeLruSet_of_mem hm]
    have hs := PyDict.size_eq_of_get? fun k => PyDict.get?_moveToEnd (s.data_store.set key value) key k
    simp only [hs, PyDict.size_set_of_mem hm]
    exact h
  · by_cases hlt : s.data_store.size < s.max_capacity
    · rw [executeLruSet_of_lt hm hlt]
      simp only [PyDict.size_set_of_notMem hm]
      omega
    · rw [executeLruSet_of_ge hm (by omega)]
      have hpop : s.data_store.popFirst.keys = s.data_store.keys.tail := PyDict.keys_popFirst _
      have hm' : key ∉ s.data_store.popFirst := fun hk => hm <| by
        rw [PyDict.mem_iff, hpop] at hk
        exact List.mem_of_mem_tail hk
      have hlen := PyDict.length_keys s.data_store
      have hpos := s.capacity_pos
      simp only [PyDict.size_set_of_notMem hm', ← PyDict.length_keys s.data_store.popFirst, hpop,
        List.length_tail]
      omega

end Set

/-! ## `GET` and `DEL` -/

@[simp] theorem max_capacity_executeLruGet (s : LruStore κ ν) (key : κ) :
    (s.executeLruGet key).1.max_capacity = s.max_capacity := by
  unfold executeLruGet
  split <;> rfl

theorem get?_executeLruGet (s : LruStore κ ν) (key k : κ) :
    (s.executeLruGet key).1.data_store.get? k = s.data_store.get? k := by
  unfold executeLruGet
  split
  · exact PyDict.get?_moveToEnd _ _ _
  · rfl

theorem get?_delete (s : LruStore κ ν) (key k : κ) :
    (s.delete key).data_store.get? k = if k = key then none else s.data_store.get? k :=
  PyDict.get?_erase _ _ _

@[simp] theorem max_capacity_delete (s : LruStore κ ν) (key : κ) :
    (s.delete key).max_capacity = s.max_capacity := rfl

@[simp] theorem max_capacity_exec (s : LruStore κ ν) (c : LogCmd κ ν) :
    (s.exec c).max_capacity = s.max_capacity := by
  cases c <;> simp [exec]

theorem max_capacity_execAll (s : LruStore κ ν) (log : List (LogCmd κ ν)) :
    (s.execAll log).max_capacity = s.max_capacity := by
  induction log generalizing s with
  | nil => rfl
  | cons c log ih => exact (ih (s.exec c)).trans (max_capacity_exec s c)

/-! ## Requests -/

section Serve

variable [Truthy κ]

theorem max_capacity_serve (s : LruStore κ ν) (r : Request κ ν) :
    (s.serve r).1.max_capacity = s.max_capacity := by
  cases r with
  | set key value => exact max_capacity_executeLruSet s key value
  | get key => exact max_capacity_executeLruGet s key
  | del key =>
    simp only [serve]
    split_ifs <;> rfl

/-- A key of the store after a request was there before or is the key of a `SET`. -/
theorem mem_of_mem_serve {s : LruStore κ ν} {r : Request κ ν} {k : κ}
    (h : k ∈ (s.serve r).1.data_store) : k ∈ s.data_store ∨ ∃ v, r = .set k v := by
  cases r with
  | set key value =>
    rcases mem_of_mem_executeLruSet h with rfl | hk
    · exact Or.inr ⟨value, rfl⟩
    · exact Or.inl hk
  | get key =>
    rw [PyDict.mem_iff_get?] at h ⊢
    simp only [serve, get?_executeLruGet] at h
    exact Or.inl h
  | del key =>
    simp only [serve] at h
    split_ifs at h
    · exact Or.inl (PyDict.mem_erase.mp h).2
    · exact Or.inl h

/-- A logged command has the key of the request or, for an evicting `SET`, a key of the store. -/
theorem key_of_mem_serve {s : LruStore κ ν} {r : Request κ ν} {c : LogCmd κ ν}
    (h : c ∈ (s.serve r).2) : c.key = r.key ∨ c.key ∈ s.data_store := by
  cases r with
  | set key value =>
    simp only [serve] at h
    cases he : (s.executeLruSet key value).2 with
    | none =>
      rw [he] at h
      rw [List.mem_singleton.mp h]
      exact Or.inl rfl
    | some e =>
      rw [he] at h
      simp only [setLog] at h
      split_ifs at h
      · rcases List.mem_pair.mp h with rfl | rfl
        · exact Or.inr (mem_of_evicted he)
        · exact Or.inl rfl
      · rw [List.mem_singleton.mp h]
        exact Or.inl rfl
  | get key => cases h
  | del key =>
    simp only [serve] at h
    split_ifs at h
    · rw [List.mem_singleton.mp h]; exact Or.inl rfl
    · cases h

/-- No request fills the store beyond its capacity. -/
theorem size_serve_le (s : LruStore κ ν) (r : Request κ ν)
    (h : s.data_store.size ≤ s.max_capacity) : (s.serve r).1.data_store.size ≤ s.max_capacity := by
  cases r with
  | set key value => exact size_executeLruSet_le s key value h
  | get key =>
    have := PyDict.size_eq_of_get? (get?_executeLruGet s key)
    simp only [serve]
    omega
  | del key =>
    simp only [serve]
    split_ifs with hm
    · have := PyDict.size_erase_of_mem hm
      simp only [delete]
      omega
    · exact h

end Serve

end LruStore

end JobSystem
