import JobSystem.Cache.Replay

/-!
# Recency

The store after any requests on a new server, against the requests alone.

* `accesses`: the keys of the `SET`s and of the hitting `GET`s, in order; `lastSet`: the value of a
  key's latest `SET`; `touched`: the keys of the `SET`s and `GET`s;
* `keys_after`, `get?_after`: the order of the keys and the values;
* `Retained`, `retained_after`: a key stays while less than a capacity of other keys is touched;
* `lru_correct`: all of it.
-/

namespace JobSystem

open PyText

namespace LruStore

variable {κ ν : Type} [DecidableEq κ]

/-- The key that a request accesses: that of a `SET` or of a hitting `GET`. -/
def access (s : LruStore κ ν) : Request κ ν → List κ
  | .set key _ => [key]
  | .get key => if key ∈ s.data_store then [key] else []
  | .del _ => []

/-- The value of the latest `SET` of a key. -/
def lastSet (k : κ) (rs : List (Request κ ν)) : Option ν :=
  rs.foldl (fun v r => match r with
    | .set key value => if key = k then some value else v
    | .get _ => v
    | .del _ => v) none

omit [DecidableEq κ] in
/-- The keys of the `SET`s and the `GET`s. -/
def touched (rs : List (Request κ ν)) : List κ :=
  rs.filterMap fun r => match r with
    | .set key _ => some key
    | .get key => some key
    | .del _ => none

omit [DecidableEq κ] in
theorem touched_append (rs rs' : List (Request κ ν)) :
    touched (rs ++ rs') = touched rs ++ touched rs' := List.filterMap_append

theorem lastSet_concat_of_ne {k : κ} {r : Request κ ν} (h : ∀ v, r ≠ .set k v)
    (rs : List (Request κ ν)) : lastSet k (rs ++ [r]) = lastSet k rs := by
  cases r with
  | set key value =>
    have hk : key ≠ k := by
      intro hk
      exact h value (by rw [hk])
    simp [lastSet, hk]
  | get key => simp [lastSet]
  | del key => simp [lastSet]

/-! ## The keys after a request -/

/-- The last occurrence of a key takes the place of the earlier ones. -/
theorem dedup_concat (ks : List κ) (k : κ) :
    (ks ++ [k]).dedup = ks.dedup.erase k ++ [k] := by
  induction ks with
  | nil => simp
  | cons a ks ih =>
    rw [List.cons_append]
    by_cases ha : a ∈ ks
    · rw [List.dedup_cons_of_mem ha, List.dedup_cons_of_mem (List.mem_append_left _ ha), ih]
    · rw [List.dedup_cons_of_notMem ha]
      by_cases hk : a = k
      · subst hk
        have hn : a ∉ ks.dedup := fun h => ha (List.mem_dedup.mp h)
        rw [List.dedup_cons_of_mem (by simp), ih, List.erase_cons_head, List.erase_of_not_mem hn]
      · have hn : a ∉ ks ++ [k] := by
          rw [List.mem_append, List.mem_singleton]
          exact not_or.mpr ⟨ha, hk⟩
        rw [List.dedup_cons_of_notMem hn, ih, List.erase_cons_tail (by simpa using hk),
          List.cons_append]

section Keys

variable {s : LruStore κ ν} {key : κ}

/-- A `SET` that evicts nothing puts its key at the end. -/
theorem keys_executeLruSet (h : key ∈ s.data_store ∨ s.data_store.size < s.max_capacity)
    (value : ν) :
    (s.executeLruSet key value).1.data_store.keys = s.data_store.keys.erase key ++ [key] := by
  by_cases hm : key ∈ s.data_store
  · have hm' : key ∈ s.data_store.set key value := PyDict.mem_set.mpr (Or.inl rfl)
    rw [executeLruSet_of_mem hm]
    simp only [PyDict.keys_moveToEnd hm', PyDict.keys_set_of_mem hm]
  · have hkeys : s.data_store.keys.erase key = s.data_store.keys := List.erase_of_not_mem hm
    rw [executeLruSet_of_lt hm (h.resolve_left hm), hkeys]
    exact PyDict.keys_set_of_notMem hm value

/-- A `SET` that evicts drops the first key. -/
theorem keys_executeLruSet_of_ge (h : key ∉ s.data_store)
    (hge : s.max_capacity ≤ s.data_store.size) (value : ν) :
    (s.executeLruSet key value).1.data_store.keys = s.data_store.keys.tail ++ [key] := by
  have htail := PyDict.keys_popFirst s.data_store
  have hm : key ∉ s.data_store.popFirst := by
    intro hk
    rw [PyDict.mem_iff, htail] at hk
    exact h (List.mem_of_mem_tail hk)
  rw [executeLruSet_of_ge h hge, ← htail]
  exact PyDict.keys_set_of_notMem hm value

/-- A hitting `GET` puts its key at the end. -/
theorem keys_executeLruGet (h : key ∈ s.data_store) :
    (s.executeLruGet key).1.data_store.keys = s.data_store.keys.erase key ++ [key] := by
  unfold executeLruGet
  split
  · exact PyDict.keys_moveToEnd h
  · next hn => exact absurd h (PyDict.get?_eq_none_iff.mp hn)

theorem executeLruGet_of_notMem (h : key ∉ s.data_store) : s.executeLruGet key = (s, none) := by
  rw [executeLruGet, PyDict.get?_eq_none_iff.mpr h]

end Keys

/-! ## Retention -/

section Retention

/-- The key is in the store, and the keys behind it were all touched. -/
def Retained (k : κ) (touched : List κ) (ks : List κ) : Prop :=
  ∃ older newer, ks = older ++ k :: newer ∧ newer ⊆ touched

variable {k key : κ} {t ks : List κ}

omit [DecidableEq κ] in
theorem Retained.mem (h : Retained k t ks) : k ∈ ks := by
  obtain ⟨older, newer, rfl, -⟩ := h
  simp

omit [DecidableEq κ] in
theorem Retained.mono {t' : List κ} (h : Retained k t ks) (ht : t ⊆ t') : Retained k t' ks := by
  obtain ⟨older, newer, hks, hnewer⟩ := h
  exact ⟨older, newer, hks, fun a ha => ht (hnewer ha)⟩

/-- Another key leaves. -/
theorem Retained.erase (h : Retained k t ks) (hne : key ≠ k) : Retained k t (ks.erase key) := by
  obtain ⟨older, newer, rfl, hnewer⟩ := h
  by_cases ho : key ∈ older
  · exact ⟨older.erase key, newer, by rw [List.erase_append_left _ ho], hnewer⟩
  · refine ⟨older, newer.erase key, ?_, fun a ha => hnewer (List.mem_of_mem_erase ha)⟩
    rw [List.erase_append_right _ ho, List.erase_cons_tail (by simpa using hne.symm)]

omit [DecidableEq κ] in
/-- Another key comes in at the end. -/
theorem Retained.concat (h : Retained k t ks) (hkey : key ∈ t) : Retained k t (ks ++ [key]) := by
  obtain ⟨older, newer, rfl, hnewer⟩ := h
  refine ⟨older, newer ++ [key], by simp, fun a ha => ?_⟩
  rcases List.mem_append.mp ha with ha | ha
  · exact hnewer ha
  · rw [List.mem_singleton.mp ha]
    exact hkey

omit [DecidableEq κ] in
/-- The key itself comes in at the end. -/
theorem retained_concat (k : κ) (t ks : List κ) : Retained k t (ks ++ [k]) :=
  ⟨ks, [], rfl, List.nil_subset t⟩

/-- The first key leaves for a new one, in a store with as many keys as were touched. -/
theorem Retained.evict {t' : List κ} (h : Retained k t ks) (ht : t ⊆ t') (hnd : ks.Nodup)
    (hn : key ∉ ks) (hkey : key ∈ t') (hlt : (t'.toFinset.erase k).card < ks.length) :
    Retained k t' (ks.tail ++ [key]) := by
  obtain ⟨older, newer, rfl, hnewer⟩ := h
  cases older with
  | cons a older =>
    exact Retained.concat ⟨older, newer, rfl, fun x hx => ht (hnewer hx)⟩ hkey
  | nil =>
    -- the key itself cannot be the first: those behind it and the new one were all touched
    exfalso
    rw [List.nil_append, List.mem_cons, not_or] at hn
    rw [List.nil_append, List.nodup_cons] at hnd
    have hcard : (key :: newer).length ≤ (t'.toFinset.erase k).card := by
      rw [← List.toFinset_card_of_nodup (List.nodup_cons.mpr ⟨hn.2, hnd.2⟩)]
      refine Finset.card_le_card fun a ha => ?_
      rw [List.mem_toFinset, List.mem_cons] at ha
      rw [Finset.mem_erase, List.mem_toFinset]
      rcases ha with rfl | ha
      · exact ⟨hn.1, hkey⟩
      · exact ⟨fun hak => hnd.1 (hak ▸ ha), ht (hnewer ha)⟩
    simp only [List.nil_append, List.length_cons] at hlt hcard
    omega

end Retention

/-! ## Runs -/

variable [Truthy κ]

/-- The store after some requests. -/
def serveAll (s : LruStore κ ν) (rs : List (Request κ ν)) : LruStore κ ν :=
  rs.foldl (fun s r => (s.serve r).1) s

/-- The store of a new server after some requests. -/
def after (max_capacity : ℕ+) (rs : List (Request κ ν)) : LruStore κ ν :=
  (init max_capacity).serveAll rs

theorem serveAll_append (s : LruStore κ ν) (rs rs' : List (Request κ ν)) :
    s.serveAll (rs ++ rs') = (s.serveAll rs).serveAll rs' := List.foldl_append ..

theorem after_concat (max_capacity : ℕ+) (rs : List (Request κ ν)) (r : Request κ ν) :
    after max_capacity (rs ++ [r]) = ((after max_capacity rs).serve r).1 :=
  serveAll_append _ rs [r]

/-- The keys accessed by some requests, in order. -/
def accesses (s : LruStore κ ν) : List (Request κ ν) → List κ
  | [] => []
  | r :: rs => s.access r ++ (s.serve r).1.accesses rs

theorem accesses_concat (s : LruStore κ ν) (rs : List (Request κ ν)) (r : Request κ ν) :
    s.accesses (rs ++ [r]) = s.accesses rs ++ (s.serveAll rs).access r := by
  induction rs generalizing s with
  | nil => simp [accesses, serveAll]
  | cons r' rs ih =>
    rw [List.cons_append, accesses, accesses, ih, List.append_assoc]
    rfl

theorem keys_serve_del (s : LruStore κ ν) (key : κ) :
    (s.serve (.del key)).1.data_store.keys = s.data_store.keys.erase key := by
  simp only [serve]
  split_ifs with h
  · exact PyDict.keys_erase _ _
  · exact (List.erase_of_not_mem h).symm

/-! ## The order -/

/-- One request keeps the keys in the order of their last access. -/
theorem keys_serve_sublist {s : LruStore κ ν} {ks : List κ} (h : s.data_store.keys.Sublist ks.dedup)
    (r : Request κ ν) : (s.serve r).1.data_store.keys.Sublist (ks ++ s.access r).dedup := by
  cases r with
  | set key value =>
    simp only [access, dedup_concat]
    exact keys_executeLruSet_sublist h key value
  | get key =>
    simp only [access, serve]
    split_ifs with hm
    · rw [keys_executeLruGet hm, dedup_concat]
      exact (h.erase key).append_right [key]
    · rw [executeLruGet_of_notMem hm, List.append_nil]
      exact h
  | del key =>
    rw [keys_serve_del, access, List.append_nil]
    exact List.erase_sublist.trans h

theorem keys_after_sublist (max_capacity : ℕ+) (rs : List (Request κ ν)) :
    (after max_capacity rs).data_store.keys.Sublist ((init max_capacity).accesses rs).dedup := by
  induction rs using List.reverseRecOn with
  | nil => exact List.Sublist.refl _
  | append_singleton rs r ih =>
    rw [after_concat, accesses_concat]
    exact keys_serve_sublist ih r

/-- The keys are in the order of their last access, oldest first. -/
theorem keys_after (max_capacity : ℕ+) (rs : List (Request κ ν)) :
    (after max_capacity rs).data_store.keys = ((init max_capacity).accesses rs).dedup.filter
      (· ∈ (after max_capacity rs).data_store) := by
  refine eq_filter_of_sublist (List.nodup_dedup _) (keys_after_sublist max_capacity rs) ?_
  intro k
  rw [decide_eq_true_iff]
  exact PyDict.mem_iff

/-! ## The values -/

/-- A value after a request was there before, or is the one it sets. -/
theorem get?_serve_some {s : LruStore κ ν} {r : Request κ ν} {k : κ} {v : ν}
    (h : (s.serve r).1.data_store.get? k = some v) :
    r = .set k v ∨ s.data_store.get? k = some v ∧ ∀ v', r ≠ .set k v' := by
  cases r with
  | set key value =>
    simp only [serve] at h
    by_cases hk : k = key
    · subst hk
      refine Or.inl ?_
      by_cases hm : k ∈ s.data_store ∨ s.data_store.size < s.max_capacity
      · rw [get?_executeLruSet hm, if_pos rfl, Option.some.injEq] at h
        rw [h]
      · obtain ⟨hn, hge⟩ := not_or.mp hm
        rw [executeLruSet_of_ge hn (not_lt.mp hge)] at h
        simp only [PyDict.get?_set_self, Option.some.injEq] at h
        rw [h]
    · refine Or.inr ⟨?_, fun v' hr => hk ?_⟩
      · by_cases hm : key ∈ s.data_store ∨ s.data_store.size < s.max_capacity
        · rwa [get?_executeLruSet hm, if_neg hk] at h
        · obtain ⟨hn, hge⟩ := not_or.mp hm
          obtain ⟨e, ks, hks⟩ := exists_keys_of_ge (not_lt.mp hge)
          rw [get?_executeLruSet_of_ge hn (not_lt.mp hge) hks, if_neg hk] at h
          split_ifs at h
          exact h
      · injection hr with hkey
        exact hkey.symm
  | get key =>
    rw [serve, get?_executeLruGet] at h
    exact Or.inr ⟨h, fun v' hr => by cases hr⟩
  | del key =>
    refine Or.inr ⟨?_, fun v' hr => by cases hr⟩
    simp only [serve] at h
    split_ifs at h
    · rw [get?_delete] at h
      split_ifs at h
      exact h
    · exact h

/-- Every stored value is that of the latest `SET` of its key. -/
theorem get?_after {max_capacity : ℕ+} {rs : List (Request κ ν)} {k : κ} {v : ν}
    (h : (after max_capacity rs).data_store.get? k = some v) : lastSet k rs = some v := by
  induction rs using List.reverseRecOn with
  | nil => cases h
  | append_singleton rs r ih =>
    rw [after_concat] at h
    rcases get?_serve_some h with rfl | ⟨hold, hne⟩
    · simp [lastSet]
    · rw [lastSet_concat_of_ne hne]
      exact ih hold

/-! ## Retention in runs -/

/-- One request, other than a `DEL` of the key, keeps it while less than a capacity of other keys
has been touched. -/
theorem retained_serve {s : LruStore κ ν} {k : κ} {rs : List (Request κ ν)}
    (h : Retained k (touched rs) s.data_store.keys) {r : Request κ ν} (hdel : r ≠ .del k)
    (hlt : ((touched (rs ++ [r])).toFinset.erase k).card ≤ s.max_capacity - 1) :
    Retained k (touched (rs ++ [r])) (s.serve r).1.data_store.keys := by
  have hsub : touched rs ⊆ touched (rs ++ [r]) := by
    rw [touched_append]
    exact List.subset_append_left _ _
  have hmono := h.mono hsub
  cases r with
  | set key value =>
    have hkey : key ∈ touched (rs ++ [Request.set key value]) := by simp [touched]
    simp only [serve]
    by_cases hm : key ∈ s.data_store ∨ s.data_store.size < s.max_capacity
    · rw [keys_executeLruSet hm]
      by_cases hk : key = k
      · rw [hk]
        exact retained_concat k _ _
      · exact (hmono.erase hk).concat hkey
    · obtain ⟨hn, hge⟩ := not_or.mp hm
      rw [keys_executeLruSet_of_ge hn (not_lt.mp hge)]
      have hlen := PyDict.length_keys s.data_store
      have hpos := s.capacity_pos
      exact h.evict hsub s.data_store.nodup_keys hn hkey (by omega)
  | get key =>
    simp only [serve]
    by_cases hm : key ∈ s.data_store
    · rw [keys_executeLruGet hm]
      by_cases hk : key = k
      · rw [hk]
        exact retained_concat k _ _
      · exact (hmono.erase hk).concat (by simp [touched])
    · rw [executeLruGet_of_notMem hm]
      exact hmono
  | del key =>
    rw [keys_serve_del]
    exact hmono.erase fun hk => hdel (by rw [hk])

/-- An access puts its key at the end. -/
theorem retained_access {s : LruStore κ ν} {r : Request κ ν} {k : κ} (h : k ∈ s.access r) :
    Retained k [] (s.serve r).1.data_store.keys := by
  cases r with
  | set key value =>
    rw [List.mem_singleton.mp h]
    simp only [serve]
    by_cases hm : key ∈ s.data_store ∨ s.data_store.size < s.max_capacity
    · rw [keys_executeLruSet hm]
      exact retained_concat key _ _
    · obtain ⟨hn, hge⟩ := not_or.mp hm
      rw [keys_executeLruSet_of_ge hn (not_lt.mp hge)]
      exact retained_concat key _ _
  | get key =>
    simp only [access] at h
    split_ifs at h with hm
    · rw [List.mem_singleton.mp h, serve, keys_executeLruGet hm]
      exact retained_concat key _ _
    · cases h
  | del key => cases h

theorem max_capacity_after (max_capacity : ℕ+) (rs : List (Request κ ν)) :
    (after max_capacity rs).max_capacity = max_capacity := by
  induction rs using List.reverseRecOn with
  | nil => rfl
  | append_singleton rs r ih => rw [after_concat, max_capacity_serve, ih]

/-- Requests after an access of `k`, none of them its `DEL`, on less than a capacity of other
keys. -/
theorem retained_after {max_capacity : ℕ+} {pre post : List (Request κ ν)} {r : Request κ ν} {k : κ}
    (hr : k ∈ (after max_capacity pre).access r) (hdel : Request.del k ∉ post)
    (hle : ((touched post).toFinset.erase k).card ≤ max_capacity - 1) :
    Retained k (touched post) (after max_capacity (pre ++ r :: post)).data_store.keys := by
  induction post using List.reverseRecOn with
  | nil =>
    rw [after_concat]
    exact retained_access hr
  | append_singleton post r' ih =>
    rw [List.mem_append, List.mem_singleton, not_or] at hdel
    have hsub : (touched post).toFinset.erase k ⊆ (touched (post ++ [r'])).toFinset.erase k := by
      rw [touched_append, List.toFinset_append]
      exact Finset.erase_subset_erase k Finset.subset_union_left
    have hpost := ih hdel.1 ((Finset.card_le_card hsub).trans hle)
    rw [← List.cons_append, ← List.append_assoc, after_concat]
    refine retained_serve hpost (fun h => hdel.2 h.symm) ?_
    rw [max_capacity_after]
    exact hle

theorem size_after_le (max_capacity : ℕ+) (rs : List (Request κ ν)) :
    (after max_capacity rs).data_store.size ≤ max_capacity := by
  induction rs using List.reverseRecOn with
  | nil => exact Nat.zero_le _
  | append_singleton rs r ih =>
    have hcap := max_capacity_after max_capacity rs
    rw [after_concat]
    exact (size_serve_le _ r (by omega)).trans hcap.le

/-- The store is an LRU cache: after any requests on a new server it holds no more keys than its
capacity, each once and in the order of its last access; a key has the value of its latest `SET`,
which a hitting `GET` returns; and a key stays, from an access on and until a `DEL`, while less than
a capacity of other keys is touched. -/
theorem lru_correct (max_capacity : ℕ+) (rs : List (Request κ ν)) :
    let s := after max_capacity rs
    s.data_store.size ≤ max_capacity ∧ s.data_store.keys.Nodup ∧
    s.data_store.keys = ((init max_capacity).accesses rs).dedup.filter (· ∈ s.data_store) ∧
    (∀ k v, s.data_store.get? k = some v → lastSet k rs = some v) ∧
    (∀ k, k ∈ s.data_store → ∃ v, (s.executeLruGet k).2 = some v ∧ lastSet k rs = some v) ∧
    ∀ pre r post k, rs = pre ++ r :: post → k ∈ (after max_capacity pre).access r →
      Request.del k ∉ post → ((touched post).toFinset.erase k).card ≤ max_capacity - 1 →
      k ∈ s.data_store := by
  refine ⟨size_after_le max_capacity rs, PyDict.nodup_keys _, keys_after max_capacity rs,
    fun k v h => get?_after h, fun k hk => ?_, ?_⟩
  · obtain ⟨v, hv⟩ := PyDict.mem_iff_get?.mp hk
    refine ⟨v, ?_, get?_after hv⟩
    rw [executeLruGet, hv]
  · intro pre r post k hrs hr hdel hle
    rw [hrs]
    exact (retained_after hr hdel hle).mem

end LruStore

end JobSystem
