import JobSystem.Lib.Trans
import JobSystem.Cache.Server

/-!
# Replaying the log

A `GET` reorders the live store and is not logged, so the live store and the store that recovery
builds list their keys in different orders. They hold the same mapping as long as every eviction
is logged as a `DEL` before its `SET`; `execute_lru_set` leaves that out when the evicted key is
falsy, and then recovery evicts whatever is oldest in its own order.

* `setOrder`, **`keys_execAll`**: the order of the keys in a recovered store;
* `sameMap_serve`: one request;
* **`LruServer.replay_sameMap_iff`**: recovery rebuilds the mapping all along a run exactly when
  each eviction of the empty key also takes the oldest key of that order.
-/

namespace JobSystem

open PyText

namespace LruStore

variable {κ ν : Type} [DecidableEq κ]

/-! ## The key order of a recovered store -/

/-- The keys in the order of their last logged `SET`, oldest first. -/
def setOrder (log : List (LogCmd κ ν)) : List κ :=
  log.foldl (fun ks c => match c with
    | .set key _ => ks.erase key ++ [key]
    | .del key => ks.erase key) []

theorem setOrder_concat_set (log : List (LogCmd κ ν)) (key : κ) (value : ν) :
    setOrder (log ++ [.set key value]) = (setOrder log).erase key ++ [key] := by
  simp [setOrder, List.foldl_append]

theorem setOrder_concat_del (log : List (LogCmd κ ν)) (key : κ) :
    setOrder (log ++ [.del key]) = (setOrder log).erase key := by
  simp [setOrder, List.foldl_append]

theorem nodup_setOrder (log : List (LogCmd κ ν)) : (setOrder log).Nodup := by
  induction log using List.reverseRecOn with
  | nil => exact List.nodup_nil
  | append_singleton log c ih =>
    cases c with
    | set key value =>
      rw [setOrder_concat_set, List.nodup_append]
      refine ⟨ih.erase key, List.nodup_singleton key, fun a ha b hb hab => ?_⟩
      rw [hab, List.mem_singleton.mp hb] at ha
      exact ih.not_mem_erase ha
    | del key =>
      rw [setOrder_concat_del]
      exact ih.erase key

theorem keys_executeLruSet_sublist {s : LruStore κ ν} {ks : List κ}
    (h : s.data_store.keys.Sublist ks) (key : κ) (value : ν) :
    (s.executeLruSet key value).1.data_store.keys.Sublist (ks.erase key ++ [key]) := by
  by_cases hm : key ∈ s.data_store
  · rw [executeLruSet_of_mem hm]
    have hm' : key ∈ s.data_store.set key value := PyDict.mem_set.mpr (Or.inl rfl)
    simp only [PyDict.keys_moveToEnd hm', PyDict.keys_set_of_mem hm]
    exact (h.erase key).append_right [key]
  · have hkeys : (s.data_store.keys.erase key) = s.data_store.keys := List.erase_of_not_mem hm
    have hsub : s.data_store.keys.Sublist (ks.erase key) := hkeys ▸ h.erase key
    by_cases hlt : s.data_store.size < s.max_capacity
    · rw [executeLruSet_of_lt hm hlt]
      simp only [PyDict.keys_set_of_notMem hm]
      exact hsub.append_right [key]
    · rw [executeLruSet_of_ge hm (by omega)]
      have htail := PyDict.keys_popFirst s.data_store
      have hm' : key ∉ s.data_store.popFirst := fun hk => by
        rw [PyDict.mem_iff, htail] at hk
        exact hm (List.mem_of_mem_tail hk)
      simp only [PyDict.keys_set_of_notMem hm', htail]
      exact ((List.tail_sublist _).trans hsub).append_right [key]

/-- **The keys of a recovered store are in the order of their last logged `SET`.** -/
theorem keys_execAll_sublist (max_capacity : ℕ+) (log : List (LogCmd κ ν)) :
    ((init max_capacity).execAll log).data_store.keys.Sublist (setOrder log) := by
  induction log using List.reverseRecOn with
  | nil => exact List.Sublist.refl _
  | append_singleton log c ih =>
    rw [execAll_concat]
    cases c with
    | set key value =>
      rw [setOrder_concat_set]
      exact keys_executeLruSet_sublist ih key value
    | del key =>
      rw [setOrder_concat_del]
      simp only [exec, delete, PyDict.keys_erase]
      exact ih.erase key

omit [DecidableEq κ] in
/-- A sublist of a list without repetitions is the selection of its members. -/
theorem eq_filter_of_sublist {l l' : List κ} {p : κ → Bool} (hl : l.Nodup) (h : l'.Sublist l)
    (hp : ∀ a, a ∈ l' ↔ p a = true) : l' = l.filter p := by
  have hsub : l'.Sublist (l.filter p) := by
    have hself : l'.filter p = l' := List.filter_eq_self.mpr fun a ha => (hp a).mp ha
    rw [← hself]
    exact h.filter p
  refine hsub.eq_of_length (List.Perm.length_eq ?_)
  rw [List.perm_ext_iff_of_nodup (hl.sublist h) (hl.filter p)]
  intro a
  rw [List.mem_filter, ← hp]
  exact ⟨fun ha => ⟨h.subset ha, ha⟩, And.right⟩

/-! ## One request -/

section Step

variable {s : LruStore κ ν} {max_capacity : ℕ+} {log : List (LogCmd κ ν)}

/-- The oldest key of the recovered store. -/
theorem keys_execAll_of_sameMap (h : SameMap ((init max_capacity).execAll log) s) :
    ((init max_capacity).execAll log).data_store.keys =
      (setOrder log).filter (· ∈ s.data_store) := by
  refine eq_filter_of_sublist (nodup_setOrder log) (keys_execAll_sublist max_capacity log) ?_
  intro a
  rw [decide_eq_true_iff]
  exact h.mem_iff a

variable [Truthy κ]

/-- A `SET` that evicts a falsy key: that key is also the first of the live keys in the order of
their last logged `SET`. -/
def EvictsInSetOrder (s : LruStore κ ν) (log : List (LogCmd κ ν)) : Request κ ν → Prop
  | .set key _ => key ∉ s.data_store → s.max_capacity ≤ s.data_store.size →
      ∀ e, s.data_store.keys.head? = some e → Truthy.truthy e = false →
        ((setOrder log).filter (· ∈ s.data_store)).head? = some e
  | _ => True

section Set

variable {t : LruStore κ ν} {key e : κ} {ks : List κ}

omit [Truthy κ] in
/-- No eviction on either side. -/
theorem SameMap.set_of_room (h : SameMap t s) (hcap : t.max_capacity = s.max_capacity)
    (hm : key ∈ s.data_store ∨ s.data_store.size < s.max_capacity) (value : ν) :
    SameMap (t.executeLruSet key value).1 (s.executeLruSet key value).1 := by
  intro k
  rw [get?_executeLruSet hm, get?_executeLruSet (by rwa [h.mem_iff key, h.size_eq, hcap]), h k]

omit [Truthy κ] in
/-- The eviction is logged, and recovery has room for the new key. -/
theorem SameMap.set_of_logged (h : SameMap t s) (hcap : t.max_capacity = s.max_capacity)
    (hle : s.data_store.size ≤ s.max_capacity) (hn : key ∉ s.data_store)
    (hge : s.max_capacity ≤ s.data_store.size) (hk : s.data_store.keys = e :: ks) (value : ν) :
    SameMap ((t.delete e).executeLruSet key value).1 (s.executeLruSet key value).1 := by
  have hmem : e ∈ s.data_store := by
    rw [PyDict.mem_iff, hk]
    exact List.mem_cons_self
  have hroom : (t.delete e).data_store.size < (t.delete e).max_capacity := by
    have hlt := PyDict.size_erase_of_mem ((h.mem_iff e).mpr hmem)
    have hsize := h.size_eq
    simp only [delete]
    omega
  intro k
  rw [get?_executeLruSet_of_ge hn hge hk, get?_executeLruSet (Or.inr hroom), get?_delete, h k]

omit [Truthy κ] in
/-- The eviction is not logged, and recovery evicts its own oldest key. -/
theorem SameMap.set_iff_of_unlogged (h : SameMap t s) (hcap : t.max_capacity = s.max_capacity)
    (hn : key ∉ s.data_store) (hge : s.max_capacity ≤ s.data_store.size)
    (hk : s.data_store.keys = e :: ks) {e' : κ} {ks' : List κ}
    (hk' : t.data_store.keys = e' :: ks') (value : ν) :
    SameMap (t.executeLruSet key value).1 (s.executeLruSet key value).1 ↔ e' = e := by
  have hlive := get?_executeLruSet_of_ge hn hge hk value
  have hn' : key ∉ t.data_store := fun hk => hn ((h.mem_iff key).mp hk)
  have hge' : t.max_capacity ≤ t.data_store.size := by rwa [h.size_eq, hcap]
  have hrec := get?_executeLruSet_of_ge hn' hge' hk' value
  have hmem : e ∈ s.data_store := by
    rw [PyDict.mem_iff, hk]
    exact List.mem_cons_self
  have hne : e ≠ key := fun he => hn (he ▸ hmem)
  constructor
  · intro hsame
    have hlost := hsame e
    rw [hrec, hlive, if_neg hne, if_pos rfl, if_neg hne] at hlost
    by_contra hee
    rw [if_neg (Ne.symm hee), h e] at hlost
    exact PyDict.get?_eq_none_iff.mp hlost hmem
  · rintro rfl k
    rw [hrec, hlive, h k]

end Set

/-- **One request.** Recovery follows it exactly when an unlogged eviction is one that recovery
makes as well. -/
theorem sameMap_serve (h : SameMap ((init max_capacity).execAll log) s)
    (hcap : s.max_capacity = max_capacity) (hle : s.data_store.size ≤ s.max_capacity)
    (r : Request κ ν) :
    SameMap ((init max_capacity).execAll (log ++ (s.serve r).2)) (s.serve r).1 ↔
      EvictsInSetOrder s log r := by
  have hkeys := keys_execAll_of_sameMap h
  have hcap' : ((init max_capacity).execAll log).max_capacity = s.max_capacity := by
    rw [max_capacity_execAll, hcap]
    rfl
  rw [execAll_append]
  generalize (init max_capacity).execAll log = t at h hkeys hcap'
  cases r with
  | get key =>
    refine iff_of_true (fun k => ?_) trivial
    exact (h k).trans (get?_executeLruGet s key k).symm
  | del key =>
    refine iff_of_true (fun k => ?_) trivial
    simp only [serve]
    split_ifs with hm
    · change (t.delete key).data_store.get? k = (s.delete key).data_store.get? k
      rw [get?_delete, get?_delete, h k]
    · exact h k
  | set key value =>
    by_cases hm : key ∈ s.data_store ∨ s.data_store.size < s.max_capacity
    · have hlog : (s.serve (.set key value)).2 = [.set key value] := by
        simp only [serve, snd_executeLruSet hm, setLog]
      rw [hlog]
      exact iff_of_true (h.set_of_room hcap' hm value) fun hn hge =>
        absurd (hm.resolve_left hn) (by omega)
    · obtain ⟨hn, hge⟩ := not_or.mp hm
      rw [not_lt] at hge
      obtain ⟨e, ks, hk⟩ := exists_keys_of_ge hge
      have hev : (s.executeLruSet key value).2 = some e := by
        rw [executeLruSet_of_ge hn hge, hk]
        rfl
      cases hte : Truthy.truthy e with
      | true =>
        have hlog : (s.serve (.set key value)).2 = [.del e, .set key value] := by
          simp only [serve, hev, setLog, hte, if_true]
        rw [hlog]
        refine iff_of_true (h.set_of_logged hcap' hle hn hge hk value) fun _ _ e' he' hf => ?_
        rw [hk, List.head?_cons, Option.some.injEq] at he'
        rw [← he', hte] at hf
        cases hf
      | false =>
        have hlog : (s.serve (.set key value)).2 = [.set key value] := by
          simp only [serve, hev, setLog, hte, Bool.false_eq_true, if_false]
        obtain ⟨e', ks', hk'⟩ := exists_keys_of_ge (s := t) (by rwa [h.size_eq, hcap'])
        have hguard : EvictsInSetOrder s log (.set key value) ↔ e' = e := by
          simp only [EvictsInSetOrder, hk, ← hkeys, hk', List.head?_cons, Option.some.injEq]
          exact ⟨fun hg => hg hn hge e rfl hte, fun he _ _ e₁ he₁ _ => he.trans he₁⟩
        rw [hlog, hguard]
        exact h.set_iff_of_unlogged hcap' hn hge hk hk' value

end Step

end LruStore

/-! ## A run of the server -/

namespace LruServer

/-- Recovery from a log rebuilds the mapping of a store. -/
def Rebuilds (max_capacity : ℕ+) (log : List (LogCmd Key Value)) (store : LruStore Key Value) :
    Prop :=
  ∃ t, (init max_capacity).replayAll (log.map fun c => .list c.array) = some t ∧
    LruStore.SameMap t.store store

theorem rebuilds_iff {max_capacity : ℕ+} {log : List (LogCmd Key Value)}
    (h : ∀ c ∈ log, c.IsText) (store : LruStore Key Value) : Rebuilds max_capacity log store ↔
      LruStore.SameMap ((LruStore.init max_capacity).execAll log) store := by
  simp only [Rebuilds, replayAll_array h, Option.some.injEq]
  exact ⟨fun ⟨t, ht, hs⟩ => by cases ht; exact hs, fun hs => ⟨_, rfl, hs⟩⟩

/-- What requests on strings keep: the capacity, and string keys in the store and in the log. -/
structure TextState (max_capacity : ℕ+) (s : LruServer) : Prop where
  capacity : s.store.max_capacity = max_capacity
  size_le : s.store.data_store.size ≤ s.store.max_capacity
  keys : ∀ k ∈ s.store.data_store, ∃ t, k = .str t
  log : ∀ c ∈ s.log, c.IsText

theorem textState_init (max_capacity : ℕ+) : TextState max_capacity (init max_capacity) where
  capacity := rfl
  size_le := Nat.zero_le _
  keys := fun k hk => absurd hk (PyDict.notMem_empty k)
  log := fun _ hc => absurd hc List.not_mem_nil

theorem TextState.serve {max_capacity : ℕ+} {s : LruServer} (h : TextState max_capacity s)
    (r : Request Str Str) : TextState max_capacity (s.serve r.text) where
  capacity := (LruStore.max_capacity_serve s.store r.text).trans h.capacity
  size_le := by
    have := LruStore.size_serve_le s.store r.text h.size_le
    rwa [← LruStore.max_capacity_serve s.store r.text] at this
  keys := by
    intro k hk
    rcases LruStore.mem_of_mem_serve hk with hk | ⟨v, hr⟩
    · exact h.keys k hk
    · cases r with
      | set key value => cases hr; exact ⟨key, rfl⟩
      | get key => cases hr
      | del key => cases hr
  log := by
    intro c hc
    rcases List.mem_append.mp hc with hc | hc
    · exact h.log c hc
    · rcases LruStore.key_of_mem_serve hc with hk | hk
      · exact ⟨r.key, hk.trans r.key_text⟩
      · exact h.keys _ hk

/-- The server as a machine over requests on strings. -/
def textMachine : Trans.Machine LruServer (Request Str Str) := fun r s => some (s.serve r.text)

theorem run_textMachine (requests : List (Request Str Str)) (s : LruServer) :
    Trans.run textMachine requests s = some (s.serveAll (requests.map .text)) := by
  induction requests generalizing s with
  | nil => rfl
  | cons r requests ih => exact ih (s.serve r.text)

/-- **Recovery rebuilds the mapping all along a run exactly when every eviction of a falsy key takes
the oldest key in the order of the logged `SET`s.** -/
theorem replay_sameMap_iff (max_capacity : ℕ+) (requests : List (Request Str Str)) :
    (∀ p, p <+: requests → Rebuilds max_capacity
        ((init max_capacity).serveAll (p.map .text)).log
        ((init max_capacity).serveAll (p.map .text)).store) ↔
      ∀ p r, p ++ [r] <+: requests →
        LruStore.EvictsInSetOrder ((init max_capacity).serveAll (p.map .text)).store
          ((init max_capacity).serveAll (p.map .text)).log r.text := by
  let G : LruServer → Request Str Str → Prop := fun s r =>
    LruStore.EvictsInSetOrder s.store s.log r.text
  let P : LruServer → Prop := fun s => Rebuilds max_capacity s.log s.store
  have hstep : ∀ r s s', TextState max_capacity s → P s → textMachine r s = some s' →
      (P s' ↔ G s r) := by
    intro r s s' hs hP hr
    cases hr
    have hsame := (rebuilds_iff hs.log s.store).mp hP
    refine (rebuilds_iff (hs.serve r).log (s.serve r.text).store).trans ?_
    exact LruStore.sameMap_serve hsame hs.capacity hs.size_le r.text
  have hinit : P (init max_capacity) := ⟨_, rfl, fun _ => rfl⟩
  have hrun : (∀ p t, p <+: requests → Trans.run textMachine p (init max_capacity) = some t →
      P t) ↔ Trans.Guarded textMachine G requests (init max_capacity) :=
    Trans.run_invariant_iff (fun r s s' hs _ hr _ => by cases hr; exact hs.serve r) hstep
      (fun r s hr => by cases hr) (textState_init max_capacity) hinit
  rw [Trans.guarded_iff_forall] at hrun
  simp only [run_textMachine, Option.some.injEq] at hrun
  constructor
  · intro h p r hp
    exact hrun.mp (fun p t hp ht => ht ▸ h p hp) p r _ hp rfl
  · intro h p hp
    exact hrun.mpr (fun p r t hp ht => ht ▸ h p r hp) p _ hp rfl

/-- The eviction of the empty key is not logged, and recovery evicts `a` instead. -/
theorem not_rebuilds_empty_key :
    let s := (init 2).serveAll ([.set ['a'] ['1'], .set [] ['2'], .get ['a'],
      .set ['b'] ['3']].map Request.text)
    ¬ Rebuilds 2 s.log s.store := by
  rintro s ⟨t, ht, hs⟩
  cases ht
  exact absurd (hs.mem_iff (.str [])) (by decide)

end LruServer

end JobSystem
