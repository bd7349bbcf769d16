import JobSystem.Cache.Linearizable

/-!
# What `set`, `get` and `delete` return

The methods turn an exception of `_send_command` into `False` or `None`. What else they return says
what has happened to the key, in the order in which the calls take effect.

* `Writes`, `LastWrite`: the last call on a key before a place in the order;
* `get?_after`: what the store has for a key;
* **`methods_explained`**.
-/

namespace JobSystem

open PyText

namespace CacheCall

/-- A call that writes a key. -/
def Writes (key : Str) : CacheCall → Prop
  | .set key' _ => key'.text = key
  | .get _ => False
  | .delete key' => key'.text = key

end CacheCall

/-- The last of the calls that write a key is a `set` of the text. -/
def LastWrite {ι : Type} (calls : List (ι × CacheCall)) (key text : Str) : Prop :=
  ∃ before j key' value rest, calls = before ++ (j, .set key' value) :: rest ∧ key'.text = key ∧
    value.text = text ∧ ∀ call ∈ rest, ¬ call.2.Writes key

section Store

variable {ι : Type} {max_capacity : ℕ+}

theorem LastWrite.concat {calls : List (ι × CacheCall)} {key text : Str}
    (h : LastWrite calls key text) {call : ι × CacheCall} (hcall : ¬ call.2.Writes key) :
    LastWrite (calls ++ [call]) key text := by
  obtain ⟨before, j, key', value, rest, rfl, hkey, htext, hrest⟩ := h
  refine ⟨before, j, key', value, rest ++ [call], ?_, hkey, htext, fun c hc => ?_⟩
  · rw [List.append_assoc, List.cons_append]
  · rcases List.mem_append.mp hc with hc | hc
    · exact hrest c hc
    · rwa [List.mem_singleton.mp hc]

/-- **What the store has** for a key is what the last write has set. -/
theorem get?_after {calls : List (ι × CacheCall)} {key : Str} {v : Value}
    (h : (Linear.after cacheObject (.init max_capacity) calls).data_store.get? (.str key) =
      some v) : ∃ text, v = .str text ∧ LastWrite calls key text := by
  induction calls using List.reverseRecOn generalizing v with
  | nil => cases h
  | append_singleton calls call ih =>
    rw [Linear.after_concat] at h
    obtain ⟨j, call⟩ := call
    cases call with
    | set key' value =>
      change ((Linear.after cacheObject (.init max_capacity) calls).executeLruSet (.str key'.text)
        (.str value.text)).1.data_store.get? (.str key) = some v at h
      by_cases hkey : key'.text = key
      · rw [← hkey, LruStore.get?_executeLruSet_self] at h
        cases h
        exact ⟨value.text, rfl, calls, j, key', value, [], rfl, hkey, rfl,
          fun c hc => absurd hc List.not_mem_nil⟩
      · rcases LruStore.get?_executeLruSet_cases h with ⟨heq, -⟩ | hold
        · exact absurd (Key.str.inj heq).symm hkey
        · obtain ⟨text, rfl, hlast⟩ := ih hold
          exact ⟨text, rfl, hlast.concat hkey⟩
    | get key' =>
      have hsame : (Linear.after cacheObject (.init max_capacity) calls).data_store.get?
          (.str key) = some v := by
        rw [← h]
        exact (LruStore.get?_executeLruGet _ _ _).symm
      obtain ⟨text, rfl, hlast⟩ := ih hsame
      exact ⟨text, rfl, hlast.concat id⟩
    | delete key' =>
      change ((Linear.after cacheObject (.init max_capacity) calls).serve
        (.del (.str key'.text))).1.data_store.get? (.str key) = some v at h
      rw [LruStore.serve] at h
      split_ifs at h with hmem
      · rw [LruStore.get?_delete] at h
        split_ifs at h with hkey
        obtain ⟨text, rfl, hlast⟩ := ih h
        exact ⟨text, rfl, hlast.concat fun hwrites => hkey (congrArg Key.str hwrites.symm)⟩
      · have hkey : key'.text ≠ key := by
          rintro rfl
          exact hmem (PyDict.mem_of_get? h)
        obtain ⟨text, rfl, hlast⟩ := ih h
        exact ⟨text, rfl, hlast.concat hkey⟩

end Store

namespace CachePool

/-- What the return value of a method stands for, by the order in which the calls take effect. -/
def MethodExplained {ι : Type} [DecidableEq ι] (order : List (ι × CacheCall)) (i : ι)
    (outcome : Option Value) : CacheCall → Prop
  | .set _ _ => setResult outcome = true → (order.map Prod.fst).count i = 1
  | .get key => ∀ text, getResult outcome = .str text → ∃ before rest,
      order = before ++ (i, .get key) :: rest ∧ LastWrite before key.text text
  | .delete key => deleteResult outcome = true → ∃ before rest text,
      order = before ++ (i, .delete key) :: rest ∧ LastWrite before key.text text

/-- **What the methods return**, in a run in which each request arrives in one piece. A `set` that
returns `True` has taken effect, once; a `get` that returns a text returns what the last write to the
key had set when it took effect; and a `delete` that returns `True` has removed such a text. -/
theorem methods_explained {ι : Type} [DecidableEq ι] (listStr : List Value → Str) (pool_size : ℕ)
    {max_capacity : ℕ+} {steps : List (Step ι)} {s : State ι}
    (hrun : Trans.run (step listStr pool_size) steps (start max_capacity) = some s)
    (hcalm : Trans.Guarded (step listStr pool_size) Calm steps (start max_capacity)) {i : ι}
    {outcome : Option Value} (hdone : s.phase i = .done outcome) {call : CacheCall}
    (hcall : .begin_ i call ∈ s.moments) :
    MethodExplained (Linear.effects s.moments) i outcome call := by
  have h := tidy_run hrun hcalm
  have horder := Linear.linearizes_effects h.pointed
  -- a call with an outcome has taken effect, with the result it had there
  have hplace : ∀ val, outcome = some val → ∃ before rest,
      Linear.effects s.moments = before ++ (i, call) :: rest ∧
      val = call.result (Linear.after cacheObject (.init max_capacity) before) := by
    rintro val rfl
    obtain ⟨before, call', rest, heq, hval⟩ :=
      Linear.mem_results (horder.returned i val (h.returned hdone))
    have hmem : (i, call') ∈ Linear.effects s.moments :=
      heq ▸ List.mem_append_right _ List.mem_cons_self
    cases h.pointed.begin_unique (horder.began i call' hmem) hcall
    exact ⟨before, rest, heq, hval⟩
  cases outcome with
  | none =>
    cases call with
    | set key value => exact fun htrue => Bool.noConfusion htrue
    | get key => exact fun text htext => by cases htext
    | delete key => exact fun htrue => Bool.noConfusion htrue
  | some val =>
    obtain ⟨before, rest, heq, hval⟩ := hplace val rfl
    cases call with
    | set key value =>
      intro _
      refine List.count_eq_one_of_mem horder.once ?_
      rw [heq]
      exact List.mem_map_of_mem (List.mem_append_right _ List.mem_cons_self)
    | get key =>
      intro text htext
      refine ⟨before, rest, heq, ?_⟩
      change val = .str text at htext
      rw [hval, CacheCall.result, LruStore.executeLruGet] at htext
      cases hget : (Linear.after cacheObject (.init max_capacity) before).data_store.get?
          (.str key.text) with
      | none =>
        rw [hget] at htext
        cases htext
      | some v =>
        rw [hget] at htext
        obtain ⟨text', rfl, hlast⟩ := get?_after hget
        cases htext
        exact hlast
    | delete key =>
      intro htrue
      subst hval
      by_cases hmem : Key.str key.text ∈
          (Linear.after cacheObject (.init max_capacity) before).data_store
      · obtain ⟨v, hget⟩ := PyDict.mem_iff_get?.mp hmem
        obtain ⟨text, -, hlast⟩ := get?_after hget
        exact ⟨before, rest, text, heq, hlast⟩
      · rw [CacheCall.result, if_neg hmem] at htrue
        exact Bool.noConfusion htrue

/-- The `get` of the overlapping calls returns the text that the `set` has set. -/
theorem methods_explained_overlapping : ∃ s : State Bool,
    Trans.run (step (fun _ => []) 1) overlapping (start 2) = some s ∧
      s.phase true = .done (some (.str ['v'])) ∧
      MethodExplained (Linear.effects s.moments) true (some (.str ['v']))
        (.get (oneChar 'k' (by decide))) := by
  have hends : (Trans.run (step (fun _ => []) 1) overlapping (start 2)).map
      (fun s => (s.phase true, s.moments[1]?)) = some (.done (some (.str ['v'])),
        some (.begin_ true (.get (oneChar 'k' (by decide))))) := rfl
  have hcalm : Trans.Guarded (step (fun _ => []) 1) Calm overlapping (start 2) := by
    decide +kernel
  obtain ⟨s, hrun, hs⟩ := Option.map_eq_some_iff.mp hends
  obtain ⟨hdone, hbegin⟩ := Prod.mk.inj hs
  exact ⟨s, hrun, hdone, methods_explained (fun _ => []) 1 hrun hcalm hdone
    (List.mem_of_getElem? hbegin)⟩

end CachePool

end JobSystem
