import Mathlib

/-!
# A publish-subscribe bus

Every subscription has a first-in first-out channel of its own. A published event goes to the channel
of each subscription that listens to it; a subscriber takes the head of its channel.

* `publish`, `publishAll`, `rest`;
* `publishAll_apply`, `length_publishAll`: a channel after some events;
* `Heard`: every channel holds only what its subscription listens to.
-/

/-- The events that wait at each subscription. -/
def Bus (σ ε : Type) := σ → List ε

namespace Bus

variable {σ ε : Type}

/-- Nothing waits. -/
def silent : Bus σ ε := fun _ => []

/-- One event. -/
def publish (listens : σ → ε → Bool) (bus : Bus σ ε) (e : ε) : Bus σ ε := fun s =>
  if listens s e then bus s ++ [e] else bus s

/-- Some events, in order. -/
def publishAll (listens : σ → ε → Bool) (bus : Bus σ ε) (es : List ε) : Bus σ ε :=
  es.foldl (publish listens) bus

/-- The bus after a subscriber has taken the head of its channel. -/
def rest [DecidableEq σ] (bus : Bus σ ε) (s : σ) : Bus σ ε := Function.update bus s (bus s).tail

/-- Each subscription hears only what it listens to. -/
def Heard (listens : σ → ε → Bool) (bus : Bus σ ε) : Prop := ∀ s, ∀ e ∈ bus s, listens s e = true

section

variable {listens : σ → ε → Bool} {bus : Bus σ ε}

theorem publish_apply (e : ε) (s : σ) :
    publish listens bus e s = if listens s e then bus s ++ [e] else bus s := rfl

theorem mem_publish {e e' : ε} {s : σ} :
    e' ∈ publish listens bus e s ↔ e' ∈ bus s ∨ listens s e = true ∧ e' = e := by
  rw [publish_apply]
  split_ifs with h <;> simp [h]

theorem publishAll_apply (es : List ε) (s : σ) :
    publishAll listens bus es s = bus s ++ es.filter (listens s) := by
  induction es generalizing bus with
  | nil => exact (List.append_nil _).symm
  | cons e es ih =>
    show publishAll listens (publish listens bus e) es s = _
    rw [ih, publish_apply, List.filter_cons]
    split_ifs
    · rw [List.append_assoc, List.singleton_append]
    · rfl

/-- What nobody listens to changes nothing. -/
theorem publishAll_of_unheard {es : List ε} (h : ∀ e ∈ es, ∀ s, listens s e = false) :
    publishAll listens bus es = bus := by
  funext s
  rw [publishAll_apply, List.filter_eq_nil_iff.mpr fun e he => by simp [h e he s], List.append_nil]

theorem publishAll_append (es es' : List ε) :
    publishAll listens bus (es ++ es') = publishAll listens (publishAll listens bus es) es' :=
  List.foldl_append

theorem Heard.silent : Heard listens (silent : Bus σ ε) := fun _ _ he => (List.not_mem_nil he).elim

theorem Heard.publish (h : Heard listens bus) (e : ε) : Heard listens (publish listens bus e) := by
  intro s e' he'
  rcases mem_publish.mp he' with he' | ⟨hs, rfl⟩
  · exact h s e' he'
  · exact hs

theorem Heard.publishAll (h : Heard listens bus) (es : List ε) :
    Heard listens (publishAll listens bus es) := by
  induction es generalizing bus with
  | nil => exact h
  | cons e es ih => exact ih (h.publish e)

theorem length_publishAll (es : List ε) (s : σ) :
    (publishAll listens bus es s).length = (bus s).length + es.countP (listens s) := by
  rw [publishAll_apply, List.length_append, List.countP_eq_length_filter]

variable [DecidableEq σ]

theorem rest_self (s : σ) : bus.rest s s = (bus s).tail := Function.update_self _ _ _

theorem rest_ne {s s' : σ} (h : s' ≠ s) : bus.rest s s' = bus s' := Function.update_of_ne h _ _

theorem mem_of_mem_rest {s s' : σ} {e : ε} (h : e ∈ bus.rest s s') : e ∈ bus s' := by
  by_cases hs : s' = s
  · subst hs
    rw [rest_self] at h
    exact List.mem_of_mem_tail h
  · rwa [rest_ne hs] at h

theorem Heard.rest (h : Heard listens bus) (s : σ) : Heard listens (bus.rest s) :=
  fun s' e he => h s' e (mem_of_mem_rest he)

theorem mem_rest_of_ne {s s' : σ} (h : s' ≠ s) {e : ε} (he : e ∈ bus s') : e ∈ bus.rest s s' := by
  rwa [rest_ne h]

/-- What waits behind the head of the channel still waits. -/
theorem eq_head_or_mem_rest {s s' : σ} {e e' : ε} {es : List ε} (h : bus s = e :: es)
    (he : e' ∈ bus s') : s' = s ∧ e' = e ∨ e' ∈ bus.rest s s' := by
  by_cases hs : s' = s
  · subst hs
    rw [h] at he
    rcases List.mem_cons.mp he with he | he
    · exact .inl ⟨rfl, he⟩
    · refine .inr ?_
      rw [rest_self, h]
      exact he
  · exact .inr (mem_rest_of_ne hs he)

end

end Bus
