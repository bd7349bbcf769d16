import JobSystem.Lib.WriteLog
import JobSystem.Cache.Replay

/-!
# Concurrent clients of the cache

The critical sections as atomic steps: a `SET` runs its `store_lock` section and then, with the lock
released, one `aof_lock` section for each command it logs; a `DEL` logs inside its `store_lock`
section. Commands that wait for their append are `pending`, in the order of the store sections.

* `Clients.step`: the sections; `Clients.InOrder`: a section that keeps the log in store order;
* `Inv`, `inv_step`: the live store is the log followed by the pending commands, and recovery
  executes the log without an eviction of its own;
* **`Clients.rebuilds_of_inOrder`**: a run of sections in order leaves a log that rebuilds the
  store.
-/

namespace JobSystem

open PyText

variable {κ ν : Type}

/-- The store, the log and the commands that wait for their append. -/
structure Clients (κ ν : Type) where
  store : LruStore κ ν
  log : List (LogCmd κ ν)
  pending : List (ℕ × List (LogCmd κ ν))

/-- The `store_lock` section of a client's request, or the next `aof_lock` section of a client. -/
inductive ClientStep (κ ν : Type) where
  | storeSection (client : ℕ) (request : Request κ ν)
  | append (client : ℕ)

/-- A logged command as a write. -/
def LogCmd.write : LogCmd κ ν → Write κ ν
  | .set key value => ⟨key, some value⟩
  | .del key => ⟨key, none⟩

theorem LogCmd.key_write (c : LogCmd κ ν) : c.write.key = c.key := by
  cases c <;> rfl

/-- The pending commands, in order. -/
def waiting (pending : List (ℕ × List (LogCmd κ ν))) : List (LogCmd κ ν) := pending.flatMap Prod.snd

/-- The writes of a list of commands. -/
def writes (cmds : List (LogCmd κ ν)) : List (Write κ ν) := cmds.map LogCmd.write

theorem waiting_cons (p : ℕ × List (LogCmd κ ν)) (ps : List (ℕ × List (LogCmd κ ν))) :
    waiting (p :: ps) = p.2 ++ waiting ps := rfl

theorem waiting_append (ps qs : List (ℕ × List (LogCmd κ ν))) :
    waiting (ps ++ qs) = waiting ps ++ waiting qs := List.flatMap_append

theorem writes_append (l l' : List (LogCmd κ ν)) : writes (l ++ l') = writes l ++ writes l' :=
  List.map_append

namespace Clients

/-- A new server. -/
def init (max_capacity : ℕ+) : Clients κ ν := ⟨.init max_capacity, [], []⟩

/-- The pending commands of the sections before the client's. -/
def earlier (s : Clients κ ν) (client : ℕ) : List (ℕ × List (LogCmd κ ν)) :=
  s.pending.takeWhile fun p => p.1 ≠ client

/-- The client's pending commands, and those of the sections after it. -/
def own (s : Clients κ ν) (client : ℕ) : List (ℕ × List (LogCmd κ ν)) :=
  s.pending.dropWhile fun p => p.1 ≠ client

theorem earlier_append_own (s : Clients κ ν) (client : ℕ) :
    s.earlier client ++ s.own client = s.pending :=
  List.takeWhile_append_dropWhile

variable [DecidableEq κ] [Truthy κ]

/-- One atomic section. A client starts its next request when nothing of it is pending. -/
def step : Trans.Machine (Clients κ ν) (ClientStep κ ν)
  | .storeSection client request, s =>
    if s.own client = [] then
      match request with
      | .set _ _ =>
        some { s with
          store := (s.store.serve request).1
          pending := s.pending ++ [(client, (s.store.serve request).2)] }
      | _ =>
        some { s with
          store := (s.store.serve request).1
          log := s.log ++ (s.store.serve request).2 }
    else none
  | .append client, s =>
    match s.own client with
    | (_, cmd :: rest) :: later =>
      some { s with
        log := s.log ++ [cmd]
        pending := s.earlier client ++ (if rest = [] then later else (client, rest) :: later) }
    | _ => none

/-- A section keeps the log in store order: no command on the key it logs is pending from an
earlier store section. -/
def InOrder (s : Clients κ ν) : ClientStep κ ν → Prop
  | .storeSection _ (.del key) =>
    key ∈ s.store.data_store → ∀ c ∈ waiting s.pending, c.key ≠ key
  | .storeSection _ _ => True
  | .append client =>
    ∀ p ∈ (s.own client).head?, ∀ cmd ∈ p.2.head?, ∀ c ∈ waiting (s.earlier client), c.key ≠ cmd.key

instance (s : Clients κ ν) : (l : ClientStep κ ν) → Decidable (s.InOrder l)
  | .storeSection _ (.del key) =>
    inferInstanceAs (Decidable (key ∈ s.store.data_store → ∀ c ∈ waiting s.pending, c.key ≠ key))
  | .storeSection _ (.set _ _) => isTrue trivial
  | .storeSection _ (.get _) => isTrue trivial
  | .append client => inferInstanceAs (Decidable (∀ p ∈ (s.own client).head?,
      ∀ cmd ∈ p.2.head?, ∀ c ∈ waiting (s.earlier client), c.key ≠ cmd.key))

end Clients

/-! ## The blocks of pending commands -/

section Blocks

variable [DecidableEq κ]

/-- The commands of one `SET`, over the mapping that they meet: an evicting `SET` is the first of
its key. -/
def BlockOk (d : PyDict κ ν) (cmds : List (LogCmd κ ν)) : Prop :=
  (∃ key value, cmds = [.set key value]) ∨
    ∃ e key value, cmds = [.del e, .set key value] ∧ key ∉ d

/-- All blocks, one after the other. -/
def BlocksOk : PyDict κ ν → List (ℕ × List (LogCmd κ ν)) → Prop
  | _, [] => True
  | d, p :: ps => BlockOk d p.2 ∧ BlocksOk (Write.applyAll d (writes p.2)) ps

theorem BlockOk.congr {d e : PyDict κ ν} (h : d.Equiv e) {cmds : List (LogCmd κ ν)}
    (hd : BlockOk d cmds) : BlockOk e cmds := by
  rcases hd with hs | ⟨x, key, value, hc, hk⟩
  · exact Or.inl hs
  · exact Or.inr ⟨x, key, value, hc, fun hm => hk ((h.mem_iff key).mpr hm)⟩

theorem BlocksOk.congr {d e : PyDict κ ν} (h : d.Equiv e) {ps : List (ℕ × List (LogCmd κ ν))}
    (hd : BlocksOk d ps) : BlocksOk e ps := by
  induction ps generalizing d e with
  | nil => trivial
  | cons p ps ih => exact ⟨hd.1.congr h, ih (Write.applyAll_congr h fun _ => rfl) hd.2⟩

theorem blocksOk_append {d : PyDict κ ν} {ps qs : List (ℕ × List (LogCmd κ ν))} :
    BlocksOk d (ps ++ qs) ↔
      BlocksOk d ps ∧ BlocksOk (Write.applyAll d (writes (waiting ps))) qs := by
  induction ps generalizing d with
  | nil => exact ⟨fun h => ⟨trivial, h⟩, And.right⟩
  | cons p ps ih =>
    rw [List.cons_append, BlocksOk, BlocksOk, ih, waiting_cons, writes_append,
      Write.applyAll_append, and_assoc]

/-- A write to a key that no block touches may come first. -/
theorem BlocksOk.apply {d : PyDict κ ν} {w : Write κ ν} {ps : List (ℕ × List (LogCmd κ ν))}
    (h : ∀ c ∈ waiting ps, c.key ≠ w.key) (hd : BlocksOk d ps) : BlocksOk (w.apply d) ps := by
  induction ps generalizing d with
  | nil => trivial
  | cons p ps ih =>
    rw [waiting_cons] at h
    have hp : ∀ c ∈ p.2, c.key ≠ w.key := fun c hc => h c (List.mem_append_left _ hc)
    have hps : ∀ c ∈ waiting ps, c.key ≠ w.key := fun c hc => h c (List.mem_append_right _ hc)
    have hw : ∀ w' ∈ writes p.2, w'.key ≠ w.key := by
      intro w' hw'
      obtain ⟨c, hc, rfl⟩ := List.mem_map.mp hw'
      rw [c.key_write]
      exact hp c hc
    refine ⟨?_, (ih hps hd.2).congr (Write.applyAll_concat_equiv hw d)⟩
    rcases hd.1 with hs | ⟨x, key, value, hc, hk⟩
    · exact Or.inl hs
    · refine Or.inr ⟨x, key, value, hc, fun hm => hk ?_⟩
      have hne : key ≠ w.key := hp (.set key value) (by rw [hc]; simp)
      rw [PyDict.mem_iff_get?, Write.get?_apply, if_neg hne] at hm
      exact PyDict.mem_iff_get?.mpr hm

/-- Running the blocks never makes the mapping smaller. -/
theorem BlocksOk.size_le {d : PyDict κ ν} {ps : List (ℕ × List (LogCmd κ ν))}
    (h : BlocksOk d ps) : d.size ≤ (Write.applyAll d (writes (waiting ps))).size := by
  induction ps generalizing d with
  | nil => exact le_rfl
  | cons p ps ih =>
    rw [waiting_cons, writes_append, Write.applyAll_append]
    refine le_trans ?_ (ih h.2)
    rcases h.1 with ⟨key, value, hc⟩ | ⟨e, key, value, hc, hk⟩
    · rw [hc]
      exact Write.size_le_size_set d key value
    · rw [hc]
      exact Write.size_le_size_applyAll_pair d e key value hk

end Blocks

/-! ## The invariant -/

namespace Clients

variable [DecidableEq κ] {max_capacity : ℕ+}

/-- The live store is the log followed by the pending commands; recovery follows the log without
evicting anything. -/
structure Inv (max_capacity : ℕ+) (s : Clients κ ν) : Prop where
  capacity : s.store.max_capacity = max_capacity
  size_le : s.store.data_store.size ≤ s.store.max_capacity
  live : (Write.applyAll ∅ (writes (s.log ++ waiting s.pending))).Equiv s.store.data_store
  blocks : BlocksOk (Write.applyAll ∅ (writes s.log)) s.pending
  replay : ((LruStore.init max_capacity).execAll s.log).data_store.Equiv
    (Write.applyAll ∅ (writes s.log))

theorem inv_init : Inv max_capacity (init max_capacity : Clients κ ν) where
  capacity := rfl
  size_le := Nat.zero_le _
  live := PyDict.Equiv.refl _
  blocks := trivial
  replay := PyDict.Equiv.refl _

/-- Recovery executes a command as a plain write when there is room for it. -/
theorem exec_equiv {t : LruStore κ ν} {d : PyDict κ ν} (h : t.data_store.Equiv d)
    (c : LogCmd κ ν) (hsize : (c.write.apply d).size ≤ t.max_capacity) :
    (t.exec c).data_store.Equiv (c.write.apply d) := by
  intro k
  cases c with
  | set key value =>
    have hroom : key ∈ t.data_store ∨ t.data_store.size < t.max_capacity := by
      by_cases hk : key ∈ d
      · exact Or.inl ((h.mem_iff key).mpr hk)
      · right
        have hadd : (LogCmd.write (.set key value) |>.apply d).size = d.size + 1 :=
          PyDict.size_set_of_notMem hk value
        have := h.size_eq
        omega
    rw [Write.get?_apply, ← h k]
    exact LruStore.get?_executeLruSet hroom value k
  | del key =>
    rw [Write.get?_apply, ← h k]
    exact LruStore.get?_delete t key k

/-- One more command in the log, when the blocks after it are in order. -/
theorem replay_concat {store : PyDict κ ν} {log : List (LogCmd κ ν)} {c : LogCmd κ ν}
    {pending : List (ℕ × List (LogCmd κ ν))}
    (h : ((LruStore.init max_capacity).execAll log).data_store.Equiv
      (Write.applyAll ∅ (writes log)))
    (hblocks : BlocksOk (Write.applyAll ∅ (writes (log ++ [c]))) pending)
    (hlive : (Write.applyAll ∅ (writes (log ++ [c] ++ waiting pending))).Equiv store)
    (hsize : store.size ≤ max_capacity) :
    ((LruStore.init max_capacity).execAll (log ++ [c])).data_store.Equiv
      (Write.applyAll ∅ (writes (log ++ [c]))) := by
  have happly : Write.applyAll ∅ (writes (log ++ [c])) =
      c.write.apply (Write.applyAll ∅ (writes log)) := by
    rw [writes_append, Write.applyAll_append]
    rfl
  have hle := hblocks.size_le
  rw [← Write.applyAll_append, ← writes_append, hlive.size_eq] at hle
  rw [LruStore.execAll_concat, happly]
  refine exec_equiv h c ?_
  rw [← happly, LruStore.max_capacity_execAll]
  exact le_trans hle hsize

/-! ## One section -/

variable {s : Clients κ ν}

theorem Inv.get (h : Inv max_capacity s) (key : κ) :
    Inv max_capacity { s with store := (s.store.executeLruGet key).1 } := by
  have hsame : (s.store.executeLruGet key).1.data_store.Equiv s.store.data_store :=
    LruStore.get?_executeLruGet s.store key
  have hcap := LruStore.max_capacity_executeLruGet s.store key
  constructor
  · exact hcap.trans h.capacity
  · simp only [hcap, hsame.size_eq]
    exact h.size_le
  · exact h.live.trans hsame.symm
  · exact h.blocks
  · exact h.replay

theorem Inv.del (h : Inv max_capacity s) {key : κ} (hmem : key ∈ s.store.data_store)
    (hg : ∀ c ∈ waiting s.pending, c.key ≠ key) : Inv max_capacity { s with
      store := s.store.delete key
      log := s.log ++ [.del key] } := by
  have hw : ∀ w ∈ writes (waiting s.pending), w.key ≠ key := by
    intro w hw
    obtain ⟨c, hc, rfl⟩ := List.mem_map.mp hw
    rw [c.key_write]
    exact hg c hc
  have happly : Write.applyAll ∅ (writes (s.log ++ [.del key])) =
      (LogCmd.write (.del key)).apply (Write.applyAll ∅ (writes s.log)) := by
    rw [writes_append, Write.applyAll_append]
    rfl
  have hsize : (s.store.delete key).data_store.size ≤ s.store.max_capacity := by
    have := PyDict.size_erase_of_mem hmem
    have := h.size_le
    simp only [LruStore.delete]
    omega
  have hblocks : BlocksOk (Write.applyAll ∅ (writes (s.log ++ [.del key]))) s.pending := by
    rw [happly]
    exact h.blocks.apply hg
  have hlive : (Write.applyAll ∅ (writes (s.log ++ [.del key] ++ waiting s.pending))).Equiv
      (s.store.delete key).data_store := by
    rw [writes_append, Write.applyAll_append, happly]
    refine (Write.applyAll_concat_equiv hw _).symm.trans fun k => ?_
    rw [Write.get?_apply, ← Write.applyAll_append, ← writes_append, h.live k]
    exact (LruStore.get?_delete s.store key k).symm
  refine ⟨h.capacity, hsize, hlive, hblocks, ?_⟩
  exact replay_concat h.replay hblocks hlive (h.capacity ▸ hsize)

theorem Inv.append (h : Inv max_capacity s) {E later : List (ℕ × List (LogCmd κ ν))} {c : ℕ}
    {cmd : LogCmd κ ν} {rest : List (LogCmd κ ν)} (hp : s.pending = E ++ (c, cmd :: rest) :: later)
    (hg : ∀ c ∈ waiting E, c.key ≠ cmd.key) (client : ℕ) : Inv max_capacity { s with
      log := s.log ++ [cmd]
      pending := E ++ (if rest = [] then later else (client, rest) :: later) } := by
  have hw : ∀ w ∈ writes (waiting E), w.key ≠ cmd.write.key := by
    intro w hw
    obtain ⟨c, hc, rfl⟩ := List.mem_map.mp hw
    rw [c.key_write, cmd.key_write]
    exact hg c hc
  have happly : Write.applyAll ∅ (writes (s.log ++ [cmd])) =
      cmd.write.apply (Write.applyAll ∅ (writes s.log)) := by
    rw [writes_append, Write.applyAll_append]
    rfl
  have hwait : waiting (E ++ (if rest = [] then later else (client, rest) :: later)) =
      waiting E ++ (rest ++ waiting later) := by
    rw [waiting_append]
    split_ifs with hr
    · rw [hr, List.nil_append]
    · rfl
  have hmove := Write.applyAll_concat_equiv hw (Write.applyAll ∅ (writes s.log))
  obtain ⟨hE, hblock, hlater⟩ := blocksOk_append.mp (hp ▸ h.blocks)
  have hblocks : BlocksOk (Write.applyAll ∅ (writes (s.log ++ [cmd])))
      (E ++ (if rest = [] then later else (client, rest) :: later)) := by
    rw [happly]
    refine blocksOk_append.mpr ⟨hE.apply (fun c hc => cmd.key_write ▸ hg c hc), ?_⟩
    split_ifs with hr
    · subst hr
      exact hlater.congr hmove
    · refine ⟨Or.inl ?_, hlater.congr (Write.applyAll_congr hmove fun _ => rfl)⟩
      rcases hblock with ⟨key, value, hc⟩ | ⟨e, key, value, hc, -⟩
      · exact absurd (List.cons.inj hc).2 hr
      · exact ⟨key, value, (List.cons.inj hc).2⟩
  have hlive : (Write.applyAll ∅ (writes (s.log ++ [cmd] ++
      waiting (E ++ (if rest = [] then later else (client, rest) :: later))))).Equiv
      s.store.data_store := by
    refine PyDict.Equiv.trans ?_ h.live
    have hcons : cmd :: rest = [cmd] ++ rest := rfl
    rw [hwait, hp, waiting_append, waiting_cons]
    simp only [hcons, writes_append, Write.applyAll_append, ← happly] at hmove ⊢
    exact Write.applyAll_congr (Write.applyAll_congr hmove.symm fun _ => rfl) fun _ => rfl
  refine ⟨h.capacity, h.size_le, hlive, hblocks, ?_⟩
  exact replay_concat h.replay hblocks hlive (h.capacity ▸ h.size_le)

variable [Truthy κ]

/-- The section of a `SET`: its commands bring the mapping from the old store to the new one. -/
theorem serve_set {s : LruStore κ ν} (htruthy : ∀ k ∈ s.data_store, Truthy.truthy k = true)
    {d : PyDict κ ν} (h : d.Equiv s.data_store) (key : κ) (value : ν) :
    (Write.applyAll d (writes (s.serve (.set key value)).2)).Equiv
      (s.serve (.set key value)).1.data_store ∧ BlockOk d (s.serve (.set key value)).2 := by
  by_cases hm : key ∈ s.data_store ∨ s.data_store.size < s.max_capacity
  · have hlog : (s.serve (.set key value)).2 = [.set key value] := by
      simp only [LruStore.serve, LruStore.snd_executeLruSet hm, LruStore.setLog]
    rw [hlog]
    refine ⟨fun k => ?_, Or.inl ⟨key, value, rfl⟩⟩
    have := LruStore.get?_executeLruSet hm value k
    rw [← h k] at this
    exact (Write.get?_apply d ⟨key, some value⟩ k).trans this.symm
  · obtain ⟨hn, hge⟩ := not_or.mp hm
    rw [not_lt] at hge
    obtain ⟨e, ks, hk⟩ := LruStore.exists_keys_of_ge hge
    have hmem : e ∈ s.data_store := by rw [PyDict.mem_iff, hk]; exact List.mem_cons_self
    have hev : (s.executeLruSet key value).2 = some e := by
      rw [LruStore.executeLruSet_of_ge hn hge, hk]; rfl
    have hlog : (s.serve (.set key value)).2 = [.del e, .set key value] := by
      simp only [LruStore.serve, hev, LruStore.setLog, htruthy e hmem, if_true]
    rw [hlog]
    refine ⟨fun k => ?_, Or.inr ⟨e, key, value, rfl, fun hk' => hn ((h.mem_iff key).mp hk')⟩⟩
    have := LruStore.get?_executeLruSet_of_ge hn hge hk value k
    rw [← h k] at this
    refine (Write.get?_apply (Write.apply d ⟨e, none⟩) ⟨key, some value⟩ k).trans ?_
    rw [Write.get?_apply]
    exact this.symm

theorem Inv.set (h : Inv max_capacity s)
    (htruthy : ∀ k ∈ s.store.data_store, Truthy.truthy k = true) (client : ℕ) (key : κ)
    (value : ν) : Inv max_capacity { s with
      store := (s.store.serve (.set key value)).1
      pending := s.pending ++ [(client, (s.store.serve (.set key value)).2)] } := by
  obtain ⟨hlive, hblock⟩ := serve_set htruthy h.live key value
  rw [← Write.applyAll_append, ← writes_append] at hlive
  have hw : waiting (s.pending ++ [(client, (s.store.serve (.set key value)).2)]) =
      waiting s.pending ++ (s.store.serve (.set key value)).2 := by
    rw [waiting_append, waiting_cons]
    exact congrArg _ (List.append_nil _)
  have hcap := LruStore.max_capacity_serve s.store (.set key value)
  constructor
  · exact hcap.trans h.capacity
  · exact hcap ▸ LruStore.size_serve_le s.store _ h.size_le
  · rw [hw, ← List.append_assoc]
    exact hlive
  · refine blocksOk_append.mpr ⟨h.blocks, ?_, trivial⟩
    rw [← Write.applyAll_append, ← writes_append]
    exact hblock
  · exact h.replay

/-- **One section.** -/
theorem inv_step {l : ClientStep κ ν} {s s' : Clients κ ν}
    (htruthy : ∀ k ∈ s.store.data_store, Truthy.truthy k = true)
    (h : Inv max_capacity s) (hg : s.InOrder l) (hs : step l s = some s') :
    Inv max_capacity s' := by
  cases l with
  | storeSection client request =>
    simp only [step] at hs
    split_ifs at hs
    cases request with
    | set key value => cases hs; exact h.set htruthy client key value
    | get key =>
      cases hs
      simp only [LruStore.serve, List.append_nil]
      exact h.get key
    | del key =>
      cases hs
      by_cases hm : key ∈ s.store.data_store
      · simp only [LruStore.serve, if_pos hm]
        exact h.del hm (hg hm)
      · simp only [LruStore.serve, if_neg hm, List.append_nil]
        exact h
  | append client =>
    simp only [step] at hs
    have hsplit := s.earlier_append_own client
    split at hs
    · rename_i c cmd rest later hown
      cases hs
      simp only [InOrder, hown, List.head?_cons, Option.mem_some_iff, forall_eq'] at hg
      rw [hown] at hsplit
      exact h.append hsplit.symm hg client
    · cases hs

/-! ## The keys in play -/

/-- Every key of the store, of the log and of the pending commands satisfies `P`. -/
structure KeysIn (P : κ → Prop) (s : Clients κ ν) : Prop where
  store : ∀ k ∈ s.store.data_store, P k
  log : ∀ c ∈ s.log, P c.key
  pending : ∀ p ∈ s.pending, ∀ c ∈ p.2, P c.key

omit [DecidableEq κ] [Truthy κ] in
theorem keysIn_init {P : κ → Prop} : KeysIn P (init max_capacity : Clients κ ν) where
  store := fun _ hk => absurd hk List.not_mem_nil
  log := fun _ hc => absurd hc List.not_mem_nil
  pending := fun _ hp => absurd hp List.not_mem_nil

theorem KeysIn.serve {P : κ → Prop} (h : KeysIn P s) {request : Request κ ν}
    (hkey : P request.key) : (∀ k ∈ (s.store.serve request).1.data_store, P k) ∧
      ∀ c ∈ (s.store.serve request).2, P c.key := by
  constructor
  · intro k hk
    rcases LruStore.mem_of_mem_serve hk with hk | ⟨v, rfl⟩
    · exact h.store k hk
    · exact hkey
  · intro c hc
    rcases LruStore.key_of_mem_serve hc with hc | hc
    · exact hc ▸ hkey
    · exact h.store _ hc

theorem keysIn_step {P : κ → Prop} {l : ClientStep κ ν} {s' : Clients κ ν}
    (hkey : ∀ client request, l = .storeSection client request → P request.key)
    (h : KeysIn P s) (hs : step l s = some s') : KeysIn P s' := by
  cases l with
  | storeSection client request =>
    obtain ⟨hstore, hlog⟩ := h.serve (hkey client request rfl)
    have hlog' : ∀ c ∈ s.log ++ (s.store.serve request).2, P c.key := by
      intro c hc
      rcases List.mem_append.mp hc with hc | hc
      · exact h.log c hc
      · exact hlog c hc
    simp only [step] at hs
    split_ifs at hs
    cases request with
    | set key value =>
      cases hs
      refine ⟨hstore, h.log, fun p hp c hc => ?_⟩
      rcases List.mem_append.mp hp with hp | hp
      · exact h.pending p hp c hc
      · rw [List.mem_singleton.mp hp] at hc
        exact hlog c hc
    | get key => cases hs; exact ⟨hstore, hlog', h.pending⟩
    | del key => cases hs; exact ⟨hstore, hlog', h.pending⟩
  | append client =>
    simp only [step] at hs
    have hsplit := s.earlier_append_own client
    split at hs
    · rename_i c cmd rest later hown
      cases hs
      rw [hown] at hsplit
      have hp := h.pending
      rw [← hsplit] at hp
      have hown' : ∀ c' ∈ cmd :: rest, P c'.key := hp (c, cmd :: rest) (by simp)
      refine ⟨h.store, fun c' hc => ?_, fun p hp' c' hc => ?_⟩
      · rcases List.mem_append.mp hc with hc | hc
        · exact h.log c' hc
        · rw [List.mem_singleton.mp hc]
          exact hown' cmd List.mem_cons_self
      · rcases List.mem_append.mp hp' with hp' | hp'
        · exact hp p (List.mem_append_left _ hp') c' hc
        · have hlater : ∀ p ∈ later, ∀ c' ∈ p.2, P c'.key := fun p hp' c' hc =>
            hp p (List.mem_append_right _ (List.mem_cons_of_mem _ hp')) c' hc
          split_ifs at hp'
          · exact hlater p hp' c' hc
          · rcases List.mem_cons.mp hp' with rfl | hp'
            · exact hown' c' (List.mem_cons_of_mem _ hc)
            · exact hlater p hp' c' hc
    · cases hs

/-! ## Runs -/

/-- **A run of sections in order.** Once every request has finished, recovery from the log rebuilds
the live mapping. -/
theorem rebuilds_of_inOrder {ls : List (ClientStep Key Value)} {s : Clients Key Value}
    (hkey : ∀ client request, .storeSection client request ∈ ls →
      ∃ t : Str, t ≠ [] ∧ request.key = .str t)
    (hg : Trans.Guarded step InOrder ls (init max_capacity))
    (hr : Trans.run step ls (init max_capacity) = some s) (hdone : s.pending = []) :
    LruServer.Rebuilds max_capacity s.log s.store := by
  let P : Key → Prop := fun k => ∃ t : Str, t ≠ [] ∧ k = .str t
  have htruthy : ∀ k, P k → Truthy.truthy k = true := by
    rintro k ⟨t, ht, rfl⟩
    change (!t.isEmpty) = true
    simpa using ht
  have hg' := hg.and_label (p := fun l => ∀ client request, l = .storeSection client request →
    P request.key) fun l hl client request e => hkey client request (e ▸ hl)
  have hinit : KeysIn P (init max_capacity : Clients Key Value) ∧
      Inv max_capacity (init max_capacity : Clients Key Value) := ⟨keysIn_init, inv_init⟩
  obtain ⟨hkeys, hinv⟩ := Trans.run_invariant (I := fun s => KeysIn P s ∧ Inv max_capacity s)
    (fun l s s' h hgl hs => ⟨keysIn_step hgl.2 h.1 hs,
      inv_step (fun k hk => htruthy k (h.1.store k hk)) h.2 hgl.1 hs⟩) hinit hg' hr
  have hlive := hinv.live
  rw [hdone, show waiting ([] : List (ℕ × List (LogCmd Key Value))) = [] from rfl,
    List.append_nil] at hlive
  have htext : ∀ c ∈ s.log, c.IsText := fun c hc => by
    obtain ⟨t, -, ht⟩ := hkeys.log c hc
    exact ⟨t, ht⟩
  exact (LruServer.rebuilds_iff htext s.store).mpr fun k => (hinv.replay k).trans (hlive k)

/-- Two clients that set one key one after the other. -/
def setTwice (first second : ℕ) : List (ClientStep Key Value) :=
  [.storeSection 1 (.set (.str ['k']) (.str ['x'])), .storeSection 2 (.set (.str ['k']) (.str ['y'])),
    .append first, .append second]

/-- The appends in the order of the sections. -/
theorem rebuilds_setTwice : ∃ s : Clients Key Value, Trans.run step (setTwice 1 2) (init 2) = some s ∧
    LruServer.Rebuilds 2 s.log s.store := by
  have hkey : ∀ client request, ClientStep.storeSection client request ∈ setTwice 1 2 →
      ∃ t : Str, t ≠ [] ∧ request.key = .str t := by
    intro client request h
    simp only [setTwice, List.mem_cons, ClientStep.storeSection.injEq, reduceCtorEq, or_false,
      List.not_mem_nil] at h
    rcases h with ⟨-, rfl⟩ | ⟨-, rfl⟩
    · exact ⟨['k'], by decide, rfl⟩
    · exact ⟨['k'], by decide, rfl⟩
  have hg : Trans.Guarded step InOrder (setTwice 1 2) (init 2) := by decide
  exact ⟨_, rfl, rebuilds_of_inOrder hkey hg rfl rfl⟩

/-- The appends in the other order leave the older value last in the log. -/
theorem not_rebuilds_setTwice : ∃ s : Clients Key Value,
    Trans.run step (setTwice 2 1) (init 2) = some s ∧ s.pending = [] ∧
      ¬ LruServer.Rebuilds 2 s.log s.store := by
  refine ⟨_, rfl, rfl, ?_⟩
  rintro ⟨t, ht, hs⟩
  cases ht
  have h := hs (.str ['k'])
  cases h

end Clients

end JobSystem
