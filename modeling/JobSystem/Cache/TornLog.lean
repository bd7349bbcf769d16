import JobSystem.Cache.Aof
import JobSystem.Cache.Stream

/-!
# A torn log

A crash may cut the append-only file anywhere, and recovery parses the text that is left. The parser
takes a command for complete as soon as its name has arrived, so a command that is cut behind its
name is executed with `None` for the words that are missing.

* `complete`, `torn`: the commands within the first characters of a log, and the one that is cut;
* `LogRecovery`: the server and the commands applied to it;
* **`replayLoop_cut`**: the loop on one cut command;
* **`recover_iff`**: the commands applied are the complete ones exactly when no command is cut
  behind its name, and the store is theirs exactly when no `SET` is.
-/

namespace JobSystem

open PyText

/-! ## A log and its prefixes -/

/-- The `cmd_array` of a command on strings. -/
def LogCmd.words : LogCmd Str Str → List Str
  | .set key value => [['S', 'E', 'T'], key, value]
  | .del key => [['D', 'E', 'L'], key]

/-- A command on strings as a command of the server. -/
def LogCmd.text : LogCmd Str Str → LogCmd Key Value
  | .set key value => .set (.str key) (.str value)
  | .del key => .del (.str key)

/-- The text that `append_to_log` writes for a list of commands. -/
def logText (cmds : List (LogCmd Str Str)) : Str := (cmds.map LogCmd.words).flatMap encodeReq

/-- The commands whose text lies within the first `n` characters of the log. -/
def complete : List (LogCmd Str Str) → ℕ → List (LogCmd Str Str)
  | [], _ => []
  | c :: cmds, n =>
    if (encodeReq c.words).length ≤ n then c :: complete cmds (n - (encodeReq c.words).length)
    else []

/-- The command that is not complete within the first `n` characters of the log, and how many of its
characters are there. -/
def torn : List (LogCmd Str Str) → ℕ → Option (LogCmd Str Str × ℕ)
  | [], _ => none
  | c :: cmds, n =>
    if (encodeReq c.words).length ≤ n then torn cmds (n - (encodeReq c.words).length)
    else some (c, n)

theorem logText_cons (c : LogCmd Str Str) (cmds : List (LogCmd Str Str)) :
    logText (c :: cmds) = encodeReq c.words ++ logText cmds := rfl

/-- The file after the commands. -/
theorem foldl_appendToLog_words (cmds : List (LogCmd Str Str)) :
    (cmds.map LogCmd.words).foldl appendToLog (some []) = some (logText cmds) :=
  foldl_appendToLog _ []

/-! ## LogRecovery with a trace -/

namespace LruServer

/-- The commands that `replay_aof_recovery` applies for one value; `none` is an exception. -/
def commandsOf (serial : ℕ) : Value → Option (List (LogCmd Key Value))
  | .list (p :: key :: args) =>
    match p with
    | .str p =>
      if upper p = ['S', 'E', 'T'] then
        match args with
        | value :: _ => (key.key serial).map fun k => [.set k value]
        | [] => some []
      else if IsDelete (upper p) then (key.key serial).map fun k => [.del k]
      else some []
    | _ => none
  | _ => some []

/-- **The store follows the commands applied.** -/
theorem replayParts_eq (s : LruServer) (v : Value) : s.replayParts v =
    (commandsOf s.serial v).map fun cmds =>
      { s with store := s.store.execAll cmds, serial := s.serial + cmds.length } := by
  match v with
  | .list (.str p :: key :: args) =>
    simp only [replayParts, commandsOf]
    by_cases hset : upper p = ['S', 'E', 'T']
    · rw [if_pos hset, if_pos hset]
      cases args with
      | nil => rfl
      | cons value args => cases key.key s.serial <;> rfl
    · rw [if_neg hset, if_neg hset]
      by_cases hdel : IsDelete (upper p)
      · rw [if_pos hdel, if_pos hdel]
        cases key.key s.serial <;> rfl
      · rw [if_neg hdel, if_neg hdel]
        rfl
  | .list [] => rfl
  | .list [_] => rfl
  | .list (.none :: _ :: _) => rfl
  | .list (.int _ :: _ :: _) => rfl
  | .list (.err _ :: _ :: _) => rfl
  | .list (.list _ :: _ :: _) => rfl
  | .none => rfl
  | .str _ => rfl
  | .int _ => rfl
  | .err _ => rfl

end LruServer

/-- A recovery: the server and the commands applied to it so far. -/
structure LogRecovery where
  server : LruServer
  applied : List (LogCmd Key Value)

namespace LogRecovery

/-- Before the first command. -/
def init (max_capacity : ℕ+) : LogRecovery := ⟨.init max_capacity, []⟩

/-- One value of the log. -/
def visit (r : LogRecovery) (v : Value) : Option LogRecovery :=
  (r.server.replayParts v).bind fun server =>
    (LruServer.commandsOf r.server.serial v).map fun cmds => ⟨server, r.applied ++ cmds⟩

/-- Commands that are applied one after another. -/
def apply (r : LogRecovery) (cmds : List (LogCmd Key Value)) : LogRecovery where
  server := { r.server with
    store := r.server.store.execAll cmds
    serial := r.server.serial + cmds.length }
  applied := r.applied ++ cmds

theorem visit_eq (r : LogRecovery) (v : Value) :
    r.visit v = (LruServer.commandsOf r.server.serial v).map r.apply := by
  rw [visit, LruServer.replayParts_eq]
  cases LruServer.commandsOf r.server.serial v <;> rfl

theorem apply_apply (r : LogRecovery) (l l' : List (LogCmd Key Value)) :
    (r.apply l).apply l' = r.apply (l ++ l') := by
  simp only [apply, LruStore.execAll_append, List.length_append, List.append_assoc, Nat.add_assoc]

theorem apply_nil (r : LogRecovery) : r.apply [] = r := by
  simp only [apply, List.append_nil]
  rfl

/-- A complete command is applied. -/
theorem visit_words (r : LogRecovery) (c : LogCmd Str Str) :
    r.visit (cmdValue c.words) = some (r.apply [c.text]) := by
  rw [visit_eq]
  cases c <;> rfl

end LogRecovery

/-- `replay_aof_recovery` started with `buffer = p` on an empty store. -/
def recover (max_capacity : ℕ+) (p : Str) : Option LogRecovery :=
  (replayLoop LogRecovery.visit (.init max_capacity) p).map Prod.fst

/-! ## One cut command -/

section Cut

variable {σ : Type} (visit : σ → Value → Option σ)

/-- **The loop on a command that is cut.** Within the header and the name it stops; behind the name it
visits the command with `None` for the words that are missing, and stops then. -/
theorem replayLoop_cut {name : Str} {args : List Str} (h : AllAscii (name :: args)) {q : Str}
    (hq : q <+: encodeReq (name :: args)) (hne : q ≠ encodeReq (name :: args)) (s : σ) :
    (q.length < (arrayHeader (args.length + 1) ++ bulkText name).length ∧
      replayLoop visit s q = some (s, q)) ∨
    ((arrayHeader (args.length + 1) ++ bulkText name).length ≤ q.length ∧
      ∃ k rest, k < args.length ∧ replayLoop visit s q =
        (visit s (cutValue (name :: args) (k + 1))).map fun s' => (s', rest)) := by
  rw [encodeReq, List.length_cons] at hq hne
  rcases prefix_append_cases hq hne with ⟨hhead, hheadne⟩ | ⟨r, rfl, hr, hrne⟩
  · refine Or.inl ⟨?_, replayLoop_of_none _ (parseResp_header_cut hhead hheadne)⟩
    have hle := hhead.length_le
    have hpos := length_bulkText_pos name
    rw [List.length_append]
    omega
  · obtain ⟨done, e, todo, q, hargs, rfl, hqe, hqne, -⟩ := exists_cut hr hrne
    have he : IsAscii e := h e (by rw [hargs]; simp)
    have hstop : parseResp q = some (.none, q) := parseResp_bulk_cut he hqe hqne
    cases done with
    | nil =>
      obtain ⟨rfl, rfl⟩ := List.cons.inj hargs
      refine Or.inl ⟨?_, replayLoop_of_none _ (parseResp_cut_zero (Nat.succ_pos _) hstop)⟩
      have hlt : q.length < (bulkText name).length :=
        lt_of_le_of_ne hqe.length_le fun hl => hqne (hqe.eq_of_length hl)
      simp only [List.flatMap_nil, List.nil_append, List.length_append]
      omega
    | cons first done =>
      rw [List.cons_append] at hargs
      obtain ⟨rfl, rfl⟩ := List.cons.inj hargs
      refine Or.inr ⟨?_, done.length, q, by simp, ?_⟩
      · simp only [List.flatMap_cons, List.length_append]
        omega
      · -- the parser fills up with `None`; what is left of the cut word stops the loop
        have hdone : AllAscii (name :: done) := fun a ha => h a (by
          rcases List.mem_cons.mp ha with rfl | ha
          · exact List.mem_cons_self
          · exact List.mem_cons_of_mem _ (List.mem_append_left _ ha))
        have hlen : (done ++ e :: todo).length + 1 = (name :: done).length + (todo.length + 1) := by
          simp
          omega
        have hval : cutValue (name :: (done ++ e :: todo)) (done.length + 1) =
            .list ((name :: done).map .str ++ List.replicate (todo.length + 1) .none) := by
          simp [cutValue]
        have hcons : arrayHeader ((done ++ e :: todo).length + 1) ++
            ((name :: done).flatMap bulkText ++ q) ≠ [] := by
          rw [arrayHeader]
          exact List.cons_ne_nil _ _
        rw [replayLoop_eq, if_neg hcons, hlen, parseResp_cut hdone (List.cons_ne_nil _ _) _ hstop,
          hval]
        simp only [Value.isNone, Bool.false_eq_true, if_false]
        rw [Option.map_eq_bind]
        congr 1
        funext s'
        exact replayLoop_of_none _ hstop

end Cut

/-! ## What the commands leave -/

/-- A store of strings under string keys. -/
def IsTextStore (s : LruStore Key Value) : Prop :=
  ∀ k v, s.data_store.get? k = some v → (∃ a, k = .str a) ∧ ∃ b, v = .str b

theorem isTextStore_exec {s : LruStore Key Value} (h : IsTextStore s) (c : LogCmd Str Str) :
    IsTextStore (s.exec c.text) := by
  intro k v hkv
  cases c with
  | set key value =>
    rcases LruStore.get?_executeLruSet_cases hkv with ⟨rfl, rfl⟩ | hold
    · exact ⟨⟨key, rfl⟩, value, rfl⟩
    · exact h k v hold
  | del key =>
    have hget := LruStore.get?_delete s (.str key) k
    change (s.delete (.str key)).data_store.get? k = some v at hkv
    rw [hget] at hkv
    split_ifs at hkv
    exact h k v hkv

theorem isTextStore_execAll {s : LruStore Key Value} (h : IsTextStore s)
    (cmds : List (LogCmd Str Str)) : IsTextStore (s.execAll (cmds.map LogCmd.text)) := by
  induction cmds generalizing s with
  | nil => exact h
  | cons c cmds ih => exact ih (isTextStore_exec h c)

theorem isTextStore_init (max_capacity : ℕ+) : IsTextStore (.init max_capacity) := by
  intro k v h
  have hnone : (PyDict.get? (∅ : PyDict Key Value) k) = none :=
    PyDict.get?_eq_none_iff.mpr (PyDict.notMem_empty k)
  exact absurd (hnone.symm.trans h) (by simp)

/-- `None` is no key of such a store. -/
theorem IsTextStore.delete_none {s : LruStore Key Value} (h : IsTextStore s) : s.delete .none = s := by
  have hn : Key.none ∉ s.data_store := by
    intro hm
    obtain ⟨v, hv⟩ := PyDict.mem_iff_get?.mp hm
    obtain ⟨⟨a, ha⟩, -⟩ := h _ _ hv
    cases ha
  rw [LruStore.delete, PyDict.erase_of_notMem hn]

/-- `None` is no value of such a store. -/
theorem IsTextStore.executeLruSet_none_ne {s : LruStore Key Value} (h : IsTextStore s) (key : Key) :
    (s.executeLruSet key .none).1 ≠ s := by
  intro he
  have hself := LruStore.get?_executeLruSet_self s key Value.none
  rw [he] at hself
  obtain ⟨-, b, hb⟩ := h _ _ hself
  cases hb

/-! ## Where a crash cuts the log -/

/-- What is left of the log behind the complete commands. -/
def TailOf (cmds : List (LogCmd Str Str)) : Option (LogCmd Str Str × ℕ) → Str → Prop
  | none, tail => tail = []
  | some (c, m), tail =>
    c ∈ cmds ∧ tail <+: encodeReq c.words ∧ tail ≠ encodeReq c.words ∧ tail.length = m

theorem TailOf.cons {cmds : List (LogCmd Str Str)} {o : Option (LogCmd Str Str × ℕ)} {tail : Str}
    (h : TailOf cmds o tail) (c : LogCmd Str Str) : TailOf (c :: cmds) o tail := by
  cases o with
  | none => exact h
  | some cm => exact ⟨List.mem_cons_of_mem _ h.1, h.2⟩

/-- **The loop applies the complete commands and goes on with what is left.** -/
theorem replayLoop_prefix {cmds : List (LogCmd Str Str)} (h : ∀ c ∈ cmds, AllAscii c.words) {p : Str}
    (hp : p <+: logText cmds) (r : LogRecovery) : ∃ tail,
      replayLoop LogRecovery.visit r p =
        replayLoop LogRecovery.visit (r.apply ((complete cmds p.length).map .text)) tail ∧
      TailOf cmds (torn cmds p.length) tail := by
  induction cmds generalizing p r with
  | nil =>
    obtain rfl := List.prefix_nil.mp hp
    exact ⟨[], by rw [complete, List.map_nil, LogRecovery.apply_nil], rfl⟩
  | cons c cmds ih =>
    have hcmds : ∀ c ∈ cmds, AllAscii c.words := fun c hc => h c (List.mem_cons_of_mem _ hc)
    rw [logText_cons] at hp
    by_cases hlen : (encodeReq c.words).length ≤ p.length
    · obtain ⟨p', rfl⟩ : encodeReq c.words <+: p :=
        List.prefix_of_prefix_length_le (List.prefix_append _ _) hp hlen
      have hp' : p' <+: logText cmds := (List.prefix_append_right_inj _).mp hp
      obtain ⟨tail, hloop, htail⟩ := ih hcmds hp' (r.apply [c.text])
      have hrest : (encodeReq c.words ++ p').length - (encodeReq c.words).length = p'.length := by
        rw [List.length_append, Nat.add_sub_cancel_left]
      refine ⟨tail, ?_, ?_⟩
      · have hvisit : r.visit (.list (c.words.map .str)) = some (r.apply [c.text]) :=
          r.visit_words c
        rw [replayLoop_encodeReq _ (h c List.mem_cons_self), hvisit, Option.bind_some, hloop,
          complete, if_pos hlen, hrest, LogRecovery.apply_apply]
        rfl
      · rw [torn, if_pos hlen, hrest]
        exact htail.cons c
    · refine ⟨p, ?_, ?_⟩
      · rw [complete, if_neg hlen, List.map_nil, LogRecovery.apply_nil]
      · rw [torn, if_neg hlen]
        refine ⟨List.mem_cons_self, ?_, ?_, rfl⟩
        · exact List.prefix_of_prefix_length_le hp (List.prefix_append _ _) (by omega)
        · rintro rfl
          exact hlen le_rfl

/-! ## LogRecovery of a torn log -/

/-- The characters of a command up to the end of its name: those of `"*3\r\n$3\r\nSET\r\n"`. -/
def nameLength : ℕ := 13

/-- A `SET` that is cut behind its name is executed, with the value `None`. -/
theorem LogRecovery.visit_cut_set (r : LogRecovery) (key value : Str) {k : ℕ} (hk : k < 2) :
    ∃ key', r.visit (cutValue (LogCmd.set key value).words (k + 1)) =
      some (r.apply [.set key' .none]) := by
  rw [visit_eq]
  interval_cases k
  · exact ⟨.none, rfl⟩
  · exact ⟨.str key, rfl⟩

/-- A `DEL` that is cut behind its name is executed, with the key `None`. -/
theorem LogRecovery.visit_cut_del (r : LogRecovery) (key : Str) :
    r.visit (cutValue (LogCmd.del key).words 1) = some (r.apply [.del .none]) := by
  rw [visit_eq]
  rfl

/-- What is executed for a command that is cut behind its name. -/
def LogCmd.TornAs : LogCmd Str Str → LogCmd Key Value → Prop
  | .set _ _, c' => ∃ key', c' = .set key' .none
  | .del _, c' => c' = .del .none

/-- **What recovery makes of the cut command.** Within its name it is left alone. -/
theorem replayLoop_torn {c : LogCmd Str Str} (h : AllAscii c.words) {tail : Str}
    (hp : tail <+: encodeReq c.words) (hne : tail ≠ encodeReq c.words) (r : LogRecovery) :
    (tail.length < nameLength ∧ replayLoop LogRecovery.visit r tail = some (r, tail)) ∨
    (nameLength ≤ tail.length ∧ ∃ c' rest, replayLoop LogRecovery.visit r tail =
        some (r.apply [c'], rest) ∧ c.TornAs c') := by
  cases c with
  | set key value =>
    have hname : (arrayHeader 3 ++ bulkText ['S', 'E', 'T']).length = nameLength := rfl
    rcases replayLoop_cut LogRecovery.visit h hp hne r with ⟨hlt, hloop⟩ | ⟨hge, k, rest, hk, hloop⟩
    · exact Or.inl ⟨hname ▸ hlt, hloop⟩
    · obtain ⟨key', hvisit⟩ := r.visit_cut_set key value hk
      refine Or.inr ⟨hname ▸ hge, .set key' .none, rest, ?_, key', rfl⟩
      exact hloop.trans (by rw [← LogCmd.words, hvisit]; rfl)
  | del key =>
    have hname : (arrayHeader 2 ++ bulkText ['D', 'E', 'L']).length = nameLength := rfl
    rcases replayLoop_cut LogRecovery.visit h hp hne r with ⟨hlt, hloop⟩ | ⟨hge, k, rest, hk, hloop⟩
    · exact Or.inl ⟨hname ▸ hlt, hloop⟩
    · obtain rfl : k = 0 := Nat.lt_one_iff.mp hk
      refine Or.inr ⟨hname ▸ hge, .del .none, rest, ?_, rfl⟩
      exact hloop.trans (by rw [← LogCmd.words, r.visit_cut_del]; rfl)

/-- The commands that are complete in a log of `n` characters, as commands of the server. -/
def completeText (cmds : List (LogCmd Str Str)) (n : ℕ) : List (LogCmd Key Value) :=
  (complete cmds n).map LogCmd.text

/-- LogRecovery leaves the store as the complete commands leave it. -/
def LeavesStore (max_capacity : ℕ+) (cmds : List (LogCmd Str Str)) (p : Str) : Prop :=
  ∃ r, recover max_capacity p = some r ∧
    r.server.store = (LruStore.init max_capacity).execAll (completeText cmds p.length)

/-- LogRecovery applies exactly the complete commands, in order, and leaves the store as they do. -/
def AppliesComplete (max_capacity : ℕ+) (cmds : List (LogCmd Str Str)) (p : Str) : Prop :=
  ∃ r, recover max_capacity p = some r ∧ r.applied = completeText cmds p.length ∧
    r.server.store = (LruStore.init max_capacity).execAll (completeText cmds p.length)

/-- The recovery of the complete commands alone. -/
def recoverComplete (max_capacity : ℕ+) (cmds : List (LogCmd Str Str)) (n : ℕ) : LogRecovery :=
  (LogRecovery.init max_capacity).apply (completeText cmds n)

/-- **The two outcomes.** No command is cut behind its name and the recovery is that of the complete
commands, or one is and recovery applies one more command. -/
theorem recover_cases (max_capacity : ℕ+) {cmds : List (LogCmd Str Str)}
    (h : ∀ c ∈ cmds, AllAscii c.words) {p : Str} (hp : p <+: logText cmds) :
    ((∀ c m, torn cmds p.length = some (c, m) → m < nameLength) ∧
      recover max_capacity p = some (recoverComplete max_capacity cmds p.length)) ∨
    ∃ c m c', torn cmds p.length = some (c, m) ∧ nameLength ≤ m ∧
      recover max_capacity p = some ((recoverComplete max_capacity cmds p.length).apply [c']) ∧
      c.TornAs c' := by
  obtain ⟨tail, hloop, htail⟩ := replayLoop_prefix h hp (.init max_capacity)
  change _ = replayLoop LogRecovery.visit (recoverComplete max_capacity cmds p.length) tail at hloop
  simp only [recover, hloop]
  generalize recoverComplete max_capacity cmds p.length = r
  cases htorn : torn cmds p.length with
  | none =>
    rw [htorn] at htail
    obtain rfl : tail = [] := htail
    refine Or.inl ⟨?_, by rw [replayLoop_eq, if_pos rfl]; rfl⟩
    intro c m hc
    cases hc
  | some cm =>
    obtain ⟨c, m⟩ := cm
    rw [htorn] at htail
    obtain ⟨hmem, hpre, hne, rfl⟩ := htail
    rcases replayLoop_torn (h c hmem) hpre hne r with ⟨hlt, hr⟩ | ⟨hge, c', rest, hr, hc'⟩
    · refine Or.inl ⟨?_, by rw [hr]; rfl⟩
      intro c m hc
      cases hc
      exact hlt
    · refine Or.inr ⟨c, tail.length, c', rfl, hge, ?_, hc'⟩
      rw [hr]
      rfl

/-- **A torn log loses only its last command exactly when the crash does not cut behind its name.**
Then the complete commands are applied and no others; the store is right also when the command that
is cut behind its name is a `DEL`. -/
theorem recover_iff (max_capacity : ℕ+) {cmds : List (LogCmd Str Str)}
    (h : ∀ c ∈ cmds, AllAscii c.words) {p : Str} (hp : p <+: logText cmds) :
    (AppliesComplete max_capacity cmds p ↔
      ∀ c m, torn cmds p.length = some (c, m) → m < nameLength) ∧
    (LeavesStore max_capacity cmds p ↔
      ∀ key value m, torn cmds p.length = some (.set key value, m) → m < nameLength) ∧
    (recover max_capacity p).isSome := by
  have htext : IsTextStore (recoverComplete max_capacity cmds p.length).server.store :=
    isTextStore_execAll (isTextStore_init max_capacity) (complete cmds p.length)
  rcases recover_cases max_capacity h hp with ⟨hcut, hr⟩ | ⟨c, m, c', htorn, hge, hr, hc'⟩
  · refine ⟨iff_of_true ⟨_, hr, rfl, rfl⟩ hcut, iff_of_true ⟨_, hr, rfl⟩ ?_, by rw [hr]; rfl⟩
    exact fun key value m hm => hcut _ m hm
  · refine ⟨iff_of_false ?_ ?_, ?_, by rw [hr]; rfl⟩
    · rintro ⟨r', hr', happlied, -⟩
      rw [hr, Option.some.injEq] at hr'
      rw [← hr'] at happlied
      have hlen := congrArg List.length happlied
      simp [LogRecovery.apply, recoverComplete, LogRecovery.init] at hlen
    · exact fun hcut => absurd (hcut c m htorn) (by omega)
    · cases c with
      | set key value =>
        obtain ⟨key', rfl⟩ := hc'
        refine iff_of_false ?_ fun hcut => absurd (hcut key value m htorn) (by omega)
        rintro ⟨r', hr', hstore⟩
        rw [hr, Option.some.injEq] at hr'
        rw [← hr'] at hstore
        exact htext.executeLruSet_none_ne key' hstore
      | del key =>
        obtain rfl : c' = .del .none := hc'
        refine iff_of_true ⟨_, hr, htext.delete_none⟩ fun key' value m' hm => ?_
        rw [htorn] at hm
        cases hm

/-- A log of one `SET` and one `DEL`, cut within the name of the second. -/
theorem recover_iff_cut_name :
    AppliesComplete 2 [.set ['k'] ['a'], .del ['k']]
      ((logText [.set ['k'] ['a'], .del ['k']]).take 33) := by
  refine (recover_iff 2 (by simp [AllAscii, LogCmd.words, IsAscii]) (List.take_prefix _ _)).1.mpr ?_
  intro c m hm
  cases hm
  decide

/-- The value of a second `SET` on the same key is cut: recovery writes `None` over the first. -/
theorem not_appliesComplete_cut_value :
    (logText [.set ['k'] ['a'], .set ['k'] ['b']]).take 50 <+:
        logText [.set ['k'] ['a'], .set ['k'] ['b']] ∧
      ¬ AppliesComplete 2 [.set ['k'] ['a'], .set ['k'] ['b']]
        ((logText [.set ['k'] ['a'], .set ['k'] ['b']]).take 50) := by
  refine ⟨List.take_prefix _ _, ?_⟩
  rintro ⟨r, hr, -, hstore⟩
  have hval : (recover 2 ((logText [.set ['k'] ['a'], .set ['k'] ['b']]).take 50)).map
      (fun r => r.server.store.data_store.get? (.str ['k'])) = some (some .none) := rfl
  rw [hr, Option.map_some, Option.some.injEq, hstore] at hval
  cases hval

end JobSystem
