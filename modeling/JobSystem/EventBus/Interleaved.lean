import JobSystem.EventBus.Bookkeeping

/-!
# Pieces of many streams

The broker as its loop calls it: the pieces of the streams of many connections come in any order, cut
anywhere, and the lines are complete when their last piece is there.

* `Incoming`: what a call of the loop meets; `FromScripts`: the streams are the lines of commands;
* `lineSteps`: the same run in whole lines; **`runArrivals_core`**: the broker does the same in both;
* `owed`: the packets for a connection, by the commands handled so far; `Served`, `served_run`;
* `handled_step`, `Interleaves`; **`interleaved_streams`**: every connection has been sent the front of
  what it is owed, and all of it while it is open.
-/

namespace JobSystem

open PyText

/-! ## Arrivals -/

/-- What the loop meets: a new connection, a piece of the stream of one, or the end of the stream. -/
inductive Incoming (κ : Type) where
  | accept (conn : κ)
  | data (conn : κ) (chunk : Bytes)
  | eof (conn : κ)

namespace Incoming

variable {κ : Type}

/-- The connection of an arrival. -/
def conn : Incoming κ → κ
  | accept conn => conn
  | data conn _ => conn
  | eof conn => conn

/-- A connection is accepted before anything else of it, and ends after everything else. -/
def Before (a a' : Incoming κ) : Prop :=
  a.conn = a'.conn → (∀ conn, a' ≠ accept conn) ∧ ∀ conn, a ≠ eof conn

variable [DecidableEq κ]

/-- The stream of a connection. -/
def stream (conn : κ) (arrivals : List (Incoming κ)) : Bytes :=
  arrivals.flatMap fun
    | .data c chunk => if c = conn then chunk else []
    | _ => []

end Incoming

/-- Each connection sends the lines of its commands, or a front part of them; no piece is empty, and
none looks like a health check. -/
structure FromScripts {κ : Type} [DecidableEq κ] (script : κ → List Command)
    (arrivals : List (Incoming κ)) : Prop where
  order : arrivals.Pairwise Incoming.Before
  pieces : ∀ conn chunk, .data conn chunk ∈ arrivals → chunk ≠ [] ∧ ¬ IsHttp chunk
  streams : ∀ conn, Incoming.stream conn arrivals <+: encodeLines (script conn)
  plain : ∀ conn, ∀ command ∈ script conn, command.Plain

/-- The run in whole lines: a piece that completes lines is the `recv` of these. -/
def lineSteps {κ : Type} [DecidableEq κ] :
    (κ → List Command) → List (Incoming κ) → List (Step κ)
  | _, [] => []
  | todo, .accept conn :: arrivals => .accept conn :: lineSteps todo arrivals
  | todo, .eof conn :: arrivals => .recv conn [] :: lineSteps todo arrivals
  | todo, .data conn chunk :: arrivals =>
    let n := chunk.count 10
    (if n = 0 then [] else [.recv conn ((todo conn).take n)]) ++
      lineSteps (Function.update todo conn ((todo conn).drop n)) arrivals

namespace PubSubBroker

variable {κ : Type} [DecidableEq κ]

/-- A call of the loop. -/
def arrive (net : Network κ) (b : PubSubBroker κ) : Incoming κ → PubSubBroker κ
  | .accept conn => b.acceptConnection conn
  | .data conn chunk => b.handleClient net conn chunk
  | .eof conn => b.handleClient net conn []

/-- The loop. -/
def runArrivals (net : Network κ) (arrivals : List (Incoming κ)) (b : PubSubBroker κ) :
    PubSubBroker κ :=
  arrivals.foldl (arrive net) b

end PubSubBroker

/-! ## The front of a stream of lines -/

theorem encodeLines_cons (command : Command) (commands : List Command) :
    encodeLines (command :: commands) =
      encodeUtf8 command.text ++ 10 :: encodeLines commands := by
  have hline : encodeUtf8 (command.text ++ ['\n']) = encodeUtf8 command.text ++ [10] := by
    rw [encodeUtf8_append]
    rfl
  rw [encodeLines, List.map_cons, List.flatten_cons, hline, List.append_assoc]
  rfl

/-- A line and what follows it, in front of such. -/
theorem prefix_line {line line' rest rest' : Bytes} (hline : 10 ∉ line) (hline' : 10 ∉ line')
    (h : line ++ 10 :: rest <+: line' ++ 10 :: rest') : line = line' ∧ rest <+: rest' := by
  obtain ⟨more, hmore⟩ := h
  have hsplit : splitOnce [10] (line ++ ([10] ++ (rest ++ more))) = some (line, rest ++ more) :=
    splitOnce_append hline _
  have hsplit' : splitOnce [10] (line' ++ ([10] ++ rest')) = some (line', rest') :=
    splitOnce_append hline' _
  have heq : line ++ ([10] ++ (rest ++ more)) = line' ++ ([10] ++ rest') := by
    rw [← List.singleton_append, List.append_assoc, List.append_assoc] at hmore
    exact hmore
  rw [heq, hsplit', Option.some.injEq, Prod.mk.injEq] at hsplit
  exact ⟨hsplit.1.symm, more, hsplit.2.symm⟩

/-- The lines at the front of a stream of commands, and what is left of it. -/
theorem splitLines_prefix {commands : List Command} (h : ∀ command ∈ commands, command.Plain)
    {s more : Bytes} (hs : s ++ more <+: encodeLines commands) :
    (splitLines 10 s).1 =
        (commands.take (s.count 10)).map (fun command => encodeUtf8 command.text) ∧
      (splitLines 10 s).2 ++ more <+: encodeLines (commands.drop (s.count 10)) := by
  induction commands generalizing s with
  | nil =>
    obtain ⟨rfl, rfl⟩ := List.append_eq_nil_iff.mp (List.prefix_nil.mp hs)
    exact ⟨rfl, List.prefix_rfl⟩
  | cons command commands ih =>
    have hplain := List.forall_mem_cons.mp h
    have hline := newline_notMem_encodeUtf8 (Command.newline_notMem_text hplain.1)
    by_cases hmem : (10 : UInt8) ∈ s
    · obtain ⟨line, rest, rfl, hfirst⟩ := List.eq_append_cons_of_mem hmem
      rw [encodeLines_cons, List.append_assoc, List.cons_append] at hs
      obtain ⟨rfl, hrest⟩ := prefix_line hfirst hline hs
      obtain ⟨hlines, hleft⟩ := ih hplain.2 hrest
      rw [splitLines_line hfirst, List.count_append, List.count_eq_zero_of_not_mem hfirst,
        List.count_cons_self, Nat.zero_add, List.take_succ_cons, List.map_cons,
        List.drop_succ_cons]
      exact ⟨congrArg (_ :: ·) hlines, hleft⟩
    · rw [splitLines_of_notMem hmem, List.count_eq_zero_of_not_mem hmem]
      exact ⟨rfl, hs⟩

/-! ## Whole lines do the same -/

namespace PubSubBroker

variable {κ : Type} [DecidableEq κ] {net : Network κ} {b b' : PubSubBroker κ}

/-- A connection is left alone, or it is closed and its buffer dropped. -/
def Spares (c : κ) (b b' : PubSubBroker κ) : Prop :=
  b'.sockets.closed c = b.sockets.closed c ∧ b'.buffers.get? c = b.buffers.get? c ∨
    b'.sockets.closed c = true ∧ b'.buffers.get? c = none

namespace Spares

variable {c : κ}

theorem refl (c : κ) (b : PubSubBroker κ) : Spares c b b := Or.inl ⟨rfl, rfl⟩

theorem trans {b'' : PubSubBroker κ} (h : Spares c b b') (h' : Spares c b' b'') :
    Spares c b b'' := by
  rcases h' with ⟨hclosed', hbuf'⟩ | h'
  · rcases h with ⟨hclosed, hbuf⟩ | ⟨hclosed, hbuf⟩
    · exact Or.inl ⟨hclosed'.trans hclosed, hbuf'.trans hbuf⟩
    · exact Or.inr ⟨hclosed'.trans hclosed, hbuf'.trans hbuf⟩
  · exact Or.inr h'

theorem cleanupClient (c : κ) (b : PubSubBroker κ) (conn : κ) :
    Spares c b (b.cleanupClient conn) := by
  have hbuf : (b.cleanupClient conn).buffers.get? c = if c = conn then none else b.buffers.get? c :=
    PyDict.get?_erase _ _ _
  by_cases hc : c = conn
  · rw [if_pos hc] at hbuf
    exact Or.inr ⟨by rw [hc, cleanupClient_closed], hbuf⟩
  · rw [if_neg hc] at hbuf
    refine Or.inl ⟨?_, hbuf⟩
    rw [closed_cleanupClient, decide_eq_false hc, Bool.false_or]

theorem foldl_cleanupClient (c : κ) (conns : List κ) (b : PubSubBroker κ) :
    Spares c b (conns.foldl PubSubBroker.cleanupClient b) := by
  induction conns generalizing b with
  | nil => exact refl c b
  | cons conn conns ih => exact (cleanupClient c b conn).trans (ih _)

theorem answer (net : Network κ) (c : κ) (b : PubSubBroker κ) (conn : κ) (reply : Str) :
    Spares c b (b.answer net conn reply).1 :=
  Or.inl ⟨congrFun (Sockets.closed_sendall net b.sockets conn _) c, rfl⟩

theorem deliver (c : κ) (b : PubSubBroker κ) (topic msg : Str) :
    Spares c b (b.deliver net topic msg) := by
  unfold PubSubBroker.deliver
  cases b.subscribers.get? topic with
  | none => exact refl c b
  | some conns =>
    have hsent : Spares c b { b with sockets :=
        (b.sockets.fanOut net (.message (encodeUtf8 (msg ++ ['\n'])))
          (net.iter b.sockets.tries conns)).1 } :=
      Or.inl ⟨congrFun (Sockets.closed_fanOut net _ _ b.sockets) c, rfl⟩
    exact hsent.trans (foldl_cleanupClient c _ _)

theorem handleLine (c : κ) (b : PubSubBroker κ) (conn : κ) (line : Bytes) :
    Spares c b (b.handleLine net conn line).1 := by
  unfold PubSubBroker.handleLine
  dsimp only
  split_ifs
  · exact refl c b
  · cases Command.parse (strip (decodeIgnore line)) with
    | none => exact answer net c b conn _
    | some command =>
      cases command with
      | sub topic => exact answer net c ((b.note conn (.sub topic)).subscribe conn topic) conn _
      | pub topic msg =>
        exact (deliver c (b.note conn (.pub topic msg)) topic msg).trans (answer net c _ conn _)

theorem handleLines (c : κ) (b : PubSubBroker κ) (conn : κ) (lines : List Bytes) :
    Spares c b (PubSubBroker.handleLines net conn lines b).1 := by
  rw [handleLines_eq]
  exact serveLines_induction (P := Spares c b)
    (fun s line h => h.trans (handleLine c s conn line)) lines (refl c b)

/-- A call for another connection. -/
theorem handleClient {conn : κ} (hc : c ≠ conn) (b : PubSubBroker κ) (data : Bytes) :
    Spares c b (b.handleClient net conn data) := by
  unfold PubSubBroker.handleClient
  dsimp only
  split_ifs
  · exact cleanupClient c b conn
  · exact cleanupClient c b conn
  · refine (answer net c b conn httpReply).trans (Or.inl ⟨?_, ?_⟩)
    · exact Function.update_of_ne hc _ _
    · exact (PyDict.get?_erase _ _ _).trans (if_neg hc)
  · refine (handleLines c b conn _).trans (Or.inl ⟨rfl, ?_⟩)
    exact PyDict.get?_set_ne _ hc _
  · exact (handleLines c b conn _).trans (cleanupClient c _ conn)

/-- An open connection has kept its buffer. -/
theorem buffer_of_open (h : Spares c b b') (hopen : b'.sockets.closed c = false) :
    b.sockets.closed c = false ∧ b'.buffers.get? c = b.buffers.get? c := by
  rcases h with ⟨hclosed, hbuf⟩ | ⟨hclosed, -⟩
  · exact ⟨hclosed.symm.trans hopen, hbuf⟩
  · exact Bool.noConfusion (hopen.symm.trans hclosed)

end Spares

/-- Clean-up of a closed connection that has no subscription changes no more than buffers. -/
theorem cleanupClient_core_of_closed {conn : κ} (hclosed : b.sockets.closed conn = true)
    (hnone : ∀ topic, ¬ b.Subscribes conn topic) : (b.cleanupClient conn).core = b.core := by
  have hsockets : (b.cleanupClient conn).sockets = b.sockets := by
    change ({ b.sockets with closed := Function.update b.sockets.closed conn true } : Sockets κ) = _
    rw [← hclosed, Function.update_eq_self]
  have hsubs : (b.cleanupClient conn).subscribers = b.subscribers := by
    have hkeeps : ∀ topic conns, b.subscribers.get? topic = some conns →
        (if conn ∈ conns then if conns.erase conn = ∅ then none else some (conns.erase conn)
          else some conns) = some conns :=
      fun topic conns hget => if_neg fun hmem => hnone topic ⟨conns, hget, hmem⟩
    exact PyDict.filterMap_eq_self hkeeps
  unfold core
  rw [hsockets, hsubs]
  rfl

/-- The broker, and the one that is served whole lines. -/
structure Abreast (b b' : PubSubBroker κ) (todo : κ → List Command)
    (arrivals : List (Incoming κ)) : Prop where
  core : b.core = b'.core
  kept : Kept [] b'
  fresh : ∀ conn, .accept conn ∈ arrivals → (b.buffers.get? conn).getD [] = []
  buffers : ∀ conn, b.sockets.closed conn = false → 10 ∉ (b.buffers.get? conn).getD [] ∧
    (b.buffers.get? conn).getD [] ++ Incoming.stream conn arrivals <+: encodeLines (todo conn)

theorem Abreast.spared {b₁ b₁' : PubSubBroker κ} {todo todo' : κ → List Command}
    {a : Incoming κ} {arrivals : List (Incoming κ)} (h : Abreast b b' todo (a :: arrivals))
    (hcore : b₁.core = b₁'.core) (hkept : Kept [] b₁')
    (hspares : ∀ c, c ≠ a.conn → Spares c b b₁) (hfresh : .accept a.conn ∉ arrivals)
    (htodo : ∀ c, c ≠ a.conn → todo' c = todo c)
    (hown : b₁.sockets.closed a.conn = false → 10 ∉ (b₁.buffers.get? a.conn).getD [] ∧
      (b₁.buffers.get? a.conn).getD [] ++ Incoming.stream a.conn arrivals <+:
        encodeLines (todo' a.conn)) : Abreast b₁ b₁' todo' arrivals where
  core := hcore
  kept := hkept
  fresh := fun c hc => by
    have hne : c ≠ a.conn := by
      rintro rfl
      exact hfresh hc
    have hbuf := h.fresh c (List.mem_cons_of_mem _ hc)
    rcases hspares c hne with ⟨-, hsame⟩ | ⟨-, hnone⟩
    · rw [hsame, hbuf]
    · rw [hnone]
      rfl
  buffers := fun c hopen => by
    by_cases hne : c = a.conn
    · subst hne
      exact hown hopen
    · obtain ⟨hopen', hsame⟩ := (hspares c hne).buffer_of_open hopen
      have hstream : Incoming.stream c (a :: arrivals) = Incoming.stream c arrivals := by
        cases a with
        | accept conn => rfl
        | data conn chunk =>
          rw [Incoming.stream, List.flatMap_cons]
          exact congrArg (· ++ _) (if_neg (Ne.symm hne))
        | eof conn => rfl
      have hbuf := h.buffers c hopen'
      rw [hstream] at hbuf
      rw [hsame, htodo c hne]
      exact hbuf

variable (net) in
/-- A piece of the stream of an open connection. -/
theorem handleClient_piece {conn : κ} {chunk : Bytes} (hne : chunk ≠ []) (hquiet : ¬ IsHttp chunk)
    (hopen : b.sockets.closed conn = false) {commands : List Command}
    (hplain : ∀ command ∈ commands, command.Plain) (hcore : b.core = b'.core) (hkept : Kept [] b')
    (hlines : (splitLines 10 ((b.buffers.get? conn).getD [] ++ chunk)).1 =
      commands.map fun command => encodeUtf8 command.text) :
    (b.handleClient net conn chunk).core =
        (b'.run net (if commands = [] then [] else [.recv conn commands])).core ∧
      ((b.handleClient net conn chunk).sockets.closed conn = false →
        (b.handleClient net conn chunk).buffers.get? conn =
          some (splitLines 10 ((b.buffers.get? conn).getD [] ++ chunk)).2) := by
  have hrun : ¬ b.sockets.closed conn = true := by
    rw [hopen]
    exact Bool.false_ne_true
  have hclosed : ∀ r : PubSubBroker κ, (r.cleanupClient conn).sockets.closed conn ≠ false :=
    fun r h => Bool.noConfusion (h.symm.trans (cleanupClient_closed r conn))
  rw [handleClient, if_neg hrun, if_neg hne, if_neg hquiet]
  dsimp only
  rw [hlines]
  by_cases hnil : commands = []
  · subst hnil
    rw [if_pos rfl]
    exact ⟨hcore, fun _ => PyDict.get?_set_self _ _ _⟩
  · have hrun' : ¬ b'.sockets.closed conn = true := by rwa [← sockets_of_core hcore]
    have hsplit : splitLines 10 ((b'.buffers.get? conn).getD [] ++ encodeLines commands) =
        (commands.map fun command => encodeUtf8 command.text, []) := by
      rw [hkept.buffers conn, List.nil_append, splitLines_encodeLines hplain]
    have hsame := serveLines_congr (R := fun b b' : PubSubBroker κ => b.core = b'.core) _ _
      (fun b b' line h => handleLine_core net h conn line)
      (commands.map fun command => encodeUtf8 command.text) hcore
    rw [if_neg hnil]
    change _ = (b'.handleClient net conn (encodeLines commands)).core ∧ _
    rw [handleClient, if_neg hrun', if_neg (encodeLines_ne_nil hnil),
      if_neg (not_isHttp_encodeLines commands)]
    dsimp only
    rw [hsplit, handleLines_eq, handleLines_eq, ← hsame.2]
    split_ifs
    · exact ⟨hsame.1, fun _ => PyDict.get?_set_self _ _ _⟩
    · exact ⟨cleanupClient_core hsame.1 conn, fun h => absurd h (hclosed _)⟩

/-- A call for a connection that is closed, or whose stream ends. -/
theorem handleClient_cleanup {conn : κ} {data : Bytes}
    (h : b.sockets.closed conn = true ∨ data = []) :
    b.handleClient net conn data = b.cleanupClient conn := by
  unfold handleClient
  rcases h with h | h
  · rw [if_pos h]
  · rw [if_pos h, ite_self]

variable (net) in
/-- A piece of the stream of any connection: the lines that it completes, and what is left of it. -/
theorem data_piece {conn : κ} {chunk : Bytes} {arrivals : List (Incoming κ)}
    {todo : κ → List Command} (h : Abreast b b' todo (.data conn chunk :: arrivals))
    (hplain : ∀ command ∈ todo conn, command.Plain) (hne : chunk ≠ []) (hquiet : ¬ IsHttp chunk) :
    (b.handleClient net conn chunk).core = (b'.run net (if chunk.count 10 = 0 then []
        else [Step.recv conn ((todo conn).take (chunk.count 10))])).core ∧
      ((b.handleClient net conn chunk).sockets.closed conn = false →
        10 ∉ ((b.handleClient net conn chunk).buffers.get? conn).getD [] ∧
          ((b.handleClient net conn chunk).buffers.get? conn).getD [] ++
            Incoming.stream conn arrivals <+: encodeLines ((todo conn).drop (chunk.count 10))) := by
  cases hclosed : b.sockets.closed conn with
  | true =>
    have hclosed' : b'.sockets.closed conn = true := by rw [← sockets_of_core h.core, hclosed]
    have hnone : ∀ topic, ¬ b'.Subscribes conn topic := fun topic hs =>
      Bool.noConfusion ((h.kept.opened conn topic hs).symm.trans hclosed')
    have hclean := cleanupClient_core h.core conn
    rw [handleClient_cleanup (Or.inl hclosed)]
    refine ⟨?_, fun hopen => ?_⟩
    · split_ifs
      · exact hclean.trans (cleanupClient_core_of_closed hclosed' hnone)
      · exact hclean.trans (congrArg core (handleClient_cleanup (Or.inl hclosed'))).symm
    · rw [cleanupClient_closed] at hopen
      exact Bool.noConfusion hopen
  | false =>
    obtain ⟨hbuf, hpart⟩ := h.buffers conn hclosed
    have hstream : Incoming.stream conn (.data conn chunk :: arrivals) =
        chunk ++ Incoming.stream conn arrivals := by
      rw [Incoming.stream, List.flatMap_cons]
      exact congrArg (· ++ _) (if_pos rfl)
    have hcount : ((b.buffers.get? conn).getD [] ++ chunk).count 10 = chunk.count 10 := by
      rw [List.count_append, List.count_eq_zero_of_not_mem hbuf, Nat.zero_add]
    rw [hstream, ← List.append_assoc] at hpart
    obtain ⟨hlines, hrest⟩ := splitLines_prefix hplain hpart
    rw [hcount] at hlines hrest
    have hlength := length_splitLines 10 ((b.buffers.get? conn).getD [] ++ chunk)
    rw [hlines, List.length_map, hcount] at hlength
    have hnil : (todo conn).take (chunk.count 10) = [] ↔ chunk.count 10 = 0 := by
      rw [← List.length_eq_zero_iff, hlength]
    obtain ⟨hcore, hbuffer⟩ := handleClient_piece net hne hquiet hclosed
      (fun command hc => hplain command (List.mem_of_mem_take hc)) h.core h.kept hlines
    refine ⟨by simpa only [hnil] using hcore, fun hopen => ?_⟩
    rw [hbuffer hopen]
    exact ⟨sep_notMem_rest _ _, hrest⟩

variable (net) in
/-- **One call**, and the whole lines that it completes. -/
theorem abreast_arrive {a : Incoming κ} {arrivals : List (Incoming κ)} {todo : κ → List Command}
    (h : Abreast b b' todo (a :: arrivals)) (hplain : ∀ conn, ∀ command ∈ todo conn, command.Plain)
    (horder : ∀ a' ∈ arrivals, a.Before a')
    (hpiece : ∀ conn chunk, a = .data conn chunk → chunk ≠ [] ∧ ¬ IsHttp chunk) :
    ∃ steps todo', lineSteps todo (a :: arrivals) = steps ++ lineSteps todo' arrivals ∧
      Abreast (b.arrive net a) (b'.run net steps) todo' arrivals ∧
      (∀ s ∈ steps, ∀ e ∈ s.commands, e.2.Plain) ∧
      ∀ conn, ∀ command ∈ todo' conn, command.Plain := by
  have hfresh : .accept a.conn ∉ arrivals := fun hmem => (horder _ hmem rfl).1 a.conn rfl
  cases a with
  | accept conn =>
    have hspares : ∀ c, c ≠ conn → Spares c b (b.acceptConnection conn) := fun c hc =>
      Or.inl ⟨rfl, PyDict.get?_set_ne _ hc _⟩
    have hsteps : ∀ s ∈ [Step.accept conn], ∀ e ∈ s.commands, e.2.Plain := by
      intro s hs e he
      rw [List.mem_singleton.mp hs] at he
      exact absurd he List.not_mem_nil
    refine ⟨[.accept conn], todo, rfl, ?_, hsteps, hplain⟩
    refine h.spared h.core (run_spec net h.kept hsteps).1 hspares hfresh (fun _ _ => rfl) ?_
    intro hopen
    have hbuf := (h.buffers conn hopen).2
    rw [h.fresh conn List.mem_cons_self] at hbuf
    change 10 ∉ ((b.buffers.set conn []).get? conn).getD [] ∧
      ((b.buffers.set conn []).get? conn).getD [] ++ _ <+: _
    rw [PyDict.get?_set_self]
    exact ⟨List.not_mem_nil, hbuf⟩
  | eof conn =>
    have hsteps : ∀ s ∈ [Step.recv conn []], ∀ e ∈ s.commands, e.2.Plain := by
      intro s hs e he
      rw [List.mem_singleton.mp hs] at he
      exact absurd he List.not_mem_nil
    have hcore : (b.handleClient net conn []).core = (b'.handleClient net conn []).core := by
      rw [handleClient_cleanup (Or.inr rfl), handleClient_cleanup (Or.inr rfl)]
      exact cleanupClient_core h.core conn
    refine ⟨[.recv conn []], todo, rfl, ?_, hsteps, hplain⟩
    refine h.spared hcore (run_spec net h.kept hsteps).1 (fun c hc => Spares.handleClient hc b [])
      hfresh (fun _ _ => rfl) ?_
    intro hopen
    change (b.handleClient net conn []).sockets.closed conn = false at hopen
    rw [handleClient_cleanup (Or.inr rfl), cleanupClient_closed] at hopen
    exact Bool.noConfusion hopen
  | data conn chunk =>
    obtain ⟨hne, hquiet⟩ := hpiece conn chunk rfl
    have hspares : ∀ c, c ≠ conn → Spares c b (b.handleClient net conn chunk) := fun c hc =>
      Spares.handleClient hc b chunk
    have htodo : ∀ c, c ≠ conn →
        Function.update todo conn ((todo conn).drop (chunk.count 10)) c = todo c := fun c hc =>
      Function.update_of_ne hc _ _
    have hplain' : ∀ c, ∀ command ∈ Function.update todo conn
        ((todo conn).drop (chunk.count 10)) c, command.Plain := by
      intro c command hmem
      by_cases hc : c = conn
      · rw [hc, Function.update_self] at hmem
        exact hplain conn command (List.mem_of_mem_drop hmem)
      · rw [htodo c hc] at hmem
        exact hplain c command hmem
    have hsteps : ∀ s ∈ (if chunk.count 10 = 0 then []
        else [Step.recv conn ((todo conn).take (chunk.count 10))]), ∀ e ∈ s.commands,
        e.2.Plain := by
      intro s hs e he
      split_ifs at hs with hn
      · exact absurd hs List.not_mem_nil
      · rw [List.mem_singleton.mp hs] at he
        obtain ⟨command, hcommand, rfl⟩ := List.mem_map.mp he
        exact hplain conn command (List.mem_of_mem_take hcommand)
    refine ⟨_, _, rfl, ?_, hsteps, hplain'⟩
    obtain ⟨hcore, hown⟩ := data_piece net h (hplain conn) hne hquiet
    refine h.spared hcore (run_spec net h.kept hsteps).1 hspares hfresh htodo fun hopen => ?_
    change _ ∧ _ <+: encodeLines (Function.update todo conn _ conn)
    rw [Function.update_self]
    exact hown hopen

variable (net) in
/-- **Pieces and whole lines.** The broker does the same in both runs, but for the buffers. -/
theorem runArrivals_core {arrivals : List (Incoming κ)} {todo : κ → List Command}
    (h : Abreast b b' todo arrivals) (hplain : ∀ conn, ∀ command ∈ todo conn, command.Plain)
    (horder : arrivals.Pairwise Incoming.Before)
    (hpieces : ∀ conn chunk, .data conn chunk ∈ arrivals → chunk ≠ [] ∧ ¬ IsHttp chunk) :
    (b.runArrivals net arrivals).core = (b'.run net (lineSteps todo arrivals)).core ∧
      ∀ s ∈ lineSteps todo arrivals, ∀ e ∈ s.commands, e.2.Plain := by
  induction arrivals generalizing b b' todo with
  | nil => exact ⟨h.core, fun s hs => absurd hs List.not_mem_nil⟩
  | cons a arrivals ih =>
    rw [List.pairwise_cons] at horder
    obtain ⟨steps, todo', hsteps, h', hplainSteps, hplain'⟩ := abreast_arrive net h hplain horder.1
      fun conn chunk ha => hpieces conn chunk (ha ▸ List.mem_cons_self)
    obtain ⟨hcore, hall⟩ := ih h' hplain' horder.2
      fun conn chunk hmem => hpieces conn chunk (List.mem_cons_of_mem _ hmem)
    rw [hsteps]
    refine ⟨?_, fun s hs => ?_⟩
    · rw [run, List.foldl_append]
      exact hcore
    · rcases List.mem_append.mp hs with hs | hs
      · exact hplainSteps s hs
      · exact hall s hs

theorem abreast_init {script : κ → List Command} {arrivals : List (Incoming κ)}
    (h : FromScripts script arrivals) : Abreast (init : PubSubBroker κ) init script arrivals where
  core := rfl
  kept := kept_init
  fresh := fun _ _ => rfl
  buffers := fun conn _ => ⟨List.not_mem_nil, h.streams conn⟩

end PubSubBroker

/-! ## What a connection is owed -/

/-- The packets that a handled command brings to a connection with an account. -/
def Account.packetsFor {κ : Type} [DecidableEq κ] (conn : κ) (a : Account) (e : κ × Command) :
    List Packet :=
  match e.2 with
  | .sub _ => if e.1 = conn then [.reply (encodeUtf8 "+OK Subscribed\n".toList)] else []
  | .pub topic msg =>
    (if a.topics topic then [.message (encodeUtf8 (msg ++ ['\n']))] else []) ++
      if e.1 = conn then [.reply (encodeUtf8 "+OK Published\n".toList)] else []

/-- The packets for a connection, from an account on. -/
def owedFrom {κ : Type} [DecidableEq κ] (conn : κ) : Account → List (κ × Command) → List Packet
  | _, [] => []
  | a, e :: handled => a.packetsFor conn e ++ owedFrom conn (a.add conn e) handled

/-- The packets for a connection: the answers to its commands, and the messages of its topics. -/
def owed {κ : Type} [DecidableEq κ] (conn : κ) (handled : List (κ × Command)) : List Packet :=
  owedFrom conn ⟨fun _ => false, []⟩ handled

section Owed

variable {κ : Type} [DecidableEq κ] (conn : κ)

theorem owedFrom_append (a : Account) (handled handled' : List (κ × Command)) :
    owedFrom conn a (handled ++ handled') =
      owedFrom conn a handled ++ owedFrom conn (handled.foldl (Account.add conn) a) handled' := by
  induction handled generalizing a with
  | nil => rfl
  | cons e handled ih => rw [List.cons_append, owedFrom, owedFrom, ih, List.append_assoc]; rfl

theorem owed_append (handled : List (κ × Command)) (e : κ × Command) :
    owed conn (handled ++ [e]) = owed conn handled ++ (account conn handled).packetsFor conn e := by
  rw [owed, owedFrom_append, owedFrom, owedFrom, List.append_nil]
  rfl

end Owed

namespace PubSubBroker

variable {κ : Type} [DecidableEq κ] {net : Network κ} {b : PubSubBroker κ}

/-- Every connection has been sent the front of what it is owed; one that is open, and is not
excepted, all of it. -/
def Served (b : PubSubBroker κ) (excepted : κ → Prop) : Prop :=
  ∀ conn, sentTo conn b.sockets.sent <+: owed conn b.handled ∧
    (b.sockets.closed conn = false → ¬ excepted conn →
      sentTo conn b.sockets.sent = owed conn b.handled)

theorem served_init : (init : PubSubBroker κ).Served fun _ => False := fun _ =>
  ⟨List.prefix_rfl, fun _ _ => rfl⟩

/-- An answer goes to its client, if it can be sent. -/
theorem sentTo_answer (net : Network κ) (b : PubSubBroker κ) (conn c : κ) (reply : Str) :
    ∃ new, sentTo c (b.answer net conn reply).1.sockets.sent =
        sentTo c b.sockets.sent ++ new ∧
      new <+: (if conn = c then [.reply (encodeUtf8 reply)] else []) ∧
      (b.sockets.closed c = true → new = []) ∧
      ((b.answer net conn reply).2 = true ∨ conn ≠ c →
        new = if conn = c then [.reply (encodeUtf8 reply)] else []) := by
  obtain ⟨new, hnew, hcases⟩ :=
    Sockets.sent_sendall net b.sockets conn (.reply (encodeUtf8 reply))
  refine ⟨sentTo c new, (congrArg (sentTo c) hnew).trans (sentTo_append c _ _), ?_⟩
  rcases hcases with ⟨rfl, hopen, -⟩ | ⟨rfl, hfail⟩
  · by_cases hc : conn = c
    · subst hc
      refine ⟨by simp [sentTo], fun hclosed => ?_, fun _ => by simp [sentTo]⟩
      exact Bool.noConfusion (hopen.symm.trans hclosed)
    · simp [sentTo, hc]
  · refine ⟨List.nil_prefix, fun _ => rfl, ?_⟩
    rintro (hok | hc)
    · exact Bool.noConfusion (hfail.symm.trans hok)
    · rw [if_neg hc]
      rfl

theorem sentTo_reached {reached : List κ} (h : reached.Nodup) (c : κ) (packet : Packet) :
    sentTo c (reached.map fun c => (c, packet)) = if c ∈ reached then [packet] else [] := by
  induction reached with
  | nil => rfl
  | cons c' reached ih =>
    rw [List.nodup_cons] at h
    have hcons : sentTo c ((c' :: reached).map fun c => (c, packet)) =
        (if c' = c then [packet] else []) ++ sentTo c (reached.map fun c => (c, packet)) := by
      rw [List.map_cons, sentTo, List.filter_cons]
      split_ifs <;> simp_all [sentTo]
    rw [hcons, ih h.2]
    by_cases hc : c' = c
    · subst hc
      simp [h.1]
    · simp [hc, Ne.symm hc]

theorem sent_foldl_cleanupClient (conns : List κ) (b : PubSubBroker κ) :
    (conns.foldl cleanupClient b).sockets.sent = b.sockets.sent := by
  induction conns generalizing b with
  | nil => rfl
  | cons conn conns ih => exact ih (b.cleanupClient conn)

/-- A message goes to the subscribers of its topic; one that is not reached is closed. -/
theorem sentTo_deliver (net : Network κ) (hk : Kept [] b) (conn : κ) (topic msg : Str) (c : κ) :
    let b' := (b.note conn (.pub topic msg)).deliver net topic msg
    ∃ new, sentTo c b'.sockets.sent = sentTo c b.sockets.sent ++ new ∧
      new <+: (if (account c b.handled).topics topic then [.message (encodeUtf8 (msg ++ ['\n']))]
        else []) ∧
      (b.sockets.closed c = true → new = []) ∧
      (b'.sockets.closed c = false →
        new = if (account c b.handled).topics topic then
          [.message (encodeUtf8 (msg ++ ['\n']))] else []) := by
  unfold deliver
  cases hget : (b.note conn (.pub topic msg)).subscribers.get? topic with
  | none =>
    refine ⟨[], (List.append_nil _).symm, List.nil_prefix, fun _ => rfl, fun hopen => ?_⟩
    have hnot : ¬ b.Subscribes c topic := by
      rintro ⟨conns, hconns, -⟩
      exact absurd (hconns.symm.trans hget) (Option.some_ne_none _)
    rw [if_neg (mt (hk.topics c hopen topic).mpr hnot)]
  | some conns =>
    have hiter := net.iter_eq b.sockets.tries conns
    have hnodup : (net.iter b.sockets.tries conns).Nodup := by
      rw [← Multiset.coe_nodup, hiter]
      exact conns.nodup
    have hmem : c ∈ net.iter b.sockets.tries conns ↔ b.Subscribes c topic := by
      rw [← Multiset.mem_coe, hiter, Finset.mem_val]
      constructor
      · exact fun hc => ⟨conns, hget, hc⟩
      · rintro ⟨conns', hconns', hc⟩
        rwa [Option.some.inj (hget.symm.trans hconns')]
    have hclosed := Sockets.closed_fanOut net (.message (encodeUtf8 (msg ++ ['\n'])))
      (net.iter b.sockets.tries conns) b.sockets
    obtain ⟨reached, hsent, hnd, hopens, hsplit⟩ := Sockets.sent_fanOut net
      (.message (encodeUtf8 (msg ++ ['\n']))) hnodup b.sockets
    dsimp only
    refine ⟨if c ∈ reached then [.message (encodeUtf8 (msg ++ ['\n']))] else [], ?_, ?_, ?_, ?_⟩
    · rw [sent_foldl_cleanupClient]
      refine (congrArg (sentTo c) hsent).trans ?_
      rw [sentTo_append, sentTo_reached hnd]
    · split_ifs with hc htopic
      · exact List.prefix_rfl
      · have hsub := hmem.mp ((hsplit c).mpr (Or.inl hc))
        exact absurd ((hk.topics c (hopens c hc) topic).mp hsub) htopic
      · exact List.nil_prefix
      · exact List.prefix_rfl
    · exact fun hshut => if_neg fun hc => Bool.noConfusion ((hopens c hc).symm.trans hshut)
    · intro hopen
      have hdead : c ∉ (b.sockets.fanOut net (.message (encodeUtf8 (msg ++ ['\n'])))
          (net.iter b.sockets.tries conns)).2 := fun hc =>
        Bool.noConfusion (hopen.symm.trans (closed_foldl_cleanup hc _))
      have hopen' : b.sockets.closed c = false := by
        by_contra hshut
        rw [Bool.not_eq_false] at hshut
        refine ((Bool.not_eq_false _).mpr ?_) hopen
        exact (Grows.foldl_cleanupClient _ _).closed c ((congrFun hclosed c).trans hshut)
      have hreached : c ∈ reached ↔ (account c b.handled).topics topic = true := by
        rw [← hk.topics c hopen' topic, ← hmem, hsplit]
        exact (or_iff_left hdead).symm
      simp only [hreached]

/-- **A command** is answered, and its message sent, as far as its client and the subscribers are
reached. -/
theorem served_obey (net : Network κ) (hk : Kept [] b) (hserved : b.Served fun _ => False)
    (conn : κ) (command : Command) :
    (b.obey net conn (some command)).1.Served fun c =>
      c = conn ∧ (b.obey net conn (some command)).2 = false := by
  intro c
  have hgrows := Grows.obey net b conn (some command)
  obtain ⟨hpart, hall⟩ := hserved c
  -- what is sent more is the front of what is owed more
  obtain ⟨new, hsent, hnew, hshut, hfull⟩ : ∃ new,
      sentTo c (b.obey net conn (some command)).1.sockets.sent = sentTo c b.sockets.sent ++ new ∧
      new <+: (account c b.handled).packetsFor c (conn, command) ∧
      (b.sockets.closed c = true → new = []) ∧
      ((b.obey net conn (some command)).1.sockets.closed c = false →
        ((b.obey net conn (some command)).2 = true ∨ conn ≠ c) →
        new = (account c b.handled).packetsFor c (conn, command)) := by
    cases command with
    | sub topic =>
      obtain ⟨new, hsent, hnew, hshut, hfull⟩ := sentTo_answer net
        ((b.note conn (.sub topic)).subscribe conn topic) conn c "+OK Subscribed\n".toList
      exact ⟨new, hsent, hnew, hshut, fun _ => hfull⟩
    | pub topic msg =>
      obtain ⟨new, hsent, hnew, hshut, hfull⟩ := sentTo_deliver net hk conn topic msg c
      obtain ⟨new', hsent', hnew', hshut', hfull'⟩ := sentTo_answer net
        ((b.note conn (.pub topic msg)).deliver net topic msg) conn c "+OK Published\n".toList
      have hdeliver := (Grows.deliver net (b.note conn (.pub topic msg)) topic msg).closed c
      refine ⟨new ++ new', ?_, ?_, fun hc => ?_, fun hopen' hok => ?_⟩
      · exact hsent'.trans ((congrArg (· ++ new') hsent).trans (List.append_assoc _ _ _))
      · cases hc : ((b.note conn (.pub topic msg)).deliver net topic msg).sockets.closed c with
        | true =>
          rw [hshut' hc, List.append_nil]
          exact hnew.trans (List.prefix_append _ _)
        | false =>
          rw [hfull hc]
          exact (List.prefix_append_right_inj _).mpr hnew'
      · rw [hshut hc, hshut' (hdeliver hc)]
        rfl
      · have hopen₁ : ((b.note conn (.pub topic msg)).deliver net topic msg).sockets.closed c =
            false := by
          rw [← hopen']
          exact (congrFun (Sockets.closed_sendall net _ conn _) c).symm
        rw [hfull hopen₁, hfull' hok]
        rfl
  rw [hsent, handled_obey, owed_append]
  cases hclosed : b.sockets.closed c with
  | true =>
    rw [hshut hclosed, List.append_nil]
    refine ⟨hpart.trans (List.prefix_append _ _), fun hopen' => ?_⟩
    exact Bool.noConfusion (hopen'.symm.trans (hgrows.closed c hclosed))
  | false =>
    rw [hall hclosed not_false]
    refine ⟨(List.prefix_append_right_inj _).mpr hnew, fun hopen' hexc => ?_⟩
    refine congrArg _ (hfull hopen' ?_)
    by_contra hno
    rw [not_or, Bool.not_eq_true, not_not] at hno
    exact hexc ⟨hno.2.symm, hno.1⟩

/-- Clean-up of a connection settles its exception. -/
theorem served_cleanupClient {conn : κ} (h : b.Served fun c => c = conn) :
    (b.cleanupClient conn).Served fun _ => False := by
  refine fun c => ⟨(h c).1, fun hopen _ => ?_⟩
  change (b.cleanupClient conn).sockets.closed c = false at hopen
  rw [closed_cleanupClient, Bool.or_eq_false_iff, decide_eq_false_iff_not] at hopen
  exact (h c).2 hopen.2 hopen.1

theorem Served.mono {p q : κ → Prop} (h : b.Served p) (hpq : ∀ c, p c → q c) :
    b.Served q :=
  fun c => ⟨(h c).1, fun hopen hq => (h c).2 hopen fun hp => hq (hpq c hp)⟩

/-- The lines of a `recv`: after an exception, all but for the client. -/
theorem served_handleLines (net : Network κ) {conn : κ} {commands : List Command} (hk : Kept [] b)
    (hserved : b.Served fun _ => False) (hopen : b.sockets.closed conn = false)
    (h : ∀ command ∈ commands, command.Plain) :
    let r := handleLines net conn (commands.map fun command => encodeUtf8 command.text) b
    r.1.Served fun c => c = conn ∧ r.2 = false := by
  induction commands generalizing b with
  | nil => exact hserved.mono fun _ => False.elim
  | cons command commands ih =>
    rw [List.forall_mem_cons] at h
    have hobey := served_obey net hk hserved conn command
    rw [List.map_cons, handleLines, handleLine_text h.1]
    dsimp only
    split_ifs with hok
    · refine ih (kept_obey hk hopen command) (hobey.mono ?_) (open_of_obey hok) h.2
      exact fun c hc => Bool.noConfusion (hok.symm.trans hc.2)
    · exact hobey

/-- One `recv` of whole lines. -/
theorem served_handleClient (net : Network κ) (conn : κ) {commands : List Command}
    (hk : Kept [] b) (hserved : b.Served fun _ => False)
    (h : ∀ command ∈ commands, command.Plain) :
    (b.handleClient net conn (encodeLines commands)).Served fun _ => False := by
  have hcleanup : ∀ {r : PubSubBroker κ} {p : κ → Prop}, r.Served (fun c => c = conn ∧ p c) →
      (r.cleanupClient conn).Served fun _ => False := fun hr =>
    served_cleanupClient (hr.mono fun _ hc => hc.1)
  have hall := hserved.mono (q := fun c => c = conn ∧ False) fun _ => False.elim
  unfold handleClient
  split_ifs with hshut hnil hhttp
  · exact hcleanup hall
  · exact hcleanup hall
  · exact absurd hhttp (not_isHttp_encodeLines commands)
  · have hlines := served_handleLines net hk hserved (Bool.eq_false_of_not_eq_true hshut) h
    simp only [hk.buffers conn, List.nil_append, splitLines_encodeLines h]
    split_ifs with hok
    · exact hlines.mono fun c hc => Bool.noConfusion (hok.symm.trans hc.2)
    · exact hcleanup hlines

/-- **A run in whole lines** serves every connection. -/
theorem served_run (net : Network κ) {steps : List (Step κ)} (hk : Kept [] b)
    (hserved : b.Served fun _ => False) (h : ∀ s ∈ steps, ∀ e ∈ s.commands, e.2.Plain) :
    (b.run net steps).Served fun _ => False := by
  induction steps generalizing b with
  | nil => exact hserved
  | cons s steps ih =>
    rw [List.forall_mem_cons] at h
    refine ih (step_spec net hk h.1).1 ?_ h.2
    cases s with
    | accept conn => exact hserved
    | recv conn commands =>
      exact served_handleClient net conn hk hserved fun command hc =>
        h.1 (conn, command) (List.mem_map_of_mem hc)

/-- The run in pieces, by the run in whole lines. -/
theorem runArrivals_spec (net : Network κ) {script : κ → List Command}
    {arrivals : List (Incoming κ)} (h : FromScripts script arrivals) :
    let b := (init : PubSubBroker κ).runArrivals net arrivals
    let b' := (init : PubSubBroker κ).run net (lineSteps script arrivals)
    b.sockets = b'.sockets ∧ b.handled = b'.handled ∧ b.Served (fun _ => False) ∧
      ∀ s ∈ lineSteps script arrivals, ∀ e ∈ s.commands, e.2.Plain := by
  obtain ⟨hcore, hplain⟩ := runArrivals_core net (abreast_init h) h.plain h.order h.pieces
  have hserved := served_run net kept_init served_init hplain
  have hsockets := sockets_of_core hcore
  have hhandled : ((init : PubSubBroker κ).runArrivals net arrivals).handled =
      ((init : PubSubBroker κ).run net (lineSteps script arrivals)).handled := by
    have := congrArg PubSubBroker.handled hcore
    exact this
  refine ⟨hsockets, hhandled, ?_, hplain⟩
  unfold Served at hserved ⊢
  rw [hsockets, hhandled]
  exact hserved

/-- One step of a run in whole lines: the commands that it handles, all of them if its connection is
open after it, and none if it was closed before. -/
theorem handled_step (net : Network κ) {pre post : List (Step κ)} {s : Step κ}
    (h : ∀ s' ∈ pre ++ s :: post, ∀ e ∈ s'.commands, e.2.Plain) :
    ∃ part, ((init : PubSubBroker κ).run net (pre ++ [s])).handled =
        ((init : PubSubBroker κ).run net pre).handled ++ part ∧
      HandledOf ((init : PubSubBroker κ).run net (pre ++ [s])) s part ∧
      (((init : PubSubBroker κ).run net pre).sockets.closed s.conn = true → part = []) := by
  have hpre : ∀ s' ∈ pre, ∀ e ∈ s'.commands, e.2.Plain := fun s' hs =>
    h s' (List.mem_append_left _ hs)
  have hstep : ((init : PubSubBroker κ).run net (pre ++ [s])) =
      ((init : PubSubBroker κ).run net pre).step net s := List.foldl_concat ..
  obtain ⟨hk, -⟩ := run_spec net kept_init hpre
  obtain ⟨-, -, part, hpart, hof⟩ := step_spec net hk
    (h s (List.mem_append_right _ List.mem_cons_self))
  rw [hstep]
  refine ⟨part, hpart, hof, fun hshut => ?_⟩
  cases s with
  | accept conn => exact List.prefix_nil.mp hof.1
  | recv conn commands =>
    -- the call for a closed connection is clean-up alone
    have hclean : ((init : PubSubBroker κ).run net pre).step net (.recv conn commands) =
        ((init : PubSubBroker κ).run net pre).cleanupClient conn :=
      handleClient_cleanup (Or.inl hshut)
    rw [hclean] at hpart
    exact List.self_eq_append_right.mp hpart

/-- What a run in pieces does, by the run in whole lines of the same streams. -/
structure Interleaves (net : Network κ) (script : κ → List Command)
    (arrivals : List (Incoming κ)) : Prop where
  whole : ((init : PubSubBroker κ).runArrivals net arrivals).core =
    ((init : PubSubBroker κ).run net (lineSteps script arrivals)).core
  turns : ∀ pre s post, lineSteps script arrivals = pre ++ s :: post → ∃ part,
    ((init : PubSubBroker κ).run net (pre ++ [s])).handled =
        ((init : PubSubBroker κ).run net pre).handled ++ part ∧
      HandledOf ((init : PubSubBroker κ).run net (pre ++ [s])) s part ∧
      (((init : PubSubBroker κ).run net pre).sockets.closed s.conn = true → part = [])
  handled : ∃ parts : List (List (κ × Command)),
    ((init : PubSubBroker κ).runArrivals net arrivals).handled = parts.flatten ∧
      List.Forall₂ (HandledOf ((init : PubSubBroker κ).runArrivals net arrivals))
        (lineSteps script arrivals) parts
  packets : ∀ conn,
    sentTo conn ((init : PubSubBroker κ).runArrivals net arrivals).sockets.sent <+:
        owed conn ((init : PubSubBroker κ).runArrivals net arrivals).handled ∧
      (((init : PubSubBroker κ).runArrivals net arrivals).sockets.closed conn = false →
        sentTo conn ((init : PubSubBroker κ).runArrivals net arrivals).sockets.sent =
          owed conn ((init : PubSubBroker κ).runArrivals net arrivals).handled)

/-- **The streams of the broker**, for pieces of the streams of its clients in any order and any
failing sends: it does what it does when the lines that a piece completes come in one `recv`; it
carries out the commands in the order in which their lines are complete, all those of a client that
is still open after them; and every connection has been sent the front of what it is owed by them,
all of it while it is open. -/
theorem interleaved_streams (net : Network κ) {script : κ → List Command}
    {arrivals : List (Incoming κ)} (h : FromScripts script arrivals) :
    Interleaves net script arrivals := by
  obtain ⟨hcore, -⟩ := runArrivals_core net (abreast_init h) h.plain h.order h.pieces
  obtain ⟨hsockets, hhandled, hserved, hplain⟩ := runArrivals_spec net h
  obtain ⟨-, -, parts, hparts, hofs⟩ := run_spec net kept_init hplain
  refine ⟨hcore, fun pre s post hsteps => ?_, ?_, fun conn => ?_⟩
  · rw [hsteps] at hplain
    exact handled_step net hplain
  · refine ⟨parts, hhandled.trans hparts, hofs.imp fun s part hof => ?_⟩
    exact ⟨hof.1, fun hopen => hof.2 (by rw [← hsockets]; exact hopen)⟩
  · exact ⟨(hserved conn).1, fun hopen => (hserved conn).2 hopen not_false⟩

/-- A subscription and a publication. -/
def cutScript : Bool → List Command
  | false => [.sub ['t']]
  | true => [.pub ['t'] ['{', '}']]

/-- Their lines, each in two pieces. -/
def cutArrivals : List (Incoming Bool) :=
  [.accept false, .accept true, .data false (encodeUtf8 ['S', 'U', 'B']),
    .data true (encodeUtf8 ['P', 'U', 'B', ' ', 't']), .data false (encodeUtf8 [' ', 't', '\n']),
    .data true (encodeUtf8 [' ', '{', '}', '\n'])]

theorem fromScripts_cut : FromScripts cutScript cutArrivals where
  order := by
    simp [cutArrivals, Incoming.Before, Incoming.conn]
  pieces := by
    intro conn chunk hmem
    simp only [cutArrivals, List.mem_cons, reduceCtorEq, Incoming.data.injEq, List.not_mem_nil,
      false_or, or_false] at hmem
    rcases hmem with ⟨-, rfl⟩ | ⟨-, rfl⟩ | ⟨-, rfl⟩ | ⟨-, rfl⟩ <;> decide
  streams := by
    intro conn
    cases conn with
    | false => exact ⟨[], rfl⟩
    | true => exact ⟨[], rfl⟩
  plain := by
    have htopic : IsTopic ['t'] :=
      ⟨by decide, fun c hc => by rw [List.mem_singleton.mp hc]; rfl⟩
    intro conn command hmem
    cases conn with
    | false => exact List.mem_singleton.mp hmem ▸ htopic
    | true => exact List.mem_singleton.mp hmem ▸ ⟨htopic, ⟨rfl, rfl, by decide⟩⟩

theorem interleaved_streams_cut :
    let b := (init : PubSubBroker Bool).runArrivals failingNetwork cutArrivals
    sentTo false b.sockets.sent = owed false b.handled :=
  ((interleaved_streams failingNetwork fromScripts_cut).packets false).2 rfl

end PubSubBroker

end JobSystem
