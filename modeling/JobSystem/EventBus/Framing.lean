import JobSystem.EventBus.EventLoop

/-!
# Framing

A stream that is split in two ways into the pieces that `recv` returns. Both readers of lines look
for a health check at the front of each piece.

* `PubSubBroker.serve`; `PubSubBroker.core`: the broker without the buffers;
* **`PubSubBroker.serve_core`**: the calls for one connection are a server of lines;
* `SplitOf`, `HttpAt`, `NoEventBehind`; `BrokerSplitsAlike`, `LoopSplitsAlike`;
* **`framing`**: which streams are read alike in every split.
-/

namespace JobSystem

open PyText

namespace PubSubBroker

variable {κ : Type} [DecidableEq κ] {net : Network κ} {b b' : PubSubBroker κ} {conn : κ}

/-- The calls of `handle_client` for one connection; a closed one is no longer selected. -/
def serve (net : Network κ) (conn : κ) : List Bytes → PubSubBroker κ → PubSubBroker κ
  | [], b => b
  | chunk :: chunks, b =>
    if b.sockets.closed conn then b else serve net conn chunks (b.handleClient net conn chunk)

/-! ## The buffers are their own -/

/-- The broker without its buffers. -/
def core (b : PubSubBroker κ) : PubSubBroker κ := { b with buffers := ∅ }

omit [DecidableEq κ] in
theorem exists_of_core (h : b.core = b'.core) : ∃ d, b = { b' with buffers := d } := by
  cases b
  cases b'
  cases h
  exact ⟨_, rfl⟩

omit [DecidableEq κ] in
theorem sockets_of_core (h : b.core = b'.core) : b.sockets = b'.sockets := by
  have := congrArg PubSubBroker.sockets h
  exact this

theorem cleanupClient_core (h : b.core = b'.core) (conn : κ) :
    (b.cleanupClient conn).core = (b'.cleanupClient conn).core := by
  obtain ⟨d, rfl⟩ := exists_of_core h
  rfl

theorem foldl_cleanupClient_core (conns : List κ) (h : b.core = b'.core) :
    (conns.foldl cleanupClient b).core = (conns.foldl cleanupClient b').core := by
  induction conns generalizing b b' with
  | nil => exact h
  | cons conn conns ih => exact ih (cleanupClient_core h conn)

theorem deliver_core (h : b.core = b'.core) (topic msg : Str) :
    (b.deliver net topic msg).core = (b'.deliver net topic msg).core := by
  obtain ⟨d, rfl⟩ := exists_of_core h
  unfold deliver
  dsimp only
  cases b'.subscribers.get? topic with
  | none => rfl
  | some conns => exact foldl_cleanupClient_core _ rfl

omit [DecidableEq κ] in
theorem answer_core (h : b.core = b'.core) (conn : κ) (reply : Str) :
    (b.answer net conn reply).1.core = (b'.answer net conn reply).1.core ∧
      (b.answer net conn reply).2 = (b'.answer net conn reply).2 := by
  obtain ⟨d, rfl⟩ := exists_of_core h
  exact ⟨rfl, rfl⟩

variable (net) in
theorem handleLine_core (h : b.core = b'.core) (conn : κ) (line : Bytes) :
    (b.handleLine net conn line).1.core = (b'.handleLine net conn line).1.core ∧
      (b.handleLine net conn line).2 = (b'.handleLine net conn line).2 := by
  unfold handleLine
  dsimp only
  split_ifs
  · exact ⟨h, rfl⟩
  · cases Command.parse (strip (decodeIgnore line)) with
    | none => exact answer_core h conn _
    | some command =>
      have hnote : (b.note conn command).core = (b'.note conn command).core := by
        obtain ⟨d, rfl⟩ := exists_of_core h
        rfl
      cases command with
      | sub topic =>
        refine answer_core ?_ conn _
        obtain ⟨d, hd⟩ := exists_of_core hnote
        rw [hd]
        rfl
      | pub topic msg => exact answer_core (deliver_core hnote topic msg) conn _

theorem close_core (h : b.core = b'.core) (conn : κ) : (b.close conn).core = (b'.close conn).core := by
  obtain ⟨d, rfl⟩ := exists_of_core h
  rfl

/-! ## One connection -/

theorem handleLines_eq (net : Network κ) (conn : κ) (lines : List Bytes) (b : PubSubBroker κ) :
    handleLines net conn lines b =
      serveLines (fun b line => b.handleLine net conn line) lines b := by
  induction lines generalizing b with
  | nil => rfl
  | cons line lines ih =>
    rw [handleLines, serveLines, ih]

theorem open_of_handleLine {line : Bytes} (hopen : b.sockets.closed conn = false)
    (h : (b.handleLine net conn line).2 = true) :
    (b.handleLine net conn line).1.sockets.closed conn = false := by
  unfold handleLine at h ⊢
  dsimp only at h ⊢
  split_ifs at h ⊢
  · exact hopen
  · exact open_of_obey h

variable (net) in
theorem open_of_serveLines (lines : List Bytes) (hopen : b.sockets.closed conn = false)
    (h : (serveLines (fun b line => b.handleLine net conn line) lines b).2 = true) :
    (serveLines (fun b line => b.handleLine net conn line) lines b).1.sockets.closed conn =
      false := by
  induction lines generalizing b with
  | nil => exact hopen
  | cons line lines ih =>
    rw [serveLines] at h ⊢
    by_cases hok : (b.handleLine net conn line).2 = true
    · rw [if_pos hok] at h ⊢
      exact ih (open_of_handleLine hopen hok) h
    · rw [if_neg hok] at h
      exact absurd h hok

theorem serve_of_closed (h : b.sockets.closed conn = true) (chunks : List Bytes) :
    b.serve net conn chunks = b := by
  cases chunks with
  | nil => rfl
  | cons chunk chunks => rw [serve, if_pos h]

theorem close_closed (b : PubSubBroker κ) (conn : κ) : (b.close conn).sockets.closed conn = true := by
  simp [close]

theorem cleanupClient_closed (b : PubSubBroker κ) (conn : κ) :
    (b.cleanupClient conn).sockets.closed conn = true := by
  simp [cleanupClient, close]

/-- What the end of the reading does. -/
def finish (net : Network κ) (conn : κ) (r : PubSubBroker κ × Ending UInt8) : PubSubBroker κ :=
  match r.2 with
  | .waiting _ => r.1
  | .stopped => (r.1.answer net conn httpReply).1.close conn
  | .failed => r.1.cleanupClient conn

/-- **The calls for a connection** are a server of lines. -/
theorem serve_core {chunks : List Bytes} (hne : ∀ chunk ∈ chunks, chunk ≠ [])
    (hopen : b.sockets.closed conn = false) {buffer : Bytes}
    (hbuffer : (b.buffers.get? conn).getD [] = buffer) (h : b.core = b'.core) :
    (b.serve net conn chunks).core = (finish net conn (serveChunks 10 IsHttp
      (fun b line => b.handleLine net conn line) buffer b' chunks)).core := by
  induction chunks generalizing b b' buffer with
  | nil => exact h
  | cons chunk chunks ih =>
    rw [List.forall_mem_cons] at hne
    have hrun : ¬ b.sockets.closed conn = true := by
      rw [hopen]
      exact Bool.false_ne_true
    rw [serve, if_neg hrun, handleClient, if_neg hrun, if_neg hne.1, hbuffer, serveChunks]
    by_cases hhttp : IsHttp chunk
    · rw [if_pos hhttp, if_pos hhttp, serve_of_closed (close_closed _ conn)]
      exact close_core (answer_core h conn httpReply).1 conn
    · rw [if_neg hhttp, if_neg hhttp]
      dsimp only
      rw [handleLines_eq]
      have hlines := serveLines_congr (R := fun b b' : PubSubBroker κ => b.core = b'.core) _ _
        (fun b b' line h => handleLine_core net h conn line)
        (splitLines 10 (buffer ++ chunk)).1 h
      have hstill := open_of_serveLines net (splitLines 10 (buffer ++ chunk)).1 hopen
      rw [← hlines.2]
      by_cases hok : (serveLines (fun b line => b.handleLine net conn line)
          (splitLines 10 (buffer ++ chunk)).1 b).2 = true
      · rw [if_pos hok, if_pos hok]
        have hstill := hstill hok
        have hsame := hlines.1
        generalize (serveLines (fun b line => b.handleLine net conn line)
          (splitLines 10 (buffer ++ chunk)).1 b).1 = r at hstill hsame ⊢
        refine ih (b := { r with buffers := r.buffers.set conn (splitLines 10 (buffer ++ chunk)).2 })
          hne.2 hstill ?_ hsame
        rw [PyDict.get?_set_self]
        rfl
      · rw [if_neg hok, if_neg hok, serve_of_closed (cleanupClient_closed _ conn)]
        exact cleanupClient_core hlines.1 conn

/-! ## A network without failures -/

/-- Every send on an open socket succeeds. -/
noncomputable def perfectNetwork (κ : Type) : Network κ :=
  ⟨fun _ => false, fun _ conns => conns.toList, fun _ conns => Finset.coe_toList conns⟩

/-- All sockets are open, and no health check has been answered. -/
def Calm (b : PubSubBroker κ) : Prop :=
  (∀ conn, b.sockets.closed conn = false) ∧
    ∀ e ∈ b.sockets.sent, e.2 ≠ .reply (encodeUtf8 httpReply)

omit [DecidableEq κ] in
theorem sendall_perfect {n : Sockets κ} (h : ∀ conn, n.closed conn = false) (conn : κ)
    (packet : Packet) : n.sendall (perfectNetwork κ) conn packet =
      ({ n with sent := n.sent ++ [(conn, packet)], tries := n.tries + 1 }, true) := by
  have hfail : ¬ (n.closed conn || (perfectNetwork κ).fails n.tries) = true := by
    rw [h conn]
    exact Bool.false_ne_true
  rw [Sockets.sendall, if_neg hfail]

omit [DecidableEq κ] in
theorem fanOut_perfect {n : Sockets κ} (h : ∀ conn, n.closed conn = false) (packet : Packet)
    (conns : List κ) : ∃ tries, n.fanOut (perfectNetwork κ) packet conns =
      ({ n with sent := n.sent ++ conns.map fun conn => (conn, packet), tries := tries }, []) := by
  induction conns generalizing n with
  | nil => exact ⟨n.tries, by rw [List.map_nil, List.append_nil]; rfl⟩
  | cons conn conns ih =>
    rw [Sockets.fanOut, sendall_perfect h]
    obtain ⟨tries, htries⟩ := ih
      (n := { n with sent := n.sent ++ [(conn, packet)], tries := n.tries + 1 }) h
    refine ⟨tries, ?_⟩
    dsimp only
    rw [htries, List.append_assoc]
    rfl

omit [DecidableEq κ] in
theorem calm_answer (h : b.Calm) (conn : κ) {reply : Str}
    (hreply : encodeUtf8 reply ≠ encodeUtf8 httpReply) :
    (b.answer (perfectNetwork κ) conn reply).1.Calm ∧
      (b.answer (perfectNetwork κ) conn reply).2 = true := by
  rw [answer, sendall_perfect h.1]
  refine ⟨⟨h.1, fun e he => ?_⟩, rfl⟩
  rcases List.mem_append.mp he with he | he
  · exact h.2 e he
  · rw [List.mem_singleton.mp he]
    intro heq
    exact hreply (Packet.reply.inj heq)

theorem calm_deliver (h : b.Calm) (topic msg : Str) :
    (b.deliver (perfectNetwork κ) topic msg).Calm := by
  unfold deliver
  cases b.subscribers.get? topic with
  | none => exact h
  | some conns =>
    obtain ⟨tries, hsent⟩ := fanOut_perfect h.1 (.message (encodeUtf8 (msg ++ ['\n'])))
      ((perfectNetwork κ).iter b.sockets.tries conns)
    dsimp only
    rw [hsent]
    refine ⟨h.1, fun e he => ?_⟩
    rcases List.mem_append.mp he with he | he
    · exact h.2 e he
    · obtain ⟨conn, -, rfl⟩ := List.mem_map.mp he
      intro heq
      cases heq

theorem calm_handleLine (h : b.Calm) (conn : κ) (line : Bytes) :
    (b.handleLine (perfectNetwork κ) conn line).1.Calm ∧
      (b.handleLine (perfectNetwork κ) conn line).2 = true := by
  unfold handleLine
  dsimp only
  split_ifs
  · exact ⟨h, rfl⟩
  · cases Command.parse (strip (decodeIgnore line)) with
    | none => exact calm_answer h conn (by decide)
    | some command =>
      cases command with
      | sub topic => exact calm_answer (b := (b.note conn _).subscribe conn topic) h conn (by decide)
      | pub topic msg =>
        exact calm_answer (calm_deliver (b := b.note conn _) h topic msg) conn (by decide)

theorem calm_serveLines (lines : List Bytes) (h : b.Calm) (conn : κ) :
    (serveLines (fun b line => b.handleLine (perfectNetwork κ) conn line) lines b).1.Calm ∧
      (serveLines (fun b line => b.handleLine (perfectNetwork κ) conn line) lines b).2 = true := by
  induction lines generalizing b with
  | nil => exact ⟨h, rfl⟩
  | cons line lines ih =>
    have hline := calm_handleLine h conn line
    rw [serveLines, if_pos hline.2]
    exact ih hline.1

/-! ## Two splits -/

/-- The same subscriptions, deliveries and replies. -/
structure SameService (b b' : PubSubBroker κ) : Prop where
  subscribers : b.subscribers = b'.subscribers
  handled : b.handled = b'.handled
  sent : b.sockets.sent = b'.sockets.sent

omit [DecidableEq κ] in
theorem sameService_of_core (h : b.core = b'.core) : SameService b b' := by
  obtain ⟨d, rfl⟩ := exists_of_core h
  exact ⟨rfl, rfl, rfl⟩

section Serve

variable {chunks : List Bytes} (hopen : b.sockets.closed conn = false)
  (hbuffer : (b.buffers.get? conn).getD [] = []) (hquiet : ∀ chunk ∈ chunks, ¬ IsHttp chunk)

include hopen hbuffer hquiet

variable (net) in
theorem serve_of_quiet (hne : ∀ chunk ∈ chunks, chunk ≠ []) :
    (b.serve net conn chunks).core = (finish net conn
      (serveStream 10 (fun b line => b.handleLine net conn line) b chunks.flatten)).core := by
  rw [serve_core hne hopen hbuffer rfl, serveChunks_of_quiet hquiet List.not_mem_nil,
    List.nil_append]

/-- A health check is answered where it stands, as far as the network allows. -/
theorem serve_of_stop (hcalm : b.Calm) {chunk : Bytes} (hhttp : IsHttp chunk)
    {chunks' : List Bytes} (hne : ∀ c ∈ chunks ++ chunk :: chunks', c ≠ []) :
    (conn, .reply (encodeUtf8 httpReply)) ∈
      (b.serve (perfectNetwork κ) conn (chunks ++ chunk :: chunks')).sockets.sent := by
  rw [sockets_of_core (serve_core hne hopen hbuffer rfl),
    serveChunks_of_stop hquiet hhttp List.not_mem_nil, List.nil_append, serveStream]
  have hlines := calm_serveLines (splitLines 10 chunks.flatten).1 hcalm conn
  rw [if_pos hlines.2]
  change _ ∈ (answer _ _ _ _).1.sockets.sent
  rw [answer, sendall_perfect hlines.1.1]
  exact List.mem_append_right _ (List.mem_singleton_self _)

end Serve

end PubSubBroker

/-- The pieces of a stream. -/
def SplitOf (s : Bytes) (chunks : List Bytes) : Prop :=
  (∀ chunk ∈ chunks, chunk ≠ []) ∧ chunks.flatten = s

/-- A health check inside a stream. -/
def HttpAt (s : Bytes) (p : ℕ) : Prop := 0 < p ∧ IsHttp (s.drop p)

/-- No line that is published ends behind a place in the stream. -/
def NoEventBehind (env : LoopEnv) (n : ℕ) (s : Bytes) (p : ℕ) : Prop :=
  ∀ before line after event, (splitLines 10 s).1 = before ++ line :: after →
    GoesThrough env n before → reading env.loads line = .publish event →
    before.length < (s.take p).count 10

section Framing

variable {κ : Type} [DecidableEq κ]

/-- The broker does the same for every split. -/
def BrokerSplitsAlike (conn : κ) (s : Bytes) : Prop :=
  ∀ (net : Network κ) (b : PubSubBroker κ), b.sockets.closed conn = false →
    (b.buffers.get? conn).getD [] = [] → ∀ chunks chunks', SplitOf s chunks → SplitOf s chunks' →
      PubSubBroker.SameService (b.serve net conn chunks) (b.serve net conn chunks')

/-- The event loop publishes the same for every split. -/
def LoopSplitsAlike (env : LoopEnv) (conn : κ) (s : Bytes) (l : EventLoop κ) : Prop :=
  ∀ chunks chunks', SplitOf s chunks → SplitOf s chunks' →
    (l.serve env conn chunks).published = (l.serve env conn chunks').published

variable {env : LoopEnv} {n : ℕ} {conn : κ} {s : Bytes}

theorem isHttp_mono {a b : Bytes} (h : a <+: b) (ha : IsHttp a) : IsHttp b :=
  ha.imp (fun hget => hget.trans h) (fun hhead => hhead.trans h)

theorem splitOf_singleton (h : s ≠ []) : SplitOf s [s] :=
  ⟨fun _ hchunk => List.mem_singleton.mp hchunk ▸ h, List.append_nil s⟩

/-- The stream, cut before the health check. -/
theorem splitOf_cut {p : ℕ} (h : HttpAt s p) :
    SplitOf s ([s.take p] ++ s.drop p :: []) ∧ s ≠ [] := by
  have hdrop : s.drop p ≠ [] := by
    intro hnil
    have hhttp := h.2
    rw [hnil] at hhttp
    exact absurd hhttp (by decide)
  have hs : s ≠ [] := by
    rintro rfl
    exact hdrop List.drop_nil
  refine ⟨⟨fun chunk hchunk => ?_, ?_⟩, hs⟩
  · simp only [List.singleton_append, List.mem_cons, List.not_mem_nil, or_false] at hchunk
    rcases hchunk with rfl | rfl
    · intro hnil
      rcases List.take_eq_nil_iff.mp hnil with hp | hnil
      · exact absurd h.1 (by omega)
      · exact hs hnil
    · exact hdrop
  · rw [List.singleton_append, List.flatten_cons, List.flatten_singleton, List.take_append_drop]

theorem not_isHttp_take (hs : ¬ IsHttp s) (p : ℕ) : ∀ chunk ∈ [s.take p], ¬ IsHttp chunk := by
  intro chunk hchunk hhttp
  rw [List.mem_singleton.mp hchunk] at hhttp
  exact hs (isHttp_mono (List.take_prefix p s) hhttp)

/-- A chunk that looks like a health check stands inside the stream. -/
theorem httpAt_of_split (hs : ¬ IsHttp s) {before after : List Bytes} {chunk : Bytes}
    (h : SplitOf s (before ++ chunk :: after)) (hhttp : IsHttp chunk) :
    HttpAt s before.flatten.length ∧ s.take before.flatten.length = before.flatten := by
  obtain ⟨hne, rfl⟩ := h
  rw [List.flatten_append, List.flatten_cons] at hs ⊢
  have hrest : IsHttp (chunk ++ after.flatten) := isHttp_mono (List.prefix_append _ _) hhttp
  rw [HttpAt, List.drop_left, List.take_left]
  refine ⟨⟨?_, hrest⟩, rfl⟩
  rw [List.length_pos_iff_ne_nil]
  intro hnil
  rw [hnil] at hs
  exact hs hrest

/-- **A health check inside the stream** is answered if a chunk starts there. -/
theorem not_brokerSplitsAlike (conn : κ) (hs : ¬ IsHttp s) {p : ℕ} (h : HttpAt s p) :
    ¬ BrokerSplitsAlike conn s := by
  intro halike
  obtain ⟨hcut, hne⟩ := splitOf_cut h
  have hcalm : (PubSubBroker.init.acceptConnection conn).Calm :=
    ⟨fun _ => rfl, fun _ he => absurd he List.not_mem_nil⟩
  have hbuffer : ((PubSubBroker.init.acceptConnection conn).buffers.get? conn).getD [] = [] := by
    rw [PubSubBroker.acceptConnection, PyDict.get?_set_self]
    rfl
  have hsame := (halike (PubSubBroker.perfectNetwork κ) _ rfl hbuffer _ _
    (splitOf_singleton hne) hcut).sent
  have hmem := PubSubBroker.serve_of_stop rfl hbuffer (not_isHttp_take hs p) hcalm h.2 hcut.1
  have hwhole := PubSubBroker.sockets_of_core (PubSubBroker.serve_of_quiet
    (PubSubBroker.perfectNetwork κ) rfl hbuffer (fun c hc => List.mem_singleton.mp hc ▸ hs)
    (splitOf_singleton hne).1)
  rw [← hsame, hwhole] at hmem
  have hlines := PubSubBroker.calm_serveLines (splitLines 10 [s].flatten).1 hcalm conn
  rw [serveStream, if_pos hlines.2] at hmem
  exact hlines.1.2 _ hmem rfl

/-- **Without one, all splits are alike.** -/
theorem brokerSplitsAlike (hs : ¬ IsHttp s) (h : ∀ p, ¬ HttpAt s p) : BrokerSplitsAlike conn s := by
  have hquiet : ∀ chunks, SplitOf s chunks → ∀ chunk ∈ chunks, ¬ IsHttp chunk := by
    intro chunks hsplit chunk hchunk hhttp
    obtain ⟨before, after, rfl⟩ := List.append_of_mem hchunk
    exact h _ (httpAt_of_split hs hsplit hhttp).1
  intro net b hopen hbuffer chunks chunks' hsplit hsplit'
  refine PubSubBroker.sameService_of_core ?_
  rw [PubSubBroker.serve_of_quiet net hopen hbuffer (hquiet _ hsplit) hsplit.1,
    PubSubBroker.serve_of_quiet net hopen hbuffer (hquiet _ hsplit') hsplit'.1, hsplit.2, hsplit'.2]

/-- The events in front of a place in the stream are all events. -/
theorem eventsOf_take_eq_iff (env : LoopEnv) (n : ℕ) (s : Bytes) (p : ℕ) :
    eventsOf env n (splitLines 10 s).1 = eventsOf env n (splitLines 10 (s.take p)).1 ↔
      NoEventBehind env n s p := by
  have hsplit := splitLines_append 10 (s.take p) (s.drop p)
  rw [List.take_append_drop] at hsplit
  rw [NoEventBehind, hsplit, ← length_splitLines]
  exact eventsOf_append_eq_iff env n _ _

theorem loopSplitsAlike_iff (env : LoopEnv) (hs : ¬ IsHttp s) {l : EventLoop κ}
    (hopen : l.closed conn = false) (hbuffer : (l.buffers.get? conn).getD [] = []) :
    LoopSplitsAlike env conn s l ↔ ∀ p, HttpAt s p → NoEventBehind env l.published.length s p := by
  constructor
  · intro halike p hp
    rw [← eventsOf_take_eq_iff]
    obtain ⟨hcut, hne⟩ := splitOf_cut hp
    have hsame := halike _ _ (splitOf_singleton hne) hcut
    rw [EventLoop.serve_of_quiet hopen hbuffer (fun c hc => List.mem_singleton.mp hc ▸ hs)
      (splitOf_singleton hne).1, EventLoop.serve_of_stop hopen hbuffer (not_isHttp_take hs p) hp.2
      hcut.1, List.flatten_singleton, List.flatten_singleton] at hsame
    exact List.append_cancel_left hsame
  · intro hall
    have heq : ∀ chunks, SplitOf s chunks → (l.serve env conn chunks).published =
        l.published ++ eventsOf env l.published.length (splitLines 10 s).1 := by
      intro chunks hsplit
      rcases exists_stop_or_quiet IsHttp chunks with
        hquiet | ⟨before, chunk, after, rfl, hhttp, hquiet⟩
      · rw [EventLoop.serve_of_quiet hopen hbuffer hquiet hsplit.1, hsplit.2]
      · obtain ⟨hp, htake⟩ := httpAt_of_split hs hsplit hhttp
        have hevents := (eventsOf_take_eq_iff env _ s _).mpr (hall _ hp)
        rw [EventLoop.serve_of_stop hopen hbuffer hquiet hhttp hsplit.1, hevents, htake]
    intro chunks chunks' hsplit hsplit'
    rw [heq chunks hsplit, heq chunks' hsplit']

/-- **Which streams are read alike in every split.** -/
theorem framing (conn : κ) (hs : ¬ IsHttp s) :
    (BrokerSplitsAlike conn s ↔ ∀ p, ¬ HttpAt s p) ∧
      ∀ (env : LoopEnv) (l : EventLoop κ), l.closed conn = false →
        (l.buffers.get? conn).getD [] = [] → (LoopSplitsAlike env conn s l ↔
          ∀ p, HttpAt s p → NoEventBehind env l.published.length s p) := by
  refine ⟨⟨fun halike p hp => ?_, brokerSplitsAlike hs⟩, fun env l => loopSplitsAlike_iff env hs⟩
  exact not_brokerSplitsAlike conn hs hp halike

/-- A subscription, without the letters of a health check. -/
def subStream : Bytes := encodeUtf8 "SUB jobs\n".toList

theorem not_isHttp_subStream (p : ℕ) : ¬ IsHttp (subStream.drop p) := by
  have hget : (71 : UInt8) ∉ subStream := by decide
  have hhead : (72 : UInt8) ∉ subStream := by decide
  rintro (h | h)
  · exact hget (List.mem_of_mem_drop (h.subset List.mem_cons_self))
  · exact hhead (List.mem_of_mem_drop (h.subset List.mem_cons_self))

theorem framing_subStream : BrokerSplitsAlike () subStream ∧
    ∀ env, LoopSplitsAlike env () subStream oneConnection :=
  ⟨(framing () (not_isHttp_subStream 0)).1.mpr fun p h => not_isHttp_subStream p h.2,
    fun env => ((framing () (not_isHttp_subStream 0)).2 env oneConnection rfl rfl).mpr fun p h =>
      absurd h.2 (not_isHttp_subStream p)⟩

/-- A payload with `GET ` inside. -/
def getStream : Bytes := encodeUtf8 "PUB jobs \x7b\"path\": \"GET /\"\x7d\n".toList

theorem not_framing : ¬ ∀ s : Bytes, ¬ IsHttp s → BrokerSplitsAlike () s ∧
    ∀ env, LoopSplitsAlike env () s oneConnection := by
  intro h
  have hat : HttpAt getStream 19 := ⟨by decide, by decide⟩
  have hs : ¬ IsHttp getStream := by decide
  exact not_brokerSplitsAlike () hs hat (h getStream hs).1

end Framing

end JobSystem
