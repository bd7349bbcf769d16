import JobSystem.Lib.Trans
import JobSystem.EventBus.Framing

/-!
# The bookkeeping of the broker

A connection is in the selector, has an entry in `buffers` and may be in the sets of topics.
`cleanup_client` takes it out of all three; the answer to a health check takes it out of the selector
and of `buffers` only.

* `unregistered`: the connections that `handle_client` passes to `sel.unregister`;
* `SelBroker`, `step`: the broker with its selector, and the calls;
* `Bookkept`: the subscribers are registered, and what is registered is open and has a buffer;
  `bookkept_*`: what keeps it;
* **`bookkeeping_iff`**: the subscribers of every topic are open, registered and have a buffer, and no
  topic is empty, all along a run exactly when no health check comes from a subscriber.
-/

namespace JobSystem

open PyText

namespace PubSubBroker

variable {κ : Type} [DecidableEq κ] (net : Network κ)

/-! ## The selector -/

/-- `dead_links` of a `PUB`. -/
def deadLinks (b : PubSubBroker κ) (topic msg : Str) : List κ :=
  match b.subscribers.get? topic with
  | some conns =>
    (b.sockets.fanOut net (.message (encodeUtf8 (msg ++ ['\n'])))
      (net.iter b.sockets.tries conns)).2
  | none => []

/-- The connections that one line unregisters. -/
def unregisteredByLine (b : PubSubBroker κ) (conn : κ) (line_bytes : Bytes) : List κ :=
  let line := strip (decodeIgnore line_bytes)
  if line = [] then []
  else
    match Command.parse line with
    | some (.pub topic msg) => (b.note conn (.pub topic msg)).deadLinks net topic msg
    | _ => []

/-- The connections that the lines of one `recv` unregister, up to an exception. -/
def unregisteredByLines (conn : κ) : List Bytes → PubSubBroker κ → List κ
  | [], _ => []
  | line :: lines, b =>
    b.unregisteredByLine net conn line ++
      if (b.handleLine net conn line).2 then
        unregisteredByLines conn lines (b.handleLine net conn line).1
      else []

/-- The connections that `handle_client` passes to `sel.unregister`, itself or in `cleanup_client`. -/
def unregistered (b : PubSubBroker κ) (conn : κ) (data : Bytes) : List κ :=
  if b.sockets.closed conn then [conn]
  else if data = [] then [conn]
  else if IsHttp data then [conn]
  else
    let lines := splitLines 10 ((b.buffers.get? conn).getD [] ++ data)
    b.unregisteredByLines net conn lines.1 ++
      if (handleLines net conn lines.1 b).2 then [] else [conn]

end PubSubBroker

/-- The broker with the connections that are registered with its selector. -/
structure SelBroker (κ : Type) where
  broker : PubSubBroker κ
  registered : Finset κ

/-- A call of the broker's loop, with what `recv` returns; if it raises, `handle_client` is
`cleanup_client`. -/
inductive BrokerCall (κ : Type) where
  | accept (conn : κ)
  | handle (conn : κ) (data : Bytes)
  | cleanup (conn : κ)

namespace SelBroker

variable {κ : Type} [DecidableEq κ]

/-- A new broker. -/
def init : SelBroker κ := ⟨.init, ∅⟩

/-- `sel.unregister` for a list of connections. -/
def unregister (registered : Finset κ) (conns : List κ) : Finset κ :=
  registered.filter fun conn => conn ∉ conns

/-- A connection is accepted once. A call for a connection may come when it has been closed: the
selector had reported it before. -/
def step (net : Network κ) : Trans.Machine (SelBroker κ) (BrokerCall κ)
  | .accept conn, s =>
    if conn ∈ s.registered ∨ s.broker.sockets.closed conn = true then none
    else some ⟨s.broker.acceptConnection conn, insert conn s.registered⟩
  | .handle conn data, s =>
    if conn ∈ s.registered ∨ s.broker.sockets.closed conn = true then
      some ⟨s.broker.handleClient net conn data,
        unregister s.registered (s.broker.unregistered net conn data)⟩
    else none
  | .cleanup conn, s =>
    if conn ∈ s.registered ∨ s.broker.sockets.closed conn = true then
      some ⟨s.broker.cleanupClient conn, unregister s.registered [conn]⟩
    else none

/-- **The bookkeeping.** No topic is empty, and every subscriber of a topic is open, registered and
has a buffer. -/
structure BookkeepingOk (s : SelBroker κ) : Prop where
  nonempty : ∀ topic, s.broker.subscribers.get? topic ≠ some ∅
  subscriber : ∀ conn topic, s.broker.Subscribes conn topic →
    s.broker.sockets.closed conn = false ∧ conn ∈ s.registered ∧ conn ∈ s.broker.buffers

/-- A health check comes from a connection that has not subscribed. -/
def NoProbe (s : SelBroker κ) : BrokerCall κ → Prop
  | .handle conn data => IsHttp data → s.broker.sockets.closed conn = false →
      ∀ topic, ¬ s.broker.Subscribes conn topic
  | _ => True

end SelBroker

/-! ## What keeps the bookkeeping -/

namespace PubSubBroker

variable {κ : Type} [DecidableEq κ] {net : Network κ} {b : PubSubBroker κ} {registered : Finset κ}

/-- The subscribers are registered, and what is registered is open and has a buffer. -/
structure Bookkept (b : PubSubBroker κ) (registered : Finset κ) : Prop where
  nonempty : ∀ topic, b.subscribers.get? topic ≠ some ∅
  subscriber : ∀ conn topic, b.Subscribes conn topic → conn ∈ registered
  opened : ∀ conn ∈ registered, b.sockets.closed conn = false
  buffered : ∀ conn ∈ registered, conn ∈ b.buffers

omit [DecidableEq κ] in
/-- What sockets, apart from being open, and commands have to do with it: nothing. -/
theorem Bookkept.congr {b' : PubSubBroker κ} (h : b.Bookkept registered)
    (hsubs : b'.subscribers = b.subscribers) (hbuf : b'.buffers = b.buffers)
    (hclosed : b'.sockets.closed = b.sockets.closed) : b'.Bookkept registered where
  nonempty := hsubs ▸ h.nonempty
  subscriber := by
    unfold Subscribes
    rw [hsubs]
    exact h.subscriber
  opened := hclosed ▸ h.opened
  buffered := hbuf ▸ h.buffered

theorem mem_unregister {conn : κ} {conns : List κ} :
    conn ∈ SelBroker.unregister registered conns ↔ conn ∈ registered ∧ conn ∉ conns :=
  Finset.mem_filter

theorem unregister_nil : SelBroker.unregister registered [] = registered := by
  ext conn
  simp [mem_unregister]

theorem unregister_unregister (conns conns' : List κ) :
    SelBroker.unregister (SelBroker.unregister registered conns) conns' =
      SelBroker.unregister registered (conns ++ conns') := by
  ext conn
  simp only [mem_unregister, List.mem_append, not_or, and_assoc]

theorem bookkept_accept (h : b.Bookkept registered) {conn : κ}
    (hopen : b.sockets.closed conn = false) :
    (b.acceptConnection conn).Bookkept (insert conn registered) where
  nonempty := h.nonempty
  subscriber c topic hc := Finset.mem_insert_of_mem (h.subscriber c topic hc)
  opened c hc := by
    rcases Finset.mem_insert.mp hc with rfl | hc
    · exact hopen
    · exact h.opened c hc
  buffered c hc := by
    refine PyDict.mem_set.mpr ?_
    rcases Finset.mem_insert.mp hc with rfl | hc
    · exact Or.inl rfl
    · exact Or.inr (h.buffered c hc)

theorem mem_unregister_singleton {c conn : κ} :
    c ∈ SelBroker.unregister registered [conn] ↔ c ∈ registered ∧ c ≠ conn := by
  rw [mem_unregister, List.mem_singleton]

/-- When one connection is closed and loses its buffer, those that stay registered keep theirs. -/
theorem Bookkept.others (h : b.Bookkept registered) {c conn : κ}
    (hc : c ∈ SelBroker.unregister registered [conn]) :
    Function.update b.sockets.closed conn true c = false ∧ c ∈ b.buffers.erase conn := by
  obtain ⟨hc, hne⟩ := mem_unregister_singleton.mp hc
  exact ⟨(Function.update_of_ne hne _ _).trans (h.opened c hc),
    PyDict.mem_erase.mpr ⟨hne, h.buffered c hc⟩⟩

/-- Closing a connection that has not subscribed. -/
theorem bookkept_close (h : b.Bookkept registered) {conn : κ}
    (hsub : ∀ topic, ¬ b.Subscribes conn topic) :
    (b.close conn).Bookkept (SelBroker.unregister registered [conn]) where
  nonempty := h.nonempty
  subscriber c topic hc := by
    refine mem_unregister_singleton.mpr ⟨h.subscriber c topic hc, ?_⟩
    rintro rfl
    exact hsub topic hc
  opened c hc := (h.others hc).1
  buffered c hc := (h.others hc).2

/-- **`cleanup_client` keeps the bookkeeping.** -/
theorem bookkept_cleanup (h : b.Bookkept registered) (conn : κ) :
    (b.cleanupClient conn).Bookkept (SelBroker.unregister registered [conn]) where
  nonempty topic := by
    rw [get?_cleanupClient]
    have hne := h.nonempty topic
    cases hget : b.subscribers.get? topic with
    | none => exact (Option.some_ne_none _).symm
    | some conns =>
      rw [hget] at hne
      rw [Option.bind_some]
      split_ifs with hmem hempty
      · exact (Option.some_ne_none _).symm
      · exact fun he => hempty (Option.some.inj he)
      · exact hne
  subscriber c topic hc := by
    rw [subscribes_cleanupClient] at hc
    exact mem_unregister_singleton.mpr ⟨h.subscriber c topic hc.2, hc.1⟩
  opened c hc := (h.others hc).1
  buffered c hc := (h.others hc).2

theorem bookkept_foldl_cleanup (conns : List κ) (h : b.Bookkept registered) :
    (conns.foldl cleanupClient b).Bookkept (SelBroker.unregister registered conns) := by
  induction conns generalizing b registered with
  | nil =>
    rw [unregister_nil]
    exact h
  | cons conn conns ih =>
    have hcons := ih (bookkept_cleanup h conn)
    rwa [unregister_unregister] at hcons

omit [DecidableEq κ] in
theorem bookkept_answer (h : b.Bookkept registered) (conn : κ) (reply : Str) :
    (b.answer net conn reply).1.Bookkept registered :=
  h.congr rfl rfl (Sockets.closed_sendall net b.sockets conn _)

/-- **A subscription** of a registered connection. -/
theorem bookkept_subscribe (h : b.Bookkept registered) {conn : κ} (hconn : conn ∈ registered)
    (topic : Str) : (b.subscribe conn topic).Bookkept registered where
  nonempty topic' he := by
    rw [subscribe, PyDict.get?_set] at he
    split_ifs at he
    · exact Finset.insert_ne_empty _ _ (Option.some.inj he)
    · exact h.nonempty topic' he
  subscriber c topic' hc := by
    rcases (subscribes_subscribe b conn c topic topic').mp hc with ⟨rfl, -⟩ | hc
    · exact hconn
    · exact h.subscriber c topic' hc
  opened := h.opened
  buffered := h.buffered

/-- **A publication** unregisters its dead links. -/
theorem bookkept_deliver (h : b.Bookkept registered) (topic msg : Str) :
    (b.deliver net topic msg).Bookkept
      (SelBroker.unregister registered (b.deadLinks net topic msg)) := by
  rw [deliver, deadLinks]
  cases b.subscribers.get? topic with
  | none => exact bookkept_foldl_cleanup [] h
  | some conns =>
    exact bookkept_foldl_cleanup _ (h.congr rfl rfl (Sockets.closed_fanOut net _ _ b.sockets))

/-! ## The lines of one `recv` -/

theorem closed_foldl_cleanup {conns : List κ} {conn : κ} (hmem : conn ∈ conns)
    (b : PubSubBroker κ) : (conns.foldl cleanupClient b).sockets.closed conn = true := by
  induction conns generalizing b with
  | nil => exact absurd hmem List.not_mem_nil
  | cons c conns ih =>
    rcases List.mem_cons.mp hmem with rfl | hmem
    · exact (Grows.foldl_cleanupClient conns _).closed conn (cleanupClient_closed b conn)
    · exact ih hmem _

/-- The dead links of a publication are closed. -/
theorem closed_deliver {conn : κ} {topic msg : Str} (hmem : conn ∈ b.deadLinks net topic msg) :
    (b.deliver net topic msg).sockets.closed conn = true := by
  rw [deadLinks] at hmem
  rw [deliver]
  cases hget : b.subscribers.get? topic with
  | none =>
    rw [hget] at hmem
    exact absurd hmem List.not_mem_nil
  | some conns =>
    rw [hget] at hmem
    exact closed_foldl_cleanup hmem _

variable (net) in
/-- **One line**: a client that is itself a dead link does not get its answer. -/
theorem bookkept_handleLine (h : b.Bookkept registered) {conn : κ} (hconn : conn ∈ registered)
    (line : Bytes) :
    (b.handleLine net conn line).1.Bookkept
        (SelBroker.unregister registered (b.unregisteredByLine net conn line)) ∧
      ((b.handleLine net conn line).2 = true →
        conn ∈ SelBroker.unregister registered (b.unregisteredByLine net conn line)) := by
  rw [handleLine, unregisteredByLine]
  by_cases hblank : strip (decodeIgnore line) = []
  · rw [if_pos hblank, if_pos hblank, unregister_nil]
    exact ⟨h, fun _ => hconn⟩
  · rw [if_neg hblank, if_neg hblank]
    cases Command.parse (strip (decodeIgnore line)) with
    | none =>
      dsimp only
      rw [unregister_nil]
      exact ⟨bookkept_answer h conn _, fun _ => hconn⟩
    | some command =>
      cases command with
      | sub topic =>
        dsimp only
        rw [unregister_nil]
        have hnote : (b.note conn (.sub topic)).Bookkept registered := h.congr rfl rfl rfl
        exact ⟨bookkept_answer (bookkept_subscribe hnote hconn topic) conn _, fun _ => hconn⟩
      | pub topic msg =>
        have hnote : (b.note conn (.pub topic msg)).Bookkept registered := h.congr rfl rfl rfl
        refine ⟨bookkept_answer (bookkept_deliver hnote topic msg) conn _, fun hok => ?_⟩
        refine mem_unregister.mpr ⟨hconn, fun hdead => ?_⟩
        have hopen := open_of_obey hok
        have hclosed := closed_deliver hdead
        have hsame := congrFun (Sockets.closed_sendall net
          ((b.note conn (.pub topic msg)).deliver net topic msg).sockets conn
          (.reply (encodeUtf8 "+OK Published\n".toList))) conn
        exact Bool.false_ne_true (hopen.symm.trans (hsame.trans hclosed))

variable (net) in
theorem bookkept_handleLines {conn : κ} (lines : List Bytes) (h : b.Bookkept registered)
    (hconn : conn ∈ registered) :
    (handleLines net conn lines b).1.Bookkept
        (SelBroker.unregister registered (b.unregisteredByLines net conn lines)) ∧
      ((handleLines net conn lines b).2 = true →
        conn ∈ SelBroker.unregister registered (b.unregisteredByLines net conn lines)) := by
  induction lines generalizing b registered with
  | nil =>
    rw [handleLines, unregisteredByLines, unregister_nil]
    exact ⟨h, fun _ => hconn⟩
  | cons line lines ih =>
    obtain ⟨hline, hstays⟩ := bookkept_handleLine net h hconn line
    rw [handleLines, unregisteredByLines]
    by_cases hok : (b.handleLine net conn line).2 = true
    · rw [if_pos hok, if_pos hok, ← unregister_unregister]
      exact ih hline (hstays hok)
    · rw [if_neg hok, if_neg hok, List.append_nil]
      exact ⟨hline, fun h => absurd h hok⟩

end PubSubBroker

/-! ## Runs -/

namespace SelBroker

open PubSubBroker

variable {κ : Type} [DecidableEq κ] {net : Network κ}

/-- What is registered is open and has a buffer. -/
def Registered (s : SelBroker κ) : Prop :=
  ∀ conn ∈ s.registered, s.broker.sockets.closed conn = false ∧ conn ∈ s.broker.buffers

omit [DecidableEq κ] in
theorem bookkept_iff (s : SelBroker κ) :
    s.broker.Bookkept s.registered ↔ s.Registered ∧ s.BookkeepingOk := by
  constructor
  · intro h
    refine ⟨fun conn hc => ⟨h.opened conn hc, h.buffered conn hc⟩, h.nonempty, ?_⟩
    intro conn topic hsub
    have hc := h.subscriber conn topic hsub
    exact ⟨h.opened conn hc, hc, h.buffered conn hc⟩
  · rintro ⟨hreg, hok⟩
    exact ⟨hok.nonempty, fun conn topic hsub => (hok.subscriber conn topic hsub).2.1,
      fun conn hc => (hreg conn hc).1, fun conn hc => (hreg conn hc).2⟩

omit [DecidableEq κ] in
theorem mem_registered_of_open {s : SelBroker κ} {conn : κ}
    (h : conn ∈ s.registered ∨ s.broker.sockets.closed conn = true)
    (hopen : s.broker.sockets.closed conn = false) : conn ∈ s.registered := by
  refine h.resolve_right fun hclosed => ?_
  exact Bool.false_ne_true (hopen.symm.trans hclosed)

/-- **One call of `handle_client`** keeps the bookkeeping, unless it answers a subscriber's health
check. -/
theorem bookkept_handle {s : SelBroker κ} (h : s.broker.Bookkept s.registered) {conn : κ}
    {data : Bytes} (hknown : conn ∈ s.registered ∨ s.broker.sockets.closed conn = true)
    (hprobe : s.NoProbe (.handle conn data)) :
    (s.broker.handleClient net conn data).Bookkept
      (unregister s.registered (s.broker.unregistered net conn data)) := by
  rw [handleClient, unregistered]
  split_ifs with hclosed hnil hhttp
  · exact bookkept_cleanup h conn
  · exact bookkept_cleanup h conn
  · have hopen := Bool.eq_false_iff.mpr hclosed
    exact bookkept_close (bookkept_answer h conn _) (hprobe hhttp hopen)
  · have hconn := mem_registered_of_open hknown (Bool.eq_false_iff.mpr hclosed)
    obtain ⟨hlines, -⟩ := bookkept_handleLines net
      (splitLines 10 ((s.broker.buffers.get? conn).getD [] ++ data)).1 h hconn
    dsimp only
    split_ifs
    · rw [List.append_nil]
      exact ⟨hlines.nonempty, hlines.subscriber, hlines.opened,
        fun c hc => PyDict.mem_set.mpr (Or.inr (hlines.buffered c hc))⟩
    · rw [← unregister_unregister]
      exact bookkept_cleanup hlines conn

/-- The answer to a subscriber's health check leaves it in its topics. -/
theorem not_bookkeepingOk_probe {s : SelBroker κ} {conn : κ} {data : Bytes} (hhttp : IsHttp data)
    (hopen : s.broker.sockets.closed conn = false) {topic : Str}
    (hsub : s.broker.Subscribes conn topic) {registered : Finset κ} :
    ¬ BookkeepingOk ⟨s.broker.handleClient net conn data, registered⟩ := by
  have hne : data ≠ [] := by
    rintro rfl
    exact absurd hhttp (by decide)
  have hhandle : s.broker.handleClient net conn data =
      (s.broker.answer net conn httpReply).1.close conn := by
    rw [handleClient, if_neg (Bool.eq_false_iff.mp hopen), if_neg hne, if_pos hhttp]
  intro h
  have hclosed := (h.subscriber conn topic (by rw [hhandle]; exact hsub)).1
  rw [hhandle, close_closed] at hclosed
  cases hclosed

/-- **One call** keeps the bookkeeping exactly if it is no health check of a subscriber. -/
theorem bookkept_step {s s' : SelBroker κ} {l : BrokerCall κ} (h : s.broker.Bookkept s.registered)
    (hstep : step net l s = some s') :
    (s.NoProbe l → s'.broker.Bookkept s'.registered) ∧ (s'.BookkeepingOk → s.NoProbe l) := by
  cases l with
  | accept conn =>
    rw [step] at hstep
    split_ifs at hstep with hnew
    cases hstep
    obtain ⟨-, hopen⟩ := not_or.mp hnew
    exact ⟨fun _ => bookkept_accept h (Bool.eq_false_iff.mpr hopen), fun _ => trivial⟩
  | cleanup conn =>
    rw [step] at hstep
    split_ifs at hstep
    cases hstep
    exact ⟨fun _ => bookkept_cleanup h conn, fun _ => trivial⟩
  | handle conn data =>
    rw [step] at hstep
    split_ifs at hstep with hknown
    cases hstep
    refine ⟨fun hprobe => bookkept_handle h hknown hprobe, fun hok hhttp hopen topic hsub => ?_⟩
    exact not_bookkeepingOk_probe hhttp hopen hsub hok

/-- **The broker's bookkeeping holds all along a run exactly when no health check comes from a
connection that has subscribed.** -/
theorem bookkeeping_iff (net : Network κ) (calls : List (BrokerCall κ)) :
    (∀ p t, p <+: calls → Trans.run (step net) p init = some t → t.BookkeepingOk) ↔
      Trans.Guarded (step net) NoProbe calls init := by
  refine Trans.run_invariant_iff (J := Registered) ?_ ?_ ?_ ?_ ?_
  · intro l s s' hreg hok hstep hok'
    have h := (bookkept_iff s).mpr ⟨hreg, hok⟩
    obtain ⟨hkeeps, hguard⟩ := bookkept_step h hstep
    exact ((bookkept_iff s').mp (hkeeps (hguard hok'))).1
  · intro l s s' hreg hok hstep
    have h := (bookkept_iff s).mpr ⟨hreg, hok⟩
    obtain ⟨hkeeps, hguard⟩ := bookkept_step h hstep
    exact ⟨hguard, fun hl => ((bookkept_iff s').mp (hkeeps hl)).2⟩
  · intro l s hstep hreg hok
    cases l with
    | accept conn => trivial
    | cleanup conn => trivial
    | handle conn data =>
      -- a call is refused only for a connection that was never accepted
      intro hhttp hopen topic hsub
      rw [step, if_pos (Or.inl (hok.subscriber conn topic hsub).2.1)] at hstep
      cases hstep
  · exact fun conn hconn => absurd hconn (Finset.notMem_empty conn)
  · refine ⟨fun topic => ?_, fun conn topic hsub => ?_⟩
    · exact (Option.some_ne_none _).symm
    · obtain ⟨conns, hget, -⟩ := hsub
      cases hget

/-- A health check on a connection that has subscribed: the topic keeps a closed socket. -/
theorem not_bookkeeping_probe : ∃ t, Trans.run (step (perfectNetwork Unit))
    [.accept (), .handle () (encodeUtf8 "SUB a\n".toList), .handle () (encodeUtf8 "GET / ".toList)]
    init = some t ∧ ¬ t.BookkeepingOk := by
  refine ⟨_, rfl, fun h => ?_⟩
  have hclosed := (h.subscriber () ['a'] ⟨{()}, rfl, Finset.mem_singleton_self ()⟩).1
  cases hclosed

end SelBroker

end JobSystem
