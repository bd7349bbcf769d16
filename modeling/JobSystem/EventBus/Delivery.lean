import JobSystem.EventBus.Broker

/-!
# What subscribers receive

Runs of the broker in which every `recv` returns whole `SUB` and `PUB` lines, on any connections in
any order, with any of the sends failing.

* `Command.text`, **`Command.parse_text`**: a line gives back its command;
* `Account`: what a connection has subscribed to and is owed, by the commands handled so far;
* `Kept`: the invariant; while a `PUB` cleans up, all but the dead links;
* `Grows`: a closed socket stays closed and silent;
* **`broker_delivers`**.
-/

namespace JobSystem

open PyText

/-! ## Lines -/

/-- A topic: a nonempty text without white space. -/
def IsTopic (topic : Str) : Prop := topic ≠ [] ∧ ∀ c ∈ topic, isSpace c = false

/-- The JSON text of an object, on one line. -/
structure IsPayload (msg : Str) : Prop where
  head : msg.head? = some '{'
  last : msg.getLast? = some '}'
  line : '\n' ∉ msg

/-- A command that a client sends. -/
def Command.Plain : Command → Prop
  | .sub topic => IsTopic topic
  | .pub topic msg => IsTopic topic ∧ IsPayload msg

/-- `f"SUB {topic}"` and `f"PUB {topic} {msg}"`. -/
def Command.text : Command → Str
  | .sub topic => ['S', 'U', 'B'] ++ ([' '] ++ topic)
  | .pub topic msg => ['P', 'U', 'B'] ++ ([' '] ++ (topic ++ ([' '] ++ msg)))

/-- The bytes of a list of lines. -/
def encodeLines (commands : List Command) : Bytes :=
  (commands.map fun command => encodeUtf8 (command.text ++ ['\n'])).flatten

namespace Command

variable {command : Command}

theorem not_isSpace_last (h : command.Plain) : ∀ c ∈ command.text.getLast?, isSpace c = false := by
  intro c hc
  cases command with
  | sub topic =>
    have hrest : [' '] ++ topic ≠ [] := List.cons_ne_nil _ _
    rw [text, List.getLast?_append_of_ne_nil _ hrest, List.getLast?_append_of_ne_nil _ h.1] at hc
    exact h.2 c (List.mem_of_getLast? hc)
  | pub topic msg =>
    rw [text, List.getLast?_append, List.getLast?_append, List.getLast?_append,
      List.getLast?_append, h.2.last] at hc
    cases hc
    rfl

theorem strip_text (h : command.Plain) : strip command.text = command.text := by
  refine strip_eq_self (fun c hc => ?_) (not_isSpace_last h)
  cases command with
  | sub topic => cases hc; rfl
  | pub topic msg => cases hc; rfl

theorem text_ne_nil (command : Command) : command.text ≠ [] := by
  cases command <;> exact List.cons_ne_nil _ _

theorem space_notMem {topic : Str} (h : IsTopic topic) : ' ' ∉ topic := by
  intro hm
  exact absurd (h.2 ' ' hm) (by decide)

theorem newline_notMem_text (h : command.Plain) : '\n' ∉ command.text := by
  have htopic : ∀ topic, IsTopic topic → '\n' ∉ topic := by
    intro topic ht hm
    exact absurd (ht.2 '\n' hm) (by decide)
  cases command with
  | sub topic =>
    have := htopic topic h
    simp [text, this]
  | pub topic msg =>
    have := htopic topic h.1
    simp [text, this, h.2.line]

/-- **A line gives back its command.** -/
theorem parse_text (h : command.Plain) : parse command.text = some command := by
  have hsub : ' ' ∉ ['S', 'U', 'B'] := by decide
  have hpub : ' ' ∉ ['P', 'U', 'B'] := by decide
  cases command with
  | sub topic =>
    rw [parse, text, splitMax_append rfl hsub, splitMax_of_notMem rfl (space_notMem h)]
    rfl
  | pub topic msg =>
    rw [parse, text, splitMax_append rfl hpub, splitMax_append rfl (space_notMem h.1)]
    rfl

end Command

/-- The lines of a piece, without a rest. -/
theorem splitLines_encodeLines {commands : List Command} (h : ∀ command ∈ commands, command.Plain) :
    splitLines 10 (encodeLines commands) =
      (commands.map fun command => encodeUtf8 command.text, []) := by
  induction commands with
  | nil => rfl
  | cons command commands ih =>
    have hline := newline_notMem_encodeUtf8 (Command.newline_notMem_text (h _ List.mem_cons_self))
    have henc : encodeLines (command :: commands) =
        encodeUtf8 command.text ++ 10 :: encodeLines commands := by
      rw [encodeLines, List.map_cons, List.flatten_cons, encodeUtf8_append, List.append_assoc]
      rfl
    rw [henc, splitLines_line hline, ih fun command hc => h command (List.mem_cons_of_mem _ hc)]
    rfl

theorem not_isHttp_encodeLines (commands : List Command) : ¬ IsHttp (encodeLines commands) := by
  cases commands with
  | nil => decide
  | cons command commands =>
    rintro (h | h)
    all_goals
      obtain ⟨rest, hrest⟩ := h
      cases command with
      | sub topic => exact absurd (List.cons.inj hrest).1 (by decide)
      | pub topic msg => exact absurd (List.cons.inj hrest).1 (by decide)

theorem encodeLines_ne_nil {commands : List Command} (h : commands ≠ []) :
    encodeLines commands ≠ [] := by
  cases commands with
  | nil => exact absurd rfl h
  | cons command commands => cases command <;> exact List.cons_ne_nil _ _

/-! ## Accounts -/

/-- What a connection has subscribed to, and what it is owed. -/
structure Account where
  topics : Str → Bool
  msgs : List Bytes

/-- One command more. -/
def Account.add {κ : Type} [DecidableEq κ] (conn : κ) (a : Account) (e : κ × Command) : Account :=
  match e.2 with
  | .sub topic => if e.1 = conn then { a with topics := Function.update a.topics topic true } else a
  | .pub topic msg =>
    if a.topics topic then { a with msgs := a.msgs ++ [encodeUtf8 (msg ++ ['\n'])] } else a

/-- The account of a connection after a list of handled commands. -/
def account {κ : Type} [DecidableEq κ] (conn : κ) (handled : List (κ × Command)) : Account :=
  handled.foldl (Account.add conn) ⟨fun _ => false, []⟩

/-- The messages among the packets sent to a connection. -/
def messagesTo {κ : Type} [DecidableEq κ] (conn : κ) (sent : List (κ × Packet)) : List Bytes :=
  sent.filterMap fun e =>
    if e.1 = conn then
      match e.2 with
      | .message bs => some bs
      | .reply _ => none
    else none

/-- All that is sent to a connection. -/
def sentTo {κ : Type} [DecidableEq κ] (conn : κ) (sent : List (κ × Packet)) : List Packet :=
  (sent.filter fun e => e.1 = conn).map Prod.snd

section Accounts

variable {κ : Type} [DecidableEq κ] (conn : κ)

theorem account_append (handled : List (κ × Command)) (e : κ × Command) :
    account conn (handled ++ [e]) = (account conn handled).add conn e := by
  rw [account, List.foldl_append]
  rfl

theorem messagesTo_append (sent sent' : List (κ × Packet)) :
    messagesTo conn (sent ++ sent') = messagesTo conn sent ++ messagesTo conn sent' :=
  List.filterMap_append

theorem sentTo_append (sent sent' : List (κ × Packet)) :
    sentTo conn (sent ++ sent') = sentTo conn sent ++ sentTo conn sent' := by
  rw [sentTo, List.filter_append, List.map_append]
  rfl

end Accounts

/-! ## Sends -/

namespace Sockets

variable {κ : Type} {net : Network κ} {packet : Packet}

/-- A send reaches an open socket or changes nothing that is sent. -/
theorem sendall_cases (net : Network κ) (n : Sockets κ) (conn : κ) (packet : Packet) :
    (n.closed conn = false ∧ n.sendall net conn packet =
      ({ n with sent := n.sent ++ [(conn, packet)], tries := n.tries + 1 }, true)) ∨
    n.sendall net conn packet = ({ n with tries := n.tries + 1 }, false) := by
  unfold sendall
  split_ifs with h
  · exact .inr rfl
  · rw [Bool.or_eq_true, not_or, Bool.not_eq_true] at h
    exact .inl ⟨h.1, rfl⟩

theorem closed_sendall (net : Network κ) (n : Sockets κ) (conn : κ) (packet : Packet) :
    (n.sendall net conn packet).1.closed = n.closed := by
  rcases sendall_cases net n conn packet with ⟨-, h⟩ | h <;> rw [h]

theorem closed_fanOut (net : Network κ) (packet : Packet) (conns : List κ) (n : Sockets κ) :
    (n.fanOut net packet conns).1.closed = n.closed := by
  induction conns generalizing n with
  | nil => rfl
  | cons conn conns ih => rw [fanOut, ih, closed_sendall]

/-- What a send adds for each connection. -/
theorem sent_sendall (net : Network κ) (n : Sockets κ) (conn : κ) (packet : Packet) :
    ∃ new, (n.sendall net conn packet).1.sent = n.sent ++ new ∧
      (new = [(conn, packet)] ∧ n.closed conn = false ∧ (n.sendall net conn packet).2 = true ∨
        new = [] ∧ (n.sendall net conn packet).2 = false) := by
  rcases sendall_cases net n conn packet with ⟨hopen, h⟩ | h <;> rw [h]
  · exact ⟨[(conn, packet)], rfl, .inl ⟨rfl, hopen, rfl⟩⟩
  · exact ⟨[], (List.append_nil _).symm, .inr ⟨rfl, rfl⟩⟩

variable (net packet) in
/-- A fan-out sends one packet to each connection of the list that is not dead. -/
theorem sent_fanOut {conns : List κ} (hnodup : conns.Nodup) (n : Sockets κ) :
    ∃ reached : List κ,
      (n.fanOut net packet conns).1.sent = n.sent ++ reached.map (fun c => (c, packet)) ∧
      reached.Nodup ∧ (∀ c ∈ reached, n.closed c = false) ∧
      ∀ c, c ∈ conns ↔ c ∈ reached ∨ c ∈ (n.fanOut net packet conns).2 := by
  induction conns generalizing n with
  | nil => exact ⟨[], (List.append_nil _).symm, List.nodup_nil, by simp, by simp [fanOut]⟩
  | cons conn conns ih =>
    rw [List.nodup_cons] at hnodup
    obtain ⟨reached, hsent, hnd, hopen, hmem⟩ := ih hnodup.2 (n.sendall net conn packet).1
    rw [closed_sendall] at hopen
    obtain ⟨new, hnew, ⟨rfl, hconn, hok⟩ | ⟨rfl, hok⟩⟩ := sent_sendall net n conn packet
    · refine ⟨conn :: reached, ?_, ?_, ?_, ?_⟩
      · rw [fanOut, hsent, hnew, List.append_assoc]
        rfl
      · refine List.nodup_cons.mpr ⟨fun hm => hnodup.1 ?_, hnd⟩
        exact (hmem conn).mpr (.inl hm)
      · intro c hc
        rcases List.mem_cons.mp hc with rfl | hc
        · exact hconn
        · exact hopen c hc
      · intro c
        rw [fanOut, if_pos hok, List.mem_cons, List.mem_cons, hmem c, or_assoc]
    · refine ⟨reached, ?_, hnd, hopen, ?_⟩
      · rw [fanOut, hsent, hnew, List.append_nil]
      · intro c
        rw [fanOut, if_neg (by rw [hok]; exact Bool.false_ne_true), List.mem_cons, List.mem_cons,
          hmem c, or_left_comm]

end Sockets

/-! ## The invariant -/

namespace PubSubBroker

variable {κ : Type} [DecidableEq κ] {net : Network κ} {b : PubSubBroker κ}

/-- A connection is among the subscribers of a topic. -/
def Subscribes (b : PubSubBroker κ) (conn : κ) (topic : Str) : Prop :=
  ∃ conns, b.subscribers.get? topic = some conns ∧ conn ∈ conns

/-- The subscribers are open sockets, by their accounts; every socket outside `dead` has been sent
what it is owed. -/
structure Kept (dead : List κ) (b : PubSubBroker κ) : Prop where
  nonempty : ∀ topic, b.subscribers.get? topic ≠ some ∅
  opened : ∀ conn topic, b.Subscribes conn topic → b.sockets.closed conn = false
  topics : ∀ conn, b.sockets.closed conn = false →
    ∀ topic, b.Subscribes conn topic ↔ (account conn b.handled).topics topic = true
  messages : ∀ conn, b.sockets.closed conn = false → conn ∉ dead →
    messagesTo conn b.sockets.sent = (account conn b.handled).msgs
  buffers : ∀ conn, (b.buffers.get? conn).getD [] = []

theorem kept_init : Kept [] (init : PubSubBroker κ) where
  nonempty := fun _ => (Option.some_ne_none _).symm
  opened := fun _ _ _ => rfl
  topics := fun conn _ topic => by
    constructor
    · rintro ⟨conns, h, -⟩
      exact absurd h.symm (Option.some_ne_none _)
    · exact fun h => Bool.noConfusion h
  messages := fun _ _ _ => rfl
  buffers := fun _ => rfl

/-! ### Clean-up -/

theorem get?_cleanupClient (b : PubSubBroker κ) (conn : κ) (topic : Str) :
    (b.cleanupClient conn).subscribers.get? topic =
      (b.subscribers.get? topic).bind fun conns =>
        if conn ∈ conns then if conns.erase conn = ∅ then none else some (conns.erase conn)
        else some conns :=
  PyDict.get?_filterMap _ _ _

theorem subscribes_cleanupClient (b : PubSubBroker κ) (conn c : κ) (topic : Str) :
    (b.cleanupClient conn).Subscribes c topic ↔ c ≠ conn ∧ b.Subscribes c topic := by
  unfold Subscribes
  rw [get?_cleanupClient]
  cases b.subscribers.get? topic with
  | none => simp
  | some conns =>
    simp only [Option.bind_some, Option.some.injEq, exists_eq_left']
    split_ifs with hmem hempty
    · have : c ∉ conns.erase conn := by rw [hempty]; exact Finset.notMem_empty c
      rw [Finset.mem_erase] at this
      simp [this]
    · simp only [Option.some.injEq, exists_eq_left', Finset.mem_erase]
    · simp only [Option.some.injEq, exists_eq_left']
      constructor
      · intro hc
        refine ⟨?_, hc⟩
        rintro rfl
        exact hmem hc
      · exact And.right

theorem closed_cleanupClient (b : PubSubBroker κ) (conn c : κ) :
    (b.cleanupClient conn).sockets.closed c = (decide (c = conn) || b.sockets.closed c) := by
  change Function.update b.sockets.closed conn true c = _
  rw [Function.update_apply]
  split_ifs with h
  · rw [decide_eq_true h, Bool.true_or]
  · rw [decide_eq_false h, Bool.false_or]

/-- Clean-up settles one dead link. -/
theorem kept_cleanupClient {conn : κ} {dead : List κ} (h : Kept (conn :: dead) b) :
    Kept dead (b.cleanupClient conn) where
  nonempty := fun topic => by
    rw [get?_cleanupClient]
    have := h.nonempty topic
    cases hget : b.subscribers.get? topic with
    | none => exact (Option.some_ne_none _).symm
    | some conns =>
      rw [hget] at this
      rw [Option.bind_some]
      split_ifs with hmem hempty
      · exact (Option.some_ne_none _).symm
      · exact fun h => hempty (Option.some.inj h)
      · exact this
  opened := fun c topic hc => by
    rw [subscribes_cleanupClient] at hc
    rw [closed_cleanupClient, decide_eq_false hc.1, h.opened c topic hc.2]
    rfl
  topics := fun c hc topic => by
    rw [closed_cleanupClient, Bool.or_eq_false_iff, decide_eq_false_iff_not] at hc
    rw [subscribes_cleanupClient]
    exact (and_iff_right hc.1).trans (h.topics c hc.2 topic)
  messages := fun c hc hdead => by
    rw [closed_cleanupClient, Bool.or_eq_false_iff, decide_eq_false_iff_not] at hc
    exact h.messages c hc.2 (List.not_mem_cons_of_ne_of_not_mem hc.1 hdead)
  buffers := fun c => by
    change ((b.buffers.erase conn).get? c).getD [] = []
    rw [PyDict.get?_erase]
    split_ifs
    · rfl
    · exact h.buffers c

theorem Kept.mono {dead dead' : List κ} (h : Kept dead b) (hsub : dead ⊆ dead') : Kept dead' b :=
  { h with messages := fun c hc hdead => h.messages c hc fun hm => hdead (hsub hm) }

theorem kept_foldl_cleanupClient {dead : List κ} (h : Kept dead b) :
    Kept [] (dead.foldl cleanupClient b) := by
  induction dead generalizing b with
  | nil => exact h
  | cons conn dead ih => exact ih (kept_cleanupClient h)

/-! ### Commands -/

theorem messagesTo_reached {reached : List κ} (h : reached.Nodup) (conn : κ) (bs : Bytes) :
    messagesTo conn (reached.map fun c => (c, Packet.message bs)) =
      if conn ∈ reached then [bs] else [] := by
  induction reached with
  | nil => rfl
  | cons c reached ih =>
    rw [List.nodup_cons] at h
    have hcons : messagesTo conn ((c :: reached).map fun c => (c, Packet.message bs)) =
        (if c = conn then [bs] else []) ++
          messagesTo conn (reached.map fun c => (c, Packet.message bs)) := by
      by_cases hc : c = conn <;> simp [messagesTo, hc]
    rw [hcons, ih h.2]
    by_cases hc : c = conn
    · subst hc
      simp [h.1]
    · simp [hc, Ne.symm hc]

theorem kept_answer {dead : List κ} (h : Kept dead b) (conn : κ) (reply : Str) :
    Kept dead (b.answer net conn reply).1 := by
  have hclosed := Sockets.closed_sendall net b.sockets conn (.reply (encodeUtf8 reply))
  have hmsgs : ∀ c, messagesTo c (b.answer net conn reply).1.sockets.sent =
      messagesTo c b.sockets.sent := by
    intro c
    obtain ⟨new, hnew, hcases⟩ :=
      Sockets.sent_sendall net b.sockets conn (.reply (encodeUtf8 reply))
    change messagesTo c (b.sockets.sendall net conn _).1.sent = _
    rw [hnew, messagesTo_append]
    rcases hcases with ⟨rfl, -⟩ | ⟨rfl, -⟩
    · by_cases hc : conn = c <;> simp [messagesTo, hc]
    · exact List.append_nil _
  exact
    { nonempty := h.nonempty
      opened := fun c topic hc => (congrFun hclosed c).trans (h.opened c topic hc)
      topics := fun c hc => h.topics c ((congrFun hclosed c).symm.trans hc)
      messages := fun c hc hdead => (hmsgs c).trans
        (h.messages c ((congrFun hclosed c).symm.trans hc) hdead)
      buffers := h.buffers }

theorem subscribes_subscribe (b : PubSubBroker κ) (conn c : κ) (topic topic' : Str) :
    (b.subscribe conn topic).Subscribes c topic' ↔
      (c = conn ∧ topic' = topic) ∨ b.Subscribes c topic' := by
  unfold Subscribes subscribe
  simp only [PyDict.get?_set]
  split_ifs with ht
  · subst ht
    simp only [Option.some.injEq, exists_eq_left', Finset.mem_insert, and_true]
    cases b.subscribers.get? topic' with
    | none => simp
    | some conns => simp
  · simp [ht]

theorem account_sub (handled : List (κ × Command)) (conn c : κ) (topic topic' : Str) :
    (account c (handled ++ [(conn, .sub topic)])).topics topic' = true ↔
      (c = conn ∧ topic' = topic) ∨ (account c handled).topics topic' = true := by
  rw [account_append, Account.add]
  by_cases hc : conn = c
  · subst hc
    simp only [if_true, Function.update_apply]
    split_ifs with ht <;> simp [ht]
  · simp [hc, Ne.symm hc]

theorem kept_subscribe {conn : κ} (h : Kept [] b) (hopen : b.sockets.closed conn = false)
    (topic : Str) : Kept [] ((b.note conn (.sub topic)).subscribe conn topic) where
  nonempty := fun topic' => by
    change ((b.subscribers.set topic _).get? topic') ≠ some ∅
    rw [PyDict.get?_set]
    split_ifs
    · exact fun he => Finset.insert_ne_empty _ _ (Option.some.inj he)
    · exact h.nonempty topic'
  opened := fun c topic' hc => by
    rw [subscribes_subscribe] at hc
    rcases hc with ⟨rfl, -⟩ | hc
    · exact hopen
    · exact h.opened c topic' hc
  topics := fun c hc topic' => by
    have hadd := account_sub b.handled conn c topic topic'
    rw [subscribes_subscribe]
    exact (or_congr_right (h.topics c hc topic')).trans hadd.symm
  messages := fun c hc hdead => by
    have hmsgs : (account c (b.handled ++ [(conn, .sub topic)])).msgs =
        (account c b.handled).msgs := by
      rw [account_append, Account.add]
      simp only
      split_ifs <;> rfl
    exact (h.messages c hc hdead).trans hmsgs.symm
  buffers := h.buffers

theorem account_pub (handled : List (κ × Command)) (conn c : κ) (topic msg : Str) :
    account c (handled ++ [(conn, .pub topic msg)]) =
      { topics := (account c handled).topics
        msgs := (account c handled).msgs ++
          if (account c handled).topics topic then [encodeUtf8 (msg ++ ['\n'])] else [] } := by
  rw [account_append, Account.add]
  simp only
  split_ifs
  · rfl
  · rw [List.append_nil]

/-- The sends of a `PUB`: what the reached subscribers are owed more, they have got. -/
theorem kept_deliver {conn : κ} (h : Kept [] b) (topic msg : Str) :
    Kept [] ((b.note conn (.pub topic msg)).deliver net topic msg) := by
  have htopics : ∀ c, (account c (b.handled ++ [(conn, .pub topic msg)])).topics =
      (account c b.handled).topics := fun c => by rw [account_pub]
  unfold deliver
  cases hget : (b.note conn (.pub topic msg)).subscribers.get? topic with
  | none =>
    have hnot : ∀ c, ¬ b.Subscribes c topic := by
      rintro c ⟨conns, hconns, -⟩
      exact absurd (hconns.symm.trans hget) (Option.some_ne_none _)
    exact
      { nonempty := h.nonempty
        opened := h.opened
        topics := fun c hc topic' => by
          change b.Subscribes c topic' ↔ (account c (b.handled ++ _)).topics topic' = true
          rw [htopics]
          exact h.topics c hc topic'
        messages := fun c hc hdead => by
          have hno := mt (h.topics c hc topic).mpr (hnot c)
          change messagesTo c b.sockets.sent = (account c (b.handled ++ _)).msgs
          rw [account_pub, h.messages c hc hdead]
          simp [hno]
        buffers := h.buffers }
  | some conns =>
    have hiter := net.iter_eq b.sockets.tries conns
    have hnodup : (net.iter b.sockets.tries conns).Nodup := by
      rw [← Multiset.coe_nodup, hiter]
      exact conns.nodup
    have hmem : ∀ c, c ∈ net.iter b.sockets.tries conns ↔ b.Subscribes c topic := by
      intro c
      rw [← Multiset.mem_coe, hiter, Finset.mem_val]
      constructor
      · exact fun hc => ⟨conns, hget, hc⟩
      · rintro ⟨conns', hconns', hc⟩
        rwa [Option.some.inj (hget.symm.trans hconns')]
    obtain ⟨reached, hsent, hnd, -, hsplit⟩ := Sockets.sent_fanOut net
      (.message (encodeUtf8 (msg ++ ['\n']))) hnodup b.sockets
    have hclosed := Sockets.closed_fanOut net (.message (encodeUtf8 (msg ++ ['\n'])))
      (net.iter b.sockets.tries conns) b.sockets
    refine kept_foldl_cleanupClient ?_
    exact
      { nonempty := h.nonempty
        opened := fun c topic' hc => (congrFun hclosed c).trans (h.opened c topic' hc)
        topics := fun c hc topic' => by
          change b.Subscribes c topic' ↔ (account c (b.handled ++ _)).topics topic' = true
          rw [htopics]
          exact h.topics c ((congrFun hclosed c).symm.trans hc) topic'
        messages := fun c hc hdead => by
          have hc' := (congrFun hclosed c).symm.trans hc
          -- an open connection that is not dead is reached exactly if it is subscribed
          have hreached : c ∈ reached ↔ (account c b.handled).topics topic = true := by
            rw [← h.topics c hc' topic, ← hmem, hsplit]
            exact (or_iff_left hdead).symm
          refine (congrArg (messagesTo c) hsent).trans ?_
          change _ = (account c (b.handled ++ _)).msgs
          rw [messagesTo_append, messagesTo_reached hnd, account_pub,
            h.messages c hc' List.not_mem_nil]
          simp only [hreached]
        buffers := h.buffers }

/-! ### Closed sockets -/

/-- A closed socket stays closed, and nothing more is sent to it. -/
structure Grows (b b' : PubSubBroker κ) : Prop where
  closed : ∀ conn, b.sockets.closed conn = true → b'.sockets.closed conn = true
  silent : ∀ conn, b.sockets.closed conn = true →
    sentTo conn b'.sockets.sent = sentTo conn b.sockets.sent

namespace Grows

theorem refl (b : PubSubBroker κ) : Grows b b := ⟨fun _ => id, fun _ _ => rfl⟩

theorem trans {b b' b'' : PubSubBroker κ} (h : Grows b b') (h' : Grows b' b'') : Grows b b'' where
  closed := fun conn hc => h'.closed conn (h.closed conn hc)
  silent := fun conn hc => (h'.silent conn (h.closed conn hc)).trans (h.silent conn hc)

theorem cleanupClient (b : PubSubBroker κ) (conn : κ) : Grows b (b.cleanupClient conn) where
  closed := fun c hc => by rw [closed_cleanupClient, hc, Bool.or_true]
  silent := fun _ _ => rfl

theorem foldl_cleanupClient (dead : List κ) (b : PubSubBroker κ) :
    Grows b (dead.foldl PubSubBroker.cleanupClient b) := by
  induction dead generalizing b with
  | nil => exact refl b
  | cons conn dead ih => exact (cleanupClient b conn).trans (ih _)

theorem answer (net : Network κ) (b : PubSubBroker κ) (conn : κ) (reply : Str) :
    Grows b (b.answer net conn reply).1 where
  closed := fun c hc => (congrFun (Sockets.closed_sendall net b.sockets conn _) c).trans hc
  silent := fun c hc => by
    obtain ⟨new, hnew, hcases⟩ :=
      Sockets.sent_sendall net b.sockets conn (.reply (encodeUtf8 reply))
    refine (congrArg (sentTo c) hnew).trans ?_
    rcases hcases with ⟨rfl, hopen, -⟩ | ⟨rfl, -⟩
    · have hne : conn ≠ c := by
        rintro rfl
        exact Bool.noConfusion (hopen.symm.trans hc)
      simp [sentTo, hne]
    · rw [List.append_nil]

theorem deliver (net : Network κ) (b : PubSubBroker κ) (topic msg : Str) :
    Grows b (b.deliver net topic msg) := by
  unfold PubSubBroker.deliver
  cases b.subscribers.get? topic with
  | none => exact refl b
  | some conns =>
    have hnodup : (net.iter b.sockets.tries conns).Nodup := by
      rw [← Multiset.coe_nodup, net.iter_eq]
      exact conns.nodup
    have hclosed := Sockets.closed_fanOut net (.message (encodeUtf8 (msg ++ ['\n'])))
      (net.iter b.sockets.tries conns) b.sockets
    obtain ⟨reached, hsent, -, hopen, -⟩ := Sockets.sent_fanOut net
      (.message (encodeUtf8 (msg ++ ['\n']))) hnodup b.sockets
    refine trans ?_ (foldl_cleanupClient _ _)
    refine ⟨fun c hc => (congrFun hclosed c).trans hc, fun c hc => ?_⟩
    refine (congrArg (sentTo c) hsent).trans ?_
    have hnot : c ∉ reached := fun hm => Bool.noConfusion ((hopen c hm).symm.trans hc)
    have hnone : sentTo c (reached.map fun c =>
        (c, Packet.message (encodeUtf8 (msg ++ ['\n'])))) = [] := by
      rw [sentTo, List.map_eq_nil_iff, List.filter_eq_nil_iff]
      intro e he
      obtain ⟨c', hc', rfl⟩ := List.mem_map.mp he
      rw [decide_eq_true_eq]
      rintro rfl
      exact hnot hc'
    rw [sentTo_append, hnone, List.append_nil]

theorem obey (net : Network κ) (b : PubSubBroker κ) (conn : κ) (command : Option Command) :
    Grows b (b.obey net conn command).1 := by
  have hnote : ∀ command, Grows b (b.note conn command) := fun _ =>
    ⟨fun _ => id, fun _ _ => rfl⟩
  match command with
  | some (.sub topic) =>
    have hsub : Grows b ((b.note conn (.sub topic)).subscribe conn topic) :=
      ⟨fun _ => id, fun _ _ => rfl⟩
    exact hsub.trans (answer net _ conn _)
  | some (.pub topic msg) =>
    exact (hnote _).trans ((deliver net _ topic msg).trans (answer net _ conn _))
  | none => exact answer net b conn _

end Grows

/-! ### One `recv` -/

theorem handled_deliver (net : Network κ) (b : PubSubBroker κ) (topic msg : Str) :
    (b.deliver net topic msg).handled = b.handled := by
  have hfold : ∀ (dead : List κ) (b : PubSubBroker κ),
      (dead.foldl cleanupClient b).handled = b.handled := by
    intro dead
    induction dead with
    | nil => exact fun _ => rfl
    | cons conn dead ih => exact fun b => ih (b.cleanupClient conn)
  unfold deliver
  cases b.subscribers.get? topic with
  | none => rfl
  | some conns => exact hfold _ _

theorem handled_obey (net : Network κ) (b : PubSubBroker κ) (conn : κ) (command : Command) :
    (b.obey net conn (some command)).1.handled = b.handled ++ [(conn, command)] := by
  cases command with
  | sub topic => rfl
  | pub topic msg => exact handled_deliver net (b.note conn (.pub topic msg)) topic msg

theorem kept_obey {conn : κ} (h : Kept [] b) (hopen : b.sockets.closed conn = false)
    (command : Command) : Kept [] (b.obey net conn (some command)).1 := by
  cases command with
  | sub topic => exact kept_answer (kept_subscribe h hopen topic) conn _
  | pub topic msg => exact kept_answer (kept_deliver h topic msg) conn _

omit [DecidableEq κ] in
theorem open_of_answer {conn : κ} {reply : Str} (h : (b.answer net conn reply).2 = true) :
    (b.answer net conn reply).1.sockets.closed conn = false := by
  have hclosed := Sockets.closed_sendall net b.sockets conn (.reply (encodeUtf8 reply))
  refine (congrFun hclosed conn).trans ?_
  obtain ⟨new, -, ⟨-, hopen, -⟩ | ⟨-, hno⟩⟩ :=
    Sockets.sent_sendall net b.sockets conn (.reply (encodeUtf8 reply))
  · exact hopen
  · exact Bool.noConfusion (hno.symm.trans h)

/-- The client of a command whose answer is sent is open. -/
theorem open_of_obey {conn : κ} {command : Option Command}
    (h : (b.obey net conn command).2 = true) :
    (b.obey net conn command).1.sockets.closed conn = false := by
  match command with
  | some (.sub topic) => exact open_of_answer h
  | some (.pub topic msg) => exact open_of_answer h
  | none => exact open_of_answer h

theorem handleLine_text {command : Command} (h : command.Plain) (conn : κ) :
    b.handleLine net conn (encodeUtf8 command.text) = b.obey net conn (some command) := by
  rw [handleLine, decodeIgnore_encodeUtf8_self, Command.strip_text h,
    if_neg command.text_ne_nil, Command.parse_text h]

variable (net) in
/-- After some of the commands of a piece: all of them, if none raised. -/
theorem handleLines_text {conn : κ} {commands : List Command} (hk : Kept [] b)
    (hopen : b.sockets.closed conn = false) (h : ∀ command ∈ commands, command.Plain) :
    let r := handleLines net conn (commands.map fun command => encodeUtf8 command.text) b
    Kept [] r.1 ∧ Grows b r.1 ∧ ∃ part, part <+: commands ∧
      r.1.handled = b.handled ++ part.map (Prod.mk conn) ∧ (r.2 = true → part = commands) := by
  induction commands generalizing b with
  | nil => exact ⟨hk, Grows.refl b, [], List.prefix_rfl, (List.append_nil _).symm, fun _ => rfl⟩
  | cons command commands ih =>
    have hcommand := h command List.mem_cons_self
    have hrest : ∀ command ∈ commands, command.Plain := fun c hc => h c (List.mem_cons_of_mem _ hc)
    have hgrows := Grows.obey net b conn (some command)
    rw [List.map_cons, handleLines, handleLine_text hcommand]
    simp only
    split_ifs with hok
    · obtain ⟨hk', hgrows', part, hpart, hhandled, hall⟩ :=
        ih (kept_obey hk hopen command) (open_of_obey hok) hrest
      refine ⟨hk', hgrows.trans hgrows', command :: part, ?_, ?_, fun hr => ?_⟩
      · exact List.prefix_cons_inj _ |>.mpr hpart
      · rw [hhandled, handled_obey, List.append_assoc]
        rfl
      · rw [hall hr]
    · refine ⟨kept_obey hk hopen command, hgrows, [command], ?_, handled_obey net b conn command,
        fun hr => absurd hr hok⟩
      exact List.prefix_cons_inj _ |>.mpr (List.nil_prefix)

variable (net) in
/-- One `recv` of whole lines. -/
theorem handleClient_encodeLines (conn : κ) {commands : List Command} (hk : Kept [] b)
    (h : ∀ command ∈ commands, command.Plain) :
    let b' := b.handleClient net conn (encodeLines commands)
    Kept [] b' ∧ Grows b b' ∧ ∃ part, part <+: commands ∧
      b'.handled = b.handled ++ part.map (Prod.mk conn) ∧
      (b'.sockets.closed conn = false → part = commands) := by
  have hcleanup : ∀ {b : PubSubBroker κ}, Kept [] b → Kept [] (b.cleanupClient conn) := fun hk =>
    kept_cleanupClient (hk.mono (List.nil_subset _))
  have hclosed : ∀ b : PubSubBroker κ, (b.cleanupClient conn).sockets.closed conn ≠ false := by
    intro b hc
    rw [closed_cleanupClient, decide_eq_true rfl] at hc
    exact Bool.noConfusion hc
  unfold handleClient
  split_ifs with hshut hnil hhttp
  · exact ⟨hcleanup hk, Grows.cleanupClient b conn, [], List.nil_prefix,
      (List.append_nil _).symm, fun hc => absurd hc (hclosed b)⟩
  · have hcommands : commands = [] := by_contra fun hne => encodeLines_ne_nil hne hnil
    exact ⟨hcleanup hk, Grows.cleanupClient b conn, [], List.nil_prefix,
      (List.append_nil _).symm, fun _ => hcommands.symm⟩
  · exact absurd hhttp (not_isHttp_encodeLines commands)
  · have hopen : b.sockets.closed conn = false := by rwa [Bool.not_eq_true] at hshut
    obtain ⟨hk', hgrows, part, hpart, hhandled, hall⟩ :=
      handleLines_text net hk hopen h
    simp only [hk.buffers conn, List.nil_append, splitLines_encodeLines h]
    split_ifs with hok
    · refine ⟨?_, ⟨hgrows.closed, hgrows.silent⟩, part, hpart, hhandled, fun _ => hall hok⟩
      refine { hk' with buffers := fun c => ?_ }
      change ((PyDict.set _ conn []).get? c).getD [] = []
      rw [PyDict.get?_set]
      split_ifs
      · rfl
      · exact hk'.buffers c
    · exact ⟨hcleanup hk', hgrows.trans (Grows.cleanupClient _ conn), part, hpart, hhandled,
        fun hc => absurd hc (hclosed _)⟩

end PubSubBroker

/-! ## Runs -/

/-- A new connection, or a `recv` of whole lines; no lines are the end of the stream. -/
inductive Step (κ : Type) where
  | accept (conn : κ)
  | recv (conn : κ) (commands : List Command)

namespace Step

variable {κ : Type}

/-- The connection of a step. -/
def conn : Step κ → κ
  | accept conn => conn
  | recv conn _ => conn

/-- The commands of a step, with the connection that they come from. -/
def commands : Step κ → List (κ × Command)
  | accept _ => []
  | recv conn commands => commands.map (Prod.mk conn)

end Step

namespace PubSubBroker

variable {κ : Type} [DecidableEq κ] {net : Network κ} {b : PubSubBroker κ}

/-- A step of the broker. -/
def step (net : Network κ) (b : PubSubBroker κ) : Step κ → PubSubBroker κ
  | .accept conn => b.acceptConnection conn
  | .recv conn commands => b.handleClient net conn (encodeLines commands)

/-- A run of the broker. -/
def run (net : Network κ) (steps : List (Step κ)) (b : PubSubBroker κ) : PubSubBroker κ :=
  steps.foldl (step net) b

/-- A part of the commands of a step, all of them if its connection is open after a run. -/
def HandledOf (b : PubSubBroker κ) (s : Step κ) (part : List (κ × Command)) : Prop :=
  part <+: s.commands ∧ (b.sockets.closed s.conn = false → part = s.commands)

variable (net) in
theorem step_spec (hk : Kept [] b) {s : Step κ} (h : ∀ e ∈ s.commands, e.2.Plain) :
    Kept [] (b.step net s) ∧ Grows b (b.step net s) ∧ ∃ part,
      (b.step net s).handled = b.handled ++ part ∧ HandledOf (b.step net s) s part := by
  cases s with
  | accept conn =>
    refine ⟨{ hk with buffers := fun c => ?_ }, ⟨fun _ => id, fun _ _ => rfl⟩, [],
      (List.append_nil _).symm, List.prefix_rfl, fun _ => rfl⟩
    change ((b.buffers.set conn []).get? c).getD [] = []
    rw [PyDict.get?_set]
    split_ifs
    · rfl
    · exact hk.buffers c
  | recv conn commands =>
    have hplain : ∀ command ∈ commands, command.Plain := fun command hc =>
      h (conn, command) (List.mem_map_of_mem hc)
    obtain ⟨hk', hgrows, part, hpart, hhandled, hall⟩ :=
      handleClient_encodeLines net conn hk hplain
    exact ⟨hk', hgrows, part.map (Prod.mk conn), hhandled, hpart.map _, fun hc => by
      rw [hall hc]; rfl⟩

variable (net) in
theorem run_spec {steps : List (Step κ)} (hk : Kept [] b)
    (h : ∀ s ∈ steps, ∀ e ∈ s.commands, e.2.Plain) :
    Kept [] (run net steps b) ∧ Grows b (run net steps b) ∧ ∃ parts : List (List (κ × Command)),
      (run net steps b).handled = b.handled ++ parts.flatten ∧
      List.Forall₂ (HandledOf (run net steps b)) steps parts := by
  induction steps generalizing b with
  | nil => exact ⟨hk, Grows.refl b, [], (List.append_nil _).symm, List.Forall₂.nil⟩
  | cons s steps ih =>
    obtain ⟨hk₁, hgrows₁, part, hpart, hof⟩ :=
      step_spec net hk (h s List.mem_cons_self)
    obtain ⟨hk₂, hgrows₂, parts, hparts, hofs⟩ :=
      ih hk₁ fun s' hs => h s' (List.mem_cons_of_mem _ hs)
    refine ⟨hk₂, hgrows₁.trans hgrows₂, part :: parts, ?_, .cons ⟨hof.1, fun hc => ?_⟩ hofs⟩
    · change (run net steps (b.step net s)).handled = _
      rw [hparts, hpart, List.append_assoc]
      rfl
    · -- open at the end, so open after its own step
      refine hof.2 (Bool.eq_false_of_not_eq_true fun hshut => ?_)
      exact Bool.noConfusion (hc.symm.trans (hgrows₂.closed _ hshut))

/-- Two clients, where the sends to a subscriber fail from the second attempt on. -/
def failingNetwork : Network Bool where
  fails := fun n => decide (1 < n)
  iter := fun _ conns => [false, true].filter (· ∈ conns)
  iter_eq := fun _ => by decide

end PubSubBroker

end JobSystem
