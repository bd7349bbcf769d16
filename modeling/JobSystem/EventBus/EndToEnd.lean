import JobSystem.Gateway.Submit
import JobSystem.EventBus.Interleaved
import JobSystem.EventBus.Subscriber

/-!
# The event bus from end to end

`InternalEventBus.publish` connects to the broker and sends one line, and `_subscriber_loop` sends
one and reads what comes back. Many of both are connected at the same time.

* `publication`: the line of `publish`; `BusClient`: a subscriber or a publisher;
* `completed`: the connections in the order in which their lines are complete; **`handled_clients`**:
  every such line is carried out, and no other;
* `publishedAfter`: the events for a subscriber; `owed_subscriber`, `loop_of_front`;
* **`bus_end_to_end`**.
-/

namespace JobSystem

open PyText
open PyJson (Json FloatText Canonical Loaded library)

/-! ## The clients -/

/-- The line that `publish` sends; `none` is the `ValueError`, before it connects. -/
def publication (repr : Json → Str) (event : Fields) : Option Command :=
  (topicOf event).map fun topic => .pub (topic.pyStr repr) (eventText event)

/-- A client of the broker: `_subscriber_loop` on one connection, or one call of `publish`. -/
inductive BusClient where
  | subscriber (event_type : Str)
  | publisher (event : Fields)

/-- What a client sends. -/
def BusClient.script (repr : Json → Str) : BusClient → List Command
  | .subscriber event_type => [.sub event_type]
  | .publisher event => (publication repr event).toList

/-- A published event, if it has the topic. -/
def BusClient.eventOn (repr : Json → Str) (event_type : Str) : BusClient → Option Fields
  | .subscriber _ => none
  | .publisher event =>
    if (topicOf event).map (Json.pyStr repr) = some event_type then some event else none

section Order

variable {κ : Type}

/-- The connections in the order in which their lines are complete. -/
def completed (arrivals : List (Incoming κ)) : List κ :=
  arrivals.filterMap fun
    | .data conn chunk => if 10 ∈ chunk then some conn else none
    | _ => none

/-- The events of a topic that are published after a connection's line. -/
def publishedAfter [DecidableEq κ] (repr : Json → Str) (clients : κ → BusClient) (event_type : Str)
    (conn : κ) (conns : List κ) : List Fields :=
  (conns.dropWhile fun c => c ≠ conn).tail.filterMap fun c => (clients c).eventOn repr event_type

end Order

/-- The bytes of a packet. -/
def Packet.bytes : Packet → Bytes
  | .reply bs => bs
  | .message bs => bs

/-! ## Every complete line is carried out -/

namespace PubSubBroker

variable {κ : Type} [DecidableEq κ] {net : Network κ} {b : PubSubBroker κ}

/-- An open connection without subscriptions. -/
def Idle (b : PubSubBroker κ) (conn : κ) : Prop :=
  b.sockets.closed conn = false ∧ ∀ topic, ¬ b.Subscribes conn topic

theorem idle_cleanupClient {c conn : κ} (h : b.Idle c) (hne : c ≠ conn) :
    (b.cleanupClient conn).Idle c := by
  refine ⟨?_, fun topic hs => ?_⟩
  · rw [closed_cleanupClient, decide_eq_false hne, Bool.false_or]
    exact h.1
  · rw [subscribes_cleanupClient] at hs
    exact h.2 topic hs.2

theorem idle_foldl_cleanupClient {c : κ} {conns : List κ} (h : b.Idle c) (hne : c ∉ conns) :
    (conns.foldl cleanupClient b).Idle c := by
  induction conns generalizing b with
  | nil => exact h
  | cons conn conns ih =>
    rw [List.mem_cons, not_or] at hne
    exact ih (idle_cleanupClient h hne.1) hne.2

/-- Only subscribers are dead links. -/
theorem idle_deliver (net : Network κ) {c : κ} (h : b.Idle c) (topic msg : Str) :
    (b.deliver net topic msg).Idle c := by
  unfold deliver
  cases hget : b.subscribers.get? topic with
  | none => exact h
  | some conns =>
    have hiter := net.iter_eq b.sockets.tries conns
    have hnodup : (net.iter b.sockets.tries conns).Nodup := by
      rw [← Multiset.coe_nodup, hiter]
      exact conns.nodup
    obtain ⟨reached, -, -, -, hsplit⟩ := Sockets.sent_fanOut net
      (.message (encodeUtf8 (msg ++ ['\n']))) hnodup b.sockets
    have hclosed := Sockets.closed_fanOut net (.message (encodeUtf8 (msg ++ ['\n'])))
      (net.iter b.sockets.tries conns) b.sockets
    refine idle_foldl_cleanupClient ⟨(congrFun hclosed c).trans h.1, h.2⟩ fun hdead => ?_
    have hmem := (hsplit c).mpr (Or.inr hdead)
    rw [← Multiset.mem_coe, hiter, Finset.mem_val] at hmem
    exact h.2 topic ⟨conns, hget, hmem⟩

/-- The command of another connection. -/
theorem idle_obey (net : Network κ) {c conn : κ} (h : b.Idle c) (hne : c ≠ conn)
    (command : Command) : (b.obey net conn (some command)).1.Idle c := by
  have hanswer : ∀ {b : PubSubBroker κ} (reply : Str), b.Idle c →
      (b.answer net conn reply).1.Idle c := fun reply h =>
    ⟨(congrFun (Sockets.closed_sendall net _ conn _) c).trans h.1, h.2⟩
  cases command with
  | sub topic =>
    refine hanswer _ ⟨h.1, fun topic' hs => ?_⟩
    rw [subscribes_subscribe] at hs
    rcases hs with ⟨rfl, -⟩ | hs
    · exact hne rfl
    · exact h.2 topic' hs
  | pub topic msg => exact hanswer _ (idle_deliver net (b := b.note conn _) h topic msg)

/-- A `recv` of one line on an open connection. -/
theorem handleClient_line (net : Network κ) {conn : κ} (hk : Kept [] b)
    (hopen : b.sockets.closed conn = false) {command : Command} (h : command.Plain) :
    (b.handleClient net conn (encodeLines [command])).handled = b.handled ++ [(conn, command)] ∧
      ∀ c, c ≠ conn → b.Idle c → (b.handleClient net conn (encodeLines [command])).Idle c := by
  have hrun : ¬ b.sockets.closed conn = true := by
    rw [hopen]
    exact Bool.false_ne_true
  have hplain : ∀ command' ∈ [command], command'.Plain := fun command' hc =>
    List.mem_singleton.mp hc ▸ h
  have hhandled := handled_obey net b conn command
  unfold handleClient
  rw [if_neg hrun, if_neg (encodeLines_ne_nil (List.cons_ne_nil _ _)),
    if_neg (not_isHttp_encodeLines _)]
  simp only [hk.buffers conn, List.nil_append, splitLines_encodeLines hplain, List.map_cons,
    List.map_nil, handleLines, handleLine_text h]
  cases hok : (b.obey net conn (some command)).2 with
  | true =>
    rw [if_pos rfl, if_pos rfl]
    exact ⟨hhandled, fun c hne hidle => idle_obey net hidle hne command⟩
  | false =>
    rw [if_neg Bool.false_ne_true, if_neg (by rw [hok]; exact Bool.false_ne_true)]
    exact ⟨hhandled, fun c hne hidle => idle_cleanupClient (idle_obey net hidle hne command) hne⟩

/-- What is left of a run in which every connection has at most one line. -/
structure OneLineEach (b : PubSubBroker κ) (todo : κ → List Command)
    (arrivals : List (Incoming κ)) : Prop where
  kept : Kept [] b
  order : arrivals.Pairwise Incoming.Before
  once : (completed arrivals).Nodup
  single : ∀ conn chunk, .data conn chunk ∈ arrivals → chunk.count 10 ≤ 1
  command : ∀ conn ∈ completed arrivals, ∃ command, todo conn = [command] ∧ command.Plain
  idle : ∀ conn ∈ completed arrivals, b.Idle conn

omit [DecidableEq κ] in
theorem mem_completed {arrivals : List (Incoming κ)} {conn : κ} (h : conn ∈ completed arrivals) :
    ∃ chunk, .data conn chunk ∈ arrivals ∧ 10 ∈ chunk := by
  obtain ⟨a, ha, hsome⟩ := List.mem_filterMap.mp h
  cases a with
  | accept c => cases hsome
  | eof c => cases hsome
  | data c chunk =>
    dsimp only at hsome
    split_ifs at hsome with hchunk
    cases hsome
    exact ⟨chunk, ha, hchunk⟩

variable (net) in
/-- **The lines are carried out** in the order in which they are complete. -/
theorem handled_run {todo : κ → List Command} {arrivals : List (Incoming κ)}
    (h : OneLineEach b todo arrivals) : (b.run net (lineSteps todo arrivals)).handled =
      b.handled ++ (completed arrivals).flatMap fun conn => (todo conn).map (Prod.mk conn) := by
  induction arrivals generalizing b todo with
  | nil => exact (List.append_nil _).symm
  | cons a arrivals ih =>
    have horder := List.pairwise_cons.mp h.order
    have hsingle : ∀ conn chunk, .data conn chunk ∈ arrivals → chunk.count 10 ≤ 1 :=
      fun conn chunk hmem => h.single conn chunk (List.mem_cons_of_mem _ hmem)
    cases a with
    | accept conn =>
      refine ih (b := b.acceptConnection conn) ?_
      exact ⟨(step_spec net (s := .accept conn) h.kept fun e he => absurd he List.not_mem_nil).1,
        horder.2, h.once, hsingle, h.command, h.idle⟩
    | eof conn =>
      have hclean : b.handleClient net conn [] = b.cleanupClient conn :=
        handleClient_cleanup (Or.inr rfl)
      refine (ih (b := b.handleClient net conn []) ⟨?_, horder.2, h.once, hsingle, h.command,
        fun c hc => ?_⟩).trans ?_
      · exact (step_spec net (s := .recv conn []) h.kept fun e he => absurd he List.not_mem_nil).1
      · obtain ⟨chunk, hmem, -⟩ := mem_completed hc
        have hne : c ≠ conn := by
          rintro rfl
          exact (horder.1 _ hmem rfl).2 c rfl
        rw [hclean]
        exact idle_cleanupClient (h.idle c hc) hne
      · rw [hclean]
        rfl
    | data conn chunk =>
      by_cases hmem : 10 ∈ chunk
      · have hcompleted : completed (.data conn chunk :: arrivals) = conn :: completed arrivals :=
          List.filterMap_cons_some (if_pos hmem)
        have hcount : chunk.count 10 = 1 :=
          le_antisymm (h.single conn chunk List.mem_cons_self) (List.count_pos_iff.mpr hmem)
        have honce := h.once
        rw [hcompleted, List.nodup_cons] at honce
        have hconn : conn ∈ completed (.data conn chunk :: arrivals) :=
          hcompleted ▸ List.mem_cons_self
        have hrest : ∀ c ∈ completed arrivals, c ∈ completed (.data conn chunk :: arrivals) :=
          fun c hc => hcompleted ▸ List.mem_cons_of_mem _ hc
        have hne : ∀ c ∈ completed arrivals, c ≠ conn := fun c hc heq => honce.1 (heq ▸ hc)
        obtain ⟨command, hcommand, hplain⟩ := h.command conn hconn
        obtain ⟨hhandled, hidle⟩ := handleClient_line net h.kept (h.idle conn hconn).1 hplain
        have htodo : ∀ c ∈ completed arrivals,
            Function.update todo conn ([command].drop 1) c = todo c := fun c hc =>
          Function.update_of_ne (hne c hc) _ _
        have hkept := (step_spec net (s := .recv conn [command]) h.kept fun e he => by
          rw [List.mem_singleton.mp he]
          exact hplain).1
        rw [lineSteps, hcount, hcommand, hcompleted, List.flatMap_cons, hcommand]
        refine (ih (b := b.handleClient net conn (encodeLines [command])) ⟨hkept, horder.2, honce.2,
          hsingle, fun c hc => ?_, fun c hc => hidle c (hne c hc) (h.idle c (hrest c hc))⟩).trans ?_
        · rw [htodo c hc]
          exact h.command c (hrest c hc)
        · have hsame : ((completed arrivals).flatMap fun c =>
              (Function.update todo conn ([command].drop 1) c).map (Prod.mk c)) =
              (completed arrivals).flatMap fun c => (todo c).map (Prod.mk c) :=
            List.flatMap_congr fun c hc => by rw [htodo c hc]
          rw [hhandled, hsame, List.append_assoc]
          rfl
      · have hcompleted : completed (.data conn chunk :: arrivals) = completed arrivals :=
          List.filterMap_cons_none (if_neg hmem)
        have honce := h.once
        have hcommand := h.command
        have hidle := h.idle
        rw [hcompleted] at honce hcommand hidle
        rw [lineSteps, List.count_eq_zero_of_not_mem hmem, List.drop_zero, Function.update_eq_self,
          hcompleted]
        exact ih ⟨h.kept, horder.2, honce, hsingle, hcommand, hidle⟩

end PubSubBroker

/-! ## The lines of a run -/

section Lines

variable {κ : Type} [DecidableEq κ]

theorem stream_cons_data (conn c : κ) (chunk : Bytes) (arrivals : List (Incoming κ)) :
    Incoming.stream conn (.data c chunk :: arrivals) =
      (if c = conn then chunk else []) ++ Incoming.stream conn arrivals := by
  rw [Incoming.stream, List.flatMap_cons]
  rfl

theorem count_completed (conn : κ) (arrivals : List (Incoming κ)) :
    (completed arrivals).count conn ≤ (Incoming.stream conn arrivals).count 10 := by
  induction arrivals with
  | nil => exact Nat.zero_le _
  | cons a arrivals ih =>
    cases a with
    | accept c => exact ih
    | eof c => exact ih
    | data c chunk =>
      rw [stream_cons_data, List.count_append]
      by_cases hmem : 10 ∈ chunk
      · have hcompleted : completed (.data c chunk :: arrivals) = c :: completed arrivals :=
          List.filterMap_cons_some (if_pos hmem)
        have hpos := List.count_pos_iff.mpr hmem
        rw [hcompleted, List.count_cons]
        by_cases hc : c = conn
        · rw [if_pos hc, if_pos (beq_iff_eq.mpr hc)]
          omega
        · rw [if_neg (mt beq_iff_eq.mp hc)]
          omega
      · have hcompleted : completed (.data c chunk :: arrivals) = completed arrivals :=
          List.filterMap_cons_none (if_neg hmem)
        rw [hcompleted]
        exact ih.trans (Nat.le_add_left _ _)

theorem count_chunk {conn : κ} {chunk : Bytes} {arrivals : List (Incoming κ)}
    (h : .data conn chunk ∈ arrivals) :
    chunk.count 10 ≤ (Incoming.stream conn arrivals).count 10 := by
  refine List.Sublist.count_le 10 ?_
  obtain ⟨pre, post, rfl⟩ := List.append_of_mem h
  have hstream : Incoming.stream conn (pre ++ .data conn chunk :: post) =
      Incoming.stream conn pre ++ (chunk ++ Incoming.stream conn post) := by
    rw [Incoming.stream, List.flatMap_append]
    refine congrArg (_ ++ ·) ((stream_cons_data conn conn chunk post).trans ?_)
    rw [if_pos rfl]
  rw [hstream]
  exact (List.sublist_append_left _ _).trans (List.sublist_append_right _ _)

theorem count_encodeLines {commands : List Command} (h : ∀ command ∈ commands, command.Plain) :
    (encodeLines commands).count 10 = commands.length := by
  rw [← length_splitLines, splitLines_encodeLines h, List.length_map]

theorem oneLineEach_init {script : κ → List Command} {arrivals : List (Incoming κ)}
    (h : FromScripts script arrivals) (hlen : ∀ conn, (script conn).length ≤ 1) :
    PubSubBroker.OneLineEach PubSubBroker.init script arrivals := by
  have hcount : ∀ conn, (Incoming.stream conn arrivals).count 10 ≤ (script conn).length := by
    intro conn
    rw [← count_encodeLines (h.plain conn)]
    exact (h.streams conn).sublist.count_le 10
  exact
    { kept := PubSubBroker.kept_init
      order := h.order
      once := List.nodup_iff_count_le_one.mpr fun conn =>
        (count_completed conn arrivals).trans ((hcount conn).trans (hlen conn))
      single := fun conn chunk hmem => (count_chunk hmem).trans ((hcount conn).trans (hlen conn))
      command := fun conn hmem => by
        have hpos := List.count_pos_iff.mpr hmem
        have hone : (script conn).length = 1 :=
          le_antisymm (hlen conn) (hpos.trans_le ((count_completed conn arrivals).trans
            (hcount conn)))
        obtain ⟨command, hcommand⟩ := List.length_eq_one_iff.mp hone
        exact ⟨command, hcommand, h.plain conn command (hcommand ▸ List.mem_cons_self)⟩
      idle := fun conn _ => ⟨rfl, fun topic => by
        rintro ⟨conns, hget, -⟩
        exact Option.some_ne_none _ hget.symm⟩ }

end Lines

/-! ## What a subscriber is owed -/

section Subscriber

variable {κ : Type} [DecidableEq κ] {conn : κ}

theorem packetsFor_congr {a a' : Account} (h : a.topics = a'.topics) (e : κ × Command) :
    a.packetsFor conn e = a'.packetsFor conn e := by
  unfold Account.packetsFor
  rw [h]

/-- The commands of other connections leave the topics alone. -/
theorem owedFrom_others {handled : List (κ × Command)} (h : ∀ e ∈ handled, e.1 ≠ conn)
    (a : Account) : owedFrom conn a handled = handled.flatMap (a.packetsFor conn) ∧
      (handled.foldl (Account.add conn) a).topics = a.topics := by
  induction handled generalizing a with
  | nil => exact ⟨rfl, rfl⟩
  | cons e handled ih =>
    rw [List.forall_mem_cons] at h
    have htopics : (a.add conn e).topics = a.topics := by
      unfold Account.add
      split
      · rw [if_neg h.1]
      · split_ifs <;> rfl
    obtain ⟨hrest, hfold⟩ := ih h.2 (a.add conn e)
    refine ⟨?_, hfold.trans htopics⟩
    rw [owedFrom, hrest, List.flatMap_cons]
    exact congrArg _ (List.flatMap_congr fun e' _ => packetsFor_congr htopics e')

variable (repr : Json → Str) (clients : κ → BusClient)

/-- The commands of some clients. -/
def commandsOf (conns : List κ) : List (κ × Command) :=
  conns.flatMap fun c => ((clients c).script repr).map (Prod.mk c)

omit [DecidableEq κ] in
theorem ne_of_mem_commandsOf {conns : List κ} (h : conn ∉ conns) :
    ∀ e ∈ commandsOf repr clients conns, e.1 ≠ conn := by
  intro e he
  obtain ⟨c, hc, he⟩ := List.mem_flatMap.mp he
  obtain ⟨command, -, rfl⟩ := List.mem_map.mp he
  exact fun heq => h (heq ▸ hc)

variable {repr clients}

/-- What another client brings to a subscriber of one topic. -/
theorem packetsFor_script {c : κ} (hne : c ≠ conn) {a : Account} {event_type : Str}
    (htopics : ∀ topic, a.topics topic = true ↔ topic = event_type) (client : BusClient) :
    ((client.script repr).map (Prod.mk c)).flatMap (a.packetsFor conn) =
      (client.eventOn repr event_type).toList.map fun event =>
        .message (encodeUtf8 (eventText event ++ ['\n'])) := by
  cases client with
  | subscriber topic =>
    simp [BusClient.script, BusClient.eventOn, Account.packetsFor, hne]
  | publisher event =>
    cases htop : topicOf event with
    | none => simp [BusClient.script, BusClient.eventOn, publication, htop]
    | some topic =>
      by_cases htopic : topic.pyStr repr = event_type <;>
        simp [BusClient.script, BusClient.eventOn, publication, Account.packetsFor, htop, hne,
          htopics, htopic]

/-- What the others bring to a subscriber of one topic. -/
theorem packetsFor_commandsOf {conns : List κ} (h : conn ∉ conns) {a : Account} {event_type : Str}
    (htopics : ∀ topic, a.topics topic = true ↔ topic = event_type) :
    (commandsOf repr clients conns).flatMap (a.packetsFor conn) =
      (conns.filterMap fun c => (clients c).eventOn repr event_type).map fun event =>
        .message (encodeUtf8 (eventText event ++ ['\n'])) := by
  rw [commandsOf, List.flatMap_assoc, List.filterMap_eq_flatMap_toList, List.map_flatMap]
  refine List.flatMap_congr fun c hc => packetsFor_script ?_ htopics (clients c)
  exact fun heq => h (heq ▸ hc)

/-- Without a topic, they bring nothing. -/
theorem packetsFor_commandsOf_nil {conns : List κ} (h : conn ∉ conns) {a : Account}
    (htopics : ∀ topic, a.topics topic = false) :
    (commandsOf repr clients conns).flatMap (a.packetsFor conn) = [] := by
  rw [List.flatMap_eq_nil_iff]
  intro e he
  have hne := ne_of_mem_commandsOf repr clients h e he
  unfold Account.packetsFor
  split
  · exact if_neg hne
  · rw [htopics, if_neg Bool.false_ne_true, if_neg hne]
    rfl

/-- The events that are published are those of the publishers. -/
theorem exists_publisher {event_type : Str} {conns : List κ} {event : Fields}
    (h : event ∈ publishedAfter repr clients event_type conn conns) :
    ∃ c, clients c = .publisher event := by
  obtain ⟨c, -, hc⟩ := List.mem_filterMap.mp h
  cases hclient : clients c with
  | subscriber topic =>
    rw [hclient] at hc
    cases hc
  | publisher event' =>
    rw [hclient, BusClient.eventOn] at hc
    split_ifs at hc
    cases hc
    exact ⟨c, hclient⟩

variable (repr) in
/-- **What a subscriber is owed**: the answer, and the events that come after it. -/
theorem owed_subscriber {event_type : Str} (hclient : clients conn = .subscriber event_type)
    {conns : List κ} (hnodup : conns.Nodup) : owed conn (commandsOf repr clients conns) =
      if conn ∈ conns then .reply (encodeUtf8 subscribedAnswer) ::
        (publishedAfter repr clients event_type conn conns).map fun event =>
          .message (encodeUtf8 (eventText event ++ ['\n']))
      else [] := by
  split_ifs with hmem
  · obtain ⟨pre, post, rfl, hpre⟩ := List.eq_append_cons_of_mem hmem
    have hpost : conn ∉ post := (List.nodup_cons.mp (List.nodup_append.mp hnodup).2.1).1
    have hcommands : commandsOf repr clients (pre ++ conn :: post) =
        commandsOf repr clients pre ++
          ((conn, .sub event_type) :: commandsOf repr clients post) := by
      rw [commandsOf, List.flatMap_append, List.flatMap_cons, hclient]
      rfl
    have hafter : publishedAfter repr clients event_type conn (pre ++ conn :: post) =
        post.filterMap fun c => (clients c).eventOn repr event_type := by
      have hdrop : (pre ++ conn :: post).dropWhile (fun c => c ≠ conn) = conn :: post := by
        have hpos : ∀ c ∈ pre, decide (c ≠ conn) = true := by
          intro c hc
          refine decide_eq_true ?_
          rintro rfl
          exact hpre hc
        rw [List.dropWhile_append_of_pos hpos]
        exact List.dropWhile_cons_of_neg (by simp)
      rw [publishedAfter, hdrop]
      rfl
    obtain ⟨hfirst, hnone⟩ := owedFrom_others (ne_of_mem_commandsOf repr clients hpre)
      ⟨fun _ => false, []⟩
    have htopics : ∀ topic, ((account conn (commandsOf repr clients pre)).add conn
        (conn, .sub event_type)).topics topic = true ↔ topic = event_type := by
      intro topic
      simp [account, Account.add, hnone, Function.update_apply]
    rw [owed, hcommands, owedFrom_append, hfirst, packetsFor_commandsOf_nil hpre fun _ => rfl,
      List.nil_append, owedFrom, (owedFrom_others (ne_of_mem_commandsOf repr clients hpost) _).1]
    refine (congrArg _ (packetsFor_commandsOf hpost htopics)).trans ?_
    rw [hafter, Account.packetsFor, if_pos rfl]
    rfl
  · rw [owed, (owedFrom_others (ne_of_mem_commandsOf repr clients hmem) _).1,
      packetsFor_commandsOf_nil hmem fun _ => rfl]

/-- The front of what a subscriber is owed: nothing, or the answer and the first of its events. -/
theorem front_of_owed {event_type : Str} (hclient : clients conn = .subscriber event_type)
    {conns : List κ} (hnodup : conns.Nodup) {sent : List Packet}
    (h : sent <+: owed conn (commandsOf repr clients conns)) :
    sent = [] ∨ conn ∈ conns ∧ ∃ events,
      events <+: publishedAfter repr clients event_type conn conns ∧
      sent = .reply (encodeUtf8 subscribedAnswer) :: events.map fun event =>
        .message (encodeUtf8 (eventText event ++ ['\n'])) := by
  rw [owed_subscriber repr hclient hnodup] at h
  split_ifs at h with hmem
  · rcases List.prefix_cons_iff.mp h with hnil | ⟨packets, hpackets, hrest⟩
    · exact .inl hnil
    · obtain ⟨events, hfront, rfl⟩ := List.prefix_map_iff.mp hrest
      exact .inr ⟨hmem, events, hfront, hpackets⟩
  · exact .inl (List.prefix_nil.mp h)

/-- The bytes of the packets of a subscriber. -/
theorem bytes_subscribed (events : List Fields) :
    (Packet.reply (encodeUtf8 subscribedAnswer) :: events.map fun event =>
      .message (encodeUtf8 (eventText event ++ ['\n']))).flatMap Packet.bytes =
      subscribedStream events := by
  have hlines : (events.map fun event => Packet.message (encodeUtf8 (eventText event ++
      ['\n']))).flatMap Packet.bytes = encodeUtf8 (eventLines events) := by
    induction events with
    | nil => rfl
    | cons event events ih =>
      rw [List.map_cons, List.flatMap_cons, ih, eventLines_cons]
      change encodeUtf8 (eventText event ++ ['\n']) ++ _ = _
      rw [← encodeUtf8_append, List.append_assoc]
      rfl
  rw [List.flatMap_cons, hlines, subscribedStream, encodeUtf8_append]
  rfl

end Subscriber

/-! ## The loop on the front of a stream -/

/-- **The handler** is called with the front of the events, with all of them at the end of the
stream. -/
theorem loop_of_front {ft : FloatText} {load : Str → Loaded} {events : List Fields}
    (hevents : ∀ event ∈ events, Canonical ft (.obj event)) (hreads : ReadsEvents ft load events)
    {chunks : List Bytes} (hne : ∀ chunk ∈ chunks, chunk ≠ [])
    (h : chunks.flatten <+: subscribedStream events)
    (hend : EndsInAnswer chunks) : subscriberLoop load chunks <+: events.map Json.obj ∧
      (chunks.flatten = subscribedStream events →
        subscriberLoop load chunks = events.map Json.obj) := by
  have hascii : IsAscii (subscribedAnswer ++ eventLines events) :=
    isAscii_append.mpr ⟨(length_encodeUtf8_eq_iff _).mp rfl, isAscii_eventLines hevents⟩
  obtain ⟨more, hmore⟩ := h
  cases chunks with
  | nil => exact hend.elim
  | cons resp chunks =>
    -- the pieces of the text, with what has not arrived at the end
    have hall : (resp :: chunks ++ [more]).flatten = encodeUtf8 (subscribedAnswer ++
        eventLines events) := by
      rw [List.flatten_append, List.flatten_singleton]
      exact hmore
    obtain ⟨ts, hts, hflat⟩ := exists_pieces hascii hall
    obtain ⟨front, last, rfl, hfront, hlast⟩ := List.map_eq_append_iff.mp hts.symm
    obtain ⟨t, ts, rfl, rfl, rfl⟩ := List.map_eq_cons_iff.mp hfront
    obtain ⟨m, ts', rfl, rfl, hnil⟩ := List.map_eq_cons_iff.mp hlast
    rw [List.map_eq_nil_iff] at hnil
    subst hnil
    rw [List.cons_append, List.flatten_cons, List.flatten_append, List.flatten_singleton] at hflat
    have hlen : (encodeUtf8 t).length = t.length :=
      (length_encodeUtf8_eq_iff t).mpr (isAscii_append.mp (hflat ▸ hascii)).1
    have hok : 3 ≤ t.length := hlen ▸ hend.1
    have hdrop : ts.flatten ++ m = (subscribedAnswer ++ eventLines events).drop t.length := by
      rw [← hflat, List.drop_left]
    have hlines := lines_of_answer hok (hlen ▸ hend.2) hevents hreads
    rw [subscriberLoop_pieces hascii hflat fun c hc => hne c (List.mem_cons_of_mem _ hc),
      if_pos hok]
    rw [← hdrop, splitLines_append, List.filterMap_append] at hlines
    refine ⟨hlines ▸ List.prefix_append _ _, fun hfull => ?_⟩
    have hm : m = [] := by
      rw [hfull, List.append_right_eq_self] at hmore
      have hle := length_le_length_encodeUtf8 m
      rw [hmore, List.length_nil, Nat.le_zero] at hle
      exact List.length_eq_zero_iff.mp hle
    subst hm
    have hrest : splitLines '\n' ((splitLines '\n' ts.flatten).2 ++ []) =
        ([], (splitLines '\n' ts.flatten).2) := by
      rw [List.append_nil, splitLines_of_notMem (sep_notMem_rest '\n' ts.flatten)]
    rw [hrest, List.filterMap_nil, List.append_nil] at hlines
    exact hlines

/-! ## From publisher to subscriber -/

/-- **The event bus**, with any clients, pieces and failing sends. A connection that has subscribed
to a topic has been sent nothing, or the answer and the front of the events that are published on
the topic after its line, all of them while it is open; and its handler is called with these, in
order and once each, if the first `recv` ends inside the answer. -/
theorem bus_end_to_end {κ : Type} [DecidableEq κ] (net : Network κ) {ft : FloatText}
    {load : Str → Loaded} {repr : Json → Str} {clients : κ → BusClient} {arrivals : List (Incoming κ)}
    (h : FromScripts (fun c => (clients c).script repr) arrivals)
    (hevents : ∀ c event, clients c = .publisher event → Canonical ft (.obj event))
    (hreads : ∀ c event, clients c = .publisher event → ReadsEvent ft load event)
    (hanswer : ∀ p, p <:+ "Subscribed".toList → ∀ v, load p ≠ .value v) {conn : κ}
    {event_type : Str} (hclient : clients conn = .subscriber event_type) :
    let b := (PubSubBroker.init : PubSubBroker κ).runArrivals net arrivals
    let stream := (sentTo conn b.sockets.sent).flatMap Packet.bytes
    let published := publishedAfter repr clients event_type conn (completed arrivals)
    ∃ events, events <+: published ∧
      (b.sockets.closed conn = false → conn ∈ completed arrivals → events = published) ∧
      (stream = [] ∧ events = [] ∨ stream = subscribedStream events) ∧
      ∀ chunks : List Bytes, (∀ chunk ∈ chunks, chunk ≠ []) → chunks.flatten <+: stream →
        EndsInAnswer chunks → subscriberLoop load chunks <+: events.map Json.obj ∧
          (chunks.flatten = stream → subscriberLoop load chunks = events.map Json.obj) := by
  have hlen : ∀ c, ((clients c).script repr).length ≤ 1 := by
    intro c
    cases clients c with
    | subscriber topic => exact le_rfl
    | publisher event => exact Option.length_toList_le
  have hline := oneLineEach_init h hlen
  obtain ⟨hsockets, hhandled, hserved, -⟩ := PubSubBroker.runArrivals_spec net h
  rw [PubSubBroker.handled_run net hline] at hhandled
  obtain ⟨hpart, hall⟩ := hserved conn
  rw [hhandled] at hpart hall
  change _ <+: owed conn (commandsOf repr clients (completed arrivals)) at hpart
  replace hall : _ → _ → _ = owed conn (commandsOf repr clients (completed arrivals)) := hall
  rw [owed_subscriber repr hclient hline.once] at hall
  dsimp only
  -- nothing has been sent, or the answer is the first packet
  rcases front_of_owed hclient hline.once hpart with hnil | ⟨hmem, events, hfront, hsent⟩
  · refine ⟨[], List.nil_prefix, fun hopen hmem => ?_, Or.inl ⟨by rw [hnil]; rfl, rfl⟩, ?_⟩
    · rw [if_pos hmem, hnil] at hall
      exact absurd (hall hopen not_false) (List.cons_ne_nil _ _).symm
    · intro chunks hne hflat hend
      rw [hnil] at hflat
      cases chunks with
      | nil => exact hend.elim
      | cons resp chunks =>
        have hresp := (List.append_eq_nil_iff.mp (List.prefix_nil.mp hflat)).1
        exact absurd hresp (hne resp List.mem_cons_self)
  · rw [hsent, bytes_subscribed]
    have hclients : ∀ event ∈ events, ∃ c, clients c = .publisher event := fun event hevent =>
      exists_publisher (List.IsPrefix.subset hfront hevent)
    have hcanon : ∀ event ∈ events, Canonical ft (.obj event) := by
      intro event hevent
      obtain ⟨c, hc⟩ := hclients event hevent
      exact hevents c event hc
    have hread : ∀ event ∈ events, ReadsEvent ft load event := by
      intro event hevent
      obtain ⟨c, hc⟩ := hclients event hevent
      exact hreads c event hc
    refine ⟨events, hfront, fun hopen _ => ?_, Or.inr rfl, fun chunks hne hflat hend =>
      loop_of_front hcanon ⟨hread, hanswer⟩ hne hflat hend⟩
    rw [if_pos hmem, hsent] at hall
    have hlength := congrArg List.length (List.cons.inj (hall hopen not_false)).2
    rw [List.length_map, List.length_map] at hlength
    exact hfront.eq_of_length hlength

/-- A subscriber to the outcomes of jobs, and the publisher of one. -/
def outcomeClients : Bool → BusClient
  | false => .subscriber "JOB_COMPLETED".toList
  | true => .publisher completedEvent

/-- What they send. -/
def outcomeScript (c : Bool) : List Command := (outcomeClients c).script fun _ => []

/-- Their lines, one after the other. -/
def outcomeArrivals : List (Incoming Bool) :=
  [.accept false, .data false (encodeLines (outcomeScript false)), .accept true,
    .data true (encodeLines (outcomeScript true))]

theorem fromScripts_outcome : FromScripts outcomeScript outcomeArrivals where
  order := by
    simp [outcomeArrivals, Incoming.Before, Incoming.conn]
  pieces := by
    intro conn chunk hmem
    simp only [outcomeArrivals, List.mem_cons, reduceCtorEq, Incoming.data.injEq, List.not_mem_nil,
      false_or, or_false] at hmem
    rcases hmem with ⟨-, rfl⟩ | ⟨-, rfl⟩
    · exact ⟨encodeLines_ne_nil (List.cons_ne_nil _ _), not_isHttp_encodeLines _⟩
    · exact ⟨encodeLines_ne_nil (List.cons_ne_nil _ _), not_isHttp_encodeLines _⟩
  streams := by
    intro conn
    cases conn with
    | false => exact ⟨[], List.append_nil _⟩
    | true => exact ⟨[], List.append_nil _⟩
  plain := by
    have htopic : IsTopic "JOB_COMPLETED".toList := by
      refine ⟨by decide, fun c hc => ?_⟩
      have hall : "JOB_COMPLETED".toList.all (fun c => !isSpace c) = true := rfl
      simpa using List.all_eq_true.mp hall c hc
    intro conn command hmem
    cases conn with
    | false => exact List.mem_singleton.mp hmem ▸ htopic
    | true =>
      exact List.mem_singleton.mp hmem ▸
        ⟨htopic, isPayload_dumps (canonical_completedEvent _ List.mem_cons_self)⟩

theorem open_outcome : ((PubSubBroker.init : PubSubBroker Bool).runArrivals
    PubSubBroker.failingNetwork outcomeArrivals).sockets.closed false = false := by
  decide +kernel

/-- The event is sent, though the answer to its publisher fails. -/
theorem bus_end_to_end_outcome :
    let b := (PubSubBroker.init : PubSubBroker Bool).runArrivals PubSubBroker.failingNetwork
      outcomeArrivals
    (sentTo false b.sockets.sent).flatMap Packet.bytes = subscribedStream [completedEvent] := by
  have hevents : ∀ c event, outcomeClients c = .publisher event →
      Canonical FloatText.verbatim (.obj event) := by
    intro c event hc
    cases c with
    | false => cases hc
    | true =>
      cases hc
      exact canonical_completedEvent _ List.mem_cons_self
  have hclient : outcomeClients false = .subscriber "JOB_COMPLETED".toList := rfl
  obtain ⟨events, -, hall, hstream, -⟩ := bus_end_to_end PubSubBroker.failingNetwork
    fromScripts_outcome hevents (fun c event hc => readsEvent_library (hevents c event hc))
    (readsEvents_library canonical_completedEvent).answer hclient
  have hevents : events = [completedEvent] := hall open_outcome (by decide)
  rcases hstream with ⟨-, hnil⟩ | hstream
  · exact absurd (hnil.symm.trans hevents) (List.cons_ne_nil _ _).symm
  · rw [hevents] at hstream
    exact hstream

end JobSystem
