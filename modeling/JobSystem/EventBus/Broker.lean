import JobSystem.Lib.Dict
import JobSystem.Lib.Lines
import JobSystem.HealthCheck

/-!
# The broker

`PubSubBroker`: the subscribers of each topic, a buffer for each connection, and its sockets. A send
fails on a closed socket, and otherwise when the network says so of the attempt; `handled` records
the commands as they are carried out.

* `Sockets.sendall`, `fanOut`;
* `Command.parse`, `obey`, `handleLine`, `handleLines`: the lines of one `recv`;
* `handleClient`, `cleanupClient`, `acceptConnection`.
-/

namespace JobSystem

open PyText

/-- What the broker sends: an answer to the client, or an event to a subscriber. -/
inductive Packet where
  | reply (bs : Bytes)
  | message (bs : Bytes)

/-- What a line asks for. -/
inductive Command where
  | sub (topic : Str)
  | pub (topic msg : Str)

/-- The command in a line, from `line.split(" ", 2)`. -/
def Command.parse (line : Str) : Option Command :=
  match splitMax [' '] 2 line with
  | [] => none
  | cmd :: args =>
    if upper cmd = ['S', 'U', 'B'] then
      match args with
      | topic :: _ => some (.sub topic)
      | [] => none
    else if upper cmd = ['P', 'U', 'B'] then
      match args with
      | topic :: msg :: _ => some (.pub topic msg)
      | _ => none
    else none

/-! ## Sockets -/

/-- What the broker does not decide: which sends fail, and in which order a set is iterated. -/
structure Network (κ : Type) where
  fails : ℕ → Bool
  iter : ℕ → Finset κ → List κ
  iter_eq : ∀ n conns, (iter n conns : Multiset κ) = conns.val

/-- The sockets: which are closed, what has been sent, and how many sends have been tried. -/
structure Sockets (κ : Type) where
  closed : κ → Bool
  sent : List (κ × Packet)
  tries : ℕ

namespace Sockets

variable {κ : Type}

/-- `conn.sendall(packet)`, and whether it succeeds. -/
def sendall (net : Network κ) (n : Sockets κ) (conn : κ) (packet : Packet) : Sockets κ × Bool :=
  if n.closed conn || net.fails n.tries then ({ n with tries := n.tries + 1 }, false)
  else ({ n with sent := n.sent ++ [(conn, packet)], tries := n.tries + 1 }, true)

/-- The loop that sends to each subscriber, with `dead_links`. -/
def fanOut (net : Network κ) (packet : Packet) : List κ → Sockets κ → Sockets κ × List κ
  | [], n => (n, [])
  | conn :: conns, n =>
    let r := n.sendall net conn packet
    let r' := fanOut net packet conns r.1
    (r'.1, if r.2 then r'.2 else conn :: r'.2)

end Sockets

/-! ## The broker -/

/-- The broker. -/
structure PubSubBroker (κ : Type) where
  subscribers : PyDict Str (Finset κ)
  buffers : PyDict κ Bytes
  sockets : Sockets κ
  handled : List (κ × Command)

namespace PubSubBroker

variable {κ : Type}

/-- A new broker. -/
def init : PubSubBroker κ := ⟨∅, ∅, ⟨fun _ => false, [], 0⟩, []⟩

variable [DecidableEq κ]

/-- `accept_connection`, for a new connection. -/
def acceptConnection (b : PubSubBroker κ) (conn : κ) : PubSubBroker κ :=
  { b with buffers := b.buffers.set conn [] }

/-- `conn.close()` and `self.buffers.pop(conn, None)`. -/
def close (b : PubSubBroker κ) (conn : κ) : PubSubBroker κ :=
  { b with
    buffers := b.buffers.erase conn
    sockets := { b.sockets with closed := Function.update b.sockets.closed conn true } }

/-- `cleanup_client`: a topic whose last subscriber goes is deleted. -/
def cleanupClient (b : PubSubBroker κ) (conn : κ) : PubSubBroker κ :=
  { b.close conn with
    subscribers := b.subscribers.filterMap fun _ conns =>
      if conn ∈ conns then if conns.erase conn = ∅ then none else some (conns.erase conn)
      else some conns }

/-- `conn.sendall(reply)`. -/
def answer (net : Network κ) (b : PubSubBroker κ) (conn : κ) (reply : Str) :
    PubSubBroker κ × Bool :=
  let r := b.sockets.sendall net conn (.reply (encodeUtf8 reply))
  ({ b with sockets := r.1 }, r.2)

/-- `self.subscribers[topic].add(conn)`. -/
def subscribe (b : PubSubBroker κ) (conn : κ) (topic : Str) : PubSubBroker κ :=
  { b with
    subscribers := b.subscribers.set topic
      (insert conn ((b.subscribers.get? topic).getD ∅)) }

/-- The sends of a `PUB` and the clean-up of the subscribers they fail for. -/
def deliver (net : Network κ) (b : PubSubBroker κ) (topic msg : Str) : PubSubBroker κ :=
  match b.subscribers.get? topic with
  | some conns =>
    let r := b.sockets.fanOut net (.message (encodeUtf8 (msg ++ ['\n'])))
      (net.iter b.sockets.tries conns)
    r.2.foldl cleanupClient { b with sockets := r.1 }
  | none => b

/-- A command is noted as handled. -/
def note (b : PubSubBroker κ) (conn : κ) (command : Command) : PubSubBroker κ :=
  { b with handled := b.handled ++ [(conn, command)] }

/-- What a command does, and whether the answer is sent; if not, the exception ends the `recv`. -/
def obey (net : Network κ) (b : PubSubBroker κ) (conn : κ) : Option Command → PubSubBroker κ × Bool
  | some (.sub topic) =>
    ((b.note conn (.sub topic)).subscribe conn topic).answer net conn "+OK Subscribed\n".toList
  | some (.pub topic msg) =>
    ((b.note conn (.pub topic msg)).deliver net topic msg).answer net conn
      "+OK Published\n".toList
  | none => b.answer net conn "-ERR Unknown Command\n".toList

/-- One line of a connection. -/
def handleLine (net : Network κ) (b : PubSubBroker κ) (conn : κ) (line_bytes : Bytes) :
    PubSubBroker κ × Bool :=
  let line := strip (decodeIgnore line_bytes)
  if line = [] then (b, true) else b.obey net conn (Command.parse line)

/-- The lines of one `recv`, up to an exception. -/
def handleLines (net : Network κ) (conn : κ) :
    List Bytes → PubSubBroker κ → PubSubBroker κ × Bool
  | [], b => (b, true)
  | line :: lines, b =>
    let r := b.handleLine net conn line
    if r.2 then handleLines net conn lines r.1 else r

/-- `handle_client` when `recv` returns `data`; on a closed socket it raises. -/
def handleClient (net : Network κ) (b : PubSubBroker κ) (conn : κ) (data : Bytes) :
    PubSubBroker κ :=
  if b.sockets.closed conn then b.cleanupClient conn
  else if data = [] then b.cleanupClient conn
  else if IsHttp data then (b.answer net conn httpReply).1.close conn
  else
    let lines := splitLines 10 ((b.buffers.get? conn).getD [] ++ data)
    let r := handleLines net conn lines.1 b
    if r.2 then { r.1 with buffers := r.1.buffers.set conn lines.2 } else r.1.cleanupClient conn

end PubSubBroker

end JobSystem
