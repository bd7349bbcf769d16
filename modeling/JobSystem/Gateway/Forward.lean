import JobSystem.Lib.Trans
import JobSystem.Gateway.Submit

/-!
# Forwarding over pooled connections

`process_client_socket` for `/submit` over `EventBusConnectionPool`: a request gets a connection,
writes its line, takes whatever `recv` returns for an acknowledgement, puts the connection back and
answers 202. At the other end is `EventLoop.read_wrapper`.

* `Phase`: how far a request is; `State`, `Step`, `step`: the pool, the connections as streams of bytes
  both ways, the coordinator;
* `sent`, `handled`: the lines written on a connection, and those that `read_wrapper` has got to;
* `Taken`: every 202 is for a line that was handled, and no closed connection is put back.
-/

namespace JobSystem

open PyText
open PyJson (Json)

namespace EventLoop

variable {κ : Type} [DecidableEq κ]

/-- The lines that a call of `read_wrapper` gets to. -/
def linesServed (env : LoopEnv) (l : EventLoop κ) (conn : κ) (data : Bytes) : ℕ :=
  if data = [] then 0
  else if IsHttp data then 0
  else
    (serveLines (counted fun l line => l.handleLine env conn line)
      (splitLines 10 ((l.buffers.get? conn).getD [] ++ data)).1 (l, 0)).1.2

/-- What a call of `read_wrapper` writes on its connection. -/
def replies (env : LoopEnv) (l : EventLoop κ) (conn : κ) (data : Bytes) : Bytes :=
  (((l.readWrapper env conn data).answers.drop l.answers.length).map fun a => encodeUtf8 a.2).flatten

variable {env : LoopEnv}

/-- **A call that leaves the connection open** has got to all complete lines, and acknowledges once. -/
theorem readWrapper_of_open {l : EventLoop κ} {conn : κ} {data : Bytes}
    (h : (l.readWrapper env conn data).closed conn = false) :
    (l.readWrapper env conn data).buffers.get? conn =
        some (splitLines 10 ((l.buffers.get? conn).getD [] ++ data)).2 ∧
      l.replies env conn data = encodeUtf8 "ACK\n".toList ∧
      l.linesServed env conn data = ((l.buffers.get? conn).getD [] ++ data).count 10 := by
  unfold replies linesServed
  unfold readWrapper at h ⊢
  dsimp only at h ⊢
  split_ifs at h ⊢ with hnil hhttp hok
  · rw [close_closed] at h
    cases h
  · rw [close_closed] at h
    cases h
  · refine ⟨?_, ?_, ?_⟩
    · show (PyDict.set _ conn _).get? conn = _
      rw [PyDict.get?_set_self]
    · rw [answer]
      dsimp only
      rw [(serveLines_rest env conn _ l).2.2, List.drop_left]
      rfl
    · rw [serveLines_counted hok, Nat.zero_add, length_splitLines]
  · rw [close_closed] at h
    cases h

end EventLoop

namespace Forward

/-! ## The machine -/

/-- How far a `/submit` request is. `due` is the number of its last line on the connection; `accepted` is
the answer 202. -/
inductive Phase where
  | idle
  | connected (conn : ℕ) (task_id : Option Json) (payload : Bytes)
  | sent (conn due : ℕ) (task_id : Option Json)
  | replied (conn due : ℕ) (task_id : Option Json)
  | released (conn due : ℕ) (task_id : Option Json)
  | accepted (conn due : ℕ) (task_id : Option Json)
  | refused (answer : Answer)

/-- The connection that a request has taken from the pool. -/
def Phase.conn? : Phase → Option ℕ
  | connected conn _ _ => some conn
  | sent conn _ _ => some conn
  | replied conn _ _ => some conn
  | _ => none

/-- The coordinator, the bytes under way, the connections that the gateway has closed, the pool and the
requests; and for the statement the lines written and handled on each connection, and whether the
coordinator had closed those that were put back. -/
structure State where
  loop : EventLoop ℕ
  toCoordinator : ℕ → Bytes
  toGateway : ℕ → Bytes
  dropped : ℕ → Bool
  pool : List ℕ
  next : ℕ
  phase : ℕ → Phase
  sent : ℕ → ℕ
  handled : ℕ → ℕ
  returned : List (ℕ × Bool)

/-- `init_pool(initial_size)`. -/
def start (initial_size : ℕ) : State :=
  ⟨⟨∅, [], [], [], fun _ => false⟩, fun _ => [], fun _ => [], fun _ => false, List.range initial_size,
    initial_size, fun _ => .idle, fun _ => 0, fun _ => 0, []⟩

/-- A step of a request, of the coordinator, or of the network. -/
inductive Step where
  | submit (request : ℕ) (uuid : Str) (body : Bytes) (connects : Bool)
  | send (request : ℕ)
  | sendRaises (request n : ℕ) (detail : Str)
  | recv (request n : ℕ)
  | recvRaises (request : ℕ) (detail : Str)
  | release (request : ℕ)
  | answer (request : ℕ)
  | answerRaises (request : ℕ) (detail : Str)
  | read (conn n : ℕ)
  | closePeer (conn : ℕ)

namespace State

/-- The next phase of a request. -/
def setPhase (s : State) (request : ℕ) (phase : Phase) : State :=
  { s with phase := Function.update s.phase request phase }

/-- `bus_sock.close()`. -/
def drop (s : State) (conn : ℕ) : State := { s with dropped := Function.update s.dropped conn true }

/-- Bytes for the coordinator. -/
def write (s : State) (conn : ℕ) (bytes : Bytes) : State :=
  { s with
    toCoordinator := Function.update s.toCoordinator conn (s.toCoordinator conn ++ bytes)
    sent := Function.update s.sent conn (s.sent conn + bytes.count 10) }

/-- `get_connection`: from the pool, or a new one. -/
def getConnection (s : State) (connects : Bool) : Option ℕ × State :=
  match s.pool with
  | conn :: pool => (some conn, { s with pool := pool })
  | [] =>
    if connects then (some s.next, { s with loop := s.loop.acceptWrapper s.next, next := s.next + 1 })
    else (none, s)

/-- `release_connection(bus_sock, status_ok=True)`: a full pool closes it. -/
def releaseConnection (max_size : ℕ) (s : State) (conn : ℕ) : State :=
  if 0 < max_size ∧ max_size ≤ s.pool.length then s.drop conn
  else { s with pool := s.pool ++ [conn], returned := s.returned ++ [(conn, s.loop.closed conn)] }

/-- `read_wrapper` with what `recv(4096)` returns. -/
def readWrapper (env : LoopEnv) (s : State) (conn : ℕ) (data : Bytes) : State :=
  { s with
    loop := s.loop.readWrapper env conn data
    toCoordinator := Function.update s.toCoordinator conn ((s.toCoordinator conn).drop data.length)
    toGateway := Function.update s.toGateway conn
      (s.toGateway conn ++ s.loop.replies env conn data)
    handled := Function.update s.handled conn (s.handled conn + s.loop.linesServed env conn data) }

end State

/-- One step. A read waits for bytes or for the end of the stream; a write on a connection that the
gateway has closed raises, one on a connection that the coordinator has closed need not. -/
def step (env : LoopEnv) (max_size : ℕ) : Step → State → Option State
  | .submit request uuid body connects, s =>
    match s.phase request with
    | .idle =>
      let r := prepareSubmit env.loads uuid body
      match s.getConnection connects with
      | (some conn, s) => some (s.setPhase request (.connected conn r.1 (submitPayload r.2)))
      | (none, s) => some (s.setPhase request (.refused .unavailable))
    | _ => none
  | .send request, s =>
    match s.phase request with
    | .connected conn task_id payload =>
      if s.dropped conn then none
      else
        let s := s.write conn payload
        some (s.setPhase request (.sent conn (s.sent conn) task_id))
    | _ => none
  | .sendRaises request n detail, s =>
    match s.phase request with
    | .connected conn _ payload =>
      some (((s.write conn (payload.take n)).drop conn).setPhase request (.refused (.failed detail)))
    | _ => none
  | .recv request n, s =>
    match s.phase request with
    | .sent conn due task_id =>
      if s.toGateway conn ≠ [] then
        let left := (s.toGateway conn).drop (max 1 (min n 1024))
        some ({ s with toGateway := Function.update s.toGateway conn left }.setPhase request
          (.replied conn due task_id))
      else if s.loop.closed conn then some (s.setPhase request (.replied conn due task_id))
      else none
    | _ => none
  | .recvRaises request detail, s =>
    match s.phase request with
    | .sent conn _ _ => some ((s.drop conn).setPhase request (.refused (.failed detail)))
    | _ => none
  | .release request, s =>
    match s.phase request with
    | .replied conn due task_id =>
      some ((s.releaseConnection max_size conn).setPhase request (.released conn due task_id))
    | _ => none
  | .answer request, s =>
    match s.phase request with
    | .released conn due task_id => some (s.setPhase request (.accepted conn due task_id))
    | _ => none
  | .answerRaises request detail, s =>
    match s.phase request with
    | .released conn _ _ => some ((s.drop conn).setPhase request (.refused (.failed detail)))
    | _ => none
  | .read conn n, s =>
    if s.loop.closed conn then none
    else if s.toCoordinator conn ≠ [] then
      some (s.readWrapper env conn ((s.toCoordinator conn).take (max 1 (min n 4096))))
    else if s.dropped conn then some (s.readWrapper env conn [])
    else none
  | .closePeer conn, s => some { s with loop := s.loop.close conn }

/-- **A 202 means that the line was handled**, and a connection that the coordinator has closed is not
put back. -/
structure Taken (s : State) : Prop where
  accepted : ∀ request conn due task_id, s.phase request = .accepted conn due task_id →
    due ≤ s.handled conn
  returned : ∀ p ∈ s.returned, p.2 = false

end Forward

end JobSystem
