import JobSystem.Lib.Linear
import JobSystem.Lib.Trans
import JobSystem.Cache.Client

/-!
# The pool of cache connections

Many threads call `set`, `get` and `delete` of one `CacheClient`. A call takes a connection from the
pool or opens one, writes its request, reads until the reply is complete, and puts the connection back
or closes it. At the other end each connection has its own `handle_client`, and all of them one store.

* `CacheCall`: a call and its request; `cacheObject`: what it does to the store by itself, and returns;
* `Phase`: how far a call is; `State`, `Step`, `step`: the pool, the bytes under way, the handlers and
  the store;
* `setResult`, `getResult`, `deleteResult`: what the methods make of `_send_command`;
* `Calm`: a request arrives in one piece, and a write that fails writes all of it or nothing;
* `Explained`: the calls are explained by an order in which they take place one at a time.
-/

namespace JobSystem

open PyText

/-! ## Calls -/

/-- A call of the client: the texts of its arguments. -/
inductive CacheCall where
  | set (key value : AsciiText)
  | get (key : AsciiText)
  | delete (key : AsciiText)

namespace CacheCall

/-- `cmd_array`. -/
def cmd : CacheCall → List Str
  | set key value => [['S', 'E', 'T'], key.text, value.text]
  | get key => [['G', 'E', 'T'], key.text]
  | delete key => [['D', 'E', 'L'], key.text]

/-- What the server does with it. -/
def request : CacheCall → Request Key Value
  | set key value => .set (.str key.text) (.str value.text)
  | get key => .get (.str key.text)
  | delete key => .del (.str key.text)

/-- What `_send_command` returns, by the store. -/
def result (s : LruStore Key Value) : CacheCall → Value
  | set _ _ => .str "OK".toList
  | get key => (s.executeLruGet (.str key.text)).2.getD .none
  | delete key => .int (if .str key.text ∈ s.data_store then 1 else 0)

/-- The bytes of its request. -/
def bytes (call : CacheCall) : Bytes := encodeUtf8 (encodeReq call.cmd)

end CacheCall

/-- A call by itself. -/
def cacheObject : Linear.Object (LruStore Key Value) CacheCall Value := fun call s =>
  ((s.serve call.request).1, call.result s)

namespace CachePool

/-- `set` returns whether the reply is `OK`; `none` is an exception of `_send_command`. -/
def setResult (resp : Option Value) : Bool :=
  match resp with
  | some (.str s) => s = "OK".toList
  | _ => false

/-- `get` returns the value, or `None`. -/
def getResult (resp : Option Value) : Value := resp.getD .none

/-- `delete` returns whether the reply is 1 or `OK`. -/
def deleteResult (resp : Option Value) : Bool :=
  match resp with
  | some (.int n) => n = 1
  | some (.str s) => s = "OK".toList
  | _ => false

/-! ## The machine -/

/-- A connection: the bytes under way, the text that `handle_client` has not parsed and whether it
still reads; and for the statement the call that has written on it last. -/
structure Conn (ι : Type) where
  toServer : Bytes
  toClient : Bytes
  buffer : Str
  isOpen : Bool
  sender : Option (ι × CacheCall)

/-- A new connection. -/
def Conn.connect {ι : Type} : Conn ι := ⟨[], [], [], true, none⟩

/-- How far a call is. `leaving` is the `finally` of `_send_command`; no outcome is an exception. -/
inductive Phase where
  | idle
  | connected (call : CacheCall) (conn : ℕ)
  | waiting (call : CacheCall) (conn : ℕ) (buffer : Str)
  | leaving (conn : ℕ) (status_ok : Bool) (outcome : Option Value)
  | done (outcome : Option Value)

/-- The connection that a call uses, or is going to put back. -/
def Phase.conn? : Phase → Option ℕ
  | connected _ conn => some conn
  | waiting _ conn _ => some conn
  | leaving conn true _ => some conn
  | _ => none

/-- The server, the connections, the pool and the calls; and for the statement the moments of the
calls so far. -/
structure State (ι : Type) where
  server : LruServer
  conns : ℕ → Conn ι
  next : ℕ
  pool : List ℕ
  phase : ι → Phase
  moments : List (Linear.Moment ι CacheCall Value)

/-- A new client of a new server. -/
def start {ι : Type} (max_capacity : ℕ+) : State ι :=
  ⟨.init max_capacity, fun _ => ⟨[], [], [], false, none⟩, 0, [], fun _ => .idle, []⟩

/-- A step of a call, of a handler of the server, or of the network; `quit` is a round of `close`. -/
inductive Step (ι : Type) where
  | getConnection (i : ι) (call : CacheCall) (connects : Bool)
  | send (i : ι)
  | sendRaises (i : ι) (n : ℕ)
  | recv (i : ι) (n : ℕ)
  | recvRaises (i : ι)
  | release (i : ι)
  | quit (n : ℕ)
  | handle (conn n : ℕ)
  | closePeer (conn n : ℕ)

namespace State

variable {ι : Type} [DecidableEq ι]

/-- The next phase of a call. -/
def setPhase (s : State ι) (i : ι) (phase : Phase) : State ι :=
  { s with phase := Function.update s.phase i phase }

/-- A change of a connection. -/
def setConn (s : State ι) (conn : ℕ) (c : Conn ι) : State ι :=
  { s with conns := Function.update s.conns conn c }

/-- A moment of a call. -/
def note (s : State ι) (m : Linear.Moment ι CacheCall Value) : State ι :=
  { s with moments := s.moments ++ [m] }

/-- `_get_connection`: from the pool, or a new one. -/
def getConnection (s : State ι) (connects : Bool) : Option ℕ × State ι :=
  match s.pool with
  | conn :: pool => (some conn, { s with pool := pool })
  | [] =>
    if connects then (some s.next, { s.setConn s.next .connect with next := s.next + 1 })
    else (none, s)

/-- `_release_connection`: a full pool closes it. -/
def releaseConnection (pool_size : ℕ) (s : State ι) (conn : ℕ) (status_ok : Bool) : State ι :=
  if status_ok then
    if 0 < pool_size ∧ pool_size ≤ s.pool.length then s else { s with pool := s.pool ++ [conn] }
  else s

/-- Bytes for the server. -/
def write (s : State ι) (i : ι) (call : CacheCall) (conn : ℕ) (bytes : Bytes) : State ι :=
  s.setConn conn { s.conns conn with
    toServer := (s.conns conn).toServer ++ bytes
    sender := some (i, call) }

/-- One round of `handle_client`, with what `recv` returns. -/
def serve (listStr : List Value → Str) (s : State ι) (conn : ℕ) (data : Bytes) : State ι :=
  let c := s.conns conn
  let r := Session.handleChunk listStr ⟨s.server, [], [], c.buffer, true⟩ data
  { s.setConn conn { c with
      toServer := c.toServer.drop data.length
      toClient := c.toClient ++ r.sent
      buffer := r.buffer
      isOpen := r.isOpen } with
    server := r.server
    -- each request on the store is an effect
    moments := s.moments ++ r.requests.flatMap fun _ =>
      (c.sender.map fun e => Linear.Moment.effect e.1 e.2).toList }

end State

/-- The call after a `recv`. -/
def Phase.received (call : CacheCall) (conn : ℕ) (buffer : Str) (chunk : Bytes) : Phase :=
  match receive buffer [chunk] with
  | .waiting buffer => .waiting call conn buffer
  | .returned val _ _ => .leaving conn true (some val)
  | .raised _ _ _ => .leaving conn false none

/-- How many bytes `recv(4096)` returns, of those that are there. -/
def pieceSize (n : ℕ) : ℕ := max 1 (min n 4096)

/-- `b"*1\r\n$4\r\nQUIT\r\n"`. -/
def quitBytes : Bytes := encodeUtf8 (encodeReq [['Q', 'U', 'I', 'T']])

section Machine

variable {ι : Type} [DecidableEq ι]

/-- One step. A connection that its client has closed is not used any more; what has been written on
it is still read. A handler may end at any time, and of what it has sent some may still arrive. -/
def step (listStr : List Value → Str) (pool_size : ℕ) : Trans.Machine (State ι) (Step ι)
  | .getConnection i call connects, s =>
    match s.phase i with
    | .idle =>
      match (s.note (.begin_ i call)).getConnection connects with
      | (some conn, s) => some (s.setPhase i (.connected call conn))
      | (none, s) => some (s.setPhase i (.done none))
    | _ => none
  | .send i, s =>
    match s.phase i with
    | .connected call conn =>
      some ((s.write i call conn call.bytes).setPhase i (.waiting call conn []))
    | _ => none
  | .sendRaises i n, s =>
    match s.phase i with
    | .connected call conn =>
      some ((s.write i call conn (call.bytes.take n)).setPhase i (.leaving conn false none))
    | _ => none
  | .recv i n, s =>
    match s.phase i with
    | .waiting call conn buffer =>
      let c := s.conns conn
      if c.toClient ≠ [] then
        some ((s.setConn conn { c with toClient := c.toClient.drop (pieceSize n) }).setPhase i
          (.received call conn buffer (c.toClient.take (pieceSize n))))
      else if c.isOpen then none
      else some (s.setPhase i (.received call conn buffer []))
    | _ => none
  | .recvRaises i, s =>
    match s.phase i with
    | .waiting _ conn _ => some (s.setPhase i (.leaving conn false none))
    | _ => none
  | .release i, s =>
    match s.phase i with
    | .leaving conn status_ok outcome =>
      let s := (s.releaseConnection pool_size conn status_ok).setPhase i (.done outcome)
      match outcome with
      | some val => some (s.note (.return_ i val))
      | none => some s
    | _ => none
  | .quit n, s =>
    match s.pool with
    | conn :: pool =>
      some ({ s with pool := pool }.setConn conn { s.conns conn with
        toServer := (s.conns conn).toServer ++ quitBytes.take n })
    | [] => none
  | .handle conn n, s =>
    let c := s.conns conn
    if c.isOpen ∧ c.toServer ≠ [] then
      some (s.serve listStr conn (c.toServer.take (pieceSize n)))
    else none
  | .closePeer conn n, s =>
    let c := s.conns conn
    some (s.setConn conn { c with isOpen := false, toClient := c.toClient.take n })

/-- A request arrives in one piece, and a write that fails writes all of it or nothing. -/
def Calm (s : State ι) : Step ι → Prop
  | .sendRaises i n =>
    match s.phase i with
    | .connected call _ => n = 0 ∨ call.bytes.length ≤ n
    | _ => True
  | .quit n => n = 0 ∨ quitBytes.length ≤ n
  | .handle conn n => (s.conns conn).toServer.length ≤ pieceSize n
  | _ => True

instance decidableCalm (s : State ι) : (l : Step ι) → Decidable (Calm s l)
  | .sendRaises i n =>
    match h : s.phase i with
    | .connected call _ =>
      decidable_of_iff (n = 0 ∨ call.bytes.length ≤ n) (by simp only [Calm, h])
    | .idle => isTrue (by simp only [Calm, h])
    | .waiting _ _ _ => isTrue (by simp only [Calm, h])
    | .leaving _ _ _ => isTrue (by simp only [Calm, h])
    | .done _ => isTrue (by simp only [Calm, h])
  | .quit n => inferInstanceAs (Decidable (n = 0 ∨ quitBytes.length ≤ n))
  | .handle conn n => inferInstanceAs (Decidable ((s.conns conn).toServer.length ≤ pieceSize n))
  | .getConnection _ _ _ => isTrue trivial
  | .send _ => isTrue trivial
  | .recv _ _ => isTrue trivial
  | .recvRaises _ => isTrue trivial
  | .release _ => isTrue trivial
  | .closePeer _ _ => isTrue trivial

/-- The order in which the calls have taken effect explains what they return. -/
def Explained (max_capacity : ℕ+) (s : State ι) : Prop :=
  Linear.Linearizes cacheObject (.init max_capacity) s.moments (Linear.effects s.moments)

end Machine

end CachePool

end JobSystem
