import JobSystem.HealthCheck
import JobSystem.Cache.Resp
import JobSystem.Cache.Lru

/-!
# The cache server

One connection of `LRUCacheServer.handle_client`, and the interpreter of `replay_aof_recovery`.
A key is any hashable object that `parse_resp` can produce; an `Exception` object is equal to
itself only, so it carries the serial number of the operation that received it.

* `dispatch`: the branches on `action`;
* `drain`: the inner loop; **`drain_eq`** is its equation;
* `handleClient`: a list of received chunks, `replayParts`: one logged command;
* **`replayAll_array`**: recovery executes the logged commands.
-/

namespace JobSystem

open PyText

/-! ## Keys and commands -/

/-- A hashable object. -/
inductive Key where
  | none
  | str (s : Str)
  | int (n : ℤ)
  | err (serial : ℕ) (msg : Str)
  deriving DecidableEq

/-- `bool(key)`. -/
instance : Truthy Key where
  truthy
    | .none => false
    | .str s => Truthy.truthy s
    | .int n => n ≠ 0
    | .err _ _ => true

/-- The object behind a key. -/
def Key.value : Key → Value
  | .none => .none
  | .str s => .str s
  | .int n => .int n
  | .err _ msg => .err msg

/-- The key that an object is; `none` is the `TypeError` of an unhashable list. -/
def Value.key (serial : ℕ) : Value → Option Key
  | .none => some .none
  | .str s => some (.str s)
  | .int n => some (.int n)
  | .err msg => some (.err serial msg)
  | .list _ => Option.none

/-- The `cmd_array` of a logged command. -/
def LogCmd.array : LogCmd Key Value → List Value
  | .set key value => [.str ['S', 'E', 'T'], key.value, value]
  | .del key => [.str ['D', 'E', 'L'], key.value]

/-- `action in ["DELETE", "DEL"]`. -/
def IsDelete (action : Str) : Prop :=
  action = ['D', 'E', 'L', 'E', 'T', 'E'] ∨ action = ['D', 'E', 'L']

instance (action : Str) : Decidable (IsDelete action) :=
  inferInstanceAs (Decidable (_ ∨ _))

/-! ## The server -/

/-- The server's store, the commands passed to `append_to_log`, and the number of operations. -/
structure LruServer where
  store : LruStore Key Value
  log : List (LogCmd Key Value)
  serial : ℕ

/-- A new server. -/
def LruServer.init (max_capacity : ℕ+) : LruServer := ⟨.init max_capacity, [], 0⟩

/-- One request on the store. -/
def LruServer.serve (s : LruServer) (r : Request Key Value) : LruServer :=
  ⟨(s.store.serve r).1, s.log ++ (s.store.serve r).2, s.serial + 1⟩

/-- A list of requests, one at a time. -/
def LruServer.serveAll (s : LruServer) (requests : List (Request Key Value)) : LruServer :=
  requests.foldl serve s

/-- What `replay_aof_recovery` does with one value; `none` is an exception that escapes. -/
def LruServer.replayParts (s : LruServer) : Value → Option LruServer
  | .list (p :: key :: args) =>
    match p with
    | .str p =>
      if upper p = ['S', 'E', 'T'] then
        match args with
        | value :: _ => (key.key s.serial).map fun k =>
          { s with store := (s.store.executeLruSet k value).1, serial := s.serial + 1 }
        | [] => some s
      else if IsDelete (upper p) then
        (key.key s.serial).map fun k =>
          { s with store := s.store.delete k, serial := s.serial + 1 }
      else some s
    | _ => none
  | _ => some s

/-- Recovery over a list of values. -/
def LruServer.replayAll (s : LruServer) (parts : List Value) : Option LruServer :=
  parts.foldlM replayParts s

/-! ## Recovery of a log of string keys -/

/-- A request on strings. -/
def Request.text : Request Str Str → Request Key Value
  | .set key value => .set (.str key) (.str value)
  | .get key => .get (.str key)
  | .del key => .del (.str key)

theorem Request.key_text (r : Request Str Str) : r.text.key = .str r.key := by
  cases r <;> rfl

/-- A logged command on a string key. -/
def LogCmd.IsText (c : LogCmd Key Value) : Prop := ∃ s, c.key = .str s

theorem LruServer.replayParts_array (s : LruServer) {c : LogCmd Key Value} (h : c.IsText) :
    s.replayParts (.list c.array) =
      some { s with store := s.store.exec c, serial := s.serial + 1 } := by
  obtain ⟨t, ht⟩ := h
  cases c with
  | set key value => cases ht; rfl
  | del key => cases ht; rfl

/-- **Recovery executes the logged commands.** -/
theorem LruServer.replayAll_array {log : List (LogCmd Key Value)} (h : ∀ c ∈ log, c.IsText)
    (s : LruServer) : s.replayAll (log.map fun c => .list c.array) =
      some { s with store := s.store.execAll log, serial := s.serial + log.length } := by
  induction log generalizing s with
  | nil => rfl
  | cons c log ih =>
    have hlog : ∀ c' ∈ log, c'.IsText := fun c' hc => h c' (List.mem_cons_of_mem _ hc)
    have hc := s.replayParts_array (h c List.mem_cons_self)
    unfold replayAll at ih ⊢
    rw [List.map_cons, List.foldlM_cons, hc, Option.bind_eq_bind, Option.bind_some, ih hlog]
    simp only [LruStore.execAll, List.foldl_cons, List.length_cons, Nat.add_assoc, Nat.add_comm 1]

/-! ## A connection -/

/-- A connection: the server, the requests made on the store, the bytes sent back, the text not
yet parsed, and whether the connection is still open. -/
structure Session where
  server : LruServer
  requests : List (Request Key Value)
  sent : Bytes
  buffer : Str
  isOpen : Bool

namespace Session

/-- A new connection. -/
def connect (server : LruServer) : Session := ⟨server, [], [], [], true⟩

/-- `conn.sendall`. -/
def sendall (s : Session) (reply : Str) : Session := { s with sent := s.sent ++ encodeUtf8 reply }

/-- The connection ends, by `return` or by an exception. -/
def close (s : Session) : Session := { s with isOpen := false }

/-- A request on the store. -/
def request (s : Session) (r : Request Key Value) : Session :=
  { s with server := s.server.serve r, requests := s.requests ++ [r] }

/-- `buffer = rest`. -/
def setBuffer (s : Session) (buffer : Str) : Session := { s with buffer := buffer }

/-- `b"+OK\r\n"`. -/
def okReply : Str := "+OK\r\n".toList

/-- The reply to a `GET`; `none` is the `TypeError` of `len(val)`. `listStr` is `str` of a list. -/
def getReply (listStr : List Value → Str) : Value → Option Str
  | .none => some "$-1\r\n".toList
  | .str s => some ('$' :: (natStr s.length ++ (crlf ++ (s ++ crlf))))
  | .list xs => some ('$' :: (natStr xs.length ++ (crlf ++ (listStr xs ++ crlf))))
  | .int _ => none
  | .err _ => none

variable (listStr : List Value → Str)

/-- The branch `"SET"`. -/
def dispatchSet (s : Session) : List Value → Session
  | key :: value :: _ =>
    match key.key s.server.serial with
    | some k => (s.request (.set k value)).sendall okReply
    | none => s.close
  | _ => s.sendall "-ERR missing arguments\r\n".toList

/-- The branch `"GET"`. -/
def dispatchGet (s : Session) : List Value → Session
  | key :: _ =>
    match key.key s.server.serial with
    | some k =>
      match getReply listStr ((s.server.store.executeLruGet k).2.getD .none) with
      | some reply => (s.request (.get k)).sendall reply
      | none => (s.request (.get k)).close
    | none => s.close
  | [] => s.sendall "-ERR missing key parameter\r\n".toList

/-- The branch `"DELETE"`, `"DEL"`. -/
def dispatchDel (s : Session) : List Value → Session
  | key :: _ =>
    match key.key s.server.serial with
    | some k =>
      (s.request (.del k)).sendall
        (if k ∈ s.server.store.data_store then ":1\r\n".toList else ":0\r\n".toList)
    | none => s.close
  | [] => s.sendall "-ERR missing key parameter\r\n".toList

/-- The branches on `action`. -/
def dispatchAction (s : Session) (action : Str) (args : List Value) : Session :=
  if action = ['S', 'E', 'T'] then s.dispatchSet args
  else if action = ['G', 'E', 'T'] then s.dispatchGet listStr args
  else if IsDelete action then s.dispatchDel args
  else if action = ['Q', 'U', 'I', 'T'] then (s.sendall okReply).close
  else s.sendall "-ERR unknown command syntax\r\n".toList

/-- One value of the stream: only a nonempty list is a command, and `parts[0].upper()` of anything
but a string raises. -/
def dispatch (s : Session) : Value → Session
  | .list (.str p :: args) => s.dispatchAction listStr (upper p) args
  | .list (_ :: _) => s.close
  | _ => s

/-- The inner loop with a bound on its rounds. -/
def drainFuel : ℕ → Session → Session
  | 0, s => s
  | fuel + 1, s =>
    match parseResp s.buffer with
    | none => s.close
    | some (parts, rest) =>
      if parts.isNone then s
      else
        let s' := dispatch listStr (s.setBuffer rest) parts
        if s'.isOpen then drainFuel fuel s' else s'

/-- The inner loop. -/
def drain (s : Session) : Session := drainFuel listStr (s.buffer.length + 1) s

/-- One round of the outer loop. -/
def handleChunk (s : Session) (chunk : Bytes) : Session :=
  if s.isOpen = false then s
  else if chunk = [] then s.close
  else if IsHttp chunk then (s.sendall httpReply).close
  else drain listStr (s.setBuffer (s.buffer ++ decodeIgnore chunk))

/-- `handle_client` on the chunks it receives. -/
def handleClient (s : Session) (chunks : List Bytes) : Session :=
  chunks.foldl (handleChunk listStr) s

/-! ## The inner loop -/

@[simp] theorem server_setBuffer (s : Session) (buffer : Str) :
    (s.setBuffer buffer).server = s.server := rfl

@[simp] theorem isOpen_setBuffer (s : Session) (buffer : Str) :
    (s.setBuffer buffer).isOpen = s.isOpen := rfl

@[simp] theorem buffer_setBuffer (s : Session) (buffer : Str) :
    (s.setBuffer buffer).buffer = buffer := rfl

@[simp] theorem setBuffer_setBuffer (s : Session) (b b' : Str) :
    (s.setBuffer b).setBuffer b' = s.setBuffer b' := rfl

theorem dispatchSet_setBuffer (s : Session) (buffer : Str) (args : List Value) :
    (s.setBuffer buffer).dispatchSet args = (s.dispatchSet args).setBuffer buffer := by
  unfold dispatchSet
  split
  · rw [server_setBuffer]
    split <;> rfl
  · rfl

theorem dispatchGet_setBuffer (s : Session) (buffer : Str) (args : List Value) :
    (s.setBuffer buffer).dispatchGet listStr args =
      (s.dispatchGet listStr args).setBuffer buffer := by
  unfold dispatchGet
  split
  · rw [server_setBuffer]
    split
    · split <;> rfl
    · rfl
  · rfl

theorem dispatchDel_setBuffer (s : Session) (buffer : Str) (args : List Value) :
    (s.setBuffer buffer).dispatchDel args = (s.dispatchDel args).setBuffer buffer := by
  unfold dispatchDel
  split
  · rw [server_setBuffer]
    split <;> rfl
  · rfl

/-- The branches do not look at the buffer. -/
theorem dispatch_setBuffer (s : Session) (buffer : Str) (v : Value) :
    dispatch listStr (s.setBuffer buffer) v = (dispatch listStr s v).setBuffer buffer := by
  unfold dispatch
  split
  · unfold dispatchAction
    rw [dispatchSet_setBuffer, dispatchGet_setBuffer, dispatchDel_setBuffer]
    split_ifs <;> rfl
  · rfl
  · rfl

theorem drainFuel_congr {n m : ℕ} {s : Session} (hn : s.buffer.length < n)
    (hm : s.buffer.length < m) : drainFuel listStr n s = drainFuel listStr m s := by
  refine Consuming.fuel_congr (fun s : Session => s.buffer.length) (fun n m s ih => ?_) hn hm
  simp only [drainFuel]
  cases hp : parseResp s.buffer with
  | none => rfl
  | some r =>
    obtain ⟨parts, rest⟩ := r
    simp only
    split_ifs with hnone
    · rfl
    · rw [dispatch_setBuffer]
      exact ih _ ((parseResp_suffix hp).2 (Bool.eq_false_iff.mpr hnone))
    · rfl

/-- **The equation of the inner loop.** -/
theorem drain_eq (s : Session) : drain listStr s =
    match parseResp s.buffer with
    | none => s.close
    | some (parts, rest) =>
      if parts.isNone then s
      else
        if (dispatch listStr s parts).isOpen then
          drain listStr ((dispatch listStr s parts).setBuffer rest)
        else (dispatch listStr s parts).setBuffer rest := by
  rw [drain, drainFuel]
  cases hp : parseResp s.buffer with
  | none => rfl
  | some r =>
    obtain ⟨parts, rest⟩ := r
    simp only
    split_ifs with hnone ho ho' ho'
    · rfl
    · have hlt := (parseResp_suffix hp).2 (Bool.eq_false_iff.mpr hnone)
      simp only at hlt
      rw [dispatch_setBuffer]
      exact drainFuel_congr listStr hlt (Nat.lt_succ_self _)
    · rw [dispatch_setBuffer] at ho
      exact absurd ho ho'
    · rw [dispatch_setBuffer] at ho
      exact absurd ho' ho
    · rw [dispatch_setBuffer]

end Session

end JobSystem
