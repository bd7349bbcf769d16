import JobSystem.Cache.Stream

/-!
# The cache client

`CacheClient._send_command` appends what it receives to a buffer and parses the buffer again each
time, until the parser returns a value or a remainder that is not the buffer.

* `receive`: the loop, on the chunks that `recv` returns;
* `SelfDelimiting`: a text that is incomplete until its last character;
* `Reply`: what the server answers; **`delimited_text`**: it ends itself; **`sent_whole`**: from a
  store of ASCII text the server sends nothing else;
* **`receive_reply`**: a reply is read once it is complete, however it is cut.
-/

namespace JobSystem

open PyText

/-! ## The receive loop -/

/-- How `_send_command` stands after some chunks: it waits for more with its buffer, or it has
returned a value or raised an error. Then `rest` is the text that the parser left in the buffer, and
`unread` what is left in the connection. -/
inductive Received where
  | waiting (buffer : Str)
  | returned (val : Value) (rest : Str) (unread : List Bytes)
  | raised (msg : Str) (rest : Str) (unread : List Bytes)

/-- `isinstance(val, Exception)`, then `raise val`, else `return val`. -/
def finish (val : Value) (rest : Str) (unread : List Bytes) : Received :=
  match val with
  | .err msg => .raised msg rest unread
  | val => .returned val rest unread

/-- The receive loop of `_send_command`. -/
def receive : Str → List Bytes → Received
  | buffer, [] => .waiting buffer
  | buffer, chunk :: chunks =>
    if chunk = [] then .raised "Connection closed by server".toList buffer chunks
    else
      match parseResp (buffer ++ decodeIgnore chunk) with
      | none => .raised "invalid literal for int()".toList (buffer ++ decodeIgnore chunk) chunks
      | some (val, rest) =>
        if val.isNone = false ∨ (val.isNone = true ∧ rest ≠ buffer ++ decodeIgnore chunk) then
          finish val rest chunks
        else receive (buffer ++ decodeIgnore chunk) chunks

/-- The chunks after those on which the loop still waits. -/
theorem receive_append {seen : List Bytes} {buffer b : Str} (h : receive buffer seen = .waiting b)
    (unread : List Bytes) : receive buffer (seen ++ unread) = receive b unread := by
  induction seen generalizing buffer with
  | nil => cases h; rfl
  | cons chunk seen ih =>
    rw [receive] at h
    rw [List.cons_append, receive]
    split_ifs at h ⊢ with hnil
    cases hp : parseResp (buffer ++ decodeIgnore chunk) with
    | none => rw [hp] at h; cases h
    | some r =>
      obtain ⟨val, rest⟩ := r
      rw [hp] at h
      dsimp only at h ⊢
      split_ifs at h ⊢ with hdone
      · cases val <;> cases h
      · exact ih h

/-! ## Texts that end themselves -/

/-- The parser finds nothing before the last character of the text, and then the value and no
remainder. -/
structure SelfDelimiting (text : Str) (val : Value) : Prop where
  ne_nil : text ≠ []
  cut : ∀ q, q <+: text → q ≠ text → parseResp q = some (.none, q)
  whole : parseResp text = some (val, [])

namespace SelfDelimiting

variable {text : Str} {val : Value}

/-- **The loop waits** as long as the text is not complete. -/
theorem receive_cut (h : SelfDelimiting text val) {ts : List Str} (hts : ∀ t ∈ ts, t ≠ [])
    {buffer : Str} (hp : buffer ++ ts.flatten <+: text) (hne : buffer ++ ts.flatten ≠ text) :
    receive buffer (ts.map encodeUtf8) = .waiting (buffer ++ ts.flatten) := by
  induction ts generalizing buffer with
  | nil => rw [List.flatten_nil, List.append_nil]; rfl
  | cons t ts ih =>
    rw [List.flatten_cons, ← List.append_assoc] at hp hne ⊢
    have hcut : parseResp (buffer ++ t) = some (.none, buffer ++ t) := by
      refine h.cut _ ((List.prefix_append _ _).trans hp) fun he => ?_
      have hle := hp.length_le
      rw [List.length_append, he] at hle
      have hnil : ts.flatten = [] := List.length_eq_zero_iff.mp (by omega)
      exact hne (by rw [hnil, List.append_nil, he])
    have hchunk : encodeUtf8 t ≠ [] := by
      intro he
      have hlen := length_le_length_encodeUtf8 t
      rw [he] at hlen
      exact hts t List.mem_cons_self (List.length_eq_zero_iff.mp (Nat.le_zero.mp hlen))
    rw [List.map_cons, receive, if_neg hchunk, decodeIgnore_encodeUtf8_self, hcut]
    simp only [Value.isNone, Bool.true_eq_false, ne_eq, not_true_eq_false, and_false, or_self,
      if_false]
    exact ih (fun t' ht' => hts t' (List.mem_cons_of_mem _ ht')) hp hne

/-- **The last piece** completes the text. -/
theorem receive_last (h : SelfDelimiting text val) {buffer last : Str} (hlast : last ≠ [])
    (ht : buffer ++ last = text) (unread : List Bytes) :
    receive buffer (encodeUtf8 last :: unread) = finish val [] unread := by
  have hchunk : encodeUtf8 last ≠ [] := by
    intro he
    have hlen := length_le_length_encodeUtf8 last
    rw [he] at hlen
    exact hlast (List.length_eq_zero_iff.mp (Nat.le_zero.mp hlen))
  have hdone : val.isNone = false ∨ (val.isNone = true ∧ ([] : Str) ≠ buffer ++ last) := by
    cases hnone : val.isNone with
    | false => exact Or.inl rfl
    | true => exact Or.inr ⟨rfl, fun he => h.ne_nil (ht ▸ he.symm)⟩
  rw [receive, if_neg hchunk, decodeIgnore_encodeUtf8_self, ht, h.whole]
  dsimp only
  rw [if_pos (ht ▸ hdone)]

/-- A line, when the parser waits for its end and then reads it. -/
theorem of_line {c : Char} {line : Str} (hcr : '\r' ∉ c :: line)
    (hwait : ∀ q, splitOnce crlf (c :: q) = none → parseResp (c :: q) = some (.none, c :: q))
    (hread : ∀ q rest, splitOnce crlf (c :: q) = some (c :: line, rest) →
      parseResp (c :: q) = some (val, rest)) : SelfDelimiting (c :: (line ++ crlf)) val where
  ne_nil := List.cons_ne_nil _ _
  cut := by
    intro q hq hne
    cases q with
    | nil => rw [parseResp_eq]; rfl
    | cons c' q =>
      obtain rfl : c' = c := (List.cons_prefix_cons.mp hq).1
      exact hwait q (splitOnce_line_cut hcr hq hne)
  whole := hread _ _ (splitOnce_append hcr [])

/-- A line that one of the first three branches reads. -/
theorem of_parseLine {c : Char} {line : Str} {f : Str → Option Value} (hcr : '\r' ∉ c :: line)
    (hparse : ∀ q, parseResp (c :: q) = parseLine f (c :: q)) (hf : f line = some val) :
    SelfDelimiting (c :: (line ++ crlf)) val :=
  of_line hcr (fun q hs => by rw [hparse, parseLine, hs])
    fun q rest hs => by
      rw [hparse, parseLine, hs]
      exact congrArg (Option.map fun v => (v, rest)) hf

/-- A bulk string of ASCII characters, whatever they are. -/
theorem of_bulkText {s : Str} (hs : IsAscii s) : SelfDelimiting (bulkText s) (.str s) where
  ne_nil := List.cons_ne_nil _ _
  cut := fun _ hq hne => parseResp_bulk_cut hs hq hne
  whole := by
    have h := parseResp_bulkText hs []
    rwa [List.append_nil] at h

end SelfDelimiting

/-! ## The replies -/

/-- An error that the server reports. -/
inductive ErrorReply where
  | missingArguments
  | missingKey
  | unknownCommand

/-- The text of an error, behind its `'-'`. -/
def ErrorReply.msg : ErrorReply → Str
  | missingArguments => "ERR missing arguments".toList
  | missingKey => "ERR missing key parameter".toList
  | unknownCommand => "ERR unknown command syntax".toList

/-- A text of ASCII characters. -/
structure AsciiText where
  text : Str
  ascii : IsAscii text

/-- A reply of `handle_client`. -/
inductive Reply where
  | ok
  | error (e : ErrorReply)
  | deleted (found : Bool)
  | null
  | bulk (val : AsciiText)

namespace Reply

/-- The text that is sent. -/
def text : Reply → Str
  | ok => Session.okReply
  | error e => '-' :: (e.msg ++ crlf)
  | deleted true => ":1\r\n".toList
  | deleted false => ":0\r\n".toList
  | null => "$-1\r\n".toList
  | bulk val => '$' :: (natStr val.text.length ++ (crlf ++ (val.text ++ crlf)))

/-- The object that the parser makes of it. -/
def value : Reply → Value
  | ok => .str "OK".toList
  | error e => .err e.msg
  | deleted found => .int (if found then 1 else 0)
  | null => .none
  | bulk val => .str val.text

/-- What the client makes of it, with nothing left over. -/
def outcome : Reply → Received
  | ok => .returned (.str "OK".toList) [] []
  | error e => .raised e.msg [] []
  | deleted found => .returned (.int (if found then 1 else 0)) [] []
  | null => .returned .none [] []
  | bulk val => .returned (.str val.text) [] []

theorem finish_value (r : Reply) : finish r.value [] [] = r.outcome := by
  cases r <;> rfl

theorem bulk_text (val : AsciiText) : (bulk val).text = bulkText val.text := by
  have hn := (length_encodeUtf8_eq_iff val.text).mpr val.ascii
  have htext : (bulk val).text =
      '$' :: (natStr val.text.length ++ (crlf ++ (val.text ++ crlf))) := rfl
  rw [htext, bulkText, hn]

/-- **Every reply ends itself.** -/
theorem delimited_text (r : Reply) : SelfDelimiting r.text r.value := by
  cases r with
  | ok =>
    have hcr : '\r' ∉ '+' :: ['O', 'K'] := by decide
    refine SelfDelimiting.of_parseLine (f := fun s => some (.str s)) hcr (fun q => ?_) rfl
    rw [parseResp_eq]; rfl
  | error e =>
    have hcr : '\r' ∉ '-' :: e.msg := by cases e <;> decide
    refine SelfDelimiting.of_parseLine (f := fun s => some (.err s)) hcr (fun q => ?_) rfl
    rw [parseResp_eq]; rfl
  | deleted found =>
    have hparse : ∀ q, parseResp (':' :: q) = parseLine (fun s => (parseInt s).map .int) (':' :: q) :=
      fun q => by rw [parseResp_eq]; rfl
    cases found with
    | true =>
      have hcr : '\r' ∉ ':' :: natStr 1 := by decide
      exact SelfDelimiting.of_parseLine hcr hparse rfl
    | false =>
      have hcr : '\r' ∉ ':' :: natStr 0 := by decide
      exact SelfDelimiting.of_parseLine hcr hparse rfl
  | null =>
    have hcr : '\r' ∉ '$' :: ['-', '1'] := by decide
    refine SelfDelimiting.of_line hcr (fun q hs => ?_) fun q rest hs => ?_
    · rw [parseResp_bulk, parseBulk, hs]
    · rw [parseResp_bulk, parseBulk, hs]
      rfl
  | bulk val =>
    rw [bulk_text]
    exact SelfDelimiting.of_bulkText val.ascii

theorem isAscii_msg (e : ErrorReply) : IsAscii e.msg := by
  have h : ∀ e : ErrorReply, (e.msg.all fun c => c.toNat < 128) = true := by intro e; cases e <;> rfl
  simpa [IsAscii] using h e

theorem isAscii_text (r : Reply) : IsAscii r.text := by
  cases r with
  | ok => exact (length_encodeUtf8_eq_iff _).mp rfl
  | error e =>
    have h := isAscii_append.mpr ⟨isAscii_msg e, isAscii_crlf⟩
    exact List.forall_mem_cons.mpr ⟨by decide, h⟩
  | deleted found => cases found <;> exact (length_encodeUtf8_eq_iff _).mp rfl
  | null => exact (length_encodeUtf8_eq_iff _).mp rfl
  | bulk val =>
    rw [bulk_text]
    exact isAscii_bulkText val.ascii

end Reply

/-! ## The server sends nothing else -/

/-- Every value of the store is ASCII text. -/
def AsciiStore (s : LruStore Key Value) : Prop :=
  ∀ k v, s.data_store.get? k = some v → ∃ t : AsciiText, v = .str t.text

theorem AsciiStore.executeLruSet {s : LruStore Key Value} (h : AsciiStore s) (key : Key)
    (value : AsciiText) : AsciiStore (s.executeLruSet key (.str value.text)).1 := by
  intro k v hv
  rcases LruStore.get?_executeLruSet_cases hv with ⟨-, rfl⟩ | hold
  · exact ⟨value, rfl⟩
  · exact h k v hold

theorem AsciiStore.executeLruGet {s : LruStore Key Value} (h : AsciiStore s) (key : Key) :
    AsciiStore (s.executeLruGet key).1 := by
  intro k v hv
  rw [LruStore.get?_executeLruGet] at hv
  exact h k v hv

theorem AsciiStore.delete {s : LruStore Key Value} (h : AsciiStore s) (key : Key) :
    AsciiStore (s.delete key) := by
  intro k v hv
  rw [LruStore.get?_delete] at hv
  split_ifs at hv
  exact h k v hv

/-- What is left of a stored value in the reply to a `GET`. -/
theorem getReply_of_asciiStore (listStr : List Value → Str) {s : LruStore Key Value}
    (h : AsciiStore s) (key : Key) :
    ∃ r : Reply, Session.getReply listStr ((s.executeLruGet key).2.getD .none) = some r.text := by
  rw [LruStore.executeLruGet]
  cases hget : s.data_store.get? key with
  | none => exact ⟨.null, rfl⟩
  | some v =>
    obtain ⟨t, rfl⟩ := h key v hget
    exact ⟨.bulk t, rfl⟩

namespace Session

variable (listStr : List Value → Str)

/-- What one request does to a store of ASCII text: one reply, and again such a store. -/
def Replies (s s' : Session) : Prop :=
  (∃ r : Reply, s'.sent = s.sent ++ encodeUtf8 r.text) ∧ AsciiStore s'.server.store

theorem replies_dispatchSet {s : Session} (h : AsciiStore s.server.store) {args : List Str}
    (hargs : AllAscii args) : Replies s (s.dispatchSet (args.map .str)) := by
  match args with
  | [] => exact ⟨⟨.error .missingArguments, rfl⟩, h⟩
  | [_] => exact ⟨⟨.error .missingArguments, rfl⟩, h⟩
  | key :: value :: args =>
    have hvalue : IsAscii value := hargs value (List.mem_cons_of_mem _ List.mem_cons_self)
    exact ⟨⟨.ok, rfl⟩, h.executeLruSet (.str key) ⟨value, hvalue⟩⟩

theorem replies_dispatchGet {s : Session} (h : AsciiStore s.server.store) (args : List Str) :
    Replies s (s.dispatchGet listStr (args.map .str)) := by
  cases args with
  | nil => exact ⟨⟨.error .missingKey, rfl⟩, h⟩
  | cons key args =>
    obtain ⟨r, hr⟩ := getReply_of_asciiStore listStr h (.str key)
    have hd : s.dispatchGet listStr ((key :: args).map .str) =
        (s.request (.get (.str key))).sendall r.text := by
      rw [List.map_cons, dispatchGet]
      simp only [Value.key, hr]
    rw [hd]
    exact ⟨⟨r, rfl⟩, h.executeLruGet (.str key)⟩

theorem replies_dispatchDel {s : Session} (h : AsciiStore s.server.store) (args : List Str) :
    Replies s (s.dispatchDel (args.map .str)) := by
  cases args with
  | nil => exact ⟨⟨.error .missingKey, rfl⟩, h⟩
  | cons key args =>
    refine ⟨⟨.deleted (decide (Key.str key ∈ s.server.store.data_store)), ?_⟩, ?_⟩
    · simp only [List.map_cons, dispatchDel, Value.key]
      split_ifs with hm
      · rw [decide_eq_true hm]; rfl
      · rw [decide_eq_false hm]; rfl
    · change AsciiStore (s.server.store.serve (.del (.str key))).1
      rw [LruStore.serve]
      split_ifs
      · exact h.delete (.str key)
      · exact h

/-- **A request is answered by one of the replies.** -/
theorem replies_dispatch {s : Session} (h : AsciiStore s.server.store) (action : Str)
    {args : List Str} (hargs : AllAscii args) :
    Replies s (dispatch listStr s (cmdValue (action :: args))) := by
  change Replies s (s.dispatchAction listStr (upper action) (args.map .str))
  rw [dispatchAction]
  split_ifs
  · exact replies_dispatchSet h hargs
  · exact replies_dispatchGet listStr h args
  · exact replies_dispatchDel h args
  · exact ⟨⟨.ok, rfl⟩, h⟩
  · exact ⟨⟨.error .unknownCommand, rfl⟩, h⟩

/-- **The bytes sent over a connection are replies**, one after another. -/
theorem sent_whole {s : Session} (h : AsciiStore s.server.store) {cmds : List (List Str)}
    (hcmds : ∀ cmd ∈ cmds, cmd ≠ [] ∧ AllAscii cmd) :
    ∃ replies : List Reply, (whole listStr s cmds).sent =
      s.sent ++ replies.flatMap fun r => encodeUtf8 r.text := by
  induction cmds generalizing s with
  | nil => exact ⟨[], (List.append_nil _).symm⟩
  | cons cmd cmds ih =>
    obtain ⟨⟨hne, hascii⟩, hrest⟩ := List.forall_mem_cons.mp hcmds
    rw [whole_cons]
    cases hopen : s.isOpen with
    | false =>
      rw [if_neg Bool.false_ne_true]
      exact ih h hrest
    | true =>
      rw [if_pos rfl]
      obtain ⟨action, args, rfl⟩ := List.exists_cons_of_ne_nil hne
      obtain ⟨⟨r, hr⟩, hstore⟩ := replies_dispatch listStr h action
        fun a ha => hascii a (List.mem_cons_of_mem _ ha)
      obtain ⟨replies, hreplies⟩ := ih hstore hrest
      refine ⟨r :: replies, ?_⟩
      rw [hreplies, hr, List.flatMap_cons, List.append_assoc]

end Session

/-! ## Reading a reply -/

/-- **A reply is read exactly once and complete.** However its bytes are cut into chunks, the client
waits on every chunk but the last, and on the last it returns what the reply stands for, or raises the
server's error, with nothing left in its buffer or in the connection. -/
theorem receive_reply (r : Reply) {chunks : List Bytes} (hne : ∀ chunk ∈ chunks, chunk ≠ [])
    (hflat : chunks.flatten = encodeUtf8 r.text) :
    (∀ seen unread, chunks = seen ++ unread → unread ≠ [] →
      ∃ buffer, receive [] seen = .waiting buffer) ∧
    receive [] chunks = r.outcome := by
  obtain ⟨ts, rfl, hts⟩ := exists_pieces r.isAscii_text hflat
  have hpieces : ∀ t ∈ ts, t ≠ [] := by
    rintro t ht rfl
    exact hne _ (List.mem_map_of_mem ht) rfl
  -- all but the last pieces are a proper prefix of the text
  have hwait : ∀ seen last unread, ts = seen ++ last :: unread →
      receive [] (seen.map encodeUtf8) = .waiting seen.flatten := by
    intro seen last unread he
    have htext : seen.flatten ++ (last ++ unread.flatten) = r.text := by
      rw [← hts, he, List.flatten_append, List.flatten_cons]
    have hlast : last ≠ [] := hpieces last (by rw [he]; simp)
    have hseen : ∀ t ∈ seen, t ≠ [] := fun t ht => hpieces t (by rw [he]; simp [ht])
    refine r.delimited_text.receive_cut hseen ⟨_, htext⟩ fun hfull => ?_
    rw [← htext, List.nil_append] at hfull
    have hlen := congrArg List.length hfull
    have hpos := List.length_pos_iff.mpr hlast
    simp only [List.length_append] at hlen
    omega
  constructor
  · intro seen unread he hun
    obtain ⟨seen', unread', rfl, rfl, rfl⟩ := List.map_eq_append_iff.mp he
    obtain ⟨last, rest, rfl⟩ := List.exists_cons_of_ne_nil (l := unread') fun hn => hun (by rw [hn]; rfl)
    exact ⟨_, hwait seen' last rest rfl⟩
  · have htsne : ts ≠ [] := by
      rintro rfl
      exact r.delimited_text.ne_nil hts.symm
    obtain ⟨seen, last, rfl⟩ : ∃ seen last, ts = seen ++ [last] :=
      ⟨_, _, (List.dropLast_append_getLast htsne).symm⟩
    have htext : seen.flatten ++ last = r.text := by
      rw [← hts, List.flatten_append, List.flatten_singleton]
    rw [List.map_append, receive_append (hwait seen last [] rfl), List.map_singleton,
      r.delimited_text.receive_last (hpieces last (by simp)) htext, Reply.finish_value]

/-- A value that looks like a reply of its own, with its first line end between two chunks. -/
theorem receive_reply_bulk_protocol_text :
    receive [] [encodeUtf8 "$6\r".toList, encodeUtf8 "\n$-1\r\n+\r\n".toList] =
      .returned (.str "$-1\r\n+".toList) [] [] := by
  refine (receive_reply (.bulk ⟨"$-1\r\n+".toList, by simp [IsAscii]⟩) ?_ ?_).2
  · simp
  · decide

end JobSystem
