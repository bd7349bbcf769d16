import JobSystem.Lib.Text
import JobSystem.Lib.Recv

/-!
# Reading a request

`parse_http_request`: a loop that collects the header block, and one that collects the body.

* `contentLength`, `parseHead`: what the header block declares;
* `readHeaders`, `readBody`, `parseHttpRequest`; `headersWant`, `bodyWant`: what the loops ask for;
* `readHeaders_spec`, `readHeaders_of_le`, `readHeaders_late`, `readBody_spec`; **`parse_of_found`**;
* `Declares`; **`parse_of_wellFormed`**: every delivery of a well-formed request;
* `Limited`: what is enforced; `Harmless`; **`limited_iff`**: the streams on which it is.
-/

namespace JobSystem

open PyText

/-- `MAX_HEADER_SIZE`, `MAX_CONTENT_LENGTH` and `sys.get_int_max_str_digits()`, which is off at 0. -/
structure RequestLimits where
  max_header_size : ℕ
  max_content_length : ℕ
  max_str_digits : ℕ

/-- The exceptions. -/
inductive RequestError where
  | headersTooLarge
  | closedInHeaders
  | emptyStatusLine
  | invalidRequestLine
  | contentTooLarge
  | closedInBody
  deriving DecidableEq

/-- Their texts. -/
def RequestError.text : RequestError → Str
  | headersTooLarge => "431 Request Header Fields Too Large".toList
  | closedInHeaders => "Connection closed before headers completed.".toList
  | emptyStatusLine => "400 Bad Request: Empty Status Line".toList
  | invalidRequestLine => "400 Bad Request: Invalid Request Line".toList
  | contentTooLarge => "413 Content Too Large".toList
  | closedInBody => "Connection closed before body reading was finalized.".toList

/-- `method, path, headers, body`. -/
structure HttpRequest where
  method : Str
  path : Str
  headers : List Str
  body : Bytes

/-! ## The header block -/

/-- `int(s)`; too many digits are a `ValueError`. -/
def toInt (max_str_digits : ℕ) (s : Str) : Option ℤ :=
  if 0 < max_str_digits ∧ max_str_digits < s.countP fun c => (digitValue c).isSome then none
  else parseInt s

/-- `s.split(sep)`. -/
def split (sep s : Str) : List Str := splitMax sep s.length s

/-- `line.lower().startswith("content-length:")` -/
def isContentLength (line : Str) : Bool := "content-length:".toList.isPrefixOf (lower line)

/-- `int(line.split(":", 1)[1].strip())` -/
def lengthOf (lim : RequestLimits) (line : Str) : Option ℤ :=
  (splitOnce [':'] line).bind fun p => toInt lim.max_str_digits (strip p.2)

/-- `content_length`: 0 without a header, and for one that `int` cannot read. -/
def contentLength (lim : RequestLimits) (headers : List Str) : ℤ :=
  match headers.find? isContentLength with
  | some line => (lengthOf lim line).getD 0
  | none => 0

/-- The lines of a header block. -/
def headerLines (header_part : Bytes) : List Str := split "\r\n".toList (decodeIgnore header_part)

/-- The request line and the declared length: `method, path, headers, content_length`. -/
def parseHead (lim : RequestLimits) (header_part : Bytes) :
    Except RequestError (Str × Str × List Str × ℤ) :=
  match headerLines header_part with
  | [] => .error .emptyStatusLine
  | line :: headers =>
    if line = [] then .error .emptyStatusLine
    else
      match split " ".toList line with
      | method :: path :: _ :: _ =>
        if lim.max_content_length < contentLength lim headers then .error .contentTooLarge
        else .ok (method, path, headers, contentLength lim headers)
      | _ => .error .invalidRequestLine

/-! ## The two loops -/

/-- `b"\r\n\r\n"` -/
def blankLine : Bytes := [13, 10, 13, 10]

/-- The first loop asks for 1024 bytes while the buffer is small and has no blank line. -/
def headersWant (lim : RequestLimits) (buffer : Bytes) : ℕ :=
  if buffer.length < lim.max_header_size ∧ splitOnce blankLine buffer = none then 1024 else 0

/-- `buffer` after the first loop. -/
def readHeaders (lim : RequestLimits) (conn : Conn) : Bytes × Conn :=
  conn.readWhile (headersWant lim) (conn.incoming.length + 1) []

/-- The second loop asks for what is missing, up to 4096 bytes. -/
def bodyWant (content_length : ℤ) (body : Bytes) : ℕ := min 4096 (content_length - body.length).toNat

/-- `body` after the second loop. -/
def readBody (content_length : ℤ) (body_part : Bytes) (conn : Conn) : Bytes × Conn :=
  conn.readWhile (bodyWant content_length) (conn.incoming.length + 1) body_part

/-- `parse_http_request`. -/
def parseHttpRequest (lim : RequestLimits) (client_conn : Conn) : Except RequestError HttpRequest :=
  let r := readHeaders lim client_conn
  match splitOnce blankLine r.1 with
  | none =>
    if lim.max_header_size ≤ r.1.length then .error .headersTooLarge else .error .closedInHeaders
  | some (header_part, body_part) =>
    match parseHead lim header_part with
    | .error e => .error e
    | .ok (method, path, headers, content_length) =>
      let body := (readBody content_length body_part r.2).1
      if (body.length : ℤ) < content_length then .error .closedInBody
      else .ok ⟨method, path, headers, sliceTo body content_length⟩

/-! ## What the header block declares -/

/-- The fields of the request line. -/
def requestFields (header_part : Bytes) : List Str :=
  split " ".toList ((headerLines header_part).headD [])

/-- The length that a header block declares. -/
def declaredLength (lim : RequestLimits) (header_part : Bytes) : ℤ :=
  contentLength lim (headerLines header_part).tail

/-- **A header block that is accepted.** -/
theorem parseHead_eq_ok_iff {lim : RequestLimits} {header_part : Bytes}
    {r : Str × Str × List Str × ℤ} : parseHead lim header_part = .ok r ↔
      ∃ method path version more, requestFields header_part = method :: path :: version :: more ∧
        declaredLength lim header_part ≤ lim.max_content_length ∧
        (method, path, (headerLines header_part).tail, declaredLength lim header_part) = r := by
  unfold parseHead requestFields declaredLength
  cases headerLines header_part with
  | nil => simp [split, splitMax]
  | cons line headers =>
    by_cases hline : line = []
    · simp [hline, split, splitMax]
    · simp only [hline, if_false, List.headD_cons, List.tail_cons]
      cases hsplit : split " ".toList line with
      | nil => simp
      | cons method fields =>
        cases fields with
        | nil => simp
        | cons path fields =>
          cases fields with
          | nil => simp
          | cons version more =>
            by_cases hmax : lim.max_content_length < contentLength lim headers
            · simp [hmax]
            · simp [hmax, not_lt.mp hmax]

/-! ## What the loops have read -/

section Reads

variable {lim : RequestLimits} {stream header_part rest : Bytes}

theorem headersWant_eq_zero_iff {buffer : Bytes} : headersWant lim buffer = 0 ↔
    lim.max_header_size ≤ buffer.length ∨ splitOnce blankLine buffer ≠ none := by
  unfold headersWant
  split_ifs with h
  · simp [not_le.mpr h.1, h.2]
  · simp only [true_iff]
    by_contra hno
    push Not at hno
    exact h hno

/-- **The first loop**: it has read the first bytes of the peer, enough of them or all, and at most
1024 behind the limit. -/
theorem readHeaders_spec (lim : RequestLimits) (conn : Conn) :
    conn.incoming = (readHeaders lim conn).1 ++ (readHeaders lim conn).2.incoming ∧
      (headersWant lim (readHeaders lim conn).1 = 0 ∨ (readHeaders lim conn).2.incoming = []) ∧
      ((readHeaders lim conn).1 ≠ [] →
        0 < lim.max_header_size ∧ (readHeaders lim conn).1.length < lim.max_header_size + 1024) := by
  obtain ⟨p, hread, hbytes, hdone, hlast⟩ := @Conn.readWhile_spec (headersWant lim) _ []
    conn (Nat.lt_succ_self conn.incoming.length)
  rw [List.nil_append] at hread hdone hlast
  change (readHeaders lim conn).1 = p at hread
  rw [← hread] at hbytes hdone hlast
  refine ⟨hbytes, hdone, fun hne => ?_⟩
  obtain ⟨q, last, heq, hwant, hlen⟩ := hlast.resolve_left hne
  rw [heq, List.length_append]
  unfold headersWant at hwant hlen
  split_ifs at hwant hlen with hq
  · omega
  · exact absurd rfl hwant

theorem length_of_blankLine (h : splitOnce blankLine stream = some (header_part, rest)) :
    stream.length = header_part.length + 4 + rest.length := length_of_splitOnce h

/-- A blank line that the first loop has read is the first one of the peer. -/
theorem blankLine_of_readHeaders {conn : Conn} {body_part : Bytes}
    (h : splitOnce blankLine (readHeaders lim conn).1 = some (header_part, body_part)) :
    splitOnce blankLine conn.incoming =
      some (header_part, body_part ++ (readHeaders lim conn).2.incoming) := by
  rw [(readHeaders_spec lim conn).1]
  exact splitOnce_append_right h _

/-- **The limit does not cut a header block off** that is within it. -/
theorem readHeaders_of_le {conn : Conn}
    (h : splitOnce blankLine conn.incoming = some (header_part, rest))
    (hsize : header_part.length + 4 ≤ lim.max_header_size) :
    ∃ body_part, splitOnce blankLine (readHeaders lim conn).1 = some (header_part, body_part) ∧
      rest = body_part ++ (readHeaders lim conn).2.incoming := by
  obtain ⟨hbytes, hdone, -⟩ := readHeaders_spec lim conn
  have hall : header_part.length + 4 ≤ conn.incoming.length := by
    rw [length_of_blankLine h]
    omega
  -- the loop has stopped at the limit, or at a blank line, or at the end
  have hread : header_part.length + 4 ≤ (readHeaders lim conn).1.length ∨
      splitOnce blankLine (readHeaders lim conn).1 ≠ none := by
    rcases hdone with hstop | hend
    · exact (headersWant_eq_zero_iff.mp hstop).imp_left hsize.trans
    · rw [hend, List.append_nil] at hbytes
      rw [← hbytes]
      exact .inl hall
  rcases hread with hlong | hfound
  · rw [hbytes] at h
    exact splitOnce_of_append (List.cons_ne_nil _ _) h hlong
  · obtain ⟨⟨header_part', body_part⟩, hsplit⟩ := Option.ne_none_iff_exists'.mp hfound
    have hstream := (blankLine_of_readHeaders hsplit).symm.trans h
    simp only [Option.some.injEq, Prod.mk.injEq] at hstream
    obtain ⟨rfl, rfl⟩ := hstream
    exact ⟨body_part, hsplit, rfl⟩

theorem splitOnce_take_eq_none (h : splitOnce blankLine stream = some (header_part, rest)) {i : ℕ}
    (hi : i < header_part.length + 4) : splitOnce blankLine (stream.take i) = none := by
  by_contra hne
  obtain ⟨⟨header_part', body_part⟩, hsplit⟩ := Option.ne_none_iff_exists'.mp hne
  have hstream := splitOnce_append_right hsplit (stream.drop i)
  rw [List.take_append_drop, h] at hstream
  simp only [Option.some.injEq, Prod.mk.injEq] at hstream
  have hlen := length_of_blankLine hsplit
  rw [List.length_take, ← hstream.1] at hlen
  omega

/-- **A header block over the limit is read all the same** if single bytes come up to it. -/
theorem readHeaders_late (h : splitOnce blankLine stream = some (header_part, rest))
    (hpos : 0 < lim.max_header_size) (hover : lim.max_header_size < header_part.length + 4)
    (hnear : header_part.length + 4 < lim.max_header_size + 1024) :
    ∃ body_part, splitOnce blankLine (readHeaders lim
      ⟨stream, List.replicate (lim.max_header_size - 1) 1⟩).1 = some (header_part, body_part) := by
  have hlen := length_of_blankLine h
  have hwant : ∀ i < lim.max_header_size, headersWant lim (stream.take i) = 1024 := by
    intro i hi
    refine if_pos ⟨(List.length_take_le _ _).trans_lt hi, splitOnce_take_eq_none h ?_⟩
    omega
  obtain ⟨fuel, hfuel⟩ : ∃ fuel, stream.length + 1 = fuel + 1 + (lim.max_header_size - 1) :=
    ⟨stream.length - (lim.max_header_size - 1), by omega⟩
  have hread : (readHeaders lim ⟨stream, List.replicate (lim.max_header_size - 1) 1⟩).1 =
      (Conn.readWhile (headersWant lim) fuel (stream.take (lim.max_header_size - 1 + 1024))
        ⟨stream.drop (lim.max_header_size - 1 + 1024), []⟩).1 := by
    have hlast := hwant (lim.max_header_size - 1) (by omega)
    have hmore : stream.drop (lim.max_header_size - 1) ≠ [] := by
      rw [Ne, List.drop_eq_nil_iff]
      omega
    rw [readHeaders, hfuel, Conn.readWhile_bytes _ _ (by omega)]
    · rw [List.nil_append, Conn.readWhile_full _ (by rw [hlast]; exact Nat.succ_ne_zero _) hmore, hlast,
        ← List.take_add, List.drop_drop]
    · intro i hi
      rw [List.nil_append, hwant i (by omega)]
      exact Nat.succ_ne_zero _
  have hfound : ∃ body_part, splitOnce blankLine (stream.take (lim.max_header_size - 1 + 1024)) =
      some (header_part, body_part) := by
    rw [← List.take_append_drop (lim.max_header_size - 1 + 1024) stream] at h
    refine (splitOnce_of_append (List.cons_ne_nil _ _) h ?_).imp fun _ hb => hb.1
    rw [List.length_take]
    show header_part.length + 4 ≤ _
    omega
  rw [hread, Conn.readWhile_of_stop _ _ (headersWant_eq_zero_iff.mpr (.inr ?_))]
  · exact hfound
  · obtain ⟨body_part, hb⟩ := hfound
    rw [hb]
    exact Option.some_ne_none _

/-- **The second loop** has read the first bytes, and as many as are declared if there are so many. -/
theorem readBody_spec (content_length : ℤ) (body_part : Bytes) (conn : Conn) :
    (readBody content_length body_part conn).1 <+: body_part ++ conn.incoming ∧
      ((readBody content_length body_part conn).1.length < content_length ↔
        (body_part ++ conn.incoming).length < content_length) := by
  obtain ⟨p, hread, hbytes, hdone, -⟩ := @Conn.readWhile_spec (bodyWant content_length) _ body_part
    conn (Nat.lt_succ_self conn.incoming.length)
  change (readBody content_length body_part conn).1 = body_part ++ p at hread
  rw [← hread] at hdone
  have hhead : (readBody content_length body_part conn).1 <+: body_part ++ conn.incoming := by
    rw [hread, hbytes, ← List.append_assoc]
    exact List.prefix_append _ _
  refine ⟨hhead, fun hlt => ?_, fun hlt => ?_⟩
  · have hwant : bodyWant content_length (readBody content_length body_part conn).1 ≠ 0 := by
      unfold bodyWant
      omega
    have hend := hdone.resolve_left hwant
    change (readBody content_length body_part conn).2.incoming = [] at hend
    change conn.incoming = p ++ (readBody content_length body_part conn).2.incoming at hbytes
    rwa [hbytes, hend, List.append_nil, ← hread]
  · exact (Int.ofNat_le.mpr hhead.length_le).trans_lt hlt

end Reads

/-! ## Every delivery -/

/-- The answer to a header block and the bytes behind it. -/
def requestOf (lim : RequestLimits) (header_part rest : Bytes) : Except RequestError HttpRequest :=
  match parseHead lim header_part with
  | .error e => .error e
  | .ok (method, path, headers, content_length) =>
    if (rest.length : ℤ) < content_length then .error .closedInBody
    else .ok ⟨method, path, headers, sliceTo rest content_length⟩

section Delivery

variable {lim : RequestLimits} {header_part body_part rest : Bytes} {conn : Conn}

/-- The answer to a header block that is found and accepted. -/
theorem parse_of_head {method path : Str} {headers : List Str} {content_length : ℤ}
    (hfound : splitOnce blankLine (readHeaders lim conn).1 = some (header_part, body_part))
    (hhead : parseHead lim header_part = .ok (method, path, headers, content_length)) :
    parseHttpRequest lim conn =
      if ((readBody content_length body_part (readHeaders lim conn).2).1.length : ℤ) < content_length then
        .error .closedInBody
      else .ok ⟨method, path, headers,
        sliceTo (readBody content_length body_part (readHeaders lim conn).2).1 content_length⟩ := by
  unfold parseHttpRequest
  dsimp only
  rw [hfound]
  dsimp only
  rw [hhead]

/-- **A header block that is found is answered by the bytes behind it**, unless it declares a negative
length: then the answer is still given for the same ones. -/
theorem parse_of_found (hfound : splitOnce blankLine (readHeaders lim conn).1 =
      some (header_part, body_part))
    (hrest : splitOnce blankLine conn.incoming = some (header_part, rest)) :
    ((parseHttpRequest lim conn).isOk ↔ (requestOf lim header_part rest).isOk) ∧
      (0 ≤ declaredLength lim header_part →
        parseHttpRequest lim conn = requestOf lim header_part rest) := by
  rw [blankLine_of_readHeaders hfound] at hrest
  simp only [Option.some.injEq, Prod.mk.injEq, true_and] at hrest
  cases hhead : parseHead lim header_part with
  | error e =>
    unfold parseHttpRequest requestOf
    dsimp only
    rw [hfound]
    dsimp only
    rw [hhead]
    exact ⟨Iff.rfl, fun _ => rfl⟩
  | ok r =>
    obtain ⟨method, path, version, more, hfields, hmax, rfl⟩ := parseHead_eq_ok_iff.mp hhead
    rw [parse_of_head hfound hhead, requestOf, hhead]
    dsimp only
    obtain ⟨hbytes, hshort⟩ :=
      readBody_spec (declaredLength lim header_part) body_part (readHeaders lim conn).2
    rw [hrest] at hbytes hshort
    by_cases hlt : (rest.length : ℤ) < declaredLength lim header_part
    · rw [if_pos hlt, if_pos (hshort.mpr hlt)]
      exact ⟨Iff.rfl, fun _ => rfl⟩
    · rw [if_neg hlt, if_neg (mt hshort.mp hlt)]
      refine ⟨Iff.rfl, fun hnonneg => ?_⟩
      have hslice : sliceTo (readBody (declaredLength lim header_part) body_part
          (readHeaders lim conn).2).1 (declaredLength lim header_part) =
          sliceTo rest (declaredLength lim header_part) := by
        unfold sliceTo
        rw [if_pos hnonneg, if_pos hnonneg]
        obtain ⟨more, hmore⟩ := hbytes
        rw [← hmore, List.take_append_of_le_length]
        have := mt hshort.mp hlt
        omega
      rw [hslice]

/-- A header block within the limit is found. -/
theorem parse_of_le (hrest : splitOnce blankLine conn.incoming = some (header_part, rest))
    (hsize : header_part.length + 4 ≤ lim.max_header_size) :
    ((parseHttpRequest lim conn).isOk ↔ (requestOf lim header_part rest).isOk) ∧
      (0 ≤ declaredLength lim header_part →
        parseHttpRequest lim conn = requestOf lim header_part rest) := by
  obtain ⟨body_part, hfound, -⟩ := readHeaders_of_le hrest hsize
  exact parse_of_found hfound hrest

theorem requestOf_eq_ok_iff {v : HttpRequest} : requestOf lim header_part rest = .ok v ↔
    ∃ method path version more, requestFields header_part = method :: path :: version :: more ∧
      declaredLength lim header_part ≤ lim.max_content_length ∧
      declaredLength lim header_part ≤ rest.length ∧
      (⟨method, path, (headerLines header_part).tail,
        sliceTo rest (declaredLength lim header_part)⟩ : HttpRequest) = v := by
  unfold requestOf
  cases hhead : parseHead lim header_part with
  | error e =>
    constructor
    · intro h
      cases h
    · rintro ⟨method, path, version, more, hfields, hmax, -⟩
      have := parseHead_eq_ok_iff.mpr ⟨method, path, version, more, hfields, hmax, rfl⟩
      rw [hhead] at this
      cases this
  | ok r =>
    obtain ⟨method, path, version, more, hfields, hmax, rfl⟩ := parseHead_eq_ok_iff.mp hhead
    dsimp only
    rw [hfields]
    by_cases hlt : (rest.length : ℤ) < declaredLength lim header_part
    · simp [hlt]
    · rw [if_neg hlt]
      simp [hmax, not_lt.mp hlt]

theorem isOk_requestOf_iff : (requestOf lim header_part rest).isOk ↔
    3 ≤ (requestFields header_part).length ∧
      declaredLength lim header_part ≤ lim.max_content_length ∧
      declaredLength lim header_part ≤ rest.length := by
  have hok : (requestOf lim header_part rest).isOk ↔ ∃ v, requestOf lim header_part rest = .ok v := by
    cases requestOf lim header_part rest with
    | error e => simp [Except.isOk, Except.toBool]
    | ok v => simp [Except.isOk, Except.toBool]
  rw [hok]
  simp only [requestOf_eq_ok_iff]
  constructor
  · rintro ⟨v, method, path, version, more, hfields, hmax, hrest, -⟩
    exact ⟨by simp [hfields], hmax, hrest⟩
  · rintro ⟨hthree, hmax, hrest⟩
    match hfields : requestFields header_part, hthree with
    | method :: path :: version :: more, _ =>
      exact ⟨_, method, path, version, more, rfl, hmax, hrest, rfl⟩

/-- A request that is returned has a header block, and one that is over the limit by less than 1024. -/
theorem found_of_isOk (h : (parseHttpRequest lim conn).isOk) : ∃ header_part body_part,
    splitOnce blankLine (readHeaders lim conn).1 = some (header_part, body_part) ∧
      0 < lim.max_header_size ∧ header_part.length + 4 < lim.max_header_size + 1024 := by
  unfold parseHttpRequest at h
  dsimp only at h
  cases hsplit : splitOnce blankLine (readHeaders lim conn).1 with
  | none =>
    rw [hsplit] at h
    dsimp only at h
    split_ifs at h <;> cases h
  | some p =>
    have hlen := @length_of_blankLine _ p.1 p.2 hsplit
    have hne : (readHeaders lim conn).1 ≠ [] := by
      intro hnil
      rw [hnil, List.length_nil] at hlen
      omega
    obtain ⟨hpos, hlt⟩ := (readHeaders_spec lim conn).2.2 hne
    exact ⟨p.1, p.2, rfl, hpos, by omega⟩

/-- The header block that is found is that of the peer. -/
theorem header_part_of_found {header_part' : Bytes}
    (hfound : splitOnce blankLine (readHeaders lim conn).1 = some (header_part', body_part))
    (hrest : splitOnce blankLine conn.incoming = some (header_part, rest)) :
    header_part' = header_part := by
  have hsame := (blankLine_of_readHeaders hfound).symm.trans hrest
  simp only [Option.some.injEq, Prod.mk.injEq] at hsame
  exact hsame.1

/-- **When a request is returned**: its blank line is found, and its body is not too long and comes. -/
theorem isOk_parse_iff (hrest : splitOnce blankLine conn.incoming = some (header_part, rest)) :
    (parseHttpRequest lim conn).isOk ↔ splitOnce blankLine (readHeaders lim conn).1 ≠ none ∧
      3 ≤ (requestFields header_part).length ∧
      declaredLength lim header_part ≤ lim.max_content_length ∧
      declaredLength lim header_part ≤ rest.length := by
  constructor
  · intro hok
    obtain ⟨header_part', body_part, hfound, -, -⟩ := found_of_isOk hok
    obtain rfl := header_part_of_found hfound hrest
    refine ⟨?_, isOk_requestOf_iff.mp ((parse_of_found hfound hrest).1.mp hok)⟩
    rw [hfound]
    exact Option.some_ne_none _
  · rintro ⟨hne, hfields⟩
    obtain ⟨⟨header_part', body_part⟩, hfound⟩ := Option.ne_none_iff_exists'.mp hne
    obtain rfl := header_part_of_found hfound hrest
    exact (parse_of_found hfound hrest).1.mpr (isOk_requestOf_iff.mpr hfields)

/-- The request that is returned has the fields of the request line, and the headers below it. -/
theorem fields_of_parse (hrest : splitOnce blankLine conn.incoming = some (header_part, rest))
    {v : HttpRequest} (hv : parseHttpRequest lim conn = .ok v) : ∃ version more,
      requestFields header_part = v.method :: v.path :: version :: more ∧
        v.headers = (headerLines header_part).tail := by
  have hok : (parseHttpRequest lim conn).isOk := by
    rw [hv]
    rfl
  obtain ⟨header_part', body_part, hfound, -, -⟩ := found_of_isOk hok
  obtain rfl := header_part_of_found hfound hrest
  cases hhead : parseHead lim header_part' with
  | error e =>
    unfold parseHttpRequest at hv
    dsimp only at hv
    rw [hfound] at hv
    dsimp only at hv
    rw [hhead] at hv
    cases hv
  | ok r =>
    obtain ⟨method, path, version, more, hfields, -, rfl⟩ := parseHead_eq_ok_iff.mp hhead
    rw [parse_of_head hfound hhead] at hv
    split_ifs at hv
    cases hv
    exact ⟨version, more, hfields, rfl⟩

end Delivery

/-! ## Well-formed requests -/

/-- The length that is declared: the value of the first `Content-Length` header, 0 if there is none. -/
inductive Declares (lim : RequestLimits) : List Str → ℤ → Prop
  | absent {headers : List Str} (h : ∀ line ∈ headers, isContentLength line = false) :
      Declares lim headers 0
  | first {before after : List Str} {line : Str} {n : ℤ}
      (hbefore : ∀ l ∈ before, isContentLength l = false) (hline : isContentLength line = true)
      (hlength : lengthOf lim line = some n) : Declares lim (before ++ line :: after) n

theorem contentLength_of_declares {lim : RequestLimits} {headers : List Str} {n : ℤ}
    (h : Declares lim headers n) : contentLength lim headers = n := by
  cases h with
  | absent h =>
    have hnone : headers.find? isContentLength = none := by
      rw [List.find?_eq_none]
      intro line hline
      rw [h line hline]
      exact Bool.false_ne_true
    rw [contentLength, hnone]
  | @first before after line n hbefore hline hlength =>
    have hsome : (before ++ line :: after).find? isContentLength = some line := by
      rw [List.find?_append, List.find?_eq_none.mpr fun l hl => by simp [hbefore l hl], Option.none_or,
        List.find?_cons_of_pos hline]
    rw [contentLength, hsome]
    dsimp only
    rw [hlength, Option.getD_some]

/-- **Every well-formed request is read right**, however its bytes are delivered. -/
theorem parse_of_wellFormed (lim : RequestLimits) {stream header_part rest : Bytes}
    {line method path version : Str} {more headers : List Str} {n : ℕ}
    (hblank : splitOnce blankLine stream = some (header_part, rest))
    (hsize : (header_part ++ blankLine).length ≤ lim.max_header_size)
    (hlines : headerLines header_part = line :: headers)
    (hfields : split " ".toList line = method :: path :: version :: more)
    (hlength : Declares lim headers n) (hmax : n ≤ lim.max_content_length) (hbody : n ≤ rest.length)
    (sizes : List ℕ) :
    parseHttpRequest lim ⟨stream, sizes⟩ = .ok ⟨method, path, headers, rest.take n⟩ := by
  have hdeclared : declaredLength lim header_part = n := by
    rw [declaredLength, hlines, List.tail_cons, contentLength_of_declares hlength]
  rw [List.length_append] at hsize
  rw [(@parse_of_le lim header_part rest ⟨stream, sizes⟩ hblank hsize).2 (by omega),
    requestOf_eq_ok_iff]
  refine ⟨method, path, version, more, ?_, by omega, by omega, ?_⟩
  · rw [requestFields, hlines, List.headD_cons, hfields]
  · rw [hlines, List.tail_cons, hdeclared, sliceTo_ofNat]

/-- A submission of two bytes, of which a third is left over. -/
theorem parse_of_wellFormed_submit : parseHttpRequest ⟨8192, 1048576, 4300⟩
    ⟨encodeUtf8 "POST /submit HTTP/1.1\r\nContent-Length: 2\r\n\r\nok!".toList, [1, 5]⟩ =
      .ok ⟨"POST".toList, "/submit".toList, ["Content-Length: 2".toList],
        (encodeUtf8 "ok!".toList).take 2⟩ :=
  @parse_of_wellFormed ⟨8192, 1048576, 4300⟩ _
    (encodeUtf8 "POST /submit HTTP/1.1\r\nContent-Length: 2".toList) (encodeUtf8 "ok!".toList)
    "POST /submit HTTP/1.1".toList "POST".toList "/submit".toList "HTTP/1.1".toList []
    ["Content-Length: 2".toList] 2 (by decide +kernel) (by decide +kernel) (by decide +kernel)
    (by decide +kernel)
    (@Declares.first _ [] [] _ _ (fun l hl => absurd hl List.not_mem_nil) (by decide +kernel)
      (by decide +kernel))
    (by decide) (by decide +kernel) [1, 5]

/-! ## The limits -/

/-- What a request that is returned keeps to, and that the delivery does not matter. -/
structure Limited (lim : RequestLimits) (stream : Bytes) : Prop where
  limits : ∀ sizes v, parseHttpRequest lim ⟨stream, sizes⟩ = .ok v →
    ∃ header_part rest, splitOnce blankLine stream = some (header_part, rest) ∧
      (header_part ++ blankLine).length ≤ lim.max_header_size ∧
      0 ≤ declaredLength lim header_part ∧
      declaredLength lim header_part ≤ lim.max_content_length ∧
      (v.body.length : ℤ) = declaredLength lim header_part
  same : ∀ sizes sizes', (parseHttpRequest lim ⟨stream, sizes⟩).toOption =
    (parseHttpRequest lim ⟨stream, sizes'⟩).toOption

/-- The streams that do no harm: the length is not negative and the header block is within its limit,
unless the header block is over it by 1024 bytes, the request is refused or its body does not come. -/
def Harmless (lim : RequestLimits) (stream : Bytes) : Prop :=
  ∀ header_part rest, splitOnce blankLine stream = some (header_part, rest) →
    0 < lim.max_header_size → (header_part ++ blankLine).length < lim.max_header_size + 1024 →
    (0 ≤ declaredLength lim header_part ∧
        (header_part ++ blankLine).length ≤ lim.max_header_size) ∨
      (requestFields header_part).length < 3 ∨
      lim.max_content_length < declaredLength lim header_part ∨
      rest.length < declaredLength lim header_part

theorem limits_of_harmless {lim : RequestLimits} {stream : Bytes} (h : Harmless lim stream)
    {sizes : List ℕ} {v : HttpRequest} (hv : parseHttpRequest lim ⟨stream, sizes⟩ = .ok v) :
    ∃ header_part rest, splitOnce blankLine stream = some (header_part, rest) ∧
      (header_part ++ blankLine).length ≤ lim.max_header_size ∧
      0 ≤ declaredLength lim header_part ∧
      declaredLength lim header_part ≤ lim.max_content_length ∧
      (v.body.length : ℤ) = declaredLength lim header_part := by
  have hok : (parseHttpRequest lim ⟨stream, sizes⟩).isOk := by
    rw [hv]
    rfl
  obtain ⟨header_part, body_part, hfound, hpos, hnear⟩ := found_of_isOk hok
  have hblank := blankLine_of_readHeaders hfound
  change splitOnce blankLine stream = some (header_part, _) at hblank
  have hsame := parse_of_found hfound hblank
  obtain ⟨hthree, hmax, hrest⟩ := isOk_requestOf_iff.mp (hsame.1.mp hok)
  obtain ⟨hnonneg, hsize⟩ := (h _ _ hblank hpos (by simpa [blankLine] using hnear)).resolve_right (by
    rintro (hfew | hlarge | hshort) <;> omega)
  refine ⟨header_part, _, hblank, hsize, hnonneg, hmax, ?_⟩
  rw [hsame.2 hnonneg] at hv
  obtain ⟨-, -, -, -, -, -, -, rfl⟩ := requestOf_eq_ok_iff.mp hv
  show ((sliceTo _ _).length : ℤ) = _
  rw [sliceTo, if_pos hnonneg, List.length_take]
  omega

theorem limited_of_harmless {lim : RequestLimits} {stream : Bytes} (h : Harmless lim stream) :
    Limited lim stream := by
  refine ⟨fun sizes v => limits_of_harmless h, fun sizes sizes' => ?_⟩
  by_cases hok : ∃ sizes v, parseHttpRequest lim ⟨stream, sizes⟩ = .ok v
  · obtain ⟨sizes'', v, hv⟩ := hok
    obtain ⟨header_part, rest, hblank, hsize, hnonneg, -⟩ := limits_of_harmless h hv
    rw [List.length_append] at hsize
    rw [(@parse_of_le lim header_part rest ⟨stream, sizes⟩ hblank hsize).2 hnonneg,
      (@parse_of_le lim header_part rest ⟨stream, sizes'⟩ hblank hsize).2 hnonneg]
  · have hnone : ∀ sizes, (parseHttpRequest lim ⟨stream, sizes⟩).toOption = none := by
      intro sizes
      cases hv : parseHttpRequest lim ⟨stream, sizes⟩ with
      | error e => rfl
      | ok v => exact absurd ⟨sizes, v, hv⟩ hok
    rw [hnone, hnone]

theorem harmless_of_limited {lim : RequestLimits} {stream : Bytes} (h : Limited lim stream) :
    Harmless lim stream := by
  intro header_part rest hblank hpos hnear
  by_contra hno
  push Not at hno
  obtain ⟨hbad, hthree, hmax, hrest⟩ := hno
  have hanswer : (requestOf lim header_part rest).isOk :=
    isOk_requestOf_iff.mpr ⟨hthree, hmax, hrest⟩
  -- a delivery that is answered
  have hfound : ∃ sizes body_part,
      splitOnce blankLine (readHeaders lim ⟨stream, sizes⟩).1 = some (header_part, body_part) := by
    by_cases hsize : header_part.length + 4 ≤ lim.max_header_size
    · obtain ⟨body_part, hfound, -⟩ := @readHeaders_of_le lim header_part rest ⟨stream, []⟩ hblank hsize
      exact ⟨[], body_part, hfound⟩
    · exact ⟨_, readHeaders_late hblank hpos (not_le.mp hsize) (by simpa [blankLine] using hnear)⟩
  obtain ⟨sizes, body_part, hfound⟩ := hfound
  have hok := (parse_of_found hfound hblank).1.mpr hanswer
  cases hv : parseHttpRequest lim ⟨stream, sizes⟩ with
  | error e =>
    rw [hv] at hok
    cases hok
  | ok v =>
    obtain ⟨header_part', rest', hblank', hsize, hnonneg, -⟩ := h.limits sizes v hv
    rw [hblank] at hblank'
    cases hblank'
    exact absurd hsize (not_le.mpr (hbad hnonneg))

/-- **The streams on which the limits are enforced**, and the delivery does not matter. -/
theorem limited_iff (lim : RequestLimits) (stream : Bytes) :
    Limited lim stream ↔ Harmless lim stream :=
  ⟨harmless_of_limited, limited_of_harmless⟩

/-- A negative length is accepted, and cuts the body off from behind. -/
theorem not_limited_negative :
    ¬ Limited ⟨8192, 1048576, 4300⟩ (encodeUtf8 "GET / H\r\nContent-Length: -1\r\n\r\nab".toList) := by
  intro h
  have hv : ((parseHttpRequest ⟨8192, 1048576, 4300⟩
      ⟨encodeUtf8 "GET / H\r\nContent-Length: -1\r\n\r\nab".toList, []⟩).toOption.map
        fun v => v.body) = some [97] := by decide +kernel
  have hlength : declaredLength ⟨8192, 1048576, 4300⟩
      (encodeUtf8 "GET / H\r\nContent-Length: -1".toList) = -1 := by decide +kernel
  have hblank : splitOnce blankLine (encodeUtf8 "GET / H\r\nContent-Length: -1\r\n\r\nab".toList) =
      some (encodeUtf8 "GET / H\r\nContent-Length: -1".toList, [97, 98]) := by decide +kernel
  cases hparse : parseHttpRequest ⟨8192, 1048576, 4300⟩
      ⟨encodeUtf8 "GET / H\r\nContent-Length: -1\r\n\r\nab".toList, []⟩ with
  | error e =>
    rw [hparse] at hv
    cases hv
  | ok v =>
    obtain ⟨header_part, rest, hsplit, -, hnonneg, -⟩ := h.limits [] v hparse
    rw [hblank] at hsplit
    cases hsplit
    rw [hlength] at hnonneg
    exact absurd hnonneg (by decide)

end JobSystem
