import JobSystem.Cache.Server
import JobSystem.Cache.RespPrefix

/-!
# The command stream and TCP

A client's requests reach `handle_client` cut into chunks. The parser takes a request whose first
argument has arrived for complete, with `None` for the rest, and a chunk that begins with `GET ` or
`HEAD ` is answered as a health check wherever in a request it begins.

* `whole`: every request arrives by itself;
* `usedArgs`: the arguments that a request's branch looks at;
* `CutOk`: a cut that does no harm;
* **`handleClient_eq_whole_iff`**: the requests made and the bytes sent are those of `whole` exactly
  when every cut is harmless.
-/

namespace JobSystem

open PyText

/-- The value of a request. -/
def cmdValue (cmd : List Str) : Value := .list (cmd.map .str)

/-- The value of a request of which only the first `k` arguments are there. -/
def cutValue (cmd : List Str) (k : ℕ) : Value :=
  .list ((cmd.take k).map .str ++ List.replicate (cmd.length - k) .none)

/-- How many arguments, the name included, the branch of a request looks at. -/
def usedArgs : List Str → ℕ
  | [] => 0
  | p :: args =>
    if upper p = ['S', 'E', 'T'] then if 2 ≤ args.length then 3 else 1
    else if upper p = ['G', 'E', 'T'] ∨ IsDelete (upper p) then if 1 ≤ args.length then 2 else 1
    else 1

namespace Session

variable (listStr : List Value → Str)

/-- The requests one by one, until the connection ends. -/
def whole (s : Session) (cmds : List (List Str)) : Session :=
  cmds.foldl (fun s cmd => if s.isOpen then dispatch listStr s (cmdValue cmd) else s) s

theorem whole_cons (s : Session) (cmd : List Str) (cmds : List (List Str)) :
    whole listStr s (cmd :: cmds) =
      whole listStr (if s.isOpen then dispatch listStr s (cmdValue cmd) else s) cmds := rfl

theorem whole_of_closed {s : Session} (h : s.isOpen = false) (cmds : List (List Str)) :
    whole listStr s cmds = s := by
  induction cmds with
  | nil => rfl
  | cons cmd cmds ih => rw [whole_cons, h, if_neg Bool.false_ne_true, ih]

theorem handleClient_of_closed {s : Session} (h : s.isOpen = false) (chunks : List Bytes) :
    handleClient listStr s chunks = s := by
  induction chunks with
  | nil => rfl
  | cons chunk chunks ih =>
    rw [handleClient, List.foldl_cons, handleChunk, if_pos h]
    exact ih

theorem handleClient_cons (s : Session) (chunk : Bytes) (chunks : List Bytes) :
    handleClient listStr s (chunk :: chunks) =
      handleClient listStr (handleChunk listStr s chunk) chunks := rfl

/-! ## Requests and replies only accumulate -/

/-- What one value of the stream does: at most one request, and a reply that is not HTTP. -/
structure Grows (s s' : Session) : Prop where
  requests : s.requests <+: s'.requests
  sent : ∃ t, s'.sent = s.sent ++ t ∧ t.head? ≠ some 72

theorem Grows.refl (s : Session) : Grows s s :=
  ⟨List.prefix_rfl, [], (List.append_nil _).symm, by simp⟩

theorem Grows.trans {s s' s'' : Session} (h : Grows s s') (h' : Grows s' s'') : Grows s s'' := by
  obtain ⟨t, ht, hh⟩ := h.sent
  obtain ⟨t', ht', hh'⟩ := h'.sent
  refine ⟨h.requests.trans h'.requests, t ++ t', by rw [ht', ht, List.append_assoc], ?_⟩
  cases t with
  | nil => exact hh'
  | cons b t => exact hh

/-- A reply that starts with `+`, `-`, `:` or `$`. -/
theorem Grows.sendall {s s' : Session} (h : Grows s s') {c : Char} (hc : c ∈ ['+', '-', ':', '$'])
    (reply : Str) : Grows s (s'.sendall (c :: reply)) := by
  refine h.trans ⟨List.prefix_rfl, encodeUtf8 (c :: reply), rfl, ?_⟩
  simp only [List.mem_cons, List.not_mem_nil, or_false] at hc
  rcases hc with rfl | rfl | rfl | rfl
  · exact (show some (43 : UInt8) ≠ some 72 by decide)
  · exact (show some (45 : UInt8) ≠ some 72 by decide)
  · exact (show some (58 : UInt8) ≠ some 72 by decide)
  · exact (show some (36 : UInt8) ≠ some 72 by decide)

theorem grows_request (s : Session) (r : Request Key Value) : Grows s (s.request r) :=
  ⟨List.prefix_append _ _, [], (List.append_nil _).symm, by simp⟩

theorem Grows.close {s s' : Session} (h : Grows s s') : Grows s s'.close := ⟨h.requests, h.sent⟩

theorem Grows.setBuffer {s s' : Session} (h : Grows s s') (buffer : Str) :
    Grows s (s'.setBuffer buffer) := ⟨h.requests, h.sent⟩

theorem grows_dispatchSet (s : Session) (args : List Value) : Grows s (s.dispatchSet args) := by
  unfold dispatchSet
  split
  · split
    · exact (grows_request s _).sendall (by decide) _
    · exact (Grows.refl s).close
  · exact (Grows.refl s).sendall (by decide) _

theorem grows_dispatchGet (s : Session) (args : List Value) :
    Grows s (s.dispatchGet listStr args) := by
  unfold dispatchGet
  split
  · split
    · split
      · rename_i k _ reply hr
        have hreply : ∃ r, reply = '$' :: r := by
          unfold getReply at hr
          split at hr <;> cases hr <;> exact ⟨_, rfl⟩
        obtain ⟨r, rfl⟩ := hreply
        exact (grows_request s _).sendall (by decide) r
      · exact (grows_request s _).close
    · exact (Grows.refl s).close
  · exact (Grows.refl s).sendall (by decide) _

theorem grows_dispatchDel (s : Session) (args : List Value) : Grows s (s.dispatchDel args) := by
  unfold dispatchDel
  split
  · split
    · split_ifs
      · exact (grows_request s _).sendall (by decide) _
      · exact (grows_request s _).sendall (by decide) _
    · exact (Grows.refl s).close
  · exact (Grows.refl s).sendall (by decide) _

theorem grows_dispatch (s : Session) (v : Value) : Grows s (dispatch listStr s v) := by
  unfold dispatch
  split
  · unfold dispatchAction
    split_ifs
    · exact grows_dispatchSet s _
    · exact grows_dispatchGet listStr s _
    · exact grows_dispatchDel s _
    · exact ((Grows.refl s).sendall (by decide) _).close
    · exact (Grows.refl s).sendall (by decide) _
  · exact (Grows.refl s).close
  · exact Grows.refl s

theorem grows_whole (s : Session) (cmds : List (List Str)) : Grows s (whole listStr s cmds) := by
  induction cmds generalizing s with
  | nil => exact Grows.refl s
  | cons cmd cmds ih =>
    rw [whole_cons]
    split_ifs
    · exact (grows_dispatch listStr s _).trans (ih _)
    · exact ih s

theorem grows_drainFuel (fuel : ℕ) (s : Session) : Grows s (drainFuel listStr fuel s) := by
  induction fuel generalizing s with
  | zero => exact Grows.refl s
  | succ fuel ih =>
    rw [drainFuel]
    split
    · exact (Grows.refl s).close
    · rename_i parts rest _
      have hd := (grows_dispatch listStr s parts).setBuffer rest
      rw [← dispatch_setBuffer] at hd
      dsimp only
      split_ifs
      · exact Grows.refl s
      · exact hd.trans (ih _)
      · exact hd

theorem grows_drain (s : Session) : Grows s (drain listStr s) := grows_drainFuel listStr _ s

theorem requests_handleChunk (s : Session) (chunk : Bytes) :
    s.requests <+: (handleChunk listStr s chunk).requests := by
  unfold handleChunk
  split_ifs
  · exact List.prefix_rfl
  · exact List.prefix_rfl
  · exact List.prefix_rfl
  · exact (grows_drain listStr (s.setBuffer (s.buffer ++ decodeIgnore chunk))).requests

theorem requests_handleClient (s : Session) (chunks : List Bytes) :
    s.requests <+: (handleClient listStr s chunks).requests := by
  induction chunks generalizing s with
  | nil => exact List.prefix_rfl
  | cons chunk chunks ih =>
    rw [handleClient_cons]
    exact (requests_handleChunk listStr s chunk).trans (ih _)

/-! ## A request that is cut -/

variable {cmd : List Str} {k : ℕ}

/-- The objects of the arguments, `None` from the `k`-th on. -/
def cutArgs (args : List Str) (k : ℕ) : List Value :=
  (args.take k).map .str ++ List.replicate (args.length - k) .none

theorem cutValue_cons (p : Str) (args : List Str) (k : ℕ) :
    cutValue (p :: args) (k + 1) = .list (.str p :: cutArgs args k) := by
  simp [cutValue, cutArgs]

theorem length_cutArgs {args : List Str} (h : k ≤ args.length) :
    (cutArgs args k).length = args.length := by
  simp only [cutArgs, List.length_append, List.length_map, List.length_take, List.length_replicate]
  omega

theorem take_cutArgs {args : List Str} {n : ℕ} (hn : n ≤ k) (hk : k ≤ args.length) :
    (cutArgs args k).take n = (args.map Value.str).take n := by
  rw [cutArgs, List.take_append_of_le_length (by simp; omega), ← List.map_take, List.take_take,
    Nat.min_eq_left hn, List.map_take]

theorem dispatchSet_congr (s : Session) {l l' : List Value} (h : l.take 2 = l'.take 2) :
    s.dispatchSet l = s.dispatchSet l' := by
  match l, l', h with
  | [], [], _ => rfl
  | [_], [_], _ => rfl
  | x :: y :: l, x' :: y' :: l', h =>
    simp only [List.take_succ_cons, List.take_zero, List.cons.injEq, and_true] at h
    obtain ⟨rfl, rfl⟩ := h
    rfl
  | [], _ :: _, h => simp at h
  | _ :: _, [], h => simp at h
  | [_], _ :: _ :: _, h => simp at h
  | _ :: _ :: _, [_], h => simp at h

theorem dispatchSet_of_length_lt (s : Session) {l : List Value} (h : l.length < 2) :
    s.dispatchSet l = s.dispatchSet [] := by
  match l, h with
  | [], _ => rfl
  | [_], _ => rfl

theorem dispatchGet_congr (s : Session) {l l' : List Value} (h : l.take 1 = l'.take 1) :
    s.dispatchGet listStr l = s.dispatchGet listStr l' := by
  match l, l', h with
  | [], [], _ => rfl
  | x :: l, x' :: l', h =>
    simp only [List.take_succ_cons, List.take_zero, List.cons.injEq, and_true] at h
    subst h
    rfl

theorem dispatchDel_congr (s : Session) {l l' : List Value} (h : l.take 1 = l'.take 1) :
    s.dispatchDel l = s.dispatchDel l' := by
  match l, l', h with
  | [], [], _ => rfl
  | x :: l, x' :: l', h =>
    simp only [List.take_succ_cons, List.take_zero, List.cons.injEq, and_true] at h
    subst h
    rfl

/-- A branch does not see what is missing beyond the arguments it looks at. -/
theorem dispatch_cutValue_of_used (s : Session) (hk : 0 < k) (hlen : k ≤ cmd.length)
    (hused : usedArgs cmd ≤ k) :
    dispatch listStr s (cutValue cmd k) = dispatch listStr s (cmdValue cmd) := by
  obtain ⟨k, rfl⟩ := Nat.exists_eq_succ_of_ne_zero hk.ne'
  cases cmd with
  | nil => simp at hlen
  | cons p args =>
    have hk' : k ≤ args.length := Nat.le_of_succ_le_succ hlen
    have hl := length_cutArgs hk'
    have hone : args.length = 0 ∨ 1 ≤ k → (cutArgs args k).take 1 = (args.map Value.str).take 1 := by
      rintro (h0 | h1)
      · rw [List.length_eq_zero_iff.mp h0]; simp [cutArgs]
      · exact take_cutArgs h1 hk'
    rw [cutValue_cons]
    change dispatchAction listStr s (upper p) (cutArgs args k) =
      dispatchAction listStr s (upper p) (args.map .str)
    unfold dispatchAction
    simp only [usedArgs] at hused
    by_cases hs : upper p = ['S', 'E', 'T']
    · rw [if_pos hs, if_pos hs]
      rw [if_pos hs] at hused
      by_cases h2 : 2 ≤ args.length
      · rw [if_pos h2] at hused
        exact dispatchSet_congr s (take_cutArgs (by omega) hk')
      · rw [dispatchSet_of_length_lt s (by omega),
          dispatchSet_of_length_lt s (l := args.map Value.str) (by rw [List.length_map]; omega)]
    · rw [if_neg hs, if_neg hs]
      rw [if_neg hs] at hused
      by_cases hg : upper p = ['G', 'E', 'T'] ∨ IsDelete (upper p)
      · rw [if_pos hg] at hused
        have h1 : args.length = 0 ∨ 1 ≤ k := by split_ifs at hused <;> omega
        rw [dispatchGet_congr listStr s (hone h1), dispatchDel_congr s (hone h1)]
      · rw [not_or] at hg
        rw [if_neg hg.1, if_neg hg.2, if_neg hg.1, if_neg hg.2]

theorem requests_dispatchGet {s : Session} {v : Value} {key : Key}
    (h : v.key s.server.serial = some key) (args : List Value) :
    (s.dispatchGet listStr (v :: args)).requests = s.requests ++ [.get key] := by
  simp only [dispatchGet, h]
  split <;> rfl

theorem requests_dispatchDel {s : Session} {v : Value} {key : Key}
    (h : v.key s.server.serial = some key) (args : List Value) :
    (s.dispatchDel (v :: args)).requests = s.requests ++ [.del key] := by
  simp only [dispatchDel, h]
  rfl

/-- A branch that looks at a missing argument makes a different request. -/
theorem dispatch_cutValue_of_lt (s : Session) (hk : 0 < k) (hused : k < usedArgs cmd) :
    ∃ r r', r ≠ r' ∧ (dispatch listStr s (cutValue cmd k)).requests = s.requests ++ [r] ∧
      (dispatch listStr s (cmdValue cmd)).requests = s.requests ++ [r'] := by
  obtain ⟨k, rfl⟩ := Nat.exists_eq_succ_of_ne_zero hk.ne'
  cases cmd with
  | nil => simp [usedArgs] at hused
  | cons p args =>
    rw [cutValue_cons]
    change ∃ r r', r ≠ r' ∧
      (dispatchAction listStr s (upper p) (cutArgs args k)).requests = s.requests ++ [r] ∧
      (dispatchAction listStr s (upper p) (args.map .str)).requests = s.requests ++ [r']
    unfold dispatchAction
    simp only [usedArgs] at hused
    by_cases hs : upper p = ['S', 'E', 'T']
    · rw [if_pos hs, if_pos hs]
      rw [if_pos hs] at hused
      have h2 : 2 ≤ args.length := by split_ifs at hused <;> omega
      rw [if_pos h2] at hused
      match args, h2, k, hused with
      | x :: y :: rest, _, 0, _ =>
        exact ⟨.set .none .none, .set (.str x) (.str y), by simp, rfl, rfl⟩
      | x :: y :: rest, _, 1, _ =>
        exact ⟨.set (.str x) .none, .set (.str x) (.str y), by simp, rfl, rfl⟩
    · rw [if_neg hs, if_neg hs]
      rw [if_neg hs] at hused
      by_cases hg : upper p = ['G', 'E', 'T'] ∨ IsDelete (upper p)
      · rw [if_pos hg] at hused
        have h1 : 1 ≤ args.length ∧ k = 0 := by split_ifs at hused <;> omega
        match args, h1 with
        | x :: rest, ⟨_, hk0⟩ =>
          subst hk0
          have hcut : cutArgs (x :: rest) 0 = .none :: List.replicate rest.length .none := rfl
          rw [hcut, List.map_cons]
          by_cases hget : upper p = ['G', 'E', 'T']
          · rw [if_pos hget, if_pos hget]
            exact ⟨.get .none, .get (.str x), by simp, requests_dispatchGet listStr rfl _,
              requests_dispatchGet listStr rfl _⟩
          · have hdel := hg.resolve_left hget
            rw [if_neg hget, if_neg hget, if_pos hdel, if_pos hdel]
            exact ⟨.del .none, .del (.str x), by simp, requests_dispatchDel rfl _,
              requests_dispatchDel rfl _⟩
      · rw [if_neg hg] at hused
        omega

/-! ## One round of the inner loop -/

theorem drain_of_incomplete {s : Session} {rest : Str} (h : parseResp s.buffer = some (.none, rest)) :
    drain listStr s = s := by
  rw [drain_eq, h]
  rfl

theorem drain_bulkText (s : Session) {e : Str} (he : IsAscii e) (hs : s.isOpen = true) (b : Str) :
    drain listStr (s.setBuffer (bulkText e ++ b)) = drain listStr (s.setBuffer b) := by
  rw [drain_eq, buffer_setBuffer, parseResp_bulkText he]
  have hd : dispatch listStr (s.setBuffer (bulkText e ++ b)) (.str e) =
    s.setBuffer (bulkText e ++ b) := rfl
  simp only [hd, isOpen_setBuffer, hs, Value.isNone, Bool.false_eq_true, if_false, if_true,
    setBuffer_setBuffer]

theorem drain_encodeReq (s : Session) (hcmd : AllAscii cmd) (b : Str) :
    drain listStr (s.setBuffer (encodeReq cmd ++ b)) =
      if (dispatch listStr s (cmdValue cmd)).isOpen then
        drain listStr ((dispatch listStr s (cmdValue cmd)).setBuffer b)
      else (dispatch listStr s (cmdValue cmd)).setBuffer b := by
  rw [drain_eq, buffer_setBuffer, parseResp_encodeReq hcmd]
  simp only [Value.isNone, Bool.false_eq_true, if_false, dispatch_setBuffer, isOpen_setBuffer,
    setBuffer_setBuffer]
  rfl

/-- A request that is cut after some arguments is dispatched at once. -/
theorem drain_cut (s : Session) {done todo : List Str} {e q : Str}
    (hcmd : AllAscii (done ++ e :: todo)) (hdone : done ≠ []) (hq : q <+: bulkText e)
    (hqne : q ≠ bulkText e) :
    drain listStr (s.setBuffer (arrayHeader (done ++ e :: todo).length ++
      (done.flatMap bulkText ++ q))) =
      (dispatch listStr s (cutValue (done ++ e :: todo) done.length)).setBuffer q := by
  have hstop : parseResp q = some (.none, q) := parseResp_bulk_cut (hcmd e (by simp)) hq hqne
  have hdoneA : AllAscii done := fun a ha => hcmd a (List.mem_append_left _ ha)
  have hlen : (done ++ e :: todo).length = done.length + (todo.length + 1) := by simp
  have hval : cutValue (done ++ e :: todo) done.length =
      .list (done.map .str ++ List.replicate (todo.length + 1) .none) := by
    simp [cutValue]
  rw [drain_eq, buffer_setBuffer, hlen, parseResp_cut hdoneA hdone (todo.length + 1) hstop, hval]
  simp only [Value.isNone, Bool.false_eq_true, if_false, dispatch_setBuffer, isOpen_setBuffer,
    setBuffer_setBuffer]
  rw [drain_of_incomplete listStr (by rw [buffer_setBuffer]; exact hstop), ite_self]

/-! ## Harmless cuts -/

/-- A chunk that begins `n` characters into a request does no harm: the arguments that the request
uses are complete, or none is, and the chunk is not taken for a health check. -/
def CutWithin (s : Session) (cmd : List Str) (n : ℕ) (chunk : Bytes) : Prop :=
  (completeArgs cmd (n - (arrayHeader cmd.length).length) = 0 ∨
    usedArgs cmd ≤ completeArgs cmd (n - (arrayHeader cmd.length).length)) ∧
  (IsHttp chunk → completeArgs cmd (n - (arrayHeader cmd.length).length) ≠ 0 ∧
    (dispatch listStr s (cmdValue cmd)).isOpen = false)

instance (s : Session) (cmd : List Str) (n : ℕ) (chunk : Bytes) :
    Decidable (CutWithin listStr s cmd n chunk) := by
  unfold CutWithin
  infer_instance

/-- A chunk that begins `n` characters into the requests does no harm, or is not received because
the connection has ended by then. -/
def CutOk : Session → List (List Str) → ℕ → Bytes → Prop
  | _, [], _, _ => True
  | s, cmd :: cmds, n, chunk =>
    s.isOpen = true →
      if (encodeReq cmd).length ≤ n then
        CutOk (dispatch listStr s (cmdValue cmd)) cmds (n - (encodeReq cmd).length) chunk
      else CutWithin listStr s cmd n chunk

instance decidableCutOk : (s : Session) → (cmds : List (List Str)) → (n : ℕ) → (chunk : Bytes) →
    Decidable (CutOk listStr s cmds n chunk)
  | _, [], _, _ => isTrue trivial
  | s, cmd :: cmds, n, chunk =>
    have := decidableCutOk (dispatch listStr s (cmdValue cmd)) cmds (n - (encodeReq cmd).length) chunk
    inferInstanceAs (Decidable (s.isOpen = true → if (encodeReq cmd).length ≤ n then
      CutOk listStr (dispatch listStr s (cmdValue cmd)) cmds (n - (encodeReq cmd).length) chunk
      else CutWithin listStr s cmd n chunk))

/-- The same, when the arguments `es` of a request that was already dispatched come first. -/
def TailOk (s : Session) (es : List Str) (cmds : List (List Str)) (n : ℕ) (chunk : Bytes) : Prop :=
  if n < (es.flatMap bulkText).length then ¬ IsHttp chunk
  else CutOk listStr s cmds (n - (es.flatMap bulkText).length) chunk

/-- The same requests and the same bytes sent. -/
def SameOutcome (s s' : Session) : Prop := s.requests = s'.requests ∧ s.sent = s'.sent

/-- The chunks `ts` on top of the buffer `b` have the outcome of `whole` exactly when they do no
harm. -/
def Faithful (ts : List Str) (s : Session) (es : List Str) (cmds : List (List Str)) (b : Str) :
    Prop :=
  SameOutcome (handleClient listStr (drain listStr (s.setBuffer b)) (ts.map encodeUtf8))
      (whole listStr s cmds) ↔
    ∀ P t Q, ts = P ++ t :: Q →
      TailOk listStr s es cmds (b.length + P.flatten.length) (encodeUtf8 t)

theorem cutOk_of_closed {s : Session} (h : s.isOpen = false) (cmds : List (List Str)) (n : ℕ)
    (chunk : Bytes) : CutOk listStr s cmds n chunk := by
  cases cmds with
  | nil => trivial
  | cons cmd cmds => exact fun ho => absurd (ho.symm.trans h) (by decide)

/-- Every split of `t :: ts` around an element, the first one apart. -/
theorem forall_split_cons {α : Type} {t : α} {ts : List α} {C : List α → α → Prop} :
    (∀ P t' Q, t :: ts = P ++ t' :: Q → C P t') ↔
      C [] t ∧ ∀ P t' Q, ts = P ++ t' :: Q → C (t :: P) t' := by
  constructor
  · intro h
    exact ⟨h [] t ts rfl, fun P t' Q e => h (t :: P) t' Q (by rw [e]; rfl)⟩
  · rintro ⟨h₁, h₂⟩ P t' Q e
    cases P with
    | nil => cases e; exact h₁
    | cons p P =>
      obtain ⟨rfl, e'⟩ := List.cons.inj e
      exact h₂ P t' Q e'

section Faithful

variable {ts : List Str} {s : Session} {es : List Str} {cmds : List (List Str)} {b : Str}

/-- The buffer is incomplete, and the next chunk comes. -/
theorem faithful_chunk {t : Str} (hs : s.isOpen = true) (ht : t ≠ [])
    (hstop : parseResp b = some (.none, b))
    (hok : TailOk listStr s es cmds b.length (encodeUtf8 t) ↔ ¬ IsHttp (encodeUtf8 t))
    (h : Faithful listStr ts s es cmds (b ++ t)) : Faithful listStr (t :: ts) s es cmds b := by
  have hne : encodeUtf8 t ≠ [] := by
    intro e
    have := length_le_length_encodeUtf8 t
    rw [e, List.length_nil, Nat.le_zero, List.length_eq_zero_iff] at this
    exact ht this
  unfold Faithful at h ⊢
  rw [drain_of_incomplete listStr (by rw [buffer_setBuffer]; exact hstop), List.map_cons,
    handleClient_cons, handleChunk, if_neg (by rw [isOpen_setBuffer, hs]; decide), if_neg hne,
    forall_split_cons]
  simp only [List.flatten_nil, List.length_nil, Nat.add_zero, hok]
  by_cases hhttp : IsHttp (encodeUtf8 t)
  · -- the health check answers, which no request does
    rw [if_pos hhttp, handleClient_of_closed listStr rfl]
    refine iff_of_false (fun ⟨_, hsent⟩ => ?_) fun hr => hr.1 hhttp
    obtain ⟨r, hr, hhead⟩ := (grows_whole listStr s cmds).sent
    rw [hr] at hsent
    have := List.append_cancel_left hsent
    exact hhead (this ▸ rfl)
  · rw [if_neg hhttp, buffer_setBuffer, setBuffer_setBuffer, decodeIgnore_encodeUtf8_self, h]
    refine ⟨fun hr => ⟨hhttp, fun P t' Q e => ?_⟩, fun hr P t' Q e => ?_⟩
    · have := hr P t' Q e
      rwa [List.length_append, Nat.add_assoc, ← List.length_append, ← List.flatten_cons] at this
    · have := hr.2 P t' Q e
      rwa [List.length_append, Nat.add_assoc, ← List.length_append, ← List.flatten_cons]

/-- An argument of a request that was already dispatched. -/
theorem faithful_bulkText {e : Str} (he : IsAscii e) (hs : s.isOpen = true)
    (h : Faithful listStr ts s es cmds b) :
    Faithful listStr ts s (e :: es) cmds (bulkText e ++ b) := by
  unfold Faithful at h ⊢
  rw [drain_bulkText listStr s he hs, h]
  refine forall_congr' fun P => forall_congr' fun t => forall_congr' fun Q => imp_congr_right fun _ => ?_
  simp only [TailOk, List.flatMap_cons, List.length_append, Nat.add_assoc, Nat.add_sub_add_left,
    Nat.add_lt_add_iff_left]

/-- A complete request. -/
theorem faithful_encodeReq (hcmd : AllAscii cmd) (hs : s.isOpen = true)
    (h : (dispatch listStr s (cmdValue cmd)).isOpen = true →
      Faithful listStr ts (dispatch listStr s (cmdValue cmd)) [] cmds b) :
    Faithful listStr ts s [] (cmd :: cmds) (encodeReq cmd ++ b) := by
  have hok : ∀ n chunk, TailOk listStr s [] (cmd :: cmds) ((encodeReq cmd).length + n) chunk ↔
      TailOk listStr (dispatch listStr s (cmdValue cmd)) [] cmds n chunk := by
    intro n chunk
    simp only [TailOk, List.flatMap_nil, List.length_nil, Nat.not_lt_zero, if_false, Nat.sub_zero,
      CutOk, hs, true_imp_iff]
    rw [if_pos (by omega), Nat.add_sub_cancel_left]
  unfold Faithful at h ⊢
  simp only [List.length_append, Nat.add_assoc, hok]
  rw [drain_encodeReq listStr s hcmd, whole_cons, if_pos hs]
  by_cases ho : (dispatch listStr s (cmdValue cmd)).isOpen = true
  · rw [if_pos ho]
    exact h ho
  · have hclosed := Bool.eq_false_iff.mpr ho
    rw [if_neg ho, whole_of_closed listStr hclosed,
      handleClient_of_closed listStr (s := (dispatch listStr s (cmdValue cmd)).setBuffer b) hclosed]
    refine iff_of_true ⟨rfl, rfl⟩ fun P t Q _ => ?_
    rw [TailOk, List.flatMap_nil, List.length_nil, if_neg (Nat.not_lt_zero _)]
    exact cutOk_of_closed listStr hclosed _ _ _

/-- What a cut after some arguments leaves to check. -/
theorem cutOk_cut {done todo : List Str} {e q : Str} (hs : s.isOpen = true) (n : ℕ)
    (chunk : Bytes) :
    CutOk listStr s ((done ++ e :: todo) :: cmds)
        ((arrayHeader (done ++ e :: todo).length ++ (done.flatMap bulkText ++ q)).length + n) chunk ↔
      if q.length + n < ((e :: todo).flatMap bulkText).length then
        (done.length + completeArgs (e :: todo) (q.length + n) = 0 ∨
          usedArgs (done ++ e :: todo) ≤ done.length + completeArgs (e :: todo) (q.length + n)) ∧
        (IsHttp chunk → done.length + completeArgs (e :: todo) (q.length + n) ≠ 0 ∧
          (dispatch listStr s (cmdValue (done ++ e :: todo))).isOpen = false)
      else CutOk listStr (dispatch listStr s (cmdValue (done ++ e :: todo))) cmds
        (q.length + n - ((e :: todo).flatMap bulkText).length) chunk := by
  have hlen : (encodeReq (done ++ e :: todo)).length =
      (arrayHeader (done ++ e :: todo).length).length + (done.flatMap bulkText).length +
        ((e :: todo).flatMap bulkText).length := by
    simp only [encodeReq, List.flatMap_append, List.length_append]
    omega
  have hb : (arrayHeader (done ++ e :: todo).length ++ (done.flatMap bulkText ++ q)).length + n =
      (arrayHeader (done ++ e :: todo).length).length + (done.flatMap bulkText).length +
        (q.length + n) := by
    simp only [List.length_append]
    omega
  have hk : completeArgs (done ++ e :: todo) ((done.flatMap bulkText).length + (q.length + n)) =
      done.length + completeArgs (e :: todo) (q.length + n) := completeArgs_append ..
  rw [CutOk, hb, hlen]
  simp only [hs, true_imp_iff]
  by_cases hn : q.length + n < ((e :: todo).flatMap bulkText).length
  · rw [if_neg (by omega), if_pos hn, CutWithin, Nat.add_assoc (arrayHeader _).length,
      Nat.add_sub_cancel_left, hk]
  · rw [if_pos (by omega), if_neg hn, Nat.add_sub_add_left]

/-- A request that is cut after some arguments. -/
theorem faithful_cut {done todo : List Str} {e q : Str} (hcmd : AllAscii (done ++ e :: todo))
    (hs : s.isOpen = true) (hdone : done ≠ []) (hq : q <+: bulkText e) (hqne : q ≠ bulkText e)
    (hts : ts ≠ [])
    (h : (dispatch listStr s (cmdValue (done ++ e :: todo))).isOpen = true →
      Faithful listStr ts (dispatch listStr s (cmdValue (done ++ e :: todo))) (e :: todo) cmds q) :
    Faithful listStr ts s [] ((done ++ e :: todo) :: cmds)
      (arrayHeader (done ++ e :: todo).length ++ (done.flatMap bulkText ++ q)) := by
  have hstop : parseResp q = some (.none, q) := parseResp_bulk_cut (hcmd e (by simp)) hq hqne
  have hqlt : q.length < (bulkText e).length :=
    lt_of_le_of_ne hq.length_le fun he => hqne (hq.eq_of_length he)
  have hpos := List.length_pos_iff.mpr hdone
  have htail : ∀ n chunk, TailOk listStr s [] ((done ++ e :: todo) :: cmds) n chunk ↔
      CutOk listStr s ((done ++ e :: todo) :: cmds) n chunk := by
    intro n chunk
    rw [TailOk, List.flatMap_nil, List.length_nil, if_neg (Nat.not_lt_zero _), Nat.sub_zero]
  unfold Faithful at h ⊢
  rw [drain_cut listStr s hcmd hdone hq hqne, whole_cons, if_pos hs]
  simp only [htail]
  by_cases hused : usedArgs (done ++ e :: todo) ≤ done.length
  · rw [dispatch_cutValue_of_used listStr s hpos (by simp) hused]
    simp only [cutOk_cut listStr hs]
    by_cases ho : (dispatch listStr s (cmdValue (done ++ e :: todo))).isOpen = true
    · -- the missing arguments are skipped as they arrive
      rw [← drain_of_incomplete listStr (s := (dispatch listStr s _).setBuffer q)
        (by rw [buffer_setBuffer]; exact hstop), h ho]
      refine forall_congr' fun P => forall_congr' fun t => forall_congr' fun Q =>
        imp_congr_right fun _ => ?_
      rw [TailOk]
      split_ifs with hn
      · constructor
        · intro hhttp
          exact ⟨Or.inr (by omega), fun hh => absurd hh hhttp⟩
        · rintro ⟨-, hhttp⟩ hh
          exact absurd (ho.symm.trans (hhttp hh).2) (by decide)
      · exact Iff.rfl
    · have hclosed := Bool.eq_false_iff.mpr ho
      rw [whole_of_closed listStr hclosed,
        handleClient_of_closed listStr (s := (dispatch listStr s _).setBuffer q) hclosed]
      refine iff_of_true ⟨rfl, rfl⟩ fun P t Q _ => ?_
      split_ifs
      · exact ⟨Or.inr (by omega), fun _ => ⟨by omega, hclosed⟩⟩
      · exact cutOk_of_closed listStr hclosed _ _ _
  · -- the request is made with `None` for an argument that is used
    rw [not_le] at hused
    obtain ⟨r, r', hr, hcut, hwhole⟩ := dispatch_cutValue_of_lt listStr s hpos hused
    refine iff_of_false (fun hsame => hr ?_) fun hok => ?_
    · have h₁ := requests_handleClient listStr
        ((dispatch listStr s (cutValue (done ++ e :: todo) done.length)).setBuffer q)
        (ts.map encodeUtf8)
      have h₂ := (grows_whole listStr (dispatch listStr s (cmdValue (done ++ e :: todo)))
        cmds).requests
      rw [hsame.1] at h₁
      change (dispatch listStr s (cutValue (done ++ e :: todo) done.length)).requests <+: _ at h₁
      rw [hcut] at h₁
      rw [hwhole] at h₂
      have := List.prefix_of_prefix_length_le h₁ h₂ (by simp)
      have := this.eq_of_length (by simp)
      exact List.singleton_inj.mp (List.append_cancel_left this)
    · obtain ⟨t, ts, rfl⟩ := List.exists_cons_of_ne_nil hts
      have hlt : q.length < ((e :: todo).flatMap bulkText).length := by
        rw [List.flatMap_cons, List.length_append]
        omega
      have hfirst := hok [] t ts rfl
      rw [List.flatten_nil, List.length_nil, cutOk_cut listStr hs, Nat.add_zero, if_pos hlt,
        completeArgs_of_lt hqlt] at hfirst
      omega

end Faithful

/-! ## The stream -/

/-- A proper prefix leaves another chunk to come. -/
theorem exists_chunk {b p rest : Str} {ts : List Str} (h : b ++ ts.flatten = p ++ rest)
    (hlt : b.length < p.length) : ∃ t ts', ts = t :: ts' := by
  cases ts with
  | nil =>
    have := congrArg List.length h
    simp only [List.flatten_nil, List.append_nil, List.length_append] at this
    omega
  | cons t ts' => exact ⟨t, ts', rfl⟩

/-- The chunks after the first do what they should on top of any buffer. -/
def Next (ts : List Str) : Prop :=
  ∀ t ts', ts = t :: ts' → ∀ (cmds : List (List Str)) (es : List Str) (s : Session) (b : Str),
    (∀ cmd ∈ cmds, AllAscii cmd) → AllAscii es → s.isOpen = true →
      b ++ ts'.flatten = es.flatMap bulkText ++ cmds.flatMap encodeReq →
        Faithful listStr ts' s es cmds b

section Stream

variable {ts : List Str} {cmds : List (List Str)}

/-- One more incomplete buffer. -/
theorem Next.stop (h : Next listStr ts) (hts : ∀ t ∈ ts, t ≠ []) (hcmds : ∀ cmd ∈ cmds, AllAscii cmd)
    {es : List Str} (hes : AllAscii es) {s : Session} (hs : s.isOpen = true) {b p rest : Str}
    (hb : b ++ ts.flatten = es.flatMap bulkText ++ cmds.flatMap encodeReq)
    (hp : b ++ ts.flatten = p ++ rest) (hlt : b.length < p.length)
    (hstop : parseResp b = some (.none, b))
    (hok : ∀ chunk, TailOk listStr s es cmds b.length chunk ↔ ¬ IsHttp chunk) :
    Faithful listStr ts s es cmds b := by
  obtain ⟨t, ts', rfl⟩ := exists_chunk hp hlt
  refine faithful_chunk listStr hs (hts t List.mem_cons_self) hstop (hok _) ?_
  refine h t ts' rfl cmds es s (b ++ t) hcmds hes hs ?_
  rw [← hb, List.flatten_cons, List.append_assoc]

/-- The arguments of a request that was already dispatched. -/
theorem faithful_args (h : Next listStr ts) (hts : ∀ t ∈ ts, t ≠ [])
    (hcmds : ∀ cmd ∈ cmds, AllAscii cmd) {s : Session} (hs : s.isOpen = true)
    (hbase : ∀ b, b ++ ts.flatten = cmds.flatMap encodeReq → Faithful listStr ts s [] cmds b)
    {es : List Str} (hes : AllAscii es) {b : Str}
    (hb : b ++ ts.flatten = es.flatMap bulkText ++ cmds.flatMap encodeReq) :
    Faithful listStr ts s es cmds b := by
  induction es generalizing b with
  | nil => exact hbase b hb
  | cons e es ih =>
    have he := hes e List.mem_cons_self
    have hes' : AllAscii es := fun a ha => hes a (List.mem_cons_of_mem _ ha)
    have hb' := hb
    rw [List.flatMap_cons, List.append_assoc] at hb'
    by_cases hlen : (bulkText e).length ≤ b.length
    · obtain ⟨b', rfl⟩ := List.prefix_of_prefix_length_le ⟨_, rfl⟩ ⟨_, hb'⟩ hlen
      rw [List.append_assoc] at hb'
      exact faithful_bulkText listStr he hs (ih hes' (List.append_cancel_left hb'))
    · have hlt : b.length < (bulkText e).length := by omega
      have hpre : b <+: bulkText e := List.prefix_of_prefix_length_le ⟨_, hb'⟩ ⟨_, rfl⟩ hlt.le
      have hstop := parseResp_bulk_cut he hpre (fun e' => by rw [e'] at hlt; omega)
      refine h.stop listStr hts hcmds hes hs hb hb' hlt hstop fun chunk => ?_
      rw [TailOk, if_pos (by rw [List.flatMap_cons, List.length_append]; omega)]

/-- The requests, one after the other. -/
theorem faithful_cmds (h : Next listStr ts) (hts : ∀ t ∈ ts, t ≠ [])
    (hcmds : ∀ cmd ∈ cmds, AllAscii cmd) {s : Session} (hs : s.isOpen = true) {b : Str}
    (hb : b ++ ts.flatten = cmds.flatMap encodeReq) : Faithful listStr ts s [] cmds b := by
  induction cmds generalizing s b with
  | nil =>
    obtain ⟨rfl, hflat⟩ := List.append_eq_nil_iff.mp hb
    have hnil : ts = [] := List.eq_nil_iff_forall_not_mem.mpr fun t ht =>
      hts t ht (List.flatten_eq_nil_iff.mp hflat t ht)
    subst hnil
    have hdrain : drain listStr (s.setBuffer []) = s.setBuffer [] := by
      rw [drain_of_incomplete listStr (by rw [buffer_setBuffer, parseResp_eq]; rfl)]
    rw [Faithful, hdrain]
    refine iff_of_true ⟨rfl, rfl⟩ fun P t Q e => ?_
    have := congrArg List.length e
    simp at this
  | cons cmd cmds ih =>
    have hcmd := hcmds cmd List.mem_cons_self
    have hcmds' : ∀ c ∈ cmds, AllAscii c := fun c hc => hcmds c (List.mem_cons_of_mem _ hc)
    have hb' := hb
    rw [List.flatMap_cons] at hb'
    have htail : ∀ chunk, b.length < (encodeReq cmd).length →
        completeArgs cmd (b.length - (arrayHeader cmd.length).length) = 0 →
        (TailOk listStr s [] (cmd :: cmds) b.length chunk ↔ ¬ IsHttp chunk) := by
      intro chunk hlt hk
      rw [TailOk, List.flatMap_nil, List.length_nil, if_neg (Nat.not_lt_zero _), Nat.sub_zero, CutOk,
        if_neg (by omega), CutWithin, hk]
      simp [hs]
    by_cases hlen : (encodeReq cmd).length ≤ b.length
    · obtain ⟨b', rfl⟩ := List.prefix_of_prefix_length_le ⟨_, rfl⟩ ⟨_, hb'⟩ hlen
      rw [List.append_assoc] at hb'
      refine faithful_encodeReq listStr hcmd hs fun ho => ?_
      exact ih hcmds' ho (List.append_cancel_left hb')
    · have hlt : b.length < (encodeReq cmd).length := by omega
      have hpre : b <+: encodeReq cmd := List.prefix_of_prefix_length_le ⟨_, hb'⟩ ⟨_, rfl⟩ hlt.le
      have hne : b ≠ encodeReq cmd := fun e => by rw [e] at hlt; omega
      rcases prefix_append_cases hpre hne with ⟨hq, hqne⟩ | ⟨r, rfl, hr, hrne⟩
      · refine h.stop listStr hts hcmds (fun _ ha => absurd ha List.not_mem_nil) hs hb hb' hlt
          (parseResp_header_cut hq hqne) fun chunk => htail chunk hlt ?_
        rw [Nat.sub_eq_zero_of_le hq.length_le, completeArgs_zero]
      · obtain ⟨done, e, todo, q, rfl, rfl, hq, hqne, hk⟩ := exists_cut hr hrne
        by_cases hdone : done = []
        · subst hdone
          have hstop := parseResp_bulk_cut (hcmd e (by simp)) hq hqne
          refine h.stop listStr hts hcmds (fun _ ha => absurd ha List.not_mem_nil) hs hb hb' hlt
            (parseResp_cut_zero (by simp) hstop) fun chunk => htail chunk hlt ?_
          rw [List.length_append, Nat.add_sub_cancel_left]
          exact hk
        · obtain ⟨t, ts', rfl⟩ := exists_chunk hb' hlt
          refine faithful_cut listStr hcmd hs hdone hq hqne (List.cons_ne_nil _ _) fun ho => ?_
          refine faithful_args listStr h hts hcmds' ho (fun b hb => ih hcmds' ho hb)
            (fun a ha => hcmd a (List.mem_append_right _ ha)) ?_
          have hsplit : encodeReq (done ++ e :: todo) = arrayHeader (done ++ e :: todo).length ++
              (done.flatMap bulkText ++ (e :: todo).flatMap bulkText) := by
            rw [encodeReq, List.flatMap_append]
          rw [hsplit] at hb'
          simp only [List.append_assoc] at hb' ⊢
          exact List.append_cancel_left (List.append_cancel_left hb')

end Stream

/-- **The chunks on top of any buffer.** By induction on the chunks, and for each on the requests
and the arguments that are still to come. -/
theorem next (ts : List Str) (hts : ∀ t ∈ ts, t ≠ []) : Next listStr ts := by
  induction ts with
  | nil => intro t ts' e; cases e
  | cons t ts ih =>
    intro t' ts' e cmds es s b hcmds hes hs hb
    cases e
    have hts' : ∀ t ∈ ts, t ≠ [] := fun t ht => hts t (List.mem_cons_of_mem _ ht)
    exact faithful_args listStr (ih hts') hts' hcmds hs
      (fun b hb => faithful_cmds listStr (ih hts') hts' hcmds hs hb) hes hb

theorem not_isHttp_encodeReq (cmd : List Str) : ¬ IsHttp (encodeUtf8 (encodeReq cmd)) := by
  have hcons : ∃ bs, encodeUtf8 (encodeReq cmd) = 42 :: bs := ⟨_, rfl⟩
  obtain ⟨bs, hbs⟩ := hcons
  have hget : encodeUtf8 ['G', 'E', 'T', ' '] = [71, 69, 84, 32] := rfl
  have hhead : encodeUtf8 ['H', 'E', 'A', 'D', ' '] = [72, 69, 65, 68, 32] := rfl
  rw [IsHttp, hbs, hget, hhead, List.cons_prefix_cons, List.cons_prefix_cons]
  rintro (⟨h, -⟩ | ⟨h, -⟩) <;> exact absurd h (by decide)

/-- A request that arrives by itself. -/
theorem handleChunk_encodeReq (hcmd : AllAscii cmd) (s : Session) :
    handleChunk listStr (s.setBuffer []) (encodeUtf8 (encodeReq cmd)) =
      (if s.isOpen then dispatch listStr s (cmdValue cmd) else s).setBuffer [] := by
  cases hs : s.isOpen with
  | false => rw [handleChunk, isOpen_setBuffer, if_pos hs, if_neg Bool.false_ne_true]
  | true =>
    have hne : encodeUtf8 (encodeReq cmd) ≠ [] := List.cons_ne_nil 42 _
    have hnil : parseResp [] = some (.none, []) := by rw [parseResp_eq]; rfl
    have hcut := drain_encodeReq listStr s hcmd []
    rw [drain_of_incomplete listStr (s := (dispatch listStr s (cmdValue cmd)).setBuffer []) hnil,
      ite_self, List.append_nil] at hcut
    rw [handleChunk, isOpen_setBuffer, hs, if_neg (by decide), if_neg hne,
      if_neg (not_isHttp_encodeReq cmd), buffer_setBuffer, setBuffer_setBuffer,
      decodeIgnore_encodeUtf8_self, List.nil_append, hcut, if_pos rfl]

/-- Requests that arrive by themselves. -/
theorem handleClient_map_encodeReq {cmds : List (List Str)} (hcmds : ∀ cmd ∈ cmds, AllAscii cmd)
    (s : Session) : handleClient listStr (s.setBuffer [])
      (cmds.map fun cmd => encodeUtf8 (encodeReq cmd)) = (whole listStr s cmds).setBuffer [] := by
  induction cmds generalizing s with
  | nil => rfl
  | cons cmd cmds ih =>
    have hcmd := hcmds cmd List.mem_cons_self
    have hcmds' : ∀ c ∈ cmds, AllAscii c := fun c hc => hcmds c (List.mem_cons_of_mem _ hc)
    have hchunk : handleChunk listStr (s.setBuffer []) (encodeUtf8 (encodeReq cmd)) =
        (if s.isOpen then dispatch listStr s (cmdValue cmd) else s).setBuffer [] :=
      handleChunk_encodeReq listStr hcmd s
    rw [List.map_cons, handleClient_cons, hchunk, ih hcmds', whole_cons]

/-- **The command stream and TCP.** The requests made and the bytes sent do not depend on the cuts
exactly when every cut is harmless. -/
theorem handleClient_eq_whole_iff (server : LruServer) (cmds : List (List Str))
    (chunks : List Bytes) (hcmds : ∀ cmd ∈ cmds, AllAscii cmd)
    (hchunks : ∀ chunk ∈ chunks, chunk ≠ [])
    (hflat : chunks.flatten = encodeUtf8 (cmds.flatMap encodeReq)) :
    SameOutcome (handleClient listStr (connect server) chunks)
        (handleClient listStr (connect server) (cmds.map fun cmd => encodeUtf8 (encodeReq cmd))) ↔
      ∀ P chunk Q, chunks = P ++ chunk :: Q →
        CutOk listStr (connect server) cmds P.flatten.length chunk := by
  have hascii : IsAscii (cmds.flatMap encodeReq) := fun c hc => by
    obtain ⟨cmd, hcmd, hm⟩ := List.mem_flatMap.mp hc
    exact isAscii_encodeReq (hcmds cmd hcmd) c hm
  obtain ⟨ts, rfl, hts⟩ := exists_pieces hascii hflat
  have hne : ∀ t ∈ ts, t ≠ [] := by
    rintro t ht rfl
    exact hchunks _ (List.mem_map_of_mem ht) rfl
  have hF := faithful_cmds listStr (next listStr ts hne) hne hcmds (s := connect server) rfl (b := [])
    hts
  have hconn : (connect server).setBuffer [] = connect server := rfl
  have hdrain : drain listStr (connect server) = connect server :=
    drain_of_incomplete listStr (by rw [parseResp_eq]; rfl)
  have hwhole := handleClient_map_encodeReq listStr hcmds (connect server)
  rw [hconn] at hwhole
  rw [Faithful, hconn, hdrain] at hF
  rw [hwhole]
  refine Iff.trans hF ?_
  have hlen : ∀ {P Q : List Str}, ts = P ++ Q → (P.map encodeUtf8).flatten.length = P.flatten.length := by
    rintro P Q rfl
    rw [flatten_map_encodeUtf8, length_encodeUtf8_eq_iff]
    rw [← hts, List.flatten_append, isAscii_append] at hascii
    exact hascii.1
  have htail : ∀ n chunk, TailOk listStr (connect server) [] cmds n chunk ↔
      CutOk listStr (connect server) cmds n chunk := fun n chunk => by
    rw [TailOk, List.flatMap_nil, List.length_nil, if_neg (Nat.not_lt_zero _), Nat.sub_zero]
  simp only [List.length_nil, Nat.zero_add, htail]
  constructor
  · intro h P chunk Q e
    obtain ⟨P', R, rfl, rfl, hR⟩ := List.map_eq_append_iff.mp e
    obtain ⟨t, Q', rfl, rfl, rfl⟩ := List.map_eq_cons_iff.mp hR
    rw [hlen rfl]
    exact h P' t Q' rfl
  · intro h P t Q e
    rw [← hlen e]
    exact h (P.map encodeUtf8) (encodeUtf8 t) (Q.map encodeUtf8) (by rw [e]; simp)

/-- A `SET`, cut after the first `n` characters. -/
def setCutAt (n : ℕ) : List Bytes :=
  [encodeUtf8 ((encodeReq [['S', 'E', 'T'], ['k'], ['v']]).take n),
    encodeUtf8 ((encodeReq [['S', 'E', 'T'], ['k'], ['v']]).drop n)]

/-- A cut inside the header does no harm. -/
theorem setCutAt_two : SameOutcome
    (handleClient (fun _ => []) (connect (LruServer.init 2)) (setCutAt 2))
    (handleClient (fun _ => []) (connect (LruServer.init 2))
      ([[['S', 'E', 'T'], ['k'], ['v']]].map fun cmd => encodeUtf8 (encodeReq cmd))) := by
  have hcmds : ∀ cmd ∈ [[['S', 'E', 'T'], ['k'], ['v']]], AllAscii cmd := by
    simp [AllAscii, IsAscii]
  have hflat : (setCutAt 2).flatten =
      encodeUtf8 ([[['S', 'E', 'T'], ['k'], ['v']]].flatMap encodeReq) := by
    simp only [setCutAt, List.flatten_cons, List.flatten_nil, List.append_nil, ← encodeUtf8_append,
      List.take_append_drop, List.flatMap_cons, List.flatMap_nil]
  have hne : ∀ chunk ∈ setCutAt 2, chunk ≠ [] := by
    rw [setCutAt, List.forall_mem_cons, List.forall_mem_singleton]
    exact ⟨List.cons_ne_nil 42 _, List.cons_ne_nil 13 _⟩
  refine (handleClient_eq_whole_iff _ _ _ (setCutAt 2) hcmds hne hflat).mpr ?_
  rw [setCutAt, forall_split_cons, forall_split_cons]
  refine ⟨by decide, by decide, fun P t Q e => ?_⟩
  have := congrArg List.length e
  simp at this

/-- A cut after the first argument sets `None` to `None`. -/
theorem setCutAt_thirteen : ¬ SameOutcome
    (handleClient (fun _ => []) (connect (LruServer.init 2)) (setCutAt 13))
    (handleClient (fun _ => []) (connect (LruServer.init 2))
      ([[['S', 'E', 'T'], ['k'], ['v']]].map fun cmd => encodeUtf8 (encodeReq cmd))) := by
  rintro ⟨h, -⟩
  have h' : [Request.set Key.none Value.none] = [.set (.str ['k']) (.str ['v'])] := h
  simp at h'

end Session

end JobSystem
