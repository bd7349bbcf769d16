import JobSystem.Cache.Pool

/-!
# Calls of the cache, one at a time

* `handleChunk_bytes`: the handler on one request;
* `Quiet`, `Waits`, `PhaseOk`: a connection between calls, one with a request under way, and the phases;
* `Tidy`: the invariant; `tidy_*`: each step keeps it;
* **`linearizable`**: the calls of a calm run are explained by the order in which the handlers get to
  the store, and every pooled connection is quiet.
-/

namespace JobSystem

open PyText

/-! ## One request -/

theorem CacheCall.allAscii_cmd (call : CacheCall) : AllAscii call.cmd := by
  have hname : ∀ a ∈ [['S', 'E', 'T'], ['G', 'E', 'T'], ['D', 'E', 'L']], IsAscii a := by
    intro a ha
    refine (length_encodeUtf8_eq_iff a).mp ?_
    fin_cases ha <;> rfl
  have hnil : AllAscii [] := fun _ h => absurd h List.not_mem_nil
  cases call with
  | set key value =>
    exact List.forall_mem_cons.mpr ⟨hname _ (by simp), List.forall_mem_cons.mpr ⟨key.ascii,
      List.forall_mem_cons.mpr ⟨value.ascii, hnil⟩⟩⟩
  | get key =>
    exact List.forall_mem_cons.mpr ⟨hname _ (by simp), List.forall_mem_cons.mpr ⟨key.ascii, hnil⟩⟩
  | delete key =>
    exact List.forall_mem_cons.mpr ⟨hname _ (by simp), List.forall_mem_cons.mpr ⟨key.ascii, hnil⟩⟩

theorem CacheCall.bytes_ne_nil (call : CacheCall) : call.bytes ≠ [] := by
  cases call <;> exact List.cons_ne_nil _ _

/-- The reply to a call, from a store of ASCII text. -/
theorem exists_reply {s : LruStore Key Value} (h : AsciiStore s) (call : CacheCall) :
    ∃ r : Reply, r.value = call.result s ∧ (∀ unread, finish r.value [] unread =
      .returned r.value [] unread) ∧ AsciiStore (s.serve call.request).1 ∧
      ∀ (listStr : List Value → Str) (server : LruServer), server.store = s →
        Session.dispatch listStr ⟨server, [], [], [], true⟩ (cmdValue call.cmd) =
          ⟨server.serve call.request, [call.request], encodeUtf8 r.text, [], true⟩ := by
  cases call with
  | set key value =>
    exact ⟨.ok, rfl, fun _ => rfl, h.executeLruSet _ value, fun listStr server _ => rfl⟩
  | get key =>
    have hreply : ∃ r : Reply, r.value = (s.executeLruGet (.str key.text)).2.getD .none ∧
        (∀ unread, finish r.value [] unread = .returned r.value [] unread) ∧
        ∀ listStr, Session.getReply listStr ((s.executeLruGet (.str key.text)).2.getD .none) =
          some r.text := by
      rw [LruStore.executeLruGet]
      cases hget : s.data_store.get? (.str key.text) with
      | none => exact ⟨.null, rfl, fun _ => rfl, fun _ => rfl⟩
      | some v =>
        obtain ⟨t, rfl⟩ := h _ v hget
        exact ⟨.bulk t, rfl, fun _ => rfl, fun _ => rfl⟩
    obtain ⟨r, hvalue, hfinish, htext⟩ := hreply
    refine ⟨r, hvalue, hfinish, h.executeLruGet _, fun listStr server hstore => ?_⟩
    subst hstore
    change Session.dispatchAction listStr _ (upper ['G', 'E', 'T']) [.str key.text] = _
    rw [Session.dispatchAction, if_neg (by decide), if_pos (by decide), Session.dispatchGet]
    simp only [Value.key, htext]
    rfl
  | delete key =>
    refine ⟨.deleted (decide (Key.str key.text ∈ s.data_store)), ?_, fun _ => rfl, ?_, ?_⟩
    · simp [Reply.value, CacheCall.result]
    · change AsciiStore (s.serve (.del (.str key.text))).1
      rw [LruStore.serve]
      split_ifs
      · exact h.delete (.str key.text)
      · exact h
    · intro listStr server hstore
      subst hstore
      change Session.dispatchAction listStr _ (upper ['D', 'E', 'L']) [.str key.text] = _
      rw [Session.dispatchAction, if_neg (by decide), if_neg (by decide), if_pos (by decide),
        Session.dispatchDel]
      simp only [Value.key]
      split_ifs with hm
      · rw [decide_eq_true hm]
        rfl
      · rw [decide_eq_false hm]
        rfl

/-- **A round of `handle_client`** on one request: one request on the store, and one reply. -/
theorem handleChunk_bytes {server : LruServer} (h : AsciiStore server.store) (call : CacheCall) :
    ∃ r : Reply, r.value = call.result server.store ∧ (∀ unread, finish r.value [] unread =
      .returned r.value [] unread) ∧ AsciiStore (server.serve call.request).store ∧
      ∀ listStr : List Value → Str,
        Session.handleChunk listStr ⟨server, [], [], [], true⟩ call.bytes =
          ⟨server.serve call.request, [call.request], encodeUtf8 r.text, [], true⟩ := by
  obtain ⟨r, hvalue, hfinish, hascii, hdispatch⟩ := exists_reply h call
  refine ⟨r, hvalue, hfinish, hascii, fun listStr => ?_⟩
  have hchunk := Session.handleChunk_encodeReq listStr call.allAscii_cmd ⟨server, [], [], [], true⟩
  rw [if_pos rfl, hdispatch listStr server rfl] at hchunk
  exact hchunk

theorem allAscii_quit : AllAscii [['Q', 'U', 'I', 'T']] := fun a ha => by
  rw [List.mem_singleton.mp ha]
  exact (length_encodeUtf8_eq_iff _).mp rfl

/-- The round on `QUIT`: no request, and the connection ends. -/
theorem handleChunk_quit (listStr : List Value → Str) (server : LruServer) :
    Session.handleChunk listStr ⟨server, [], [], [], true⟩ CachePool.quitBytes =
      ⟨server, [], encodeUtf8 Session.okReply, [], false⟩ :=
  Session.handleChunk_encodeReq listStr allAscii_quit ⟨server, [], [], [], true⟩

/-- The parser tells them apart. -/
theorem CacheCall.bytes_ne_quitBytes (call : CacheCall) : call.bytes ≠ CachePool.quitBytes := by
  intro h
  have htext := congrArg decodeIgnore h
  rw [CacheCall.bytes, CachePool.quitBytes, decodeIgnore_encodeUtf8_self,
    decodeIgnore_encodeUtf8_self] at htext
  have hparse := parseResp_encodeReq call.allAscii_cmd []
  rw [List.append_nil, htext, ← List.append_nil (encodeReq _), parseResp_encodeReq allAscii_quit []]
    at hparse
  have hcmd : [['Q', 'U', 'I', 'T']].map Value.str = call.cmd.map Value.str := by
    simpa using hparse
  have hlength := congrArg List.length hcmd
  rw [List.length_map, List.length_map] at hlength
  cases call <;> simp [CacheCall.cmd] at hlength

namespace CachePool

/-! ## The invariant -/

section Invariant

variable {ι : Type}

/-- Nothing is under way on a connection. -/
structure Quiet (c : Conn ι) : Prop where
  client : c.toClient = []
  server : c.isOpen = true → c.toServer = [] ∧ c.buffer = []

/-- A call has not taken effect. -/
def Untaken (moments : List (Linear.Moment ι CacheCall Value)) (i : ι) : Prop :=
  i ∉ (Linear.effects moments).map Prod.fst

/-- A call has taken effect, with this result. -/
def Took (max_capacity : ℕ+) (moments : List (Linear.Moment ι CacheCall Value)) (i : ι)
    (val : Value) : Prop :=
  (i, val) ∈ Linear.results cacheObject (.init max_capacity) (Linear.effects moments)

/-- The request of a call is on its way, or what is left of the reply. -/
def Waits (max_capacity : ℕ+) (moments : List (Linear.Moment ι CacheCall Value)) (c : Conn ι) (i : ι)
    (call : CacheCall) (buffer : Str) : Prop :=
  c.sender = some (i, call) ∧
    (Untaken moments i ∧ buffer = [] ∧ c.toClient = [] ∧
        (c.isOpen = true → c.toServer = call.bytes) ∨
      ∃ r : Reply, (∀ unread, finish r.value [] unread = .returned r.value [] unread) ∧
        Took max_capacity moments i r.value ∧ (∃ t, c.toClient = encodeUtf8 t ∧
          buffer ++ t <+: r.text) ∧ buffer ≠ r.text ∧
        (c.isOpen = true → c.toServer = [] ∧ c.buffer = []))

/-- A phase of a call. -/
def PhaseOk (max_capacity : ℕ+) (moments : List (Linear.Moment ι CacheCall Value))
    (conns : ℕ → Conn ι) (i : ι) : Phase → Prop
  | .idle => ∀ call, .begin_ i call ∉ moments
  | .connected call conn => .begin_ i call ∈ moments ∧ Untaken moments i ∧ Quiet (conns conn)
  | .waiting call conn buffer => Waits max_capacity moments (conns conn) i call buffer
  | .leaving conn status_ok outcome => (status_ok = true → Quiet (conns conn)) ∧
      ∀ val, outcome = some val → Took max_capacity moments i val
  | .done outcome => ∀ val, outcome = some val → .return_ i val ∈ moments

/-- What a handler has still to read: nothing, a `QUIT`, or a request that has not taken effect. -/
def ConnOk (moments : List (Linear.Moment ι CacheCall Value)) (c : Conn ι) : Prop :=
  c.isOpen = true → c.buffer = [] ∧ (c.toServer = [] ∨ c.toServer = quitBytes ∨
    ∃ i call, c.sender = some (i, call) ∧ c.toServer = call.bytes ∧ Untaken moments i)

/-- A call that has written has begun, and it has written on one connection. -/
structure SendersOk (s : State ι) : Prop where
  began : ∀ conn i call, (s.conns conn).sender = some (i, call) → .begin_ i call ∈ s.moments ∧
    ∀ call' conn', s.phase i ≠ .connected call' conn'
  once : ∀ conn conn' i call call', (s.conns conn).sender = some (i, call) →
    (s.conns conn').sender = some (i, call') → conn = conn'

/-- **The invariant.** -/
structure Tidy (max_capacity : ℕ+) (s : State ι) : Prop where
  pointed : Linear.Pointed cacheObject (.init max_capacity) s.moments
  store : s.server.store =
    Linear.after cacheObject (.init max_capacity) (Linear.effects s.moments)
  ascii : AsciiStore s.server.store
  phases : ∀ i, PhaseOk max_capacity s.moments s.conns i (s.phase i)
  conns : ∀ conn, ConnOk s.moments (s.conns conn)
  senders : SendersOk s
  held : ∀ i conn, (s.phase i).conn? = some conn → conn < s.next ∧ conn ∉ s.pool
  alone : ∀ i j conn, (s.phase i).conn? = some conn → (s.phase j).conn? = some conn → i = j
  distinct : s.pool.Nodup
  pooled : ∀ conn ∈ s.pool, conn < s.next ∧ Quiet (s.conns conn)

/-- What a call knows of the moments stays true. -/
structure Keeps (max_capacity : ℕ+) (i : ι)
    (moments moments' : List (Linear.Moment ι CacheCall Value)) : Prop where
  began : ∀ call, .begin_ i call ∈ moments' ↔ .begin_ i call ∈ moments
  untaken : Untaken moments i → Untaken moments' i
  took : ∀ val, Took max_capacity moments i val → Took max_capacity moments' i val
  returned : ∀ val, .return_ i val ∈ moments → .return_ i val ∈ moments'

variable {max_capacity : ℕ+} {moments moments' : List (Linear.Moment ι CacheCall Value)}
  {conns conns' : ℕ → Conn ι} {i : ι}

theorem Keeps.refl (i : ι) (moments : List (Linear.Moment ι CacheCall Value)) :
    Keeps max_capacity i moments moments :=
  ⟨fun _ => Iff.rfl, id, fun _ => id, fun _ => id⟩

theorem keeps_begin {j : ι} (hne : i ≠ j) (call : CacheCall) :
    Keeps max_capacity i moments (moments ++ [.begin_ j call]) := by
  refine ⟨fun call' => ?_, fun h => ?_, fun val h => ?_, fun _ => List.mem_append_left _⟩
  · simp [hne]
  · rwa [Untaken, Linear.effects_begin]
  · rwa [Took, Linear.effects_begin]

theorem keeps_effect {j : ι} (hne : i ≠ j) (call : CacheCall) :
    Keeps max_capacity i moments (moments ++ [.effect j call]) := by
  refine ⟨fun call' => by simp, fun h => ?_, fun val h => ?_, fun _ => List.mem_append_left _⟩
  · rw [Untaken, Linear.effects_effect, List.map_append, List.mem_append, not_or]
    exact ⟨h, fun hj => hne (List.mem_singleton.mp hj)⟩
  · rw [Took, Linear.effects_effect, Linear.results_concat]
    exact List.mem_append_left _ h

theorem keeps_return (i j : ι) (val : Value) :
    Keeps max_capacity i moments (moments ++ [.return_ j val]) := by
  refine ⟨fun call' => by simp, fun h => ?_, fun val h => ?_, fun _ => List.mem_append_left _⟩
  · rwa [Untaken, Linear.effects_return]
  · rwa [Took, Linear.effects_return]

/-- A call whose connection is not touched. -/
theorem PhaseOk.frame {p : Phase} (h : PhaseOk max_capacity moments conns i p)
    (hkeeps : Keeps max_capacity i moments moments')
    (hconn : ∀ conn, p.conn? = some conn → conns' conn = conns conn) :
    PhaseOk max_capacity moments' conns' i p := by
  cases p with
  | idle => exact fun call hmem => h call ((hkeeps.began call).mp hmem)
  | connected call conn =>
    obtain ⟨hbegan, huntaken, hquiet⟩ := h
    rw [PhaseOk, hconn conn rfl]
    exact ⟨(hkeeps.began call).mpr hbegan, hkeeps.untaken huntaken, hquiet⟩
  | waiting call conn buffer =>
    obtain ⟨hsender, hwaits⟩ := h
    rw [PhaseOk, hconn conn rfl]
    refine ⟨hsender, hwaits.imp (fun hw => ⟨hkeeps.untaken hw.1, hw.2⟩) ?_⟩
    rintro ⟨r, hfinish, htook, hrest⟩
    exact ⟨r, hfinish, hkeeps.took _ htook, hrest⟩
  | leaving conn status_ok outcome =>
    refine ⟨fun hok => ?_, fun val hval => hkeeps.took val (h.2 val hval)⟩
    subst hok
    rw [hconn conn rfl]
    exact h.1 rfl
  | done outcome => exact fun val hval => hkeeps.returned val (h val hval)

theorem ConnOk.frame {c : Conn ι} (h : ConnOk moments c)
    (hkeeps : ∀ i call, c.sender = some (i, call) → Keeps max_capacity i moments moments') :
    ConnOk moments' c := by
  intro hopen
  obtain ⟨hbuffer, hcases⟩ := h hopen
  refine ⟨hbuffer, hcases.imp_right (Or.imp_right ?_)⟩
  rintro ⟨i, call, hsender, hbytes, huntaken⟩
  exact ⟨i, call, hsender, hbytes, (hkeeps i call hsender).untaken huntaken⟩

end Invariant

/-! ## The steps -/

section Steps

variable {ι : Type} {max_capacity : ℕ+} {s s' : State ι}

theorem tidy_start : Tidy max_capacity (start max_capacity : State ι) where
  pointed := .start
  store := rfl
  ascii := fun k v h => by cases h
  phases := fun i call h => absurd h List.not_mem_nil
  conns := fun conn h => Bool.noConfusion h
  senders :=
    { began := fun conn i call h => by cases h
      once := fun conn conn' i call call' h => by cases h }
  held := fun i conn h => by cases h
  alone := fun i j conn h => by cases h
  distinct := List.nodup_nil
  pooled := fun conn h => absurd h List.not_mem_nil

/-- A call that has not begun has not taken effect, and has not written. -/
theorem Tidy.of_idle (h : Tidy max_capacity s) {i : ι} (hidle : s.phase i = .idle) :
    (∀ call, .begin_ i call ∉ s.moments) ∧ Untaken s.moments i ∧
      ∀ conn call, (s.conns conn).sender ≠ some (i, call) := by
  have hphase := h.phases i
  rw [hidle] at hphase
  refine ⟨hphase, fun hmem => ?_, fun conn call hsender => ?_⟩
  · obtain ⟨⟨i', call⟩, hcall, rfl⟩ := List.mem_map.mp hmem
    exact hphase call ((Linear.linearizes_effects h.pointed).began i' call hcall)
  · exact hphase call (h.senders.began conn i call hsender).1

variable [DecidableEq ι]

/-- A step of a call that writes nothing. -/
theorem Tidy.senders_move (h : Tidy max_capacity s) {i : ι} {p : Phase}
    (hphase : s'.phase = Function.update s.phase i p) (hmoments : s.moments ⊆ s'.moments)
    (hfree : ∀ call conn, p = .connected call conn →
      ∀ conn call, (s.conns conn).sender ≠ some (i, call))
    (hsame : ∀ conn e, (s'.conns conn).sender = some e → (s.conns conn).sender = some e) :
    SendersOk s' where
  began := fun conn j call hsender => by
    have hold := hsame conn _ hsender
    obtain ⟨hbegan, hnot⟩ := h.senders.began conn j call hold
    refine ⟨hmoments hbegan, fun call' conn' heq => ?_⟩
    rw [hphase] at heq
    by_cases hj : j = i
    · subst hj
      rw [Function.update_self] at heq
      exact hfree call' conn' heq conn call hold
    · rw [Function.update_of_ne hj] at heq
      exact hnot call' conn' heq
  once := fun conn conn' j call call' hsender hsender' =>
    h.senders.once conn conn' j call call' (hsame conn _ hsender) (hsame conn' _ hsender')

/-- **A step of a call**, if it leaves alone what the other calls use. -/
theorem Tidy.move (h : Tidy max_capacity s) {i : ι} {p : Phase}
    (hphase : s'.phase = Function.update s.phase i p) (hserver : s'.server = s.server)
    (heffects : Linear.effects s'.moments = Linear.effects s.moments)
    (hpointed : Linear.Pointed cacheObject (.init max_capacity) s'.moments)
    (hkeeps : ∀ j, j ≠ i → Keeps max_capacity j s.moments s'.moments)
    (hp : PhaseOk max_capacity s'.moments s'.conns i p)
    (hconn : ∀ j conn, j ≠ i → (s.phase j).conn? = some conn → s'.conns conn = s.conns conn)
    (hconns : ∀ conn, ConnOk s'.moments (s'.conns conn)) (hsenders : SendersOk s')
    (hnext : s.next ≤ s'.next)
    (hown : ∀ conn, p.conn? = some conn → conn < s'.next ∧ conn ∉ s'.pool ∧
      ∀ j, j ≠ i → (s.phase j).conn? ≠ some conn)
    (hpool : ∀ conn ∈ s'.pool, conn ∈ s.pool ∨ ∀ j, j ≠ i → (s.phase j).conn? ≠ some conn)
    (hdistinct : s'.pool.Nodup) (hpooled : ∀ conn ∈ s'.pool, conn < s'.next ∧ Quiet (s'.conns conn)) :
    Tidy max_capacity s' := by
  have hself : s'.phase i = p := by rw [hphase, Function.update_self]
  have hother : ∀ j, j ≠ i → s'.phase j = s.phase j := fun j hj => by
    rw [hphase, Function.update_of_ne hj]
  exact
    { pointed := hpointed
      store := by rw [hserver, heffects, h.store]
      ascii := by rw [hserver]; exact h.ascii
      phases := fun j => by
        by_cases hj : j = i
        · subst hj
          rwa [hself]
        · rw [hother j hj]
          exact (h.phases j).frame (hkeeps j hj) fun conn hc => hconn j conn hj hc
      conns := hconns
      senders := hsenders
      held := fun j conn hc => by
        by_cases hj : j = i
        · subst hj
          rw [hself] at hc
          exact ⟨(hown conn hc).1, (hown conn hc).2.1⟩
        · rw [hother j hj] at hc
          obtain ⟨hlt, hnot⟩ := h.held j conn hc
          exact ⟨hlt.trans_le hnext, fun hmem => (hpool conn hmem).elim hnot fun hn => hn j hj hc⟩
      alone := fun j k conn hj hk => by
        by_cases hji : j = i
        · subst hji
          by_contra hne
          rw [hself] at hj
          rw [hother k (Ne.symm hne)] at hk
          exact (hown conn hj).2.2 k (Ne.symm hne) hk
        · rw [hother j hji] at hj
          by_cases hki : k = i
          · subst hki
            rw [hself] at hk
            exact absurd hj ((hown conn hk).2.2 j hji)
          · rw [hother k hki] at hk
            exact h.alone j k conn hj hk
      distinct := hdistinct
      pooled := hpooled }

/-- A call goes on with its connection, or leaves it. -/
theorem Tidy.goOn (h : Tidy max_capacity s) {i : ι} {p : Phase} {moments}
    (heffects : Linear.effects moments = Linear.effects s.moments)
    (hmoments : s.moments ⊆ moments)
    (hpointed : Linear.Pointed cacheObject (.init max_capacity) moments)
    (hkeeps : ∀ j, j ≠ i → Keeps max_capacity j s.moments moments)
    (hp : PhaseOk max_capacity moments s.conns i p)
    (hconn : ∀ conn, p.conn? = some conn → (s.phase i).conn? = some conn)
    (hnot : ∀ call conn, p ≠ .connected call conn) :
    Tidy max_capacity { s.setPhase i p with moments := moments } := by
  have hconns : ∀ conn, ConnOk moments (s.conns conn) := by
    intro conn hopen
    have := h.conns conn hopen
    unfold Untaken at this ⊢
    rwa [heffects]
  refine h.move rfl rfl heffects hpointed hkeeps hp (fun _ _ _ _ => rfl) hconns
    (h.senders_move rfl hmoments (fun call conn hc => absurd hc (hnot call conn)) fun _ _ => id)
    le_rfl (fun conn hc => ?_) (fun conn => Or.inl) h.distinct h.pooled
  obtain ⟨hlt, hpool⟩ := h.held i conn (hconn conn hc)
  exact ⟨hlt, hpool, fun j hj hcj => hj (h.alone j i conn hcj (hconn conn hc))⟩

section Calls

variable {listStr : List Value → Str} {pool_size : ℕ} {i : ι}

/-- `_get_connection`. -/
theorem tidy_getConnection (h : Tidy max_capacity s) {call : CacheCall} {connects : Bool}
    (hstep : step listStr pool_size (.getConnection i call connects) s = some s') :
    Tidy max_capacity s' := by
  cases hphase : s.phase i with
  | idle =>
    obtain ⟨hnew, huntaken, hfree⟩ := h.of_idle hphase
    have hpointed : Linear.Pointed cacheObject (.init max_capacity)
        (s.moments ++ [.begin_ i call]) := h.pointed.begin_ hnew
    have heffects := Linear.effects_begin s.moments i call
    have hkeeps : ∀ j, j ≠ i → Keeps max_capacity j s.moments (s.moments ++ [.begin_ i call]) :=
      fun j hj => keeps_begin hj call
    have hsub : s.moments ⊆ s.moments ++ [.begin_ i call] := List.subset_append_left _ _
    have huntaken' : Untaken (s.moments ++ [.begin_ i call]) i := by rwa [Untaken, heffects]
    have hconns : ∀ conn, ConnOk (s.moments ++ [.begin_ i call]) (s.conns conn) := by
      intro conn hopen
      have hconn := h.conns conn hopen
      unfold Untaken at hconn ⊢
      rwa [heffects]
    have hbegan : .begin_ i call ∈ s.moments ++ [.begin_ i call] :=
      List.mem_append_right _ List.mem_cons_self
    cases hpool : s.pool with
    | cons conn pool =>
      simp only [step, hphase, State.getConnection, State.note, hpool] at hstep
      cases hstep
      have hmem : conn ∈ s.pool := hpool ▸ List.mem_cons_self
      have hrest : ∀ c ∈ pool, c ∈ s.pool := fun c hc => hpool ▸ List.mem_cons_of_mem _ hc
      have hdistinct := h.distinct
      rw [hpool, List.nodup_cons] at hdistinct
      refine h.move rfl rfl heffects hpointed hkeeps ⟨hbegan, huntaken', (h.pooled conn hmem).2⟩
        (fun _ _ _ _ => rfl) hconns (h.senders_move rfl hsub (fun _ _ _ => hfree) fun _ _ => id)
        le_rfl ?_ (fun c hc => Or.inl (hrest c hc)) hdistinct.2 fun c hc => h.pooled c (hrest c hc)
      intro c hc
      cases hc
      exact ⟨(h.pooled conn hmem).1, hdistinct.1, fun j _ hj => (h.held j conn hj).2 hmem⟩
    | nil =>
      cases connects with
      | true =>
        simp only [step, hphase, State.getConnection, State.note, hpool, if_true] at hstep
        cases hstep
        have hheld : ∀ j conn, (s.phase j).conn? = some conn → conn ≠ s.next := fun j conn hj =>
          (h.held j conn hj).1.ne
        have hold : ∀ conn, conn ≠ s.next →
            Function.update s.conns s.next Conn.connect conn = s.conns conn := fun conn hne =>
          Function.update_of_ne hne _ _
        refine h.move rfl rfl heffects hpointed hkeeps ⟨hbegan, huntaken', ?_⟩
          (fun j conn _ hj => hold conn (hheld j conn hj)) (fun conn => ?_)
          (h.senders_move rfl hsub (fun _ _ _ => hfree) fun conn e hsender => ?_)
          (Nat.le_succ _) (fun conn hc => ?_) (fun conn hc => absurd hc List.not_mem_nil)
          List.nodup_nil (fun conn hc => absurd hc List.not_mem_nil)
        · change Quiet (Function.update s.conns s.next Conn.connect s.next)
          rw [Function.update_self]
          exact ⟨rfl, fun _ => ⟨rfl, rfl⟩⟩
        · change ConnOk _ (Function.update s.conns s.next Conn.connect conn)
          by_cases hc : conn = s.next
          · rw [hc, Function.update_self]
            exact fun _ => ⟨rfl, Or.inl rfl⟩
          · rw [hold conn hc]
            exact hconns conn
        · change (Function.update s.conns s.next Conn.connect conn).sender = some e at hsender
          by_cases hc : conn = s.next
          · rw [hc, Function.update_self] at hsender
            cases hsender
          · rwa [hold conn hc] at hsender
        · cases hc
          exact ⟨Nat.lt_succ_self _, List.not_mem_nil, fun j _ hj => hheld j s.next hj rfl⟩
      | false =>
        simp only [step, hphase, State.getConnection, State.note, hpool, Bool.false_eq_true,
          if_false] at hstep
        cases hstep
        have hdone := h.goOn (p := .done none) heffects hsub hpointed hkeeps
          (fun _ hval => by cases hval) (fun conn hc => by cases hc) (fun _ _ hc => by cases hc)
        simpa only [State.setPhase, hpool] using hdone
  | _ =>
    simp only [step, hphase] at hstep
    cases hstep

/-- A call writes on its connection: its request, or nothing. -/
theorem Tidy.write (h : Tidy max_capacity s) {call : CacheCall} {conn : ℕ} {bytes : Bytes}
    (hphase : s.phase i = .connected call conn) (hbytes : bytes = [] ∨ bytes = call.bytes) {p : Phase}
    (hp : ∀ c : Conn ι, Quiet (s.conns conn) → c = { s.conns conn with
        toServer := (s.conns conn).toServer ++ bytes
        sender := some (i, call) } → .begin_ i call ∈ s.moments → Untaken s.moments i →
      ∀ conns : ℕ → Conn ι, conns conn = c → PhaseOk max_capacity s.moments conns i p)
    (hconn : ∀ c, p.conn? = some c → c = conn) (hnot : ∀ call conn, p ≠ .connected call conn) :
    Tidy max_capacity ((s.write i call conn bytes).setPhase i p) := by
  have hok := h.phases i
  rw [hphase] at hok
  obtain ⟨hbegan, huntaken, hquiet⟩ := hok
  have hi : (s.phase i).conn? = some conn := by rw [hphase]; rfl
  have hold : ∀ c, c ≠ conn → (s.write i call conn bytes).conns c = s.conns c := fun c hc =>
    Function.update_of_ne hc _ _
  have hself : (s.write i call conn bytes).conns conn = { s.conns conn with
      toServer := (s.conns conn).toServer ++ bytes
      sender := some (i, call) } := Function.update_self _ _ _
  have hfree : ∀ c call', (s.conns c).sender ≠ some (i, call') := fun c call' hsender =>
    (h.senders.began c i call' hsender).2 call conn hphase
  refine h.move rfl rfl rfl h.pointed (fun j _ => Keeps.refl j _)
    (hp _ hquiet rfl hbegan huntaken _ hself) (fun j c hj hc => hold c ?_) (fun c => ?_) ?_ le_rfl
    (fun c hc => ?_) (fun c => Or.inl) h.distinct (fun c hc => ⟨(h.pooled c hc).1, ?_⟩)
  · rintro rfl
    exact hj (h.alone j i c hc hi)
  · by_cases hc : c = conn
    · subst hc
      change ConnOk _ ((s.write i call c bytes).conns c)
      rw [hself]
      intro hopen
      obtain ⟨hserver, hbuffer⟩ := hquiet.server hopen
      refine ⟨hbuffer, ?_⟩
      rcases hbytes with rfl | rfl
      · exact Or.inl (by simpa using hserver)
      · exact Or.inr (Or.inr ⟨i, call, rfl, by simp [hserver], huntaken⟩)
    · change ConnOk _ ((s.write i call conn bytes).conns c)
      rw [hold c hc]
      exact h.conns c
  · refine ⟨fun c j call' hsender => ?_, fun c c' j call' call'' hsender hsender' => ?_⟩
    · by_cases hc : c = conn
      · rw [hc] at hsender
        change ((s.write i call conn bytes).conns conn).sender = _ at hsender
        rw [hself] at hsender
        cases hsender
        refine ⟨hbegan, fun call' conn' => ?_⟩
        change Function.update s.phase i p i ≠ _
        rw [Function.update_self]
        exact hnot call' conn'
      · change ((s.write i call conn bytes).conns c).sender = _ at hsender
        rw [hold c hc] at hsender
        obtain ⟨hbegan', hnot'⟩ := h.senders.began c j call' hsender
        have hj : j ≠ i := by
          rintro rfl
          exact hfree c call' hsender
        refine ⟨hbegan', fun call' conn' => ?_⟩
        change Function.update s.phase i p j ≠ _
        rw [Function.update_of_ne hj]
        exact hnot' call' conn'
    · change ((s.write i call conn bytes).conns c).sender = _ at hsender
      change ((s.write i call conn bytes).conns c').sender = _ at hsender'
      by_cases hc : c = conn
      · by_cases hc' : c' = conn
        · rw [hc, hc']
        · rw [hc, hself] at hsender
          cases hsender
          rw [hold c' hc'] at hsender'
          exact absurd hsender' (hfree c' call'')
      · rw [hold c hc] at hsender
        by_cases hc' : c' = conn
        · rw [hc', hself] at hsender'
          cases hsender'
          exact absurd hsender (hfree c call')
        · rw [hold c' hc'] at hsender'
          exact h.senders.once c c' j call' call'' hsender hsender'
  · cases hconn c hc
    obtain ⟨hlt, hpool⟩ := h.held i conn hi
    exact ⟨hlt, hpool, fun j hj hcj => hj (h.alone j i conn hcj hi)⟩
  · have hne : c ≠ conn := by
      rintro rfl
      exact (h.held i c hi).2 hc
    change Quiet ((s.write i call conn bytes).conns c)
    rw [hold c hne]
    exact (h.pooled c hc).2

theorem tidy_send (h : Tidy max_capacity s)
    (hstep : step listStr pool_size (.send i) s = some s') : Tidy max_capacity s' := by
  cases hphase : s.phase i with
  | connected call conn =>
    simp only [step, hphase] at hstep
    cases hstep
    refine h.write hphase (Or.inr rfl) ?_ (fun c hc => (Option.some.inj hc).symm)
      (fun _ _ hc => by cases hc)
    rintro c hquiet rfl - huntaken conns hc
    rw [PhaseOk, hc]
    refine ⟨rfl, Or.inl ⟨huntaken, rfl, hquiet.client, fun hopen => ?_⟩⟩
    simp [(hquiet.server hopen).1]
  | _ =>
    simp only [step, hphase] at hstep
    cases hstep

omit [DecidableEq ι] in
theorem phaseOk_raised (moments : List (Linear.Moment ι CacheCall Value)) (conns : ℕ → Conn ι)
    (conn : ℕ) : PhaseOk max_capacity moments conns i (.leaving conn false none) :=
  ⟨fun h => Bool.noConfusion h, fun _ h => by cases h⟩

theorem tidy_sendRaises (h : Tidy max_capacity s) {n : ℕ} (hcalm : Calm s (.sendRaises i n))
    (hstep : step listStr pool_size (.sendRaises i n) s = some s') : Tidy max_capacity s' := by
  cases hphase : s.phase i with
  | connected call conn =>
    simp only [Calm, hphase] at hcalm
    simp only [step, hphase] at hstep
    cases hstep
    have hbytes : call.bytes.take n = [] ∨ call.bytes.take n = call.bytes := by
      rcases hcalm with rfl | hle
      · exact Or.inl rfl
      · exact Or.inr (List.take_of_length_le hle)
    exact h.write hphase hbytes (fun _ _ _ _ _ conns _ => phaseOk_raised _ conns conn)
      (fun c hc => by cases hc) (fun _ _ hc => by cases hc)
  | _ =>
    simp only [step, hphase] at hstep
    cases hstep

theorem tidy_recvRaises (h : Tidy max_capacity s)
    (hstep : step listStr pool_size (.recvRaises i) s = some s') : Tidy max_capacity s' := by
  cases hphase : s.phase i with
  | waiting call conn buffer =>
    simp only [step, hphase] at hstep
    cases hstep
    exact h.goOn rfl (List.Subset.refl _) h.pointed (fun j _ => Keeps.refl j _)
      (phaseOk_raised _ _ conn) (fun c hc => by cases hc) (fun _ _ hc => by cases hc)
  | _ =>
    simp only [step, hphase] at hstep
    cases hstep

/-- A piece of a reply completes it, or the call waits on. -/
theorem received_piece (r : Reply)
    (hfinish : ∀ unread, finish r.value [] unread = .returned r.value [] unread) (call : CacheCall)
    (conn : ℕ) {buffer piece rest : Str} (hpiece : piece ≠ [])
    (ht : buffer ++ (piece ++ rest) <+: r.text) :
    Phase.received call conn buffer (encodeUtf8 piece) =
      if buffer ++ piece = r.text then .leaving conn true (some r.value)
      else .waiting call conn (buffer ++ piece) := by
  unfold Phase.received
  split_ifs with hwhole
  · rw [r.delimited_text.receive_last hpiece hwhole [], hfinish]
  · have hone : ∀ t ∈ [piece], t ≠ [] := fun t ht => List.mem_singleton.mp ht ▸ hpiece
    have hflat : [piece].flatten = piece := List.flatten_singleton
    have hpart : buffer ++ [piece].flatten <+: r.text := by
      rw [hflat]
      refine List.IsPrefix.trans ?_ ht
      rw [← List.append_assoc]
      exact List.prefix_append _ _
    have hcut := r.delimited_text.receive_cut hone hpart (by rwa [hflat])
    rw [hflat] at hcut
    rw [List.map_singleton] at hcut
    rw [hcut]

/-- What the server has sent, and has not been read, in two pieces. -/
theorem exists_two_pieces {t : Str} (ht : IsAscii t) {bytes : Bytes} (hbytes : bytes = encodeUtf8 t)
    (n : ℕ) : ∃ t₁ t₂, bytes.take n = encodeUtf8 t₁ ∧ bytes.drop n = encodeUtf8 t₂ ∧ t₁ ++ t₂ = t := by
  have hflat : [bytes.take n, bytes.drop n].flatten = encodeUtf8 t := by
    rw [List.flatten_cons, List.flatten_singleton, List.take_append_drop, hbytes]
  obtain ⟨ts, hts, rfl⟩ := exists_pieces ht hflat
  obtain ⟨t₁, ts, rfl, h₁, hrest⟩ := List.map_eq_cons_iff.mp hts.symm
  obtain ⟨t₂, ts, rfl, h₂, hnil⟩ := List.map_eq_cons_iff.mp hrest
  rw [List.map_eq_nil_iff] at hnil
  subst hnil
  exact ⟨t₁, t₂, h₁.symm, h₂.symm, by simp⟩

/-- A call takes bytes off its connection. -/
theorem Tidy.take (h : Tidy max_capacity s) {conn : ℕ} {left : Bytes} {p : Phase}
    (hi : (s.phase i).conn? = some conn)
    (hp : ∀ conns : ℕ → Conn ι, conns conn = { s.conns conn with toClient := left } →
      PhaseOk max_capacity s.moments conns i p)
    (hconn : ∀ c, p.conn? = some c → c = conn) (hnot : ∀ call conn, p ≠ .connected call conn) :
    Tidy max_capacity ((s.setConn conn { s.conns conn with toClient := left }).setPhase i p) := by
  have hold : ∀ c, c ≠ conn → (s.setConn conn { s.conns conn with toClient := left }).conns c =
      s.conns c := fun c hc => Function.update_of_ne hc _ _
  have hself : (s.setConn conn { s.conns conn with toClient := left }).conns conn =
      { s.conns conn with toClient := left } := Function.update_self _ _ _
  refine h.move rfl rfl rfl h.pointed (fun j _ => Keeps.refl j _) (hp _ hself)
    (fun j c hj hc => hold c ?_) (fun c => ?_) (h.senders_move rfl (List.Subset.refl _)
      (fun call c hc => absurd hc (hnot call c)) fun c e hsender => ?_) le_rfl (fun c hc => ?_)
    (fun c => Or.inl) h.distinct (fun c hc => ⟨(h.pooled c hc).1, ?_⟩)
  · rintro rfl
    exact hj (h.alone j i c hc hi)
  · by_cases hc : c = conn
    · change ConnOk _ ((s.setConn conn { s.conns conn with toClient := left }).conns c)
      rw [hc, hself]
      exact h.conns conn
    · change ConnOk _ ((s.setConn conn { s.conns conn with toClient := left }).conns c)
      rw [hold c hc]
      exact h.conns c
  · change ((s.setConn conn { s.conns conn with toClient := left }).conns c).sender = _ at hsender
    by_cases hc : c = conn
    · rw [hc, hself] at hsender
      rw [hc]
      exact hsender
    · rwa [hold c hc] at hsender
  · cases hconn c hc
    obtain ⟨hlt, hpool⟩ := h.held i conn hi
    exact ⟨hlt, hpool, fun j hj hcj => hj (h.alone j i conn hcj hi)⟩
  · have hne : c ≠ conn := by
      rintro rfl
      exact (h.held i c hi).2 hc
    change Quiet ((s.setConn conn { s.conns conn with toClient := left }).conns c)
    rw [hold c hne]
    exact (h.pooled c hc).2

/-- A call reads a piece of what there is. -/
theorem Tidy.read (h : Tidy max_capacity s) {call : CacheCall} {conn n : ℕ} {buffer : Str}
    (hphase : s.phase i = .waiting call conn buffer) (hne : (s.conns conn).toClient ≠ [])
    (hn : 0 < n) : Tidy max_capacity ((s.setConn conn { s.conns conn with
      toClient := (s.conns conn).toClient.drop n }).setPhase i
        (.received call conn buffer ((s.conns conn).toClient.take n))) := by
  have hok := h.phases i
  rw [hphase] at hok
  obtain ⟨hsender, ⟨-, -, hnil, -⟩ | ⟨r, hfinish, htook, ⟨t, ht, hpart⟩, hbuffer, hserver⟩⟩ := hok
  · exact absurd hnil hne
  have hascii : IsAscii t := by
    obtain ⟨more, hmore⟩ := hpart
    have := r.isAscii_text
    rw [← hmore] at this
    exact (isAscii_append.mp (isAscii_append.mp this).1).2
  obtain ⟨t₁, t₂, htake, hdrop, rfl⟩ := exists_two_pieces hascii ht n
  have ht₁ : t₁ ≠ [] := by
    rintro rfl
    rcases List.take_eq_nil_iff.mp htake with hzero | hnil
    · omega
    · exact hne hnil
  have hi : (s.phase i).conn? = some conn := by rw [hphase]; rfl
  rw [htake, hdrop, received_piece r hfinish call conn ht₁ hpart]
  rw [← List.append_assoc] at hpart
  split_ifs with hwhole
  · -- nothing is left behind the reply
    have hnil : t₂ = [] := by
      rw [hwhole] at hpart
      have hle := hpart.length_le
      rw [List.length_append] at hle
      exact List.length_eq_zero_iff.mp (by omega)
    refine h.take hi (fun conns hc => ⟨fun _ => ?_, fun val hval => ?_⟩)
      (fun c hc => (Option.some.inj hc).symm) (fun _ _ hc => by cases hc)
    · rw [hc, hnil]
      exact ⟨rfl, hserver⟩
    · cases hval
      exact htook
  · refine h.take hi (fun conns hc => ?_) (fun c hc => (Option.some.inj hc).symm)
      (fun _ _ hc => by cases hc)
    rw [PhaseOk, hc]
    exact ⟨hsender, Or.inr ⟨r, hfinish, htook, ⟨t₂, rfl, hpart⟩, hwhole, hserver⟩⟩

theorem tidy_recv (h : Tidy max_capacity s) {n : ℕ}
    (hstep : step listStr pool_size (.recv i n) s = some s') : Tidy max_capacity s' := by
  cases hphase : s.phase i with
  | waiting call conn buffer =>
    simp only [step, hphase] at hstep
    split_ifs at hstep with hne hopen
    · cases hstep
      exact h.read hphase hne (Nat.lt_of_lt_of_le Nat.zero_lt_one (le_max_left _ _))
    · cases hstep
      have hraised : Phase.received call conn buffer [] = .leaving conn false none := by
        unfold Phase.received receive
        rw [if_pos rfl]
      rw [hraised]
      exact h.goOn rfl (List.Subset.refl _) h.pointed (fun j _ => Keeps.refl j _)
        (phaseOk_raised _ _ conn) (fun c hc => by cases hc) (fun _ _ hc => by cases hc)
  | _ =>
    simp only [step, hphase] at hstep
    cases hstep

/-- `finally`: the connection may go back to the pool, and the call may return. -/
theorem Tidy.leave (h : Tidy max_capacity s) {conn : ℕ} {status_ok : Bool}
    {outcome : Option Value} (hphase : s.phase i = .leaving conn status_ok outcome) {pool : List ℕ}
    (hpool : pool = s.pool ∨ status_ok = true ∧ pool = s.pool ++ [conn]) :
    Tidy max_capacity { s.setPhase i (.done outcome) with
      pool := pool
      moments := s.moments ++ (outcome.map fun val => .return_ i val).toList } := by
  have hok := h.phases i
  rw [hphase] at hok
  obtain ⟨hquiet, htook⟩ := hok
  have hpointed : Linear.Pointed cacheObject (.init max_capacity)
      (s.moments ++ (outcome.map fun val => .return_ i val).toList) := by
    cases outcome with
    | none => simpa using h.pointed
    | some val => exact h.pointed.return_ (htook val rfl)
  have heffects : Linear.effects (s.moments ++ (outcome.map fun val => .return_ i val).toList) =
      Linear.effects s.moments := by
    cases outcome with
    | none => simp
    | some val => exact Linear.effects_return _ _ _
  have hkeeps : ∀ j, Keeps max_capacity j s.moments
      (s.moments ++ (outcome.map fun val => .return_ i val).toList) := by
    intro j
    cases outcome with
    | none => simpa using Keeps.refl j s.moments
    | some val => exact keeps_return j i val
  have hback : ∀ c ∈ pool, c ∈ s.pool ∨ status_ok = true ∧ c = conn := by
    intro c hc
    rcases hpool with rfl | ⟨hok, rfl⟩
    · exact Or.inl hc
    · exact (List.mem_append.mp hc).imp_right fun hc => ⟨hok, List.mem_singleton.mp hc⟩
  have hi : status_ok = true → (s.phase i).conn? = some conn := by
    rintro rfl
    rw [hphase]
    rfl
  refine h.move rfl rfl heffects hpointed (fun j _ => hkeeps j)
    (fun val hval => List.mem_append_right _ (by rw [hval]; exact List.mem_cons_self))
    (fun _ _ _ _ => rfl)
    (fun c => (h.conns c).frame fun j _ _ => hkeeps j)
    (h.senders_move rfl (List.subset_append_left _ _) (fun _ _ hc => by cases hc) fun _ _ => id)
    le_rfl (fun c hc => by cases hc) (fun c hc => (hback c hc).imp_right ?_) ?_ fun c hc => ?_
  · rintro ⟨hok, rfl⟩ j hj hcj
    exact hj (h.alone j i c hcj (hi hok))
  · rcases hpool with rfl | ⟨hok, rfl⟩
    · exact h.distinct
    · refine List.nodup_append.mpr ⟨h.distinct, List.nodup_singleton _, fun c hc c' hc' => ?_⟩
      rw [List.mem_singleton.mp hc']
      rintro rfl
      exact (h.held i c (hi hok)).2 hc
  · rcases hback c hc with hc | ⟨hok, rfl⟩
    · exact h.pooled c hc
    · exact ⟨(h.held i c (hi hok)).1, hquiet hok⟩

theorem tidy_release (h : Tidy max_capacity s)
    (hstep : step listStr pool_size (.release i) s = some s') : Tidy max_capacity s' := by
  cases hphase : s.phase i with
  | leaving conn status_ok outcome =>
    have hpool : ∃ pool, s.releaseConnection pool_size conn status_ok = { s with pool := pool } ∧
        (pool = s.pool ∨ status_ok = true ∧ pool = s.pool ++ [conn]) := by
      unfold State.releaseConnection
      split_ifs with hok hfull
      · exact ⟨s.pool, rfl, Or.inl rfl⟩
      · exact ⟨s.pool ++ [conn], rfl, Or.inr ⟨hok, rfl⟩⟩
      · exact ⟨s.pool, rfl, Or.inl rfl⟩
    obtain ⟨pool, hrelease, hpool⟩ := hpool
    have hfinish := h.leave hphase hpool
    simp only [step, hphase, hrelease] at hstep
    cases outcome with
    | none =>
      cases hstep
      rw [Option.map_none, Option.toList_none, List.append_nil] at hfinish
      exact hfinish
    | some val =>
      cases hstep
      exact hfinish
  | _ =>
    simp only [step, hphase] at hstep
    cases hstep

omit [DecidableEq ι] in
/-- A step of no call. -/
theorem Tidy.change (h : Tidy max_capacity s) (hphase : s'.phase = s.phase)
    (hnext : s'.next = s.next) (hpool : ∀ c ∈ s'.pool, c ∈ s.pool) (hdistinct : s'.pool.Nodup)
    (hpointed : Linear.Pointed cacheObject (.init max_capacity) s'.moments)
    (hstore : s'.server.store =
      Linear.after cacheObject (.init max_capacity) (Linear.effects s'.moments))
    (hascii : AsciiStore s'.server.store) (hsub : s.moments ⊆ s'.moments)
    (hphases : ∀ j, PhaseOk max_capacity s'.moments s'.conns j (s.phase j))
    (hconns : ∀ c, ConnOk s'.moments (s'.conns c))
    (hsenders : ∀ c, (s'.conns c).sender = (s.conns c).sender)
    (hquiet : ∀ c ∈ s'.pool, Quiet (s.conns c) → Quiet (s'.conns c)) : Tidy max_capacity s' where
  pointed := hpointed
  store := hstore
  ascii := hascii
  phases := fun j => by
    rw [hphase]
    exact hphases j
  conns := hconns
  senders :=
    { began := fun c j call hsender => by
        rw [hsenders] at hsender
        rw [hphase]
        exact ⟨hsub (h.senders.began c j call hsender).1, (h.senders.began c j call hsender).2⟩
      once := fun c c' j call call' hsender hsender' => by
        rw [hsenders] at hsender hsender'
        exact h.senders.once c c' j call call' hsender hsender' }
  held := fun j c hc => by
    rw [hphase] at hc
    rw [hnext]
    exact ⟨(h.held j c hc).1, fun hmem => (h.held j c hc).2 (hpool c hmem)⟩
  alone := fun j k c hj hk => by
    rw [hphase] at hj hk
    exact h.alone j k c hj hk
  distinct := hdistinct
  pooled := fun c hc => by
    rw [hnext]
    exact ⟨(h.pooled c (hpool c hc)).1, hquiet c hc (h.pooled c (hpool c hc)).2⟩

theorem tidy_quit (h : Tidy max_capacity s) {n : ℕ} (hcalm : Calm s (.quit n))
    (hstep : step listStr pool_size (.quit n) s = some s') : Tidy max_capacity s' := by
  cases hpool : s.pool with
  | nil =>
    simp only [step, hpool] at hstep
    cases hstep
  | cons conn pool =>
    simp only [step, hpool] at hstep
    cases hstep
    have hmem : conn ∈ s.pool := hpool ▸ List.mem_cons_self
    have hdistinct := h.distinct
    rw [hpool, List.nodup_cons] at hdistinct
    have hquiet := (h.pooled conn hmem).2
    have hold : ∀ (c' : Conn ι) c, c ≠ conn → Function.update s.conns conn c' c = s.conns c :=
      fun c' c hc => Function.update_of_ne hc _ _
    refine h.change rfl rfl (fun c hc => hpool ▸ List.mem_cons_of_mem _ hc) hdistinct.2 h.pointed
      h.store h.ascii (List.Subset.refl _) (fun j => ?_) (fun c => ?_) (fun c => ?_)
      fun c hc hq => ?_
    · refine (h.phases j).frame (Keeps.refl j _) fun c hc => hold _ c ?_
      rintro rfl
      exact (h.held j c hc).2 hmem
    · by_cases hc : c = conn
      · subst hc
        change ConnOk _ (Function.update s.conns c _ c)
        rw [Function.update_self]
        intro hopen
        obtain ⟨hserver, hbuffer⟩ := hquiet.server hopen
        refine ⟨hbuffer, ?_⟩
        rcases hcalm with rfl | hle
        · exact Or.inl (by simpa using hserver)
        · exact Or.inr (Or.inl (by simp [hserver, List.take_of_length_le hle]))
      · change ConnOk _ (Function.update s.conns conn _ c)
        rw [hold _ c hc]
        exact h.conns c
    · change (Function.update s.conns conn _ c).sender = _
      by_cases hc : c = conn
      · rw [hc, Function.update_self]
      · rw [hold _ c hc]
    · have hne : c ≠ conn := by
        rintro rfl
        exact hdistinct.1 hc
      change Quiet (Function.update s.conns conn _ c)
      rwa [hold _ c hne]

omit [DecidableEq ι] in
/-- A connection that ends looks the same to its call, but for what does not arrive. -/
theorem PhaseOk.closePeer {p : Phase} {moments : List (Linear.Moment ι CacheCall Value)}
    {conns : ℕ → Conn ι} (h : PhaseOk max_capacity moments conns i p) (conn n : ℕ) :
    PhaseOk max_capacity moments (Function.update conns conn { conns conn with
      isOpen := false
      toClient := (conns conn).toClient.take n }) i p := by
  have hquiet : ∀ c, Quiet (conns c) → Quiet (Function.update conns conn { conns conn with
      isOpen := false
      toClient := (conns conn).toClient.take n } c) := by
    intro c hq
    by_cases hc : c = conn
    · subst hc
      rw [Function.update_self]
      exact ⟨by simp [hq.client], fun hopen => Bool.noConfusion hopen⟩
    · rwa [Function.update_of_ne hc]
  cases p with
  | idle => exact h
  | connected call c => exact ⟨h.1, h.2.1, hquiet c h.2.2⟩
  | waiting call c buffer =>
    by_cases hc : c = conn
    · subst hc
      rw [PhaseOk, Function.update_self]
      obtain ⟨hsender, ⟨huntaken, hbuffer, hnil, -⟩ | ⟨r, hfinish, htook, ⟨t, ht, hpart⟩, hrest⟩⟩ := h
      · exact ⟨hsender, Or.inl ⟨huntaken, hbuffer, by simp [hnil],
          fun hopen => Bool.noConfusion hopen⟩⟩
      · have hascii : IsAscii t := by
          obtain ⟨more, hmore⟩ := hpart
          have := r.isAscii_text
          rw [← hmore] at this
          exact (isAscii_append.mp (isAscii_append.mp this).1).2
        obtain ⟨t₁, t₂, htake, -, rfl⟩ := exists_two_pieces hascii ht n
        rw [← List.append_assoc] at hpart
        exact ⟨hsender, Or.inr ⟨r, hfinish, htook, ⟨t₁, htake,
          (List.prefix_append _ _).trans hpart⟩, hrest.1, fun hopen => Bool.noConfusion hopen⟩⟩
    · rw [PhaseOk, Function.update_of_ne hc]
      exact h
  | leaving c status_ok outcome => exact ⟨fun hok => hquiet c (h.1 hok), h.2⟩
  | done outcome => exact h

theorem tidy_closePeer (h : Tidy max_capacity s) {conn n : ℕ}
    (hstep : step listStr pool_size (.closePeer conn n) s = some s') : Tidy max_capacity s' := by
  simp only [step] at hstep
  cases hstep
  refine h.change rfl rfl (fun _ => id) h.distinct h.pointed h.store h.ascii (List.Subset.refl _)
    (fun j => (h.phases j).closePeer conn n) (fun c => ?_) (fun c => ?_) fun c _ hq => ?_
  · change ConnOk _ (Function.update s.conns conn _ c)
    by_cases hc : c = conn
    · rw [hc, Function.update_self]
      exact fun hopen => Bool.noConfusion hopen
    · rw [Function.update_of_ne hc]
      exact h.conns c
  · change (Function.update s.conns conn _ c).sender = _
    by_cases hc : c = conn
    · rw [hc, Function.update_self]
    · rw [Function.update_of_ne hc]
  · change Quiet (Function.update s.conns conn _ c)
    by_cases hc : c = conn
    · rw [hc] at hq
      rw [hc, Function.update_self]
      exact ⟨by simp [hq.client], fun hopen => Bool.noConfusion hopen⟩
    · rwa [Function.update_of_ne hc]

omit [DecidableEq ι] in
/-- Whose connection has something to read has a request under way. -/
theorem PhaseOk.waits_of_busy {p : Phase} {moments : List (Linear.Moment ι CacheCall Value)}
    {conns : ℕ → Conn ι} (h : PhaseOk max_capacity moments conns i p) {conn : ℕ}
    (hconn : p.conn? = some conn) (hopen : (conns conn).isOpen = true)
    (hbusy : (conns conn).toServer ≠ []) : ∃ call, p = .waiting call conn [] ∧
      (conns conn).sender = some (i, call) ∧ (conns conn).toClient = [] ∧
      (conns conn).toServer = call.bytes := by
  have hno : ¬ Quiet (conns conn) := fun hq => hbusy (hq.server hopen).1
  cases p with
  | idle => cases hconn
  | connected call c =>
    cases hconn
    exact absurd h.2.2 hno
  | waiting call c buffer =>
    cases hconn
    obtain ⟨hsender, ⟨-, rfl, hnil, hserver⟩ | ⟨r, -, -, -, -, hserver⟩⟩ := h
    · exact ⟨call, rfl, hsender, hnil, hserver hopen⟩
    · exact absurd (hserver hopen).1 hbusy
  | leaving c status_ok outcome =>
    cases status_ok with
    | true =>
      cases hconn
      exact absurd (h.1 rfl) hno
    | false => cases hconn
  | done outcome => cases hconn

omit [DecidableEq ι] in
/-- A handler reads a `QUIT`. -/
theorem Tidy.serve_quit (h : Tidy max_capacity s) {conn : ℕ} (hopen : (s.conns conn).isOpen = true)
    (hbytes : (s.conns conn).toServer = quitBytes) :
    Tidy max_capacity (s.serve listStr conn (s.conns conn).toServer) := by
  have hbusy : (s.conns conn).toServer ≠ [] := hbytes ▸ List.cons_ne_nil _ _
  have hround := handleChunk_quit listStr s.server
  rw [← hbytes, ← (h.conns conn hopen).1] at hround
  have hserver : (s.serve listStr conn (s.conns conn).toServer).server = s.server :=
    congrArg Session.server hround
  have hmoments : (s.serve listStr conn (s.conns conn).toServer).moments = s.moments := by
    have := congrArg Session.requests hround
    unfold State.serve
    dsimp only
    rw [this]
    exact List.append_nil _
  have hclosed : ((s.serve listStr conn (s.conns conn).toServer).conns conn).isOpen = false := by
    change (Function.update s.conns conn _ conn).isOpen = false
    rw [Function.update_self]
    exact congrArg Session.isOpen hround
  have hold : ∀ c, c ≠ conn →
      (s.serve listStr conn (s.conns conn).toServer).conns c = s.conns c := fun c hc =>
    Function.update_of_ne hc _ _
  refine h.change rfl rfl (fun _ => id) h.distinct ?_ ?_ ?_ ?_ (fun j => ?_) (fun c => ?_)
    (fun c => ?_) fun c hc hq => ?_
  · rw [hmoments]
    exact h.pointed
  · rw [hmoments, hserver]
    exact h.store
  · rw [hserver]
    exact h.ascii
  · rw [hmoments]
    exact List.Subset.refl _
  · rw [hmoments]
    refine (h.phases j).frame (Keeps.refl j _) fun c hc => hold c ?_
    rintro rfl
    obtain ⟨call, -, -, -, hcall⟩ := (h.phases j).waits_of_busy hc hopen hbusy
    exact call.bytes_ne_quitBytes (hcall.symm.trans hbytes)
  · rw [hmoments]
    by_cases hc : c = conn
    · rw [hc]
      exact fun ho => Bool.noConfusion (hclosed.symm.trans ho)
    · rw [hold c hc]
      exact h.conns c
  · by_cases hc : c = conn
    · subst hc
      change (Function.update s.conns c _ c).sender = _
      rw [Function.update_self]
    · rw [hold c hc]
  · have hne : c ≠ conn := by
      rintro rfl
      exact hbusy (hq.server hopen).1
    rwa [hold c hne]

omit [DecidableEq ι] in
/-- The call that takes effect: it waits for the reply, or it has given up. -/
theorem Tidy.phase_of_effect (h : Tidy max_capacity s) {conn : ℕ} {call : CacheCall}
    (hsender : (s.conns conn).sender = some (i, call))
    (hopen : (s.conns conn).isOpen = true) (hbusy : (s.conns conn).toServer ≠ [])
    {conns : ℕ → Conn ι} (hold : ∀ c, c ≠ conn → conns c = s.conns c) {r : Reply}
    (hself : conns conn = ⟨[], (s.conns conn).toClient ++ encodeUtf8 r.text, [], true,
      some (i, call)⟩)
    (hfinish : ∀ unread, finish r.value [] unread = .returned r.value [] unread)
    (htook : Took max_capacity (s.moments ++ [.effect i call]) i r.value) :
    PhaseOk max_capacity (s.moments ++ [.effect i call]) conns i (s.phase i) := by
  obtain ⟨hbegan, hnot⟩ := h.senders.began conn i call hsender
  have hp := h.phases i
  by_cases hconn : (s.phase i).conn? = some conn
  · obtain ⟨call', hphase, hsender', hnil, -⟩ := hp.waits_of_busy hconn hopen hbusy
    rw [hsender] at hsender'
    cases hsender'
    rw [hphase, PhaseOk, hself, hnil]
    exact ⟨rfl, Or.inr ⟨r, hfinish, htook, ⟨r.text, List.nil_append _, List.prefix_rfl⟩,
      r.delimited_text.ne_nil.symm, fun _ => ⟨rfl, rfl⟩⟩⟩
  · cases hphase : s.phase i with
    | idle => exact absurd hbegan ((h.of_idle hphase).1 call)
    | connected call' c => exact absurd hphase (hnot call' c)
    | waiting call' c buffer =>
      rw [hphase] at hp hconn
      have hc := h.senders.once c conn i call' call hp.1 hsender
      exact absurd (congrArg some hc) hconn
    | leaving c status_ok outcome =>
      rw [hphase] at hp hconn
      refine ⟨fun hok => ?_, fun val hval => ?_⟩
      · subst hok
        rw [hold c fun hc => hconn (congrArg some hc)]
        exact hp.1 rfl
      · rw [Took, Linear.effects_effect, Linear.results_concat]
        exact List.mem_append_left _ (hp.2 val hval)
    | done outcome =>
      rw [hphase] at hp
      exact fun val hval => List.mem_append_left _ (hp val hval)

/-- **A handler reads a request**, and the call takes effect. -/
theorem Tidy.serve_call (h : Tidy max_capacity s) {conn : ℕ} {call : CacheCall}
    (hopen : (s.conns conn).isOpen = true) (hsender : (s.conns conn).sender = some (i, call))
    (hbytes : (s.conns conn).toServer = call.bytes) (huntaken : Untaken s.moments i) :
    Tidy max_capacity (s.serve listStr conn (s.conns conn).toServer) := by
  have hbusy : (s.conns conn).toServer ≠ [] := hbytes ▸ call.bytes_ne_nil
  obtain ⟨r, hvalue, hfinish, hascii, hround⟩ := handleChunk_bytes h.ascii call
  replace hround := hround listStr
  rw [← hbytes] at hround
  have hbuffer := (h.conns conn hopen).1
  have hserver : (s.serve listStr conn (s.conns conn).toServer).server =
      s.server.serve call.request := by
    unfold State.serve
    dsimp only
    rw [hbuffer, hround]
  have hmoments : (s.serve listStr conn (s.conns conn).toServer).moments =
      s.moments ++ [.effect i call] := by
    unfold State.serve
    dsimp only
    rw [hbuffer, hround, hsender]
    rfl
  have hself : (s.serve listStr conn (s.conns conn).toServer).conns conn =
      ⟨[], (s.conns conn).toClient ++ encodeUtf8 r.text, [], true, some (i, call)⟩ := by
    unfold State.serve
    dsimp only
    rw [hbuffer, hround]
    refine (Function.update_self _ _ _).trans ?_
    rw [List.drop_length, hsender]
  have hold : ∀ c, c ≠ conn →
      (s.serve listStr conn (s.conns conn).toServer).conns c = s.conns c := fun c hc =>
    Function.update_of_ne hc _ _
  have hother : ∀ j, j ≠ i → Keeps max_capacity j s.moments (s.moments ++ [.effect i call]) :=
    fun j hj => keeps_effect hj call
  have htook : Took max_capacity (s.moments ++ [.effect i call]) i r.value := by
    rw [Took, Linear.effects_effect, Linear.results_concat, ← h.store, hvalue]
    exact List.mem_append_right _ List.mem_cons_self
  refine h.change rfl rfl (fun _ => id) h.distinct ?_ ?_ ?_ ?_ (fun j => ?_) (fun c => ?_)
    (fun c => ?_) fun c hc hq => ?_
  · rw [hmoments]
    exact h.pointed.effect (h.senders.began conn i call hsender).1 huntaken
  · rw [hmoments, hserver, Linear.effects_effect, Linear.after_concat, ← h.store]
    rfl
  · rw [hserver]
    exact hascii
  · rw [hmoments]
    exact List.subset_append_left _ _
  · rw [hmoments]
    by_cases hji : j = i
    · subst hji
      exact h.phase_of_effect hsender hopen hbusy hold hself hfinish htook
    · refine (h.phases j).frame (hother j hji) fun c hc => hold c ?_
      rintro rfl
      obtain ⟨call', -, hsender', -, -⟩ := (h.phases j).waits_of_busy hc hopen hbusy
      rw [hsender] at hsender'
      cases hsender'
      exact hji rfl
  · rw [hmoments]
    by_cases hc : c = conn
    · rw [hc, hself]
      exact fun _ => ⟨rfl, Or.inl rfl⟩
    · rw [hold c hc]
      refine (h.conns c).frame fun j call' hj => hother j ?_
      rintro rfl
      exact hc (h.senders.once c conn j call' call hj hsender)
  · by_cases hc : c = conn
    · rw [hc, hself, hsender]
    · rw [hold c hc]
  · have hne : c ≠ conn := by
      rintro rfl
      exact hbusy (hq.server hopen).1
    rwa [hold c hne]

theorem tidy_handle (h : Tidy max_capacity s) {conn n : ℕ} (hcalm : Calm s (.handle conn n))
    (hstep : step listStr pool_size (.handle conn n) s = some s') : Tidy max_capacity s' := by
  simp only [step] at hstep
  split_ifs at hstep with hready
  · cases hstep
    rw [List.take_of_length_le hcalm]
    obtain ⟨-, hnil | hquit | ⟨j, call, hsender, hbytes, huntaken⟩⟩ := h.conns conn hready.1
    · exact absurd hnil hready.2
    · exact h.serve_quit hready.1 hquit
    · exact h.serve_call hready.1 hsender hbytes huntaken

end Calls

/-- **One step** keeps the invariant. -/
theorem tidy_step (listStr : List Value → Str) (pool_size : ℕ) {l : Step ι}
    (h : Tidy max_capacity s) (hcalm : Calm s l) (hstep : step listStr pool_size l s = some s') :
    Tidy max_capacity s' := by
  cases l with
  | getConnection i call connects => exact tidy_getConnection h hstep
  | send i => exact tidy_send h hstep
  | sendRaises i n => exact tidy_sendRaises h hcalm hstep
  | recv i n => exact tidy_recv h hstep
  | recvRaises i => exact tidy_recvRaises h hstep
  | release i => exact tidy_release h hstep
  | quit n => exact tidy_quit h hcalm hstep
  | handle conn n => exact tidy_handle h hcalm hstep
  | closePeer conn n => exact tidy_closePeer h hstep

end Steps

/-- **A run** keeps the invariant. -/
theorem tidy_run {ι : Type} [DecidableEq ι] {listStr : List Value → Str} {pool_size : ℕ}
    {max_capacity : ℕ+} {steps : List (Step ι)} {s : State ι}
    (hrun : Trans.run (step listStr pool_size) steps (start max_capacity) = some s)
    (hcalm : Trans.Guarded (step listStr pool_size) Calm steps (start max_capacity)) :
    Tidy max_capacity s :=
  Trans.run_invariant (fun _ _ _ h hcalm hstep => tidy_step listStr pool_size h hcalm hstep)
    tidy_start hcalm hrun

/-- What a call has returned, it has noted. -/
theorem Tidy.returned {ι : Type} {max_capacity : ℕ+} {s : State ι} (h : Tidy max_capacity s) {i : ι}
    {val : Value} (hdone : s.phase i = .done (some val)) : .return_ i val ∈ s.moments := by
  have hphase := h.phases i
  rw [hdone] at hphase
  exact hphase val rfl

/-- **The cache is linearizable**, as long as each request arrives in one piece: in every run of the
calls, the handlers, the pool and the network, what the calls return is what they return one at a
time, in the order in which the handlers get to the store; a call that returned before another began
comes before it; one that raised has taken effect at most once. Nothing is under way on a connection
in the pool. -/
theorem linearizable {ι : Type} [DecidableEq ι] (listStr : List Value → Str) (pool_size : ℕ)
    {max_capacity : ℕ+} {steps : List (Step ι)} {s : State ι}
    (hrun : Trans.run (step listStr pool_size) steps (start max_capacity) = some s)
    (hcalm : Trans.Guarded (step listStr pool_size) Calm steps (start max_capacity)) :
    Explained max_capacity s ∧
      (∀ i val, s.phase i = .done (some val) → .return_ i val ∈ s.moments) ∧
      ∀ conn ∈ s.pool, Quiet (s.conns conn) := by
  have h := tidy_run hrun hcalm
  exact ⟨Linear.linearizes_effects h.pointed, fun i val => h.returned,
    fun conn hconn => (h.pooled conn hconn).2⟩

/-- The text of a character. -/
def oneChar (c : Char) (h : c.toNat < 128) : AsciiText :=
  ⟨[c], fun _ hc => by rw [List.mem_singleton.mp hc]; exact h⟩

/-- A `get` that overlaps a `set`, and reads its reply in two pieces. -/
def overlapping : List (Step Bool) :=
  [.getConnection false (.set (oneChar 'k' (by decide)) (oneChar 'v' (by decide))) true,
    .getConnection true (.get (oneChar 'k' (by decide))) true, .send true, .send false,
    .handle 0 4096, .handle 1 4096, .recv true 3, .recv false 4096, .recv true 4096, .release true,
    .release false]

theorem linearizable_overlapping : ∃ s : State Bool,
    Trans.run (step (fun _ => []) 1) overlapping (start 2) = some s ∧ Explained 2 s := by
  have hsome : (Trans.run (step (fun _ => []) 1) overlapping (start 2)).isSome = true := by
    decide +kernel
  have hcalm : Trans.Guarded (step (fun _ => []) 1) Calm overlapping (start 2) := by
    decide +kernel
  obtain ⟨s, hrun⟩ := Option.isSome_iff_exists.mp hsome
  exact ⟨s, hrun, (linearizable (fun _ => []) 1 hrun hcalm).1⟩

end CachePool

end JobSystem
