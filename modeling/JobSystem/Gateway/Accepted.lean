import JobSystem.Gateway.Forward

/-!
# What a 202 means

The acknowledgement that a request takes is its own if every line reaches `read_wrapper` in one piece
and the acknowledgement comes back in one, and if a connection that the coordinator has closed is noticed.

* `Link`, `State.link`: a connection; `Quiet`, `Waiting`, `Acked`; `Pending`, `Done`;
* `Phase.Ok`, `Tidy`: the invariant; `Tidy.unhold`, `Tidy.relink`, `Tidy.hold`, `Tidy.put`: the parts of a
  step;
* `Calm`: the condition on a step; **`tidy_step`**, **`taken_of_calm`**.
-/

namespace JobSystem

open PyText
open PyJson (Json)

namespace Forward

/-! ## A connection -/

/-- Both streams of a connection and the coordinator's buffer, who has closed it, and the counts. -/
structure Link where
  toCoordinator : Bytes
  toGateway : Bytes
  buffer : Bytes
  closed : Bool
  dropped : Bool
  sent : ℕ
  handled : ℕ

/-- A connection in a state. -/
def State.link (s : State) (conn : ℕ) : Link :=
  ⟨s.toCoordinator conn, s.toGateway conn, (s.loop.buffers.get? conn).getD [], s.loop.closed conn,
    s.dropped conn, s.sent conn, s.handled conn⟩

namespace Link

/-- Nothing is under way, unless the coordinator has closed the connection. -/
def Quiet (l : Link) : Prop := l.closed = false →
  l.toCoordinator = [] ∧ l.toGateway = [] ∧ l.buffer = [] ∧ l.handled = l.sent

/-- Complete lines are on their way. -/
def Waiting (l : Link) : Prop :=
  l.toCoordinator ≠ [] ∧ (splitLines 10 l.toCoordinator).2 = [] ∧ l.toGateway = [] ∧ l.buffer = [] ∧
    l.handled + l.toCoordinator.count 10 = l.sent

/-- The lines are handled, and one acknowledgement is on its way. -/
def Acked (l : Link) : Prop :=
  l.toCoordinator = [] ∧ l.toGateway = encodeUtf8 "ACK\n".toList ∧ l.buffer = [] ∧ l.handled = l.sent

/-- A line has been written, and one acknowledgement is to come. -/
def Pending (l : Link) (due : ℕ) : Prop :=
  due = l.sent ∧ (l.closed = false → l.dropped = false ∧ (l.Waiting ∨ l.Acked))

/-- The acknowledgement has come. -/
def Done (l : Link) (due : ℕ) : Prop :=
  l.closed = false ∧ l.dropped = false ∧ l.Quiet ∧ due ≤ l.handled

end Link

/-- What is known of the connection of a request. -/
def Phase.Ok (link : ℕ → Link) : Phase → Prop
  | connected conn _ payload =>
    (link conn).Quiet ∧ payload ≠ [] ∧ (splitLines 10 payload).2 = []
  | sent conn due _ => (link conn).Pending due
  | replied conn due _ => (link conn).Done due
  | released conn due _ => due ≤ (link conn).handled
  | accepted conn due _ => due ≤ (link conn).handled
  | _ => True

/-- **The invariant.** A connection is in the pool, or a request has it, or nobody. -/
structure Tidy (s : State) : Prop where
  distinct : s.pool.Nodup
  pool_lt : ∀ conn ∈ s.pool, conn < s.next
  held_lt : ∀ i conn, (s.phase i).conn? = some conn → conn < s.next
  held_notMem : ∀ i conn, (s.phase i).conn? = some conn → conn ∉ s.pool
  held_unique : ∀ i j conn, (s.phase i).conn? = some conn → (s.phase j).conn? = some conn → i = j
  quiet : ∀ conn, conn ∈ s.pool ∨ s.next ≤ conn → (s.link conn).Quiet
  ok : ∀ i, (s.phase i).Ok s.link
  returned : ∀ p ∈ s.returned, p.2 = false

theorem tidy_start (initial_size : ℕ) : Tidy (start initial_size) where
  distinct := List.nodup_range
  pool_lt conn h := List.mem_range.mp h
  held_lt i conn h := by cases h
  held_notMem i conn h := by cases h
  held_unique i j conn h := by cases h
  quiet conn _ _ := ⟨rfl, rfl, rfl, rfl⟩
  ok i := trivial
  returned p h := absurd h List.not_mem_nil

/-- Nobody has the connection. -/
def State.Free (s : State) (conn : ℕ) : Prop :=
  conn < s.next ∧ conn ∉ s.pool ∧ ∀ i, (s.phase i).conn? ≠ some conn

theorem Phase.Ok.mono {link link' : ℕ → Link} {p : Phase} (h : p.Ok link)
    (hheld : ∀ conn, p.conn? = some conn → link' conn = link conn)
    (hhandled : ∀ conn, (link conn).handled ≤ (link' conn).handled) : p.Ok link' := by
  cases p with
  | connected conn task_id payload => exact ⟨(hheld conn rfl).symm ▸ h.1, h.2⟩
  | sent conn due task_id =>
    show (link' conn).Pending due
    rw [hheld conn rfl]
    exact h
  | replied conn due task_id =>
    show (link' conn).Done due
    rw [hheld conn rfl]
    exact h
  | released conn due task_id => exact le_trans h (hhandled conn)
  | accepted conn due task_id => exact le_trans h (hhandled conn)
  | _ => trivial

/-- What is known of a held connection, when it has changed. -/
theorem Phase.Ok.held {link link' : ℕ → Link} {p : Phase} {conn : ℕ} (h : p.Ok link)
    (hp : p.conn? = some conn) (hquiet : (link conn).Quiet → (link' conn).Quiet)
    (hpending : ∀ due task_id, p = .sent conn due task_id → (link conn).Pending due →
      (link' conn).Pending due)
    (hdone : ∀ due task_id, p = .replied conn due task_id → (link conn).Done due →
      (link' conn).Done due) : p.Ok link' := by
  cases p with
  | connected conn' task_id payload =>
    cases hp
    exact ⟨hquiet h.1, h.2⟩
  | sent conn' due task_id =>
    cases hp
    exact hpending due task_id rfl h
  | replied conn' due task_id =>
    cases hp
    exact hdone due task_id rfl h
  | _ => cases hp

/-! ## The parts of a step -/

theorem conn?_setPhase (s : State) (i j : ℕ) (p : Phase) :
    ((s.setPhase i p).phase j).conn? = if j = i then p.conn? else (s.phase j).conn? := by
  show (Function.update s.phase i p j).conn? = _
  rw [Function.update_apply]
  split_ifs <;> rfl

section Parts

variable {s s' : State} {i conn : ℕ} {p : Phase}

/-- A request comes to have no connection. -/
theorem Tidy.unhold (h : Tidy s) (hp : p.conn? = none) (hok : p.Ok s.link) :
    Tidy (s.setPhase i p) where
  distinct := h.distinct
  pool_lt := h.pool_lt
  held_lt j conn hj := by
    rw [conn?_setPhase, hp] at hj
    split_ifs at hj
    exact h.held_lt j conn hj
  held_notMem j conn hj := by
    rw [conn?_setPhase, hp] at hj
    split_ifs at hj
    exact h.held_notMem j conn hj
  held_unique j k conn hj hk := by
    rw [conn?_setPhase, hp] at hj hk
    split_ifs at hj hk
    exact h.held_unique j k conn hj hk
  quiet := h.quiet
  ok j := by
    show (Function.update s.phase i p j).Ok s.link
    rw [Function.update_apply]
    split_ifs
    · exact hok
    · exact h.ok j
  returned := h.returned

/-- Then nobody has it. -/
theorem Tidy.free_unhold (h : Tidy s) (hi : (s.phase i).conn? = some conn) (hp : p.conn? = none) :
    (s.setPhase i p).Free conn := by
  refine ⟨h.held_lt i conn hi, h.held_notMem i conn hi, fun j hj => ?_⟩
  rw [conn?_setPhase, hp] at hj
  split_ifs at hj with hji
  exact hji (h.held_unique j i conn hj hi)

/-- A request comes to have a connection that nobody has. -/
theorem Tidy.hold (h : Tidy s) (hfree : s.Free conn) (hp : p.conn? = some conn) (hok : p.Ok s.link) :
    Tidy (s.setPhase i p) where
  distinct := h.distinct
  pool_lt := h.pool_lt
  held_lt j conn' hj := by
    rw [conn?_setPhase, hp] at hj
    split_ifs at hj
    · cases hj
      exact hfree.1
    · exact h.held_lt j conn' hj
  held_notMem j conn' hj := by
    rw [conn?_setPhase, hp] at hj
    split_ifs at hj
    · cases hj
      exact hfree.2.1
    · exact h.held_notMem j conn' hj
  held_unique j k conn' hj hk := by
    rw [conn?_setPhase, hp] at hj hk
    split_ifs at hj hk with hji hki
    · rw [hji, hki]
    · cases hj
      exact absurd hk (hfree.2.2 k)
    · cases hk
      exact absurd hj (hfree.2.2 j)
    · exact h.held_unique j k conn' hj hk
  quiet := h.quiet
  ok j := by
    show (Function.update s.phase i p j).Ok s.link
    rw [Function.update_apply]
    split_ifs
    · exact hok
    · exact h.ok j
  returned := h.returned

/-- A change of one connection. -/
theorem Tidy.relink (h : Tidy s) (hpool : s'.pool = s.pool) (hnext : s'.next = s.next)
    (hphase : s'.phase = s.phase) (hreturned : s'.returned = s.returned)
    (hlink : ∀ conn', conn' ≠ conn → s'.link conn' = s.link conn')
    (hhandled : (s.link conn).handled ≤ (s'.link conn).handled)
    (hquiet : conn ∈ s.pool ∨ s.next ≤ conn → (s'.link conn).Quiet)
    (hheld : ∀ i, (s.phase i).conn? = some conn → (s.phase i).Ok s'.link) : Tidy s' where
  distinct := hpool ▸ h.distinct
  pool_lt := by
    rw [hpool, hnext]
    exact h.pool_lt
  held_lt := by
    rw [hphase, hnext]
    exact h.held_lt
  held_notMem := by
    rw [hphase, hpool]
    exact h.held_notMem
  held_unique := by
    rw [hphase]
    exact h.held_unique
  quiet conn' hconn := by
    rw [hpool, hnext] at hconn
    by_cases hc : conn' = conn
    · rw [hc] at hconn ⊢
      exact hquiet hconn
    · rw [hlink conn' hc]
      exact h.quiet conn' hconn
  ok i := by
    rw [hphase]
    by_cases hi : (s.phase i).conn? = some conn
    · exact hheld i hi
    · refine (h.ok i).mono (fun conn' hconn => hlink conn' fun hc => ?_) fun conn' => ?_
      · exact hi (hc ▸ hconn)
      · by_cases hc : conn' = conn
        · rw [hc]
          exact hhandled
        · rw [hlink conn' hc]
  returned := hreturned ▸ h.returned

/-- A change of a connection that nobody has. -/
theorem Tidy.relink_free (h : Tidy s) (hfree : s.Free conn) (hpool : s'.pool = s.pool)
    (hnext : s'.next = s.next) (hphase : s'.phase = s.phase) (hreturned : s'.returned = s.returned)
    (hlink : ∀ conn', conn' ≠ conn → s'.link conn' = s.link conn')
    (hhandled : (s.link conn).handled ≤ (s'.link conn).handled) : Tidy s' := by
  refine h.relink hpool hnext hphase hreturned hlink hhandled (fun hidle => ?_) fun i hi => ?_
  · rcases hidle with hmem | hle
    · exact absurd hmem hfree.2.1
    · exact absurd hfree.1 (not_lt.mpr hle)
  · exact absurd hi (hfree.2.2 i)

/-- A connection that nobody has is put into the pool. -/
theorem Tidy.put (h : Tidy s) (hfree : s.Free conn) (hquiet : (s.link conn).Quiet)
    (hclosed : s.loop.closed conn = false) : Tidy { s with
      pool := s.pool ++ [conn]
      returned := s.returned ++ [(conn, s.loop.closed conn)] } where
  distinct := by
    rw [List.nodup_append]
    refine ⟨h.distinct, List.nodup_singleton conn, fun a ha b hb hab => ?_⟩
    rw [List.mem_singleton.mp hb] at hab
    exact hfree.2.1 (hab ▸ ha)
  pool_lt conn' hmem := by
    rcases List.mem_append.mp hmem with hmem | hmem
    · exact h.pool_lt conn' hmem
    · rw [List.mem_singleton.mp hmem]
      exact hfree.1
  held_lt := h.held_lt
  held_notMem i conn' hi hmem := by
    rcases List.mem_append.mp hmem with hmem | hmem
    · exact h.held_notMem i conn' hi hmem
    · rw [List.mem_singleton.mp hmem] at hi
      exact hfree.2.2 i hi
  held_unique := h.held_unique
  quiet conn' hconn := by
    rw [List.mem_append, List.mem_singleton] at hconn
    rcases hconn with (hmem | rfl) | hle
    · exact h.quiet conn' (.inl hmem)
    · exact hquiet
    · exact h.quiet conn' (.inr hle)
  ok := h.ok
  returned q hq := by
    rcases List.mem_append.mp hq with hq | hq
    · exact h.returned q hq
    · rw [List.mem_singleton.mp hq]
      exact hclosed

end Parts

/-! ## The steps -/

/-- **The condition on a step**: what is sent for a waiting request is read in one piece; the
acknowledgement is received in one piece, and not from a connection that the coordinator has closed; the
coordinator does not close a connection between the acknowledgement and the return to the pool; and the
gateway does not close one, because a client has gone, while another request waits on it. -/
def Calm (s : State) : Step → Prop
  | .recv request n => ∀ conn due task_id, s.phase request = .sent conn due task_id →
      s.loop.closed conn = false ∧ (s.toGateway conn).length ≤ min n 1024
  | .answerRaises request _ => ∀ conn due task_id, s.phase request = .released conn due task_id →
      ∀ i due' task_id', s.phase i ≠ .sent conn due' task_id' ∧ s.phase i ≠ .replied conn due' task_id'
  | .read conn n => (∃ i due task_id, s.phase i = .sent conn due task_id) →
      (s.toCoordinator conn).length ≤ min n 4096
  | .closePeer conn => ∀ i due task_id, s.phase i ≠ .replied conn due task_id
  | _ => True

section Steps

variable {env : LoopEnv} {max_size : ℕ} {s s' : State} {i conn : ℕ} {p : Phase}

theorem link_drop (s : State) (conn : ℕ) :
    (s.drop conn).link conn = { s.link conn with dropped := true } := by
  simp [State.drop, State.link]

theorem link_drop_of_ne (s : State) {conn conn' : ℕ} (h : conn' ≠ conn) :
    (s.drop conn).link conn' = s.link conn' := by
  simp [State.drop, State.link, h]

theorem link_write (s : State) (conn : ℕ) (bytes : Bytes) :
    (s.write conn bytes).link conn = { s.link conn with
      toCoordinator := (s.link conn).toCoordinator ++ bytes
      sent := (s.link conn).sent + bytes.count 10 } := by
  simp [State.write, State.link]

theorem link_write_of_ne (s : State) {conn conn' : ℕ} (h : conn' ≠ conn) (bytes : Bytes) :
    (s.write conn bytes).link conn' = s.link conn' := by
  simp [State.write, State.link, h]

theorem setPhase_setPhase (s : State) (i : ℕ) (p q : Phase) :
    (s.setPhase i p).setPhase i q = s.setPhase i q := by
  simp [State.setPhase]

theorem Tidy.drop (h : Tidy s) (hfree : s.Free conn) : Tidy (s.drop conn) :=
  h.relink_free hfree rfl rfl rfl rfl (fun _ hc => link_drop_of_ne s hc) (link_drop s conn ▸ le_rfl)

theorem Tidy.write (h : Tidy s) (hfree : s.Free conn) (bytes : Bytes) : Tidy (s.write conn bytes) :=
  h.relink_free hfree rfl rfl rfl rfl (fun _ hc => link_write_of_ne s hc bytes)
    (link_write s conn bytes ▸ le_rfl)

/-- The first connection of the pool is taken. -/
theorem Tidy.take {pool : List ℕ} (h : Tidy s) (hpool : s.pool = conn :: pool) :
    Tidy { s with pool := pool } ∧ State.Free { s with pool := pool } conn := by
  have hdistinct := h.distinct
  have hmem : conn ∈ s.pool := hpool ▸ List.mem_cons_self
  have hsub : ∀ c ∈ pool, c ∈ s.pool := fun c hc => hpool ▸ List.mem_cons_of_mem conn hc
  rw [hpool, List.nodup_cons] at hdistinct
  refine ⟨?_, h.pool_lt conn hmem, hdistinct.1, fun i hi => h.held_notMem i conn hi hmem⟩
  exact {
    distinct := hdistinct.2
    pool_lt := fun c hc => h.pool_lt c (hsub c hc)
    held_lt := h.held_lt
    held_notMem := fun j c hj hc => h.held_notMem j c hj (hsub c hc)
    held_unique := h.held_unique
    quiet := fun c hc => h.quiet c (hc.imp_left (hsub c))
    ok := h.ok
    returned := h.returned }

theorem link_accept (s : State) :
    State.link { s with loop := s.loop.acceptWrapper s.next, next := s.next + 1 } s.next =
      { s.link s.next with buffer := [] } := by
  simp [State.link, EventLoop.acceptWrapper, PyDict.get?_set_self]

theorem link_accept_of_ne (s : State) {conn : ℕ} (h : conn ≠ s.next) :
    State.link { s with loop := s.loop.acceptWrapper s.next, next := s.next + 1 } conn =
      s.link conn := by
  simp [State.link, EventLoop.acceptWrapper, PyDict.get?_set_ne _ h]

/-- A new connection. -/
theorem Tidy.accept (h : Tidy s) :
    Tidy { s with loop := s.loop.acceptWrapper s.next, next := s.next + 1 } ∧
      State.Free { s with loop := s.loop.acceptWrapper s.next, next := s.next + 1 } s.next := by
  have hheld : ∀ i, (s.phase i).conn? ≠ some s.next := fun i hi => (h.held_lt i _ hi).false
  refine ⟨?_, Nat.lt_succ_self _, fun hmem => (h.pool_lt _ hmem).false, hheld⟩
  exact {
    distinct := h.distinct
    pool_lt := fun c hc => Nat.lt_succ_of_lt (h.pool_lt c hc)
    held_lt := fun i c hi => Nat.lt_succ_of_lt (h.held_lt i c hi)
    held_notMem := h.held_notMem
    held_unique := h.held_unique
    quiet := by
      intro c hc
      have hne : c ≠ s.next := by
        rintro rfl
        rcases hc with hc | hc
        · exact (h.pool_lt _ hc).false
        · exact absurd hc (Nat.not_succ_le_self _)
      rw [link_accept_of_ne s hne]
      exact h.quiet c (hc.imp_right (Nat.le_of_succ_le))
    ok := by
      intro i
      refine (h.ok i).mono (fun c hc => link_accept_of_ne s fun hcn => ?_) fun c => ?_
      · exact hheld i (hcn ▸ hc)
      · by_cases hcn : c = s.next
        · rw [hcn, link_accept]
        · rw [link_accept_of_ne s hcn]
    returned := h.returned }

/-- The line of a request is complete. -/
theorem submitPayload_spec (body : Bytes) :
    submitPayload body ≠ [] ∧ (splitLines 10 (submitPayload body)).2 = [] := by
  unfold submitPayload
  refine ⟨by simp, ?_⟩
  rw [splitLines_append, splitLines_line (sep_notMem_rest 10 _)]
  rfl

theorem tidy_submit (h : Tidy s) (hi : s.phase i = .idle) {uuid : Str} {body : Bytes} {connects : Bool}
    (hstep : step env max_size (.submit i uuid body connects) s = some s') : Tidy s' := by
  have hline := submitPayload_spec (prepareSubmit env.loads uuid body).2
  rw [step, hi] at hstep
  dsimp only at hstep
  unfold State.getConnection at hstep
  cases hpool : s.pool with
  | cons conn pool =>
    rw [hpool] at hstep
    cases hstep
    obtain ⟨htidy, hfree⟩ := h.take hpool
    exact htidy.hold hfree rfl ⟨h.quiet conn (.inl (hpool ▸ List.mem_cons_self)), hline⟩
  | nil =>
    rw [hpool] at hstep
    cases connects with
    | true =>
      cases hstep
      obtain ⟨htidy, hfree⟩ := h.accept
      rw [← hpool]
      refine htidy.hold hfree rfl ⟨?_, hline⟩
      rw [link_accept]
      exact fun hclosed =>
        have hq := h.quiet s.next (.inr le_rfl) hclosed
        ⟨hq.1, hq.2.1, rfl, hq.2.2.2⟩
    | false =>
      cases hstep
      exact h.unhold rfl trivial

theorem tidy_send {task_id : Option Json} {payload : Bytes} (h : Tidy s)
    (hi : s.phase i = .connected conn task_id payload)
    (hstep : step env max_size (.send i) s = some s') : Tidy s' := by
  rw [step, hi] at hstep
  dsimp only at hstep
  split_ifs at hstep with hdropped
  cases hstep
  have hconn : (s.phase i).conn? = some conn := by rw [hi]; rfl
  have hok := h.ok i
  rw [hi] at hok
  obtain ⟨hquiet, hne, hrest⟩ := hok
  have hidle : Tidy (s.setPhase i .idle) := h.unhold rfl trivial
  have hfree : (s.setPhase i .idle).Free conn := h.free_unhold hconn rfl
  have hsent := (hidle.write hfree payload).hold
    (p := .sent conn ((s.write conn payload).sent conn) task_id) (i := i) hfree rfl ?_
  · rwa [show (s.setPhase i .idle).write conn payload = (s.write conn payload).setPhase i .idle from rfl,
      setPhase_setPhase] at hsent
  · refine ⟨rfl, fun hclosed => ?_⟩
    rw [link_write] at hclosed ⊢
    obtain ⟨hto, hfrom, hbuffer, hhandled⟩ := hquiet hclosed
    refine ⟨Bool.eq_false_iff.mpr hdropped, .inl ⟨?_, ?_, hfrom, hbuffer, ?_⟩⟩
    · show s.toCoordinator conn ++ payload ≠ []
      exact fun hnil => hne (List.append_eq_nil_iff.mp hnil).2
    · show (splitLines 10 (s.toCoordinator conn ++ payload)).2 = []
      rw [show s.toCoordinator conn = [] from hto, List.nil_append, hrest]
    · show s.handled conn + (s.toCoordinator conn ++ payload).count 10 = s.sent conn + payload.count 10
      rw [show s.toCoordinator conn = [] from hto, List.nil_append,
        show s.handled conn = s.sent conn from hhandled]

/-- A request that gives its connection up. -/
theorem Tidy.fail (h : Tidy s) (hi : (s.phase i).conn? = some conn) (answer : Answer) :
    Tidy ((s.setPhase i (.refused answer)).drop conn) :=
  (h.unhold (p := .refused answer) rfl trivial).drop (h.free_unhold hi rfl)

theorem tidy_sendRaises {task_id : Option Json} {payload : Bytes} (h : Tidy s)
    (hi : s.phase i = .connected conn task_id payload) {n : ℕ} {detail : Str}
    (hstep : step env max_size (.sendRaises i n detail) s = some s') : Tidy s' := by
  rw [step, hi] at hstep
  cases hstep
  have hconn : (s.phase i).conn? = some conn := by rw [hi]; rfl
  have hidle : Tidy (s.setPhase i (.refused (.failed detail))) := h.unhold rfl trivial
  exact (hidle.write (h.free_unhold hconn rfl) _).drop (h.free_unhold hconn rfl)

theorem tidy_recv {due : ℕ} {task_id : Option Json} (h : Tidy s)
    (hi : s.phase i = .sent conn due task_id) {n : ℕ} (hclosed : s.loop.closed conn = false)
    (hn : (s.toGateway conn).length ≤ min n 1024)
    (hstep : step env max_size (.recv i n) s = some s') : Tidy s' := by
  have hconn : (s.phase i).conn? = some conn := by rw [hi]; rfl
  have hok := h.ok i
  rw [hi] at hok
  obtain ⟨hdue, hopen⟩ := hok
  obtain ⟨hdropped, hacked⟩ := hopen hclosed
  rw [step, hi] at hstep
  dsimp only at hstep
  split_ifs at hstep with hgot
  · cases hstep
    -- what is taken is the whole acknowledgement
    obtain ⟨hto, -, hbuffer, hhandled⟩ := hacked.resolve_left fun hwaiting => hgot hwaiting.2.2.1
    have hleft : (s.toGateway conn).drop (max 1 (min n 1024)) = [] :=
      List.drop_eq_nil_iff.mpr (hn.trans (le_max_right _ _))
    have hidle : Tidy (s.setPhase i .idle) := h.unhold rfl trivial
    have hfree : (s.setPhase i .idle).Free conn := h.free_unhold hconn rfl
    have htaken : Tidy { s.setPhase i .idle with
        toGateway := Function.update s.toGateway conn [] } := by
      refine hidle.relink_free hfree rfl rfl rfl rfl (fun c hc => ?_) le_rfl
      simp [State.link, State.setPhase, hc]
    rw [hleft, ← setPhase_setPhase _ i .idle]
    refine htaken.hold (p := .replied conn due task_id) hfree rfl ⟨hclosed, hdropped, fun _ => ?_, ?_⟩
    · have hnil : Function.update s.toGateway conn [] conn = [] := by simp
      exact ⟨hto, hnil, hbuffer, hhandled⟩
    · exact (hdue.trans hhandled.symm).le
  · rename_i hend
    rw [hclosed] at hend
    cases hend

theorem tidy_release {due : ℕ} {task_id : Option Json} (h : Tidy s)
    (hi : s.phase i = .replied conn due task_id)
    (hstep : step env max_size (.release i) s = some s') : Tidy s' := by
  rw [step, hi] at hstep
  cases hstep
  have hconn : (s.phase i).conn? = some conn := by rw [hi]; rfl
  have hok := h.ok i
  rw [hi] at hok
  obtain ⟨hclosed, -, hquiet, hdue⟩ := hok
  have hreleased : Tidy (s.setPhase i (.released conn due task_id)) := h.unhold rfl hdue
  have hfree : (s.setPhase i (.released conn due task_id)).Free conn := h.free_unhold hconn rfl
  unfold State.releaseConnection
  split_ifs
  · exact hreleased.drop hfree
  · exact hreleased.put hfree hquiet hclosed

/-- A connection is closed by the gateway while no request waits on it. -/
theorem Tidy.drop_of_not_waiting (h : Tidy s) (hcalm : ∀ i due task_id,
    s.phase i ≠ .sent conn due task_id ∧ s.phase i ≠ .replied conn due task_id) : Tidy (s.drop conn) := by
  have hkeeps : (s.link conn).Quiet → ((s.drop conn).link conn).Quiet := by
    rw [link_drop]
    exact id
  exact h.relink rfl rfl rfl rfl (fun _ hc => link_drop_of_ne s hc) (link_drop s conn ▸ le_rfl)
    (fun hidle => hkeeps (h.quiet conn hidle)) fun i hi => (h.ok i).held hi hkeeps
      (fun due task_id hphase => absurd hphase (hcalm i due task_id).1)
      (fun due task_id hphase => absurd hphase (hcalm i due task_id).2)

/-- The coordinator closes a connection that no request is about to put back. -/
theorem Tidy.closePeer (h : Tidy s) (hcalm : ∀ i due task_id, s.phase i ≠ .replied conn due task_id) :
    Tidy { s with loop := s.loop.close conn } := by
  have hclosed : (State.link { s with loop := s.loop.close conn } conn).closed = true :=
    EventLoop.close_closed s.loop conn
  have hany : ∀ {q : Prop}, (State.link { s with loop := s.loop.close conn } conn).closed = false → q :=
    fun hopen => absurd (hclosed.symm.trans hopen) (by decide)
  refine h.relink rfl rfl rfl rfl (fun c hc => ?_) le_rfl (fun _ => hany) fun i hi => ?_
  · obtain ⟨hclosed, hbuffer⟩ := EventLoop.close_of_ne s.loop hc
    unfold State.link
    rw [hclosed, hbuffer]
  · exact (h.ok i).held hi (fun _ => hany) (fun due task_id _ hpending => ⟨hpending.1, hany⟩)
      (fun due task_id hphase => absurd hphase (hcalm i due task_id))

theorem link_readWrapper_of_ne (s : State) {conn conn' : ℕ} (h : conn' ≠ conn) (data : Bytes) :
    (s.readWrapper env conn data).link conn' = s.link conn' := by
  obtain ⟨hclosed, hbuffers⟩ := @EventLoop.readWrapper_of_ne env _ _ s.loop _ _ h data
  simp [State.readWrapper, State.link, hclosed, hbuffers, h]

theorem le_handled_readWrapper (s : State) (conn : ℕ) (data : Bytes) :
    (s.link conn).handled ≤ ((s.readWrapper env conn data).link conn).handled := by
  show s.handled conn ≤ Function.update s.handled conn _ conn
  rw [Function.update_self]
  exact Nat.le_add_right _ _

/-- **The waiting line is read**, in one piece: it is handled and acknowledged, or the coordinator closes
the connection. -/
theorem pending_readWrapper {due : ℕ} (hdue : due = (s.link conn).sent)
    (hdropped : (s.link conn).dropped = false) (hwaiting : (s.link conn).Waiting) :
    ((s.readWrapper env conn (s.toCoordinator conn)).link conn).Pending due := by
  obtain ⟨-, hline, hfrom, hbuffer, hhandled⟩ := hwaiting
  refine ⟨hdue, fun hopen => ⟨hdropped, .inr ?_⟩⟩
  obtain ⟨hbuffers, hreplies, hserved⟩ := EventLoop.readWrapper_of_open hopen
  change (s.loop.buffers.get? conn).getD [] = [] at hbuffer
  rw [hbuffer, List.nil_append] at hbuffers hserved
  refine ⟨?_, ?_, ?_, ?_⟩
  · show Function.update s.toCoordinator conn _ conn = []
    rw [Function.update_self, List.drop_length]
  · show Function.update s.toGateway conn _ conn = _
    rw [Function.update_self, hreplies, show s.toGateway conn = [] from hfrom, List.nil_append]
  · show ((s.loop.readWrapper env conn (s.toCoordinator conn)).buffers.get? conn).getD [] = []
    rw [hbuffers, Option.getD_some]
    exact hline
  · show Function.update s.handled conn _ conn = s.sent conn
    rw [Function.update_self, hserved]
    exact hhandled

theorem tidy_read {n : ℕ} (h : Tidy s)
    (hcalm : (∃ i due task_id, s.phase i = .sent conn due task_id) →
      (s.toCoordinator conn).length ≤ min n 4096)
    (hstep : step env max_size (.read conn n) s = some s') : Tidy s' := by
  rw [step] at hstep
  split_ifs at hstep with hclosed hbytes hdropped
  · cases hstep
    rw [Bool.not_eq_true] at hclosed
    -- a connection on which nothing is under way has no bytes
    have hbusy : ∀ {q : Prop}, (s.link conn).Quiet → q := fun hquiet =>
      absurd (hquiet hclosed).1 hbytes
    refine h.relink rfl rfl rfl rfl (fun c hc => link_readWrapper_of_ne s hc _)
      (le_handled_readWrapper s conn _) (fun hidle => hbusy (h.quiet conn hidle)) fun i hi => ?_
    refine (h.ok i).held hi hbusy (fun due task_id hphase hpending => ?_)
      (fun due task_id _ hdone => hbusy hdone.2.2.1)
    obtain ⟨hdropped, hwaiting⟩ := hpending.2 hclosed
    have hall : (s.toCoordinator conn).take (max 1 (min n 4096)) = s.toCoordinator conn :=
      List.take_of_length_le ((hcalm ⟨i, due, task_id, hphase⟩).trans (le_max_right _ _))
    rw [hall]
    exact pending_readWrapper hpending.1 hdropped
      (hwaiting.resolve_right fun hacked => hbytes hacked.1)
  · cases hstep
    rw [not_not] at hbytes
    -- the end of the stream closes the connection
    have hend : ((s.readWrapper env conn []).link conn).closed = true :=
      EventLoop.close_closed s.loop conn
    have hany : ∀ {q : Prop}, ((s.readWrapper env conn []).link conn).closed = false → q :=
      fun hopen => absurd (hend.symm.trans hopen) (by decide)
    refine h.relink rfl rfl rfl rfl (fun c hc => link_readWrapper_of_ne s hc _)
      (le_handled_readWrapper s conn _) (fun _ => hany) fun i hi => ?_
    exact (h.ok i).held hi (fun _ => hany) (fun due task_id _ hpending => ⟨hpending.1, hany⟩)
      (fun due task_id _ hdone => absurd (hdropped.symm.trans hdone.2.1) (by decide))

/-- **A step.** -/
theorem tidy_step {st : Step} (h : Tidy s) (hcalm : Calm s st)
    (hstep : step env max_size st s = some s') : Tidy s' := by
  cases st with
  | submit i uuid body connects =>
    cases hphase : s.phase i with
    | idle => exact tidy_submit h hphase hstep
    | _ =>
      rw [step, hphase] at hstep
      cases hstep
  | send i =>
    cases hphase : s.phase i with
    | connected conn task_id payload => exact tidy_send h hphase hstep
    | _ =>
      rw [step, hphase] at hstep
      cases hstep
  | sendRaises i n detail =>
    cases hphase : s.phase i with
    | connected conn task_id payload => exact tidy_sendRaises h hphase hstep
    | _ =>
      rw [step, hphase] at hstep
      cases hstep
  | recv i n =>
    cases hphase : s.phase i with
    | sent conn due task_id =>
      obtain ⟨hclosed, hn⟩ := hcalm conn due task_id hphase
      exact tidy_recv h hphase hclosed hn hstep
    | _ =>
      rw [step, hphase] at hstep
      cases hstep
  | recvRaises i detail =>
    cases hphase : s.phase i with
    | sent conn due task_id =>
      rw [step, hphase] at hstep
      cases hstep
      exact h.fail (by rw [hphase]; rfl) _
    | _ =>
      rw [step, hphase] at hstep
      cases hstep
  | release i =>
    cases hphase : s.phase i with
    | replied conn due task_id => exact tidy_release h hphase hstep
    | _ =>
      rw [step, hphase] at hstep
      cases hstep
  | answer i =>
    cases hphase : s.phase i with
    | released conn due task_id =>
      have hok := h.ok i
      rw [hphase] at hok
      rw [step, hphase] at hstep
      cases hstep
      exact h.unhold (p := .accepted conn due task_id) rfl hok
    | _ =>
      rw [step, hphase] at hstep
      cases hstep
  | answerRaises i detail =>
    cases hphase : s.phase i with
    | released conn due task_id =>
      rw [step, hphase] at hstep
      cases hstep
      exact (h.drop_of_not_waiting (hcalm conn due task_id hphase)).unhold rfl trivial
    | _ =>
      rw [step, hphase] at hstep
      cases hstep
  | read conn n => exact tidy_read h hcalm hstep
  | closePeer conn =>
    cases hstep
    exact h.closePeer hcalm

end Steps

theorem taken_of_tidy {s : State} (h : Tidy s) : Taken s := by
  refine ⟨fun i conn due task_id hphase => ?_, h.returned⟩
  have hok := h.ok i
  rw [hphase] at hok
  exact hok

/-- **In every run of such steps** a 202 means that the line was handled, and no closed connection is put
back. -/
theorem taken_of_calm (env : LoopEnv) (max_size initial_size : ℕ) {steps : List Step} {s : State}
    (hcalm : Trans.Guarded (step env max_size) Calm steps (start initial_size))
    (hrun : Trans.run (step env max_size) steps (start initial_size) = some s) : Taken s :=
  taken_of_tidy (Trans.run_invariant (fun _ _ _ => tidy_step) (tidy_start initial_size) hcalm hrun)

/-- What a run leaves can be read off. -/
theorem of_run {α : Type} {env : LoopEnv} {max_size : ℕ} {steps : List Step} {s t : State} {f : State → α}
    {a : α} (h : Trans.run (step env max_size) steps s = some t)
    (hf : (Trans.run (step env max_size) steps s).map f = some a) : f t = a := by
  rw [h] at hf
  exact Option.some.inj hf

/-- The body of a job. -/
def jobBody : Bytes := encodeUtf8 "\x7b\"id\": \"1\", \"job_type\": \"a\"\x7d".toList

/-- One request whose line is read and acknowledged. -/
theorem taken_of_calm_oneJob : ∃ s, Trans.run (step libraryEnv 64) [.submit 0 [] jobBody false, .send 0,
    .read 0 4096, .recv 0 1024, .release 0, .answer 0] (start 1) = some s ∧ Taken s ∧
      s.returned = [(0, false)] := by
  obtain ⟨s, hs⟩ := Option.isSome_iff_exists.mp (show (Trans.run (step libraryEnv 64)
    [.submit 0 [] jobBody false, .send 0, .read 0 4096, .recv 0 1024, .release 0, .answer 0]
      (start 1)).isSome = true by decide +kernel)
  have hcalm : Trans.Guarded (step libraryEnv 64) Calm [.submit 0 [] jobBody false, .send 0,
      .read 0 4096, .recv 0 1024, .release 0, .answer 0] (start 1) := by
    refine ⟨trivial, fun s₁ h₁ => ⟨trivial, fun s₂ h₂ => ⟨fun _ => ?_, fun s₃ h₃ =>
      ⟨fun conn due task_id hphase => ?_, fun _ _ => ⟨trivial, fun _ _ => ⟨trivial, fun _ _ =>
        trivial⟩⟩⟩⟩⟩⟩
    · have hrun : Trans.run (step libraryEnv 64) [.submit 0 [] jobBody false, .send 0] (start 1) = some s₂ :=
        Trans.run_cons_eq_some.mpr ⟨s₁, h₁, Trans.run_cons_eq_some.mpr ⟨s₂, h₂, rfl⟩⟩
      rw [of_run (f := fun s => (s.toCoordinator 0).length) (a := 29) hrun (by decide +kernel)]
      decide
    · have hrun : Trans.run (step libraryEnv 64) [.submit 0 [] jobBody false, .send 0, .read 0 4096]
          (start 1) = some s₃ := Trans.run_cons_eq_some.mpr ⟨s₁, h₁, Trans.run_cons_eq_some.mpr
        ⟨s₂, h₂, Trans.run_cons_eq_some.mpr ⟨s₃, h₃, rfl⟩⟩⟩
      have hconn : (s₃.phase 0).conn? = some 0 :=
        of_run (f := fun s => (s.phase 0).conn?) hrun (by decide +kernel)
      rw [hphase] at hconn
      cases hconn
      rw [of_run (f := fun s => s.loop.closed 0) (a := false) hrun (by decide +kernel),
        of_run (f := fun s => (s.toGateway 0).length) (a := 4) hrun (by decide +kernel)]
      decide
  exact ⟨s, hs, taken_of_calm libraryEnv 64 1 hcalm hs, of_run hs (by decide +kernel)⟩

/-- **The coordinator closes the connection before it reads the line**: `recv` returns nothing, and the
job is accepted all the same. -/
theorem not_taken_closedPeer : ¬ ∀ steps s,
    Trans.run (step libraryEnv 64) steps (start 1) = some s → Taken s := by
  intro h
  obtain ⟨s, hs⟩ := Option.isSome_iff_exists.mp (show (Trans.run (step libraryEnv 64)
    [.submit 0 [] jobBody false, .send 0, .closePeer 0, .recv 0 1024, .release 0, .answer 0]
      (start 1)).isSome = true by decide +kernel)
  have hearly : (match s.phase 0 with
      | .accepted conn due _ => decide (s.handled conn < due)
      | _ => false) = true := of_run (f := fun s : State => match s.phase 0 with
        | .accepted conn due _ => decide (s.handled conn < due)
        | _ => false) hs (by decide +kernel)
  cases hphase : s.phase 0 with
  | accepted conn due task_id =>
    rw [hphase] at hearly
    exact absurd ((h _ s hs).accepted 0 conn due task_id hphase)
      (not_le.mpr (of_decide_eq_true hearly))
  | _ =>
    rw [hphase] at hearly
    cases hearly

end Forward

end JobSystem
