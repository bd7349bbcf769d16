import JobSystem.Coordinator.System
import JobSystem.Metrics.Collector

/-!
# The reported queue depth

The running system with a collector on the same bus. A round of the assigner is two steps, the choice
and the publication; the collector's subscriptions drain their own channels.

* `published`, **`bus_step`**: what each step of the system publishes;
* `MeteredSystem`, `step`;
* `Seen`: no job comes into the queue unannounced, and no assignment is seen before its submission;
* `Even`, `even_step`: submissions and assignments that wait make up the difference;
* **`depth_eq_qsize`**: runs.
-/

namespace JobSystem

open PyText Trans
open PyJson (Json)

/-- `job_queue.qsize()`. -/
def JobPriorityQueue.qsize (q : JobPriorityQueue) : ℕ := q.pq.length

/-! ## What the system publishes -/

namespace System

/-- The events that a handler publishes. -/
def replies (s : System) (now : ℚ) : Subscription → Event → List Event
  | .handle_job_completed, .jobCompleted w _ _ => (s.coord.handleJobCompleted w).2
  | .handle_task_failed, .taskFailed w job error => (s.coord.handleTaskFailed w job error now).2
  | _, _ => []

/-- The events that a step publishes. -/
def published (s : System) : Label → List Event
  | .submit job => [.jobSubmitted job]
  | .register w capacity => [.register w capacity]
  | .heartbeat w => [.heartbeat w]
  | .assign now => (s.coord.assign now).2
  | .deliver sub now => (s.bus sub).head?.elim [] (s.replies now sub)
  | .complete i result => s.running[i]?.elim [] fun p => [.jobCompleted p.1 p.2 result]
  | .fail i error => s.running[i]?.elim [] fun p => [.taskFailed p.1 p.2 error]
  | .crash _ => []
  | .monitor w _ => [.workerFailed w]

/-- The channels, once a delivery has taken its event. -/
def taken (s : System) : Label → Bus Subscription Event
  | .deliver sub _ => s.bus.rest sub
  | _ => s.bus

variable {repr : Json → Str} {s t : System}

/-- **The bus after a step**: the events that it publishes, behind those that wait. -/
theorem bus_step {l : Label} (h : step repr l s = some t) :
    t.bus = (s.taken l).publishAll Subscription.listens (s.published l) := by
  cases l with
  | submit job => cases h; rfl
  | register w capacity => cases h; rfl
  | assign now => cases h; rfl
  | heartbeat w =>
    simp only [step] at h
    split_ifs at h
    cases h
    rfl
  | crash w =>
    simp only [step] at h
    split_ifs at h
    cases h
    rfl
  | monitor w now =>
    simp only [step] at h
    split at h
    · split_ifs at h
      cases h
      rfl
    · cases h
  | complete i result =>
    obtain ⟨p, hp, rfl⟩ := Option.map_eq_some_iff.mp h
    rw [published, hp]
    rfl
  | fail i error =>
    obtain ⟨p, hp, rfl⟩ := Option.map_eq_some_iff.mp h
    rw [published, hp]
    rfl
  | deliver sub now =>
    simp only [step] at h
    cases hb : s.bus sub with
    | nil =>
      rw [hb] at h
      cases h
    | cons e es =>
      rw [hb] at h
      cases h
      rw [published, hb]
      show (handle repr { s with bus := s.bus.rest sub } now sub e).bus =
        (s.bus.rest sub).publishAll Subscription.listens (s.replies now sub e)
      cases sub <;> cases e <;> try rfl
      -- `send_to_worker` publishes nothing, whether the worker is connected or not
      unfold handle
      dsimp only
      split_ifs <;> rfl

/-- Only the assigner publishes assignments. -/
theorem topic_published {l : Label} (hl : ∀ now, l ≠ .assign now) {e : Event}
    (he : e ∈ s.published l) : .TASK_ASSIGNED ≠ e.topic := by
  cases l with
  | assign now => exact absurd rfl (hl now)
  | submit job =>
    rw [List.mem_singleton.mp he]
    simp [Event.topic]
  | register w capacity =>
    rw [List.mem_singleton.mp he]
    simp [Event.topic]
  | heartbeat w =>
    rw [List.mem_singleton.mp he]
    simp [Event.topic]
  | monitor w now =>
    rw [List.mem_singleton.mp he]
    simp [Event.topic]
  | crash w => cases he
  | complete i result =>
    rw [published] at he
    cases hp : s.running[i]? with
    | none =>
      rw [hp] at he
      cases he
    | some p =>
      rw [hp] at he
      rw [List.mem_singleton.mp he]
      simp [Event.topic]
  | fail i error =>
    rw [published] at he
    cases hp : s.running[i]? with
    | none =>
      rw [hp] at he
      cases he
    | some p =>
      rw [hp] at he
      rw [List.mem_singleton.mp he]
      simp [Event.topic]
  | deliver sub now =>
    rw [published] at he
    cases hhead : (s.bus sub).head? with
    | none =>
      rw [hhead] at he
      cases he
    | some e' =>
      rw [hhead] at he
      have hreply : e ∈ s.replies now sub e' := he
      unfold replies at hreply
      split at hreply
      · obtain ⟨level, message, rfl⟩ := CoordinatorService.mem_handleJobCompleted_events hreply
        simp [Event.topic]
      · rcases CoordinatorService.mem_handleTaskFailed_events hreply with
          ⟨level, message, rfl⟩ | ⟨error', rfl⟩
        · simp [Event.topic]
        · simp [Event.topic]
      · cases hreply

/-! ## The backlog -/

/-- No job comes into the queue without a `JOB_SUBMITTED`: a job that fails has no retry left, and a
worker that fails has no job assigned in the database. -/
def Announced (s : System) : Label → Prop
  | .deliver .handle_task_failed _ => ∀ w job error,
      (s.bus .handle_task_failed).head? = some (.taskFailed w job error) →
        s.coord.max_retries < s.coord.retryCount job.id
  | .deliver .handle_worker_failed _ => ∀ w,
      (s.bus .handle_worker_failed).head? = some (.workerFailed w) → w ≠ [] →
        s.coord.task_repo.getAssignedTasksForWorker w = []
  | _ => True

/-- The submissions that wait for the scheduler. -/
def unqueued (bus : Bus Subscription Event) : ℕ := (bus .handle_job_submitted).length

theorem unqueued_rest {sub : Subscription} (h : sub ≠ .handle_job_submitted)
    (bus : Bus Subscription Event) : unqueued (bus.rest sub) = unqueued bus := by
  unfold unqueued
  rw [Bus.rest_ne h.symm]

/-- **The backlog**: a submission moves from the channel into the queue, and nothing else comes in. -/
theorem backlog_step (hheard : s.bus.Heard Subscription.listens) {l : Label}
    (hl : ∀ now, l ≠ .assign now) (hann : s.Announced l) (h : step repr l s = some t) :
    t.coord.job_queue.qsize + unqueued (s.taken l) = s.coord.job_queue.qsize + unqueued s.bus := by
  cases step_cases hheard h with
  | submit | register | heartbeat | complete | fail | crash | monitor => rfl
  | idle now m => exact absurd rfl (hl now)
  | assign now m e q w hpq hcounter hw => exact absurd rfl (hl now)
  | handle_job_submitted now job es hb =>
    have hlen := (List.perm_orderedInsert QueueEntry.Le
      ⟨job.priorityNum, s.coord.job_queue.counter + 1, job⟩ s.coord.job_queue.pq).length_eq
    show (s.coord.job_queue.addJob job).pq.length + (s.bus.rest _ _).length = _ + (s.bus _).length
    rw [Bus.rest_self, hb]
    show (List.orderedInsert _ _ _).length + es.length = s.coord.job_queue.pq.length + (es.length + 1)
    rw [hlen, List.length_cons]
    omega
  | handle_task_failed now w job error es hb =>
    have hspent := hann w job error (by rw [hb]; rfl)
    obtain ⟨-, -, hqueue, -⟩ := CoordinatorService.handleTaskFailed_of_lt w error now (not_le.mpr hspent)
    show (s.coord.handleTaskFailed w job error now).1.job_queue.qsize + unqueued (s.bus.rest _) = _
    rw [hqueue, unqueued_rest (by decide)]
  | handle_worker_failed now w es hb =>
    show (s.coord.handleWorkerFailed w).job_queue.qsize + unqueued (s.bus.rest _) = _
    rw [unqueued_rest (by decide), CoordinatorService.handleWorkerFailed]
    split_ifs with hw
    · rfl
    · rw [hann w (by rw [hb]; rfl) hw]
      rfl
  | handle_register now w capacity es hb =>
    show (s.coord.handleRegister w capacity now).job_queue.qsize + unqueued (s.bus.rest _) = _
    rw [unqueued_rest (by decide), (CoordinatorService.sameJobs_handleRegister _ _ _ _).job_queue]
  | handle_heartbeat now w es hb =>
    show (s.coord.handleHeartbeat w now).job_queue.qsize + unqueued (s.bus.rest _) = _
    rw [unqueued_rest (by decide), (CoordinatorService.sameJobs_handleHeartbeat _ _ _).job_queue]
  | handle_worker_failure now w es hb =>
    show (s.coord.handleWorkerFailure w).job_queue.qsize + unqueued (s.bus.rest _) = _
    rw [unqueued_rest (by decide), (CoordinatorService.sameJobs_handleWorkerFailure _ _).job_queue]
  | handle_job_completed now w job result es hb =>
    show (s.coord.handleJobCompleted w).1.job_queue.qsize + unqueued (s.bus.rest _) = _
    rw [unqueued_rest (by decide), (CoordinatorService.sameJobs_handleJobCompleted _ _).job_queue]
  | persist_worker now w capacity es hb =>
    exact congrArg (s.coord.job_queue.qsize + ·) (unqueued_rest (by decide) s.bus)
  | persist_task now job es hb =>
    exact congrArg (s.coord.job_queue.qsize + ·) (unqueued_rest (by decide) s.bus)
  | persist_task_assigned now w job es hb =>
    exact congrArg (s.coord.job_queue.qsize + ·) (unqueued_rest (by decide) s.bus)
  | persist_task_completed now w job result es hb =>
    exact congrArg (s.coord.job_queue.qsize + ·) (unqueued_rest (by decide) s.bus)
  | send_to_worker now w job es sent hb hsent =>
    exact congrArg (s.coord.job_queue.qsize + ·) (unqueued_rest (by decide) s.bus)

end System

/-- The assignments among some events. -/
def assignments (es : List Event) : ℕ := es.countP fun e => .TASK_ASSIGNED = e.topic

/-- **A round of the assigner** takes from the queue the jobs whose assignment it publishes. -/
theorem CoordinatorService.qsize_assign (c : CoordinatorService) (now : Str → ℚ) :
    (c.assign now).1.job_queue.qsize + assignments (c.assign now).2 = c.job_queue.qsize := by
  have halerts : assignments (c.admitAvailable now).2.2 = 0 := by
    refine List.countP_eq_zero.mpr fun e he => ?_
    obtain ⟨level, message, rfl⟩ := alerts_admitAll _ he
    simp [Event.topic]
  cases hq : c.job_queue.isEmpty with
  | true =>
    rw [assign_of_isEmpty hq]
    rfl
  | false =>
    by_cases hp : ∃ w, w ≠ [] ∧ Preferred (c.admitted now) w
    · obtain ⟨w, hw, hp⟩ := hp
      obtain ⟨e, q, hpq, -, hassign⟩ := assign_of_preferred hq hw hp
      rw [hassign]
      show q.pq.length + assignments (_ ++ [Event.taskAssigned w e.job]) = c.job_queue.pq.length
      rw [assignments, List.countP_append, hpq]
      show _ + (assignments _ + 1) = _
      rw [halerts, List.length_cons]
    · push Not at hp
      rw [assign_of_not_preferred hq hp]
      show c.job_queue.qsize + assignments _ = _
      rw [halerts]
      rfl

/-! ## The collector on the bus -/

/-- The subscriptions of `MetricsCollector.__init__`, without the one to `JOB_STARTED`, which is not
an event of the system. -/
inductive MetricsSubscription where
  | on_register
  | on_worker_failed
  | on_job_submitted
  | on_task_assigned
  | on_job_completed
  | on_task_failed
  | on_alert_received
  deriving DecidableEq

namespace MetricsSubscription

instance : Fintype MetricsSubscription :=
  Fintype.ofList
    [on_register, on_worker_failed, on_job_submitted, on_task_assigned, on_job_completed,
      on_task_failed, on_alert_received]
    fun sub => by cases sub <;> decide

/-- The topic subscribed to. -/
def topic : MetricsSubscription → Topic
  | on_register => .REGISTER
  | on_worker_failed => .WORKER_FAILED
  | on_job_submitted => .JOB_SUBMITTED
  | on_task_assigned => .TASK_ASSIGNED
  | on_job_completed => .JOB_COMPLETED
  | on_task_failed => .TASK_FAILED
  | on_alert_received => .ALERT_EVENT

/-- The events that reach a subscription. -/
def listens (sub : MetricsSubscription) (e : Event) : Bool := sub.topic = e.topic

end MetricsSubscription

/-- `handler_func(event)`, with the alerts that it publishes. -/
def MetricsCollector.handle (m : MetricsCollector) (now : ℚ) :
    MetricsSubscription → Event → MetricsCollector × List Event
  | .on_register, .register w _ => m.onRegister w now
  | .on_worker_failed, .workerFailed w => m.onWorkerFailed w now
  | .on_job_submitted, .jobSubmitted _ => (m.onJobSubmitted now, [])
  | .on_task_assigned, .taskAssigned _ _ => (m.onTaskAssigned now, [])
  | .on_job_completed, .jobCompleted _ job _ => (m.onJobCompleted job now, [])
  | .on_task_failed, .taskFailed w job _ => m.onTaskFailed w job now
  | .on_alert_received, .alert level message => (m.onAlertReceived level message, [])
  | _, _ => (m, [])

/-- The system, the collector with its channels, and the events of a round of the assigner that it
has not published yet. -/
structure MeteredSystem where
  sys : System
  collector : MetricsCollector
  metrics : Bus MetricsSubscription Event
  half : Option (List Event)

namespace MeteredSystem

/-- The steps. -/
inductive Label where
  | sys (l : System.Label)
  | choose (now : Str → ℚ)
  | publish
  | deliver (sub : MetricsSubscription) (now : ℚ)

/-- `publish`, for each event, on both sides. -/
def publishAll (s : MeteredSystem) (es : List Event) : MeteredSystem :=
  { s with
    sys := s.sys.publishAll es
    metrics := s.metrics.publishAll MetricsSubscription.listens es }

/-- A round of the assigner is a choice and a publication, with other steps between them. -/
def step (repr : Json → Str) : Machine MeteredSystem Label
  | .sys (.assign _), _ => none
  | .sys l, s =>
    (System.step repr l s.sys).map fun t =>
      { s with
        sys := t
        metrics := s.metrics.publishAll MetricsSubscription.listens (s.sys.published l) }
  | .choose now, s =>
    match s.half with
    | none =>
      let r := s.sys.coord.assign now
      some { s with sys := { s.sys with coord := r.1 }, half := some r.2 }
    | some _ => none
  | .publish, s => s.half.map fun es => { s with half := none }.publishAll es
  | .deliver sub now, s =>
    match s.metrics sub with
    | [] => none
    | e :: _ =>
      let r := s.collector.handle now sub e
      some ({ s with collector := r.1, metrics := s.metrics.rest sub }.publishAll r.2)

/-- A system and a collector that have just started. -/
def start (window_start : ℚ) (failure_threshold : ℤ) (recovery_timeout heartbeat_timeout : ℚ)
    (max_retries : ℤ) (store : PostgresStore) : MeteredSystem :=
  ⟨.start failure_threshold recovery_timeout heartbeat_timeout max_retries store, .new window_start,
    .silent, none⟩

/-- Every event has been handled by all its subscribers, and no assignment is half done. -/
def Quiet (s : MeteredSystem) : Prop :=
  s.sys.Quiet ∧ (∀ sub, (s.metrics sub).isEmpty = true) ∧ s.half.isNone = true

instance : DecidablePred Quiet := fun s =>
  inferInstanceAs (Decidable (s.sys.Quiet ∧ (∀ sub, (s.metrics sub).isEmpty = true) ∧ _))

/-- The reported queue depth. -/
def depth (s : MeteredSystem) : ℕ := s.collector.telemetry.queue_depth

/-- The real one. -/
def qsize (s : MeteredSystem) : ℕ := s.sys.coord.job_queue.qsize

/-- No job comes into the queue unannounced, and the collector counts a submission before it counts
an assignment off. -/
def Seen (s : MeteredSystem) : Label → Prop
  | .sys l => s.sys.Announced l
  | .deliver .on_task_assigned _ => 0 < s.depth
  | _ => True

/-- Submissions and assignments that wait make up the difference of the two depths. -/
structure Even (s : MeteredSystem) : Prop where
  heard : s.sys.bus.Heard Subscription.listens
  metricsHeard : s.metrics.Heard MetricsSubscription.listens
  balance : s.depth + (s.metrics .on_job_submitted).length =
    s.qsize + System.unqueued s.sys.bus + (s.metrics .on_task_assigned).length +
      assignments (s.half.getD [])

section Step

variable {s s' : MeteredSystem}

theorem even_start (window_start : ℚ) (failure_threshold : ℤ)
    (recovery_timeout heartbeat_timeout : ℚ) (max_retries : ℤ) (store : PostgresStore) :
    (start window_start failure_threshold recovery_timeout heartbeat_timeout max_retries store).Even where
  heard := Bus.Heard.silent
  metricsHeard := Bus.Heard.silent
  balance := rfl

/-- Published submissions wait on both sides, and published assignments at the collector. -/
theorem length_publishAll (s : MeteredSystem) (es : List Event) : ∃ n,
    ((s.publishAll es).metrics .on_job_submitted).length = (s.metrics .on_job_submitted).length + n ∧
    System.unqueued (s.publishAll es).sys.bus = System.unqueued s.sys.bus + n ∧
    ((s.publishAll es).metrics .on_task_assigned).length =
      (s.metrics .on_task_assigned).length + assignments es :=
  ⟨_, Bus.length_publishAll es _, Bus.length_publishAll es _, Bus.length_publishAll es _⟩

theorem Even.sys (h : s.Even) (repr : Json → Str) {l : System.Label} (hl : ∀ now, l ≠ .assign now)
    (hann : s.sys.Announced l) {t : System} (ht : System.step repr l s.sys = some t) :
    Even { s with
      sys := t
      metrics := s.metrics.publishAll MetricsSubscription.listens (s.sys.published l) } := by
  have hbus := System.bus_step ht
  have htaken : (s.sys.taken l).Heard Subscription.listens := by
    unfold System.taken
    split
    · exact h.heard.rest _
    · exact h.heard
  have hnone : assignments (s.sys.published l) = 0 :=
    List.countP_eq_zero.mpr fun e he heq =>
      System.topic_published hl he (of_decide_eq_true heq)
  obtain ⟨n, hsubmitted, hunqueued, hassigned⟩ :=
    length_publishAll { s with sys := { s.sys with bus := s.sys.taken l } } (s.sys.published l)
  refine ⟨?_, h.metricsHeard.publishAll _, ?_⟩
  · show t.bus.Heard _
    rw [hbus]
    exact htaken.publishAll _
  · have hbacklog := System.backlog_step h.heard hl hann ht
    have hbalance := h.balance
    show s.depth + _ = t.coord.job_queue.qsize + System.unqueued t.bus + _ +
      assignments (s.half.getD [])
    rw [hbus]
    unfold qsize at hbalance
    simp only [publishAll, System.publishAll] at hsubmitted hunqueued hassigned
    rw [hsubmitted, hunqueued, hassigned, hnone]
    omega

theorem Even.choose (h : s.Even) (hhalf : s.half = none) (now : Str → ℚ) :
    Even { s with
      sys := { s.sys with coord := (s.sys.coord.assign now).1 }
      half := some (s.sys.coord.assign now).2 } := by
  refine ⟨h.heard, h.metricsHeard, ?_⟩
  have hbalance := h.balance
  have hassign := s.sys.coord.qsize_assign now
  rw [hhalf] at hbalance
  unfold qsize at hbalance
  show s.depth + _ = (s.sys.coord.assign now).1.job_queue.qsize + _ + _ + assignments _
  change _ = _ + _ + _ + 0 at hbalance
  simp only [Option.getD_some]
  omega

theorem Even.publish (h : s.Even) {es : List Event} (hhalf : s.half = some es) :
    ({ s with half := none }.publishAll es).Even := by
  refine ⟨h.heard.publishAll _, h.metricsHeard.publishAll _, ?_⟩
  obtain ⟨n, hsubmitted, hunqueued, hassigned⟩ := length_publishAll { s with half := none } es
  have hbalance := h.balance
  rw [hhalf, Option.getD_some] at hbalance
  rw [hsubmitted, hunqueued, hassigned]
  show s.depth + _ = s.qsize + _ + _ + 0
  dsimp only
  omega

/-- What the collector publishes are alerts. -/
theorem assignments_handle (m : MetricsCollector) (now : ℚ) (sub : MetricsSubscription) (e : Event) :
    assignments (m.handle now sub e).2 = 0 := by
  cases sub <;> cases e <;> rfl

/-- The depth after the collector has handled an event. -/
theorem queue_depth_handle (m : MetricsCollector) (now : ℚ) (sub : MetricsSubscription) (e : Event)
    (hsub : sub.listens e = true) :
    (m.handle now sub e).1.telemetry.queue_depth =
      if sub = .on_job_submitted then m.telemetry.queue_depth + 1
      else if sub = .on_task_assigned then m.telemetry.queue_depth - 1
      else m.telemetry.queue_depth := by
  cases sub with
  | on_register =>
    cases e with
    | register w capacity => exact m.queue_depth_onRegister w now
    | _ => rfl
  | on_worker_failed =>
    cases e with
    | workerFailed w => exact m.queue_depth_onWorkerFailed w now
    | _ => rfl
  | on_job_submitted =>
    cases e with
    | jobSubmitted job => exact m.queue_depth_onJobSubmitted now
    | _ => cases hsub
  | on_task_assigned =>
    cases e with
    | taskAssigned w job => exact m.queue_depth_onTaskAssigned now
    | _ => cases hsub
  | on_job_completed =>
    cases e with
    | jobCompleted w job result => exact m.queue_depth_onJobCompleted job now
    | _ => rfl
  | on_task_failed =>
    cases e with
    | taskFailed w job error => exact m.queue_depth_onTaskFailed w job now
    | _ => rfl
  | on_alert_received => cases e <;> rfl

theorem Even.deliver (h : s.Even) {sub : MetricsSubscription} {now : ℚ}
    (hseen : s.Seen (.deliver sub now)) {e : Event} {es : List Event} (hb : s.metrics sub = e :: es) :
    ({ s with
        collector := (s.collector.handle now sub e).1
        metrics := s.metrics.rest sub }.publishAll (s.collector.handle now sub e).2).Even := by
  refine ⟨h.heard.publishAll _, (h.metricsHeard.rest sub).publishAll _, ?_⟩
  obtain ⟨n, hsubmitted, hunqueued, hassigned⟩ := length_publishAll
    { s with collector := (s.collector.handle now sub e).1, metrics := s.metrics.rest sub }
    (s.collector.handle now sub e).2
  have hbalance := h.balance
  have hdepth := queue_depth_handle s.collector now sub e
    (h.metricsHeard sub e (hb ▸ List.mem_cons_self))
  rw [hsubmitted, hunqueued, hassigned, assignments_handle]
  show (s.collector.handle now sub e).1.telemetry.queue_depth + ((s.metrics.rest sub _).length + n) =
    s.qsize + (System.unqueued s.sys.bus + n) + ((s.metrics.rest sub _).length + 0) +
      assignments (s.half.getD [])
  have hsize : (s.metrics sub).length = es.length + 1 := by
    rw [hb]
    rfl
  have htail : (s.metrics.rest sub sub).length = es.length := by
    rw [Bus.rest_self, hb]
    rfl
  unfold depth at hbalance
  rw [hdepth]
  by_cases hjob : sub = .on_job_submitted
  · subst hjob
    rw [if_pos rfl, htail, Bus.rest_ne (by decide)]
    omega
  · rw [if_neg hjob, Bus.rest_ne (Ne.symm hjob)]
    by_cases htask : sub = .on_task_assigned
    · subst htask
      have hpos : 0 < s.collector.telemetry.queue_depth := hseen
      rw [if_pos rfl, htail]
      omega
    · rw [if_neg htask, Bus.rest_ne (Ne.symm htask)]
      omega

/-- Every step keeps the two depths in balance. -/
theorem even_step (repr : Json → Str) (l : Label) (s s' : MeteredSystem) (h : s.Even)
    (hseen : s.Seen l) (hs : step repr l s = some s') : s'.Even := by
  cases l with
  | sys l =>
    by_cases hl : ∃ now, l = .assign now
    · obtain ⟨now, rfl⟩ := hl
      cases hs
    · have hl : ∀ now, l ≠ .assign now := fun now heq => hl ⟨now, heq⟩
      have hstep : step repr (.sys l) s = (System.step repr l s.sys).map fun t =>
          { s with
            sys := t
            metrics := s.metrics.publishAll MetricsSubscription.listens (s.sys.published l) } := by
        cases l with
        | assign now => exact absurd rfl (hl now)
        | _ => rfl
      rw [hstep] at hs
      obtain ⟨t, ht, rfl⟩ := Option.map_eq_some_iff.mp hs
      exact h.sys repr hl hseen ht
  | choose now =>
    simp only [step] at hs
    split at hs
    · next hhalf =>
      cases hs
      exact h.choose hhalf now
    · cases hs
  | publish =>
    obtain ⟨es, hhalf, rfl⟩ := Option.map_eq_some_iff.mp hs
    exact h.publish hhalf
  | deliver sub now =>
    simp only [step] at hs
    split at hs
    · cases hs
    · next e es hb =>
      cases hs
      exact h.deliver hseen hb

end Step

/-- **The reported depth is the backlog** in every quiet state of a run in which no job comes into the
queue unannounced and none is counted off before it is counted. -/
theorem depth_eq_qsize (repr : Json → Str) {window_start : ℚ} {failure_threshold : ℤ}
    {recovery_timeout heartbeat_timeout : ℚ} {max_retries : ℤ} {store : PostgresStore}
    {ls : List Label} {s : MeteredSystem}
    (hr : run (step repr) ls (start window_start failure_threshold recovery_timeout
      heartbeat_timeout max_retries store) = some s)
    (hseen : Guarded (step repr) Seen ls (start window_start failure_threshold recovery_timeout
      heartbeat_timeout max_retries store)) (hquiet : s.Quiet) : s.depth = s.qsize := by
  have heven : s.Even := run_invariant (even_step repr) (even_start _ _ _ _ _ _) hseen hr
  obtain ⟨hsys, hmetrics, hhalf⟩ := hquiet
  have hbalance := heven.balance
  have hempty : ∀ sub, (s.metrics sub).length = 0 := fun sub =>
    List.length_eq_zero_iff.mpr (List.isEmpty_iff.mp (hmetrics sub))
  have hunqueued : System.unqueued s.sys.bus = 0 :=
    List.length_eq_zero_iff.mpr (List.isEmpty_iff.mp (hsys .handle_job_submitted))
  rw [hempty, hempty, hunqueued, Option.isNone_iff_eq_none.mp hhalf] at hbalance
  exact hbalance

/-- A collector and a system with the default settings, on an empty database. -/
def emptyStart : MeteredSystem := start 0 3 5 10 3 ⟨true, true, ∅, ∅⟩

/-- The plain job is assigned, and the collector has counted its submission. -/
def countedJob : List Label :=
  [.sys (.register ['a'] (some 1)), .sys (.deliver .handle_register 0),
    .sys (.deliver .persist_worker 0), .deliver .on_register 0, .deliver .on_alert_received 0,
    .sys (.submit System.plainJob), .sys (.deliver .persist_task 0),
    .sys (.deliver .handle_job_submitted 0), .deliver .on_job_submitted 0, .choose fun _ => 0,
    .publish, .sys (.deliver .persist_task_assigned 0), .sys (.deliver .send_to_worker 0)]

/-- It counts the assignment too, and everything is handled. -/
def meteredJob : List Label := countedJob ++ [.deliver .on_task_assigned 0]

theorem depth_eq_qsize_meteredJob : ∃ s, run (step fun _ => []) meteredJob emptyStart = some s ∧
    s.Quiet ∧ s.depth = s.qsize := by
  have hrun : (run (step fun _ => []) meteredJob emptyStart).map (fun s => decide s.Quiet) =
      some true := by decide +kernel
  have hcounted : (run (step fun _ => []) countedJob emptyStart).map (fun s => decide (0 < s.depth)) =
      some true := by decide +kernel
  obtain ⟨s, hs, hquiet⟩ := Option.map_eq_some_iff.mp hrun
  have hplain : Guarded (step fun _ => []) Seen countedJob emptyStart := by
    refine guarded_iff_forall.mpr fun p l t hp _ => ?_
    have hl : l ∈ countedJob := hp.subset (List.mem_append_right _ (List.mem_singleton_self l))
    fin_cases hl <;> trivial
  have hseen : Guarded (step fun _ => []) Seen meteredJob emptyStart := by
    refine guarded_append.mpr ⟨hplain, fun t ht => ⟨?_, fun _ _ => trivial⟩⟩
    rw [ht] at hcounted
    have hdepth : 0 < t.depth := of_decide_eq_true (Option.some.inj hcounted)
    exact hdepth
  have hquiet := of_decide_eq_true hquiet
  exact ⟨s, hs, hquiet, depth_eq_qsize _ hs hseen hquiet⟩

/-- The job fails, and is put back without a `JOB_SUBMITTED`. -/
def meteredRetry : List Label :=
  meteredJob ++ [.sys (.fail 0 none), .sys (.deliver .handle_task_failed 0), .deliver .on_task_failed 0,
    .deliver .on_alert_received 0]

theorem depth_ne_qsize_meteredRetry : ¬ ∀ (ls : List Label) (s : MeteredSystem),
    run (step fun _ => []) ls emptyStart = some s → s.Quiet → s.depth = s.qsize := by
  intro h
  have hrun : (run (step fun _ => []) meteredRetry emptyStart).map (fun s =>
      decide (s.Quiet ∧ s.depth = 0 ∧ s.qsize = 1)) = some true := by decide +kernel
  obtain ⟨s, hs, hfacts⟩ := Option.map_eq_some_iff.mp hrun
  obtain ⟨hquiet, hdepth, hqsize⟩ := of_decide_eq_true hfacts
  have := h meteredRetry s hs hquiet
  omega

end MeteredSystem

end JobSystem
