import JobSystem.Coordinator.Breaker

/-!
# Runs of a circuit breaker

Any calls, in any order and at any clock readings, on a new `WorkerCircuitBreaker`.

* `streak`, `lastFailure`: the failures since the last success and the time of the latest failure,
  read off the calls alone;
* `Tracked`: the four fields of the breaker against the calls made, and `tracked_calls`;
* **`breaker_machine`**: the laws of the state machine. The time since the latest failure is a difference
  of doubles: `granted_early`.
-/

namespace JobSystem

/-- A call on a breaker, with its clock reading. -/
inductive BreakerCall where
  | success
  | failure (now : ℚ)
  | canAssign (now : ℚ)

/-- The number of failures after the last success. -/
def streak (cs : List BreakerCall) : ℕ :=
  cs.foldl (fun n c => match c with
    | .success => 0
    | .failure _ => n + 1
    | .canAssign _ => n) 0

/-- The clock reading of the latest failure. -/
def lastFailure (cs : List BreakerCall) : Option ℚ :=
  cs.foldl (fun t c => match c with
    | .success => t
    | .failure now => some now
    | .canAssign _ => t) none

section History

variable (cs : List BreakerCall) (now : ℚ)

@[simp] theorem streak_success : streak (cs ++ [.success]) = 0 := by simp [streak]

@[simp] theorem streak_failure : streak (cs ++ [.failure now]) = streak cs + 1 := by simp [streak]

@[simp] theorem streak_canAssign : streak (cs ++ [.canAssign now]) = streak cs := by simp [streak]

@[simp] theorem lastFailure_success : lastFailure (cs ++ [.success]) = lastFailure cs := by
  simp [lastFailure]

@[simp] theorem lastFailure_failure : lastFailure (cs ++ [.failure now]) = some now := by
  simp [lastFailure]

@[simp] theorem lastFailure_canAssign : lastFailure (cs ++ [.canAssign now]) = lastFailure cs := by
  simp [lastFailure]

end History

namespace WorkerCircuitBreaker

/-- The breaker after a call. -/
def call (b : WorkerCircuitBreaker) : BreakerCall → WorkerCircuitBreaker
  | .success => b.recordSuccess
  | .failure now => b.recordFailure now
  | .canAssign now => (b.canAssignTask now).1

/-- The breaker after some calls. -/
def calls (b : WorkerCircuitBreaker) (cs : List BreakerCall) : WorkerCircuitBreaker :=
  cs.foldl call b

theorem calls_concat (b : WorkerCircuitBreaker) (cs : List BreakerCall) (c : BreakerCall) :
    b.calls (cs ++ [c]) = (b.calls cs).call c := List.foldl_concat ..

/-- The clock readings at which `can_assign_task`, called at each of `nows`, answers `True`. -/
def grants (b : WorkerCircuitBreaker) : List ℚ → List ℚ
  | [] => []
  | now :: nows =>
    if (b.canAssignTask now).2 then now :: (b.canAssignTask now).1.grants nows
    else (b.canAssignTask now).1.grants nows

/-- The fields of a breaker after the calls `cs`. -/
structure Tracked (failure_threshold : ℤ) (recovery_timeout : ℚ) (cs : List BreakerCall)
    (b : WorkerCircuitBreaker) : Prop where
  threshold : b.failure_threshold = failure_threshold
  timeout : b.recovery_timeout = recovery_timeout
  counted : b.state = .CLOSED → b.consecutive_failures = streak cs
  below : b.state = .CLOSED → (b.consecutive_failures : ℤ) < failure_threshold
  tripped : b.state ≠ .CLOSED → failure_threshold ≤ b.consecutive_failures
  trial : b.trial_task_assigned = true ↔ b.state = .HALF_OPEN
  stored : b.state ≠ .CLOSED → lastFailure cs = some b.last_failure_time

section Step

variable {failure_threshold : ℤ} {recovery_timeout : ℚ} {cs : List BreakerCall}
  {b : WorkerCircuitBreaker}

theorem tracked_new (h : 1 ≤ failure_threshold) (recovery_timeout : ℚ) :
    Tracked failure_threshold recovery_timeout [] (new failure_threshold recovery_timeout) where
  threshold := rfl
  timeout := rfl
  counted := fun _ => rfl
  below := fun _ => by simp only [new]; omega
  tripped := fun hs => absurd rfl hs
  trial := by simp [new]
  stored := fun hs => absurd rfl hs

theorem Tracked.trial_of_ne (h : Tracked failure_threshold recovery_timeout cs b)
    (hs : b.state ≠ .HALF_OPEN) : b.trial_task_assigned = false := by
  rw [← Bool.not_eq_true, h.trial]
  exact hs

/-- A success closes a half-open breaker, restarts the count of a closed one and leaves an open one
alone. -/
theorem Tracked.success (hpos : 1 ≤ failure_threshold)
    (h : Tracked failure_threshold recovery_timeout cs b) :
    Tracked failure_threshold recovery_timeout (cs ++ [.success]) b.recordSuccess := by
  unfold recordSuccess
  cases hs : b.state with
  | CLOSED =>
    exact ⟨h.threshold, h.timeout, fun _ => (streak_success cs).symm, fun _ => by simp; omega,
      fun hn => absurd rfl hn, by simp [h.trial, hs], fun hn => absurd rfl hn⟩
  | OPEN =>
    have hne : b.state ≠ .CLOSED := by rw [hs]; exact nofun
    refine ⟨h.threshold, h.timeout, fun hc => absurd hc hne, fun hc => absurd hc hne, h.tripped,
      h.trial, fun hn => ?_⟩
    rw [lastFailure_success]
    exact h.stored hn
  | HALF_OPEN =>
    exact ⟨h.threshold, h.timeout, fun _ => (streak_success cs).symm, fun _ => by simp; omega,
      fun hn => absurd rfl hn, by simp, fun hn => absurd rfl hn⟩

/-- A failure opens a half-open breaker, and a closed one when the count reaches the threshold. -/
theorem Tracked.failure (h : Tracked failure_threshold recovery_timeout cs b) (now : ℚ) :
    Tracked failure_threshold recovery_timeout (cs ++ [.failure now]) (b.recordFailure now) := by
  unfold recordFailure
  cases hs : b.state with
  | CLOSED =>
    have hcount := h.counted hs
    have htrial := h.trial_of_ne (by rw [hs]; exact nofun)
    simp only
    split_ifs with hle
    · refine ⟨h.threshold, h.timeout, nofun, nofun, fun _ => ?_, by simp [htrial], fun _ => by simp⟩
      rw [← h.threshold]
      exact hle
    · refine ⟨h.threshold, h.timeout, fun _ => by simp [hcount], fun _ => ?_, fun hn => ?_,
        by simp [htrial], fun hn => ?_⟩
      · rw [← h.threshold]
        exact lt_of_not_ge hle
      · exact absurd rfl hn
      · exact absurd rfl hn
  | OPEN =>
    have hne : b.state ≠ .CLOSED := by rw [hs]; exact nofun
    have htrip := h.tripped hne
    have htrial := h.trial_of_ne (by rw [hs]; exact nofun)
    refine ⟨h.threshold, h.timeout, nofun, nofun, fun _ => ?_, by simp [htrial], fun _ => by simp⟩
    simp only
    omega
  | HALF_OPEN =>
    have htrip := h.tripped (by rw [hs]; exact nofun)
    refine ⟨h.threshold, h.timeout, nofun, nofun, fun _ => ?_, by simp, fun _ => by simp⟩
    simp only
    omega

/-- `can_assign_task` changes an open breaker only, and only into a half-open one. -/
theorem Tracked.canAssign (h : Tracked failure_threshold recovery_timeout cs b) (now : ℚ) :
    Tracked failure_threshold recovery_timeout (cs ++ [.canAssign now]) (b.canAssignTask now).1 := by
  have hkeep : Tracked failure_threshold recovery_timeout (cs ++ [.canAssign now]) b := by
    refine ⟨h.threshold, h.timeout, fun hc => ?_, h.below, h.tripped, h.trial, fun hn => ?_⟩
    · rw [streak_canAssign]
      exact h.counted hc
    · rw [lastFailure_canAssign]
      exact h.stored hn
  by_cases hd : b.Due now
  · have hne : b.state ≠ .CLOSED := by rw [hd.1]; exact nofun
    rw [canAssignTask_of_due hd]
    exact ⟨h.threshold, h.timeout, nofun, nofun, fun _ => h.tripped hne, by simp,
      fun _ => hkeep.stored hne⟩
  · rw [canAssignTask_of_not_due (fun hs => h.trial.mpr hs) hd]
    exact hkeep

theorem tracked_call (hpos : 1 ≤ failure_threshold)
    (h : Tracked failure_threshold recovery_timeout cs b) (c : BreakerCall) :
    Tracked failure_threshold recovery_timeout (cs ++ [c]) (b.call c) := by
  cases c with
  | success => exact h.success hpos
  | failure now => exact h.failure now
  | canAssign now => exact h.canAssign now

/-- The fields of a breaker after any calls. -/
theorem tracked_calls (hpos : 1 ≤ failure_threshold) (recovery_timeout : ℚ)
    (cs : List BreakerCall) : Tracked failure_threshold recovery_timeout cs
      ((new failure_threshold recovery_timeout).calls cs) := by
  induction cs using List.reverseRecOn with
  | nil => exact tracked_new hpos recovery_timeout
  | append_singleton cs c ih =>
    rw [calls_concat]
    exact tracked_call hpos ih c

/-- Only a failure opens a closed breaker: the one that fills the count. -/
theorem Tracked.leaves_iff (h : Tracked failure_threshold recovery_timeout cs b)
    (hs : b.state = .CLOSED) (c : BreakerCall) : (b.call c).state ≠ .CLOSED ↔
      (∃ now, c = .failure now) ∧ (streak cs : ℤ) + 1 = failure_threshold := by
  have hbelow := h.below hs
  have hcount := h.counted hs
  cases c with
  | success => simp [call, recordSuccess, hs]
  | canAssign now => simp [call, canAssignTask, hs]
  | failure now =>
    simp only [call, recordFailure, hs, h.threshold, ← hcount]
    by_cases hle : failure_threshold ≤ (b.consecutive_failures + 1 : ℕ)
    · rw [if_pos hle]
      refine iff_of_true nofun ⟨⟨now, rfl⟩, ?_⟩
      omega
    · rw [if_neg hle]
      refine iff_of_false (fun hn => hn rfl) fun hn => ?_
      omega

/-! ## The trial -/

/-- A grant of a breaker that is not closed: it was due. -/
theorem Tracked.due_of_grant (h : Tracked failure_threshold recovery_timeout cs b)
    (hs : b.state ≠ .CLOSED) {now : ℚ} (hg : (b.canAssignTask now).2 = true) : b.Due now := by
  rw [canAssignTask_snd, decide_eq_true_iff] at hg
  rcases hg with hc | hd | ⟨hh, hf⟩
  · exact absurd hc hs
  · exact hd
  · rw [h.trial.mpr hh] at hf
    cases hf

/-- A half-open breaker grants nothing more. -/
theorem Tracked.grants_half_open (h : Tracked failure_threshold recovery_timeout cs b)
    (hs : b.state = .HALF_OPEN) (nows : List ℚ) : b.grants nows = [] := by
  have hkeep : ∀ now, b.canAssignTask now = (b, false) := by
    intro now
    simp only [canAssignTask, hs]
    rw [if_pos (h.trial.mpr hs)]
  induction nows with
  | nil => rfl
  | cons now nows ih => rw [grants, hkeep]; exact ih

/-- A breaker that is not closed grants one trial at most until the next outcome. -/
theorem Tracked.grants_le (h : Tracked failure_threshold recovery_timeout cs b)
    (hs : b.state ≠ .CLOSED) (nows : List ℚ) : (b.grants nows).length ≤ 1 := by
  induction nows with
  | nil => exact Nat.zero_le 1
  | cons now nows ih =>
    rw [grants]
    by_cases hd : b.Due now
    · have hstep := h.canAssign now
      rw [canAssignTask_of_due hd] at hstep ⊢
      rw [if_pos rfl, hstep.grants_half_open rfl]
      exact le_refl 1
    · rw [if_neg fun hg => hd (h.due_of_grant hs hg),
        canAssignTask_of_not_due (fun hh => h.trial.mpr hh) hd]
      exact ih

/-- The computed difference is off by one part in `2 ^ 53` at most. -/
theorem Due.le_add {now : ℚ} (h : b.Due now) : b.recovery_timeout ≤
    now - b.last_failure_time + |now - b.last_failure_time| / 2 ^ 53 := by
  have hoff := (abs_le.mp (Double.abs_round_sub_le (now - b.last_failure_time))).2
  have hdue : b.recovery_timeout ≤ (Double.round (now - b.last_failure_time)).val := h.2
  linarith

end Step

/-- **The state machine of a breaker**, after any calls on a new one: while it is closed it counts the
failures since the last success, trips on the one that reaches the threshold, and otherwise has at
least as many; the trial flag is that of a half-open breaker; and while it is not closed it grants
one trial between two outcomes, when the computed time since the latest failure is a recovery timeout. -/
theorem breaker_machine {failure_threshold : ℤ} (hpos : 1 ≤ failure_threshold)
    (recovery_timeout : ℚ) (cs : List BreakerCall) {b : WorkerCircuitBreaker}
    (hb : b = (new failure_threshold recovery_timeout).calls cs) :
    (b.state = .CLOSED → b.consecutive_failures = streak cs ∧
      (b.consecutive_failures : ℤ) < failure_threshold ∧
      ∀ c, (b.call c).state ≠ .CLOSED ↔
        (∃ now, c = .failure now) ∧ (streak cs : ℤ) + 1 = failure_threshold) ∧
    (b.state ≠ .CLOSED → failure_threshold ≤ b.consecutive_failures) ∧
    (b.trial_task_assigned = true ↔ b.state = .HALF_OPEN) ∧
    (b.state ≠ .CLOSED → (∀ nows, (b.grants nows).length ≤ 1) ∧
      ∀ now, (b.canAssignTask now).2 = true → ∃ t, lastFailure cs = some t ∧
        recovery_timeout ≤ Double.diff now t ∧
        recovery_timeout ≤ now - t + |now - t| / 2 ^ 53) := by
  have h : Tracked failure_threshold recovery_timeout cs b := by
    rw [hb]
    exact tracked_calls hpos recovery_timeout cs
  refine ⟨fun hs => ⟨h.counted hs, h.below hs, h.leaves_iff hs⟩, h.tripped, h.trial,
    fun hs => ⟨h.grants_le hs, fun now hg => ⟨_, h.stored hs, ?_⟩⟩⟩
  have hdue := h.due_of_grant hs hg
  rw [← h.timeout]
  exact ⟨hdue.2, hdue.le_add⟩

/-- Three failures trip a breaker of threshold three; its trial comes five seconds later. -/
theorem breaker_machine_three :
    let b := (new 3 5).calls [.failure 1, .failure 2, .failure 3, .canAssign 8]
    b.state = .HALF_OPEN ∧ b.trial_task_assigned = true ∧ ∀ nows, (b.grants nows).length ≤ 1 := by
  have hdue : Due ((new 3 5).calls [.failure 1, .failure 2, .failure 3]) 8 := by
    refine ⟨rfl, ?_⟩
    have hdiff := Double.diff_intCast (show |(8 : ℤ) - 3| < 2 ^ 53 by decide)
    norm_num at hdiff
    exact hdiff.ge
  have hs : ((new 3 5).calls [.failure 1, .failure 2, .failure 3, .canAssign 8]).state
      = .HALF_OPEN := congrArg (fun r => r.1.state) (canAssignTask_of_due hdue)
  obtain ⟨-, -, htrial, hgrants⟩ := breaker_machine (by decide : (1 : ℤ) ≤ 3) 5
    [.failure 1, .failure 2, .failure 3, .canAssign 8] rfl
  exact ⟨hs, htrial.mpr hs, (hgrants (by rw [hs]; exact nofun)).1⟩

/-- The double `0.3`. -/
def threeTenths : Double :=
  ⟨5404319552844595 / 2 ^ 54, 5404319552844595, -54, by norm_num, by norm_num⟩

/-- The double `5.3`. -/
def fiveSecondsLater : Double :=
  ⟨5967269506265907 / 2 ^ 50, 5967269506265907, -50, by norm_num, by norm_num⟩

/-- Their difference is rounded up to 5. -/
theorem diff_fiveSecondsLater : Double.diff fiveSecondsLater.val threeTenths.val = 5 := by
  have hdiff : fiveSecondsLater.val - threeTenths.val = 90071992547409917 / 2 ^ 54 := by
    norm_num [fiveSecondsLater, threeTenths]
  have hfloor : ⌊(90071992547409917 / 16 : ℚ)⌋ = 5629499534213119 := by
    rw [Int.floor_eq_iff]
    norm_num
  have hquot : (90071992547409917 / 2 ^ 54 / 2 ^ (-50 : ℤ) : ℚ) = 90071992547409917 / 16 := by
    norm_num
  rw [Double.diff, hdiff, Double.round_val (e := -50) (by norm_num) (by norm_num), hquot,
    Double.roundHalfEven, hfloor]
  norm_num

/-- **A trial comes too early** for the exact times: the breaker has a timeout of 5, fails at `0.3` and is
asked at `5.3`, which is less than 5 later. -/
theorem granted_early : ¬ ∀ (recovery_timeout : ℚ) (cs : List BreakerCall) (now t : ℚ),
    ((new 1 recovery_timeout).calls cs).state ≠ .CLOSED →
    (((new 1 recovery_timeout).calls cs).canAssignTask now).2 = true → lastFailure cs = some t →
    recovery_timeout ≤ now - t := by
  intro h
  have hdue : Due ((new 1 5).calls [.failure threeTenths.val]) fiveSecondsLater.val :=
    ⟨rfl, diff_fiveSecondsLater.ge⟩
  have hgrant := congrArg Prod.snd (canAssignTask_of_due hdue)
  have hle := h 5 _ _ _ (by rw [hdue.1]; exact nofun) hgrant rfl
  norm_num [fiveSecondsLater, threeTenths] at hle

end WorkerCircuitBreaker

end JobSystem
