import JobSystem.Lib.Interpreter
import JobSystem.EventBus.EventLine

/-!
# The worker's side of an assignment

`EventDrivenWorker.read_from_gateway` splits what one `recv` returns at the newlines. Nothing is kept
from one call to the next, and an exception stops the event loop: the print of a job comes before the
job is put on the queue.

* `TaskAssigned`, `WorkerLine`, `workerStream`: what the coordinator writes to a worker;
* `WorkerProcess`, `readPayload`, `readFromGateway`, `eventLoop`;
* `ArriveWhole`: no assignment is cut by the end of a chunk; `Takes`: reading and printing it raises
  nothing;
* **`worker_receives_all`**: the jobs on the queue are the assigned ones exactly if all `ArriveWhole`
  and the worker `Takes` them.
-/

namespace JobSystem

open PyText
open PyJson (Json FloatText Canonical Console Loaded ReadsLike library loads dumps)

/-- `"TASK_ASSIGNED"` -/
def TASK_ASSIGNED : Str := "TASK_ASSIGNED".toList

/-- The assignment event of `TaskAssigner._assign_loop`. -/
structure TaskAssigned where
  worker_id : Json
  job : Fields

namespace TaskAssigned

/-- The event as a dictionary. -/
def event (a : TaskAssigned) : Fields :=
  [("event".toList, .str TASK_ASSIGNED), ("worker_id".toList, a.worker_id),
    ("job".toList, .obj a.job)]

/-- The id of a worker is a key of a dictionary, so no list and no dictionary. -/
structure Ok (ft : FloatText) (a : TaskAssigned) : Prop where
  worker_id : Canonical ft a.worker_id
  scalar : a.worker_id.depth = 0
  job : Canonical ft (.obj a.job)

end TaskAssigned

/-- A line on a worker's socket. -/
inductive WorkerLine where
  | ack
  | assigned (a : TaskAssigned)

namespace WorkerLine

/-- The line without its newline. -/
def text : WorkerLine → Str
  | ack => ['A', 'C', 'K']
  | assigned a => eventText a.event

/-- The jobs that the line assigns. -/
def jobs : WorkerLine → List Fields
  | ack => []
  | assigned a => [a.job]

/-- The assignment is well formed. -/
def Ok (ft : FloatText) : WorkerLine → Prop
  | ack => True
  | assigned a => a.Ok ft

end WorkerLine

/-- The text of a list of lines. -/
def workerText (lines : List WorkerLine) : Str :=
  (lines.map fun line => line.text ++ ['\n']).flatten

/-- What the coordinator writes to a worker's socket. -/
def workerStream (lines : List WorkerLine) : Bytes := encodeUtf8 (workerText lines)

/-! ## The worker -/

/-- The part of an `EventDrivenWorker` that `read_from_gateway` changes. -/
structure Worker where
  running : Bool
  task_queue : List Fields

/-- The process of a worker: its `json.loads`, its standard output and its id. -/
structure WorkerProcess where
  loads : Str → Loaded
  console : Console
  worker_id : Str

/-- The line that is printed for a job. -/
def WorkerProcess.receivedLine (proc : WorkerProcess) (job : Fields) : Str :=
  '[' :: (proc.worker_id ++ ("] Received Task Assignment: ".toList ++
    ((job.lookup "id".toList).getD .null).pyStr proc.console.repr))

/-- What the loop body does with a payload. -/
inductive Payload where
  | skip
  | put (job : Fields)
  | raise

/-- The body of the loop over the payloads; `event.get` and `job.get` raise unless they are
dictionaries, and so does a print that cannot be encoded. -/
def readPayload (proc : WorkerProcess) (payload : Str) : Payload :=
  if payload = ['A', 'C', 'K'] ∨ payload = [] then .skip
  else
    match proc.loads payload with
    | .notJson => .skip
    | .raises => .raise
    | .value (.obj event) =>
      match event.lookup "event".toList with
      | some (.str e) =>
        if e = TASK_ASSIGNED then
          match event.lookup "job".toList with
          | some (.obj job) =>
            if proc.console.prints (proc.receivedLine job) then .put job else .raise
          | _ => .raise
        else .skip
      | _ => .skip
    | .value _ => .raise

/-- The loop over the payloads. -/
def readPayloads (proc : WorkerProcess) (w : Worker) : List Str → Worker
  | [] => w
  | p :: ps =>
    match readPayload proc p with
    | .skip => readPayloads proc w ps
    | .put job => readPayloads proc { w with task_queue := w.task_queue ++ [job] } ps
    | .raise => { w with running := false }

/-- `read_from_gateway`, with what `recv` returns. -/
def readFromGateway (proc : WorkerProcess) (w : Worker) (data : Bytes) : Worker :=
  if data = [] then { w with running := false }
  else
    match decodeStrict data with
    | none => { w with running := false }
    | some s => readPayloads proc w (splitAll '\n' (strip s))

/-- `_event_loop`: the successive calls while the worker runs. -/
def eventLoop (proc : WorkerProcess) (w : Worker) : List Bytes → Worker
  | [] => w
  | chunk :: chunks => if w.running then eventLoop proc (readFromGateway proc w chunk) chunks else w

/-- Each assigned line is one of the pieces in which it arrives. -/
def ArriveWhole (lines : List WorkerLine) (chunks : List Bytes) : Prop :=
  ∀ e ∈ lines.zip (linePieces '\n' (chunks.map decodeIgnore)), ∀ a, e.1 = .assigned a →
    eventText a.event ∈ e.2

/-- Neither reading nor printing the assignment raises. -/
def WorkerProcess.Takes (proc : WorkerProcess) (a : TaskAssigned) : Prop :=
  (∃ v, proc.loads (eventText a.event) = .value v) ∧
    proc.console.prints (proc.receivedLine a.job) = true

/-- `json.loads` reads what is cut from the lines like the library, and knows that `ACK` is no JSON. -/
structure ReadsLines (ft : FloatText) (load : Str → Loaded) (lines : List WorkerLine) : Prop where
  ack : ∀ p, p <:+: ['A', 'C', 'K'] → load p = .notJson
  line : ∀ line ∈ lines, ReadsLike ft load line.text

variable {ft : FloatText} {proc : WorkerProcess}

/-- The pieces of an `ACK`. -/
theorem eq_of_infix_ack {p : Str} (h : p <:+: ['A', 'C', 'K']) :
    p ∈ [[], ['A'], ['A', 'C'], ['A', 'C', 'K'], ['C'], ['C', 'K'], ['K']] := by
  simp only [List.infix_cons_iff, List.prefix_cons_iff, List.prefix_nil, List.infix_nil] at h
  rcases h with (rfl | ⟨t, rfl, rfl | ⟨t, rfl, rfl | ⟨t, rfl, rfl⟩⟩⟩) |
    (rfl | ⟨t, rfl, rfl | ⟨t, rfl, rfl⟩⟩) | (rfl | ⟨t, rfl, rfl⟩) | rfl <;> simp

/-- The `json.loads` without limits. -/
theorem readsLines_library (ft : FloatText) (lines : List WorkerLine) :
    ReadsLines ft (library ft) lines where
  ack p hp := by
    have hmem := eq_of_infix_ack hp
    simp only [List.mem_cons, List.not_mem_nil, or_false] at hmem
    rcases hmem with rfl | rfl | rfl | rfl | rfl | rfl | rfl <;> rfl
  line line _ := PyJson.readsLike_library ft line.text

/-- The job that a payload puts on the queue. -/
def payloadJob (proc : WorkerProcess) (payload : Str) : Option Fields :=
  match readPayload proc payload with
  | .put job => some job
  | _ => none

theorem payloadJob_nil : payloadJob proc [] = none := rfl

theorem payloadJob_spec {p : Str} {job : Fields} (h : payloadJob proc p = some job) :
    proc.console.prints (proc.receivedLine job) = true ∧
      ∃ event, proc.loads p = .value (.obj event) ∧
        event.lookup "event".toList = some (.str TASK_ASSIGNED) ∧
        event.lookup "job".toList = some (.obj job) := by
  unfold payloadJob readPayload at h
  split_ifs at h
  split at h
  case h_2 => cases h
  rename_i job' hread
  cases h
  split at hread
  · cases hread
  · cases hread
  · rename_i event hload
    split at hread
    · rename_i e he
      split_ifs at hread with htask
      subst htask
      split at hread
      · rename_i job' hjob
        split_ifs at hread with hprints
        cases hread
        exact ⟨hprints, event, hload, he, hjob⟩
      · cases hread
    · cases hread
  · cases hread

/-- Payloads that raise nothing. -/
theorem readPayloads_eq {ps : List Str} (h : ∀ p ∈ ps, readPayload proc p ≠ .raise) (w : Worker) :
    readPayloads proc w ps = { w with task_queue := w.task_queue ++ ps.filterMap (payloadJob proc) } := by
  induction ps generalizing w with
  | nil => simp [readPayloads]
  | cons p ps ih =>
    have ih := ih fun p hp => h p (List.mem_cons_of_mem _ hp)
    rw [readPayloads, List.filterMap_cons, payloadJob]
    cases hp : readPayload proc p with
    | skip => exact ih w
    | put job =>
      change readPayloads proc _ ps = _
      rw [ih, List.append_assoc]
      rfl
    | raise => exact absurd hp (h p List.mem_cons_self)

/-- What is put on the queue comes from a payload. -/
theorem countP_readPayloads {q : Fields → Bool} {P : Str → Bool}
    (hP : ∀ p job, payloadJob proc p = some job → q job = true → P p = true) (w : Worker)
    (ps : List Str) :
    (readPayloads proc w ps).task_queue.countP q ≤ w.task_queue.countP q + ps.countP P := by
  induction ps generalizing w with
  | nil => exact le_refl _
  | cons p ps ih =>
    have hp := hP p
    rw [payloadJob] at hp
    rw [readPayloads, List.countP_cons]
    cases hread : readPayload proc p with
    | skip =>
      refine (ih w).trans ?_
      omega
    | put job =>
      rw [hread] at hp
      refine (ih _).trans ?_
      change (w.task_queue ++ [job]).countP q + _ ≤ _
      rw [List.countP_append, List.countP_singleton]
      by_cases hq : q job = true
      · rw [if_pos hq, if_pos (hp job rfl hq)]
        omega
      · rw [if_neg hq]
        omega
    | raise =>
      change w.task_queue.countP q ≤ _
      omega

/-! ## Pieces of a line -/

/-- No piece of an `ACK` is a payload. -/
theorem readPayload_ack (hack : ∀ p, p <:+: ['A', 'C', 'K'] → proc.loads p = .notJson) {p : Str}
    (h : p <:+: ['A', 'C', 'K']) : readPayload proc p = .skip := by
  rw [readPayload, hack p h]
  exact ite_self _

variable {a : TaskAssigned}

theorem TaskAssigned.Ok.canonical (h : a.Ok ft) : Canonical ft (.obj a.event) := by
  have hnodup : ["event".toList, "worker_id".toList, "job".toList].Nodup := by decide
  refine .obj hnodup fun f hf => ?_
  simp only [event, List.mem_cons, List.not_mem_nil, or_false] at hf
  rcases hf with rfl | rfl | rfl
  · exact .str _
  · exact h.worker_id
  · exact h.job

theorem TaskAssigned.Ok.depth (h : a.Ok ft) :
    (Json.obj a.event).depth = (Json.obj a.job).depth + 1 := by
  rw [event, Json.depth, Json.depthFields, Json.depthFields, Json.depthFields, Json.depthFields,
    h.scalar]
  simp [Json.depth]

theorem Takes.loads (h : a.Ok ft) (hread : ReadsLike ft proc.loads (eventText a.event))
    (htakes : proc.Takes a) : proc.loads (eventText a.event) = .value (.obj a.event) := by
  obtain ⟨v, hv⟩ := htakes.1
  have hload : PyJson.loads ft (eventText a.event) = some (.obj a.event) :=
    PyJson.loads_dumps h.canonical
  have hsame := hread _ (List.infix_refl _) v hv
  rw [hload, Option.some.injEq] at hsame
  rw [hv, hsame]

/-- **A whole assignment is put on the queue** if the worker takes it. -/
theorem readPayload_eventText (h : a.Ok ft) (hread : ReadsLike ft proc.loads (eventText a.event))
    (htakes : proc.Takes a) : readPayload proc (eventText a.event) = .put a.job := by
  have hskip : ¬ (eventText a.event = ['A', 'C', 'K'] ∨ eventText a.event = []) := by
    rintro (h | h)
    · exact absurd (List.cons.inj h).1 (by decide)
    · exact List.cons_ne_nil _ _ h
  rw [readPayload, if_neg hskip, Takes.loads h hread htakes]
  exact if_pos htakes.2

/-- Only then, and only its job. -/
theorem payloadJob_eventText (h : a.Ok ft) (hread : ReadsLike ft proc.loads (eventText a.event))
    {job : Fields} (hjob : payloadJob proc (eventText a.event) = some job) :
    job = a.job ∧ proc.Takes a := by
  obtain ⟨hprints, event, hload, -, hlookup⟩ := payloadJob_spec hjob
  have hsame := hread _ (List.infix_refl _) _ hload
  rw [eventText, PyJson.loads_dumps h.canonical] at hsame
  cases hsame
  cases hlookup
  exact ⟨rfl, ⟨_, hload⟩, hprints⟩

/-- **A cut assignment** leaves shallower jobs only. -/
theorem depth_lt_of_piece (h : a.Ok ft) (hread : ReadsLike ft proc.loads (eventText a.event))
    {p : Str} (hp : p <:+: eventText a.event) (hne : p ≠ eventText a.event) {job : Fields}
    (hjob : payloadJob proc p = some job) : (Json.obj job).depth < (Json.obj a.job).depth := by
  obtain ⟨-, event, hvalue, hevent, hlookup⟩ := payloadJob_spec hjob
  have hload := hread p hp _ hvalue
  obtain ⟨l, r, htext⟩ := hp
  have hproper : l ≠ [] ∨ r ≠ [] := by
    by_contra hcon
    rw [not_or, not_not, not_not] at hcon
    obtain ⟨rfl, rfl⟩ := hcon
    rw [List.nil_append, List.append_nil] at htext
    exact hne htext
  rw [List.append_assoc] at htext
  rcases PyJson.loads_piece h.canonical htext.symm hproper hload with hdepth | ⟨-, hnames⟩
  · have hinner : (Json.obj job).depth ≤ Json.depthFields event :=
      PyJson.depthFields_le_iff.mp (le_refl _) _ (PyDict.mem_of_lookup hlookup)
    rw [h.depth] at hdepth
    have houter : (Json.obj event).depth = Json.depthFields event + 1 := rfl
    omega
  · -- `event` has the letter `v`
    have hname := hnames _ (List.mem_map_of_mem (f := Prod.fst) (PyDict.mem_of_lookup hevent))
    exact absurd (by decide) hname

/-! ## Counting jobs -/

/-- A piece of text that has the text of a job of depth `D` or more inside. -/
def Deep (proc : WorkerProcess) (D : ℕ) (p : Str) : Prop :=
  ∃ p', p' <:+: p ∧ ∃ job, payloadJob proc p' = some job ∧ D ≤ (Json.obj job).depth

theorem Deep.mono {D : ℕ} {p q : Str} (hpq : p <:+: q) (h : Deep proc D p) : Deep proc D q := by
  obtain ⟨p', hp', h⟩ := h
  exact ⟨p', hp'.trans hpq, h⟩

/-- A piece of an assignment is no deeper than the job, and less deep if it is not the whole, or the
worker does not take it. -/
theorem Deep.le (h : a.Ok ft) (hread : ReadsLike ft proc.loads (eventText a.event)) {D : ℕ} {p : Str}
    (hp : p <:+: eventText a.event) (hdeep : Deep proc D p) : D ≤ (Json.obj a.job).depth ∧
      (p ≠ eventText a.event ∨ ¬ proc.Takes a → D < (Json.obj a.job).depth) := by
  obtain ⟨p', hp', job, hjob, hD⟩ := hdeep
  by_cases hwhole : p' = eventText a.event
  · subst hwhole
    obtain ⟨rfl, htakes⟩ := payloadJob_eventText h hread hjob
    refine ⟨hD, fun hlost => ?_⟩
    rcases hlost with hne | hnot
    · exact absurd (hp.eq_of_length_le hp'.length_le) hne
    · exact absurd htakes hnot
  · have hlt := depth_lt_of_piece h hread (hp'.trans hp) hwhole hjob
    exact ⟨by omega, fun _ => by omega⟩

/-- A line that is one of its pieces arrives with empty ones only. -/
theorem exists_of_whole {g : List Str} {t : Str} (ht : t ∈ g) (hg : g.flatten = t) :
    ∃ l r, g = l ++ t :: r ∧ (∀ p ∈ l, p = []) ∧ ∀ p ∈ r, p = [] := by
  obtain ⟨l, r, rfl⟩ := List.append_of_mem ht
  have hlen := congrArg List.length hg
  rw [List.flatten_append, List.flatten_cons, List.length_append, List.length_append] at hlen
  refine ⟨l, r, rfl, ?_, ?_⟩
  · rw [← List.flatten_eq_nil_iff, ← List.length_eq_zero_iff]
    omega
  · rw [← List.flatten_eq_nil_iff, ← List.length_eq_zero_iff]
    omega

open Classical in
theorem countP_nils {ps : List Str} (h : ∀ p ∈ ps, p = []) {D : ℕ} :
    ps.countP (Deep proc D) = 0 := by
  rw [List.countP_eq_zero]
  intro p hp hdeep
  obtain ⟨p', hp', job, hjob, -⟩ := of_decide_eq_true hdeep
  rw [h p hp, List.infix_nil] at hp'
  rw [hp', payloadJob_nil] at hjob
  cases hjob

/-- The line is cut, or not taken, and its job is of depth `D`. -/
def LostAt (proc : WorkerProcess) (D : ℕ) (e : WorkerLine × List Str) : Prop :=
  ∃ a, e.1 = .assigned a ∧ (eventText a.event ∉ e.2 ∨ ¬ proc.Takes a) ∧ (Json.obj a.job).depth = D

open Classical in
/-- The pieces of one line. -/
theorem countP_pieces (hack : ∀ p, p <:+: ['A', 'C', 'K'] → proc.loads p = .notJson)
    {line : WorkerLine} (hline : line.Ok ft) (hread : ReadsLike ft proc.loads line.text)
    {g : List Str} (hg : g.flatten = line.text) {D : ℕ}
    (hlost : ∀ D', LostAt proc D' (line, g) → D' ≤ D) :
    g.countP (Deep proc D) + (if LostAt proc D (line, g) then 1 else 0) ≤
      line.jobs.countP fun job => D ≤ (Json.obj job).depth := by
  have hpiece : ∀ p ∈ g, p <:+: line.text := fun p hp => hg ▸ List.infix_of_mem_flatten hp
  cases line with
  | ack =>
    have hzero : g.countP (Deep proc D) = 0 := by
      rw [List.countP_eq_zero]
      intro p hp hdeep
      obtain ⟨p', hp', job, hjob, -⟩ := of_decide_eq_true hdeep
      rw [payloadJob, readPayload_ack hack (hp'.trans (hpiece p hp))] at hjob
      cases hjob
    have hnot : ¬ LostAt proc D (.ack, g) := by
      rintro ⟨a, ha, -⟩
      cases ha
    rw [hzero, if_neg hnot]
    exact Nat.zero_le _
  | assigned a =>
    have hok : a.Ok ft := hline
    change _ ≤ [a.job].countP _
    rw [List.countP_singleton]
    by_cases hgood : eventText a.event ∈ g ∧ proc.Takes a
    · have hnot : ¬ LostAt proc D (.assigned a, g) := by
        rintro ⟨a', ha, hbad, -⟩
        cases ha
        exact hbad.elim (absurd hgood.1) (absurd hgood.2)
      obtain ⟨l, r, rfl, hl, hr⟩ := exists_of_whole hgood.1 hg
      rw [if_neg hnot, List.countP_append, List.countP_cons, countP_nils hl, countP_nils hr]
      by_cases hdeep : Deep proc D (eventText a.event)
      · rw [if_pos (decide_eq_true hdeep),
          if_pos (decide_eq_true (hdeep.le hok hread (List.infix_refl _)).1)]
      · rw [if_neg (by rwa [decide_eq_true_iff])]
        exact Nat.zero_le _
    · have hbad : eventText a.event ∉ g ∨ ¬ proc.Takes a := not_and_or.mp hgood
      have hle : (Json.obj a.job).depth ≤ D := hlost _ ⟨a, rfl, hbad, rfl⟩
      have hzero : g.countP (Deep proc D) = 0 := by
        rw [List.countP_eq_zero]
        intro p hp hdeep
        have hbad' : p ≠ eventText a.event ∨ ¬ proc.Takes a :=
          hbad.imp_left fun hcut heq => hcut (heq ▸ hp)
        have := ((of_decide_eq_true hdeep).le hok hread (hpiece p hp)).2 hbad'
        omega
      rw [hzero]
      by_cases hat : LostAt proc D (.assigned a, g)
      · obtain ⟨a', ha, -, hD⟩ := id hat
        cases ha
        rw [if_pos hat, if_pos (decide_eq_true (ge_of_eq hD))]
      · rw [if_neg hat]
        exact Nat.zero_le _

open Classical in
/-- The pieces of all lines; those that are lost at the depth `D` give nothing. -/
theorem countP_linePieces {lines : List WorkerLine} (hlines : ∀ line ∈ lines, line.Ok ft)
    (hread : ReadsLines ft proc.loads lines) {G : List (List Str)}
    (hG : List.Forall₂ (fun line g => g.flatten = line.text) lines G) {D : ℕ}
    (hlost : ∀ e ∈ lines.zip G, ∀ D', LostAt proc D' e → D' ≤ D) :
    G.flatten.countP (Deep proc D) + (lines.zip G).countP (LostAt proc D) ≤
      (lines.flatMap WorkerLine.jobs).countP fun job => D ≤ (Json.obj job).depth := by
  induction hG with
  | nil => exact Nat.zero_le _
  | cons hg hG ih =>
    rename_i line g lines G
    have hfirst := countP_pieces hread.ack (hlines line List.mem_cons_self)
      (hread.line line List.mem_cons_self) hg
      (hlost _ (by rw [List.zip_cons_cons]; exact List.mem_cons_self))
    have hrest := ih (fun l hl => hlines l (List.mem_cons_of_mem _ hl))
      ⟨hread.ack, fun l hl => hread.line l (List.mem_cons_of_mem _ hl)⟩
      (fun e he => hlost e (by rw [List.zip_cons_cons]; exact List.mem_cons_of_mem _ he))
    rw [List.flatten_cons, List.countP_append, List.zip_cons_cons, List.countP_cons,
      List.flatMap_cons, List.countP_append]
    simp only [decide_eq_true_iff]
    omega

/-- The queue has no more jobs of depth `D` than there are pieces. -/
theorem countP_eventLoop (proc : WorkerProcess) {D : ℕ} {P : Str → Bool}
    (hP : ∀ p, P p = true ↔ Deep proc D p) (w : Worker) (ts : List Str) :
    (eventLoop proc w (ts.map encodeUtf8)).task_queue.countP (fun job => D ≤ (Json.obj job).depth) ≤
      w.task_queue.countP (fun job => D ≤ (Json.obj job).depth) +
        (ts.flatMap (splitAll '\n')).countP P := by
  induction ts generalizing w with
  | nil => exact le_refl _
  | cons t ts ih =>
    rw [List.map_cons, eventLoop, List.flatMap_cons, List.countP_append]
    by_cases hrun : w.running = true
    · rw [if_pos hrun]
      refine (ih _).trans ?_
      have hstep : (readFromGateway proc w (encodeUtf8 t)).task_queue.countP
          (fun job => D ≤ (Json.obj job).depth) ≤
          w.task_queue.countP (fun job => D ≤ (Json.obj job).depth) +
            (splitAll '\n' t).countP P := by
        rw [readFromGateway]
        split_ifs with hempty
        · exact Nat.le_add_right _ _
        · rw [decodeStrict_encodeUtf8]
          refine (countP_readPayloads (P := P) ?_ w _).trans ?_
          · intro p job hjob hD
            exact (hP p).mpr ⟨p, List.infix_refl p, job, hjob, of_decide_eq_true hD⟩
          · obtain ⟨l, r, hstrip, -, -⟩ := exists_strip t
            have hpiece : strip t <:+: t := ⟨l, r, by rw [List.append_assoc, ← hstrip]⟩
            have hmono : ∀ p q, p <:+: q → P p = true → P q = true := fun p q hpq h =>
              (hP q).mpr (((hP p).mp h).mono hpq)
            exact Nat.add_le_add_left (countP_splitAll_le hmono hpiece) _
      omega
    · rw [if_neg hrun]
      omega

/-! ## Chunks without a cut -/

/-- A piece that the worker takes as it is. -/
def Clean (proc : WorkerProcess) (p : Str) : Prop := readPayload proc p ≠ .raise ∧ NoOuterSpace p

theorem clean_nil : Clean proc [] := by
  refine ⟨fun h => ?_, fun c hc => ?_, fun c hc => ?_⟩
  · cases h
  · cases hc
  · cases hc

/-- Empty payloads bring no job. -/
theorem jobs_of_nils {ps : List Str} (h : ∀ p ∈ ps, p = []) :
    ps.filterMap (payloadJob proc) = [] := by
  rw [List.filterMap_eq_nil_iff]
  intro p hp
  rw [h p hp, payloadJob_nil]

/-- The pieces of a line that arrives whole and is taken. -/
theorem clean_of_whole (hack : ∀ p, p <:+: ['A', 'C', 'K'] → proc.loads p = .notJson)
    {line : WorkerLine} (hline : line.Ok ft) (hread : ReadsLike ft proc.loads line.text)
    {g : List Str} (hg : g.flatten = line.text)
    (hgood : ∀ a, line = .assigned a → eventText a.event ∈ g ∧ proc.Takes a) :
    (∀ p ∈ g, Clean proc p) ∧ g.filterMap (payloadJob proc) = line.jobs := by
  cases line with
  | ack =>
    have hskip : ∀ p ∈ g, p <:+: ['A', 'C', 'K'] := by
      intro p hp
      have hpiece := List.infix_of_mem_flatten hp
      rwa [hg] at hpiece
    constructor
    · intro p hp
      have hspace : ∀ c ∈ p, isSpace c = false := by
        intro c hc
        have hmem : c ∈ ['A', 'C', 'K'] := (hskip p hp).subset hc
        simp only [List.mem_cons, List.not_mem_nil, or_false] at hmem
        rcases hmem with rfl | rfl | rfl <;> rfl
      refine ⟨fun h => ?_, fun c hc => hspace c (List.mem_of_mem_head? hc),
        fun c hc => hspace c (List.mem_of_getLast? hc)⟩
      rw [readPayload_ack hack (hskip p hp)] at h
      cases h
    · change g.filterMap (payloadJob proc) = []
      rw [List.filterMap_eq_nil_iff]
      intro p hp
      rw [payloadJob, readPayload_ack hack (hskip p hp)]
  | assigned a =>
    have hok : a.Ok ft := hline
    obtain ⟨hwhole, htakes⟩ := hgood a rfl
    have hread' : readPayload proc (eventText a.event) = .put a.job :=
      readPayload_eventText hok hread htakes
    obtain ⟨l, r, rfl, hl, hr⟩ := exists_of_whole hwhole hg
    have hput : payloadJob proc (eventText a.event) = some a.job := by
      rw [payloadJob, hread']
    constructor
    · intro p hp
      rw [List.mem_append, List.mem_cons] at hp
      rcases hp with hp | rfl | hp
      · exact hl p hp ▸ clean_nil
      · refine ⟨fun h => ?_, fun c hc => ?_, fun c hc => ?_⟩
        · rw [hread'] at h
          cases h
        · cases hc
          rfl
        · rw [getLast?_eventText] at hc
          cases hc
          rfl
      · exact hr p hp ▸ clean_nil
    · rw [List.filterMap_append, jobs_of_nils hl, List.filterMap_cons_some hput, jobs_of_nils hr]
      rfl

/-- The pieces of all lines. -/
theorem clean_linePieces {lines : List WorkerLine} (hlines : ∀ line ∈ lines, line.Ok ft)
    (hread : ReadsLines ft proc.loads lines) {G : List (List Str)}
    (hG : List.Forall₂ (fun line g => g.flatten = line.text) lines G)
    (hwhole : ∀ e ∈ lines.zip G, ∀ a, e.1 = .assigned a → eventText a.event ∈ e.2)
    (htakes : ∀ line ∈ lines, ∀ a, line = .assigned a → proc.Takes a) :
    (∀ p ∈ G.flatten, Clean proc p) ∧
      G.flatten.filterMap (payloadJob proc) = lines.flatMap WorkerLine.jobs := by
  induction hG with
  | nil => exact ⟨fun p hp => absurd hp List.not_mem_nil, rfl⟩
  | cons hg hG ih =>
    rename_i line g lines G
    rw [List.zip_cons_cons, List.forall_mem_cons] at hwhole
    rw [List.forall_mem_cons] at hlines htakes
    have hfirst := clean_of_whole hread.ack hlines.1 (hread.line line List.mem_cons_self) hg
      fun a ha => ⟨hwhole.1 a ha, htakes.1 a ha⟩
    have hrest := ih hlines.2 ⟨hread.ack, fun l hl => hread.line l (List.mem_cons_of_mem _ hl)⟩
      hwhole.2 htakes.2
    rw [List.flatten_cons, List.forall_mem_append, List.filterMap_append, List.flatMap_cons,
      hfirst.2, hrest.2]
    exact ⟨⟨hfirst.1, hrest.1⟩, rfl⟩

/-- The chunks are read like the pieces in them. -/
theorem eventLoop_eq {ts : List Str} (hne : ∀ t ∈ ts, encodeUtf8 t ≠ [])
    (hclean : ∀ p ∈ ts.flatMap (splitAll '\n'), Clean proc p) {w : Worker} (hrun : w.running = true) :
    eventLoop proc w (ts.map encodeUtf8) = { w with
      task_queue := w.task_queue ++ (ts.flatMap (splitAll '\n')).filterMap (payloadJob proc) } := by
  induction ts generalizing w with
  | nil => simp [eventLoop]
  | cons t ts ih =>
    rw [List.flatMap_cons] at hclean ⊢
    have hfirst : ∀ p ∈ splitAll '\n' t, Clean proc p := fun p hp =>
      hclean p (List.mem_append_left _ hp)
    have hstrip := filter_splitAll_strip fun p hp => (hfirst p hp).2
    have hfilter : ∀ ps : List Str, (ps.filter (· ≠ [])).filterMap (payloadJob proc) =
        ps.filterMap (payloadJob proc) := by
      intro ps
      rw [List.filterMap_filter]
      refine List.filterMap_congr fun p _ => ?_
      by_cases hp : p = []
      · subst hp
        rfl
      · rw [if_pos (decide_eq_true hp)]
    have hquiet : ∀ p ∈ splitAll '\n' (strip t), readPayload proc p ≠ .raise := by
      intro p hp
      by_cases hnil : p = []
      · rw [hnil]
        exact clean_nil.1
      · have hmem : p ∈ (splitAll '\n' (strip t)).filter (· ≠ []) :=
          List.mem_filter.mpr ⟨hp, decide_eq_true hnil⟩
        rw [hstrip] at hmem
        exact (hfirst p (List.mem_filter.mp hmem).1).1
    have hjobs : (splitAll '\n' (strip t)).filterMap (payloadJob proc) =
        (splitAll '\n' t).filterMap (payloadJob proc) := by
      rw [← hfilter, hstrip, hfilter]
    rw [List.map_cons, eventLoop, if_pos hrun, readFromGateway, if_neg (hne t List.mem_cons_self),
      decodeStrict_encodeUtf8]
    change eventLoop proc (readPayloads proc w _) _ = _
    rw [readPayloads_eq hquiet, hjobs]
    refine (ih (w := ⟨w.running, w.task_queue ++ (splitAll '\n' t).filterMap (payloadJob proc)⟩)
      (fun t ht => hne t (List.mem_cons_of_mem _ ht))
      (fun p hp => hclean p (List.mem_append_right _ hp)) hrun).trans ?_
    rw [List.filterMap_append]
    simp only [List.append_assoc]

/-! ## The whole stream -/

theorem newline_notMem_text {line : WorkerLine} (hline : line.Ok ft) : '\n' ∉ line.text := by
  cases line with
  | ack => decide
  | assigned a =>
    have hok : a.Ok ft := hline
    exact newline_notMem_eventText hok.canonical

theorem isAscii_workerText {lines : List WorkerLine} (hlines : ∀ line ∈ lines, line.Ok ft) :
    IsAscii (workerText lines) := by
  intro c hc
  obtain ⟨l, hl, hc⟩ := List.mem_flatten.mp hc
  obtain ⟨line, hline, rfl⟩ := List.mem_map.mp hl
  rcases List.mem_append.mp hc with hc | hc
  · cases line with
    | ack =>
      have hack : IsAscii ['A', 'C', 'K'] := (length_encodeUtf8_eq_iff _).mp rfl
      exact hack c hc
    | assigned a =>
      have hok : a.Ok ft := hlines _ hline
      exact isAscii_of_printable (printable_eventText hok.canonical) c hc
  · rw [List.mem_singleton.mp hc]
    decide

theorem splitAll_workerText {lines : List WorkerLine} (hlines : ∀ line ∈ lines, line.Ok ft) :
    splitAll '\n' (workerText lines) = lines.map WorkerLine.text ++ [[]] := by
  induction lines with
  | nil => rfl
  | cons line lines ih =>
    have hline := newline_notMem_text (hlines line List.mem_cons_self)
    have ih := ih fun l hl => hlines l (List.mem_cons_of_mem _ hl)
    have htext : workerText (line :: lines) = line.text ++ '\n' :: workerText lines := by
      rw [workerText, List.map_cons, List.flatten_cons, List.append_assoc]
      rfl
    rw [splitAll] at ih
    rw [htext, splitAll, splitLines_line hline, List.map_cons, List.cons_append, List.cons_append, ih]

/-- The pieces of the lines, and empty ones behind the last newline. -/
theorem exists_linePieces {lines : List WorkerLine} (hlines : ∀ line ∈ lines, line.Ok ft)
    {ts : List Str} (h : ts.flatten = workerText lines) :
    ∃ G G', linePieces '\n' ts = G ++ G' ∧
      List.Forall₂ (fun line g => g.flatten = line.text) lines G ∧ ∀ p ∈ G'.flatten, p = [] := by
  have hmap := map_flatten_linePieces '\n' ts
  rw [h, splitAll_workerText hlines] at hmap
  obtain ⟨G, G', hG, hfirst, hrest⟩ := List.map_eq_append_iff.mp hmap
  refine ⟨G, G', hG, ?_, ?_⟩
  · have heq : List.Forall₂ Eq (lines.map WorkerLine.text) (G.map List.flatten) := by
      rw [List.forall₂_eq_eq_eq, hfirst]
    rw [List.forall₂_map_left_iff, List.forall₂_map_right_iff] at heq
    exact heq.imp fun _ _ h => h.symm
  · rw [← List.flatten_eq_nil_iff, List.flatten_flatten, hrest]
    rfl

theorem exists_mem_zip {α β : Type} {xs : List α} {ys : List β} (h : xs.length = ys.length) {x : α}
    (hx : x ∈ xs) : ∃ y, (x, y) ∈ xs.zip ys := by
  rw [← List.map_fst_zip h.le, List.mem_map] at hx
  obtain ⟨⟨x', y⟩, hmem, rfl⟩ := hx
  exact ⟨y, hmem⟩

/-- Of the assignments that are lost, one has the deepest job. -/
theorem exists_deepest {es : List (WorkerLine × List Str)} (h : ∃ D, ∃ e ∈ es, LostAt proc D e) :
    ∃ D, (∃ e ∈ es, LostAt proc D e) ∧ ∀ e ∈ es, ∀ D', LostAt proc D' e → D' ≤ D := by
  have hfinite : {D | ∃ e ∈ es, LostAt proc D e}.Finite := by
    refine (es.finite_toSet.biUnion (t := fun e => {D | LostAt proc D e})
      fun e _ => Set.Subsingleton.finite ?_).subset ?_
    · rintro D ⟨a, ha, -, rfl⟩ D' ⟨a', ha', -, rfl⟩
      rw [ha] at ha'
      cases ha'
      rfl
    · rintro D ⟨e, he, hD⟩
      exact Set.mem_biUnion he hD
  obtain ⟨D, hD, hmax⟩ := Set.exists_max_image _ id hfinite h
  exact ⟨D, hD, fun e he D' hD' => hmax D' ⟨e, he, hD'⟩⟩

/-- **When a worker receives every assignment.** -/
theorem worker_receives_all {lines : List WorkerLine} (hlines : ∀ line ∈ lines, line.Ok ft)
    (hread : ReadsLines ft proc.loads lines) {chunks : List Bytes}
    (hne : ∀ chunk ∈ chunks, chunk ≠ []) (h : chunks.flatten = workerStream lines) :
    (eventLoop proc ⟨true, []⟩ chunks).task_queue = lines.flatMap WorkerLine.jobs ↔
      ArriveWhole lines chunks ∧ ∀ line ∈ lines, ∀ a, line = .assigned a → proc.Takes a := by
  classical
  obtain ⟨ts, rfl, hts⟩ := exists_pieces (isAscii_workerText hlines) h
  obtain ⟨G, G', hpieces, hG, hG'⟩ := exists_linePieces hlines hts
  have hdecode : (ts.map encodeUtf8).map decodeIgnore = ts := by
    rw [List.map_map]
    exact List.map_id'' decodeIgnore_encodeUtf8_self ts
  have hzip : lines.zip (linePieces '\n' ts) = lines.zip G := by
    have := @List.zip_append _ _ lines [] G G' hG.length_eq
    rwa [List.append_nil, List.zip_nil_left, List.append_nil, ← hpieces] at this
  have hall : ts.flatMap (splitAll '\n') = G.flatten ++ G'.flatten := by
    rw [← flatten_linePieces, hpieces, List.flatten_append]
  rw [ArriveWhole, hdecode, hzip]
  constructor
  · intro hqueue
    by_contra hbad
    have hlost : ∃ D, ∃ e ∈ lines.zip G, LostAt proc D e := by
      rw [not_and_or] at hbad
      push Not at hbad
      rcases hbad with ⟨e, he, a, ha, hnot⟩ | ⟨line, hline, a, ha, hnot⟩
      · exact ⟨_, e, he, a, ha, .inl hnot, rfl⟩
      · obtain ⟨g, hg⟩ := exists_mem_zip hG.length_eq hline
        exact ⟨_, _, hg, a, ha, .inr hnot, rfl⟩
    obtain ⟨D, ⟨e, he, hat⟩, hmax⟩ := exists_deepest hlost
    have hpos : 0 < (lines.zip G).countP (LostAt proc D) :=
      List.countP_pos_iff.mpr ⟨e, he, decide_eq_true hat⟩
    have hlinesD := countP_linePieces hlines hread hG hmax
    have hrun := countP_eventLoop proc (D := D) (P := fun p => Deep proc D p)
      (fun p => decide_eq_true_iff) ⟨true, []⟩ ts
    rw [hqueue, hall, List.countP_append, countP_nils hG'] at hrun
    change _ ≤ 0 + _ at hrun
    change G.flatten.countP (Deep proc D) + _ ≤ _ at hlinesD
    omega
  · rintro ⟨hwhole, htakes⟩
    have hlinesG := clean_linePieces hlines hread hG hwhole htakes
    have hclean : ∀ p ∈ ts.flatMap (splitAll '\n'), Clean proc p := by
      rw [hall, List.forall_mem_append]
      exact ⟨hlinesG.1, fun p hp => hG' p hp ▸ clean_nil⟩
    rw [eventLoop_eq (fun t ht => hne _ (List.mem_map_of_mem ht)) hclean rfl, hall,
      List.filterMap_append, hlinesG.2, jobs_of_nils hG']
    exact List.append_nil _

/-- An assignment to a worker. -/
def someTask : TaskAssigned := ⟨.str "w1".toList, [("id".toList, .str "j1".toList)]⟩

theorem someTask_ok : ∀ line ∈ [WorkerLine.assigned someTask], line.Ok FloatText.verbatim := by
  intro line hline
  rw [List.mem_singleton.mp hline]
  refine ⟨.str _, rfl, .obj (List.nodup_singleton _) fun f hf => ?_⟩
  rw [List.mem_singleton.mp hf]
  exact .str _

/-- The worker, with a standard output for ASCII. -/
def workerOne : WorkerProcess :=
  ⟨library .verbatim, ⟨fun _ => [], fun c => c.toNat < 128⟩, "w1".toList⟩

theorem worker_receives_all_at_once :
    (eventLoop workerOne ⟨true, []⟩ [workerStream [.assigned someTask]]).task_queue =
      [WorkerLine.assigned someTask].flatMap WorkerLine.jobs :=
  (worker_receives_all someTask_ok (readsLines_library _ _)
    (fun chunk hchunk => by
      rw [List.mem_singleton.mp hchunk]
      exact List.cons_ne_nil _ _)
    (List.append_nil _)).mpr (by
      constructor
      · intro e he a ha
        have hpieces : [WorkerLine.assigned someTask].zip
            (linePieces '\n' ([workerStream [.assigned someTask]].map decodeIgnore)) =
            [(.assigned someTask, [eventText someTask.event])] := rfl
        rw [hpieces, List.mem_singleton] at he
        subst he
        cases ha
        exact List.mem_singleton_self _
      · intro line hline a ha
        rw [List.mem_singleton.mp hline] at ha
        cases ha
        exact ⟨⟨_, PyJson.library_eq_value.mpr
          (PyJson.loads_dumps (someTask_ok _ List.mem_cons_self).canonical)⟩, by decide⟩)

/-- An assignment that comes in two chunks is lost. -/
theorem lost_when_cut : ¬ ∀ (lines : List WorkerLine) (chunks : List Bytes),
    (∀ line ∈ lines, line.Ok FloatText.verbatim) →
    (∀ chunk ∈ chunks, 1 ≤ chunk.length ∧ chunk.length ≤ 4096) →
    chunks.flatten = workerStream lines →
    (eventLoop workerOne ⟨true, []⟩ chunks).task_queue = lines.flatMap WorkerLine.jobs := by
  intro h
  have hall := h [.assigned someTask]
    [(workerStream [.assigned someTask]).take 1, (workerStream [.assigned someTask]).drop 1]
    someTask_ok
    (by
      intro chunk hchunk
      simp only [List.mem_cons, List.not_mem_nil, or_false] at hchunk
      rcases hchunk with rfl | rfl <;> exact ⟨by decide, by decide⟩)
    (by rw [List.flatten_cons, List.flatten_singleton, List.take_append_drop])
  exact List.cons_ne_nil _ _ hall.symm

end JobSystem
