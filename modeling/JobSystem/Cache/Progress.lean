import JobSystem.Lib.Consuming
import JobSystem.Cache.Aof

/-!
# Progress of the RESP parser

`parse_resp` under an interpreter whose `int` reads only so many digits, and the two loops around it,
with each of their rounds.

* `parseStepCapped`, `parseRespCapped`; `parseRespCapped_zero`: without a limit it is `parseResp`;
* `handleClientLoop`, `replayLoopRounds`: the inner loop of `handle_client` and the loop of
  `replay_aof_recovery`; `drain_of_runs`, `replayLoop_of_runs`: what they compute;
* **`parse_resp_progress`**: the parser returns a suffix, a shorter one with a value, and the loops end.
-/

namespace JobSystem

open PyText Consuming

/-! ## The digit limit of `int` -/

/-- The number of the first line has more digits than `int` reads; there is no limit at 0. -/
def tooManyDigits (max_str_digits : ℕ) (buffer : Str) : Bool :=
  match splitOnce crlf buffer with
  | some (line, _) => 0 < max_str_digits &&
      max_str_digits < line.tail.countP fun c => (digitValue c).isSome
  | none => false

/-- The body of `parse_resp` under the limit: `int(line[1:])` raises `ValueError`, which the branches
`'$'` and `'*'` catch. -/
def parseStepCapped (max_str_digits : ℕ) (parse : Parser) : Parser
  | [] => parseStep parse []
  | c :: cs =>
    if tooManyDigits max_str_digits (c :: cs) ∧ c = ':' then none
    else if tooManyDigits max_str_digits (c :: cs) ∧ (c = '$' ∨ c = '*') then some (.none, c :: cs)
    else parseStep parse (c :: cs)

/-- `parse_resp(buffer)` under the limit. -/
def parseRespCapped (max_str_digits : ℕ) : Parser := fix (parseStepCapped max_str_digits)

section Parser

variable (max_str_digits : ℕ) {parse : Parser} {buffer : Str}

theorem parseStepCapped_progress (hp : Suffixes parse) {r : Value × Str}
    (h : parseStepCapped max_str_digits parse buffer = some r) : Progress buffer r := by
  cases buffer with
  | nil => exact parseStep_progress hp h
  | cons c cs =>
    rw [parseStepCapped] at h
    split_ifs at h
    · cases h
      exact Progress.refl _
    · exact parseStep_progress hp h

/-- **`parse_resp` calls itself on shorter buffers only.** -/
theorem descends_parseStepCapped : Descends (parseStepCapped max_str_digits) where
  suffixes hp _ _ hr := (parseStepCapped_progress max_str_digits hp hr).1
  calls := by
    intro p q text hp hpq
    cases text with
    | nil => rfl
    | cons c cs => simp only [parseStepCapped, parseStep_congr hp hpq]

/-- Without a limit. -/
theorem parseRespCapped_zero : parseRespCapped 0 = parseResp := by
  refine ((descends_parseStepCapped 0).eq_fix fun text => ?_).symm
  cases text with
  | nil => rfl
  | cons c cs =>
    have hlimit : tooManyDigits 0 (c :: cs) = false := by
      unfold tooManyDigits
      split
      · exact Bool.false_and _
      · rfl
    rw [parseResp_eq, parseStepCapped, hlimit, if_neg (fun h => Bool.false_ne_true h.1),
      if_neg fun h => Bool.false_ne_true h.1]

/-- **The parser makes progress**, whatever the limit. -/
theorem parseRespCapped_progress {r : Value × Str} (h : parseRespCapped max_str_digits buffer = some r) :
    Progress buffer r := by
  rw [parseRespCapped, (descends_parseStepCapped max_str_digits).fix_eq] at h
  exact parseStepCapped_progress max_str_digits (descends_parseStepCapped max_str_digits).suffixes_fix h

end Parser

/-! ## The loops -/

/-- A parser that leaves a shorter text when it returns a value. -/
def Progresses (parse : Parser) : Prop := ∀ buffer r, parse buffer = some r → Progress buffer r

section Loops

variable (parse : Parser) (listStr : List Value → Str)

/-- A round of the inner loop of `handle_client`; it ends with an exception, without a value, or when
the branch on `action` leaves it. -/
def handleClientRound (s : Session) : Session ⊕ Session :=
  match parse s.buffer with
  | none => .inl s.close
  | some (parts, rest) =>
    if parts.isNone then .inl s
    else
      let s' := Session.dispatch listStr (s.setBuffer rest) parts
      if s'.isOpen then .inr s' else .inl s'

/-- The inner loop of `handle_client`: `while True`. -/
def handleClientLoop : Loop Session Session := ⟨fun _ => true, handleClientRound parse listStr⟩

/-- The round takes a value from the buffer. -/
def takesValue (s : Session) : Bool :=
  match parse s.buffer with
  | some (parts, _) => !parts.isNone
  | none => false

variable {σ : Type} (visit : σ → Value → Option σ)

/-- A round of the loop of `replay_aof_recovery`; `none` is an exception. -/
def replayRound (p : σ × Str) : Option (σ × Str) ⊕ (σ × Str) :=
  match parse p.2 with
  | none => .inl none
  | some (parts, rest) =>
    if parts.isNone then .inl (some p)
    else
      match visit p.1 parts with
      | none => .inl none
      | some s => .inr (s, rest)

/-- The loop of `replay_aof_recovery`: `while buffer`. -/
def replayLoopRounds : Loop (σ × Str) (Option (σ × Str)) :=
  ⟨fun p => p.2 ≠ [], replayRound parse visit⟩

variable {parse listStr visit}

/-- A round that goes on has taken a value and handled it. -/
theorem handleClientRound_eq_inr {s s' : Session}
    (h : handleClientRound parse listStr s = .inr s') : ∃ parts rest,
      parse s.buffer = some (parts, rest) ∧ parts.isNone = false ∧
        (Session.dispatch listStr s parts).setBuffer rest = s' := by
  unfold handleClientRound at h
  cases hp : parse s.buffer with
  | none =>
    rw [hp] at h
    cases h
  | some r =>
    rw [hp] at h
    dsimp only at h
    split_ifs at h with hnone
    cases h
    exact ⟨r.1, r.2, rfl, Bool.eq_false_iff.mpr hnone, (Session.dispatch_setBuffer _ _ _ _).symm⟩

theorem replayRound_eq_inr {p p' : σ × Str} (h : replayRound parse visit p = .inr p') :
    ∃ parts rest s, parse p.2 = some (parts, rest) ∧ parts.isNone = false ∧
      visit p.1 parts = some s ∧ (s, rest) = p' := by
  unfold replayRound at h
  cases hp : parse p.2 with
  | none =>
    rw [hp] at h
    cases h
  | some r =>
    rw [hp] at h
    dsimp only at h
    split_ifs at h with hnone
    cases hvisit : visit p.1 r.1 with
    | none =>
      rw [hvisit] at h
      cases h
    | some s =>
      rw [hvisit] at h
      cases h
      exact ⟨r.1, r.2, s, rfl, Bool.eq_false_iff.mpr hnone, hvisit, rfl⟩

end Loops

/-! ## The loops end -/

section Bounds

variable {parse : Parser} (hparse : Progresses parse) {listStr : List Value → Str}

include hparse

/-- A round that goes on leaves a shorter buffer. -/
theorem lt_of_handleClientRound {s s' : Session} (h : handleClientRound parse listStr s = .inr s') :
    s'.buffer.length < s.buffer.length := by
  obtain ⟨parts, rest, hp, hvalue, rfl⟩ := handleClientRound_eq_inr h
  exact (hparse _ _ hp).2 hvalue

/-- **The inner loop of `handle_client` ends**, one round after the last of its buffer at most. -/
theorem endsWithin_handleClientLoop (s : Session) :
    (handleClientLoop parse listStr).EndsWithin s (s.buffer.length + 1) :=
  Loop.endsWithin (m := fun s : Session => s.buffer.length + 1)
    (fun _ _ _ hround => Nat.succ_lt_succ (lt_of_handleClientRound hparse hround))
    (fun _ _ => Nat.succ_pos _) s

/-- **It takes as many values** as the buffer is long at most. -/
theorem countP_takesValue_le {s r} {states : List Session}
    (h : (handleClientLoop parse listStr).Runs s states r) :
    states.countP (takesValue parse) ≤ s.buffer.length := by
  refine h.countP_le (m := fun s : Session => s.buffer.length)
    (fun _ _ _ hround => lt_of_handleClientRound hparse hround) fun s _ htakes => ?_
  unfold takesValue at htakes
  cases hp : parse s.buffer with
  | none =>
    rw [hp] at htakes
    cases htakes
  | some r =>
    rw [hp] at htakes
    have hvalue : r.1.isNone = false := by simpa using htakes
    exact (Nat.zero_le _).trans_lt ((hparse _ _ hp).2 hvalue)

/-- **The loop of `replay_aof_recovery` ends** after as many rounds as the buffer is long at most. -/
theorem endsWithin_replayLoopRounds {σ : Type} (visit : σ → Value → Option σ) (p : σ × Str) :
    (replayLoopRounds parse visit).EndsWithin p p.2.length := by
  refine Loop.endsWithin (m := fun p : σ × Str => p.2.length) (fun p p' _ hround => ?_)
    (fun p hagain => List.length_pos_iff.mpr (of_decide_eq_true hagain)) p
  obtain ⟨parts, rest, s, hp, hvalue, -, rfl⟩ := replayRound_eq_inr hround
  exact (hparse _ _ hp).2 hvalue

end Bounds

/-! ## What the loops compute -/

section Results

variable {listStr : List Value → Str}

theorem drain_eq_round (s : Session) : Session.drain listStr s =
    match handleClientRound parseResp listStr s with
    | .inl s' => s'
    | .inr s' => Session.drain listStr s' := by
  rw [Session.drain_eq]
  unfold handleClientRound
  cases parseResp s.buffer with
  | none => rfl
  | some r =>
    dsimp only
    rw [Session.dispatch_setBuffer, Session.isOpen_setBuffer]
    split_ifs <;> rfl

/-- **The rounds of the inner loop** lead to its result. -/
theorem drain_of_runs {s r} {states : List Session}
    (h : (handleClientLoop parseResp listStr).Runs s states r) :
    r = .inl (Session.drain listStr s) := by
  induction h with
  | ended h => cases h
  | broken h hround =>
    change handleClientRound parseResp listStr _ = _ at hround
    rw [drain_eq_round, hround]
  | next h hround hrest ih =>
    change handleClientRound parseResp listStr _ = _ at hround
    rw [drain_eq_round, hround, ih]

variable {σ : Type} {visit : σ → Value → Option σ}

theorem replayLoop_eq_round {p : σ × Str} (h : p.2 ≠ []) : replayLoop visit p.1 p.2 =
    match replayRound parseResp visit p with
    | .inl r => r
    | .inr p' => replayLoop visit p'.1 p'.2 := by
  rw [replayLoop_eq, if_neg h]
  unfold replayRound
  cases parseResp p.2 with
  | none => rfl
  | some r =>
    dsimp only
    split_ifs
    · rfl
    · cases visit p.1 r.1 <;> rfl

/-- **The rounds of recovery** lead to its result. -/
theorem replayLoop_of_runs {p r} {states : List (σ × Str)}
    (h : (replayLoopRounds parseResp visit).Runs p states r) :
    replayLoop visit p.1 p.2 = r.elim id some := by
  induction h with
  | @ended p h =>
    have hnil : p.2 = [] := not_not.mp (of_decide_eq_false h)
    rw [replayLoop_eq, if_pos hnil]
    rfl
  | broken h hround =>
    change replayRound parseResp visit _ = _ at hround
    rw [replayLoop_eq_round (of_decide_eq_true h), hround]
    rfl
  | next h hround hrest ih =>
    change replayRound parseResp visit _ = _ at hround
    rw [replayLoop_eq_round (of_decide_eq_true h), hround, ← ih]

end Results

/-- **The parser makes progress, and the loops around it end.** Calls nested deeper than the buffer is
long are never made, so that `parse_resp` returns or raises; what it leaves is a suffix of the buffer,
a shorter one with a value. The inner loop of `handle_client` takes as many values as the buffer is long
at most, and has one round more to break off; recovery has as many rounds as the buffer is long at
most. -/
theorem parse_resp_progress (max_str_digits : ℕ) (buffer : Str) :
    (∀ (deeper : Parser) (n : ℕ), buffer.length < n →
      (parseStepCapped max_str_digits)^[n] deeper buffer = parseRespCapped max_str_digits buffer) ∧
    (∀ v rest, parseRespCapped max_str_digits buffer = some (v, rest) →
      rest <:+ buffer ∧ (v.isNone = false → rest.length < buffer.length)) ∧
    (∀ (listStr : List Value → Str) (s : Session), s.buffer = buffer →
      (handleClientLoop (parseRespCapped max_str_digits) listStr).EndsWithin s (buffer.length + 1) ∧
      ∀ states r, (handleClientLoop (parseRespCapped max_str_digits) listStr).Runs s states r →
        states.countP (takesValue (parseRespCapped max_str_digits)) ≤ buffer.length) ∧
    ∀ (σ : Type) (visit : σ → Value → Option σ) (s : σ),
      (replayLoopRounds (parseRespCapped max_str_digits) visit).EndsWithin (s, buffer)
        buffer.length := by
  have hparse : Progresses (parseRespCapped max_str_digits) := fun _ _ h =>
    parseRespCapped_progress max_str_digits h
  refine ⟨fun deeper n hn => (descends_parseStepCapped max_str_digits).iterate_eq_fix deeper hn,
    fun v rest h => hparse _ _ h, ?_, fun σ visit s => endsWithin_replayLoopRounds hparse visit _⟩
  rintro listStr s rfl
  exact ⟨endsWithin_handleClientLoop hparse s, fun states r h => countP_takesValue_le hparse h⟩

/-- A connection to an empty server, with this text received. -/
def received (buffer : Str) : Session := (Session.connect (.init 2)).setBuffer buffer

/-- **The inner loop has one round more**: on an empty line it takes an empty command, and breaks off in
the next round. -/
theorem two_rounds_on_empty_line : ¬ ∀ (max_str_digits : ℕ) (listStr : List Value → Str) (s : Session),
    (handleClientLoop (parseRespCapped max_str_digits) listStr).EndsWithin s s.buffer.length := by
  intro h
  have hline : handleClientRound (parseRespCapped 4300) (fun _ => []) (received ['\n']) =
      .inr (received []) := rfl
  have hempty : handleClientRound (parseRespCapped 4300) (fun _ => []) (received []) =
      .inl (received []) := rfl
  have hruns : (handleClientLoop (parseRespCapped 4300) fun _ => []).Runs (received ['\n'])
      [received ['\n'], received []] (.inl (received [])) := .next rfl hline (.broken rfl hempty)
  have hbound : 2 ≤ 1 := (h 4300 (fun _ => []) _).2 _ _ hruns
  exact absurd hbound (by decide)

end JobSystem
