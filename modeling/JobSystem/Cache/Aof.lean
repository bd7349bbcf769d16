import JobSystem.Cache.Server
import JobSystem.Cache.RespRoundTrip

/-!
# The append-only file

`append_to_log` opens the file for each command and writes the request text; recovery reads the
whole file in text mode, which turns every line ending into `'\n'`, and parses the result.

* `replayLoop`: the loop of `replay_aof_recovery`, for any interpreter of the values;
  **`replayLoop_eq`** is its equation;
* **`replayLoop_flatMap`**: on the text as it was written, the loop visits every command;
* `universalNewlines`: what text mode does on reading;
* **`replayAof_iff`**: no command survives the way through the file.
-/

namespace JobSystem

open PyText

/-! ## The loop -/

section Loop

variable {σ : Type} (visit : σ → Value → Option σ)

/-- The loop of `replay_aof_recovery` with a bound on its rounds; `none` is an exception. The text
that is left when the loop stops comes with the state. -/
def replayFuel : ℕ → σ → Str → Option (σ × Str)
  | 0, s, buffer => some (s, buffer)
  | fuel + 1, s, buffer =>
    if buffer = [] then some (s, buffer)
    else
      match parseResp buffer with
      | none => none
      | some (parts, rest) =>
        if parts.isNone then some (s, buffer)
        else (visit s parts).bind fun s' => replayFuel fuel s' rest

/-- The loop of `replay_aof_recovery`. -/
def replayLoop (s : σ) (buffer : Str) : Option (σ × Str) :=
  replayFuel visit (buffer.length + 1) s buffer

theorem replayFuel_congr {n m : ℕ} {s : σ} {buffer : Str} (hn : buffer.length < n)
    (hm : buffer.length < m) : replayFuel visit n s buffer = replayFuel visit m s buffer := by
  refine Consuming.fuel_congr (f := fun n (x : σ × Str) => replayFuel visit n x.1 x.2)
    (g := fun m x => replayFuel visit m x.1 x.2) (x := (s, buffer)) (fun x => x.2.length)
    (fun n m ⟨s, buffer⟩ ih => ?_) hn hm
  simp only [replayFuel]
  split_ifs
  · rfl
  · cases hp : parseResp buffer with
    | none => rfl
    | some r =>
      obtain ⟨parts, rest⟩ := r
      simp only
      split_ifs with hnone
      · rfl
      · have hlt := (parseResp_suffix hp).2 (Bool.eq_false_iff.mpr hnone)
        congr 1
        funext s'
        exact ih (s', rest) hlt

/-- **The equation of the loop.** -/
theorem replayLoop_eq (s : σ) (buffer : Str) : replayLoop visit s buffer =
    if buffer = [] then some (s, buffer)
    else
      match parseResp buffer with
      | none => none
      | some (parts, rest) =>
        if parts.isNone then some (s, buffer)
        else (visit s parts).bind fun s' => replayLoop visit s' rest := by
  rw [replayLoop, replayFuel]
  split_ifs
  · rfl
  · cases hp : parseResp buffer with
    | none => rfl
    | some r =>
      obtain ⟨parts, rest⟩ := r
      simp only
      split_ifs with hnone
      · rfl
      · have hlt := (parseResp_suffix hp).2 (Bool.eq_false_iff.mpr hnone)
        simp only at hlt
        congr 1
        funext s'
        exact replayFuel_congr visit (by omega) (by omega)

/-- The loop stops at once on text that does not parse. -/
theorem replayLoop_of_none {s : σ} {buffer rest : Str}
    (h : parseResp buffer = some (.none, rest)) : replayLoop visit s buffer = some (s, buffer) := by
  rw [replayLoop_eq, h]
  simp only [Value.isNone, if_true, ite_self]

/-- The loop visits a request that starts the text. -/
theorem replayLoop_encodeReq {cmd_array : List Str} (h : AllAscii cmd_array) (s : σ) (tail : Str) :
    replayLoop visit s (encodeReq cmd_array ++ tail) =
      (visit s (.list (cmd_array.map .str))).bind fun s' => replayLoop visit s' tail := by
  rw [replayLoop_eq, parseResp_encodeReq h]
  have hne : encodeReq cmd_array ++ tail ≠ [] := by rw [encodeReq_append]; exact List.cons_ne_nil _ _
  rw [if_neg hne]
  rfl

/-- **The text of a list of requests is visited in order and to its end.** -/
theorem replayLoop_flatMap {cmds : List (List Str)} (h : ∀ cmd ∈ cmds, AllAscii cmd) (s : σ) :
    replayLoop visit s (cmds.flatMap encodeReq) =
      (cmds.foldlM (fun s cmd => visit s (.list (cmd.map .str))) s).map fun s' => (s', []) := by
  induction cmds generalizing s with
  | nil => rw [List.flatMap_nil, replayLoop_eq, if_pos rfl]; rfl
  | cons cmd cmds ih =>
    have hcmds : ∀ c ∈ cmds, AllAscii c := fun c hc => h c (List.mem_cons_of_mem _ hc)
    rw [List.flatMap_cons, replayLoop_encodeReq visit (h cmd List.mem_cons_self), List.foldlM_cons]
    cases visit s (.list (cmd.map .str)) with
    | none => rfl
    | some s' => exact ih hcmds s'

end Loop

/-! ## The file -/

/-- `append_to_log`: the text of the file after it; `none` is a file that does not exist. -/
def appendToLog (file : Option Str) (cmd_array : List Str) : Option Str :=
  some (file.getD [] ++ encodeReq cmd_array)

/-- Reading in text mode. -/
def universalNewlines : Str → Str
  | [] => []
  | '\r' :: '\n' :: cs => '\n' :: universalNewlines cs
  | '\r' :: cs => '\n' :: universalNewlines cs
  | c :: cs => c :: universalNewlines cs

/-- The values that `replay_aof_recovery` visits, and the text that it leaves. -/
def replayAof (file : Option Str) : Option (List Value × Str) :=
  match file with
  | none => some ([], [])
  | some text => replayLoop (fun vs v => some (vs ++ [v])) [] (universalNewlines text)

theorem foldl_appendToLog (cmds : List (List Str)) (text : Str) :
    cmds.foldl appendToLog (some text) = some (text ++ cmds.flatMap encodeReq) := by
  induction cmds generalizing text with
  | nil => simp
  | cons c cmds ih =>
    rw [List.foldl_cons, appendToLog, Option.getD_some, ih, List.flatMap_cons, List.append_assoc]

theorem cr_notMem_universalNewlines (s : Str) : '\r' ∉ universalNewlines s := by
  induction s using universalNewlines.induct with
  | case1 => exact List.not_mem_nil
  | case2 cs ih => simpa [universalNewlines] using ih
  | case3 cs h ih => simpa [universalNewlines] using ih
  | case4 c cs h₁ h₂ ih => simpa [universalNewlines, eq_comm] using ⟨h₂, ih⟩

/-- An array header whose line ending is gone does not parse. -/
theorem parseResp_array_of_cr_notMem {buffer : Str} (h : '\r' ∉ buffer) :
    parseResp ('*' :: buffer) = some (.none, '*' :: buffer) := by
  have hcr : '\r' ∉ '*' :: buffer := by
    simp only [List.mem_cons, not_or]
    exact ⟨by decide, h⟩
  rw [parseResp_array]
  unfold parseArray crlf
  rw [splitOnce_eq_none_of_notMem hcr]

/-- **Recovery visits no command of a log that is read in text mode.** -/
theorem replayAof_cons (cmd : List Str) (cmds : List (List Str)) :
    ∃ text, text ≠ [] ∧ replayAof ((cmd :: cmds).foldl appendToLog none) = some ([], text) := by
  have hfile : (cmd :: cmds).foldl appendToLog none =
      some ('*' :: (natStr cmd.length ++ (crlf ++ (cmd.flatMap bulkText ++ cmds.flatMap encodeReq)))) := by
    rw [List.foldl_cons, appendToLog, foldl_appendToLog, Option.getD_none, List.nil_append,
      encodeReq_append]
  rw [hfile]
  generalize natStr cmd.length ++ (crlf ++ (cmd.flatMap bulkText ++ cmds.flatMap encodeReq)) = s
  refine ⟨'*' :: universalNewlines s, List.cons_ne_nil _ _, ?_⟩
  exact replayLoop_of_none _ (parseResp_array_of_cr_notMem (cr_notMem_universalNewlines s))

/-- **The log is read back exactly when nothing was written to it.** -/
theorem replayAof_iff (cmds : List (List Str)) :
    replayAof (cmds.foldl appendToLog none) =
      some (cmds.map fun cmd => .list (cmd.map .str), []) ↔ cmds = [] := by
  cases cmds with
  | nil => exact iff_of_true rfl rfl
  | cons cmd cmds =>
    obtain ⟨text, -, h⟩ := replayAof_cons cmd cmds
    rw [h]
    simp

/-- One `SET` is lost. -/
theorem replayAof_set_lost :
    replayAof ([[['S', 'E', 'T'], ['k'], ['v']]].foldl appendToLog none) ≠
      some ([[['S', 'E', 'T'], ['k'], ['v']]].map fun cmd => .list (cmd.map .str), []) := by
  have h : replayAof ([[['S', 'E', 'T'], ['k'], ['v']]].foldl appendToLog none) =
      some ([], "*3\n$3\nSET\n$1\nk\n$1\nv\n".toList) := rfl
  rw [h]
  intro e
  cases e

end JobSystem
