import JobSystem.Lib.Lines

/-!
# Servers that read lines

A server has a state and the end of its input that is no complete line yet. A line may fail, and a
chunk of the input may stop the server before it is looked at.

* `serveLines`: the lines up to one that fails; `counted`: and how many these are;
* `serveChunks`, `Ending`: the chunks up to one that stops, or a line that fails;
* **`serveChunks_of_quiet`**: chunks that do not stop are read like the whole stream;
  `serveChunks_of_stop`: the chunks before one that stops.
-/

namespace PyText

variable {α σ : Type}

/-- What the server is left with: the end of the input, a chunk that stops it, or an exception. -/
inductive Ending (α : Type) where
  | waiting (buffer : List α)
  | stopped
  | failed

/-- The lines, one after the other, up to one that fails. -/
def serveLines (line : σ → List α → σ × Bool) : List (List α) → σ → σ × Bool
  | [], s => (s, true)
  | l :: ls, s => if (line s l).2 then serveLines line ls (line s l).1 else line s l

theorem serveLines_append (line : σ → List α → σ × Bool) (ls ls' : List (List α)) (s : σ) :
    serveLines line (ls ++ ls') s =
      if (serveLines line ls s).2 then serveLines line ls' (serveLines line ls s).1
      else serveLines line ls s := by
  induction ls generalizing s with
  | nil => rfl
  | cons l ls ih =>
    rw [List.cons_append, serveLines, serveLines]
    by_cases h : (line s l).2 = true
    · rw [if_pos h, if_pos h, ih]
    · rw [if_neg h, if_neg h, if_neg h]

/-- What every line keeps is kept. -/
theorem serveLines_induction {line : σ → List α → σ × Bool} {P : σ → Prop}
    (hline : ∀ s l, P s → P (line s l).1) (ls : List (List α)) {s : σ} (hs : P s) :
    P (serveLines line ls s).1 := by
  induction ls generalizing s with
  | nil => exact hs
  | cons l ls ih =>
    rw [serveLines]
    split
    · exact ih (hline s l hs)
    · exact hline s l hs

/-- Two servers that run alike. -/
theorem serveLines_congr {τ : Type} {R : σ → τ → Prop} (line : σ → List α → σ × Bool)
    (line' : τ → List α → τ × Bool)
    (hline : ∀ s t l, R s t → R (line s l).1 (line' t l).1 ∧ (line s l).2 = (line' t l).2)
    (ls : List (List α)) {s : σ} {t : τ} (h : R s t) :
    R (serveLines line ls s).1 (serveLines line' ls t).1 ∧
      (serveLines line ls s).2 = (serveLines line' ls t).2 := by
  induction ls generalizing s t with
  | nil => exact ⟨h, rfl⟩
  | cons l ls ih =>
    have hfirst := hline s t l h
    rw [serveLines, serveLines, ← hfirst.2]
    split
    · exact ih hfirst.1
    · exact hfirst

/-- A server that counts the lines that it gets to. -/
def counted (line : σ → List α → σ × Bool) (p : σ × ℕ) (l : List α) : (σ × ℕ) × Bool :=
  (((line p.1 l).1, p.2 + 1), (line p.1 l).2)

/-- It gets to all of them if none fails. -/
theorem serveLines_counted {line : σ → List α → σ × Bool} {ls : List (List α)} {s : σ}
    (h : (serveLines line ls s).2 = true) (n : ℕ) :
    (serveLines (counted line) ls (s, n)).1.2 = n + ls.length := by
  induction ls generalizing s n with
  | nil => rfl
  | cons l ls ih =>
    rw [serveLines] at h
    split_ifs at h with hl
    · rw [serveLines, if_pos (show (counted line (s, n) l).2 = true from hl), List.length_cons]
      refine (ih h (n + 1)).trans ?_
      omega
    · exact absurd h hl

/-- A chunk that stops the server, or none. -/
theorem exists_stop_or_quiet (stop : List α → Prop) (chunks : List (List α)) :
    (∀ chunk ∈ chunks, ¬ stop chunk) ∨ ∃ before chunk after, chunks = before ++ chunk :: after ∧
      stop chunk ∧ ∀ chunk ∈ before, ¬ stop chunk := by
  induction chunks with
  | nil => exact .inl fun _ h => absurd h List.not_mem_nil
  | cons chunk chunks ih =>
    by_cases hstop : stop chunk
    · exact .inr ⟨[], chunk, chunks, rfl, hstop, fun _ h => absurd h List.not_mem_nil⟩
    · rcases ih with ih | ⟨before, chunk', after, rfl, hstop', hbefore⟩
      · exact .inl (List.forall_mem_cons.mpr ⟨hstop, ih⟩)
      · exact .inr ⟨chunk :: before, chunk', after, rfl, hstop',
          List.forall_mem_cons.mpr ⟨hstop, hbefore⟩⟩

theorem takeWhile_of_quiet {stop : List α → Prop} [DecidablePred stop] {chunks : List (List α)}
    (h : ∀ chunk ∈ chunks, ¬ stop chunk) :
    (chunks.takeWhile fun chunk => ¬ stop chunk) = chunks :=
  List.takeWhile_eq_self_iff.mpr fun chunk hchunk => decide_eq_true (h chunk hchunk)

theorem takeWhile_of_stop {stop : List α → Prop} [DecidablePred stop] {before after : List (List α)}
    {chunk : List α} (h : ∀ chunk ∈ before, ¬ stop chunk) (hstop : stop chunk) :
    ((before ++ chunk :: after).takeWhile fun chunk => ¬ stop chunk) = before := by
  rw [List.takeWhile_append_of_pos fun c hc => decide_eq_true (h c hc),
    List.takeWhile_cons_of_neg (by simpa using hstop), List.append_nil]

section Chunks

variable [DecidableEq α] (sep : α) (stop : List α → Prop) [DecidablePred stop]
  (line : σ → List α → σ × Bool)

/-- The chunks, with what is left of the ones before. -/
def serveChunks : List α → σ → List (List α) → σ × Ending α
  | buffer, s, [] => (s, .waiting buffer)
  | buffer, s, chunk :: chunks =>
    if stop chunk then (s, .stopped)
    else
      let lines := splitLines sep (buffer ++ chunk)
      let r := serveLines line lines.1 s
      if r.2 then serveChunks lines.2 r.1 chunks else (r.1, .failed)

/-- The stream in one piece. -/
def serveStream (s : σ) (stream : List α) : σ × Ending α :=
  let lines := splitLines sep stream
  let r := serveLines line lines.1 s
  (r.1, if r.2 then .waiting lines.2 else .failed)

variable {sep stop line}

/-- **Chunks that do not stop the server** are read like the whole stream. -/
theorem serveChunks_of_quiet {chunks : List (List α)} (h : ∀ chunk ∈ chunks, ¬ stop chunk)
    {buffer : List α} (hbuffer : sep ∉ buffer) (s : σ) :
    serveChunks sep stop line buffer s chunks =
      serveStream sep line s (buffer ++ chunks.flatten) := by
  induction chunks generalizing buffer s with
  | nil =>
    rw [serveChunks, serveStream, List.flatten_nil, List.append_nil, splitLines_of_notMem hbuffer]
    rfl
  | cons chunk chunks ih =>
    rw [List.forall_mem_cons] at h
    have ih := ih h.2 (sep_notMem_rest sep (buffer ++ chunk))
    rw [serveChunks, if_neg h.1, serveStream, List.flatten_cons, ← List.append_assoc,
      splitLines_append sep (buffer ++ chunk)]
    simp only [serveLines_append, ih]
    rw [serveStream]
    by_cases hok : (serveLines line (splitLines sep (buffer ++ chunk)).1 s).2 = true
    · simp only [hok, if_true]
    · simp only [hok, if_false, Bool.false_eq_true]

/-- The chunks in two parts. -/
theorem serveChunks_append (buffer : List α) (s : σ) (chunks chunks' : List (List α)) :
    serveChunks sep stop line buffer s (chunks ++ chunks') =
      match serveChunks sep stop line buffer s chunks with
      | (s', .waiting buffer') => serveChunks sep stop line buffer' s' chunks'
      | r => r := by
  induction chunks generalizing buffer s with
  | nil => rfl
  | cons chunk chunks ih =>
    rw [List.cons_append, serveChunks, serveChunks]
    by_cases hstop : stop chunk
    · rw [if_pos hstop, if_pos hstop]
    · rw [if_neg hstop, if_neg hstop]
      dsimp only
      split_ifs
      · exact ih _ _
      · rfl

/-- **The first chunk that stops the server.** -/
theorem serveChunks_of_stop {chunks : List (List α)} (h : ∀ chunk ∈ chunks, ¬ stop chunk)
    {chunk : List α} (hstop : stop chunk) {buffer : List α} (hbuffer : sep ∉ buffer) (s : σ)
    (chunks' : List (List α)) :
    serveChunks sep stop line buffer s (chunks ++ chunk :: chunks') =
      match serveStream sep line s (buffer ++ chunks.flatten) with
      | (s', .waiting _) => (s', .stopped)
      | r => r := by
  rw [serveChunks_append, serveChunks_of_quiet h hbuffer]
  split
  · rw [serveChunks, if_pos hstop]
  · rfl

end Chunks

end PyText
