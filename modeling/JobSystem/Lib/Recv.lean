import Mathlib

/-!
# Reading from a stream

A peer's bytes arrive in pieces. `recv` asks for at most so many bytes and gets a piece that is not
empty, unless the peer has sent everything; how long each piece is, is up to the network.

* `Conn`, `recv`; `recv_spec`;
* `readWhile`: the loop that collects pieces for as long as it asks for more;
* **`readWhile_spec`**: what it has read when it stops, and how long the last piece was;
* `readWhile_full`, **`readWhile_bytes`**: pieces as long as asked for, and pieces of single bytes.
-/

/-- The bytes of a peer that have not been received, and the lengths of the pieces that they come in;
when these are used up, every piece is as long as was asked for. -/
structure Conn where
  incoming : List UInt8
  sizes : List ℕ

namespace Conn

/-- `recv(bufsize)`. -/
def recv (c : Conn) (bufsize : ℕ) : List UInt8 × Conn :=
  let n := max 1 (min (c.sizes.headD bufsize) bufsize)
  (c.incoming.take n, ⟨c.incoming.drop n, c.sizes.tail⟩)

/-- The loop: `want` is how many bytes it asks for next, and it stops at none. An empty piece is the
end of the stream. -/
def readWhile (want : List UInt8 → ℕ) : ℕ → List UInt8 → Conn → List UInt8 × Conn
  | 0, buffer, c => (buffer, c)
  | fuel + 1, buffer, c =>
    if want buffer = 0 then (buffer, c)
    else
      let r := c.recv (want buffer)
      if r.1 = [] then (buffer, c) else readWhile want fuel (buffer ++ r.1) r.2

theorem recv_eq {c : Conn} {bufsize n : ℕ} (h : max 1 (min (c.sizes.headD bufsize) bufsize) = n) :
    c.recv bufsize = (c.incoming.take n, ⟨c.incoming.drop n, c.sizes.tail⟩) := by
  rw [← h]
  rfl

/-- **A piece** is the next bytes of the peer, and not empty before the end. -/
theorem recv_spec (c : Conn) {bufsize : ℕ} (h : bufsize ≠ 0) :
    c.incoming = (c.recv bufsize).1 ++ (c.recv bufsize).2.incoming ∧
      (c.recv bufsize).1.length ≤ bufsize ∧ ((c.recv bufsize).1 = [] ↔ c.incoming = []) := by
  refine ⟨(List.take_append_drop _ _).symm, ?_, ?_⟩
  · refine (List.length_take_le _ _).trans ?_
    omega
  · have hpos : max 1 (min (c.sizes.headD bufsize) bufsize) ≠ 0 := by omega
    show c.incoming.take _ = [] ↔ _
    rw [List.take_eq_nil_iff]
    exact or_iff_right hpos

variable {want : List UInt8 → ℕ}

/-- **What the loop has read** when it stops: it asks for no more, or the stream has ended; and before
the last piece it still asked for at least the length of it. -/
theorem readWhile_spec {fuel : ℕ} {buffer : List UInt8} {c : Conn} (h : c.incoming.length < fuel) :
    ∃ p, (readWhile want fuel buffer c).1 = buffer ++ p ∧
      c.incoming = p ++ (readWhile want fuel buffer c).2.incoming ∧
      (want (buffer ++ p) = 0 ∨ (readWhile want fuel buffer c).2.incoming = []) ∧
      (p = [] ∨ ∃ q last, buffer ++ p = q ++ last ∧ want q ≠ 0 ∧ last.length ≤ want q) := by
  induction fuel generalizing buffer c with
  | zero => exact absurd h (Nat.not_lt_zero _)
  | succ fuel ih =>
    rw [readWhile]
    by_cases hstop : want buffer = 0
    · rw [if_pos hstop]
      exact ⟨[], (List.append_nil _).symm, rfl, .inl (by rwa [List.append_nil]), .inl rfl⟩
    · obtain ⟨hbytes, hlen, hend⟩ := c.recv_spec hstop
      rw [if_neg hstop]
      dsimp only
      by_cases hnil : (c.recv (want buffer)).1 = []
      · rw [if_pos hnil]
        exact ⟨[], (List.append_nil _).symm, rfl, .inr (hend.mp hnil), .inl rfl⟩
      · rw [if_neg hnil]
        have hfuel : (c.recv (want buffer)).2.incoming.length < fuel := by
          have hpos := List.length_pos_iff.mpr hnil
          have hsum := congrArg List.length hbytes
          rw [List.length_append] at hsum
          omega
        obtain ⟨p, hread, hrest, hdone, hlast⟩ :=
          @ih (buffer ++ (c.recv (want buffer)).1) (c.recv (want buffer)).2 hfuel
        refine ⟨(c.recv (want buffer)).1 ++ p, ?_, ?_, ?_, .inr ?_⟩
        · rw [hread, List.append_assoc]
        · rw [List.append_assoc, ← hrest, ← hbytes]
        · rwa [← List.append_assoc]
        · rcases hlast with rfl | ⟨q, last, hq, hlast⟩
          · exact ⟨buffer, _, by rw [List.append_nil], hstop, hlen⟩
          · exact ⟨q, last, by rw [← List.append_assoc, hq], hlast⟩

theorem readWhile_of_stop (fuel : ℕ) {buffer : List UInt8} (c : Conn) (h : want buffer = 0) :
    readWhile want fuel buffer c = (buffer, c) := by
  cases fuel with
  | zero => rfl
  | succ fuel => rw [readWhile, if_pos h]

/-- With no lengths given, a piece is as long as was asked for. -/
theorem readWhile_full (fuel : ℕ) {buffer incoming : List UInt8} (h : want buffer ≠ 0)
    (hne : incoming ≠ []) :
    readWhile want (fuel + 1) buffer ⟨incoming, []⟩ =
      readWhile want fuel (buffer ++ incoming.take (want buffer))
        ⟨incoming.drop (want buffer), []⟩ := by
  have hrecv : recv ⟨incoming, []⟩ (want buffer) =
      (incoming.take (want buffer), ⟨incoming.drop (want buffer), []⟩) := by
    have hn : max 1 (min (want buffer) (want buffer)) = want buffer := by omega
    exact recv_eq hn
  have htake : incoming.take (want buffer) ≠ [] := by
    rw [Ne, List.take_eq_nil_iff, not_or]
    exact ⟨h, hne⟩
  rw [readWhile, if_neg h, hrecv]
  dsimp only
  rw [if_neg htake]

/-- **Pieces of single bytes**, for as long as the loop asks for more. -/
theorem readWhile_bytes (fuel k : ℕ) {buffer incoming : List UInt8} (hk : k ≤ incoming.length)
    (h : ∀ i < k, want (buffer ++ incoming.take i) ≠ 0) :
    readWhile want (fuel + k) buffer ⟨incoming, List.replicate k 1⟩ =
      readWhile want fuel (buffer ++ incoming.take k) ⟨incoming.drop k, []⟩ := by
  induction k generalizing buffer incoming with
  | zero => rw [List.take_zero, List.append_nil, List.drop_zero]; rfl
  | succ k ih =>
    cases incoming with
    | nil => cases hk
    | cons b incoming =>
      have hwant : want buffer ≠ 0 := by
        have := h 0 (Nat.succ_pos k)
        rwa [List.take_zero, List.append_nil] at this
      have hrecv : recv ⟨b :: incoming, List.replicate (k + 1) 1⟩ (want buffer) =
          ([b], ⟨incoming, List.replicate k 1⟩) := by
        have hn : max 1 (min ((List.replicate (k + 1) 1).headD (want buffer)) (want buffer)) = 1 := by
          show max 1 (min 1 (want buffer)) = 1
          omega
        exact recv_eq (c := ⟨b :: incoming, List.replicate (k + 1) 1⟩) hn
      rw [← Nat.add_assoc, readWhile, if_neg hwant, hrecv]
      dsimp only
      rw [if_neg (List.cons_ne_nil _ _), ih (Nat.le_of_succ_le_succ hk)]
      · rw [List.take_succ_cons, List.drop_succ_cons, List.append_assoc, List.singleton_append]
      · intro i hi
        have := h (i + 1) (Nat.succ_lt_succ hi)
        rwa [List.take_succ_cons, ← List.singleton_append, ← List.append_assoc] at this

end Conn
