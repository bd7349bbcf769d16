import JobSystem.Lib.Text

/-!
# Percent-encoding

An unreserved character stands for itself; any other is written as its UTF-8 bytes, each of them as
`%` and two hexadecimal digits in upper case.

* `IsUnreserved`, `encode`, `decode`; **`decode_encode`**: the bytes of the text are read back;
* **`encode_injective`**; `isUnreserved_or_of_mem_encode`, `isAscii_encode`: its characters;
* **`encode_eq_self_iff`**: the texts that are their own encoding.
-/

namespace Percent

open PyText

/-! ## Encoding and decoding -/

/-- A character that stands for itself. -/
def IsUnreserved (c : Char) : Prop :=
  c.isAlphanum = true ∨ c = '-' ∨ c = '.' ∨ c = '_' ∨ c = '~'

instance (c : Char) : Decidable (IsUnreserved c) := inferInstanceAs (Decidable (_ ∨ _ ∨ _ ∨ _ ∨ _))

/-- A hexadecimal digit. -/
def hexDigit (n : ℕ) : Char := Char.ofNat (if n < 10 then 48 + n else 55 + n)

/-- The value of a hexadecimal digit. -/
def hexValue (c : Char) : ℕ := if c.isDigit then c.toNat - 48 else c.toNat - 55

/-- `%XX`. -/
def encodeByte (b : UInt8) : Str := ['%', hexDigit (b.toNat / 16), hexDigit (b.toNat % 16)]

/-- The encoding of a character. -/
def encodeChar (c : Char) : Str :=
  if IsUnreserved c then [c] else (String.utf8EncodeChar c).flatMap encodeByte

/-- The percent-encoding of a text. -/
def encode (s : Str) : Str := s.flatMap encodeChar

/-- The bytes that an encoding stands for. -/
def decode : Str → Bytes
  | [] => []
  | '%' :: a :: b :: s => UInt8.ofNat (16 * hexValue a + hexValue b) :: decode s
  | c :: s => String.utf8EncodeChar c ++ decode s

theorem encode_cons (c : Char) (s : Str) : encode (c :: s) = encodeChar c ++ encode s :=
  List.flatMap_cons

theorem hexValue_hexDigit {n : ℕ} (h : n < 16) : hexValue (hexDigit n) = n := by
  interval_cases n <;> rfl

theorem isUnreserved_hexDigit {n : ℕ} (h : n < 16) : IsUnreserved (hexDigit n) := by
  interval_cases n <;> decide

/-! ## Reading back -/

theorem decode_encodeByte (b : UInt8) (s : Str) : decode (encodeByte b ++ s) = b :: decode s := by
  have hlt := b.toNat_lt
  have hvalue : 16 * hexValue (hexDigit (b.toNat / 16)) + hexValue (hexDigit (b.toNat % 16)) =
      b.toNat := by
    rw [hexValue_hexDigit (by omega), hexValue_hexDigit (by omega)]
    omega
  show UInt8.ofNat _ :: decode s = _
  rw [hvalue, UInt8.ofNat_toNat]

theorem decode_encodeBytes (bs : Bytes) (s : Str) :
    decode (bs.flatMap encodeByte ++ s) = bs ++ decode s := by
  induction bs with
  | nil => rfl
  | cons b bs ih =>
    rw [List.flatMap_cons, List.append_assoc, decode_encodeByte, ih, List.cons_append]

theorem decode_cons {c : Char} (h : c ≠ '%') (s : Str) :
    decode (c :: s) = String.utf8EncodeChar c ++ decode s := by
  rw [decode]
  rintro a b s' rfl
  exact absurd rfl h

theorem ne_percent {c : Char} (h : IsUnreserved c) : c ≠ '%' := by
  rintro rfl
  exact absurd h (by decide)

/-- **An encoding stands for the UTF-8 bytes of the text.** -/
theorem decode_encode (s : Str) : decode (encode s) = encodeUtf8 s := by
  induction s with
  | nil => rfl
  | cons c s ih =>
    rw [encode_cons, encodeChar, encodeUtf8_cons]
    split_ifs with hc
    · rw [List.singleton_append, decode_cons (ne_percent hc), ih]
    · rw [decode_encodeBytes, ih]

/-- **Different texts have different encodings.** -/
theorem encode_injective : Function.Injective encode := by
  intro s t h
  have hbytes : encodeUtf8 s = encodeUtf8 t := by rw [← decode_encode, ← decode_encode, h]
  rw [← decodeIgnore_encodeUtf8_self s, hbytes, decodeIgnore_encodeUtf8_self]

/-! ## The characters of an encoding -/

/-- An encoding has only unreserved characters and `%`. -/
theorem isUnreserved_or_of_mem_encode {s : Str} {c : Char} (h : c ∈ encode s) :
    IsUnreserved c ∨ c = '%' := by
  obtain ⟨d, -, hd⟩ := List.mem_flatMap.mp h
  rw [encodeChar] at hd
  split_ifs at hd with hun
  · rw [List.mem_singleton.mp hd]
    exact .inl hun
  · obtain ⟨b, -, hb⟩ := List.mem_flatMap.mp hd
    have hlt := b.toNat_lt
    simp only [encodeByte, List.mem_cons, List.not_mem_nil, or_false] at hb
    rcases hb with rfl | rfl | rfl
    · exact .inr rfl
    · exact .inl (isUnreserved_hexDigit (by omega))
    · exact .inl (isUnreserved_hexDigit (by omega))

/-- A character that is reserved does not occur in an encoding. -/
theorem notMem_encode {c : Char} (h : ¬ IsUnreserved c) (hc : c ≠ '%') (s : Str) : c ∉ encode s :=
  fun hm => (isUnreserved_or_of_mem_encode hm).elim h hc

theorem toNat_of_isUnreserved {c : Char} (h : IsUnreserved c) : c.toNat < 128 := by
  rcases h with h | rfl | rfl | rfl | rfl
  · simp only [Char.isAlphanum, Char.isAlpha, Char.isUpper, Char.isLower, Char.isDigit, ge_iff_le,
      Bool.or_eq_true, Bool.and_eq_true, decide_eq_true_eq, UInt32.le_iff_toNat_le] at h
    rcases h with (⟨-, h⟩ | ⟨-, h⟩) | ⟨-, h⟩
    · exact h.trans_lt (by decide)
    · exact h.trans_lt (by decide)
    · exact h.trans_lt (by decide)
  · decide
  · decide
  · decide
  · decide

/-- An encoding is ASCII. -/
theorem isAscii_encode (s : Str) : IsAscii (encode s) := by
  intro c hc
  rcases isUnreserved_or_of_mem_encode hc with hun | rfl
  · exact toNat_of_isUnreserved hun
  · decide

theorem length_flatMap_encodeByte (bs : Bytes) :
    (bs.flatMap encodeByte).length = 3 * bs.length := by
  induction bs with
  | nil => rfl
  | cons b bs ih =>
    rw [List.flatMap_cons, List.length_append, ih, List.length_cons]
    simp only [encodeByte, List.length_cons, List.length_nil]
    omega

theorem length_encodeChar (c : Char) :
    (encodeChar c).length = if IsUnreserved c then 1 else 3 * c.utf8Size := by
  rw [encodeChar]
  split_ifs
  · rfl
  · rw [length_flatMap_encodeByte, String.length_utf8EncodeChar]

theorem length_le_length_encode (s : Str) : s.length ≤ (encode s).length := by
  induction s with
  | nil => exact le_rfl
  | cons c s ih =>
    have hpos := c.utf8Size_pos
    rw [encode_cons, List.length_append, length_encodeChar, List.length_cons]
    split_ifs <;> omega

/-- **A text is its own encoding** if and only if it is unreserved throughout. -/
theorem encode_eq_self_iff {s : Str} : encode s = s ↔ ∀ c ∈ s, IsUnreserved c := by
  constructor
  · -- an encoding is as long as the text only if no character takes more than itself
    intro h
    have hlen := congrArg List.length h
    clear h
    induction s with
    | nil => exact fun c hc => absurd hc List.not_mem_nil
    | cons c s ih =>
      have hpos := c.utf8Size_pos
      have hle := length_le_length_encode s
      rw [encode_cons, List.length_append, length_encodeChar, List.length_cons] at hlen
      split_ifs at hlen with hc
      · exact List.forall_mem_cons.mpr ⟨hc, ih (by omega)⟩
      · omega
  · intro h
    induction s with
    | nil => rfl
    | cons c s ih =>
      obtain ⟨hc, hs⟩ := List.forall_mem_cons.mp h
      rw [encode_cons, ih hs, encodeChar, if_pos hc, List.singleton_append]

end Percent
