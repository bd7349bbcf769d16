import JobSystem.Lib.Text

/-!
# Base32

`base64.b32encode` and `base64.b32decode` of CPython, over numbers written with a fixed number of
digits, the most significant digit first.

* `toDigits`, `ofDigits`: `ofDigits_toDigits`, `toDigits_ofDigits`, `toDigits_add`;
* `quanta`: a list in pieces of a given length;
* `b32encode`, `b32decode`; `exists_b32encode`: the digits and the padding;
* **`b32decode_b32encode`**: what is encoded is decoded.
-/

namespace Base32

open PyText

/-! ## Numbers and their digits -/

/-- The last `k` digits of a number in base `b`. -/
def toDigits (b : ℕ) : ℕ → ℕ → List ℕ
  | 0, _ => []
  | k + 1, n => toDigits b k (n / b) ++ [n % b]

/-- The number of a list of digits. -/
def ofDigits (b : ℕ) (l : List ℕ) : ℕ := l.foldl (fun acc d => acc * b + d) 0

theorem ofDigits_concat (b : ℕ) (l : List ℕ) (d : ℕ) :
    ofDigits b (l ++ [d]) = ofDigits b l * b + d := by
  rw [ofDigits, List.foldl_append]
  rfl

theorem length_toDigits (b k n : ℕ) : (toDigits b k n).length = k := by
  induction k generalizing n with
  | zero => rfl
  | succ k ih => rw [toDigits, List.length_append, ih, List.length_singleton]

theorem lt_of_mem_toDigits {b k n d : ℕ} (hb : 0 < b) (h : d ∈ toDigits b k n) : d < b := by
  induction k generalizing n with
  | zero => exact absurd h List.not_mem_nil
  | succ k ih =>
    rw [toDigits, List.mem_append, List.mem_singleton] at h
    rcases h with h | rfl
    · exact ih h
    · exact Nat.mod_lt n hb

/-- **The digits of a number determine it** up to the digits that are cut off. -/
theorem ofDigits_toDigits (b k n : ℕ) : ofDigits b (toDigits b k n) = n % b ^ k := by
  induction k generalizing n with
  | zero => rw [pow_zero, Nat.mod_one]; rfl
  | succ k ih =>
    rw [toDigits, ofDigits_concat, ih, pow_succ', Nat.mod_mul]
    ring

theorem ofDigits_lt {b : ℕ} {l : List ℕ} (h : ∀ d ∈ l, d < b) : ofDigits b l < b ^ l.length := by
  induction l using List.reverseRecOn with
  | nil => exact Nat.one_pos
  | append_singleton l d ih =>
    have hl := ih fun e he => h e (List.mem_append_left _ he)
    have hd : d < b := h d (by simp)
    rw [ofDigits_concat, List.length_append, List.length_singleton, pow_succ]
    calc ofDigits b l * b + d < ofDigits b l * b + b := by omega
      _ = (ofDigits b l + 1) * b := by ring
      _ ≤ b ^ l.length * b := Nat.mul_le_mul_right b hl

/-- **Digits are read back.** -/
theorem toDigits_ofDigits {b : ℕ} {l : List ℕ} (h : ∀ d ∈ l, d < b) :
    toDigits b l.length (ofDigits b l) = l := by
  induction l using List.reverseRecOn with
  | nil => rfl
  | append_singleton l d ih =>
    have hd : d < b := h d (by simp)
    have hdiv : (ofDigits b l * b + d) / b = ofDigits b l := by
      rw [mul_comm, Nat.mul_add_div (by omega), Nat.div_eq_of_lt hd, Nat.add_zero]
    have hmod : (ofDigits b l * b + d) % b = d := by
      rw [mul_comm, Nat.mul_add_mod, Nat.mod_eq_of_lt hd]
    rw [ofDigits_concat, List.length_append, List.length_singleton, toDigits, hdiv, hmod,
      ih fun e he => h e (List.mem_append_left _ he)]

/-- The first digits are those of the number without its last ones. -/
theorem toDigits_add (b k p n : ℕ) :
    toDigits b (k + p) n = toDigits b k (n / b ^ p) ++ toDigits b p n := by
  induction p generalizing n with
  | zero => rw [pow_zero, Nat.div_one, toDigits, List.append_nil]; rfl
  | succ p ih =>
    rw [← Nat.add_assoc, toDigits, ih, Nat.div_div_eq_div_mul, ← pow_succ', toDigits,
      List.append_assoc]

theorem toDigits_mod (b k n : ℕ) : toDigits b k (n % b ^ k) = toDigits b k n := by
  induction k generalizing n with
  | zero => rfl
  | succ k ih =>
    rw [toDigits, toDigits, pow_succ', Nat.mod_mul_right_div_self, ih, Nat.mod_mul_right_mod]

theorem ofDigits_append_zeros (b : ℕ) (l : List ℕ) (n : ℕ) :
    ofDigits b (l ++ List.replicate n 0) = ofDigits b l * b ^ n := by
  induction n with
  | zero => rw [List.replicate_zero, List.append_nil, pow_zero, Nat.mul_one]
  | succ n ih =>
    rw [List.replicate_succ', ← List.append_assoc, ofDigits_concat, ih, Nat.add_zero, pow_succ,
      Nat.mul_assoc]

/-! ## Pieces of a list -/

/-- The pieces, with a bound on their number. -/
def quantaFuel {α : Type} (n : ℕ) : ℕ → List α → List (List α)
  | 0, _ => []
  | fuel + 1, l => if l.isEmpty then [] else l.take n :: quantaFuel n fuel (l.drop n)

/-- `l[i:i + n]` for `i in range(0, len(l), n)`. -/
def quanta {α : Type} (n : ℕ) (l : List α) : List (List α) := quantaFuel n l.length l

theorem quantaFuel_congr {α : Type} {n : ℕ} (hn : 0 < n) {f g : ℕ} {l : List α}
    (hf : l.length ≤ f) (hg : l.length ≤ g) : quantaFuel n f l = quantaFuel n g l := by
  induction f generalizing g l with
  | zero =>
    obtain rfl := List.length_eq_zero_iff.mp (Nat.le_zero.mp hf)
    cases g <;> rfl
  | succ f ih =>
    cases g with
    | zero =>
      obtain rfl := List.length_eq_zero_iff.mp (Nat.le_zero.mp hg)
      rfl
    | succ g =>
      rw [quantaFuel, quantaFuel]
      split_ifs with hnil
      · rfl
      · have hpos : 0 < l.length := List.length_pos_iff.mpr fun he => hnil (he ▸ rfl)
        have hlen : (l.drop n).length < l.length := by
          rw [List.length_drop]
          omega
        exact congrArg _ (ih (by omega) (by omega))

/-- A list that is not empty has a first piece. -/
theorem quanta_eq {α : Type} {n : ℕ} (hn : 0 < n) {l : List α} (h : l ≠ []) :
    quanta n l = l.take n :: quanta n (l.drop n) := by
  have hne : ¬ l.isEmpty = true := by rwa [List.isEmpty_iff]
  rw [quanta, quantaFuel_congr hn le_rfl (Nat.le_succ _), quantaFuel, if_neg hne]
  refine congrArg _ (quantaFuel_congr hn ?_ le_rfl)
  rw [List.length_drop]
  exact Nat.sub_le _ _

theorem quanta_append {α : Type} {l : List α} (h : l ≠ []) (rest : List α) :
    quanta l.length (l ++ rest) = l :: quanta l.length rest := by
  have hne : l ++ rest ≠ [] := fun he => h (List.append_eq_nil_iff.mp he).1
  rw [quanta_eq (List.length_pos_iff.mpr h) hne, List.take_left, List.drop_left]

theorem quanta_of_length_le {α : Type} {n : ℕ} {l : List α} (h : l ≠ []) (hl : l.length ≤ n) :
    quanta n l = [l] := by
  have hpos := List.length_pos_iff.mpr h
  rw [quanta_eq (by omega) h, List.take_of_length_le hl, List.drop_of_length_le hl]
  rfl

/-! ## Encoding -/

/-- The digits. -/
def alphabet : List Char := "ABCDEFGHIJKLMNOPQRSTUVWXYZ234567".toList

/-- The character of a digit. -/
def digitChar (d : ℕ) : Char := alphabet.getD d 'A'

/-- The digit of a character. -/
def charDigit (c : Char) : Option ℕ := alphabet.idxOf? c

/-- `int.from_bytes(bs)`. -/
def fromBytes (bs : Bytes) : ℕ := ofDigits 256 (bs.map UInt8.toNat)

/-- `n.to_bytes(k, 'big')`. -/
def toBytes (k n : ℕ) : Bytes := (toDigits 256 k n).map UInt8.ofNat

/-- The eight characters of five bytes. -/
def encodeQuantum (quantum : Bytes) : Str := (toDigits 32 8 (fromBytes quantum)).map digitChar

/-- How many characters the last quantum has to spare for the bytes that it lacks. -/
def padLength (leftover : ℕ) : ℕ :=
  match leftover with
  | 1 => 6
  | 2 => 4
  | 3 => 3
  | 4 => 1
  | _ => 0

/-- `base64.b32encode(s).decode()`. -/
def b32encode (s : Bytes) : Str :=
  let leftover := s.length % 5
  let padded := if leftover = 0 then s else s ++ List.replicate (5 - leftover) 0
  let encoded := (quanta 5 padded).flatMap encodeQuantum
  let padchars := padLength leftover
  encoded.take (encoded.length - padchars) ++ List.replicate padchars '='

/-! ## Decoding -/

/-- The number of a quantum; `none` is the `KeyError`. -/
def quantumValue (quantum : Str) : Option ℕ := (quantum.mapM charDigit).map (ofDigits 32)

/-- The loop over the quanta, with the bytes decoded and the last number. -/
def decodeQuanta : List Str → Bytes × ℕ → Option (Bytes × ℕ)
  | [], r => some r
  | quantum :: quanta, r =>
    (quantumValue quantum).bind fun acc => decodeQuanta quanta (r.1 ++ toBytes 5 acc, acc)

/-- `base64.b32decode(s)`, or the text of its error. -/
def b32decode (s : Str) : Except Str Bytes :=
  if ¬ IsAscii s then .error "string argument should contain only ASCII characters".toList
  else if s.length % 8 ≠ 0 then .error "Incorrect padding".toList
  else
    let body := s.rdropWhile (· = '=')
    let padchars := s.length - body.length
    match decodeQuanta (quanta 8 body) ([], 0) with
    | none => .error "Non-base32 digit found".toList
    | some (decoded, acc) =>
      if padchars ∉ [0, 1, 3, 4, 6] then .error "Incorrect padding".toList
      else if padchars ≠ 0 ∧ decoded ≠ [] then
        .ok (decoded.take (decoded.length - 5) ++
          (toBytes 5 (acc * 32 ^ padchars)).take ((43 - 5 * padchars) / 8))
      else .ok decoded

/-! ## Digits and bytes -/

theorem charDigit_digitChar {d : ℕ} (h : d < 32) : charDigit (digitChar d) = some d := by
  have hall : ∀ d < 32, charDigit (digitChar d) = some d := by decide
  exact hall d h

theorem mem_alphabet_digitChar (d : ℕ) : digitChar d ∈ alphabet := by
  by_cases h : d < 32
  · have hall : ∀ d < 32, digitChar d ∈ alphabet := by decide
    exact hall d h
  · have hlen : alphabet.length = 32 := rfl
    rw [digitChar, List.getD_eq_default _ _ (by omega)]
    decide

theorem pad_notMem_alphabet : '=' ∉ alphabet := by decide

theorem isAscii_of_alphabet {s : Str} (h : ∀ c ∈ s, c ∈ alphabet) : IsAscii s := by
  have hall : (alphabet.all fun c => c.toNat < 128) = true := rfl
  intro c hc
  simpa using List.all_eq_true.mp hall c (h c hc)

theorem fromBytes_lt (bs : Bytes) : fromBytes bs < 256 ^ bs.length := by
  have h := ofDigits_lt (b := 256) (l := bs.map UInt8.toNat) fun d hd => by
    obtain ⟨u, -, rfl⟩ := List.mem_map.mp hd
    exact UInt8.toNat_lt u
  rwa [List.length_map] at h

/-- **Bytes are read back from their number.** -/
theorem toBytes_fromBytes (bs : Bytes) : toBytes bs.length (fromBytes bs) = bs := by
  have h := toDigits_ofDigits (b := 256) (l := bs.map UInt8.toNat) fun d hd => by
    obtain ⟨u, -, rfl⟩ := List.mem_map.mp hd
    exact UInt8.toNat_lt u
  rw [List.length_map] at h
  rw [toBytes, fromBytes, h, List.map_map]
  exact List.map_id'' (fun u => UInt8.ofNat_toNat) bs

theorem fromBytes_append_zeros (bs : Bytes) (n : ℕ) :
    fromBytes (bs ++ List.replicate n 0) = fromBytes bs * 256 ^ n := by
  rw [fromBytes, List.map_append, List.map_replicate]
  exact ofDigits_append_zeros 256 _ n

theorem length_encodeQuantum (quantum : Bytes) : (encodeQuantum quantum).length = 8 := by
  rw [encodeQuantum, List.length_map, length_toDigits]

/-- The number of some digits. -/
theorem quantumValue_map {ds : List ℕ} (h : ∀ d ∈ ds, d < 32) :
    quantumValue (ds.map digitChar) = some (ofDigits 32 ds) := by
  have hmap : (ds.map digitChar).mapM charDigit = some ds := by
    induction ds with
    | nil => rfl
    | cons d ds ih =>
      rw [List.forall_mem_cons] at h
      rw [List.map_cons, List.mapM_cons, charDigit_digitChar h.1, ih h.2]
      rfl
  rw [quantumValue, hmap]
  rfl

theorem quantumValue_toDigits (k n : ℕ) :
    quantumValue ((toDigits 32 k n).map digitChar) = some (n % 32 ^ k) := by
  rw [quantumValue_map fun d hd => lt_of_mem_toDigits (by decide) hd, ofDigits_toDigits]

theorem quantumValue_encodeQuantum {quantum : Bytes} (h : quantum.length = 5) :
    quantumValue (encodeQuantum quantum) = some (fromBytes quantum) := by
  have hlt := fromBytes_lt quantum
  rw [h] at hlt
  rw [encodeQuantum, quantumValue_toDigits, Nat.mod_eq_of_lt (hlt.trans_eq (by norm_num))]

/-! ## Whole quanta and the last one -/

/-- A list in pieces of one length, and what is left. -/
theorem exists_quanta {α : Type} {n : ℕ} (hn : 0 < n) (l : List α) :
    ∃ (blocks : List (List α)) (tail : List α),
      l = blocks.flatten ++ tail ∧ (∀ b ∈ blocks, b.length = n) ∧ tail.length < n := by
  induction hl : l.length using Nat.strong_induction_on generalizing l with
  | _ m ih =>
    by_cases hlt : l.length < n
    · exact ⟨[], l, rfl, fun b hb => absurd hb List.not_mem_nil, hlt⟩
    · have hdrop : (l.drop n).length < m := by
        rw [List.length_drop]
        omega
      obtain ⟨blocks, tail, hrest, hblocks, htail⟩ := ih _ hdrop (l.drop n) rfl
      refine ⟨l.take n :: blocks, tail, ?_, List.forall_mem_cons.mpr ⟨?_, hblocks⟩, htail⟩
      · rw [List.flatten_cons, List.append_assoc, ← hrest, List.take_append_drop]
      · rw [List.length_take]
        omega

theorem length_flatten_blocks {α : Type} {n : ℕ} {blocks : List (List α)}
    (h : ∀ b ∈ blocks, b.length = n) : blocks.flatten.length = blocks.length * n := by
  induction blocks with
  | nil => rw [List.flatten_nil, List.length_nil, List.length_nil, Nat.zero_mul]
  | cons b blocks ih =>
    rw [List.forall_mem_cons] at h
    rw [List.flatten_cons, List.length_append, h.1, ih h.2, List.length_cons]
    ring

theorem quanta_flatten_append {α : Type} {n : ℕ} (hn : 0 < n) {blocks : List (List α)}
    (h : ∀ b ∈ blocks, b.length = n) (tail : List α) :
    quanta n (blocks.flatten ++ tail) = blocks ++ quanta n tail := by
  induction blocks with
  | nil => rfl
  | cons b blocks ih =>
    rw [List.forall_mem_cons] at h
    have hne : b ≠ [] := by
      rintro rfl
      exact absurd h.1 (by simpa using hn.ne)
    have happ := quanta_append hne (blocks.flatten ++ tail)
    rw [h.1] at happ
    rw [List.flatten_cons, List.append_assoc, happ, ih h.2, List.cons_append]

/-- The bytes of the last quantum, filled up with zeros. -/
def filled (tail : Bytes) : Bytes := tail ++ List.replicate (5 - tail.length) 0

/-- The characters of the last quantum that stand for its bytes. -/
def tailChars (tail : Bytes) : Str :=
  if tail = [] then []
  else (toDigits 32 (8 - padLength tail.length)
    (fromBytes (filled tail) / 32 ^ padLength tail.length)).map digitChar

theorem padLength_le (n : ℕ) : padLength n ≤ 6 := by
  unfold padLength
  split <;> decide

theorem padLength_zero : padLength 0 = 0 := rfl

theorem length_filled {tail : Bytes} (h : tail.length < 5) : (filled tail).length = 5 := by
  rw [filled, List.length_append, List.length_replicate]
  omega

/-- The digits that are replaced by the padding are zero. -/
theorem pow_dvd_filled {tail : Bytes} (hne : tail ≠ []) (h : tail.length < 5) :
    32 ^ padLength tail.length ∣ fromBytes (filled tail) := by
  have hpow : ∀ n < 5, 0 < n → 32 ^ padLength n ∣ 256 ^ (5 - n) := by decide
  rw [filled, fromBytes_append_zeros]
  exact Dvd.dvd.mul_left (hpow _ h (List.length_pos_iff.mpr hne)) _

/-- **An encoded text**: the characters of the whole quanta, those of the last one, and the padding. -/
theorem b32encode_eq {blocks : List Bytes} (hblocks : ∀ b ∈ blocks, b.length = 5) {tail : Bytes}
    (htail : tail.length < 5) : b32encode (blocks.flatten ++ tail) =
      (blocks.map encodeQuantum).flatten ++ tailChars tail ++
        List.replicate (padLength tail.length) '=' := by
  have hleft : (blocks.flatten ++ tail).length % 5 = tail.length := by
    rw [List.length_append, length_flatten_blocks hblocks, Nat.mul_add_mod', Nat.mod_eq_of_lt htail]
  have hwhole : ∀ bs, (quanta 5 (blocks.flatten ++ bs)).flatMap encodeQuantum =
      (blocks.map encodeQuantum).flatten ++ (quanta 5 bs).flatMap encodeQuantum := by
    intro bs
    rw [quanta_flatten_append (by decide) hblocks, List.flatMap_append, List.flatMap_def]
  rw [b32encode, hleft]
  by_cases hnil : tail = []
  · subst hnil
    rw [List.length_nil, if_pos rfl, padLength_zero, hwhole, tailChars, if_pos rfl, Nat.sub_zero,
      List.take_length]
    rfl
  · have hlen : tail.length ≠ 0 := fun he => hnil (List.length_eq_zero_iff.mp he)
    have hfilled : filled tail ≠ [] := fun he => by
      have hl := length_filled htail
      rw [he] at hl
      cases hl
    -- the last digits are cut off, and the padding takes their place
    have hlast : encodeQuantum (filled tail) = tailChars tail ++
        (toDigits 32 (padLength tail.length) (fromBytes (filled tail))).map digitChar := by
      have hpad := padLength_le tail.length
      have hadd := toDigits_add 32 (8 - padLength tail.length) (padLength tail.length)
        (fromBytes (filled tail))
      rw [Nat.sub_add_cancel (by omega)] at hadd
      rw [encodeQuantum, hadd, List.map_append, tailChars, if_neg hnil]
    have hpadded : blocks.flatten ++ tail ++ List.replicate (5 - tail.length) 0 =
        blocks.flatten ++ filled tail := List.append_assoc ..
    rw [if_neg hlen, hpadded, hwhole, quanta_of_length_le hfilled (length_filled htail).le,
      List.flatMap_singleton, hlast, ← List.append_assoc]
    congr 1
    rw [List.length_append, List.length_map, length_toDigits, Nat.add_sub_cancel, List.take_left]

/-! ## Decoding what was encoded -/

theorem mem_alphabet_map {ds : List ℕ} {c : Char} (h : c ∈ ds.map digitChar) : c ∈ alphabet := by
  obtain ⟨d, -, rfl⟩ := List.mem_map.mp h
  exact mem_alphabet_digitChar d

theorem mem_alphabet_body {blocks : List Bytes} {tail : Bytes} :
    ∀ c ∈ (blocks.map encodeQuantum).flatten ++ tailChars tail, c ∈ alphabet := by
  intro c hc
  rcases List.mem_append.mp hc with hc | hc
  · obtain ⟨q, hq, hc⟩ := List.mem_flatten.mp hc
    obtain ⟨b, -, rfl⟩ := List.mem_map.mp hq
    exact mem_alphabet_map hc
  · rw [tailChars] at hc
    split_ifs at hc
    · exact absurd hc List.not_mem_nil
    · exact mem_alphabet_map hc

theorem length_tailChars {tail : Bytes} (h : tail ≠ []) :
    (tailChars tail).length = 8 - padLength tail.length := by
  rw [tailChars, if_neg h, List.length_map, length_toDigits]

theorem length_flatten_encodeQuantum (blocks : List Bytes) :
    (blocks.map encodeQuantum).flatten.length = blocks.length * 8 := by
  rw [length_flatten_blocks (n := 8), List.length_map]
  intro q hq
  obtain ⟨b, -, rfl⟩ := List.mem_map.mp hq
  exact length_encodeQuantum b

/-- The padding fills up the last quantum. -/
theorem length_body_mod (blocks : List Bytes) (tail : Bytes) :
    (((blocks.map encodeQuantum).flatten ++ tailChars tail).length + padLength tail.length) % 8 =
      0 := by
  have hpad := padLength_le tail.length
  rw [List.length_append, length_flatten_encodeQuantum]
  by_cases hnil : tail = []
  · subst hnil
    rw [List.length_nil, padLength_zero, tailChars, if_pos rfl, List.length_nil]
    omega
  · rw [length_tailChars hnil]
    omega

/-- **The shape of an encoded text**: characters of the alphabet and less than eight pads, together
whole quanta. -/
theorem exists_b32encode (key : Bytes) : ∃ body n, b32encode key = body ++ List.replicate n '=' ∧
    (∀ c ∈ body, c ∈ alphabet) ∧ n < 8 ∧ (body.length + n) % 8 = 0 ∧ (key ≠ [] → body ≠ []) := by
  obtain ⟨blocks, tail, rfl, hblocks, htail⟩ := exists_quanta (by decide : 0 < 5) key
  have hpad := padLength_le tail.length
  refine ⟨_, _, b32encode_eq hblocks htail, mem_alphabet_body, by omega, length_body_mod _ _, ?_⟩
  intro hkey hbody
  obtain ⟨hb, ht⟩ := List.append_eq_nil_iff.mp hbody
  have hblocks' : blocks = [] := by
    have hwhole := length_flatten_encodeQuantum blocks
    rw [hb, List.length_nil] at hwhole
    exact List.length_eq_zero_iff.mp (by omega)
  have htail' : tail = [] := by
    by_contra hne
    have hl := length_tailChars hne
    rw [ht, List.length_nil] at hl
    omega
  exact hkey (by rw [hblocks', htail']; rfl)

/-- The loop over whole quanta. -/
theorem decodeQuanta_append {blocks : List Bytes} (h : ∀ b ∈ blocks, b.length = 5)
    (rest : List Str) (r : Bytes × ℕ) : ∃ acc,
      decodeQuanta (blocks.map encodeQuantum ++ rest) r =
        decodeQuanta rest (r.1 ++ blocks.flatten, acc) := by
  induction blocks generalizing r with
  | nil => exact ⟨r.2, by rw [List.flatten_nil, List.append_nil]; rfl⟩
  | cons b blocks ih =>
    rw [List.forall_mem_cons] at h
    obtain ⟨acc, hacc⟩ := ih h.2 (r.1 ++ toBytes 5 (fromBytes b), fromBytes b)
    refine ⟨acc, ?_⟩
    have hb := toBytes_fromBytes b
    rw [h.1] at hb
    rw [List.map_cons, List.cons_append, decodeQuanta, quantumValue_encodeQuantum h.1,
      Option.bind_some, hacc, hb, List.flatten_cons, List.append_assoc]

/-- What `b32decode` makes of the loop's result. -/
def finish (padchars : ℕ) (r : Bytes × ℕ) : Bytes :=
  if padchars ≠ 0 ∧ r.1 ≠ [] then
    r.1.take (r.1.length - 5) ++ (toBytes 5 (r.2 * 32 ^ padchars)).take ((43 - 5 * padchars) / 8)
  else r.1

theorem rdropWhile_pads {body : Str} (h : ∀ c ∈ body, c ∈ alphabet) (n : ℕ) :
    (body ++ List.replicate n '=').rdropWhile (fun c => decide (c = '=')) = body := by
  induction n with
  | zero =>
    rw [List.replicate_zero, List.append_nil, List.rdropWhile_eq_self_iff]
    intro hne hlast
    have hmem := h _ (List.getLast_mem hne)
    rw [of_decide_eq_true hlast] at hmem
    exact pad_notMem_alphabet hmem
  | succ n ih =>
    rw [List.replicate_succ', ← List.append_assoc, List.rdropWhile_concat_pos _ _ _ (by simp), ih]

/-- A padded text of the alphabet is decoded if its quanta are. -/
theorem b32decode_padded {body : Str} (halpha : ∀ c ∈ body, c ∈ alphabet) {n : ℕ}
    (hlen : (body.length + n) % 8 = 0) (hn : n ∈ [0, 1, 3, 4, 6]) {r : Bytes × ℕ}
    (hr : decodeQuanta (quanta 8 body) ([], 0) = some r) :
    b32decode (body ++ List.replicate n '=') = .ok (finish n r) := by
  have hascii : IsAscii (body ++ List.replicate n '=') := by
    intro c hc
    rcases List.mem_append.mp hc with hc | hc
    · exact isAscii_of_alphabet halpha c hc
    · rw [List.eq_of_mem_replicate hc]
      decide
  have hlength : (body ++ List.replicate n '=').length = body.length + n := by
    rw [List.length_append, List.length_replicate]
  rw [b32decode, if_neg (not_not.mpr hascii), hlength, if_neg (by omega), rdropWhile_pads halpha]
  dsimp only
  rw [Nat.add_sub_cancel_left, hr, finish]
  dsimp only
  rw [if_neg (not_not.mpr hn)]
  split_ifs <;> rfl

/-- The number of the last characters. -/
theorem quantumValue_tailChars {tail : Bytes} (hne : tail ≠ []) (h : tail.length < 5) :
    quantumValue (tailChars tail) =
      some (fromBytes (filled tail) / 32 ^ padLength tail.length) := by
  have hlt := fromBytes_lt (filled tail)
  have hpad := padLength_le tail.length
  rw [length_filled h] at hlt
  rw [tailChars, if_neg hne, quantumValue_toDigits, Nat.mod_eq_of_lt]
  rw [Nat.div_lt_iff_lt_mul (by positivity), ← pow_add, Nat.sub_add_cancel (by omega)]
  exact hlt.trans_eq (by norm_num)

/-- **The last bytes are read back** from the number of the last characters. -/
theorem finish_tail (whole : Bytes) {tail : Bytes} (hne : tail ≠ []) (h : tail.length < 5) :
    finish (padLength tail.length)
      (whole ++ toBytes 5 (fromBytes (filled tail) / 32 ^ padLength tail.length),
        fromBytes (filled tail) / 32 ^ padLength tail.length) = whole ++ tail := by
  have hpads : ∀ n < 5, 0 < n → padLength n ≠ 0 ∧ (43 - 5 * padLength n) / 8 = n := by decide
  obtain ⟨hpad, htake⟩ := hpads _ h (List.length_pos_iff.mpr hne)
  have hlen : ∀ n, (toBytes 5 n).length = 5 := fun n => by
    rw [toBytes, List.length_map, length_toDigits]
  have hdecoded : ∀ n, whole ++ toBytes 5 n ≠ [] := fun n he => by
    have hl := hlen n
    rw [(List.append_eq_nil_iff.mp he).2] at hl
    cases hl
  have hfilled : toBytes 5 (fromBytes (filled tail)) = filled tail := by
    have hb := toBytes_fromBytes (filled tail)
    rwa [length_filled h] at hb
  rw [finish, if_pos ⟨hpad, hdecoded _⟩, htake, Nat.div_mul_cancel (pow_dvd_filled hne h), hfilled,
    List.length_append, hlen, Nat.add_sub_cancel, List.take_left, filled, List.take_left]

/-- **What is encoded is decoded.** -/
theorem b32decode_b32encode (key : Bytes) : b32decode (b32encode key) = .ok key := by
  obtain ⟨blocks, tail, rfl, hblocks, htail⟩ := exists_quanta (by decide : 0 < 5) key
  have hpads : ∀ n < 5, padLength n ∈ [0, 1, 3, 4, 6] := by decide
  have hbody : ∀ q ∈ blocks.map encodeQuantum, q.length = 8 := by
    intro q hq
    obtain ⟨b, -, rfl⟩ := List.mem_map.mp hq
    exact length_encodeQuantum b
  have hquanta := quanta_flatten_append (by decide) hbody (tailChars tail)
  obtain ⟨acc, hloop⟩ := decodeQuanta_append hblocks (quanta 8 (tailChars tail)) ([], 0)
  rw [← hquanta, List.nil_append] at hloop
  rw [b32encode_eq hblocks htail]
  by_cases hnil : tail = []
  · subst hnil
    have hend : decodeQuanta (quanta 8 (tailChars [])) (blocks.flatten, acc) =
        some (blocks.flatten, acc) := rfl
    rw [b32decode_padded mem_alphabet_body (length_body_mod blocks []) (by decide)
      (hloop.trans hend), List.append_nil]
    rfl
  · have hchars : tailChars tail ≠ [] := fun he => by
      have hl := length_tailChars hnil
      have hpad := padLength_le tail.length
      rw [he, List.length_nil] at hl
      omega
    have hlast : quanta 8 (tailChars tail) = [tailChars tail] :=
      quanta_of_length_le hchars ((length_tailChars hnil).trans_le (Nat.sub_le _ _))
    rw [hlast, decodeQuanta, quantumValue_tailChars hnil htail] at hloop
    rw [b32decode_padded mem_alphabet_body (length_body_mod blocks tail) (hpads _ htail) hloop,
      finish_tail _ hnil htail]

end Base32
