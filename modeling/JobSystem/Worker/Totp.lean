import JobSystem.Lib.Base32
import JobSystem.Lib.Double

/-!
# The one-time codes

`verify_totp` decodes a Base32 secret, divides the time by 30 seconds and compares the code with those
of three neighbouring counters.

* `Digest`, `truncated`, `tryDrifts`, `verifyTotp`: the verification;
* `dynamicTruncation`, `hotp`: the six digits of an HMAC-based one-time password; `truncated_eq`,
  `sixDigits_mod`: the code computes them;
* `Spaced`, `RendersSecret`, `RendersCode`: what users type; `verifyTotp_eq`;
* **`verifyTotp_iff`**: the three codes around the counter are accepted, with the least drift.
-/

namespace JobSystem

open PyText Base32

/-! ## The verification -/

/-- What SHA-1 returns. -/
structure Digest where
  bytes : Bytes
  length_eq : bytes.length = 20

/-- `hmac.new(key, msg, hashlib.sha1).digest()`. -/
abbrev Hmac := Bytes → Bytes → Digest

/-- The exceptions: a `ValueError` with its text, and `struct.error`. -/
inductive TotpError where
  | valueError (msg : Str)
  | structError
  deriving DecidableEq

/-- The result. -/
structure Totp where
  valid : Bool
  drift : Option ℤ
  timestamp : Double
  time_step : ℤ

/-- The characters of numeric type Digit that are not decimal digits: the first and the last of each
run. -/
def digitRuns : List (ℕ × ℕ) :=
  [(0xb2, 0xb3), (0xb9, 0xb9), (0x1369, 0x1371), (0x19da, 0x19da), (0x2070, 0x2070),
    (0x2074, 0x2079), (0x2080, 0x2089), (0x2460, 0x2468), (0x2474, 0x247c), (0x2488, 0x2490),
    (0x24ea, 0x24ea), (0x24f5, 0x24fd), (0x24ff, 0x24ff), (0x2776, 0x277e), (0x2780, 0x2788),
    (0x278a, 0x2792), (0x10a40, 0x10a43), (0x10e60, 0x10e68), (0x11052, 0x1105a), (0x1f100, 0x1f10a)]

/-- `c.isdigit()`. -/
def isDigitChar (c : Char) : Bool :=
  (digitValue c).isSome || digitRuns.any fun r => r.1 ≤ c.toNat ∧ c.toNat ≤ r.2

/-- `s.isdigit()`. -/
def isDigits (s : Str) : Bool := s ≠ [] ∧ s.all isDigitChar

/-- `s.replace(" ", "")`. -/
def removeSpaces (s : Str) : Str := s.filter (· ≠ ' ')

/-- The secret with the padding that it lacks. -/
def repad (secret : Str) : Str :=
  let missing_padding := secret.length % 8
  if missing_padding ≠ 0 then secret ++ List.replicate (8 - missing_padding) '=' else secret

/-- `struct.pack(">Q", counter)`. -/
def packCounter (counter : ℤ) : Except TotpError Bytes :=
  if 0 ≤ counter ∧ counter < 2 ^ 64 then .ok (toBytes 8 counter.toNat) else .error .structError

/-- `struct.unpack(">I", bs)[0]`. -/
def unpackInt (bs : Bytes) : Except TotpError ℕ :=
  if bs.length = 4 then .ok (fromBytes bs) else .error .structError

/-- `truncated` of a hash. -/
def truncated (hmac_hash : Digest) : Except TotpError ℕ := do
  let offset := (hmac_hash.bytes.getLastD 0 &&& 0x0f).toNat
  let n ← unpackInt ((hmac_hash.bytes.drop offset).take 4)
  return n &&& 0x7fffffff

/-- `f"{n:06d}"`. -/
def sixDigits (n : ℕ) : Str := List.replicate (6 - (natStr n).length) '0' ++ natStr n

/-- The loop over the drifts: the first one whose code is the given one. -/
def tryDrifts (hmac : Hmac) (key : Bytes) (code : Str) (current_counter : ℤ) :
    List ℤ → Except TotpError (Option ℤ)
  | [] => .ok none
  | drift :: drifts => do
    let msg ← packCounter (current_counter + drift)
    let n ← truncated (hmac key msg)
    let expected_code := n % 1000000
    if sixDigits expected_code = code then return some drift
    else tryDrifts hmac key code current_counter drifts

/-- `int(curr_time / 30)`. -/
def currentCounter (curr_time : Double) : ℤ :=
  (curr_time.div (Double.ofInt 30 (by decide))).toInt

/-- `verify_totp(secret, code)` at a time. -/
def verifyTotp (hmac : Hmac) (curr_time : Double) (secret code : Str) : Except TotpError Totp :=
  if secret = [] ∨ code = [] then .error (.valueError "Secret and code are required".toList)
  else
    match b32decode (repad (upper (removeSpaces secret))) with
    | .error e => .error (.valueError ("Invalid Base32 secret key: ".toList ++ e))
    | .ok key =>
      let code := removeSpaces code
      if ¬ isDigits code ∨ code.length ≠ 6 then
        .error (.valueError "Code must be a 6-digit number".toList)
      else do
        let matched_drift ← tryDrifts hmac key code (currentCounter curr_time) [-1, 0, 1]
        return ⟨matched_drift.isSome, matched_drift, curr_time, 30⟩

/-! ## HMAC-based one-time passwords -/

/-- The four bytes at the offset that the last byte gives, without the sign bit. -/
def dynamicTruncation (hs : Digest) : ℕ :=
  let byte := fun i => (hs.bytes.getD i 0).toNat
  let offset := byte 19 % 16
  byte offset % 128 * 2 ^ 24 + byte (offset + 1) * 2 ^ 16 + byte (offset + 2) * 2 ^ 8 +
    byte (offset + 3)

/-- The last six decimal digits of the truncation. -/
def hotp (hmac : Hmac) (key : Bytes) (counter : ℕ) : Str :=
  (toDigits 10 6 (dynamicTruncation (hmac key (toBytes 8 counter)))).map Nat.digitChar

/-- Four digits of base 256. -/
theorem fromBytes_four (a b c d : UInt8) :
    fromBytes [a, b, c, d] = a.toNat * 2 ^ 24 + b.toNat * 2 ^ 16 + c.toNat * 2 ^ 8 + d.toNat := by
  unfold fromBytes ofDigits
  simp only [List.map_cons, List.map_nil, List.foldl_cons, List.foldl_nil]
  ring

/-- The mask takes the sign bit away. -/
theorem fromBytes_four_and (a b c d : UInt8) : fromBytes [a, b, c, d] &&& 0x7fffffff =
    a.toNat % 128 * 2 ^ 24 + b.toNat * 2 ^ 16 + c.toNat * 2 ^ 8 + d.toNat := by
  have hmask : (0x7fffffff : ℕ) = 2 ^ 31 - 1 := by norm_num
  have hb := b.toNat_lt
  have hc := c.toNat_lt
  have hd := d.toNat_lt
  rw [hmask, Nat.and_two_pow_sub_one_eq_mod, fromBytes_four]
  omega

/-- Four entries of a list. -/
theorem take_drop_four {α : Type} (l : List α) (i : ℕ) (h : i + 4 ≤ l.length) (x : α) :
    (l.drop i).take 4 = [l.getD i x, l.getD (i + 1) x, l.getD (i + 2) x, l.getD (i + 3) x] := by
  have hdrop : ∀ j < l.length, l.drop j = l.getD j x :: l.drop (j + 1) := by
    intro j hj
    rw [List.drop_eq_getElem_cons hj, List.getD_eq_getElem _ _ hj]
  rw [hdrop i (by omega), hdrop (i + 1) (by omega), hdrop (i + 1 + 1) (by omega),
    hdrop (i + 1 + 1 + 1) (by omega)]
  rfl

/-- **The offset stays inside the hash**, so the truncation does not raise. -/
theorem truncated_eq (hs : Digest) : truncated hs = .ok (dynamicTruncation hs) := by
  have hlast : hs.bytes.getLastD 0 = hs.bytes.getD 19 0 := by
    rw [List.getLastD_eq_getLast?, List.getLast?_eq_getElem?, hs.length_eq]
    rfl
  have hoffset : (hs.bytes.getLastD 0 &&& 0x0f).toNat = (hs.bytes.getD 19 0).toNat % 16 := by
    rw [hlast, UInt8.toNat_and]
    exact Nat.and_two_pow_sub_one_eq_mod _ 4
  have hlen := hs.length_eq
  have hin : (hs.bytes.getD 19 0).toNat % 16 + 4 ≤ hs.bytes.length := by omega
  rw [truncated, hoffset, take_drop_four _ _ hin 0]
  exact congrArg Except.ok (fromBytes_four_and _ _ _ _)

/-- A number below `10 ^ k` with leading zeros. -/
theorem replicate_append_natStr {k n : ℕ} (hk : 0 < k) (hn : n < 10 ^ k) :
    List.replicate (k - (natStr n).length) '0' ++ natStr n =
      (toDigits 10 k n).map Nat.digitChar := by
  induction k, hk using Nat.le_induction generalizing n with
  | base =>
    rw [pow_one] at hn
    rw [natStr, Nat.toDigits_of_lt_base hn, toDigits, Nat.mod_eq_of_lt hn]
    rfl
  | succ k hk ih =>
    rw [pow_succ] at hn
    have hrest := ih (n := n / 10) (by omega)
    rw [toDigits, List.map_append, ← hrest]
    by_cases hlt : n < 10
    · have hzero : n / 10 = 0 := by omega
      rw [hzero, natStr, Nat.toDigits_of_lt_base hlt, natStr, Nat.toDigits_of_lt_base (by decide),
        Nat.mod_eq_of_lt hlt]
      obtain ⟨j, rfl⟩ : ∃ j, k = j + 1 := ⟨k - 1, by omega⟩
      rw [List.length_singleton, List.length_singleton, Nat.add_sub_cancel, Nat.add_sub_cancel,
        List.replicate_succ']
      rfl
    · rw [natStr, Nat.toDigits_of_base_le (by decide) (by omega), List.length_append,
        List.length_singleton, Nat.add_sub_add_right, List.append_assoc]
      rfl

/-- **The code that is compared**: six digits of the truncation. -/
theorem sixDigits_mod (n : ℕ) : sixDigits (n % 1000000) = (toDigits 10 6 n).map Nat.digitChar := by
  have hmod := toDigits_mod 10 6 n
  rw [show (10 : ℕ) ^ 6 = 1000000 by norm_num] at hmod
  rw [sixDigits, replicate_append_natStr (by decide) (by omega), hmod]

/-! ## The loop over the drifts -/

theorem packCounter_eq {c d : ℤ} (hlo : 0 ≤ c + d) (hhi : c + d < 2 ^ 64) :
    packCounter (c + d) = .ok (toBytes 8 (c + d).toNat) := if_pos ⟨hlo, hhi⟩

/-- One drift. -/
theorem tryDrifts_cons (hmac : Hmac) (key : Bytes) (code : Str) {c d : ℤ} (hlo : 0 ≤ c + d)
    (hhi : c + d < 2 ^ 64) (drifts : List ℤ) : tryDrifts hmac key code c (d :: drifts) =
      if hotp hmac key (c + d).toNat = code then .ok (some d)
      else tryDrifts hmac key code c drifts := by
  simp only [tryDrifts, packCounter_eq hlo hhi, truncated_eq, bind, Except.bind, pure, Except.pure,
    sixDigits_mod]
  rfl

/-- **The loop finds the first drift whose code is the given one.** -/
theorem tryDrifts_eq (hmac : Hmac) (key : Bytes) (code : Str) {c : ℤ} {drifts : List ℤ}
    (h : ∀ d ∈ drifts, 0 ≤ c + d ∧ c + d < 2 ^ 64) : tryDrifts hmac key code c drifts =
      .ok (drifts.find? fun d => hotp hmac key (c + d).toNat = code) := by
  induction drifts with
  | nil => rfl
  | cons d drifts ih =>
    rw [List.forall_mem_cons] at h
    rw [tryDrifts_cons hmac key code h.1.1 h.1.2, ih h.2]
    by_cases hd : hotp hmac key (c + d).toNat = code
    · rw [if_pos hd, List.find?_cons_of_pos (by simpa using hd)]
    · rw [if_neg hd, List.find?_cons_of_neg (by simpa using hd)]

/-! ## What users type -/

/-- A text with spaces put in, its characters in another form. -/
inductive Spaced (R : Char → Char → Prop) : Str → Str → Prop
  | nil : Spaced R [] []
  | space {t s : Str} (h : Spaced R t s) : Spaced R t (' ' :: s)
  | char {c d : Char} {t s : Str} (hc : R c d) (h : Spaced R t s) : Spaced R (c :: t) (d :: s)

/-- The character itself, or its lower case. -/
def AnyCase (c d : Char) : Prop := d = c ∨ d = c.toLower

/-- The Base32 text of a key with or without the padding, in any case, with spaces. -/
def RendersSecret (key : Bytes) (secret : Str) : Prop :=
  Spaced AnyCase (b32encode key) secret ∨ Spaced AnyCase ((b32encode key).filter (· ≠ '=')) secret

/-- Six digits with spaces. -/
def RendersCode (digits code : Str) : Prop :=
  digits.length = 6 ∧ (∀ c ∈ digits, c.isDigit = true) ∧ Spaced Eq digits code

theorem Spaced.ne_nil {R : Char → Char → Prop} {t s : Str} (h : Spaced R t s) (ht : t ≠ []) :
    s ≠ [] := by
  cases h with
  | nil => exact absurd rfl ht
  | space h => exact List.cons_ne_nil _ _
  | char hc h => exact List.cons_ne_nil _ _

/-- Without the spaces a code is itself. -/
theorem removeSpaces_code {t s : Str} (h : Spaced Eq t s) (ht : ' ' ∉ t) : removeSpaces s = t := by
  induction h with
  | nil => rfl
  | space h ih => exact ih ht
  | @char c d t s hc h ih =>
    subst hc
    rw [List.mem_cons, not_or] at ht
    rw [removeSpaces, List.filter_cons_of_pos (by simpa using Ne.symm ht.1)]
    exact congrArg _ (ih ht.2)

theorem upperChar_anyCase {c d : Char} (hc : c ∈ '=' :: alphabet) (h : AnyCase c d) :
    d ≠ ' ' ∧ upperChar d = [c] := by
  have hself : (('=' :: alphabet).all fun c => c ≠ ' ' ∧ upperChar c = [c]) = true := rfl
  have hlower : (('=' :: alphabet).all fun c =>
    c.toLower ≠ ' ' ∧ upperChar c.toLower = [c]) = true := rfl
  rcases h with rfl | rfl
  · simpa using List.all_eq_true.mp hself _ hc
  · simpa using List.all_eq_true.mp hlower _ hc

/-- Without the spaces and in upper case a secret is the Base32 text. -/
theorem upper_removeSpaces {t s : Str} (h : Spaced AnyCase t s) (ht : ∀ c ∈ t, c ∈ '=' :: alphabet) :
    upper (removeSpaces s) = t := by
  induction h with
  | nil => rfl
  | space h ih => exact ih ht
  | @char c d t s hc h ih =>
    rw [List.forall_mem_cons] at ht
    obtain ⟨hspace, hupper⟩ := upperChar_anyCase ht.1 hc
    rw [removeSpaces, List.filter_cons_of_pos (by simpa using hspace), upper_cons, hupper]
    exact congrArg _ (ih ht.2)

theorem filter_body {body : Str} (h : ∀ c ∈ body, c ∈ alphabet) (n : ℕ) :
    (body ++ List.replicate n '=').filter (· ≠ '=') = body := by
  have hbody : body.filter (· ≠ '=') = body := List.filter_eq_self.mpr fun c hc => by
    have hne : c ≠ '=' := fun he => pad_notMem_alphabet (he ▸ h c hc)
    simpa using hne
  have hpads : (List.replicate n '=').filter (· ≠ '=') = [] := by simp
  rw [List.filter_append, hbody, hpads, List.append_nil]

/-- The padding is put back. -/
theorem repad_body {body : Str} {n : ℕ} (hn : n < 8) (hlen : (body.length + n) % 8 = 0) :
    repad body = body ++ List.replicate n '=' := by
  unfold repad
  dsimp only
  split_ifs with hmissing
  · have hn' : 8 - body.length % 8 = n := by omega
    rw [hn']
  · have hn' : n = 0 := by omega
    rw [hn', List.replicate_zero, List.append_nil]

theorem repad_padded {body : Str} {n : ℕ} (hlen : (body.length + n) % 8 = 0) :
    repad (body ++ List.replicate n '=') = body ++ List.replicate n '=' := by
  have hmissing : ¬ (body ++ List.replicate n '=').length % 8 ≠ 0 := by
    rw [List.length_append, List.length_replicate]
    omega
  exact if_neg hmissing

/-- **Every way to type a secret is decoded to the key.** -/
theorem RendersSecret.decode {key : Bytes} {secret : Str} (h : RendersSecret key secret) :
    b32decode (repad (upper (removeSpaces secret))) = .ok key := by
  obtain ⟨body, n, htext, halpha, hn, hlen, -⟩ := exists_b32encode key
  have hpadded : ∀ c ∈ b32encode key, c ∈ '=' :: alphabet := by
    intro c hc
    rw [htext] at hc
    rcases List.mem_append.mp hc with hc | hc
    · exact List.mem_cons_of_mem _ (halpha c hc)
    · rw [List.eq_of_mem_replicate hc]
      exact List.mem_cons_self
  have hrepad : repad (upper (removeSpaces secret)) = b32encode key := by
    rcases h with h | h
    · rw [upper_removeSpaces h hpadded, htext, repad_padded hlen]
    · have hall : ∀ c ∈ (b32encode key).filter (· ≠ '='), c ∈ '=' :: alphabet := fun c hc =>
        hpadded c (List.mem_of_mem_filter hc)
      rw [upper_removeSpaces h hall, htext, filter_body halpha, repad_body hn hlen]
  rw [hrepad, b32decode_b32encode]

theorem RendersSecret.ne_nil {key : Bytes} {secret : Str} (h : RendersSecret key secret)
    (hkey : key ≠ []) : secret ≠ [] := by
  obtain ⟨body, n, htext, halpha, -, -, hbody⟩ := exists_b32encode key
  rcases h with h | h
  · refine h.ne_nil ?_
    rw [htext]
    exact fun he => hbody hkey (List.append_eq_nil_iff.mp he).1
  · refine h.ne_nil ?_
    rw [htext, filter_body halpha]
    exact hbody hkey

theorem isDigits_of_isDigit {s : Str} (hne : s ≠ []) (h : ∀ c ∈ s, c.isDigit = true) :
    isDigits s = true := by
  have hall : s.all isDigitChar = true := List.all_eq_true.mpr fun c hc => by
    rw [isDigitChar, digitValue_of_isDigit (h c hc)]
    rfl
  simp [isDigits, hne, hall]

theorem RendersCode.removeSpaces {digits code : Str} (h : RendersCode digits code) :
    removeSpaces code = digits :=
  removeSpaces_code h.2.2 fun hmem => absurd (h.2.1 _ hmem) (by decide)

/-- **The verification of a secret and a code in any form** is the loop over the drifts. -/
theorem verifyTotp_eq (hmac : Hmac) {key : Bytes} (hkey : key ≠ []) {secret : Str}
    (hsecret : RendersSecret key secret) {digits code : Str} (hcode : RendersCode digits code)
    (t : Double) : verifyTotp hmac t secret code =
      (tryDrifts hmac key digits (currentCounter t) [-1, 0, 1]).map fun matched_drift =>
        ⟨matched_drift.isSome, matched_drift, t, 30⟩ := by
  have hdigits : digits ≠ [] := by
    rintro rfl
    cases hcode.1
  have hne : ¬ (secret = [] ∨ code = []) :=
    not_or.mpr ⟨hsecret.ne_nil hkey, hcode.2.2.ne_nil hdigits⟩
  have hok : ¬ (¬ isDigits digits = true ∨ digits.length ≠ 6) :=
    not_or.mpr ⟨not_not.mpr (isDigits_of_isDigit hdigits hcode.2.1), not_not.mpr hcode.1⟩
  rw [verifyTotp, if_neg hne, hsecret.decode]
  dsimp only
  rw [hcode.removeSpaces, if_neg hok]
  rfl

/-! ## The counter -/

theorem currentCounter_def (t : Double) : currentCounter t = (Double.round (t.val / 30)).toInt := by
  have h30 : (Double.ofInt 30 (by decide)).val = 30 := by norm_num [Double.ofInt]
  rw [currentCounter, Double.div, h30]

theorem one_le_currentCounter {t : Double} (ht : 30 ≤ t.val) : 1 ≤ currentCounter t := by
  rw [currentCounter_def]
  exact Double.one_le_toInt_round (by linarith)

/-- Up to `2 ^ 54` seconds the counter is the number of the whole 30-second steps. -/
theorem currentCounter_eq_floor {t : Double} (ht : 30 ≤ t.val) (hlt : t.val < 2 ^ 54) :
    currentCounter t = ⌊t.val / 30⌋ := by
  have h := Double.toInt_div_ofInt (d := 30) (by decide) (by decide) (by decide) (by linarith) hlt
  exact_mod_cast h

/-! ## The three neighbouring codes -/

/-- The first element of a sorted list that satisfies a condition is the least one. -/
theorem find?_eq_some_iff_isLeast {l : List ℤ} (hl : l.Pairwise (· < ·)) (p : ℤ → Bool) (d : ℤ) :
    l.find? p = some d ↔ IsLeast {e | e ∈ l ∧ p e = true} d := by
  induction l with
  | nil => exact ⟨fun h => (by cases h), fun h => absurd h.1.1 List.not_mem_nil⟩
  | cons a l ih =>
    rw [List.pairwise_cons] at hl
    by_cases ha : p a = true
    · have hleast : IsLeast {e | e ∈ a :: l ∧ p e = true} a := by
        refine ⟨⟨List.mem_cons_self, ha⟩, fun e he => ?_⟩
        rcases List.mem_cons.mp he.1 with rfl | hmem
        · exact le_rfl
        · exact (hl.1 e hmem).le
      rw [List.find?_cons_of_pos ha, Option.some_inj]
      exact ⟨fun h => h ▸ hleast, fun h => hleast.unique h⟩
    · have hset : {e | e ∈ a :: l ∧ p e = true} = {e | e ∈ l ∧ p e = true} := by
        ext e
        rw [Set.mem_ofPred_eq, Set.mem_ofPred_eq, List.mem_cons]
        refine and_congr_left fun he => or_iff_right ?_
        rintro rfl
        exact ha he
      rw [List.find?_cons_of_neg (by simpa using ha), ih hl.2, hset]

/-- **The three neighbouring codes are accepted, and no others.** For every key that is not empty, the
secret and the code in any form, and every time from 30 seconds on whose counter leaves room for the
next one: the call does not raise, the code is valid exactly when it is one of the three codes around
the counter, and the drift is the least one with this code. Up to `2 ^ 54` seconds the counter is
`⌊t / 30⌋`; above, the quotient can be rounded to the next integer. -/
theorem verifyTotp_iff (hmac : Hmac) {key : Bytes} (hkey : key ≠ []) {secret : Str}
    (hsecret : RendersSecret key secret) {digits code : Str} (hcode : RendersCode digits code)
    {t : Double} (ht : 30 ≤ t.val) (hmax : currentCounter t + 1 < 2 ^ 64) :
    (∃ r, verifyTotp hmac t secret code = .ok r ∧
      (r.valid = true ↔
        ∃ d ∈ [-1, 0, 1], hotp hmac key (currentCounter t + d).toNat = digits) ∧
      ∀ d, r.drift = some d ↔
        IsLeast {d | d ∈ [-1, 0, 1] ∧ hotp hmac key (currentCounter t + d).toNat = digits} d) ∧
    (t.val < 2 ^ 54 → currentCounter t = ⌊t.val / 30⌋) := by
  have hone := one_le_currentCounter ht
  have hrange : ∀ d ∈ [(-1 : ℤ), 0, 1], 0 ≤ currentCounter t + d ∧ currentCounter t + d < 2 ^ 64 := by
    simp only [List.forall_mem_cons, List.not_mem_nil, false_imp_iff, implies_true, and_true]
    omega
  set matched := [(-1 : ℤ), 0, 1].find? fun d =>
    hotp hmac key (currentCounter t + d).toNat = digits with hmatched
  refine ⟨⟨⟨matched.isSome, matched, t, 30⟩, ?_, ?_, ?_⟩, currentCounter_eq_floor ht⟩
  · rw [verifyTotp_eq hmac hkey hsecret hcode, tryDrifts_eq hmac key digits hrange]
    rfl
  · simp only [hmatched, List.find?_isSome, decide_eq_true_eq]
  · intro d
    have hsorted : [(-1 : ℤ), 0, 1].Pairwise (· < ·) := by decide
    have h := find?_eq_some_iff_isLeast hsorted
      (fun d => hotp hmac key (currentCounter t + d).toNat = digits) d
    simpa only [decide_eq_true_eq] using h

/-! ## Two runs -/

theorem spaced_toLower (t : Str) : Spaced AnyCase t (t.map Char.toLower) := by
  induction t with
  | nil => exact .nil
  | cons c t ih => exact .char (.inr rfl) ih

/-- A hash given by its number. -/
def digestOf (n : ℕ) : Digest :=
  ⟨toBytes 20 n, by rw [toBytes, List.length_map, length_toDigits]⟩

/-- HMAC-SHA-1 of the counters 0, 1 and 2 with the key `12345678901234567890`. -/
def sampleHmac : Hmac := fun _ msg =>
  if msg = toBytes 8 0 then digestOf 0xcc93cf18508d94934c64b65d8ba7667fb7cde4b0
  else if msg = toBytes 8 1 then digestOf 0x75a48a19d4cbe100644e8ac1397eea747a2d33ab
  else digestOf 0x0bacb7fa082fef30782211938bc1c5e70416ff44

/-- That key. -/
def sampleKey : Bytes := encodeUtf8 "12345678901234567890".toList

theorem sampleKey_ne_nil : sampleKey ≠ [] := List.cons_ne_nil _ _

/-- At 59 seconds the code of the counter 1 is accepted, typed with a space, the secret in lower
case. -/
theorem verifyTotp_iff_sample : ∃ r, verifyTotp sampleHmac (.ofInt 59 (by decide))
    ((b32encode sampleKey).map Char.toLower) "287 082".toList = .ok r ∧ r.valid = true ∧
      r.drift = some 0 := by
  have hval : (Double.ofInt 59 (by decide)).val = 59 := by norm_num [Double.ofInt]
  have hcounter : currentCounter (.ofInt 59 (by decide)) = 1 := by
    rw [currentCounter_eq_floor (by rw [hval]; norm_num) (by rw [hval]; norm_num), hval]
    norm_num
  have hcode : RendersCode "287082".toList "287 082".toList :=
    ⟨rfl, List.all_eq_true.mp rfl, .char rfl (.char rfl (.char rfl (.space (.char rfl (.char rfl
      (.char rfl .nil))))))⟩
  obtain ⟨⟨r, hr, hvalid, hdrift⟩, -⟩ := verifyTotp_iff sampleHmac sampleKey_ne_nil
    (.inl (spaced_toLower _)) hcode (t := .ofInt 59 (by decide)) (by rw [hval]; norm_num)
    (by rw [hcounter]; norm_num)
  rw [hcounter] at hvalid hdrift
  have hzero : hotp sampleHmac sampleKey 0 = "755224".toList := by decide
  have hone : hotp sampleHmac sampleKey 1 = "287082".toList := by decide
  refine ⟨r, hr, hvalid.mpr ⟨0, by decide, hone⟩, (hdrift 0).mpr ⟨⟨by decide, hone⟩, ?_⟩⟩
  rintro d ⟨hd, hmatch⟩
  by_contra hlt
  have hneg : d = -1 := by
    simp only [List.mem_cons, List.not_mem_nil, or_false] at hd
    omega
  subst hneg
  exact absurd (hzero.symm.trans hmatch) (by decide)

/-- A time at which the quotient by 30 is rounded up to the next integer. -/
def lateTime : Double :=
  ⟨2 ^ 57 + 224, 2 ^ 52 + 7, 5, by norm_num [abs_lt], by norm_num⟩

/-- A hash whose code is `000000` for the counter `⌊t / 30⌋ - 1` of that time, and `843009` for every
other one. -/
def lateHmac : Hmac := fun _ msg =>
  if msg = toBytes 8 4803839602528535 then digestOf 0
  else digestOf 0x0101010101010101010101010101010101010101

theorem floor_lateTime : ⌊lateTime.val / 30⌋ = 4803839602528536 := by
  norm_num [lateTime, Int.floor_eq_iff]

theorem currentCounter_lateTime : currentCounter lateTime = 4803839602528537 := by
  have hval : lateTime.val / 30 = 72057594037928048 / 15 := by norm_num [lateTime]
  have hround : Double.roundHalfEven (72057594037928048 / 15 / 2 ^ (0 : ℤ)) = 4803839602528537 := by
    have hfloor : ⌊(72057594037928048 / 15 : ℚ)⌋ = 4803839602528536 := by
      norm_num [Int.floor_eq_iff]
    rw [zpow_zero, div_one, Double.roundHalfEven, hfloor]
    norm_num
  have hrounded : (Double.round (72057594037928048 / 15)).val = 4803839602528537 := by
    rw [Double.round_val (e := 0) (by norm_num [abs_of_pos]) (by norm_num [abs_of_pos]), hround]
    norm_num
  rw [currentCounter_def, hval, Double.toInt_of_nonneg (by rw [hrounded]; norm_num), hrounded]
  exact_mod_cast Int.floor_intCast 4803839602528537

/-- **The counter is not `⌊t / 30⌋` at every time**: at `2 ^ 57 + 224` seconds the code of
`⌊t / 30⌋ - 1` is refused, since the quotient is rounded to the next integer. -/
theorem verifyTotp_lateTime : 30 ≤ lateTime.val ∧ ⌊lateTime.val / 30⌋ + 1 < 2 ^ 64 ∧
    RendersSecret sampleKey ((b32encode sampleKey).map Char.toLower) ∧
    RendersCode "000000".toList "000000".toList ∧
    hotp lateHmac sampleKey (⌊lateTime.val / 30⌋ + -1).toNat = "000000".toList ∧
    verifyTotp lateHmac lateTime ((b32encode sampleKey).map Char.toLower) "000000".toList =
      .ok ⟨false, none, lateTime, 30⟩ := by
  have hsecret : RendersSecret sampleKey ((b32encode sampleKey).map Char.toLower) :=
    .inl (spaced_toLower _)
  have hcode : RendersCode "000000".toList "000000".toList :=
    ⟨rfl, List.all_eq_true.mp rfl, .char rfl (.char rfl (.char rfl (.char rfl (.char rfl (.char rfl
      .nil)))))⟩
  refine ⟨by norm_num [lateTime], by rw [floor_lateTime]; norm_num, hsecret, hcode, ?_, ?_⟩
  · rw [floor_lateTime]
    decide
  · have hrange : ∀ d ∈ [(-1 : ℤ), 0, 1], 0 ≤ (4803839602528537 : ℤ) + d ∧
        (4803839602528537 : ℤ) + d < 2 ^ 64 := by decide
    rw [verifyTotp_eq lateHmac sampleKey_ne_nil hsecret hcode, currentCounter_lateTime,
      tryDrifts_eq _ _ _ hrange]
    have hnone : ([(-1 : ℤ), 0, 1].find? fun d =>
        hotp lateHmac sampleKey (4803839602528537 + d).toNat = "000000".toList) = none := by decide
    rw [hnone]
    rfl

end JobSystem
