import Mathlib.Algebra.Order.Field.Power
import Mathlib.Algebra.Order.Floor.Ring
import Mathlib.Data.Int.Log
import Mathlib.Data.Rat.Floor
import Mathlib.Tactic.FieldSimp
import Mathlib.Tactic.Linarith
import Mathlib.Tactic.NormNum
import Mathlib.Tactic.Positivity
import Mathlib.Tactic.Ring

/-!
# Double precision

Floating-point numbers of 53 significant bits, their differences and quotients, rounded to nearest, ties
to even. The exponent is not bounded: there is no overflow, and no number is subnormal.

* `Double`: the numbers `m · 2 ^ k` with `|m| < 2 ^ 53`;
* `roundHalfEven`, `Double.round`: to an integer, and to 53 bits;
* `Double.diff`, `Double.div`, `Double.toInt`: `x - y`, `x / y` and `int(x)`;
* `abs_round_sub_le`: how far rounding is off; `round_intCast`: integers are not rounded;
* **`toInt_div_ofInt`**: below `2 ^ 54` the quotient by an even number is not rounded over an integer.
-/

/-- `m · 2 ^ k` with 53 bits for `m`. -/
structure Double where
  val : ℚ
  grid : ∃ m k : ℤ, |m| < 2 ^ 53 ∧ val = m * 2 ^ k

namespace Double

/-! ## Rounding to an integer -/

/-- The nearest integer, the even one of two. -/
def roundHalfEven (x : ℚ) : ℤ :=
  if x - ⌊x⌋ < 1 / 2 then ⌊x⌋
  else if 1 / 2 < x - ⌊x⌋ then ⌊x⌋ + 1
  else if Even ⌊x⌋ then ⌊x⌋ else ⌊x⌋ + 1

theorem roundHalfEven_cases (x : ℚ) :
    (roundHalfEven x = ⌊x⌋) ∨ (roundHalfEven x = ⌊x⌋ + 1 ∧ 1 / 2 ≤ x - ⌊x⌋) := by
  unfold roundHalfEven
  split_ifs with hlo hhi heven
  · exact .inl rfl
  · exact .inr ⟨rfl, hhi.le⟩
  · exact .inl rfl
  · exact .inr ⟨rfl, not_lt.mp hlo⟩

theorem floor_le_roundHalfEven (x : ℚ) : ⌊x⌋ ≤ roundHalfEven x := by
  rcases roundHalfEven_cases x with h | ⟨h, -⟩ <;> omega

theorem roundHalfEven_le_floor (x : ℚ) : roundHalfEven x ≤ ⌊x⌋ + 1 := by
  rcases roundHalfEven_cases x with h | ⟨h, -⟩ <;> omega

theorem abs_roundHalfEven_le {x : ℚ} {n : ℤ} (h : |x| < n) : |roundHalfEven x| ≤ n := by
  obtain ⟨hlo, hhi⟩ := abs_lt.mp h
  have hfloor : -n ≤ ⌊x⌋ := Int.le_floor.mpr (by push_cast; exact hlo.le)
  have hlt : ⌊x⌋ < n := Int.floor_lt.mpr hhi
  have hle := floor_le_roundHalfEven x
  have hge := roundHalfEven_le_floor x
  exact abs_le.mpr ⟨by omega, by omega⟩

theorem abs_roundHalfEven_sub_le (x : ℚ) : |(roundHalfEven x : ℚ) - x| ≤ 1 / 2 := by
  have hlo := Int.floor_le x
  have hhi := Int.lt_floor_add_one x
  unfold roundHalfEven
  rw [abs_le]
  split_ifs with hlt hgt heven
  · constructor <;> linarith
  · push_cast
    constructor <;> linarith
  · constructor <;> linarith
  · push_cast
    constructor <;> linarith

theorem roundHalfEven_intCast (n : ℤ) : roundHalfEven n = n := by
  rw [roundHalfEven, Int.floor_intCast, sub_self, if_pos (by norm_num)]

/-! ## Rounding to 53 bits -/

/-- The exponent of the last of the 53 bits. -/
def exponent (q : ℚ) : ℤ := Int.log 2 |q| - 52

theorem abs_lt_exponent (q : ℚ) : |q| < 2 ^ (exponent q + 53) := by
  have h := Int.lt_zpow_succ_log_self (b := 2) (by decide) |q|
  have he : exponent q + 53 = Int.log 2 |q| + 1 := by
    unfold exponent
    ring
  rw [he]
  exact_mod_cast h

theorem exponent_le_abs {q : ℚ} (h : q ≠ 0) : 2 ^ (exponent q + 52) ≤ |q| := by
  have hlog := Int.zpow_log_le_self (b := 2) (by decide) (abs_pos.mpr h)
  rw [exponent, sub_add_cancel]
  exact_mod_cast hlog

theorem exponent_eq {q : ℚ} {e : ℤ} (hlo : 2 ^ (e + 52) ≤ |q|) (hhi : |q| < 2 ^ (e + 53)) :
    exponent q = e := by
  have hpos : 0 < |q| := lt_of_lt_of_le (by positivity) hlo
  have hle : e + 52 ≤ Int.log 2 |q| :=
    (Int.zpow_le_iff_le_log (by decide) hpos).mp (by exact_mod_cast hlo)
  have hlt : Int.log 2 |q| < e + 53 :=
    (Int.lt_zpow_iff_log_lt (by decide) hpos).mp (by exact_mod_cast hhi)
  unfold exponent
  omega

/-- The nearest number of 53 bits, the even one of two. -/
def round (q : ℚ) : Double where
  val := roundHalfEven (q / 2 ^ exponent q) * 2 ^ exponent q
  grid := by
    have hpow : (0 : ℚ) < 2 ^ exponent q := by positivity
    have hlt : |q / 2 ^ exponent q| < ((2 ^ 53 : ℤ) : ℚ) := by
      rw [abs_div, abs_of_pos hpow, div_lt_iff₀ hpow]
      have h := abs_lt_exponent q
      rw [zpow_add₀ two_ne_zero, mul_comm] at h
      exact_mod_cast h
    rcases (abs_roundHalfEven_le hlt).lt_or_eq with h | h
    · exact ⟨_, _, h, rfl⟩
    · -- a carry: one more bit before the point
      rcases (abs_eq (by positivity)).mp h with h | h
      · refine ⟨2 ^ 52, exponent q + 1, by norm_num, ?_⟩
        rw [h, zpow_add₀ two_ne_zero]
        push_cast
        ring
      · refine ⟨-2 ^ 52, exponent q + 1, by norm_num, ?_⟩
        rw [h, zpow_add₀ two_ne_zero]
        push_cast
        ring

theorem round_val {q : ℚ} {e : ℤ} (hlo : 2 ^ (e + 52) ≤ |q|) (hhi : |q| < 2 ^ (e + 53)) :
    (round q).val = roundHalfEven (q / 2 ^ e) * 2 ^ e := by
  rw [← exponent_eq hlo hhi]
  rfl

/-- Rounding is off by half of the last bit. -/
theorem abs_round_sub_le (q : ℚ) : |(round q).val - q| ≤ |q| / 2 ^ 53 := by
  rcases eq_or_ne q 0 with rfl | hq
  · have hzero : (round 0).val = 0 := by
      have h := roundHalfEven_intCast 0
      rw [Int.cast_zero] at h
      simp [round, h]
    simp [hzero]
  · have hpow : (0 : ℚ) < 2 ^ exponent q := by positivity
    have hle := exponent_le_abs hq
    rw [zpow_add₀ two_ne_zero] at hle
    have hdiv : q / 2 ^ exponent q * 2 ^ exponent q = q := div_mul_cancel₀ q hpow.ne'
    have h52 : (2 : ℚ) ^ (52 : ℤ) = 2 ^ 52 := by norm_cast
    rw [h52] at hle
    have hsub : (round q).val - q =
        (roundHalfEven (q / 2 ^ exponent q) - q / 2 ^ exponent q) * 2 ^ exponent q := by
      rw [sub_mul, hdiv]
      rfl
    calc |(round q).val - q|
        = |roundHalfEven (q / 2 ^ exponent q) - q / 2 ^ exponent q| * 2 ^ exponent q := by
          rw [hsub, abs_mul, abs_of_pos hpow]
      _ ≤ 1 / 2 * 2 ^ exponent q :=
          mul_le_mul_of_nonneg_right (abs_roundHalfEven_sub_le _) hpow.le
      _ ≤ |q| / 2 ^ 53 := by linarith

/-- Rounding up adds at most half of the last bit. -/
theorem round_le {q : ℚ} (h : 0 < q) : (round q).val ≤ q + q / 2 ^ 53 := by
  have hoff := (abs_le.mp (abs_round_sub_le q)).2
  rw [abs_of_pos h] at hoff
  linarith

/-- Below 53 bits the last bit is at most one. -/
theorem exponent_nonpos {q : ℚ} (hq : q ≠ 0) (h : |q| < 2 ^ 53) : exponent q ≤ 0 := by
  have hle := (exponent_le_abs hq).trans_lt h
  have h53 : (2 : ℚ) ^ 53 = 2 ^ (53 : ℤ) := by norm_cast
  rw [h53] at hle
  have := (zpow_lt_zpow_iff_right₀ (one_lt_two : (1 : ℚ) < 2)).mp hle
  omega

/-- An integer is a multiple of such a bit. -/
theorem exists_intCast_eq {k : ℤ} (hk : k ≤ 0) (n : ℤ) : ∃ m : ℤ, (n : ℚ) = m * 2 ^ k := by
  obtain ⟨j, hj⟩ := Int.eq_ofNat_of_zero_le (neg_nonneg.mpr hk)
  refine ⟨n * 2 ^ j, ?_⟩
  have he : k = -(j : ℤ) := by omega
  rw [he, zpow_neg, zpow_natCast]
  push_cast
  field_simp

/-- **An integer of 53 bits is not rounded.** -/
theorem round_intCast {n : ℤ} (h : |n| < 2 ^ 53) : (round n).val = n := by
  rcases eq_or_ne n 0 with rfl | hn
  · have hsub := abs_round_sub_le ((0 : ℤ) : ℚ)
    simpa using hsub
  · have hexp : exponent (n : ℚ) ≤ 0 :=
      exponent_nonpos (Int.cast_ne_zero.mpr hn) (by exact_mod_cast h)
    obtain ⟨m, hm⟩ := exists_intCast_eq hexp n
    have hpow : (2 : ℚ) ^ exponent (n : ℚ) ≠ 0 := by positivity
    have hquot : (n : ℚ) / 2 ^ exponent (n : ℚ) = m := by
      rw [div_eq_iff hpow]
      exact hm
    rw [round]
    simp only [hquot]
    rw [roundHalfEven_intCast]
    exact hm.symm

/-- An integer below is not rounded away: it is a number of 53 bits itself. -/
theorem le_round {q : ℚ} {n : ℤ} (hn : n ≤ q) (h : 0 < q) (hlt : q < 2 ^ 53) :
    (n : ℚ) ≤ (round q).val := by
  have hpow : (0 : ℚ) < 2 ^ exponent q := by positivity
  have hexp : exponent q ≤ 0 := exponent_nonpos h.ne' ((abs_of_pos h).trans_lt hlt)
  obtain ⟨m, hm⟩ := exists_intCast_eq hexp n
  have hfloor : m ≤ ⌊q / 2 ^ exponent q⌋ := by
    rw [Int.le_floor, le_div_iff₀ hpow, ← hm]
    exact hn
  rw [hm]
  refine mul_le_mul_of_nonneg_right ?_ hpow.le
  exact_mod_cast hfloor.trans (floor_le_roundHalfEven _)

theorem one_le_round {q : ℚ} (h : 1 ≤ q) : 1 ≤ (round q).val := by
  have hpos : 0 < q := one_pos.trans_le h
  rcases lt_or_ge q (2 ^ 53) with hlt | hge
  · exact_mod_cast le_round (n := 1) (by exact_mod_cast h) hpos hlt
  · have hpow : (0 : ℚ) < 2 ^ exponent q := by positivity
    have hlo := exponent_le_abs hpos.ne'
    have hhi := abs_lt_exponent q
    rw [abs_of_pos hpos, zpow_add₀ two_ne_zero] at hlo hhi
    have hbit : (1 : ℚ) ≤ 2 ^ exponent q := by
      have h53 : (2 : ℚ) ^ (53 : ℤ) = 2 ^ 53 := by norm_cast
      rw [h53] at hhi
      have := hge.trans_lt hhi
      linarith
    have hfloor : (1 : ℤ) ≤ ⌊q / 2 ^ exponent q⌋ := by
      rw [Int.le_floor, le_div_iff₀ hpow]
      have h52 : (1 : ℚ) ≤ 2 ^ (52 : ℤ) := by norm_num
      calc ((1 : ℤ) : ℚ) * 2 ^ exponent q = 2 ^ exponent q * 1 := by push_cast; ring
        _ ≤ 2 ^ exponent q * 2 ^ (52 : ℤ) := mul_le_mul_of_nonneg_left h52 hpow.le
        _ ≤ q := hlo
    have hround : (1 : ℚ) ≤ roundHalfEven (q / 2 ^ exponent q) := by
      exact_mod_cast hfloor.trans (floor_le_roundHalfEven _)
    exact one_le_mul_of_one_le_of_one_le hround hbit

/-! ## Subtraction, division and truncation -/

/-- `x - y`, by the values of `x` and `y`. -/
def diff (x y : ℚ) : ℚ := (round (x - y)).val

theorem diff_intCast {m n : ℤ} (h : |m - n| < 2 ^ 53) : diff m n = m - n := by
  have hcast : (m : ℚ) - n = ((m - n : ℤ) : ℚ) := by push_cast; rfl
  rw [diff, hcast, round_intCast h]

/-- An integer of 53 bits. -/
def ofInt (n : ℤ) (h : |n| < 2 ^ 53) : Double := ⟨n, n, 0, h, by rw [zpow_zero, mul_one]⟩

/-- `x / y`. -/
def div (x y : Double) : Double := round (x.val / y.val)

/-- `int(x)`. -/
def toInt (x : Double) : ℤ := x.val.num.tdiv x.val.den

theorem toInt_of_nonneg {x : Double} (h : 0 ≤ x.val) : x.toInt = ⌊x.val⌋ := by
  rw [toInt, Rat.floor_def', Int.tdiv_eq_ediv_of_nonneg (Rat.num_nonneg.mpr h)]

theorem one_le_toInt_round {q : ℚ} (h : 1 ≤ q) : 1 ≤ (round q).toInt := by
  have hone := one_le_round h
  rw [toInt_of_nonneg (zero_le_one.trans hone), Int.le_floor]
  exact_mod_cast hone

/-- A number below `2 ^ 54` and its last bit, which stands for 2 at most. -/
theorem exists_lastBit (x : Double) (h : x.val < 2 ^ 54) :
    ∃ m k : ℤ, x.val = m * 2 ^ k ∧ k ≤ 1 ∧ x.val < 2 ^ k * 2 ^ 53 := by
  obtain ⟨m, k, hm, hx⟩ := x.grid
  rcases le_or_gt k 1 with hk | hk
  · have hm' : (m : ℚ) < 2 ^ 53 := by exact_mod_cast (le_abs_self m).trans_lt hm
    refine ⟨m, k, hx, hk, ?_⟩
    rw [hx, mul_comm]
    exact mul_lt_mul_of_pos_left hm' (by positivity)
  · obtain ⟨j, hj⟩ := Int.eq_ofNat_of_zero_le (by omega : 0 ≤ k - 1)
    refine ⟨m * 2 ^ j, 1, ?_, le_rfl, by rw [zpow_one]; linarith⟩
    have hk' : k = j + 1 := by omega
    rw [hx, hk', zpow_add₀ two_ne_zero, zpow_natCast]
    push_cast
    ring

/-- The distance to a multiple of an even number is a multiple of the last bit. -/
theorem add_lastBit_le {x : ℚ} {m k n c : ℤ} (hm : x = m * 2 ^ k) (hk : k ≤ 1)
    (h : x < n * (c + c : ℤ)) : x + 2 ^ k ≤ n * (c + c : ℤ) := by
  obtain ⟨j, hj⟩ := Int.eq_ofNat_of_zero_le (by omega : 0 ≤ 1 - k)
  have hpow : (0 : ℚ) < 2 ^ k := by positivity
  have hmult : (n * (c + c : ℤ) : ℚ) = (n * c * 2 ^ j : ℤ) * 2 ^ k := by
    have hk' : k = 1 - j := by omega
    rw [hk', zpow_sub₀ two_ne_zero, zpow_natCast]
    push_cast
    field_simp
    ring
  rw [hmult, hm] at h ⊢
  have hint : m < n * c * 2 ^ j := by exact_mod_cast lt_of_mul_lt_mul_right h hpow.le
  have hstep : (m : ℚ) + 1 ≤ (n * c * 2 ^ j : ℤ) := by exact_mod_cast hint
  calc (m : ℚ) * 2 ^ k + 2 ^ k = (m + 1) * 2 ^ k := by ring
    _ ≤ _ := mul_le_mul_of_nonneg_right hstep hpow.le

/-- **The counter of a time**: below `2 ^ 54` the quotient by an even number is rounded between the
same two integers. The distance to the next integer is more than half of the last bit. -/
theorem toInt_div_ofInt {x : Double} {d : ℤ} (hd : 0 < d) (heven : Even d) (hd53 : |d| < 2 ^ 53)
    (hpos : 0 < x.val) (hx : x.val < 2 ^ 54) :
    (div x (ofInt d hd53)).toInt = ⌊x.val / d⌋ := by
  have hdq : (0 : ℚ) < d := by exact_mod_cast hd
  have hq : 0 < x.val / d := div_pos hpos hdq
  have hlt53 : x.val / d < 2 ^ 53 := by
    have htwo : (2 : ℚ) ≤ d := by
      obtain ⟨c, hc⟩ := heven
      exact_mod_cast (by omega : (2 : ℤ) ≤ d)
    rw [div_lt_iff₀ hdq]
    calc x.val < 2 ^ 53 * 2 := by linarith
      _ ≤ 2 ^ 53 * (d : ℚ) := mul_le_mul_of_nonneg_left htwo (by positivity)
  have hlo : (⌊x.val / d⌋ : ℚ) ≤ (round (x.val / d)).val := le_round (Int.floor_le _) hq hlt53
  have hhi : (round (x.val / d)).val < ⌊x.val / d⌋ + 1 := by
    obtain ⟨m, k, hm, hk, hlast⟩ := exists_lastBit x hx
    have hbit : x.val / 2 ^ 53 < 2 ^ k := by
      rw [div_lt_iff₀ (by positivity)]
      exact hlast
    have hgap : x.val + 2 ^ k ≤ ((⌊x.val / d⌋ + 1 : ℤ) : ℚ) * d := by
      obtain ⟨c, rfl⟩ := heven
      refine add_lastBit_le hm hk ?_
      rw [← div_lt_iff₀ hdq]
      exact_mod_cast Int.lt_floor_add_one (x.val / _)
    have hsum : x.val / d + x.val / d / 2 ^ 53 = (x.val + x.val / 2 ^ 53) / d := by ring
    calc (round (x.val / d)).val ≤ x.val / d + x.val / d / 2 ^ 53 := round_le hq
      _ = (x.val + x.val / 2 ^ 53) / d := hsum
      _ < ⌊x.val / d⌋ + 1 := by
        rw [div_lt_iff₀ hdq]
        push_cast at hgap
        linarith
  have hnonneg : 0 ≤ (round (x.val / d)).val := by
    have hn0 : (0 : ℚ) ≤ ⌊x.val / d⌋ := by exact_mod_cast Int.floor_nonneg.mpr hq.le
    exact hn0.trans hlo
  have hdiv : div x (ofInt d hd53) = round (x.val / d) := rfl
  rw [hdiv, toInt_of_nonneg hnonneg]
  exact Int.floor_eq_iff.mpr ⟨hlo, hhi⟩

end Double
