import Mathlib.Algebra.Order.Field.Power
import Mathlib.Data.Int.Log
import Mathlib.Data.Rat.Floor
import Mathlib.Tactic.FieldSimp
import Mathlib.Tactic.Linarith
import Mathlib.Tactic.Positivity
import Mathlib.Tactic.Ring

namespace ShareCompute.Library

/-!
# Floating-point numbers

A floating-point format keeps `precision` binary digits of a number, and no digit below the
exponent `minExp`.  A result that it cannot keep is rounded to the nearest number that it can, and
to the one with the even significand if two are equally near; from `2 ^ maxExp` on a rounded
result is infinite.  The numbers themselves are rational.

* `roundEven` — the nearest integer.
* `FloatFormat.rounded` — the nearest number of a format, whatever its size.
* `rounded_mono`, `rounded_of_isFloat` — rounding is monotone and leaves the numbers of the format.
* `rounded_mul_lt` — a product with a number below one is below the other factor also after
  rounding.
* `rounded_lt_iff` — where the infinite results begin.
-/

/-! ### Rounding to an integer -/

/-- The nearest integer, and the even one of two that are equally near. -/
def roundEven (x : ℚ) : ℤ :=
  if x - ⌊x⌋ < 1 / 2 then ⌊x⌋
  else if 1 / 2 < x - ⌊x⌋ then ⌊x⌋ + 1
  else if ⌊x⌋ % 2 = 0 then ⌊x⌋
  else ⌊x⌋ + 1

/-- Rounding goes down to the floor or up to the integer above it. -/
theorem roundEven_cases (x : ℚ) :
    (roundEven x = ⌊x⌋ ∧ x - ⌊x⌋ ≤ 1 / 2) ∨ (roundEven x = ⌊x⌋ + 1 ∧ 1 / 2 ≤ x - ⌊x⌋) := by
  unfold roundEven
  split_ifs with hlow hhigh heven
  · exact .inl ⟨rfl, hlow.le⟩
  · exact .inr ⟨rfl, hhigh.le⟩
  · exact .inl ⟨rfl, not_lt.mp hhigh⟩
  · exact .inr ⟨rfl, not_lt.mp hlow⟩

/-- An integer is its own rounding, so rounding twice changes nothing. -/
@[simp] theorem roundEven_intCast (n : ℤ) : roundEven (n : ℚ) = n := by
  rw [roundEven, Int.floor_intCast, sub_self, if_pos (by norm_num)]

/-- Rounding to an integer adds at most a half. -/
theorem roundEven_le_add_half (x : ℚ) : (roundEven x : ℚ) ≤ x + 1 / 2 := by
  have hfloor := Int.floor_le x
  rcases roundEven_cases x with ⟨heq, -⟩ | ⟨heq, hhalf⟩
  · rw [heq]
    linarith only [hfloor]
  · rw [heq, Int.cast_add, Int.cast_one]
    linarith only [hhalf]

/-- Rounding to an integer is monotone, ties to even included. -/
theorem roundEven_mono {x y : ℚ} (h : x ≤ y) : roundEven x ≤ roundEven y := by
  have hfloors := Int.floor_mono h
  rcases hfloors.eq_or_lt with hsame | hlt
  · -- with one floor, the fraction decides
    unfold roundEven
    rw [hsame]
    split_ifs <;> first | omega | linarith
  · rcases roundEven_cases x with ⟨hx, -⟩ | ⟨hx, -⟩ <;>
      rcases roundEven_cases y with ⟨hy, -⟩ | ⟨hy, -⟩ <;> omega

/-- The rounding of a number below an integer is not above it. -/
theorem roundEven_le {x : ℚ} {n : ℤ} (h : x ≤ n) : roundEven x ≤ n :=
  roundEven_intCast n ▸ roundEven_mono h

/-- The rounding of a number above an integer is not below it. -/
theorem le_roundEven {x : ℚ} {n : ℤ} (h : (n : ℚ) ≤ x) : n ≤ roundEven x :=
  roundEven_intCast n ▸ roundEven_mono h

/-! ### Numbers and the infinite ones -/

/-- A rational number, or an infinity of one of the signs. -/
inductive Extended
  | finite (x : ℚ)
  | infinite (negative : Bool)
deriving DecidableEq

/-- Whether a number is at most a rational number. -/
def Extended.atMost : Extended → ℚ → Bool
  | .finite x, y => x ≤ y
  | .infinite negative, _ => negative

/-- The larger of two, the first one if neither is. -/
def Extended.max : Extended → Extended → Extended
  | .finite x, .finite y => .finite (if x < y then y else x)
  | .infinite true, y => y
  | .infinite false, _ => .infinite false
  | .finite x, .infinite negative => if negative then .finite x else .infinite false

/-! ### Formats -/

/-- A binary floating-point format, by its precision and the range of its exponents. -/
structure FloatFormat where
  /-- the number of digits of a significand -/
  precision : ℕ
  /-- the exponent of the last digit of the least numbers -/
  minExp : ℤ
  /-- what is rounded to `2 ^ maxExp` or beyond is infinite -/
  maxExp : ℤ
  precision_pos : 0 < precision
  /-- the numbers between a half and one have all their digits -/
  minExp_le : minExp ≤ -precision
  maxExp_pos : 0 < maxExp

/-- The format of double precision, that of Python's `float`. -/
def binary64 : FloatFormat := ⟨53, -1074, 1024, by decide, by decide, by decide⟩

namespace FloatFormat

variable (F : FloatFormat)

/-- A number of the format, if it is not too large: an integer of `precision` digits, or the first
    one with a digit more, times a power of two. -/
def IsFloat (x : ℚ) : Prop :=
  ∃ m e : ℤ, |m| ≤ 2 ^ F.precision ∧ F.minExp ≤ e ∧ x = m * (2 : ℚ) ^ e

/-- The exponent of the last digit that is kept of a number. -/
def unitExp (x : ℚ) : ℤ := max (Int.log 2 |x| + 1 - F.precision) F.minExp

/-- The nearest number of the format, whatever its size. -/
def rounded (x : ℚ) : ℚ := roundEven (x / (2 : ℚ) ^ F.unitExp x) * (2 : ℚ) ^ F.unitExp x

variable {F} {x y : ℚ}

theorem rounded_zero : F.rounded 0 = 0 := by
  have hzero : roundEven 0 = 0 := by simpa using roundEven_intCast 0
  rw [rounded, zero_div, hzero, Int.cast_zero, zero_mul]

/-- No number has more digits above its last one than the format keeps. -/
theorem abs_lt_unit (x : ℚ) : |x| < (2 : ℚ) ^ (F.unitExp x + F.precision) := by
  have hlog : |x| < (2 : ℚ) ^ (Int.log 2 |x| + 1) := by
    simpa using Int.lt_zpow_succ_log_self (b := 2) (by norm_num) |x|
  refine hlog.trans_le (zpow_le_zpow_right₀ (by norm_num) ?_)
  have := le_max_left (Int.log 2 |x| + 1 - F.precision) F.minExp
  rw [unitExp]
  omega

theorem zpow_unit_pos (e : ℤ) : (0 : ℚ) < 2 ^ e := zpow_pos (by norm_num) e

/-- The significand of a number of at most `2 ^ (e + precision)` fits. -/
theorem div_le_precision {e : ℤ} (h : x ≤ (2 : ℚ) ^ (e + F.precision)) :
    x / (2 : ℚ) ^ e ≤ ((2 ^ F.precision : ℤ) : ℚ) := by
  rw [div_le_iff₀ (zpow_unit_pos e)]
  rw [zpow_add₀ (by norm_num), zpow_natCast] at h
  push_cast
  linarith only [h, mul_comm ((2 : ℚ) ^ e) (2 ^ F.precision)]

/-- What has been rounded is a number of the format. -/
theorem isFloat_rounded (x : ℚ) : F.IsFloat (F.rounded x) := by
  refine ⟨_, F.unitExp x, ?_, le_max_right _ _, rfl⟩
  obtain ⟨hlow, hhigh⟩ := abs_lt.mp (abs_lt_unit (F := F) x)
  refine abs_le.mpr ⟨le_roundEven ?_, roundEven_le (div_le_precision hhigh.le)⟩
  have hneg : -x / (2 : ℚ) ^ F.unitExp x ≤ ((2 ^ F.precision : ℤ) : ℚ) :=
    div_le_precision (by linarith only [hlow])
  rw [neg_div] at hneg
  push_cast at hneg ⊢
  linarith only [hneg]

/-- What is a multiple of its last digit is its own rounding. -/
theorem rounded_of_eq_mul {n : ℤ} (h : x = n * (2 : ℚ) ^ F.unitExp x) : F.rounded x = x := by
  have hdiv : x / (2 : ℚ) ^ F.unitExp x = n := by
    rw [div_eq_iff (zpow_unit_pos _).ne']
    exact h
  rw [rounded, hdiv, roundEven_intCast]
  exact h.symm

/-- A multiple of a power of two is one of every lower power. -/
theorem exists_eq_mul_zpow (m : ℤ) {e e' : ℤ} (h : e' ≤ e) :
    ∃ n : ℤ, (m : ℚ) * (2 : ℚ) ^ e = n * (2 : ℚ) ^ e' := by
  obtain ⟨k, hk⟩ := Int.eq_ofNat_of_zero_le (sub_nonneg.mpr h)
  have hsum : e = k + e' := by
    rw [← hk]
    ring
  refine ⟨m * 2 ^ k, ?_⟩
  rw [hsum, zpow_add₀ (by norm_num), zpow_natCast]
  push_cast
  ring

/-- **The numbers of the format are their own roundings.** -/
theorem rounded_of_isFloat (h : F.IsFloat x) : F.rounded x = x := by
  obtain ⟨m, e, hm, he, rfl⟩ := h
  by_cases hzero : m = 0
  · rw [hzero, Int.cast_zero, zero_mul, rounded_zero]
  have habs : |(m : ℚ) * (2 : ℚ) ^ e| = |(m : ℚ)| * (2 : ℚ) ^ e := by
    rw [abs_mul, abs_of_pos (zpow_unit_pos e)]
  have hpos : 0 < |(m : ℚ) * (2 : ℚ) ^ e| := by
    rw [habs]
    exact mul_pos (abs_pos.mpr (Int.cast_ne_zero.mpr hzero)) (zpow_unit_pos e)
  have hcast : |(m : ℚ)| = ((|m| : ℤ) : ℚ) := (Int.cast_abs).symm
  rcases hm.lt_or_eq with hlt | heq
  · -- no digit below the exponent `e` is used
    have hlog : Int.log 2 |(m : ℚ) * (2 : ℚ) ^ e| < F.precision + e := by
      rw [← Int.lt_zpow_iff_log_lt (by norm_num) hpos, habs, hcast]
      push_cast
      rw [zpow_add₀ (by norm_num), zpow_natCast]
      refine mul_lt_mul_of_pos_right ?_ (zpow_unit_pos e)
      have := Int.cast_lt (R := ℚ).mpr hlt
      push_cast at this
      exact this
    have hunit : F.unitExp ((m : ℚ) * (2 : ℚ) ^ e) ≤ e := by
      rw [unitExp]
      exact max_le (by omega) he
    obtain ⟨n, hn⟩ := exists_eq_mul_zpow m hunit
    exact rounded_of_eq_mul hn
  · -- one more digit, but the last one is zero
    have hlog : Int.log 2 |(m : ℚ) * (2 : ℚ) ^ e| = F.precision + e := by
      rw [habs, hcast, heq]
      push_cast
      rw [← zpow_natCast, ← zpow_add₀ (by norm_num)]
      exact Int.log_zpow (R := ℚ) (b := 2) (by norm_num) _
    have hunit : F.unitExp ((m : ℚ) * (2 : ℚ) ^ e) = e + 1 := by
      rw [unitExp, hlog, max_eq_left (by omega)]
      ring
    have heven : (2 : ℤ) ∣ m := by
      rw [← dvd_abs, heq]
      exact dvd_pow_self 2 F.precision_pos.ne'
    obtain ⟨n, rfl⟩ := heven
    refine rounded_of_eq_mul (n := n) ?_
    rw [hunit, zpow_add₀ (by norm_num), zpow_one]
    push_cast
    ring

/-- Rounding keeps the sign: what is not negative is rounded to what is not negative. -/
theorem rounded_nonneg (h : 0 ≤ x) : 0 ≤ F.rounded x := by
  have hdiv : ((0 : ℤ) : ℚ) ≤ x / (2 : ℚ) ^ F.unitExp x := by
    rw [Int.cast_zero]
    exact div_nonneg h (zpow_unit_pos _).le
  exact mul_nonneg (Int.cast_nonneg (le_roundEven hdiv)) (zpow_unit_pos _).le

/-- A larger number keeps no more of the low digits. -/
theorem unitExp_mono (hpos : 0 < x) (h : x ≤ y) : F.unitExp x ≤ F.unitExp y := by
  have hlog := Int.log_mono_right (b := 2) hpos h
  rw [unitExp, unitExp, abs_of_pos hpos, abs_of_pos (hpos.trans_le h)]
  exact max_le_max (by omega) le_rfl

/-- **Rounding is monotone**, also across the powers of two, where the last digit grows. -/
theorem rounded_mono (hnonneg : 0 ≤ x) (h : x ≤ y) : F.rounded x ≤ F.rounded y := by
  rcases hnonneg.eq_or_lt with rfl | hpos
  · rw [rounded_zero]
    exact rounded_nonneg h
  have hy := hpos.trans_le h
  rcases (unitExp_mono (F := F) hpos h).eq_or_lt with hsame | hlt
  · rw [rounded, rounded, hsame]
    refine mul_le_mul_of_nonneg_right (Int.cast_le.mpr (roundEven_mono ?_)) (zpow_unit_pos _).le
    exact div_le_div_of_nonneg_right h (zpow_unit_pos _).le
  · -- a power of two lies between the two, and both roundings respect it
    have hunit : F.unitExp y = Int.log 2 y + 1 - F.precision := by
      have hmin := le_max_right (Int.log 2 |x| + 1 - F.precision) F.minExp
      rw [unitExp, unitExp, abs_of_pos hy] at hlt
      rw [unitExp, abs_of_pos hy]
      rw [max_eq_left]
      rcases le_max_iff.mp (le_refl (max (Int.log 2 y + 1 - (F.precision : ℤ)) F.minExp)) with
        hle | hle <;> omega
    have hbelow : F.rounded x ≤ (2 : ℚ) ^ (F.unitExp x + F.precision) := by
      have hx := (abs_lt.mp (abs_lt_unit (F := F) x)).2
      rw [zpow_add₀ (by norm_num), zpow_natCast, mul_comm]
      refine mul_le_mul_of_nonneg_right ?_ (zpow_unit_pos _).le
      have := Int.cast_le (R := ℚ).mpr (roundEven_le (div_le_precision hx.le))
      push_cast at this
      exact this
    have habove : (2 : ℚ) ^ Int.log 2 y ≤ F.rounded y := by
      have hlog : (2 : ℚ) ^ Int.log 2 y ≤ y := by
        simpa using Int.zpow_log_le_self (b := 2) (by norm_num) hy
      have hsplit : (2 : ℚ) ^ Int.log 2 y
          = ((2 ^ (F.precision - 1) : ℤ) : ℚ) * (2 : ℚ) ^ F.unitExp y := by
        have hpred : Int.log 2 y = ((F.precision - 1 : ℕ) : ℤ) + F.unitExp y := by
          have := F.precision_pos
          omega
        rw [hpred, zpow_add₀ (by norm_num), zpow_natCast]
        push_cast
        rfl
      rw [hsplit] at hlog ⊢
      refine mul_le_mul_of_nonneg_right (Int.cast_le.mpr (le_roundEven ?_)) (zpow_unit_pos _).le
      rw [le_div_iff₀ (zpow_unit_pos _)]
      exact hlog
    calc F.rounded x ≤ (2 : ℚ) ^ (F.unitExp x + F.precision) := hbelow
      _ ≤ (2 : ℚ) ^ Int.log 2 y := zpow_le_zpow_right₀ (by norm_num) (by omega)
      _ ≤ F.rounded y := habove

/-- A power of two is a number of the format, unless it is too small. -/
theorem isFloat_zpow {e : ℤ} (h : F.minExp ≤ e) : F.IsFloat ((2 : ℚ) ^ e) := by
  refine ⟨1, e, ?_, h, by rw [Int.cast_one, one_mul]⟩
  rw [abs_one]
  exact one_le_pow₀ (by norm_num)

/-! ### Products -/

/-- A number of the format below one keeps its distance from one. -/
theorem IsFloat.le_one_sub (h : F.IsFloat x) (hnonneg : 0 ≤ x) (hlt : x < 1) :
    x ≤ 1 - (2 : ℚ) ^ (-(F.precision : ℤ)) := by
  obtain ⟨m, e, hm, -, rfl⟩ := h
  have hprecision : (0 : ℤ) < F.precision := Int.natCast_pos.mpr F.precision_pos
  rcases le_or_gt (-(F.precision : ℤ)) e with he | he
  · -- the number is a multiple of `2 ^ -precision`, and so is one
    obtain ⟨n, hn⟩ := exists_eq_mul_zpow m he
    rw [hn] at hlt ⊢
    have hone : (2 : ℚ) ^ F.precision * (2 : ℚ) ^ (-(F.precision : ℤ)) = 1 := by
      rw [← zpow_natCast, ← zpow_add₀ (by norm_num), add_neg_cancel, zpow_zero]
    have hn_lt : (n : ℚ) < ((2 ^ F.precision : ℤ) : ℚ) := by
      push_cast
      rw [← hone] at hlt
      exact lt_of_mul_lt_mul_right hlt (zpow_unit_pos _).le
    have hn_le : (n : ℚ) ≤ (2 : ℚ) ^ F.precision - 1 := by
      have hle := Int.cast_le (R := ℚ).mpr (Int.le_sub_one_of_lt (Int.cast_lt.mp hn_lt))
      push_cast at hle
      exact hle
    calc (n : ℚ) * (2 : ℚ) ^ (-(F.precision : ℤ))
        ≤ ((2 : ℚ) ^ F.precision - 1) * (2 : ℚ) ^ (-(F.precision : ℤ)) :=
          mul_le_mul_of_nonneg_right hn_le (zpow_unit_pos _).le
      _ = 1 - (2 : ℚ) ^ (-(F.precision : ℤ)) := by rw [sub_mul, hone, one_mul]
  · -- the number is at most a half
    have hm_le : (m : ℚ) ≤ (2 : ℚ) ^ (F.precision : ℤ) := by
      have hle := Int.cast_le (R := ℚ).mpr ((le_abs_self m).trans hm)
      push_cast at hle
      exact hle
    have hhalf : (m : ℚ) * (2 : ℚ) ^ e ≤ 1 / 2 := by
      calc (m : ℚ) * (2 : ℚ) ^ e ≤ (2 : ℚ) ^ (F.precision : ℤ) * (2 : ℚ) ^ e :=
            mul_le_mul_of_nonneg_right hm_le (zpow_unit_pos e).le
        _ = (2 : ℚ) ^ ((F.precision : ℤ) + e) := (zpow_add₀ (by norm_num) _ _).symm
        _ ≤ (2 : ℚ) ^ (-1 : ℤ) := zpow_le_zpow_right₀ (by norm_num) (by omega)
        _ = 1 / 2 := by norm_num
    have hsmall : (2 : ℚ) ^ (-(F.precision : ℤ)) ≤ 1 / 2 := by
      calc (2 : ℚ) ^ (-(F.precision : ℤ)) ≤ (2 : ℚ) ^ (-1 : ℤ) :=
            zpow_le_zpow_right₀ (by norm_num) (by omega)
        _ = 1 / 2 := by norm_num
    linarith only [hhalf, hsmall]

/-- Rounding adds at most half of the last digit that is kept. -/
theorem rounded_le_add (x : ℚ) : F.rounded x ≤ x + (2 : ℚ) ^ F.unitExp x / 2 := by
  have hhalf := mul_le_mul_of_nonneg_right
    (roundEven_le_add_half (x / (2 : ℚ) ^ F.unitExp x)) (zpow_unit_pos (F.unitExp x)).le
  rw [add_mul, div_mul_cancel₀ _ (zpow_unit_pos _).ne'] at hhalf
  rw [rounded]
  linarith only [hhalf]

/-- The half of the last digit, for a number that has all its digits. -/
theorem rounded_le_mul (hnormal : (2 : ℚ) ^ (-1 : ℤ) ≤ x) :
    F.rounded x ≤ x * (1 + (2 : ℚ) ^ (-(F.precision : ℤ))) := by
  have hpos : 0 < x := (zpow_unit_pos (-1)).trans_le hnormal
  have hlog : -1 ≤ Int.log 2 x := by
    have := Int.log_mono_right (b := 2) (zpow_unit_pos (-1)) hnormal
    rwa [show ((2 : ℚ) ^ (-1 : ℤ)) = (((2 : ℕ) : ℚ)) ^ (-1 : ℤ) by norm_num,
      Int.log_zpow (by norm_num)] at this
  have hunit : F.unitExp x = Int.log 2 x + 1 - F.precision := by
    have := F.minExp_le
    rw [unitExp, abs_of_pos hpos, max_eq_left (by omega)]
  have hdigit : (2 : ℚ) ^ F.unitExp x / 2 ≤ x * (2 : ℚ) ^ (-(F.precision : ℤ)) := by
    calc (2 : ℚ) ^ F.unitExp x / 2
        = (2 : ℚ) ^ Int.log 2 x * (2 : ℚ) ^ (-(F.precision : ℤ)) := by
          rw [hunit, show Int.log 2 x + 1 - (F.precision : ℤ)
              = Int.log 2 x + -(F.precision : ℤ) + 1 by ring, zpow_add₀ (by norm_num),
            zpow_add₀ (by norm_num), zpow_one]
          ring
      _ ≤ x * (2 : ℚ) ^ (-(F.precision : ℤ)) := by
          refine mul_le_mul_of_nonneg_right ?_ (zpow_unit_pos _).le
          simpa using Int.zpow_log_le_self (b := 2) (by norm_num) hpos
  have hadd := rounded_le_add (F := F) x
  linarith only [hadd, hdigit]

/-- **A product with a number below one stays below the other factor** when it is rounded: what
    rounding adds is less than what the product takes away. -/
theorem rounded_mul_lt (hx : F.IsFloat x) (hnonneg : 0 ≤ x) (hlt : x < 1) (hy : 1 ≤ y) :
    F.rounded (x * y) < y := by
  have hhalf : F.rounded ((2 : ℚ) ^ (-1 : ℤ)) = (2 : ℚ) ^ (-1 : ℤ) := by
    refine rounded_of_isFloat (isFloat_zpow ?_)
    have := F.minExp_le
    have := F.precision_pos
    omega
  have hfactor : 0 ≤ x * y := mul_nonneg hnonneg (zero_le_one.trans hy)
  rcases le_or_gt (x * y) ((2 : ℚ) ^ (-1 : ℤ)) with hle | hgt
  · calc F.rounded (x * y) ≤ (2 : ℚ) ^ (-1 : ℤ) := hhalf ▸ rounded_mono hfactor hle
      _ < 1 := by norm_num
      _ ≤ y := hy
  · have hgap := hx.le_one_sub hnonneg hlt
    have hunit := zpow_unit_pos (-(F.precision : ℤ))
    have hypos : 0 < y := zero_lt_one.trans_le hy
    calc F.rounded (x * y) ≤ x * y * (1 + (2 : ℚ) ^ (-(F.precision : ℤ))) := rounded_le_mul hgt.le
      _ ≤ (1 - (2 : ℚ) ^ (-(F.precision : ℤ))) * y * (1 + (2 : ℚ) ^ (-(F.precision : ℤ))) := by
          have := mul_le_mul_of_nonneg_right hgap hypos.le
          exact mul_le_mul_of_nonneg_right this (by linarith only [hunit])
      _ = y - y * ((2 : ℚ) ^ (-(F.precision : ℤ)) * (2 : ℚ) ^ (-(F.precision : ℤ))) := by ring
      _ < y := by
          have := mul_pos hypos (mul_pos hunit hunit)
          linarith only [this]

/-! ### Infinite results -/

/-- The least number that is rounded to `2 ^ maxExp`: half of the last digit below it. -/
def overflow (F : FloatFormat) : ℚ :=
  (2 : ℚ) ^ F.maxExp - (2 : ℚ) ^ (F.maxExp - F.precision - 1)

/-- `2 ^ maxExp` in units of the last digit below it. -/
theorem zpow_maxExp : (2 : ℚ) ^ F.maxExp
    = (2 : ℚ) ^ F.precision * (2 : ℚ) ^ (F.maxExp - F.precision) := by
  rw [← zpow_natCast, ← zpow_add₀ (by norm_num)]
  congr 1
  ring

/-- The bound is half a unit below that. -/
theorem overflow_eq_mul :
    F.overflow = ((2 : ℚ) ^ F.precision - 1 / 2) * (2 : ℚ) ^ (F.maxExp - F.precision) := by
  rw [overflow, zpow_maxExp, zpow_sub_one₀ (by norm_num)]
  ring

theorem overflow_lt : F.overflow < (2 : ℚ) ^ F.maxExp := by
  have hpos := zpow_unit_pos (F.maxExp - F.precision - 1)
  rw [overflow]
  linarith only [hpos]

/-- The bound is among the numbers whose last digit is that of the largest ones. -/
theorem le_overflow : (2 : ℚ) ^ (F.maxExp - 1) ≤ F.overflow := by
  have hprecision := F.precision_pos
  have hhalf : (2 : ℚ) ^ (F.maxExp - F.precision - 1) ≤ (2 : ℚ) ^ (F.maxExp - 1) :=
    zpow_le_zpow_right₀ (by norm_num) (by omega)
  have htwice : (2 : ℚ) ^ F.maxExp = 2 * (2 : ℚ) ^ (F.maxExp - 1) := by
    rw [zpow_sub_one₀ (by norm_num)]
    ring
  rw [overflow]
  linarith only [hhalf, htwice]

/-- The last digit that is kept of the largest numbers. -/
theorem unitExp_top (hlow : (2 : ℚ) ^ (F.maxExp - 1) ≤ x) (hhigh : x < (2 : ℚ) ^ F.maxExp) :
    F.unitExp x = F.maxExp - F.precision := by
  have hminExp := F.minExp_le
  have hmaxExp := F.maxExp_pos
  have hpos := (zpow_unit_pos (F.maxExp - 1)).trans_le hlow
  have hge := (Int.zpow_le_iff_le_log (b := 2) (by norm_num) hpos).mp (by simpa using hlow)
  have hlt := (Int.lt_zpow_iff_log_lt (b := 2) (by norm_num) hpos).mp (by simpa using hhigh)
  rw [unitExp, abs_of_pos hpos, max_eq_left (by omega)]
  omega

/-- **The bound is rounded up**, to the even significand: that below it is odd. -/
theorem rounded_overflow : F.rounded F.overflow = (2 : ℚ) ^ F.maxExp := by
  have htie : roundEven ((2 : ℚ) ^ F.precision - 1 / 2) = 2 ^ F.precision := by
    have hfloor : ⌊(2 : ℚ) ^ F.precision - 1 / 2⌋ = 2 ^ F.precision - 1 := by
      rw [Int.floor_eq_iff]
      push_cast
      constructor <;> linarith
    have hodd : ¬ ((2 : ℤ) ^ F.precision - 1) % 2 = 0 := by
      obtain ⟨k, hk⟩ := dvd_pow_self (2 : ℤ) F.precision_pos.ne'
      omega
    have hfraction : (2 : ℚ) ^ F.precision - 1 / 2 - ((2 ^ F.precision - 1 : ℤ) : ℚ) = 1 / 2 := by
      push_cast
      ring
    rw [roundEven, hfloor, hfraction, if_neg (lt_irrefl _), if_neg (lt_irrefl _), if_neg hodd]
    ring
  rw [rounded, unitExp_top le_overflow overflow_lt, overflow_eq_mul,
    mul_div_cancel_right₀ _ (zpow_unit_pos _).ne', htie, zpow_maxExp]
  push_cast
  rfl

/-- A number below the bound is rounded to one below `2 ^ maxExp`. -/
theorem rounded_lt (hnonneg : 0 ≤ x) (hlt : x < F.overflow) :
    F.rounded x < (2 : ℚ) ^ F.maxExp := by
  have hminExp := F.minExp_le
  have hprecision := F.precision_pos
  have hmaxExp := F.maxExp_pos
  rcases le_or_gt x ((2 : ℚ) ^ (F.maxExp - 1)) with hsmall | hlarge
  · calc F.rounded x ≤ F.rounded ((2 : ℚ) ^ (F.maxExp - 1)) := rounded_mono hnonneg hsmall
      _ = (2 : ℚ) ^ (F.maxExp - 1) := rounded_of_isFloat (isFloat_zpow (by omega))
      _ < (2 : ℚ) ^ F.maxExp := zpow_lt_zpow_right₀ (by norm_num) (by omega)
  · rw [rounded, unitExp_top hlarge.le (hlt.trans overflow_lt), zpow_maxExp]
    refine mul_lt_mul_of_pos_right ?_ (zpow_unit_pos _)
    have hhalf := roundEven_le_add_half (x / (2 : ℚ) ^ (F.maxExp - F.precision))
    have hdiv : x / (2 : ℚ) ^ (F.maxExp - F.precision) < (2 : ℚ) ^ F.precision - 1 / 2 := by
      rw [div_lt_iff₀ (zpow_unit_pos _), ← overflow_eq_mul]
      exact hlt
    linarith only [hhalf, hdiv]

/-- **Where the infinite results begin**: half of the last digit below `2 ^ maxExp`. -/
theorem rounded_lt_iff (hnonneg : 0 ≤ x) : F.rounded x < (2 : ℚ) ^ F.maxExp ↔ x < F.overflow := by
  refine ⟨fun hlt => ?_, rounded_lt hnonneg⟩
  by_contra hge
  have hbound := (zpow_unit_pos (F.maxExp - 1)).le.trans le_overflow
  have hmono := rounded_mono (F := F) hbound (not_lt.mp hge)
  rw [rounded_overflow] at hmono
  exact absurd hlt (not_lt.mpr hmono)

/-- The result of an operation whose exact result is `x`. -/
def result (F : FloatFormat) (x : ℚ) : Extended :=
  if (2 : ℚ) ^ F.maxExp ≤ F.rounded x then .infinite false
  else if F.rounded x ≤ -(2 : ℚ) ^ F.maxExp then .infinite true
  else .finite (F.rounded x)

/-- An operation on a number; an infinity is left as it is. -/
def lift (F : FloatFormat) (f : ℚ → ℚ) : Extended → Extended
  | .finite x => F.result (f x)
  | .infinite negative => .infinite negative

/-- A non-negative result that is not infinite. -/
theorem result_of_lt (hnonneg : 0 ≤ x) (h : x < F.overflow) :
    F.result x = .finite (F.rounded x) := by
  have hlt := (rounded_lt_iff hnonneg).mpr h
  have hpos : -(2 : ℚ) ^ F.maxExp < F.rounded x :=
    (neg_lt_zero.mpr (zpow_unit_pos _)).trans_le (rounded_nonneg hnonneg)
  rw [result, if_neg (not_le.mpr hlt), if_neg (not_le.mpr hpos)]

end FloatFormat

end ShareCompute.Library
