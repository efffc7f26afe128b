/-
  File:      BondTrading/Library/Numbers.lean
  Subject:   THE NUMBERS OF THE MACHINE: `long`s, which overflow, and `double`s, which round.

  Names nothing of the modelled program.

  * `IsLong`, `LongArithmetic` -- a machine's sums in `long`s: right as long as they are in range, and
    some `long` in any case (what happens beyond the range is left to the machine; `wrapLong` is the
    usual way);
  * `Double` -- a floating-point number with 53 binary digits and a sign, which zero has too; the range
    of its exponent is not limited;
  * `Formula` -- a computation with such numbers, as it is written: its `exact` result, and the
    `value` that comes out if every step is rounded;
  * `Formula.abs_value_sub_exact_le` -- how far the two are apart.
-/
import Mathlib.Data.Int.Log
import Mathlib.Data.Rat.Floor
import Mathlib.Tactic.Ring
import Mathlib.Tactic.Linarith
import Mathlib.Tactic.Positivity

namespace Cxx

/-! ## 1. Longs -/

/-- The value is one of a `long`. -/
def IsLong (n : ℤ) : Prop := -9223372036854775808 ≤ n ∧ n ≤ 9223372036854775807

instance (n : ℤ) : Decidable (IsLong n) := by
  unfold IsLong
  infer_instance

theorem isLong_of_abs {n : ℤ} (h : |n| ≤ 9223372036854775807) : IsLong n := by
  obtain ⟨hlo, hhi⟩ := abs_le.mp h
  exact ⟨by omega, hhi⟩

/-- **An arithmetic of `long`s**, given by what it makes of the exact result of an operation. -/
structure LongArithmetic (long : ℤ → ℤ) : Prop where
  isLong : ∀ n, IsLong (long n)
  exact : ∀ n, IsLong n → long n = n

/-- Two's complement. -/
def wrapLong (n : ℤ) : ℤ := n.bmod 18446744073709551616

theorem wrapLong_arithmetic : LongArithmetic wrapLong where
  isLong n := by
    have hlo : -((18446744073709551616 : ℕ) : ℤ) / 2 ≤ wrapLong n := Int.le_bmod (by decide)
    have hhi : wrapLong n < (((18446744073709551616 : ℕ) : ℤ) + 1) / 2 := Int.bmod_lt (by decide)
    exact ⟨by omega, by omega⟩
  exact n h := by
    obtain ⟨hlo, hhi⟩ := h
    exact Int.bmod_eq_of_le (by omega) (by omega)

/-! ## 2. Rounding -/

/-- To the nearest whole number, from the middle to the even one. -/
def roundEven (q : ℚ) : ℤ :=
  let rest := q - ⌊q⌋
  if rest < 1 / 2 then ⌊q⌋
  else if 1 / 2 < rest then ⌊q⌋ + 1
  else if ⌊q⌋ % 2 = 0 then ⌊q⌋ else ⌊q⌋ + 1

theorem abs_roundEven_sub_le (q : ℚ) : |(roundEven q : ℚ) - q| ≤ 1 / 2 := by
  have hlo : (⌊q⌋ : ℚ) ≤ q := Int.floor_le q
  have hhi : q < ⌊q⌋ + 1 := Int.lt_floor_add_one q
  unfold roundEven
  simp only
  rw [abs_le]
  split_ifs with hdown hup heven
  · exact ⟨by linarith, by linarith⟩
  · push_cast
    exact ⟨by linarith, by linarith⟩
  · exact ⟨by linarith, by linarith⟩
  · push_cast
    exact ⟨by linarith, by linarith⟩

/-- To the nearest number with 53 binary digits, from the middle to the one whose last digit is 0. -/
def roundBinary (q : ℚ) : ℚ :=
  if q = 0 then 0
  else
    let unit := (2 : ℚ) ^ (Int.log 2 |q| - 52)
    roundEven (q / unit) * unit

/-- How much of a number one rounding takes or adds at most. -/
def roundoff : ℚ := 1 / 9007199254740992

theorem roundoff_pos : 0 < roundoff := by
  unfold roundoff
  norm_num

theorem abs_roundBinary_sub_le (q : ℚ) : |roundBinary q - q| ≤ roundoff * |q| := by
  unfold roundBinary
  by_cases hq : q = 0
  · simp [hq]
  · simp only [if_neg hq]
    have hunit : (0 : ℚ) < 2 ^ (Int.log 2 |q| - 52) := zpow_pos (by norm_num) _
    have hsplit : (roundEven (q / 2 ^ (Int.log 2 |q| - 52)) : ℚ) * 2 ^ (Int.log 2 |q| - 52) - q =
        (roundEven (q / 2 ^ (Int.log 2 |q| - 52)) - q / 2 ^ (Int.log 2 |q| - 52)) *
          2 ^ (Int.log 2 |q| - 52) := by
      rw [sub_mul, div_mul_cancel₀ _ hunit.ne']
    have hlog : ((2 : ℕ) : ℚ) ^ Int.log 2 |q| ≤ |q| :=
      Int.zpow_log_le_self (by decide) (abs_pos.mpr hq)
    have hlast : (2 : ℚ) ^ (Int.log 2 |q| - 52) = 2 * roundoff * 2 ^ Int.log 2 |q| := by
      rw [zpow_sub₀ (by decide), roundoff]
      norm_num
      ring
    rw [hsplit, abs_mul, abs_of_pos hunit]
    calc |(roundEven (q / 2 ^ (Int.log 2 |q| - 52)) : ℚ) - q / 2 ^ (Int.log 2 |q| - 52)| *
          2 ^ (Int.log 2 |q| - 52)
        ≤ 1 / 2 * 2 ^ (Int.log 2 |q| - 52) :=
          mul_le_mul_of_nonneg_right (abs_roundEven_sub_le _) hunit.le
      _ = roundoff * 2 ^ Int.log 2 |q| := by rw [hlast]; ring
      _ ≤ roundoff * |q| := by
          refine mul_le_mul_of_nonneg_left ?_ roundoff_pos.le
          exact_mod_cast hlog

/-- Rounding keeps the sign. -/
theorem roundBinary_neg_iff (q : ℚ) : roundBinary q < 0 ↔ q < 0 := by
  have h := abs_le.mp (abs_roundBinary_sub_le q)
  have hsmall : roundoff < 1 := by
    unfold roundoff
    norm_num
  rcases lt_or_ge q 0 with hq | hq
  · rw [abs_of_neg hq] at h
    refine iff_of_true ?_ hq
    nlinarith
  · rw [abs_of_nonneg hq] at h
    refine iff_of_false (not_lt.mpr ?_) (not_lt.mpr hq)
    nlinarith

theorem roundBinary_zero : roundBinary 0 = 0 := if_pos rfl

/-! ## 3. Doubles -/

/-- A floating-point number; the sign is that of the value, and zero has one, too. -/
structure Double where
  value : ℚ
  minus : Bool
  sign : value ≠ 0 → (minus = true ↔ value < 0)

namespace Double

/-- A number as a floating-point number. -/
def ofRat (q : ℚ) : Double where
  value := roundBinary q
  minus := decide (q < 0)
  sign _ := by rw [decide_eq_true_iff, roundBinary_neg_iff]

/-- A sum; if nothing is left it is negative only if both are. -/
def add (x y : Double) : Double :=
  if x.value + y.value = 0 then ⟨0, x.minus && y.minus, fun h => absurd rfl h⟩
  else ofRat (x.value + y.value)

/-- A product; its sign is that of the factors, also of zero. -/
def mul (x y : Double) : Double where
  value := roundBinary (x.value * y.value)
  minus := x.minus ^^ y.minus
  sign h := by
    have hne : x.value * y.value ≠ 0 := fun hzero => h (by rw [hzero, roundBinary_zero])
    have hminus : ∀ z : Double, z.value ≠ 0 → z.minus = decide (z.value < 0) := fun z hz =>
      Bool.eq_iff_iff.mpr ((z.sign hz).trans decide_eq_true_iff.symm)
    have hx := left_ne_zero_of_mul hne
    have hy := right_ne_zero_of_mul hne
    rw [roundBinary_neg_iff, hminus x hx, hminus y hy]
    rcases lt_or_gt_of_ne hx with hx | hx
    · rcases lt_or_gt_of_ne hy with hy | hy
      · exact iff_of_false (by simp [hx, hy]) (mul_pos_of_neg_of_neg hx hy).not_gt
      · exact iff_of_true (by simp [hx, hy.le]) (mul_neg_of_neg_of_pos hx hy)
    · rcases lt_or_gt_of_ne hy with hy | hy
      · exact iff_of_true (by simp [hx.le, hy]) (mul_neg_of_pos_of_neg hx hy)
      · exact iff_of_false (by simp [hx.not_gt, hy.not_gt]) (mul_pos hx hy).not_gt

theorem value_add (x y : Double) : (x.add y).value = roundBinary (x.value + y.value) := by
  unfold add
  split_ifs with h
  · rw [h, roundBinary_zero]
  · rfl

end Double

/-! ## 4. Formulas -/

/-- A computation in `double`s, as it is written: constants, `long`s that are converted, sums and
    products. -/
inductive Formula where
  | literal (q : ℚ)
  | long (n : ℤ)
  | add (x y : Formula)
  | mul (x y : Formula)
  deriving DecidableEq, Repr

namespace Formula

/-- The result without any rounding. -/
def exact : Formula → ℚ
  | literal q => q
  | long n => n
  | add x y => x.exact + y.exact
  | mul x y => x.exact * y.exact

/-- The result if every constant, every conversion and every operation is rounded. -/
def value : Formula → Double
  | literal q => .ofRat q
  | long n => .ofRat n
  | add x y => x.value.add y.value
  | mul x y => x.value.mul y.value

/-- The roundings that may add up on the way to the result. -/
def steps : Formula → Nat
  | literal _ | long _ => 1
  | add x y => max x.steps y.steps + 1
  | mul x y => x.steps + y.steps + 1

/-- The result if nothing cancels out. -/
def size : Formula → ℚ
  | literal q => |q|
  | long n => |(n : ℚ)|
  | add x y => x.size + y.size
  | mul x y => x.size * y.size

theorem abs_exact_le (f : Formula) : |f.exact| ≤ f.size := by
  induction f with
  | literal q => exact le_refl _
  | long n => exact le_refl _
  | add x y ihx ihy => exact (abs_add_le _ _).trans (add_le_add ihx ihy)
  | mul x y ihx ihy =>
      rw [exact, abs_mul]
      exact mul_le_mul ihx ihy (abs_nonneg _) ((abs_nonneg _).trans ihx)

/-- One rounding more. -/
theorem abs_round_sub_le {a b s : ℚ} {k : Nat} (hb : |b| ≤ s)
    (h : |a - b| ≤ ((1 + roundoff) ^ k - 1) * s) :
    |roundBinary a - b| ≤ ((1 + roundoff) ^ (k + 1) - 1) * s := by
  have hpos := roundoff_pos.le
  have ha : |a| ≤ |a - b| + |b| := by
    have := abs_add_le (a - b) b
    rwa [sub_add_cancel] at this
  calc |roundBinary a - b|
      ≤ |roundBinary a - a| + |a - b| := abs_sub_le _ _ _
    _ ≤ roundoff * |a| + |a - b| := add_le_add_left (abs_roundBinary_sub_le a) _
    _ ≤ roundoff * (|a - b| + |b|) + |a - b| :=
        add_le_add_left (mul_le_mul_of_nonneg_left ha hpos) _
    _ = (1 + roundoff) * |a - b| + roundoff * |b| := by ring
    _ ≤ (1 + roundoff) * (((1 + roundoff) ^ k - 1) * s) + roundoff * s :=
        add_le_add (mul_le_mul_of_nonneg_left h (by linarith)) (mul_le_mul_of_nonneg_left hb hpos)
    _ = ((1 + roundoff) ^ (k + 1) - 1) * s := by ring

/-- **How far rounding may lead away** from the exact result. -/
theorem abs_value_sub_exact_le (f : Formula) :
    |f.value.value - f.exact| ≤ ((1 + roundoff) ^ f.steps - 1) * f.size := by
  have hone : (1 : ℚ) ≤ 1 + roundoff := le_add_of_nonneg_right roundoff_pos.le
  have hsize : ∀ f : Formula, 0 ≤ f.size := fun f => (abs_nonneg _).trans f.abs_exact_le
  have hmono : ∀ {j k : Nat}, j ≤ k → (1 + roundoff) ^ j ≤ (1 + roundoff) ^ k := fun h =>
    pow_le_pow_right₀ hone h
  induction f with
  | literal q => exact abs_round_sub_le (k := 0) (le_refl _) (by simp [exact])
  | long n => exact abs_round_sub_le (k := 0) (le_refl _) (by simp [exact])
  | add x y ihx ihy =>
      show |(x.value.add y.value).value - _| ≤ _
      rw [Double.value_add]
      refine abs_round_sub_le (abs_exact_le (add x y)) ?_
      calc |x.value.value + y.value.value - (x.exact + y.exact)|
          ≤ |x.value.value - x.exact| + |y.value.value - y.exact| := by
            rw [add_sub_add_comm]
            exact abs_add_le _ _
        _ ≤ ((1 + roundoff) ^ max x.steps y.steps - 1) * x.size +
              ((1 + roundoff) ^ max x.steps y.steps - 1) * y.size := by
            refine add_le_add (ihx.trans ?_) (ihy.trans ?_)
            · exact mul_le_mul_of_nonneg_right (by linarith [hmono (le_max_left x.steps y.steps)])
                (hsize x)
            · exact mul_le_mul_of_nonneg_right (by linarith [hmono (le_max_right x.steps y.steps)])
                (hsize y)
        _ = ((1 + roundoff) ^ max x.steps y.steps - 1) * (x.size + y.size) := by ring
  | mul x y ihx ihy =>
      refine abs_round_sub_le (abs_exact_le (mul x y)) ?_
      have hx := x.abs_exact_le
      have hy := y.abs_exact_le
      calc |x.value.value * y.value.value - x.exact * y.exact|
          = |(x.value.value - x.exact) * (y.value.value - y.exact) +
              ((x.value.value - x.exact) * y.exact + x.exact * (y.value.value - y.exact))| := by
            congr 1
            ring
        _ ≤ |x.value.value - x.exact| * |y.value.value - y.exact| +
              (|x.value.value - x.exact| * |y.exact| + |x.exact| * |y.value.value - y.exact|) := by
            rw [← abs_mul, ← abs_mul, ← abs_mul]
            exact (abs_add_le _ _).trans (add_le_add_right (abs_add_le _ _) _)
        _ ≤ ((1 + roundoff) ^ x.steps - 1) * x.size * (((1 + roundoff) ^ y.steps - 1) * y.size) +
              (((1 + roundoff) ^ x.steps - 1) * x.size * y.size +
                x.size * (((1 + roundoff) ^ y.steps - 1) * y.size)) := by
            gcongr
            · exact (abs_nonneg _).trans ihx
            · exact (abs_nonneg _).trans ihx
            · exact hsize x
        _ = ((1 + roundoff) ^ (x.steps + y.steps) - 1) * (x.size * y.size) := by
            rw [pow_add]
            ring

end Formula

end Cxx
