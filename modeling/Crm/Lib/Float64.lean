import Mathlib.Data.Int.Log
import Mathlib.Data.Rat.Floor
import Mathlib.Tactic.FieldSimp
import Crm.Lib.Int64

/-!
# Float64 — binary64 values as rationals

The finite values of a 64-bit float are kept as the rationals they denote.  `round q` is the value a correctly rounded
conversion of the exact number `q` gives (53-bit significand, exponents down to `-1074`, ties to even), `ofRat` the same with
overflow reported as `none`, and `toInt64` is the truncating conversion to a 64-bit integer.  Integers with at most
53 significant bits pass through both unchanged (`ofRat_intCast`, `toInt64_intCast`).
-/

namespace Float64

open Int64Arith

/-- The integer nearest to `q`, the even one of two. -/
def roundEven (q : ℚ) : ℤ :=
  let f := ⌊q⌋
  if q - f < 1 / 2 then f
  else if 1 / 2 < q - f then f + 1
  else if f % 2 = 0 then f else f + 1

/-- The exponent of the last place of the significand of `q`. -/
def ulpExp (q : ℚ) : ℤ := max (Int.log 2 |q| - 52) (-1074)

def round (q : ℚ) : ℚ := roundEven (q / 2 ^ ulpExp q) * 2 ^ ulpExp q

/-- The conversion of an exact number, `none` when it is out of range. -/
def ofRat (q : ℚ) : Option ℚ := if |round q| < 2 ^ 1024 then some (round q) else none

/-- Drop the fraction; a value out of range becomes the smallest integer. -/
def toInt64 (x : ℚ) : ℤ :=
  let t := if 0 ≤ x then ⌊x⌋ else ⌈x⌉
  if InRange t then t else minInt64

/-- `n` has at most 53 significant bits. -/
def Exact (n : ℤ) : Prop := ∃ m : ℤ, ∃ e : ℕ, n = m * 2 ^ e ∧ |m| < 2 ^ 53

variable {n : ℤ}

theorem exact_of_abs_lt (h : |n| < 2 ^ 53) : Exact n := ⟨n, 0, by simp, h⟩

theorem roundEven_intCast (n : ℤ) : roundEven n = n := by
  simp [roundEven]

theorem ulpExp_intCast (hn : n ≠ 0) : ulpExp n = Int.log 2 |(n : ℚ)| - 52 := by
  have h1 : (1 : ℚ) ≤ |(n : ℚ)| := by
    have := Int.one_le_abs hn
    exact_mod_cast this
  have h0 : 0 ≤ Int.log 2 |(n : ℚ)| := by
    rw [← Int.zpow_le_iff_le_log (by decide) (by linarith)]
    simpa using h1
  unfold ulpExp
  omega

/-- Scaled to its last place, an exact integer is an integer. -/
theorem exact_div_ulp (h : Exact n) : ∃ k : ℤ, (n : ℚ) / 2 ^ ulpExp n = k := by
  by_cases hn : n = 0
  · exact ⟨0, by simp [hn]⟩
  obtain ⟨m, e, hm, hlt⟩ := h
  rw [ulpExp_intCast hn]
  have habs : (0 : ℚ) < |(n : ℚ)| := by
    rw [abs_pos]
    exact_mod_cast hn
  -- the leading bit of `n` is below bit `e + 53`
  have hlog : Int.log 2 |(n : ℚ)| - 52 ≤ e := by
    have hlt' : |(n : ℚ)| < 2 ^ ((e : ℤ) + 53) := by
      have : |n| < 2 ^ 53 * 2 ^ e := by
        rw [hm, abs_mul, abs_of_nonneg (by positivity : (0 : ℤ) ≤ 2 ^ e)]
        exact mul_lt_mul_of_pos_right hlt (by positivity)
      have h2 : ((2 : ℚ) ^ ((e : ℤ) + 53)) = ((2 ^ 53 * 2 ^ e : ℤ) : ℚ) := by
        rw [zpow_add₀ (by norm_num), zpow_natCast]
        push_cast
        ring
      rw [h2]
      exact_mod_cast this
    have := (Int.lt_zpow_iff_log_lt (b := 2) (by decide) habs).mp hlt'
    omega
  obtain ⟨d, hd⟩ : ∃ d : ℕ, (e : ℤ) - (Int.log 2 |(n : ℚ)| - 52) = d := ⟨_, (Int.toNat_of_nonneg (by omega)).symm⟩
  refine ⟨m * 2 ^ d, ?_⟩
  have hpow : ((2 : ℚ) ^ (e : ℤ)) = 2 ^ (Int.log 2 |(n : ℚ)| - 52) * 2 ^ (d : ℤ) := by
    rw [← zpow_add₀ (by norm_num), ← hd]
    congr 1
    omega
  rw [div_eq_iff (zpow_ne_zero _ (by norm_num))]
  push_cast
  calc (n : ℚ) = m * 2 ^ (e : ℤ) := by rw [hm]; push_cast; rw [zpow_natCast]
    _ = m * 2 ^ d * 2 ^ (Int.log 2 |(n : ℚ)| - 52) := by rw [hpow, zpow_natCast]; ring

/-- **Exact integers are not rounded.** -/
theorem round_intCast (h : Exact n) : round n = n := by
  obtain ⟨k, hk⟩ := exact_div_ulp h
  unfold round
  rw [hk, roundEven_intCast, ← hk, div_mul_cancel₀ _ (zpow_ne_zero _ (by norm_num))]

theorem ofRat_intCast (h : Exact n) (hr : InRange n) : ofRat n = some (n : ℚ) := by
  have hlt : |(n : ℚ)| < 2 ^ 1024 := by
    obtain ⟨h1, h2⟩ := hr
    have h3 : |n| ≤ 2 ^ 63 := by
      unfold minInt64 at h1
      unfold maxInt64 at h2
      rw [abs_le]
      omega
    calc |(n : ℚ)| ≤ 2 ^ 63 := by exact_mod_cast h3
      _ < 2 ^ 1024 := pow_lt_pow_right₀ (by norm_num) (by norm_num)
  rw [ofRat, round_intCast h, if_pos hlt]

theorem toInt64_intCast (hr : InRange n) : toInt64 n = n := by
  simp [toInt64, hr]

end Float64
