import Mathlib.Tactic.Ring
import Mathlib.Algebra.Order.Ring.Int

/-!
# Int64 — 64-bit two's-complement arithmetic on `ℤ`

Machine integers are kept as `ℤ`; `wrap x` is the value a 64-bit signed register holds after computing the exact
result `x`, and `InRange x` says that nothing was lost.  `stamp n` is the value of a 64-bit counter that started at
`0` and was incremented `n` times; two stamps taken fewer than `2 ^ 64` increments apart are equal only if no
increment happened in between (`stamp_inj`).
-/

namespace Int64Arith

def maxInt64 : ℤ := 2 ^ 63 - 1

def minInt64 : ℤ := -2 ^ 63

/-- `x` is representable as a 64-bit signed integer. -/
def InRange (x : ℤ) : Prop := minInt64 ≤ x ∧ x ≤ maxInt64

instance (x : ℤ) : Decidable (InRange x) := inferInstanceAs (Decidable (_ ∧ _))

/-- The 64-bit signed integer congruent to `x`. -/
def wrap (x : ℤ) : ℤ := (x + 2 ^ 63) % 2 ^ 64 - 2 ^ 63

theorem wrap_of_inRange {x : ℤ} (h : InRange x) : wrap x = x := by
  obtain ⟨h1, h2⟩ := h
  unfold minInt64 at h1
  unfold maxInt64 at h2
  unfold wrap
  omega

theorem inRange_wrap (x : ℤ) : InRange (wrap x) := by
  unfold InRange wrap minInt64 maxInt64
  omega

theorem wrap_wrap_add (x y : ℤ) : wrap (wrap x + y) = wrap (x + y) := by
  unfold wrap
  omega

theorem wrap_wrap_sub (x y : ℤ) : wrap (wrap x - y) = wrap (x - y) := by
  unfold wrap
  omega

/-! ## Counters -/

/-- A 64-bit counter after `n` increments from `0`. -/
def stamp (n : ℕ) : ℤ := wrap n

theorem inRange_stamp (n : ℕ) : InRange (stamp n) := inRange_wrap n

theorem stamp_succ (n : ℕ) : stamp (n + 1) = wrap (stamp n + 1) := by
  unfold stamp
  rw [wrap_wrap_add]
  push_cast
  rfl

theorem stamp_of_lt {n : ℕ} (h : n < 2 ^ 63) : stamp n = n := by
  apply wrap_of_inRange
  unfold InRange minInt64 maxInt64
  omega

theorem stamp_add_pow (n : ℕ) : stamp (n + 2 ^ 64) = stamp n := by
  unfold stamp wrap
  push_cast
  omega

/-- **No wrap-around.**  Equal stamps fewer than `2 ^ 64` increments apart are the same moment. -/
theorem stamp_inj {m n : ℕ} (hmn : m ≤ n) (hlt : n < m + 2 ^ 64) (h : stamp m = stamp n) : m = n := by
  unfold stamp wrap at h
  omega

end Int64Arith
