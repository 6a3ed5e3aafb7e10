import Mathlib.Algebra.Order.Floor.Ring
import Mathlib.Algebra.Order.Field.Basic
import Mathlib.Tactic.Ring
import Mathlib.Tactic.Linarith

/-!
# Rounding to a grid

`Grid.down step x` is the largest multiple of `step` that is at most `x`, in any linearly ordered
field with a floor. Lots and ticks of an exchange are such grids. `Grid.nearest step x` is the
multiple of `step` nearest to `x`; of two of them it is the even one, as in decimal rounding.
-/

namespace Lib

variable {K : Type*} [Field K] [LinearOrder K] [IsStrictOrderedRing K] [FloorRing K]

/-- The multiple of `step` at or below `x`. -/
def Grid.down (step x : K) : K := ⌊x / step⌋ * step

namespace Grid

variable {step x y : K}

theorem down_le (hs : 0 < step) : down step x ≤ x := by
  have := mul_le_mul_of_nonneg_right (Int.floor_le (x / step)) hs.le
  rwa [div_mul_cancel₀ _ hs.ne'] at this

theorem lt_down_add (hs : 0 < step) : x < down step x + step := by
  have := mul_lt_mul_of_pos_right (Int.lt_floor_add_one (x / step)) hs
  rwa [div_mul_cancel₀ _ hs.ne', add_mul, one_mul] at this

theorem down_nonneg (hs : 0 < step) (hx : 0 ≤ x) : 0 ≤ down step x :=
  mul_nonneg (Int.cast_nonneg (Int.floor_nonneg.2 (div_nonneg hx hs.le))) hs.le

/-- A multiple of the step is its own rounding. -/
theorem down_mul (hs : 0 < step) (n : ℤ) : down step (n * step) = n * step := by
  rw [down, mul_div_assoc, div_self hs.ne', mul_one, Int.floor_intCast]

/-- No multiple of the step lies between. -/
theorem mul_le_down (hs : 0 < step) {n : ℤ} (h : n * step ≤ x) : n * step ≤ down step x := by
  have hn : (n : K) ≤ x / step := (le_div_iff₀ hs).2 h
  exact mul_le_mul_of_nonneg_right (Int.cast_le.2 (Int.le_floor.2 hn)) hs.le

theorem down_down (hs : 0 < step) : down step (down step x) = down step x :=
  down_mul hs ⌊x / step⌋

end Grid

/-- The integer nearest to `x`; of two of them the even one. -/
def roundHalfEven (x : K) : ℤ :=
  let n := ⌊x⌋
  if x - n < 1 / 2 then n else if 1 / 2 < x - n then n + 1 else if n % 2 = 0 then n else n + 1

theorem abs_roundHalfEven_sub_le (x : K) : |(roundHalfEven x : K) - x| ≤ 1 / 2 := by
  have hlow : (⌊x⌋ : K) ≤ x := Int.floor_le x
  have hhigh : x < ⌊x⌋ + 1 := Int.lt_floor_add_one x
  unfold roundHalfEven
  dsimp only
  rw [abs_le]
  split
  · next hlt => constructor <;> linarith
  · next hge =>
    split
    · next hgt =>
      rw [Int.cast_add, Int.cast_one]
      constructor <;> linarith
    · next hle =>
      split
      · constructor <;> linarith
      · rw [Int.cast_add, Int.cast_one]
        constructor <;> linarith

theorem roundHalfEven_intCast (n : ℤ) : roundHalfEven (n : K) = n := by
  unfold roundHalfEven
  dsimp only
  rw [Int.floor_intCast, sub_self, if_pos (by norm_num)]

/-- The multiple of `step` nearest to `x`. -/
def Grid.nearest (step x : K) : K := roundHalfEven (x / step) * step

namespace Grid

variable {step x : K}

theorem nearest_mul (hs : 0 < step) (n : ℤ) : nearest step (n * step) = n * step := by
  rw [nearest, mul_div_assoc, div_self hs.ne', mul_one, roundHalfEven_intCast]

theorem abs_nearest_sub_le (hs : 0 < step) : |nearest step x - x| ≤ step / 2 := by
  have hx : nearest step x - x = (roundHalfEven (x / step) - x / step) * step := by
    rw [nearest, sub_mul, div_mul_cancel₀ _ hs.ne']
  rw [hx, abs_mul, abs_of_pos hs]
  calc |(roundHalfEven (x / step) : K) - x / step| * step
      ≤ 1 / 2 * step := mul_le_mul_of_nonneg_right (abs_roundHalfEven_sub_le _) hs.le
    _ = step / 2 := by ring

end Grid
end Lib
