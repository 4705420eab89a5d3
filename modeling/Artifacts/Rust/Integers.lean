import Mathlib.Algebra.Ring.Int.Defs
import Mathlib.Algebra.Ring.Nat
import Mathlib.Tactic.SplitIfs

/-!
# Machine integers of the clock

Times are seconds since the epoch.  Stores keep them as `i64`, spans come as `u64`
and are cast.

Lean's `Int64` and `UInt64` wrap as Rust's do in a release build; `saturatingSub` is written out,
as there is none in the library.
-/

namespace Artifacts
namespace Rust

/-- Seconds since the epoch, zero for a clock before it. -/
def nowSecs (systemTime : Int64) : Int64 := if 0 ≤ systemTime then systemTime else 0

/-- `i64::saturating_sub`. -/
def saturatingSub (a b : Int64) : Int64 :=
  let difference := a.toInt - b.toInt
  if difference < Int64.minValue.toInt then Int64.minValue
  else if Int64.maxValue.toInt < difference then Int64.maxValue
  else Int64.ofInt difference

theorem nowSecs_nonneg (systemTime : Int64) : 0 ≤ (nowSecs systemTime).toInt := by
  unfold nowSecs
  split_ifs with h
  · exact Int64.le_iff_toInt_le.mp h
  · decide

/-- The value of the cast: an age from `2 ^ 63` on turns negative. -/
theorem toInt_toInt64 (x : UInt64) :
    x.toInt64.toInt =
      if x.toNat < 2 ^ 63 then (x.toNat : Int) else (x.toNat : Int) - 2 ^ 64 := by
  have h : x.toInt64.toInt = x.toBitVec.toInt := rfl
  rw [h, BitVec.toInt_eq_toNat_cond, UInt64.toNat_toBitVec]
  split_ifs with hlow hlow' hlow'
  · rfl
  · omega
  · omega
  · rfl

/-- A span taken off the clock and compared: exact, but for the cast of the span. -/
theorem le_saturatingSub_iff {now : Int64} (hnow : 0 ≤ now.toInt) (x : Int64) (span : UInt64) :
    x ≤ saturatingSub now span.toInt64 ↔
      if span.toNat < 2 ^ 63 then x.toInt ≤ now.toInt - span.toNat
      else x.toInt ≤ now.toInt + (2 ^ 64 - span.toNat) := by
  have hmax : Int64.maxValue.toInt = 2 ^ 63 - 1 := Int64.toInt_maxValue
  have hmin : Int64.minValue.toInt = -2 ^ 63 := Int64.toInt_minValue
  have hx := x.toInt_lt
  have hx' := x.le_toInt
  have hnowlt := now.toInt_lt
  have hspan := span.toNat_lt
  have hcast := toInt_toInt64 span
  rw [Int64.le_iff_toInt_le, saturatingSub, hmin, hmax, hcast]
  split_ifs with hsmall hlow hhigh hlow hhigh
  · omega
  · omega
  · rw [Int64.toInt_ofInt_of_le (by omega) (by omega)]
  · omega
  · rw [hmax]
    omega
  · rw [Int64.toInt_ofInt_of_le (by omega) (by omega)]
    omega

end Rust
end Artifacts
