import Mathlib.Algebra.Order.Ring.Int
import Mathlib.Data.Nat.Log
import Mathlib.Tactic.NormNum
import Mathlib.Tactic.Positivity
import Mathlib.Tactic.Ring

/-!
# Integral double-precision numbers

Correct rounding (to nearest, ties to even) of integers to a 53-bit
significand, with an unbounded exponent; a value that would need an exponent
beyond the double range is recognised by its size (`overflows`).

Only integers occur, so the exponent is never negative and nothing is said of
fractions, of signed zeros or of what is not a number. A number with at most 53
significant bits is its own rounding; for a larger one the bits below the
significand are dropped or rounded up.

The two facts a range check rests on are that small integers are exact
(`roundInt_of_natAbs_lt`) and that rounding never brings a number that is out
of the exact range back into it (`le_roundInt`).

## Results

* `roundNat_of_lt`, `roundInt_of_natAbs_lt` — less than `2 ^ 53` is exact.
* `le_roundNat`, `le_roundInt`, `roundInt_le_neg` — what is beyond stays beyond.
* `roundInt_neg` — a negative number stays negative.
* `not_overflows_of_lt` — small numbers are finite.
-/

namespace Double

/-- Significand width. -/
def precision : Nat := 53

/-- Finite doubles stay below `2 ^ maxExponent`. -/
def maxExponent : Nat := 1024

/-- Correct rounding of a natural number to a 53-bit significand. -/
def roundNat (n : Nat) : Nat :=
  let e := Nat.log2 n - 52
  let q := n / 2 ^ e
  let r := n % 2 ^ e
  if 2 * r < 2 ^ e ∨ (2 * r = 2 ^ e ∧ q % 2 = 0) then q * 2 ^ e else (q + 1) * 2 ^ e

/-- Correct rounding of an integer; the sign is kept. -/
def roundInt (z : Int) : Int :=
  if 0 ≤ z then roundNat z.toNat else -(roundNat (-z).toNat)

/-- Past the largest finite double, the rounded value is an infinity. -/
def overflows (n : Nat) : Prop := 2 ^ maxExponent ≤ roundNat n

instance (n : Nat) : Decidable (overflows n) := inferInstanceAs (Decidable (_ ≤ _))

/-- Below `2 ^ 53` every natural number is a double. -/
theorem roundNat_of_lt {n : Nat} (h : n < 2 ^ precision) : roundNat n = n := by
  have hLog : Nat.log2 n - 52 = 0 := by
    rcases Nat.eq_zero_or_pos n with rfl | hpos
    · rfl
    · have := (Nat.log2_lt (by omega)).mpr h
      unfold precision at this
      omega
  unfold roundNat
  simp [hLog, Nat.mod_one]

/-- Rounding does not lead back below `2 ^ 53`. -/
theorem le_roundNat {n : Nat} (h : 2 ^ precision ≤ n) : 2 ^ precision ≤ roundNat n := by
  have hn : n ≠ 0 := by
    rintro rfl
    simp [precision] at h
  have hLog : precision ≤ Nat.log2 n := (Nat.le_log2 hn).mpr h
  have hSelf : 2 ^ Nat.log2 n ≤ n := Nat.log2_self_le hn
  -- the bits that rounding drops
  set e := Nat.log2 n - 52 with he
  have hSplit : Nat.log2 n = 52 + e := by
    unfold precision at hLog
    omega
  -- the significand has its leading bit
  have hQ : 2 ^ 52 ≤ n / 2 ^ e := by
    rw [Nat.le_div_iff_mul_le (by positivity), ← pow_add, ← hSplit]
    exact hSelf
  have hBase : 2 ^ precision ≤ n / 2 ^ e * 2 ^ e := by
    calc 2 ^ precision ≤ 2 ^ Nat.log2 n := Nat.pow_le_pow_right (by norm_num) hLog
      _ = 2 ^ 52 * 2 ^ e := by rw [hSplit, pow_add]
      _ ≤ n / 2 ^ e * 2 ^ e := Nat.mul_le_mul_right _ hQ
  -- rounding up is only larger
  have hNext : n / 2 ^ e * 2 ^ e ≤ (n / 2 ^ e + 1) * 2 ^ e :=
    Nat.mul_le_mul_right _ (Nat.le_succ _)
  unfold roundNat
  rw [← he]
  dsimp only
  split
  · exact hBase
  · exact hBase.trans hNext

/-- A number that is exact is finite. -/
theorem not_overflows_of_lt {n : Nat} (h : n < 2 ^ precision) : ¬ overflows n := by
  unfold overflows
  rw [roundNat_of_lt h, not_le]
  exact h.trans (Nat.pow_lt_pow_right (by norm_num) (by decide))

/-- Integers of less than 53 bits are exact. -/
theorem roundInt_of_natAbs_lt {z : Int} (h : z.natAbs < 2 ^ precision) : roundInt z = z := by
  unfold roundInt
  split
  · rw [roundNat_of_lt (by omega)]
    omega
  · rw [roundNat_of_lt (by omega)]
    omega

/-- Rounding does not lead back below `2 ^ 53`. -/
theorem le_roundInt {z : Int} (h : 2 ^ precision ≤ z) : 2 ^ precision ≤ roundInt z := by
  have hpos : (0 : Int) ≤ z := le_trans (by positivity) h
  obtain ⟨n, rfl⟩ := Int.eq_ofNat_of_zero_le hpos
  unfold roundInt
  rw [if_pos hpos, Int.toNat_natCast]
  exact_mod_cast le_roundNat (by exact_mod_cast h)

/-- Nor, for negative numbers, back above `-2 ^ 53`. -/
theorem roundInt_le_neg {z : Int} (h : z ≤ -(2 ^ precision)) :
    roundInt z ≤ -(2 ^ precision) := by
  have hpos : (0 : Int) < 2 ^ precision := by positivity
  have hNat : 2 ^ precision ≤ (-z).toNat := by
    apply Int.le_toNat (by omega) |>.mpr
    push_cast
    omega
  unfold roundInt
  rw [if_neg (by omega), neg_le_neg_iff]
  have hNat' := le_roundNat hNat
  exact_mod_cast hNat'

/-- Rounding does not take a negative number up to zero. -/
theorem roundInt_neg {z : Int} (h : z < 0) : roundInt z < 0 := by
  unfold roundInt
  rw [if_neg (by omega)]
  have hpos : 0 < roundNat (-z).toNat := by
    by_cases hlt : (-z).toNat < 2 ^ precision
    · rw [roundNat_of_lt hlt]
      omega
    · exact lt_of_lt_of_le (by positivity) (le_roundNat (by omega))
  omega

end Double
