import Mathlib.Data.Nat.Log

/-!
# Retrying before a deadline

Somebody who has `r` ticks left before a deadline waits for the smaller of a
fixed interval `q` and half of the time left, tries again, which takes at least
one tick, and starts over. As long as half of the time left is more than the
interval the waits are equally long; after that each try halves what is left.

The number of tries is therefore linear in the time left at first and logarithmic
at the end, and `tries` is that count: a measure that a try lowers by one, however
long the try takes (`tries_step`). Ticks are natural numbers, so nothing is tried
once none is left.

## Results

* `tries_le` — a bound in closed form.
* `tries_mono` — less time leaves no more tries.
* `tries_step` — one try uses up one of the tries that are left.
-/

namespace Backoff

/-- The wait before the next try. -/
def wait (q r : Nat) : Nat := min q (r / 2)

/-- How many tries fit into `r` ticks. -/
def tries (q r : Nat) : Nat :=
  if r < 2 * q then Nat.log 2 (r + 1) else r / q + Nat.log 2 (2 * q)

variable {q r r' d : Nat}

/-- The bound in closed form: one try for each full interval, and a logarithm for the last two. -/
theorem tries_le : tries q r ≤ r / q + Nat.log 2 (2 * q) := by
  unfold tries
  split
  · rename_i hHalving
    exact Nat.le_add_left_of_le (Nat.log_mono_right (by omega))
  · exact le_refl _

/-- Less time leaves no more tries. -/
theorem tries_mono (h : r ≤ r') : tries q r ≤ tries q r' := by
  unfold tries
  by_cases hr' : r' < 2 * q
  · rw [if_pos hr', if_pos (by omega)]
    exact Nat.log_mono_right (by omega)
  · rw [if_neg hr']
    by_cases hr : r < 2 * q
    · -- the halving phase is shorter than any longer run
      rw [if_pos hr]
      exact Nat.le_add_left_of_le (Nat.log_mono_right (by omega))
    · rw [if_neg hr]
      exact Nat.add_le_add_right (Nat.div_le_div_right h) _

/-- **One try** uses up one of the tries that fit. -/
theorem tries_step (hq : 1 ≤ q) (hr : 0 < r) (hd : 1 ≤ d) :
    1 + tries q (r - wait q r - d) ≤ tries q r := by
  by_cases hHalving : r < 2 * q
  -- half of the time left is waited, so the logarithm drops by one
  · have hWait : wait q r = r / 2 := by
      unfold wait
      omega
    have hLeft : r - wait q r - d + 1 ≤ (r + 1) / 2 := by
      rw [hWait]
      omega
    have hSmall : r - wait q r - d < 2 * q := by omega
    have hLog : Nat.log 2 (r + 1) = Nat.log 2 ((r + 1) / 2) + 1 := by
      have hTwo : 1 ≤ Nat.log 2 (r + 1) := Nat.log_pos (by omega) (by omega)
      rw [Nat.log_div_base]
      omega
    unfold tries
    rw [if_pos hSmall, if_pos hHalving, hLog, Nat.add_comm 1]
    exact Nat.add_le_add_right (Nat.log_mono_right hLeft) 1
  -- a whole interval is waited, so the quotient drops by one
  · have hWait : wait q r = q := by
      unfold wait
      omega
    have hLess : tries q (r - wait q r - d) ≤ tries q (r - q) := by
      rw [hWait]
      exact tries_mono (by omega)
    have hDiv : (r - q) / q = r / q - 1 := by
      have hSub := Nat.sub_mul_div r q 1
      rwa [Nat.mul_one] at hSub
    have hTwice : 2 ≤ r / q := by
      rw [Nat.le_div_iff_mul_le (by omega)]
      omega
    have hNext : 1 + tries q (r - q) ≤ tries q r := by
      have hBound := tries_le (q := q) (r := r - q)
      unfold tries at hBound ⊢
      rw [if_neg hHalving]
      split at hBound
      · -- the last of the equal waits
        rename_i hSoon
        rw [if_pos hSoon]
        have hLog : Nat.log 2 (r - q + 1) ≤ Nat.log 2 (2 * q) := Nat.log_mono_right (by omega)
        omega
      · rename_i hLater
        rw [if_neg hLater, hDiv]
        omega
    omega

end Backoff
