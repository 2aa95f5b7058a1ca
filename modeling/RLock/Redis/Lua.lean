import RLock.Lib.Decimal
import RLock.Lib.Double

/-!
# RLock — the Lua the scripts use

Lua numbers are doubles. The scripts convert two kinds of strings with
`tonumber` (the TTL argument and the `TIME` reply) and then only add,
subtract, multiply and compare integers, so a number is an integral double or
`+∞`; a converted numeral is correctly rounded, and every operation rounds its
exact result.

The scripts guard their arithmetic by comparing with the largest exact integer. That
is sound although the comparison is made on rounded numbers: what is within the range
was not rounded (`roundInt_of_abs_le`), and what is past it is past it also when it
is rounded (`maxSafe_lt_roundInt`).

* `tonumber_of_matchPositive` — the conversion of a string that passed the pattern.
* `digitsValue_pos` — such a string is the numeral of a positive number.
-/

namespace RLock.Lua

/-- The integers up to this one are exact: `9007199254740991`. -/
def maxSafe : Int := 9007199254740991

/-- A number read from a digit string. -/
inductive Number
  | fin (n : Int)
  | inf
  deriving DecidableEq, Repr

/-- `string.match(s, "^[1-9][0-9]*$")`. -/
def matchPositive (s : String) : Bool := Decimal.canonical s.toList

/-- `tonumber` on a string of decimal digits; the scripts convert no other
numeral. -/
def tonumber (s : String) : Option Number :=
  if s.toList ≠ [] ∧ s.toList.all Decimal.isDigit then
    let n := Nat.ofDigitChars 10 s.toList 0
    if Double.overflows n then some .inf else some (.fin (Double.roundNat n))
  else none

/-- The sum of two numbers. -/
def add (a b : Int) : Int := Double.roundInt (a + b)

/-- Their difference. -/
def sub (a b : Int) : Int := Double.roundInt (a - b)

/-- Their product. -/
def mul (a b : Int) : Int := Double.roundInt (a * b)

/-- The exact range lies within the significand. -/
theorem maxSafe_lt : maxSafe < 2 ^ Double.precision := by decide

/-- The first integer past the exact range. -/
theorem maxSafe_add_one : maxSafe + 1 = ((2 ^ Double.precision : Nat) : Int) := by decide

/-- A result inside the exact range is not rounded. -/
theorem roundInt_of_abs_le {z : Int} (h : z.natAbs ≤ maxSafe.natAbs) : Double.roundInt z = z := by
  apply Double.roundInt_of_natAbs_lt
  have : maxSafe.natAbs < 2 ^ Double.precision := by decide
  omega

/-- A result past the exact range stays past it. -/
theorem maxSafe_lt_roundInt {z : Int} (h : maxSafe < z) : maxSafe < Double.roundInt z := by
  have hz : (2 : Int) ^ Double.precision ≤ z := by
    unfold maxSafe at h
    unfold Double.precision
    omega
  have := Double.le_roundInt hz
  have := maxSafe_lt
  omega

/-- What passes the pattern is a nonempty string of digits. -/
theorem all_isDigit_of_matchPositive {s : String} (h : matchPositive s = true) :
    s.toList ≠ [] ∧ s.toList.all Decimal.isDigit = true := by
  obtain ⟨c, cs, hs, ⟨hLow, hHigh⟩, hRest⟩ := Decimal.exists_of_canonical h
  refine ⟨hs ▸ List.cons_ne_nil _ _, ?_⟩
  rw [hs, List.all_cons, Bool.and_eq_true, Decimal.isDigit, Bool.and_eq_true, decide_eq_true_eq,
    decide_eq_true_eq]
  exact ⟨⟨Char.le_trans (b := '1') (by decide) hLow, hHigh⟩, hRest⟩

/-- Value of a digit string. -/
def digitsValue (s : String) : Nat := Nat.ofDigitChars 10 s.toList 0

/-- What passes the pattern is converted, if only to an infinity. -/
theorem tonumber_of_matchPositive {s : String} (h : matchPositive s = true) :
    tonumber s =
      if Double.overflows (digitsValue s) then some .inf
      else some (.fin (Double.roundNat (digitsValue s))) := by
  unfold tonumber
  rw [if_pos (all_isDigit_of_matchPositive h)]
  rfl

/-- Reading on makes a number no smaller. -/
private theorem le_ofDigitChars (cs : List Char) (init : Nat) :
    init ≤ Nat.ofDigitChars 10 cs init := by
  induction cs generalizing init with
  | nil => simp
  | cons c cs ih =>
    rw [Nat.ofDigitChars_cons]
    exact le_trans (by omega) (ih _)

/-- A numeral without leading zero is at least one. -/
theorem digitsValue_pos {s : String} (h : matchPositive s = true) : 0 < digitsValue s := by
  obtain ⟨c, cs, hs, ⟨hLow, -⟩, -⟩ := Decimal.exists_of_canonical h
  unfold digitsValue
  rw [hs, Nat.ofDigitChars_cons]
  have hc : '1'.toNat ≤ c.toNat := hLow
  have h1 : '1'.toNat = '0'.toNat + 1 := by decide
  -- the first digit is at least one, and the others do not take that away
  exact lt_of_lt_of_le (by omega) (le_ofDigitChars cs _)

end RLock.Lua
