import Mathlib.Order.Basic

/-!
# Canonical decimal numerals

The decimal numeral of a positive number is a nonempty list of digits that does
not start with zero, and every such list is the numeral of its value.

A program that compares numbers as strings, or checks them with a pattern, rests on
this: among the canonical numerals, equal strings are equal numbers, and reading a
numeral loses nothing. The lemmas go through characters, since that is where the
standard library says what `Nat.toDigits` prints.

## Results

* `toDigits_ofDigitChars` — reading a numeral and printing it again.
* `canonical_toDigits` — the numeral of a positive number does not start with zero.
* `canonical_iff` — the two together.
* `ofDigitChars_toString` — printing a number and reading it again.
-/

namespace Decimal

/-- A decimal digit, as a character. -/
def isDigit (c : Char) : Bool := '0' ≤ c && c ≤ '9'

/-- A digit string without leading zero. -/
def canonical : List Char → Bool
  | [] => false
  | c :: cs => '1' ≤ c && c ≤ '9' && cs.all isDigit

/-- A canonical numeral is a digit other than zero and more digits. -/
theorem exists_of_canonical {cs : List Char} (h : canonical cs = true) :
    ∃ c rest, cs = c :: rest ∧ ('1' ≤ c ∧ c ≤ '9') ∧ rest.all isDigit = true := by
  cases cs with
  | nil => cases h
  | cons c rest =>
    unfold canonical at h
    rw [Bool.and_eq_true, Bool.and_eq_true, decide_eq_true_eq, decide_eq_true_eq] at h
    exact ⟨c, rest, rfl, h.1, h.2⟩

/-- Characters are ordered by their code points. -/
theorem le_iff_toNat_le {c d : Char} : c ≤ d ↔ c.toNat ≤ d.toNat := Iff.rfl

theorem isDigit_iff {c : Char} : isDigit c = true ↔ 48 ≤ c.toNat ∧ c.toNat ≤ 57 := by
  unfold isDigit
  rw [Bool.and_eq_true, decide_eq_true_eq, decide_eq_true_eq]
  exact Iff.rfl

/-- A digit is the character of its value. -/
theorem digitChar_sub {c : Char} (h : 48 ≤ c.toNat ∧ c.toNat ≤ 57) :
    Nat.digitChar (c.toNat - 48) = c := by
  apply Char.toNat_inj.mp
  rw [Nat.toNat_digitChar_of_lt_ten (by omega)]
  omega

/-- Reading on after the digits of a positive number. -/
theorem toDigits_ofDigitChars_append {cs : List Char} : ∀ {n : Nat}, 0 < n →
    cs.all isDigit = true →
    Nat.toDigits 10 (Nat.ofDigitChars 10 cs n) = Nat.toDigits 10 n ++ cs := by
  induction cs with
  | nil =>
    intro n _ _
    rw [Nat.ofDigitChars_nil, List.append_nil]
  | cons c cs ih =>
    intro n hPos hAll
    rw [List.all_cons, Bool.and_eq_true, isDigit_iff] at hAll
    obtain ⟨hDigit, hRest⟩ := hAll
    have hNext : 0 < 10 * n + (c.toNat - 48) := by omega
    have hLast : Nat.toDigits 10 (c.toNat - 48) = [c] := by
      rw [Nat.toDigits_of_lt_base (by omega), digitChar_sub hDigit]
    -- the next digit is appended to the numeral of what was read so far
    have hStep : Nat.toDigits 10 (10 * n + (c.toNat - 48)) = Nat.toDigits 10 n ++ [c] := by
      rw [← Nat.toDigits_append_toDigits (by decide) hPos (by omega), hLast]
    rw [Nat.ofDigitChars_cons]
    show Nat.toDigits 10 (Nat.ofDigitChars 10 cs (10 * n + (c.toNat - 48))) = _
    rw [ih hNext hRest, hStep, List.append_assoc]
    rfl

/-- Printing the value of a canonical numeral gives it back. -/
theorem toDigits_ofDigitChars {cs : List Char} (h : canonical cs = true) :
    Nat.toDigits 10 (Nat.ofDigitChars 10 cs 0) = cs := by
  obtain ⟨c, cs, rfl, ⟨hLow, hHigh⟩, hRest⟩ := exists_of_canonical h
  have hLow' : 49 ≤ c.toNat := hLow
  have hHigh' : c.toNat ≤ 57 := hHigh
  -- the first digit makes the number positive; the rest is read after it
  rw [Nat.ofDigitChars_cons]
  show Nat.toDigits 10 (Nat.ofDigitChars 10 cs (10 * 0 + (c.toNat - 48))) = _
  rw [toDigits_ofDigitChars_append (by omega) hRest, Nat.mul_zero, Nat.zero_add,
    Nat.toDigits_of_lt_base (by omega), digitChar_sub ⟨by omega, hHigh'⟩]
  rfl

theorem isDigit_of_mem_toDigits {n : Nat} {c : Char} (h : c ∈ Nat.toDigits 10 n) :
    isDigit c = true := by
  have hDigit := Nat.isDigit_of_mem_toDigits (by decide) (by decide) h
  rw [isDigit_iff]
  rw [Char.isDigit, Bool.and_eq_true, decide_eq_true_eq, decide_eq_true_eq] at hDigit
  exact ⟨hDigit.1, hDigit.2⟩

/-- The numeral of a positive number does not start with zero. -/
theorem canonical_toDigits {n : Nat} (h : 0 < n) : canonical (Nat.toDigits 10 n) = true := by
  induction n using Nat.strongRecOn with
  | _ n ih =>
    by_cases hSmall : n < 10
    · have hChar : (Nat.digitChar n).toNat = 48 + n := by
        have := Nat.toNat_digitChar_of_lt_ten hSmall
        omega
      rw [Nat.toDigits_of_lt_base hSmall]
      unfold canonical
      rw [Bool.and_eq_true, Bool.and_eq_true, decide_eq_true_eq, decide_eq_true_eq,
        le_iff_toNat_le, le_iff_toNat_le, hChar]
      exact ⟨⟨by show 49 ≤ _; omega, by show _ ≤ 57; omega⟩, rfl⟩
    · -- the last digit goes after a shorter numeral
      have hLast : n = 10 * (n / 10) + n % 10 := by omega
      have hSplit : Nat.toDigits 10 n = Nat.toDigits 10 (n / 10) ++ Nat.toDigits 10 (n % 10) := by
        rw [Nat.toDigits_append_toDigits (by decide) (by omega) (by omega), ← hLast]
      have hHead := ih (n / 10) (by omega) (by omega)
      rw [hSplit]
      cases hDigits : Nat.toDigits 10 (n / 10) with
      | nil =>
        rw [hDigits] at hHead
        cases hHead
      | cons c cs =>
        rw [hDigits] at hHead
        unfold canonical at hHead
        show canonical (c :: (cs ++ _)) = true
        unfold canonical
        rw [Bool.and_eq_true] at hHead ⊢
        refine ⟨hHead.1, ?_⟩
        rw [List.all_append, Bool.and_eq_true]
        exact ⟨hHead.2, List.all_eq_true.mpr fun c hc => isDigit_of_mem_toDigits hc⟩

/-- **Canonical numerals** are what positive numbers are printed as. -/
theorem canonical_iff {s : String} :
    canonical s.toList = true ↔ ∃ n, 0 < n ∧ s = toString n := by
  constructor
  · intro h
    have hBack := toDigits_ofDigitChars h
    refine ⟨Nat.ofDigitChars 10 s.toList 0, ?_, ?_⟩
    -- the numeral of zero is not canonical
    · by_contra hZero
      have hNil : Nat.ofDigitChars 10 s.toList 0 = 0 := by omega
      rw [hNil, Nat.toDigits_zero] at hBack
      rw [← hBack] at h
      exact absurd h (by decide)
    · apply String.toList_injective
      rw [Nat.toString_eq_repr, Nat.toList_repr, hBack]
  · rintro ⟨n, hPos, rfl⟩
    rw [Nat.toString_eq_repr, Nat.toList_repr]
    exact canonical_toDigits hPos

/-- A number that is printed is read back. -/
theorem ofDigitChars_toString (n : Nat) : Nat.ofDigitChars 10 (toString n).toList 0 = n := by
  rw [Nat.toString_eq_repr, Nat.toList_repr, Nat.ofDigitChars_ten_toDigits]

end Decimal
