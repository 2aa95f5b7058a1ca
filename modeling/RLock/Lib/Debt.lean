import Mathlib.Data.List.Basic

/-!
# Debts in a history

A history is a list of entries, the newest first. Some entries make a debt and
some pay all debts made so far; `Paid` says that no debt is left.

The notion is one of order and not of number: a payment that stands before the debt
it is meant for does not count, and one payment settles any number of debts before
it. A log of what a program did is judged by it entry by entry, as the log grows.

## Results

* `Paid.of_no_debt` — a history without debts.
* `Paid.cons` — an entry that makes no debt changes nothing.
* `Paid.of_pay` — a payment settles everything before it.
* `Paid.mono` — more entries may count as payments.
-/

/-- Every debt in the history is followed by a payment. -/
def Paid {α : Type} (debt pay : α → Prop) (log : List α) : Prop :=
  ∀ later a earlier, log = later ++ a :: earlier → debt a → ∃ x ∈ later, pay x

namespace Paid

variable {α : Type} {debt pay : α → Prop} {a : α} {log : List α}

theorem of_no_debt (h : ∀ a ∈ log, ¬debt a) : Paid debt pay log := by
  intro later a earlier hLog hDebt
  exact absurd hDebt (h a (by simp [hLog]))

/-- An entry that makes no debt leaves none: what comes after an older entry only grows. -/
theorem cons (h : Paid debt pay log) (hDebt : ¬debt a) : Paid debt pay (a :: log) := by
  intro later b earlier hLog hB
  cases later with
  -- the debt would be the new entry itself
  | nil =>
    obtain ⟨rfl, -⟩ := List.cons.inj hLog
    exact absurd hB hDebt
  -- the debt is older, and so is its payment
  | cons c later =>
    obtain ⟨-, hRest⟩ := List.cons.inj hLog
    obtain ⟨x, hx, hPay⟩ := h later b earlier hRest hB
    exact ⟨x, List.mem_cons_of_mem c hx, hPay⟩

/-- A payment settles everything before it. -/
theorem of_pay (hPay : pay a) (hDebt : ¬debt a) : Paid debt pay (a :: log) := by
  intro later b earlier hLog hB
  cases later with
  | nil =>
    obtain ⟨rfl, -⟩ := List.cons.inj hLog
    exact absurd hB hDebt
  | cons c later =>
    obtain ⟨rfl, -⟩ := List.cons.inj hLog
    exact ⟨a, List.mem_cons_self, hPay⟩

/-- What pays in a strict reading pays in a liberal one. -/
theorem mono {pay' : α → Prop} (h : Paid debt pay log) (hPay : ∀ a, pay a → pay' a) :
    Paid debt pay' log := by
  intro later a earlier hLog hDebt
  obtain ⟨x, hx, hx'⟩ := h later a earlier hLog hDebt
  exact ⟨x, hx, hPay x hx'⟩

end Paid
