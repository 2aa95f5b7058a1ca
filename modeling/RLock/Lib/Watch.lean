import RLock.Lib.Machine

/-!
# Values that are watched

A value that changes, and a version that is advanced to announce its changes. A
receiver remembers the version it has seen, looks at the value, and then sleeps
until the version differs from the one it remembers. The announcement may come
after the change, as long as it is owed in between.

The order on the receiver's side matters: it takes the version first and looks
afterwards. A change that comes after the look is announced by a version it has not
seen, and one that comes before is in what it found. The machine that changes the value
is a parameter, and so is what counts as a debt.

## Results

* `Announces` — no change goes unannounced.
* `Announces.knows` — then a receiver either knows the value, or is to be woken.
* `Knows.wakes` — so it does not sleep through what it waits for.
-/

namespace Watch

variable {σ ε β : Type}

/-- A receiver saw the version `seen`, and after that looked and found `found`. -/
structure Knows (version : Nat) (owed : Prop) (value : β) (seen : Nat) (found : β) : Prop where
  le : seen ≤ version
  fresh : version = seen → owed ∨ value = found

/-- Every change advances the version or owes it, and a debt stays until it does. -/
structure Announces (M : Machine σ ε) (version : σ → Nat) (owed : σ → Prop) (value : σ → β) :
    Prop where
  grows : ∀ s e, M.enabled s e → version s ≤ version (M.next s e)
  change : ∀ s e, M.enabled s e → value (M.next s e) = value s ∨
    version s < version (M.next s e) ∨ owed (M.next s e)
  debt : ∀ s e, M.enabled s e → owed s → version s < version (M.next s e) ∨ owed (M.next s e)

theorem Knows.look {version seen : Nat} {owed : Prop} {value : β} (h : seen ≤ version) :
    Knows version owed value seen value := ⟨h, fun _ => Or.inr rfl⟩

/-- What a receiver waits for and did not find wakes it when it comes. -/
theorem Knows.wakes {version seen : Nat} {owed : Prop} {value found : β} (done : β → Prop)
    (h : Knows version owed value seen found) (hFound : ¬ done found) (hDone : done value) :
    version ≠ seen ∨ owed := by
  by_cases hSeen : version = seen
  · refine Or.inr ((h.fresh hSeen).resolve_right ?_)
    rintro rfl
    exact hFound hDone
  · exact Or.inl hSeen

variable {M : Machine σ ε} {version : σ → Nat} {owed : σ → Prop} {value : σ → β}

/-- A receiver keeps what it knows. -/
theorem Announces.knows (h : Announces M version owed value) {s : σ} {e : ε} {seen : Nat}
    {found : β} (hEn : M.enabled s e)
    (hKnows : Knows (version s) (owed s) (value s) seen found) :
    Knows (version (M.next s e)) (owed (M.next s e)) (value (M.next s e)) seen found := by
  have hLe := hKnows.le
  have hGrows := h.grows s e hEn
  refine ⟨Nat.le_trans hLe hGrows, fun hSeen => ?_⟩
  -- the version did not move, so a change or a debt is still owed
  have hSame : ¬ version s < version (M.next s e) := by omega
  rcases hKnows.fresh (by omega) with hOwed | hFound
  · exact Or.inl ((h.debt s e hEn hOwed).resolve_left hSame)
  · rcases h.change s e hEn with hValue | hNew | hOwed
    · exact Or.inr (hValue.trans hFound)
    · exact absurd hNew hSame
    · exact Or.inl hOwed

end Watch
