import RLock.Client.Options

/-!
# RLock — the local lease

`Lease` of `lease.rs`. Every method reads the clock; here it takes the reading
as an argument. A method that finds the lease out of time stores that it is
lost, so the functions return the lease they leave behind.

The mutex around the data is not modelled: each method holds it from its first to its last
line, so a method is one step. Three states are enough, and of them only `active` is ever
left; `lose` and `release` are the two ways that others mark a lease, and a lease that was
lost may still be marked as released.

* `stateAt_eq_active` — a lease is active when nothing has ended it and its time is
  not up.
* `renew_cases` — a renewal moves the start of an active lease, or ends it.
-/

namespace RLock.Client

/-- Whether the lease still holds, and if not, why. -/
inductive LeaseState
  | active | lost | released
  deriving DecidableEq, Repr

/-- `LeaseData` -/
structure Lease where
  state : LeaseState
  start : Int
  ttl : Nat
  deriving DecidableEq, Repr

namespace Lease

/-- `Lease::new` -/
def new (start : Int) (ttl : Nat) : Lease := ⟨.active, start, ttl⟩

/-- Look at the clock: a lease that is out of time is lost. -/
def refresh (now : Int) (l : Lease) : Lease :=
  if l.state = .active ∧ l.ttl ≤ elapsed now l.start then { l with state := .lost } else l

/-- What `Lease::state` returns; it leaves `l.refresh now`. -/
def stateAt (now : Int) (l : Lease) : LeaseState := (l.refresh now).state

/-- What `Lease::remaining` returns; it leaves `l.refresh now`. -/
def remaining (now : Int) (l : Lease) : Nat :=
  if (l.refresh now).state = .active then l.ttl - elapsed now l.start else 0

/-- What the method of that name returns, and the lease it leaves: an active lease starts anew at
`start`, unless that is too long ago already. -/
def renew (now start : Int) (ttl : Nat) (l : Lease) : Bool × Lease :=
  let l := l.refresh now
  if l.state ≠ .active then (false, l)
  else if ttl ≤ elapsed now start then (false, { l with state := .lost })
  else (true, { l with start := start, ttl := ttl })

/-- Mark the lease as lost. -/
def lose (l : Lease) : Lease := if l.state = .active then { l with state := .lost } else l

/-- Mark the lease as released. -/
def release (l : Lease) : Lease := { l with state := .released }

/-- `Lease::state` says active exactly when nothing ended the lease and its time
is not up. -/
theorem stateAt_eq_active {now : Int} {l : Lease} :
    l.stateAt now = .active ↔ l.state = .active ∧ elapsed now l.start < l.ttl := by
  unfold stateAt refresh
  split
  · rename_i h
    simp only [reduceCtorEq, false_iff, not_and, not_lt]
    exact fun _ => h.2
  · rename_i h
    constructor
    · intro hActive
      exact ⟨hActive, not_le.mp fun hLe => h ⟨hActive, hLe⟩⟩
    · exact fun hActive => hActive.1

/-- A look at an active lease leaves it as it is. -/
theorem refresh_of_active {now : Int} {l : Lease} (h : l.stateAt now = .active) :
    l.refresh now = l := by
  unfold refresh
  rw [if_neg]
  rintro ⟨-, hLe⟩
  exact absurd (stateAt_eq_active.mp h).2 (not_lt.mpr hLe)

theorem lose_ne_active (l : Lease) : l.lose.state ≠ .active := by
  unfold lose
  split
  · simp
  · assumption

theorem release_ne_active (l : Lease) : l.release.state ≠ .active := by
  simp [release]

/-- A renewal either moves the start of an active lease or leaves it inactive. -/
theorem renew_cases (now start : Int) (ttl : Nat) (l : Lease) :
    (l.renew now start ttl = (true, { l with start := start, ttl := ttl }) ∧
      l.stateAt now = .active) ∨
    ((l.renew now start ttl).1 = false ∧ (l.renew now start ttl).2.state ≠ .active) := by
  unfold renew
  dsimp only
  by_cases hActive : (l.refresh now).state = .active
  · rw [if_neg (not_not.mpr hActive)]
    split
    · exact Or.inr ⟨rfl, by simp⟩
    · refine Or.inl ⟨?_, hActive⟩
      rw [refresh_of_active hActive]
  · rw [if_pos hActive]
    exact Or.inr ⟨rfl, hActive⟩

end Lease

end RLock.Client
