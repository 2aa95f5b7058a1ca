import RLock.Lib.Machine
import Mathlib.Logic.Function.Basic

/-!
# RLock — waiting for the next attempt

`wait_retry` with those who end it: `cancel_acquisition`, which sets the flag of one
acquisition, and the first part of `shutdown`, which sets the flag of all. Any number of
calls of the three share one mutex and one condition variable. A wait ends when one of
its two flags is set or its time is up; the flags are atomics, and `shutdown` sets its
own without the mutex.

That is why a wait may test the flag, find it not set, and go to sleep while the flag is
set behind its back. It does not matter: `shutdown` takes the mutex before it notifies,
and a wait keeps the mutex from its test to its sleep. So at the time of the
notification nobody is between the two (`Inv.aware_notifyAll`), and whoever tests later
sees the flag. A cancellation sets its flag with the mutex in its hands, and the same
holds of it a step earlier.

The invariant has one part for each of these (`toldAll`, `toldOne`), besides the ones
that say who has the mutex and what the flags mean. It is kept by a lemma for each kind
of call that moves on and one about `notify_all`; the steps only choose among them.

## Results

* `Inv.step` — what every step keeps.
* `Inv.served` — a wait that is to end is never left alone.
* `rank_own`, `rank_other` — once a flag is set, only seven steps of its own are left.
* `retry_wakes` — nobody sleeps on after a `notify_all` that was meant for him.
-/

namespace RLock.Sync.Retry

/-- Where a call of `wait_retry` stands. -/
inductive Wait
  | idle
  /-- the mutex is next -/
  | locking
  /-- in the condition of `wait_timeout_while`, `is_shutdown` is next -/
  | testing
  /-- the flag of the acquisition is next -/
  | testingFlag
  /-- no flag was set; the wait is next, unless the time is up -/
  | resting
  /-- in `wait_timeout` -/
  | parked
  /-- awake, the mutex is next -/
  | woken
  /-- the mutex is to be dropped -/
  | leaving
  | returned
  deriving DecidableEq, Repr

/-- Where a call of `cancel_acquisition` stands. -/
inductive Cancel
  | idle
  | storing
  | notifying
  /-- it notified, the mutex is to be dropped -/
  | leaving
  | returned
  deriving DecidableEq, Repr

/-- Where a call of `shutdown` stands. -/
inductive Call
  | idle
  /-- the flag is set, the mutex is next -/
  | locking
  | notifying
  /-- it notified, the mutex is to be dropped -/
  | leaving
  /-- it goes on to the barrier -/
  | past
  deriving DecidableEq, Repr

/-- Who can have the mutex. -/
inductive Thread
  | wait (i : Nat)
  | cancel (a : Nat)
  | call (j : Nat)
  deriving DecidableEq, Repr

/-- The call has the mutex. -/
def Wait.inside : Wait → Bool
  | .testing => true
  | .testingFlag => true
  | .resting => true
  | .leaving => true
  | _ => false

/-- A cancellation sets its flag with the mutex in its hands. -/
def Cancel.inside : Cancel → Bool
  | .storing => true
  | .notifying => true
  | .leaving => true
  | _ => false

/-- A shutdown notifies with it. -/
def Call.inside : Call → Bool
  | .notifying => true
  | .leaving => true
  | _ => false

/-- The call has notified. -/
def Cancel.told : Cancel → Bool
  | .leaving => true
  | .returned => true
  | _ => false

/-- A shutdown has. -/
def Call.told : Call → Bool
  | .leaving => true
  | .past => true
  | _ => false

/-- The mutex, the flags and the calls; acquisitions have at most one call of
`cancel_acquisition` each. -/
structure State where
  isShutdown : Bool
  canceled : Nat → Bool
  /-- who has `retry_lock` -/
  owner : Option Thread
  waits : Nat → Wait
  cancels : Nat → Cancel
  calls : Nat → Call

/-- The step of a call, or the end of a sleep. -/
inductive Event
  /-- `late` tells a wait that its time is up -/
  | wait (i : Nat) (late : Bool)
  | cancel (a : Nat)
  | call (j : Nat)
  /-- a wait times out, or ends for no reason -/
  | wake (i : Nat)
  deriving DecidableEq, Repr

/-- No call has begun, and no flag is set. -/
def initial : State where
  isShutdown := false
  canceled _ := false
  owner := none
  waits _ := .idle
  cancels _ := .idle
  calls _ := .idle

namespace State

/-- The wait `i` moves on, and the mutex with it. -/
def setWait (i : Nat) (w : Wait) (o : Option Thread) (s : State) : State :=
  { s with waits := Function.update s.waits i w, owner := o }

/-- The cancellation of `a` moves on. -/
def setCancel (a : Nat) (c : Cancel) (o : Option Thread) (s : State) : State :=
  { s with cancels := Function.update s.cancels a c, owner := o }

/-- The shutdown `j` moves on. -/
def setCall (j : Nat) (c : Call) (o : Option Thread) (s : State) : State :=
  { s with calls := Function.update s.calls j c, owner := o }

/-- `retry_wake.notify_all()` -/
def notifyAll (s : State) : State :=
  { s with waits := fun i => if s.waits i = .parked then .woken else s.waits i }

end State

-- which acquisition a call of `wait_retry` belongs to
variable (acquisition : Nat → Nat)

/-- The next step of `wait_retry`. -/
def waitStep (i : Nat) (late : Bool) (s : State) : State :=
  match s.waits i with
  | .idle => s.setWait i .locking s.owner
  | .locking => s.setWait i .testing (some (.wait i))
  | .testing => s.setWait i (if s.isShutdown then .leaving else .testingFlag) s.owner
  | .testingFlag =>
    s.setWait i (if s.canceled (acquisition i) then .leaving else .resting) s.owner
  | .resting => if late then s.setWait i .leaving s.owner else s.setWait i .parked none
  | .parked => s
  | .woken => s.setWait i .testing (some (.wait i))
  | .leaving => s.setWait i .returned none
  | .returned => s

/-- The next step of `cancel_acquisition`. -/
def cancelStep (a : Nat) (s : State) : State :=
  match s.cancels a with
  | .idle => s.setCancel a .storing (some (.cancel a))
  | .storing =>
    { s.setCancel a .notifying s.owner with canceled := Function.update s.canceled a true }
  | .notifying => (s.setCancel a .leaving s.owner).notifyAll
  | .leaving => s.setCancel a .returned none
  | .returned => s

/-- The next step of `shutdown`. -/
def callStep (j : Nat) (s : State) : State :=
  match s.calls j with
  | .idle => { s.setCall j .locking s.owner with isShutdown := true }
  | .locking => s.setCall j .notifying (some (.call j))
  | .notifying => (s.setCall j .leaving s.owner).notifyAll
  | .leaving => s.setCall j .past none
  | .past => s

/-- What may happen next: whoever needs the mutex waits for it, and a wait that sleeps is woken. -/
def enabled (s : State) : Event → Bool
  | .wait i _ => match s.waits i with
    | .locking => s.owner = none
    | .parked => false
    | .woken => s.owner = none
    | .returned => false
    | _ => true
  | .cancel a => match s.cancels a with
    | .idle => s.owner = none
    | .returned => false
    | _ => true
  | .call j => match s.calls j with
    | .locking => s.owner = none
    | .past => false
    | _ => true
  | .wake i => s.waits i = .parked

/-- The step of an event. -/
def next (s : State) : Event → State
  | .wait i late => waitStep acquisition i late s
  | .cancel a => cancelStep a s
  | .call j => callStep j s
  | .wake i => s.setWait i .woken s.owner

/-- The waits of a manager with those who end them. -/
def machine : Machine State Event where
  init s := s = initial
  enabled s e := enabled s e = true
  next := next acquisition

instance (s : State) (e : Event) : Decidable ((machine acquisition).enabled s e) :=
  inferInstanceAs (Decidable (enabled s e = true))

-- ---------------------------------------------------------------------------
-- The invariant
-- ---------------------------------------------------------------------------

/-- The wait found no shutdown, and goes to sleep on that. -/
def Wait.unaware : Wait → Bool
  | .testingFlag => true
  | .resting => true
  | .parked => true
  | _ => false

/-- The wait found its own flag not set. -/
def Wait.dozes : Wait → Bool
  | .resting => true
  | .parked => true
  | _ => false

/-- The flag was set by this call. -/
def Cancel.stored (c : Cancel) : Bool := c.told || c = .notifying

/-- What every step keeps. -/
structure Inv (s : State) : Prop where
  wait : ∀ i, (s.waits i).inside = true ↔ s.owner = some (.wait i)
  cancel : ∀ a, (s.cancels a).inside = true ↔ s.owner = some (.cancel a)
  call : ∀ j, (s.calls j).inside = true ↔ s.owner = some (.call j)
  isShutdown : s.isShutdown = true ↔ ∃ j, s.calls j ≠ .idle
  canceled : ∀ a, s.canceled a = (s.cancels a).stored
  toldAll : ∀ j, (s.calls j).told = true → ∀ i, (s.waits i).unaware ≠ true
  toldOne : ∀ i, (s.cancels (acquisition i)).told = true → (s.waits i).dozes ≠ true

variable {acquisition} {s : State}

theorem inv_initial : Inv acquisition initial where
  wait i := ⟨fun h => (nomatch h), fun h => (nomatch h)⟩
  cancel a := ⟨fun h => (nomatch h), fun h => (nomatch h)⟩
  call j := ⟨fun h => (nomatch h), fun h => (nomatch h)⟩
  isShutdown := by
    refine ⟨fun h => (nomatch h), ?_⟩
    rintro ⟨j, hNo⟩
    exact absurd rfl hNo
  canceled _ := rfl
  toldAll _ h := (nomatch h)
  toldOne _ h := (nomatch h)

/-- A wait moves on, and takes or drops at most its own mutex. -/
theorem Inv.setWait (h : Inv acquisition s) {i : Nat} {w : Wait} {o : Option Thread}
    (hOwn : w.inside = true ↔ o = some (.wait i))
    (hOther : ∀ t, t ≠ .wait i → (o = some t ↔ s.owner = some t))
    (hAll : w.unaware = true → ∀ j, (s.calls j).told ≠ true)
    (hOne : w.dozes = true → (s.cancels (acquisition i)).told ≠ true) :
    Inv acquisition (s.setWait i w o) where
  wait i' := by
    show (Function.update s.waits i w i').inside = true ↔ _
    by_cases hi : i' = i
    · subst hi
      rw [Function.update_self]
      exact hOwn
    · rw [Function.update_of_ne hi, h.wait i']
      exact (hOther _ fun hSame => hi (Thread.wait.inj hSame)).symm
  cancel a := (h.cancel a).trans (hOther _ fun hSame => by cases hSame).symm
  call j := (h.call j).trans (hOther _ fun hSame => by cases hSame).symm
  isShutdown := h.isShutdown
  canceled := h.canceled
  toldAll j hTold i' hUnaware := by
    change (Function.update s.waits i w i').unaware = true at hUnaware
    by_cases hi : i' = i
    · subst hi
      rw [Function.update_self] at hUnaware
      exact hAll hUnaware j hTold
    · rw [Function.update_of_ne hi] at hUnaware
      exact h.toldAll j hTold i' hUnaware
  toldOne i' hTold hDozes := by
    change (Function.update s.waits i w i').dozes = true at hDozes
    by_cases hi : i' = i
    · subst hi
      rw [Function.update_self] at hDozes
      exact hOne hDozes hTold
    · rw [Function.update_of_ne hi] at hDozes
      exact h.toldOne i' hTold hDozes

theorem Inv.notifyAll (h : Inv acquisition s) : Inv acquisition s.notifyAll where
  wait i := by
    show (if s.waits i = .parked then Wait.woken else s.waits i).inside = true ↔
      s.owner = some (.wait i)
    split
    · rename_i hParked
      rw [← h.wait i, hParked]
      exact Iff.rfl
    · exact h.wait i
  cancel := h.cancel
  call := h.call
  isShutdown := h.isShutdown
  canceled := h.canceled
  toldAll j hTold i hUnaware := by
    refine h.toldAll j hTold i ?_
    change (if s.waits i = .parked then Wait.woken else s.waits i).unaware = true at hUnaware
    split at hUnaware
    · cases hUnaware
    · exact hUnaware
  toldOne i hTold hDozes := by
    refine h.toldOne i hTold ?_
    change (if s.waits i = .parked then Wait.woken else s.waits i).dozes = true at hDozes
    split at hDozes
    · cases hDozes
    · exact hDozes

/-- With the mutex in other hands nobody is on his way to sleep either. -/
theorem Inv.aware_notifyAll (h : Inv acquisition s) {t : Thread} (hHeld : s.owner = some t)
    (hOther : ∀ i, t ≠ .wait i) (i : Nat) : (s.notifyAll.waits i).unaware ≠ true := by
  intro hUnaware
  have hNotify := h.notifyAll.wait i
  change (if s.waits i = .parked then Wait.woken else s.waits i).unaware = true at hUnaware
  change (if s.waits i = .parked then Wait.woken else s.waits i).inside = true ↔
    s.owner = some (.wait i) at hNotify
  -- whoever is on his way to sleep has the mutex
  have hInside : (if s.waits i = .parked then Wait.woken else s.waits i).inside = true := by
    split at hUnaware
    · cases hUnaware
    · rename_i hAwake
      rw [if_neg hAwake]
      revert hUnaware hAwake
      cases s.waits i <;> decide
  have hOwner := hNotify.mp hInside
  rw [hHeld] at hOwner
  exact hOther i (Option.some.inj hOwner)

/-- A call of `cancel_acquisition` moves on. -/
theorem Inv.setCancel (h : Inv acquisition s) {a : Nat} {c : Cancel} {o : Option Thread}
    (hOwn : c.inside = true ↔ o = some (.cancel a))
    (hOther : ∀ t, t ≠ .cancel a → (o = some t ↔ s.owner = some t))
    (hTold : c.told = true → ∀ i, acquisition i = a → (s.waits i).dozes ≠ true) :
    Inv acquisition
      { s.setCancel a c o with canceled := Function.update s.canceled a c.stored } where
  wait i := (h.wait i).trans (hOther _ fun hSame => by cases hSame).symm
  cancel a' := by
    show (Function.update s.cancels a c a').inside = true ↔ _
    by_cases ha : a' = a
    · subst ha
      rw [Function.update_self]
      exact hOwn
    · rw [Function.update_of_ne ha, h.cancel a']
      exact (hOther _ fun hSame => ha (Thread.cancel.inj hSame)).symm
  call j := (h.call j).trans (hOther _ fun hSame => by cases hSame).symm
  isShutdown := h.isShutdown
  canceled a' := by
    show Function.update s.canceled a c.stored a' = (Function.update s.cancels a c a').stored
    by_cases ha : a' = a
    · subst ha
      rw [Function.update_self, Function.update_self]
    · rw [Function.update_of_ne ha, Function.update_of_ne ha, h.canceled a']
  toldAll := h.toldAll
  toldOne i hNow := by
    change (Function.update s.cancels a c (acquisition i)).told = true at hNow
    by_cases ha : acquisition i = a
    · rw [ha, Function.update_self] at hNow
      exact hTold hNow i ha
    · rw [Function.update_of_ne ha] at hNow
      exact h.toldOne i hNow

/-- A call of `shutdown` moves on; it has set the flag. -/
theorem Inv.setCall (h : Inv acquisition s) {j : Nat} {c : Call} {o : Option Thread}
    (hSet : c ≠ .idle) (hOwn : c.inside = true ↔ o = some (.call j))
    (hOther : ∀ t, t ≠ .call j → (o = some t ↔ s.owner = some t))
    (hTold : c.told = true → ∀ i, (s.waits i).unaware ≠ true) :
    Inv acquisition { s.setCall j c o with isShutdown := true } where
  wait i := (h.wait i).trans (hOther _ fun hSame => by cases hSame).symm
  cancel a := (h.cancel a).trans (hOther _ fun hSame => by cases hSame).symm
  call j' := by
    show (Function.update s.calls j c j').inside = true ↔ _
    by_cases hj : j' = j
    · subst hj
      rw [Function.update_self]
      exact hOwn
    · rw [Function.update_of_ne hj, h.call j']
      exact (hOther _ fun hSame => hj (Thread.call.inj hSame)).symm
  isShutdown := by
    refine ⟨fun _ => ⟨j, ?_⟩, fun _ => rfl⟩
    show Function.update s.calls j c j ≠ .idle
    rwa [Function.update_self]
  canceled := h.canceled
  toldAll j' hNow := by
    change (Function.update s.calls j c j').told = true at hNow
    by_cases hj : j' = j
    · subst hj
      rw [Function.update_self] at hNow
      exact hTold hNow
    · rw [Function.update_of_ne hj] at hNow
      exact h.toldAll j' hNow
  toldOne := h.toldOne

/-- A call that has set its flag already. -/
theorem Inv.moveCancel (h : Inv acquisition s) {a : Nat} {c : Cancel} {o : Option Thread}
    (hSame : c.stored = (s.cancels a).stored) (hOwn : c.inside = true ↔ o = some (.cancel a))
    (hOther : ∀ t, t ≠ .cancel a → (o = some t ↔ s.owner = some t))
    (hTold : c.told = true → ∀ i, acquisition i = a → (s.waits i).dozes ≠ true) :
    Inv acquisition (s.setCancel a c o) := by
  have hMoved := h.setCancel hOwn hOther hTold
  rwa [hSame, ← h.canceled a, Function.update_eq_self] at hMoved

/-- The same of a shutdown, which sets the flag with its first step. -/
theorem Inv.moveCall (h : Inv acquisition s) {j : Nat} {c : Call} {o : Option Thread}
    (hFirst : s.calls j ≠ .idle) (hSet : c ≠ .idle) (hOwn : c.inside = true ↔ o = some (.call j))
    (hOther : ∀ t, t ≠ .call j → (o = some t ↔ s.owner = some t))
    (hTold : c.told = true → ∀ i, (s.waits i).unaware ≠ true) :
    Inv acquisition (s.setCall j c o) := by
  have hMoved := h.setCall hSet hOwn hOther hTold
  have hSame : { s.setCall j c o with isShutdown := true } = s.setCall j c o := by
    have hFlag := h.isShutdown.mpr ⟨j, hFirst⟩
    unfold State.setCall
    rw [hFlag]
  rwa [hSame] at hMoved

-- ---------------------------------------------------------------------------
-- Every step
-- ---------------------------------------------------------------------------

/-- Taking a mutex that is free is nobody else's business. -/
theorem take_other {o : Option Thread} {t u : Thread} (hFree : o = none) (hNe : u ≠ t) :
    some t = some u ↔ o = some u := by
  rw [hFree]
  exact ⟨fun hSame => absurd (Option.some.inj hSame).symm hNe, fun hNo => by cases hNo⟩

/-- Whoever is outside does not have it. -/
theorem outside_none {t : Thread} : false = true ↔ none = some t :=
  ⟨fun hNo => (by cases hNo), fun hNo => (by cases hNo)⟩

theorem drop_other {o : Option Thread} {t u : Thread} (hHeld : o = some t) (hNe : u ≠ t) :
    none = some u ↔ o = some u := by
  rw [hHeld]
  exact ⟨fun hNo => (by cases hNo), fun hSame => absurd (Option.some.inj hSame).symm hNe⟩

theorem Inv.waitStep (h : Inv acquisition s) {i : Nat} {late : Bool}
    (hEn : enabled s (.wait i late) = true) : Inv acquisition (waitStep acquisition i late s) := by
  have hOwner := h.wait i
  have hAware : (s.waits i).unaware = true → ∀ j, (s.calls j).told ≠ true :=
    fun hUnaware j hTold => h.toldAll j hTold i hUnaware
  have hOne : (s.waits i).dozes = true → (s.cancels (acquisition i)).told ≠ true :=
    fun hDozes hTold => h.toldOne i hTold hDozes
  unfold Retry.waitStep
  cases hw : s.waits i with
  | idle =>
    rw [hw] at hOwner
    exact h.setWait hOwner (fun _ _ => Iff.rfl) (fun hNo => by cases hNo) fun hNo => by cases hNo
  | locking | woken =>
    have hFree : s.owner = none := by simpa [enabled, hw] using hEn
    exact h.setWait ⟨fun _ => rfl, fun _ => rfl⟩ (fun _ => take_other hFree)
      (fun hNo => by cases hNo) fun hNo => by cases hNo
  | testing =>
    rw [hw] at hOwner
    dsimp only
    split
    · exact h.setWait hOwner (fun _ _ => Iff.rfl) (fun hNo => by cases hNo) fun hNo => by cases hNo
    · rename_i hOpen
      refine h.setWait hOwner (fun _ _ => Iff.rfl) (fun _ j hTold => hOpen ?_)
        fun hNo => by cases hNo
      -- a shutdown that has notified has set the flag, and the test would have seen it
      refine h.isShutdown.mpr ⟨j, fun hIdle => ?_⟩
      rw [hIdle] at hTold
      cases hTold
  | testingFlag =>
    rw [hw] at hOwner hAware
    dsimp only
    split
    · exact h.setWait hOwner (fun _ _ => Iff.rfl) (fun hNo => by cases hNo) fun hNo => by cases hNo
    · rename_i hOpen
      -- so has a cancellation
      refine h.setWait hOwner (fun _ _ => Iff.rfl) (fun _ => hAware rfl) fun _ hTold => hOpen ?_
      rw [h.canceled, Cancel.stored, hTold]
      rfl
  | resting =>
    rw [hw] at hOwner hAware hOne
    dsimp only
    split
    · exact h.setWait hOwner (fun _ _ => Iff.rfl) (fun hNo => by cases hNo) fun hNo => by cases hNo
    · exact h.setWait outside_none
        (fun _ => drop_other (hOwner.mp rfl)) (fun _ => hAware rfl) fun _ => hOne rfl
  | parked | returned => exact h
  | leaving =>
    rw [hw] at hOwner
    exact h.setWait outside_none
      (fun _ => drop_other (hOwner.mp rfl)) (fun hNo => by cases hNo) fun hNo => by cases hNo

theorem Inv.cancelStep (h : Inv acquisition s) {a : Nat} (hEn : enabled s (.cancel a) = true) :
    Inv acquisition (cancelStep a s) := by
  have hOwner := h.cancel a
  unfold Retry.cancelStep
  cases hc : s.cancels a with
  | idle =>
    have hFree : s.owner = none := by simpa [enabled, hc] using hEn
    refine h.moveCancel ?_ ⟨fun _ => rfl, fun _ => rfl⟩ (fun _ => take_other hFree)
      fun hNo => by cases hNo
    rw [hc]
    rfl
  | storing =>
    rw [hc] at hOwner
    exact h.setCancel (c := .notifying) hOwner (fun _ _ => Iff.rfl) fun hNo => by cases hNo
  | notifying =>
    rw [hc] at hOwner
    have hHeld := hOwner.mp rfl
    -- with the mutex here, whoever slept is awake and nobody goes to sleep
    refine h.notifyAll.moveCancel (c := .leaving) ?_ hOwner (fun _ _ => Iff.rfl)
      fun _ i _ hDozes => ?_
    · show _ = (s.cancels a).stored
      rw [hc]
      rfl
    · refine h.aware_notifyAll hHeld (fun _ hSame => by cases hSame) i ?_
      revert hDozes
      cases s.notifyAll.waits i <;> decide
  | leaving =>
    rw [hc] at hOwner
    have hHeld := hOwner.mp rfl
    refine h.moveCancel ?_ outside_none
      (fun _ => drop_other hHeld) fun _ i hi => ?_
    · rw [hc]
      rfl
    -- it notified before
    · refine h.toldOne i ?_
      rw [hi, hc]
      rfl
  | returned => exact h

theorem Inv.callStep (h : Inv acquisition s) {j : Nat} (hEn : enabled s (.call j) = true) :
    Inv acquisition (callStep j s) := by
  have hOwner := h.call j
  unfold Retry.callStep
  cases hc : s.calls j with
  | idle =>
    rw [hc] at hOwner
    exact h.setCall (c := .locking) (by decide) hOwner (fun _ _ => Iff.rfl) fun hNo => by cases hNo
  | locking =>
    have hFree : s.owner = none := by simpa [enabled, hc] using hEn
    exact h.moveCall (by rw [hc]; decide) (by decide) ⟨fun _ => rfl, fun _ => rfl⟩
      (fun _ => take_other hFree) fun hNo => by cases hNo
  | notifying =>
    rw [hc] at hOwner
    have hHeld := hOwner.mp rfl
    -- the flag was set with the first step
    have hFirst : s.notifyAll.calls j ≠ .idle := by
      show s.calls j ≠ .idle
      rw [hc]
      decide
    exact h.notifyAll.moveCall (c := .leaving) hFirst (by decide) hOwner (fun _ _ => Iff.rfl)
      fun _ => h.aware_notifyAll hHeld fun _ hSame => by cases hSame
  | leaving =>
    rw [hc] at hOwner
    have hHeld := hOwner.mp rfl
    refine h.moveCall (by rw [hc]; decide) (by decide)
      outside_none (fun _ => drop_other hHeld) fun _ => ?_
    refine h.toldAll j ?_
    rw [hc]
    rfl
  | past => exact h

/-- **One event** keeps the invariant. -/
theorem Inv.step {e : Event} (h : Inv acquisition s) (hEn : enabled s e = true) :
    Inv acquisition (next acquisition s e) := by
  cases e with
  | wait i late => exact h.waitStep hEn
  | cancel a => exact h.cancelStep hEn
  | call j => exact h.callStep hEn
  | wake i =>
    have hParked : s.waits i = .parked := of_decide_eq_true hEn
    have hOwner := h.wait i
    rw [hParked] at hOwner
    exact h.setWait hOwner (fun _ _ => Iff.rfl) (fun hNo => by cases hNo) fun hNo => by cases hNo

theorem inv_of_reachable (h : (machine acquisition).Reachable s) : Inv acquisition s := by
  refine Machine.Reachable.invariant (fun s hInit => ?_) (fun s e hInv hEn => hInv.step hEn) h
  obtain rfl : s = initial := hInit
  exact inv_initial

-- ---------------------------------------------------------------------------
-- Waking up
-- ---------------------------------------------------------------------------

/-- One of the two flags that end the wait is set. -/
def Flagged (acquisition : Nat → Nat) (s : State) (i : Nat) : Prop :=
  s.isShutdown = true ∨ s.canceled (acquisition i) = true

/-- A `notify_all` that was meant for the wait has been made. -/
def Told (acquisition : Nat → Nat) (s : State) (i : Nat) : Prop :=
  (∃ j, (s.calls j).told = true) ∨ (s.cancels (acquisition i)).told = true

/-- One is still to come. -/
def Due (acquisition : Nat → Nat) (s : State) (i : Nat) : Prop :=
  (∃ j, s.calls j = .locking ∨ s.calls j = .notifying) ∨ s.cancels (acquisition i) = .notifying

/-- The next step of a thread. -/
def Thread.event : Thread → Event
  | .wait i => .wait i false
  | .cancel a => .cancel a
  | .call j => .call j

/-- The wait has returned or can make a step, or whoever has the mutex can, or a
`notify_all` for it is to come. -/
def Served (acquisition : Nat → Nat) (s : State) (i : Nat) : Prop :=
  s.waits i = .returned ∨ enabled s (.wait i false) = true ∨
    (∃ t, s.owner = some t ∧ enabled s t.event = true) ∨
    s.waits i = .parked ∧ Due acquisition s i

/-- How many steps are left when one of the flags is set. -/
def Wait.rank (canceled : Bool) : Wait → Nat
  | .idle => 5
  | .locking => 4
  | .testing => 3
  -- a shutdown that comes now is seen only after the sleep
  | .testingFlag => if canceled then 2 else 7
  | .resting => 6
  | .parked => 5
  | .woken => 4
  | .leaving => 1
  | .returned => 0

/-- How many steps the wait `i` has left. -/
def rank (acquisition : Nat → Nat) (i : Nat) (s : State) : Nat :=
  (s.waits i).rank (s.canceled (acquisition i))

/-- The steps of one wait. -/
def stepOf (i : Nat) : Event → Bool
  | .wait i' _ => i' = i
  | _ => false

section

variable {i : Nat}

/-- **Nobody sleeps on** after he was told. -/
theorem Inv.not_parked (h : Inv acquisition s) (hTold : Told acquisition s i) :
    s.waits i ≠ .parked := by
  intro hParked
  rcases hTold with ⟨j, hCall⟩ | hCancel
  · refine h.toldAll j hCall i ?_
    rw [hParked]
    rfl
  · refine h.toldOne i hCancel ?_
    rw [hParked]
    rfl

/-- Whoever sleeps although a flag is set is going to be told. -/
theorem Inv.due (h : Inv acquisition s) (hFlag : Flagged acquisition s i)
    (hParked : s.waits i = .parked) : Due acquisition s i := by
  have hNot : ¬ Told acquisition s i := fun hTold => h.not_parked hTold hParked
  rcases hFlag with hShutdown | hCanceled
  -- some shutdown set the flag; it has not notified, so it will
  · obtain ⟨j, hj⟩ := h.isShutdown.mp hShutdown
    have hCall : (s.calls j).told ≠ true := fun hTold => hNot (Or.inl ⟨j, hTold⟩)
    refine Or.inl ⟨j, ?_⟩
    cases hc : s.calls j with
    | idle => exact absurd hc hj
    | locking => exact Or.inl rfl
    | notifying => exact Or.inr rfl
    | leaving | past =>
      rw [hc] at hCall
      exact absurd rfl hCall
  · have hCancel : (s.cancels (acquisition i)).told ≠ true := fun hTold => hNot (Or.inr hTold)
    rw [h.canceled, Cancel.stored, Bool.or_eq_true] at hCanceled
    exact Or.inr (of_decide_eq_true (hCanceled.resolve_left hCancel))

/-- Whoever has the mutex is not stopped by anybody. -/
theorem Inv.owner_enabled (h : Inv acquisition s) {t : Thread} (hHeld : s.owner = some t) :
    enabled s t.event = true := by
  cases t with
  | wait i =>
    have hInside := (h.wait i).mpr hHeld
    show enabled s (.wait i false) = true
    cases hw : s.waits i <;> simp [hw, Wait.inside, enabled] at hInside ⊢
  | cancel a =>
    have hInside := (h.cancel a).mpr hHeld
    show enabled s (.cancel a) = true
    cases hc : s.cancels a <;> simp [hc, Cancel.inside, enabled] at hInside ⊢
  | call j =>
    have hInside := (h.call j).mpr hHeld
    show enabled s (.call j) = true
    cases hc : s.calls j <;> simp [hc, Call.inside, enabled] at hInside ⊢

/-- **A wait that is to end** is never left alone. -/
theorem Inv.served (h : Inv acquisition s) (hFlag : Flagged acquisition s i) :
    Served acquisition s i := by
  by_cases hParked : s.waits i = .parked
  · exact Or.inr (Or.inr (Or.inr ⟨hParked, h.due hFlag hParked⟩))
  · cases hOwner : s.owner with
    | some t => exact Or.inr (Or.inr (Or.inl ⟨t, hOwner, h.owner_enabled hOwner⟩))
    | none =>
      by_cases hReturned : s.waits i = .returned
      · exact Or.inl hReturned
      · refine Or.inr (Or.inl ?_)
        -- it is not parked, so it needs the mutex at most, and that is free
        cases hw : s.waits i <;> simp [hw, enabled, hOwner] at hParked hReturned ⊢

theorem flags_next (acquisition : Nat → Nat) (s : State) (e : Event) :
    (s.isShutdown = true → (next acquisition s e).isShutdown = true) ∧
      ∀ a, s.canceled a = true → (next acquisition s e).canceled a = true := by
  cases e with
  | wait i' late =>
    unfold Retry.next Retry.waitStep
    dsimp only
    repeat' split
    all_goals exact ⟨id, fun _ => id⟩
  | cancel a =>
    unfold Retry.next Retry.cancelStep
    dsimp only
    split
    case h_2 =>
      refine ⟨id, fun a' hSet => ?_⟩
      show Function.update s.canceled a true a' = true
      by_cases ha : a' = a
      · subst ha
        rw [Function.update_self]
      · rwa [Function.update_of_ne ha]
    all_goals exact ⟨id, fun _ => id⟩
  | call j =>
    unfold Retry.next Retry.callStep
    dsimp only
    split
    case h_1 => exact ⟨fun _ => rfl, fun _ => id⟩
    all_goals exact ⟨id, fun _ => id⟩
  | wake i' => exact ⟨id, fun _ => id⟩

theorem Flagged.next {e : Event} (h : Flagged acquisition s i) :
    Flagged acquisition (next acquisition s e) i := by
  obtain ⟨hShutdown, hCanceled⟩ := flags_next acquisition s e
  rcases h with h | h
  · exact Or.inl (hShutdown h)
  · exact Or.inr (hCanceled _ h)

/-- Others leave a wait where it is, or wake it. -/
theorem waits_next {e : Event} (hEn : enabled s e = true) (hOther : stepOf i e = false) :
    (next acquisition s e).waits i = s.waits i ∨
      s.waits i = .parked ∧ (next acquisition s e).waits i = .woken := by
  -- a notification wakes whoever sleeps
  have hNotify : ∀ s : State, s.notifyAll.waits i = s.waits i ∨
      s.waits i = .parked ∧ s.notifyAll.waits i = .woken := by
    intro s
    by_cases hParked : s.waits i = .parked
    · exact Or.inr ⟨hParked, if_pos hParked⟩
    · exact Or.inl (if_neg hParked)
  cases e with
  | wait i' late =>
    have hi : i ≠ i' := fun hSame => (of_decide_eq_false hOther) hSame.symm
    refine Or.inl ?_
    show (waitStep acquisition i' late s).waits i = s.waits i
    unfold Retry.waitStep
    repeat' split
    all_goals first
      | rfl
      | exact Function.update_of_ne hi _ _
  | cancel a =>
    show (cancelStep a s).waits i = s.waits i ∨
      s.waits i = .parked ∧ (cancelStep a s).waits i = .woken
    unfold Retry.cancelStep
    split
    case h_3 => exact hNotify _
    all_goals exact Or.inl rfl
  | call j =>
    show (callStep j s).waits i = s.waits i ∨
      s.waits i = .parked ∧ (callStep j s).waits i = .woken
    unfold Retry.callStep
    split
    case h_3 => exact hNotify _
    all_goals exact Or.inl rfl
  | wake i' =>
    have hParked : s.waits i' = .parked := of_decide_eq_true hEn
    show Function.update s.waits i' .woken i = s.waits i ∨
      s.waits i = .parked ∧ Function.update s.waits i' .woken i = .woken
    by_cases hi : i = i'
    · subst hi
      exact Or.inr ⟨hParked, Function.update_self i _ s.waits⟩
    · exact Or.inl (Function.update_of_ne hi _ _)

/-- A cancellation takes no wait further from its end. -/
theorem Wait.rank_le (canceled : Bool) (w : Wait) : w.rank true ≤ w.rank canceled := by
  cases canceled <;> cases w <;> decide

/-- What others do does not either. -/
theorem rank_other {e : Event} (hEn : enabled s e = true) (hOther : stepOf i e = false) :
    rank acquisition i (next acquisition s e) ≤ rank acquisition i s := by
  have hFlags := (flags_next acquisition s e).2 (acquisition i)
  unfold rank
  -- a flag that is set now makes the rank no larger
  have hLe : ∀ w : Wait, w.rank ((next acquisition s e).canceled (acquisition i)) ≤
      w.rank (s.canceled (acquisition i)) := by
    intro w
    cases hCanceled : s.canceled (acquisition i) with
    | true => exact Nat.le_of_eq (by rw [hFlags hCanceled])
    | false =>
      cases (next acquisition s e).canceled (acquisition i) with
      | true => exact w.rank_le false
      | false => exact Nat.le_refl _
  rcases waits_next hEn hOther with hSame | ⟨hParked, hWoken⟩
  · rw [hSame]
    exact hLe _
  · rw [hWoken, hParked]
    exact Nat.le_succ 4

/-- Its own steps take a wait out, once one of its flags is set. -/
theorem rank_own {late : Bool} (hFlag : Flagged acquisition s i)
    (hEn : enabled s (.wait i late) = true) :
    rank acquisition i (waitStep acquisition i late s) < rank acquisition i s := by
  have hRank : ∀ w o, rank acquisition i (s.setWait i w o) =
      w.rank (s.canceled (acquisition i)) := by
    intro w o
    show (Function.update s.waits i w i).rank _ = _
    rw [Function.update_self]
    rfl
  unfold Retry.waitStep
  show _ < (s.waits i).rank (s.canceled (acquisition i))
  cases hw : s.waits i with
  | idle | locking | woken | leaving =>
    dsimp only
    rw [hRank]
    exact Nat.lt_succ_self _
  | testing =>
    dsimp only
    rw [hRank]
    split
    · exact Nat.one_lt_succ_succ 1
    · rename_i hOpen
      -- without a shutdown it is its own flag
      rw [hFlag.resolve_left hOpen]
      exact Nat.lt_succ_self 2
  | testingFlag =>
    dsimp only
    rw [hRank]
    cases s.canceled (acquisition i) <;> decide
  | resting =>
    dsimp only
    split
    · rw [hRank]
      exact Nat.one_lt_succ_succ 4
    · rw [hRank]
      exact Nat.lt_succ_self 5
  | parked | returned => simp [enabled, hw] at hEn

/-- **Nobody sleeps on** after a `notify_all` that was meant for him; before it, one is
to come. Once one of its flags is set a wait is `Served` for good and has at most seven
steps to go. -/
theorem retry_wakes (hs : (machine acquisition).Reachable s) (i : Nat) :
    (Told acquisition s i → s.waits i ≠ .parked) ∧
    (Flagged acquisition s i → ∀ es t, (machine acquisition).Path s es t →
      Served acquisition t i ∧
        es.countP (stepOf i) + rank acquisition i t ≤ rank acquisition i s) := by
  refine ⟨(inv_of_reachable hs).not_parked, fun hFlag es t hPath => ⟨?_, ?_⟩⟩
  · refine (inv_of_reachable (hs.path hPath)).served ?_
    exact hPath.invariant (I := fun s => Flagged acquisition s i) hFlag fun _ _ h _ => h.next
  · refine hPath.bounded (I := fun s => Flagged acquisition s i) (rank acquisition i) (stepOf i)
      (fun _ _ h _ => h.next) (fun s e h hEn hSide => ?_)
      (fun _ _ _ hEn hSide => rank_other hEn hSide) hFlag
    cases e with
    | wait i' late =>
      obtain rfl : i' = i := of_decide_eq_true hSide
      exact rank_own h hEn
    | cancel a | call j | wake i' => cases hSide

end

/-- A wait that sleeps, and its acquisition is being cancelled. -/
def canceling : State :=
  ((machine id).exec initial ((List.replicate 5 (.wait 0 false)) ++ [.cancel 0, .cancel 0])).getD
    initial

/-- It is served, and has five steps left. -/
theorem retry_wakes_canceling :
    Flagged id canceling 0 ∧ ∀ es t, (machine id).Path canceling es t →
      Served id t 0 ∧ es.countP (stepOf 0) + rank id 0 t ≤ rank id 0 canceling := by
  have hs : (machine id).Reachable canceling := Machine.reachable_getD rfl (by decide +kernel)
  have hFlag : Flagged id canceling 0 := by
    unfold Flagged
    decide +kernel
  exact ⟨hFlag, (retry_wakes hs 0).2 hFlag⟩

end RLock.Sync.Retry
