import RLock.Client.Trace
import RLock.Lib.Fleet
import RLock.Lib.Watch

/-!
# RLock — waiting for the end of a lease

`Lease::wait_until_inactive`: any number of tasks wait for the end of one lease,
whose methods anybody may call in the meantime, in any order. All methods notify
with the mutex of the lease held, `release` alone after it. A waiter calls `state`
and `remaining` one after the other and sleeps for what `remaining` said, for a day
at most; so its timer is as late as it was slow between the two calls.

The lease with its version is the shared machine of a fleet and the waiters are its
clients, which read it and call two of its methods. A waiter marks the version as seen
before it looks, and this is the order that a watched value asks for (`Watch.Announces`):
a change that it did not find is announced by a version it has not seen, or `release` is
about to announce it. An end that nobody announces is the one that comes with time alone,
and that one the timer is for.

Nothing is assumed of when a waiter takes its steps. What is proved is that it can take
one, or that what it waits for is due, at every moment after the end of the lease, and
that it has at most four steps to go from then on.

* `announces` — no method changes the lease in silence.
* `Waiter.Ok` — what a waiter knows of the lease.
* `Waiter.Ok.wakes` — so it is woken, or its timer is due.
* `wait_until_inactive_returns` — nobody sleeps through the end of the lease, and
  everybody returns after a bounded number of steps.
-/

namespace RLock.Client

namespace Lease

variable {now now' : Int} {l : Lease}

/-- `refresh` finds the lease out of time. -/
def expires (now : Int) (l : Lease) : Bool := l.state = .active ∧ l.ttl ≤ elapsed now l.start

/-- A lease that is found out of time is lost. -/
theorem refresh_of_expires (h : l.expires now = true) : (l.refresh now).state = .lost := by
  unfold refresh
  rw [if_pos (of_decide_eq_true h)]

theorem refresh_of_not_expires (h : l.expires now = false) : l.refresh now = l := by
  unfold refresh
  rw [if_neg (of_decide_eq_false h)]

theorem stateAt_ne_active (h : l.state ≠ .active) : l.stateAt now ≠ .active := by
  rwa [stateAt_of_ne_active h]

theorem stateAt_later (hNow : now ≤ now') (h : l.stateAt now ≠ .active) :
    l.stateAt now' ≠ .active := by
  intro hActive
  obtain ⟨hState, hElapsed⟩ := stateAt_eq_active.mp hActive
  refine h (stateAt_eq_active.mpr ⟨hState, ?_⟩)
  unfold elapsed at *
  omega

end Lease

namespace Waiting

-- ---------------------------------------------------------------------------
-- The lease and its channel
-- ---------------------------------------------------------------------------

/-- What the waiters and everybody else share. -/
structure Shared where
  now : Int
  lease : Lease
  /-- how often `changed` was sent to -/
  version : Nat
  /-- how many calls of `release` have stored the state and not notified yet -/
  releasing : Nat
  deriving DecidableEq

/-- The methods of the lease, the second half of `release`, and time passing. -/
inductive Op
  | pass (now : Int)
  | state
  | remaining
  | renew (start : Int) (ttl : Nat)
  | lose
  | release
  /-- a call of `release` notifies -/
  | notify
  deriving DecidableEq

namespace Shared

/-- `Lease::refresh`, which notifies when it finds the lease out of time. -/
def refresh (s : Shared) : Shared :=
  { s with
    lease := s.lease.refresh s.now
    version := s.version + (s.lease.expires s.now).toNat }

def enabled (s : Shared) : Op → Bool
  | .pass now => s.now ≤ now
  | .renew start _ => start ≤ s.now
  | .notify => 0 < s.releasing
  | _ => true

def next (s : Shared) : Op → Shared
  | .pass now => { s with now := now }
  | .state => s.refresh
  | .remaining => s.refresh
  -- both branches that find the lease active notify
  | .renew start ttl =>
    if s.refresh.lease.state = .active then
      { s with lease := (s.lease.renew s.now start ttl).2, version := s.version + 1 }
    else s.refresh
  | .lose =>
    if s.lease.state = .active then { s with lease := s.lease.lose, version := s.version + 1 }
    else s
  | .release => { s with lease := s.lease.release, releasing := s.releasing + 1 }
  | .notify => { s with version := s.version + 1, releasing := s.releasing - 1 }

end Shared

/-- A fresh lease. -/
def shared : Machine Shared Op where
  init s := s.lease.state = .active ∧ s.version = 0 ∧ s.releasing = 0
  enabled s op := s.enabled op = true
  next := Shared.next

instance (s : Shared) (op : Op) : Decidable (shared.enabled s op) :=
  inferInstanceAs (Decidable (s.enabled op = true))

/-- `now` and what is stored say that the lease is over. -/
def Shared.Over (s : Shared) : Prop := s.lease.stateAt s.now ≠ .active

section

variable {s : Shared} {op : Op}

/-- A look at the clock changes nothing, or announces that the lease is over. -/
theorem refresh_cases (s : Shared) :
    s.refresh = s ∨ s.version < s.refresh.version ∧ s.refresh.lease.state ≠ .active := by
  cases h : s.lease.expires s.now with
  | true =>
    refine Or.inr ⟨?_, ?_⟩
    · unfold Shared.refresh
      rw [h]
      exact Nat.lt_succ_self s.version
    · show (s.lease.refresh s.now).state ≠ .active
      rw [Lease.refresh_of_expires h]
      decide
  | false =>
    refine Or.inl ?_
    unfold Shared.refresh
    rw [h, Lease.refresh_of_not_expires h]
    rfl

/-- What one call of a method does to the lease, its version and what it owes. -/
theorem next_cases (hEn : s.enabled op = true) :
    ((s.next op).lease = s.lease ∧ s.version ≤ (s.next op).version ∧
        (s.releasing ≤ (s.next op).releasing ∨ s.version < (s.next op).version)) ∨
      (s.version < (s.next op).version ∧ (s.next op).releasing = s.releasing) ∨
      ((s.next op).lease = s.lease.release ∧ s.version = (s.next op).version ∧
        0 < (s.next op).releasing) := by
  -- three methods look at the clock first, which may end the lease
  have hRefresh : (s.refresh.lease = s.lease ∧ s.version ≤ s.refresh.version ∧
      (s.releasing ≤ s.refresh.releasing ∨ s.version < s.refresh.version)) ∨
      (s.version < s.refresh.version ∧ s.refresh.releasing = s.releasing) := by
    rcases refresh_cases s with hSame | ⟨hNew, -⟩
    · rw [hSame]
      exact Or.inl ⟨rfl, le_rfl, Or.inl le_rfl⟩
    · exact Or.inr ⟨hNew, rfl⟩
  cases op with
  | pass now => exact Or.inl ⟨rfl, le_rfl, Or.inl le_rfl⟩
  | state | remaining =>
    rcases hRefresh with h | h
    · exact Or.inl h
    · exact Or.inr (Or.inl h)
  | renew start ttl =>
    unfold Shared.next
    dsimp only
    split
    · exact Or.inr (Or.inl ⟨Nat.lt_succ_self _, rfl⟩)
    · rcases hRefresh with h | h
      · exact Or.inl h
      · exact Or.inr (Or.inl h)
  | lose =>
    unfold Shared.next
    dsimp only
    split
    · exact Or.inr (Or.inl ⟨Nat.lt_succ_self _, rfl⟩)
    · exact Or.inl ⟨rfl, le_rfl, Or.inl le_rfl⟩
  | release => exact Or.inr (Or.inr ⟨rfl, rfl, Nat.succ_pos _⟩)
  | notify => exact Or.inl ⟨rfl, Nat.le_succ _, Or.inr (Nat.lt_succ_self _)⟩

/-- Nobody can change the lease in silence. -/
theorem announces :
    Watch.Announces shared Shared.version (fun s => 0 < s.releasing) Shared.lease where
  grows s op hEn := by
    rcases next_cases hEn with ⟨-, h, -⟩ | ⟨h, -⟩ | ⟨-, h, -⟩
    · exact h
    · exact h.le
    · exact h.le
  change s op hEn := by
    rcases next_cases hEn with ⟨h, -⟩ | ⟨h, -⟩ | ⟨-, -, h⟩
    · exact Or.inl h
    · exact Or.inr (Or.inl h)
    · exact Or.inr (Or.inr h)
  debt s op hEn hOwed := by
    rcases next_cases hEn with ⟨-, -, h | h⟩ | ⟨h, -⟩ | ⟨-, -, h⟩
    · exact Or.inr (lt_of_lt_of_le hOwed h)
    · exact Or.inl h
    · exact Or.inl h
    · exact Or.inr h

theorem ended_next (h : s.lease.state ≠ .active) : (s.next op).lease.state ≠ .active := by
  have hRefresh : s.refresh.lease.state ≠ .active := Lease.stateAt_ne_active h
  cases op with
  | pass now | notify => exact h
  | state | remaining => exact hRefresh
  | renew start ttl =>
    unfold Shared.next
    dsimp only
    rw [if_neg hRefresh]
    exact hRefresh
  | lose =>
    unfold Shared.next
    dsimp only
    rw [if_neg h]
    exact h
  | release => exact Lease.release_ne_active _

/-- A lease that is over stays over, whatever is called. -/
theorem Shared.Over.next (h : s.Over) (hEn : s.enabled op = true) : (s.next op).Over := by
  have hRefresh : s.refresh.lease.state ≠ .active := h
  cases op with
  | pass now => exact Lease.stateAt_later (of_decide_eq_true hEn) h
  | state | remaining => exact Lease.stateAt_ne_active hRefresh
  | renew start ttl =>
    unfold Shared.next
    dsimp only
    rw [if_neg hRefresh]
    exact Lease.stateAt_ne_active hRefresh
  | lose =>
    unfold Shared.next
    dsimp only
    split
    · exact Lease.stateAt_ne_active (Lease.lose_ne_active _)
    · exact h
  | release => exact Lease.stateAt_ne_active (Lease.release_ne_active _)
  | notify => exact h

end

-- ---------------------------------------------------------------------------
-- Waiters
-- ---------------------------------------------------------------------------

/-- Where one call of `wait_until_inactive` stands. -/
inductive Waiter
  | idle
  /-- the version is marked as seen, `state` is next -/
  | looking (seen : Nat)
  /-- `state` was active, `remaining` is next -/
  | asking (seen : Nat)
  /-- `remaining` was called at `asked` and left this lease; `sleep(wait)` is next -/
  | setting (seen : Nat) (found : Lease) (asked : Int) (wait : Nat)
  /-- in `select!`, with a sleep of `wait` that began at `since` -/
  | parked (seen : Nat) (found : Lease) (asked since : Int) (wait : Nat)
  | returned (state : LeaseState)
  deriving DecidableEq

/-- A step of a waiter with what it reads. -/
inductive Step
  | subscribe (version : Nat)
  | state (now : Int) (lease : Lease)
  | remaining (now : Int) (lease : Lease)
  | sleep (now : Int)
  | changed (version : Nat)
  | timer (now : Int)
  deriving DecidableEq

/-- `Duration::from_secs(86_400)` -/
def day : Nat := 86400 * 1000000000

namespace Waiter

def enabled : Waiter → Step → Bool
  | .idle, .subscribe _ => true
  | .looking _, .state _ _ => true
  | .asking _, .remaining _ _ => true
  | .setting _ _ _ _, .sleep _ => true
  | .parked seen _ _ _ _, .changed version => version ≠ seen
  | .parked _ _ _ since wait, .timer now => since + wait ≤ now
  | _, _ => false

def next : Waiter → Step → Waiter
  | .idle, .subscribe version => .looking version
  | .looking seen, .state now l =>
    if l.stateAt now = .active then .asking seen else .returned (l.stateAt now)
  | .asking seen, .remaining now l => .setting seen (l.refresh now) now (min (l.remaining now) day)
  | .setting seen found asked wait, .sleep now => .parked seen found asked now wait
  | .parked _ _ _ _ _, .changed version => .looking version
  | .parked seen _ _ _ _, .timer _ => .looking seen
  | w, _ => w

/-- How many steps are left when the lease is over. -/
def rank : Waiter → Nat
  | .idle => 2
  | .looking _ => 1
  | .asking _ => 4
  | .setting _ _ _ _ => 3
  | .parked _ _ _ _ _ => 2
  | .returned _ => 0

end Waiter

/-- A call of `wait_until_inactive`. -/
def waiter : Machine Waiter Step where
  init w := w = .idle
  enabled w e := w.enabled e = true
  next := Waiter.next

instance (w : Waiter) (e : Step) : Decidable (waiter.enabled w e) :=
  inferInstanceAs (Decidable (w.enabled e = true))

/-- What the waiters read, and which methods they call. -/
def link (ι : Type) : Link Shared Op ι Waiter Step where
  own _ := True
  reads _ s _
    | .subscribe version => version = s.version
    | .state now l => now = s.now ∧ l = s.lease
    | .remaining now l => now = s.now ∧ l = s.lease
    | .sleep now => now = s.now
    | .changed version => version = s.version
    | .timer now => now = s.now
  moves _ _
    | .state _ _ => some .state
    | .remaining _ _ => some .remaining
    | _ => none

instance {ι : Type} (op : Op) : Decidable ((link ι).own op) := inferInstanceAs (Decidable True)

instance {ι : Type} (i : ι) (s : Shared) (w : Waiter) (e : Step) :
    Decidable ((link ι).reads i s w e) :=
  match e with
  | .subscribe version => inferInstanceAs (Decidable (version = s.version))
  | .state now l => inferInstanceAs (Decidable (now = s.now ∧ l = s.lease))
  | .remaining now l => inferInstanceAs (Decidable (now = s.now ∧ l = s.lease))
  | .sleep now => inferInstanceAs (Decidable (now = s.now))
  | .changed version => inferInstanceAs (Decidable (version = s.version))
  | .timer now => inferInstanceAs (Decidable (now = s.now))

/-- A lease, everybody who uses it, and its waiters. -/
def system (ι : Type) [DecidableEq ι] : Machine (Shared × (ι → Waiter)) (Op ⊕ ι × Step) :=
  Machine.fleet shared (fun _ => waiter) (link ι)

instance {ι : Type} [DecidableEq ι] (s : Shared × (ι → Waiter)) (e : Op ⊕ ι × Step) :
    Decidable ((system ι).enabled s e) :=
  inferInstanceAs (Decidable ((Machine.fleet shared (fun _ => waiter) (link ι)).enabled s e))

-- ---------------------------------------------------------------------------
-- What a waiter knows
-- ---------------------------------------------------------------------------

/-- The waiter knows the lease it found, or is to be woken. -/
abbrev Knows (s : Shared) (seen : Nat) (found : Lease) : Prop :=
  Watch.Knows s.version (0 < s.releasing) s.lease seen found

/-- What a waiter knows at each point, which the others cannot take from it. -/
def Waiter.Ok (s : Shared) : Waiter → Prop
  | .idle => True
  | .looking seen => seen ≤ s.version
  | .asking seen => seen ≤ s.version
  | .setting seen found asked wait =>
    Knows s seen found ∧ asked ≤ s.now ∧ wait ≤ found.remaining asked
  | .parked seen found asked since wait =>
    Knows s seen found ∧ asked ≤ since ∧ since ≤ s.now ∧ wait ≤ found.remaining asked
  | .returned state => state ≠ .active ∧ s.lease.state ≠ .active

section

variable {s : Shared} {op : Op} {w : Waiter}

theorem now_next (hEn : s.enabled op = true) : s.now ≤ (s.next op).now := by
  cases op with
  | pass now => exact of_decide_eq_true hEn
  | state | remaining | release | notify => exact le_rfl
  | renew start ttl | lose =>
    unfold Shared.next
    dsimp only
    split <;> exact le_rfl

/-- What others do takes nothing from it. -/
theorem Waiter.Ok.shared (h : w.Ok s) (hEn : s.enabled op = true) : w.Ok (s.next op) := by
  have hVersion : s.version ≤ (s.next op).version := announces.grows s op hEn
  have hNow := now_next hEn
  cases w with
  | idle => trivial
  | looking seen | asking seen => exact Nat.le_trans h hVersion
  | setting seen found asked wait =>
    obtain ⟨hKnows, hAsked, hWait⟩ := h
    exact ⟨announces.knows hEn hKnows, hAsked.trans hNow, hWait⟩
  | parked seen found asked since wait =>
    obtain ⟨hKnows, hAsked, hSince, hWait⟩ := h
    exact ⟨announces.knows hEn hKnows, hAsked, hSince.trans hNow, hWait⟩
  | returned state => exact ⟨h.1, ended_next h.2⟩

/-- When the lease is over, a parked waiter has a new version to see, or a call of
`release` is about to give it one, or its timer is no later than it was itself
between `remaining` and its sleep. -/
theorem Waiter.Ok.wakes {seen : Nat} {found : Lease} {asked since : Int} {wait : Nat}
    (h : (Waiter.parked seen found asked since wait).Ok s) (hOver : s.Over) :
    s.version ≠ seen ∨ 0 < s.releasing ∨ since + wait ≤ s.now + (since - asked) := by
  obtain ⟨hKnows, hAsked, hSince, hWait⟩ := h
  -- a version it has not seen wakes it
  by_cases hSeen : s.version = seen
  · rcases hKnows.fresh hSeen with hOwed | hFound
    · exact Or.inr (Or.inl hOwed)
    · -- the lease is the one that `remaining` was asked about
      refine Or.inr (Or.inr ?_)
      have hOut : found.remaining asked = 0 ∨
          found.ttl ≤ elapsed s.now found.start ∧
            found.remaining asked = found.ttl - elapsed asked found.start := by
        by_cases hActive : (found.refresh asked).state = .active
        · refine Or.inr ⟨?_, if_pos hActive⟩
          by_contra hLt
          rw [← hFound] at hActive hLt
          refine hOver (Lease.stateAt_eq_active.mpr ⟨?_, not_le.mp hLt⟩)
          exact (Lease.stateAt_eq_active.mp hActive).1
        · exact Or.inl (if_neg hActive)
      unfold elapsed at hOut
      omega
  · exact Or.inl hSeen

end

variable {ι : Type} {s t : Shared × (ι → Waiter)} {i : ι}

/-- What the waiters' own calls do to the lease is enabled. -/
theorem own_ok {e : Step} (hw : (s.2 i).Ok s.1) (hReads : (link ι).reads i s.1 (s.2 i) e)
    (hEn : (s.2 i).enabled e = true) :
    ((s.2 i).next e).Ok (((link ι).moves i (s.2 i) e).elim s.1 (shared.next s.1)) := by
  generalize s.2 i = w at *
  cases w with
  | idle =>
    cases e with
    | subscribe version => exact le_of_eq hReads
    | _ => cases hEn
  | looking seen =>
    cases e with
    | state now l =>
      obtain ⟨rfl, rfl⟩ := hReads
      have hSeen : seen ≤ s.1.refresh.version := Nat.le_trans hw (Nat.le_add_right _ _)
      show Waiter.Ok s.1.refresh (if _ then _ else _)
      split
      · exact hSeen
      · rename_i hState
        exact ⟨hState, hState⟩
    | _ => cases hEn
  | asking seen =>
    cases e with
    | remaining now l =>
      obtain ⟨rfl, rfl⟩ := hReads
      have hSeen : seen ≤ s.1.refresh.version := Nat.le_trans hw (Nat.le_add_right _ _)
      refine ⟨.look hSeen, le_rfl, ?_⟩
      -- `remaining` of the lease it left is what it returned
      have hSame : (s.1.lease.refresh s.1.now).remaining s.1.now = s.1.lease.remaining s.1.now := by
        unfold Lease.remaining
        rw [Lease.refresh_refresh le_rfl]
        split
        · rename_i hActive
          rw [Lease.refresh_of_active hActive]
        · rfl
      rw [hSame]
      exact min_le_left _ _
    | _ => cases hEn
  | setting seen found asked wait =>
    cases e with
    | sleep now =>
      obtain rfl := hReads
      exact ⟨hw.1, hw.2.1, le_rfl, hw.2.2⟩
    | _ => cases hEn
  | parked seen found asked since wait =>
    cases e with
    | changed version => exact le_of_eq hReads
    | timer now => exact hw.1.le
    | _ => cases hEn
  | returned state => cases e <;> cases hEn

variable [DecidableEq ι]

theorem ok_of_reachable (hs : (system ι).Reachable s) (i : ι) : (s.2 i).Ok s.1 := by
  refine Machine.Reachable.invariant (I := fun s : Shared × (ι → Waiter) => ∀ i, (s.2 i).Ok s.1)
    (fun s hInit i => ?_) (fun s e hOk hEn i => ?_) hs i
  · rw [show s.2 i = .idle from hInit.2 i]
    trivial
  -- a call of somebody else, or a step of some waiter with the call it makes
  · cases e with
    | inl op => exact (hOk i).shared hEn.2
    | inr e =>
      obtain ⟨j, e⟩ := e
      obtain ⟨hReads, hOwn, hMoves⟩ := hEn
      show Waiter.Ok (((link ι).moves j (s.2 j) e).elim s.1 (shared.next s.1))
        (Function.update s.2 j (waiter.next (s.2 j) e) i)
      by_cases hSame : i = j
      · subst hSame
        rw [Function.update_self]
        exact own_ok (hOk i) hReads hOwn
      · rw [Function.update_of_ne hSame]
        cases hMove : (link ι).moves j (s.2 j) e with
        | none => exact hOk i
        | some op => exact (hOk i).shared (hMoves op hMove)

-- ---------------------------------------------------------------------------
-- Waking up
-- ---------------------------------------------------------------------------

/-- The steps of one waiter. -/
def stepOf (i : ι) : Op ⊕ ι × Step → Bool
  | .inl _ => false
  | .inr e => e.1 = i

/-- What is over stays over in the whole system. -/
theorem over_next {e : Op ⊕ ι × Step} (h : s.1.Over) (hEn : (system ι).enabled s e) :
    ((system ι).next s e).1.Over := by
  rcases Machine.fleet_shared hEn with hSame | ⟨op, hOp, hNext⟩
  · show Shared.Over ((Machine.fleet shared (fun _ => waiter) (link ι)).next s e).1
    rwa [hSame]
  · show Shared.Over ((Machine.fleet shared (fun _ => waiter) (link ι)).next s e).1
    rw [hNext]
    exact h.next hOp

/-- When the lease is over, a waiter comes closer to its return with each step. -/
theorem rank_own {e : Step} (h : s.1.Over) (hEn : (system ι).enabled s (.inr (i, e))) :
    ((s.2 i).next e).rank < (s.2 i).rank := by
  obtain ⟨hReads, hOwn, -⟩ := hEn
  change (s.2 i).enabled e = true at hOwn
  generalize s.2 i = w at *
  cases w with
  | idle =>
    cases e with
    | subscribe version => exact Nat.one_lt_two
    | _ => cases hOwn
  | looking seen =>
    cases e with
    | state now l =>
      obtain ⟨rfl, rfl⟩ := hReads
      show (if _ then _ else _ : Waiter).rank < 1
      rw [if_neg h]
      exact Nat.one_pos
    | _ => cases hOwn
  | asking seen =>
    cases e with
    | remaining now l => exact Nat.lt_succ_self 3
    | _ => cases hOwn
  | setting seen found asked wait =>
    cases e with
    | sleep now => exact Nat.lt_succ_self 2
    | _ => cases hOwn
  | parked seen found asked since wait =>
    cases e with
    | changed version => exact Nat.one_lt_two
    | timer now => exact Nat.one_lt_two
    | _ => cases hOwn
  | returned state => cases e <;> cases hOwn

/-- The steps that a waiter makes once the lease is over. -/
theorem steps_bounded {es : List (Op ⊕ ι × Step)} (h : s.1.Over) (hPath : (system ι).Path s es t) :
    es.countP (stepOf i) + (t.2 i).rank ≤ (s.2 i).rank := by
  refine hPath.bounded (I := fun s => s.1.Over) (fun s => (s.2 i).rank) (stepOf i)
    (fun s e hOver hEn => over_next hOver hEn) (fun s e hOver hEn hSide => ?_)
    (fun s e hOver hEn hSide => ?_) h
  · cases e with
    | inl op => cases hSide
    | inr e =>
      obtain ⟨j, e⟩ := e
      obtain rfl : j = i := of_decide_eq_true hSide
      show (Function.update s.2 j (waiter.next (s.2 j) e) j).rank < _
      rw [Function.update_self]
      exact rank_own hOver hEn
  · cases e with
    | inl op => exact le_rfl
    | inr e =>
      obtain ⟨j, e⟩ := e
      have hOther : i ≠ j := fun hSame => absurd hSame.symm (of_decide_eq_false hSide)
      show (Function.update s.2 j (waiter.next (s.2 j) e) i).rank ≤ _
      rw [Function.update_of_ne hOther]

/-- The waiter has returned or can make a step, or a call of `release` is about to
notify it, or its timer is due as soon as it was late itself. -/
def Served (s : Shared × (ι → Waiter)) (i : ι) : Prop :=
  (∃ state, s.2 i = .returned state) ∨ (∃ e, (system ι).enabled s (.inr (i, e))) ∨
    0 < s.1.releasing ∨ ∃ seen found asked since wait,
      s.2 i = .parked seen found asked since wait ∧ since + wait ≤ s.1.now + (since - asked)

/-- Whoever has not returned when the lease is over is to be woken, wherever it stands. -/
theorem served_of_over (hs : (system ι).Reachable s) (h : s.1.Over) (i : ι) : Served s i := by
  have hOk := ok_of_reachable hs i
  have hQuiet : ∀ op, none = some op → shared.enabled s.1 op := fun _ hNo => by cases hNo
  cases hw : s.2 i with
  | idle =>
    refine Or.inr (Or.inl ⟨.subscribe s.1.version, rfl, ?_, hQuiet⟩)
    rw [hw]
    rfl
  | looking seen =>
    refine Or.inr (Or.inl ⟨.state s.1.now s.1.lease, ⟨rfl, rfl⟩, ?_, ?_⟩)
    · rw [hw]
      rfl
    · rintro _ ⟨⟩
      rfl
  | asking seen =>
    refine Or.inr (Or.inl ⟨.remaining s.1.now s.1.lease, ⟨rfl, rfl⟩, ?_, ?_⟩)
    · rw [hw]
      rfl
    · rintro _ ⟨⟩
      rfl
  | setting seen found asked wait =>
    refine Or.inr (Or.inl ⟨.sleep s.1.now, rfl, ?_, hQuiet⟩)
    rw [hw]
    rfl
  | parked seen found asked since wait =>
    rw [hw] at hOk
    rcases hOk.wakes h with hNew | hOwed | hTimer
    · refine Or.inr (Or.inl ⟨.changed s.1.version, rfl, ?_, hQuiet⟩)
      rw [hw]
      exact decide_eq_true hNew
    · exact Or.inr (Or.inr (Or.inl hOwed))
    · exact Or.inr (Or.inr (Or.inr ⟨seen, found, asked, since, wait, hw, hTimer⟩))
  | returned state => exact Or.inl ⟨state, hw⟩

/-- **Nobody sleeps through the end of the lease**, and nobody returns before it. Once
it is over, every waiter is `Served` for good and has at most four steps to go. -/
theorem wait_until_inactive_returns (hs : (system ι).Reachable s) :
    (∀ i state, s.2 i = .returned state → state ≠ .active ∧ s.1.lease.state ≠ .active) ∧
    (s.1.Over → ∀ es t, (system ι).Path s es t → ∀ i, Served t i ∧
      es.countP (stepOf i) + (t.2 i).rank ≤ (s.2 i).rank) := by
  constructor
  · intro i state hReturned
    have hOk := ok_of_reachable hs i
    rw [hReturned] at hOk
    exact hOk
  · intro hOver es t hPath i
    refine ⟨served_of_over (hs.path hPath) ?_ i, steps_bounded hOver hPath⟩
    exact hPath.invariant (I := fun s => s.1.Over) hOver fun s e h hEn => over_next h hEn

/-- A lease of a second, nobody touches it, and one waiter. -/
def fresh : Shared × (Unit → Waiter) := (⟨0, .new 0 1000000000, 0, 0⟩, fun _ => .idle)

/-- The waiter sleeps; meanwhile the second is up. -/
def asleep : Shared × (Unit → Waiter) :=
  ((system Unit).exec fresh [.inr ((), .subscribe 0), .inr ((), .state 0 (.new 0 1000000000)),
    .inl (.pass 5), .inr ((), .remaining 5 (.new 0 1000000000)), .inl (.pass 7),
    .inr ((), .sleep 7), .inl (.pass 1000000000)]).getD fresh

/-- The lease runs out while the waiter sleeps. -/
theorem wait_until_inactive_returns_asleep :
    asleep.1.Over ∧ ∀ es t, (system Unit).Path asleep es t → ∀ i, Served t i ∧
      es.countP (stepOf i) + (t.2 i).rank ≤ (asleep.2 i).rank := by
  have hs : (system Unit).Reachable asleep :=
    Machine.reachable_getD ⟨⟨rfl, rfl, rfl⟩, fun _ => rfl⟩ (by decide +kernel)
  have hOver : asleep.1.Over := by
    show asleep.1.lease.stateAt asleep.1.now ≠ .active
    decide +kernel
  exact ⟨hOver, (wait_until_inactive_returns hs).2 hOver⟩

end Waiting

end RLock.Client
