import RLock.Client.Lifecycle

/-!
# RLock — the renewal loop on a clock

The renewal loop of `Client.Guard` together with a clock in nanoseconds and the
server that executes its commands, as long as nobody releases or drops the
guard. Timers fire exactly on time: the clock does not move past a moment at
which the loop has something to do (`due`). A command takes as long as it
takes, and the server executes it at some moment while it runs.

The clock is an event of its own, and passes any number of nanoseconds at once, up to the
next thing that is due. What the loop does takes no time. Whether a command succeeds, and
when its reply comes, is left open here; statements that need some of it say so as a
condition on the events of a run.

Beside the guard the state keeps what the statements are about: the stamps of the
attempts, the moments at which the server executed the successful ones, and the events of
the loop.

## Results

* `Going.step` — the loop of a guard nobody touches never gets a stop signal,
  and every stamp lies in the past.
* `pass_le` — time passes up to the end of a wait and no further.
* `enabled_pass`, `exists_pass` — and it can pass until then.
-/

namespace RLock.Client

/-- A guard, its clock and the commands that were sent for it. -/
structure Clocked where
  guard : Guard
  now : Int
  /-- When the attempts started, the latest first; the last is the acquisition. -/
  starts : List Int
  /-- When the server executed the successful ones. -/
  executed : List Int
  /-- The server has not executed the command that runs. -/
  unexecuted : Bool
  /-- What the loop did, the latest first. -/
  log : List GuardEvent

/-- Time passes, the loop does something, or the server executes the command. -/
inductive ClockedEvent
  | pass (d : Nat)
  | act (e : GuardEvent)
  | exec
  deriving DecidableEq, Repr

/-- The loop has something to do that does not wait for the server. -/
def Guard.due (b : Backend) (now : Int) (g : Guard) : Bool :=
  g.enabled b now .stopSeen || g.enabled b now .inactiveSeen || g.enabled b now .wake ||
    g.enabled b now .check || g.enabled b now .sendRenew

namespace Clocked

/-- The guard when it is made at `now`: the attempt that acquired it started at
`start` and was executed at `executed`. -/
def new (o : AcquireOptions) (start executed now : Int) : Clocked where
  guard := Guard.new o (Lease.new start o.effectiveTtl) start
  now := now
  starts := [start]
  executed := [executed]
  unexecuted := false
  log := []

def enabled (b : Backend) (s : Clocked) : ClockedEvent → Prop
  | .pass d => ∀ k < d, s.guard.due b (s.now + k) = false
  | .act e => e.byLoop = true ∧ s.guard.enabled b s.now e = true
  | .exec => (∃ start, s.guard.renewal = .renewing start) ∧ s.unexecuted = true

def next (b : Backend) (o : AcquireOptions) (s : Clocked) : ClockedEvent → Clocked
  | .pass d => { s with now := s.now + d }
  | .act e =>
    { s with
      guard := s.guard.next b o s.now e
      starts := if e = .sendRenew then s.now :: s.starts else s.starts
      unexecuted := if e = .sendRenew then true else s.unexecuted
      log := e :: s.log }
  | .exec => { s with executed := s.now :: s.executed, unexecuted := false }

end Clocked

/-- The renewal loop of a guard that nobody releases or drops. -/
def clocked (b : Backend) (o : AcquireOptions) : Machine Clocked ClockedEvent where
  init := fun s => ∃ start executed now,
    start ≤ executed ∧ executed ≤ now ∧ s = Clocked.new o start executed now
  enabled := Clocked.enabled b
  next := Clocked.next b o

namespace Guard

variable {b : Backend} {now : Int} {g : Guard} {start : Int} {wait : Nat}

/-- While a command runs the loop waits for the server. -/
theorem not_due_of_renewing (h : g.renewal = .renewing start) : g.due b now = false := by
  simp [due, enabled, h]

/-- A loop that is awake checks the lease at once. -/
theorem due_of_woken (h : g.renewal = .woken) : g.due b now = true := by
  simp [due, enabled, h]

theorem due_of_cleared (h : g.renewal = .cleared) : g.due b now = true := by
  simp [due, enabled, h]

theorem due_of_waiting (h : g.renewal = .waiting start wait) (hTime : start + wait ≤ now) :
    g.due b now = true := by
  have hElapsed : wait ≤ elapsed now start := by
    unfold elapsed
    omega
  simp [due, enabled, h, hElapsed]

theorem not_due_of_waiting (h : g.renewal = .waiting start wait) (hStop : g.stop = false)
    (hActive : g.lease.stateAt now = .active) (hStart : start ≤ now) (hTime : now < start + wait) :
    g.due b now = false := by
  have hElapsed : ¬ wait ≤ elapsed now start := by
    unfold elapsed
    omega
  have hLeft : g.lease.remaining now ≠ 0 := by
    have hAhead := (Lease.stateAt_eq_active.mp hActive).2
    unfold Lease.remaining
    rw [if_pos (show (g.lease.refresh now).state = .active from hActive)]
    omega
  simp [due, enabled, h, hStop, hActive, hElapsed, hLeft]

/-- Something that is due is an event of the loop that needs no reply. -/
theorem exists_of_due (h : g.due b now = true) : ∃ e : GuardEvent, e.byLoop = true ∧
    (∀ reply, e ≠ .renewReply reply) ∧ g.enabled b now e = true := by
  unfold due at h
  rw [Bool.or_eq_true, Bool.or_eq_true, Bool.or_eq_true, Bool.or_eq_true] at h
  rcases h with (((h | h) | h) | h) | h
  · exact ⟨.stopSeen, rfl, fun _ hNo => (nomatch hNo), h⟩
  · exact ⟨.inactiveSeen, rfl, fun _ hNo => (nomatch hNo), h⟩
  · exact ⟨.wake, rfl, fun _ hNo => (nomatch hNo), h⟩
  · exact ⟨.check, rfl, fun _ hNo => (nomatch hNo), h⟩
  · exact ⟨.sendRenew, rfl, fun _ hNo => (nomatch hNo), h⟩

/-- What a reply leaves of a lease that was not released. -/
theorem afterReply_going (o : AcquireOptions) (reply : Option Bool)
    (hUnreleased : g.lease.state ≠ .released) (hLease : g.lease.start ≤ now)
    (hStart : start ≤ now) :
    (g.afterReply o now start reply).lease.state ≠ .released ∧
      (g.afterReply o now start reply).lease.start ≤ now ∧
      ((g.afterReply o now start reply).renewal ≠ .cleared ∧
        ∀ st, (g.afterReply o now start reply).renewal ≠ .renewing st) := by
  have hRefresh : (g.lease.refresh now).state ≠ .released ∧ (g.lease.refresh now).start ≤ now := by
    unfold Lease.refresh
    split
    · exact ⟨fun hNo => (nomatch hNo), hLease⟩
    · exact ⟨hUnreleased, hLease⟩
  have hLose : ∀ l : Lease, l.state ≠ .released →
      l.lose.state ≠ .released ∧ l.lose.start = l.start := by
    intro l hl
    unfold Lease.lose
    split
    · exact ⟨fun hNo => (nomatch hNo), rfl⟩
    · exact ⟨hl, rfl⟩
  unfold afterReply
  cases reply with
  | none => exact ⟨hRefresh.1, hRefresh.2, fun hNo => (nomatch hNo), fun _ hNo => (nomatch hNo)⟩
  | some ok =>
    cases ok with
    | false =>
      obtain ⟨hState, hSame⟩ := hLose _ hUnreleased
      exact ⟨hState, hSame ▸ hLease, fun hNo => (nomatch hNo), fun _ hNo => (nomatch hNo)⟩
    | true =>
      -- a renewal leaves its own stamp or the one that was there
      have hRenew : (g.lease.renew now start o.effectiveTtl).2.state ≠ .released ∧
          (g.lease.renew now start o.effectiveTtl).2.start ≤ now := by
        unfold Lease.renew
        dsimp only
        split
        · exact hRefresh
        · split
          · exact ⟨fun hNo => (nomatch hNo), hRefresh.2⟩
          · exact ⟨hRefresh.1, hStart⟩
      dsimp only
      split
      · exact ⟨hRenew.1, hRenew.2, fun hNo => (nomatch hNo), fun _ hNo => (nomatch hNo)⟩
      · obtain ⟨hState, hSame⟩ := hLose _ hRenew.1
        exact ⟨hState, hSame ▸ hRenew.2, fun hNo => (nomatch hNo), fun _ hNo => (nomatch hNo)⟩

end Guard

namespace Clocked

variable {b : Backend} {o : AcquireOptions} {s : Clocked} {d : Nat}

/-- Time stands still while the loop has something to do. -/
theorem pass_eq_zero (hEn : s.enabled b (.pass d)) (hDue : s.guard.due b s.now = true) : d = 0 := by
  by_contra hPos
  have hNot := hEn 0 (Nat.pos_of_ne_zero hPos)
  simp only [Nat.cast_zero, add_zero] at hNot
  rw [hDue] at hNot
  cases hNot

/-- Time does not pass the end of a wait. -/
theorem pass_le {start : Int} {wait : Nat} (hEn : s.enabled b (.pass d))
    (hWait : s.guard.renewal = .waiting start wait) (hTime : s.now ≤ start + wait) :
    s.now + d ≤ start + wait := by
  by_contra hLate
  have hNot := hEn (start + wait - s.now).toNat (by omega)
  rw [Guard.due_of_waiting hWait (by omega)] at hNot
  cases hNot

/-- Time may pass during a wait, while the lease lasts. -/
theorem enabled_pass {start : Int} {wait : Nat} (hWait : s.guard.renewal = .waiting start wait)
    (hStop : s.guard.stop = false) (hActive : s.guard.lease.state = .active)
    (hStart : start ≤ s.now) (hLease : s.guard.lease.start ≤ s.now)
    (hEnd : s.now + d ≤ start + wait)
    (hTtl : s.now + d ≤ s.guard.lease.start + s.guard.lease.ttl) : s.enabled b (.pass d) := by
  intro k hk
  refine Guard.not_due_of_waiting hWait hStop (Lease.stateAt_eq_active.mpr ⟨hActive, ?_⟩)
    (by omega) (by omega)
  unfold elapsed
  omega

/-- Time can pass until something is due. -/
theorem exists_pass {k : Nat} (h : s.guard.due b (s.now + k) = true) :
    ∃ d : Nat, s.enabled b (.pass d) ∧ s.guard.due b (s.now + d) = true := by
  classical
  have hExists : ∃ d : Nat, s.guard.due b (s.now + d) = true := ⟨k, h⟩
  refine ⟨Nat.find hExists, fun j hj => ?_, Nat.find_spec hExists⟩
  exact Bool.not_eq_true _ ▸ Nat.find_min hExists hj

-- ---------------------------------------------------------------------------
-- What holds of every loop
-- ---------------------------------------------------------------------------

/-- A guard nobody touches: no stop signal, no release, and every stamp in the
past. -/
structure Going (s : Clocked) : Prop where
  unstopped : s.guard.stop = false
  unreleased : s.guard.lease.state ≠ .released
  leaseStart : s.guard.lease.start ≤ s.now
  sentStart : ∀ start, s.guard.renewal = .renewing start → start ≤ s.now
  /-- The loop goes on to a command only with an active lease. -/
  active : (s.guard.renewal = .cleared ∨ ∃ start, s.guard.renewal = .renewing start) →
    s.guard.lease.state = .active

/-- At first nothing has been stamped but the acquisition. -/
theorem going_init (h : (clocked b o).init s) : Going s := by
  obtain ⟨start, executed, now, hExecuted, hNow, rfl⟩ := h
  refine ⟨rfl, fun hNo => (nomatch hNo), hExecuted.trans hNow, fun st hSent => ?_, fun _ => rfl⟩
  unfold new Guard.new at hSent
  dsimp only at hSent
  split at hSent <;> cases hSent

/-- **Every event keeps it.** -/
theorem Going.step {e : ClockedEvent} (h : Going s) (hEn : s.enabled b e) :
    Going (s.next b o e) := by
  cases e with
  | pass d =>
    have hLease := h.leaseStart
    refine ⟨h.unstopped, h.unreleased, ?_, fun start hSent => ?_, h.active⟩
    · show s.guard.lease.start ≤ s.now + d
      omega
    · have hStart := h.sentStart start hSent
      show start ≤ s.now + d
      omega
  | exec => exact ⟨h.unstopped, h.unreleased, h.leaseStart, h.sentStart, h.active⟩
  | act e =>
    obtain ⟨hLoop, hGuard⟩ := hEn
    have hStop : (s.guard.next b o s.now e).stop = false :=
      (Guard.next_of_loop b o s.now s.guard hLoop).1.trans h.unstopped
    have hRefresh : (s.guard.lease.refresh s.now).state ≠ .released := by
      unfold Lease.refresh
      split
      · exact fun hNo => (nomatch hNo)
      · exact h.unreleased
    have hRefreshStart : (s.guard.lease.refresh s.now).start ≤ s.now := by
      unfold Lease.refresh
      split <;> exact h.leaseStart
    cases e with
    | stopSeen =>
      exact ⟨hStop, h.unreleased, h.leaseStart, fun _ hNo => (nomatch hNo),
        fun hNo => hNo.elim (fun hNo => (nomatch hNo)) fun ⟨_, hNo⟩ => (nomatch hNo)⟩
    | inactiveSeen =>
      exact ⟨hStop, hRefresh, hRefreshStart, fun _ hNo => (nomatch hNo),
        fun hNo => hNo.elim (fun hNo => (nomatch hNo)) fun ⟨_, hNo⟩ => (nomatch hNo)⟩
    | wake =>
      exact ⟨hStop, h.unreleased, h.leaseStart, fun _ hNo => (nomatch hNo),
        fun hNo => hNo.elim (fun hNo => (nomatch hNo)) fun ⟨_, hNo⟩ => (nomatch hNo)⟩
    | check =>
      refine ⟨hStop, hRefresh, hRefreshStart, fun start hSent => ?_, fun hGo => ?_⟩
      · have hNot : (s.guard.next b o s.now .check).renewal ≠ .renewing start := by
          unfold Guard.next
          dsimp only
          split <;> exact fun hNo => (nomatch hNo)
        exact absurd hSent hNot
      · -- the check passes only on an active lease
        show (s.guard.lease.refresh s.now).state = .active
        by_contra hNot
        have hStopped : (s.guard.next b o s.now .check).renewal = .stopped := if_neg hNot
        rcases hGo with hCleared | ⟨start, hSent⟩
        · exact absurd (hStopped.symm.trans hCleared) fun hNo => (nomatch hNo)
        · exact absurd (hStopped.symm.trans hSent) fun hNo => (nomatch hNo)
    | sendRenew =>
      refine ⟨hStop, h.unreleased, h.leaseStart, fun start hSent => ?_, fun _ => ?_⟩
      · cases hSent
        exact le_refl _
      · exact h.active (Or.inl (by simpa [Guard.enabled] using hGuard))
    -- the reply is for the command that runs; the lease keeps a stamp of the past
    | renewReply reply =>
      cases hRenewal : s.guard.renewal with
      | renewing start =>
        have hNext : s.guard.next b o s.now (.renewReply reply) =
            s.guard.afterReply o s.now start reply := by
          unfold Guard.next
          dsimp only
          rw [hRenewal]
        have hReply := Guard.afterReply_going o reply h.unreleased h.leaseStart
          (h.sentStart start hRenewal)
        rw [← hNext] at hReply
        obtain ⟨hUnreleased, hStart, hWait⟩ := hReply
        refine ⟨hStop, hUnreleased, hStart, fun st hSent => absurd hSent (hWait.2 st),
          fun hGo => ?_⟩
        rcases hGo with hCleared | ⟨st, hSent⟩
        · exact absurd hCleared hWait.1
        · exact absurd hSent (hWait.2 st)
      | off | waiting _ _ | woken | cleared | stopped => simp [Guard.enabled, hRenewal] at hGuard
    | beginRelease | sendRelease | releaseReply _ | cancelRelease | sendOrphan | drop => cases hLoop

theorem going_of_reachable (h : (clocked b o).Reachable s) : Going s :=
  h.invariant (fun _ hInit => going_init hInit) fun _ _ hGoing hEn => hGoing.step hEn

end Clocked

end RLock.Client
