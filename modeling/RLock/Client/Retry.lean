import RLock.Client.Clocked
import RLock.Lib.Backoff

/-!
# RLock — renewal retries before the deadline

The renewal loop on a clock from a failed renewal on, when every later renewal
fails as well and takes at least one tick. A failed renewal leaves the lease as
it is, so its deadline stays where it was and the loop tries again after the
shorter of the retry interval and half of what remains of the lease.

What is left to do is measured by `Renewal.left`, the number of tries that
`Lib.Backoff` still allows before the deadline of the lease, which nothing moves
any more. The wait halves near the deadline, so the number of tries grows with
the logarithm of the retry interval and not with the interval itself.
`Renewal.turn` counts what the loop does between two commands, and bounds the
events of a whole run together with the tries.

The invariant is `Retrying`, between the state `s` of the first failure and the
present one. Its clause `starts` says that the commands since then and the tries
still left never exceed the tries there were, and that each command started
before the deadline. Most events send nothing; `Retrying.quiet` says once what
they have to show.

## Results

* `retrying_first` — what the first failure leaves.
* `Retrying.step` — every command costs one of the tries that are left.
* `Retrying.goes_on` — until the loop has stopped, it has something to do or
  will have.
* `retry_stops` — the loop ends with the lease lost, after at most
  `r / q + log2 (2 q) + 2` commands, all started before the deadline.
-/

namespace RLock.Client

namespace Lease

/-- When the lease ends unless it is renewed. -/
def deadline (l : Lease) : Int := l.start + l.ttl

variable {l : Lease} {now : Int}

/-- A reading does not move the deadline. -/
theorem deadline_refresh : (l.refresh now).deadline = l.deadline := by
  unfold refresh
  split <;> rfl

/-- A lease is active from its stamp to its deadline, unless it is marked. -/
theorem stateAt_eq_active_of_started (hStart : l.start ≤ now) :
    l.stateAt now = .active ↔ l.state = .active ∧ now < l.deadline := by
  rw [stateAt_eq_active, elapsed_lt_iff hStart, deadline]

/-- A lease that only its deadline ended has the time up to it left. -/
theorem remaining_of_started (hStart : l.start ≤ now)
    (hState : l.state = .active ∨ l.state = .lost ∧ l.deadline ≤ now) :
    l.remaining now = (l.deadline - now).toNat := by
  unfold remaining
  by_cases hActive : l.stateAt now = .active
  · rw [if_pos (show (l.refresh now).state = .active from hActive)]
    unfold elapsed deadline
    omega
  · rw [if_neg (show ¬ (l.refresh now).state = .active from hActive)]
    have hNot := mt (stateAt_eq_active_of_started hStart).mpr hActive
    rcases hState with hState | ⟨-, hEnd⟩
    · have hEnd : ¬ now < l.deadline := fun hTime => hNot ⟨hState, hTime⟩
      omega
    · omega

theorem refresh_state (hStart : l.start ≤ now)
    (hState : l.state = .active ∨ l.state = .lost ∧ l.deadline ≤ now) :
    (l.refresh now).state = .active ∧ now < l.deadline ∨
      (l.refresh now).state = .lost ∧ l.deadline ≤ now := by
  unfold refresh elapsed deadline at *
  split
  · rename_i hEnd
    exact Or.inr ⟨rfl, by omega⟩
  · rename_i hNot
    rcases hState with hState | ⟨hState, hEnd⟩
    · exact Or.inl ⟨hState, by
        have hTime : ¬ l.ttl ≤ (now - l.start).toNat := fun hTime => hNot ⟨hState, hTime⟩
        omega⟩
    · exact Or.inr ⟨hState, hEnd⟩

/-- A reading does not move the stamp either. -/
theorem start_refresh : (l.refresh now).start = l.start := by
  unfold refresh
  split <;> rfl

end Lease

namespace Clocked

/-- Every renewal fails and takes at least one tick. -/
def Failing (s : Clocked) : ClockedEvent → Prop
  | .act (.renewReply reply) =>
    reply = none ∧ ∀ start, s.guard.renewal = .renewing start → start < s.now
  | _ => True

end Clocked

namespace Renewal

/-- How many commands fit before the deadline `D`. -/
def left (q : Nat) (D now : Int) : Renewal → Nat
  | .waiting start _ => Backoff.tries q (D - start).toNat
  | .woken => if now < D then 1 + Backoff.tries q (D - now - 1).toNat else 0
  | .cleared => 1 + Backoff.tries q (D - now - 1).toNat
  | .renewing start => Backoff.tries q (D - start - 1).toNat
  | .off => 0
  | .stopped => 0

/-- What the loop has left to do in its present round. -/
def turn : Renewal → Nat
  | .waiting _ _ => 2
  | .woken => 1
  | .renewing _ => 3
  | .off => 0
  | .cleared => 0
  | .stopped => 0

/-- Where a loop that retries can stand. -/
def Paced (q : Nat) (D now : Int) (state : LeaseState) : Renewal → Prop
  | .waiting start wait =>
    start ≤ now ∧ wait = Backoff.wait q (D - start).toNat ∧ now ≤ start + wait
  | .woken => True
  | .cleared => state = .active ∧ now < D
  | .renewing start => state = .active ∧ start ≤ now
  | .stopped => state = .lost
  | .off => False

end Renewal

namespace Clocked

/-- The tries that are left before the deadline that `s` has. -/
def left (o : AcquireOptions) (s t : Clocked) : Nat :=
  t.guard.renewal.left o.retryInterval s.guard.lease.deadline t.now

/-- The loop between the failed renewal of `s` and now. -/
structure Retrying (o : AcquireOptions) (s t : Clocked) : Prop where
  unstopped : t.guard.stop = false
  deadline : t.guard.lease.deadline = s.guard.lease.deadline
  started : t.guard.lease.start ≤ t.now
  state : t.guard.lease.state = .active ∨
    t.guard.lease.state = .lost ∧ t.guard.lease.deadline ≤ t.now
  paced : t.guard.renewal.Paced o.retryInterval s.guard.lease.deadline t.now t.guard.lease.state
  /-- Every command costs one of the tries that were left. -/
  starts : ∃ new, t.starts = new ++ s.starts ∧ (∀ x ∈ new, x < s.guard.lease.deadline) ∧
    new.length + left o s t ≤ Backoff.tries o.retryInterval (s.guard.lease.remaining s.now)
  /-- A round has four events. -/
  log : t.log.length + 4 * left o s t + t.guard.renewal.turn ≤
    s.log.length + 4 * Backoff.tries o.retryInterval (s.guard.lease.remaining s.now) + 3

variable {b : Backend} {o : AcquireOptions} {s t : Clocked}

-- ---------------------------------------------------------------------------
-- The first failure
-- ---------------------------------------------------------------------------

theorem next_failed (b : Backend) (o : AcquireOptions) {start : Int}
    (h : t.guard.renewal = .renewing start) :
    (t.next b o (.act (.renewReply none))).guard =
      { t.guard with
        lease := t.guard.lease.refresh t.now
        renewal := .waiting t.now
          (Backoff.wait o.retryInterval (t.guard.lease.remaining t.now)) } := by
  show t.guard.next b o t.now (.renewReply none) = _
  unfold Guard.next
  dsimp only
  rw [h]
  rfl

/-- The first failure leaves all the tries that the remaining time allows. -/
theorem retrying_first {start : Int} (h : Going s) (hSent : s.guard.renewal = .renewing start) :
    Retrying o s (s.next b o (.act (.renewReply none))) := by
  have hNext := next_failed b o hSent
  have hActive := h.active (Or.inr ⟨start, hSent⟩)
  have hLeft : (s.guard.lease.deadline - s.now).toNat = s.guard.lease.remaining s.now :=
    (Lease.remaining_of_started h.leaseStart (Or.inl hActive)).symm
  have hRenewal : (s.next b o (.act (.renewReply none))).guard.renewal =
      .waiting s.now (Backoff.wait o.retryInterval (s.guard.lease.remaining s.now)) := by
    rw [hNext]
  have hTries : left o s (s.next b o (.act (.renewReply none))) =
      Backoff.tries o.retryInterval (s.guard.lease.remaining s.now) := by
    unfold left
    rw [hRenewal, ← hLeft]
    rfl
  refine ⟨by rw [hNext]; exact h.unstopped, by rw [hNext]; exact Lease.deadline_refresh, ?_, ?_, ?_,
    ⟨[], rfl, fun x hx => absurd hx List.not_mem_nil, ?_⟩, ?_⟩
  · rw [hNext]
    show (s.guard.lease.refresh s.now).start ≤ s.now
    rw [Lease.start_refresh]
    exact h.leaseStart
  · rw [hNext]
    dsimp only
    rw [Lease.deadline_refresh]
    exact (Lease.refresh_state h.leaseStart (Or.inl hActive)).imp_left And.left
  -- the wait is measured from the failure and ends after it
  · rw [hRenewal]
    refine ⟨le_refl _, by rw [hLeft], ?_⟩
    show s.now ≤ _
    omega
  · rw [hTries]
    exact Nat.le_of_eq (Nat.zero_add _)
  · rw [hTries, hRenewal]
    show s.log.length + 1 + _ + 2 ≤ _
    omega

-- ---------------------------------------------------------------------------
-- One step
-- ---------------------------------------------------------------------------

/-- Time and the server leave the tries that are left alone. -/
theorem Retrying.pass {d : Nat} (h : Retrying o s t) (hEn : t.enabled b (.pass d)) :
    Retrying o s (t.next b o (.pass d)) := by
  have hZero : t.guard.due b t.now = true → d = 0 := pass_eq_zero hEn
  have hStarted := h.started
  have hPaced := h.paced
  have hSame : t.guard.renewal.left o.retryInterval s.guard.lease.deadline (t.now + d) =
        t.guard.renewal.left o.retryInterval s.guard.lease.deadline t.now ∧
      t.guard.renewal.Paced o.retryInterval s.guard.lease.deadline (t.now + d)
        t.guard.lease.state := by
    cases hRenewal : t.guard.renewal with
    | waiting start wait =>
      rw [hRenewal] at hPaced
      obtain ⟨hStart, hWait, hTime⟩ := hPaced
      -- the end of the wait is due, so time stops there
      have hEnd := pass_le hEn hRenewal hTime
      exact ⟨rfl, by omega, hWait, hEnd⟩
    | woken =>
      -- the check is due at once, and so is the command after it
      have hNone := hZero (Guard.due_of_woken hRenewal)
      subst hNone
      exact ⟨by simp, trivial⟩
    | cleared =>
      have hNone := hZero (Guard.due_of_cleared hRenewal)
      subst hNone
      rw [hRenewal] at hPaced
      exact ⟨by simp, by simpa using hPaced⟩
    | renewing start =>
      rw [hRenewal] at hPaced
      obtain ⟨hActive, hStart⟩ := hPaced
      exact ⟨rfl, hActive, by omega⟩
    | stopped =>
      rw [hRenewal] at hPaced
      exact ⟨rfl, hPaced⟩
    | off =>
      rw [hRenewal] at hPaced
      exact ⟨rfl, hPaced⟩
  have hLeft : left o s (t.next b o (.pass d)) = left o s t := hSame.1
  obtain ⟨new, hNew, hAll, hLength⟩ := h.starts
  refine ⟨h.unstopped, h.deadline, ?_, h.state.imp_right fun hLost => ⟨hLost.1, ?_⟩, hSame.2,
    ⟨new, hNew, hAll, hLeft ▸ hLength⟩, hLeft ▸ h.log⟩
  · show t.guard.lease.start ≤ t.now + d
    omega
  · have hEnd := hLost.2
    show t.guard.lease.deadline ≤ t.now + d
    omega

/-- What the loop does without sending anything. -/
theorem Retrying.quiet {e : GuardEvent} (h : Retrying o s t) (hLoop : e.byLoop = true)
    (hSend : e ≠ .sendRenew)
    (hLease : (t.guard.next b o t.now e).lease = t.guard.lease ∨
      (t.guard.next b o t.now e).lease = t.guard.lease.refresh t.now)
    (hPaced : (t.guard.next b o t.now e).renewal.Paced o.retryInterval s.guard.lease.deadline
      t.now (t.guard.next b o t.now e).lease.state)
    (hLeft : (t.guard.next b o t.now e).renewal.left o.retryInterval s.guard.lease.deadline t.now ≤
      left o s t)
    (hTurn : (t.guard.next b o t.now e).renewal.turn + 1 ≤ t.guard.renewal.turn) :
    Retrying o s (t.next b o (.act e)) := by
  have hDeadline : (t.guard.next b o t.now e).lease.deadline = t.guard.lease.deadline := by
    rcases hLease with hSame | hSame
    · rw [hSame]
    · rw [hSame, Lease.deadline_refresh]
  have hStart : (t.guard.next b o t.now e).lease.start = t.guard.lease.start := by
    rcases hLease with hSame | hSame
    · rw [hSame]
    · rw [hSame, Lease.start_refresh]
  refine ⟨(Guard.next_of_loop b o t.now t.guard hLoop).1.trans h.unstopped,
    hDeadline.trans h.deadline, ?_, ?_, hPaced, ?_, ?_⟩
  · show (t.guard.next b o t.now e).lease.start ≤ t.now
    rw [hStart]
    exact h.started
  · show (t.guard.next b o t.now e).lease.state = _ ∨
      (t.guard.next b o t.now e).lease.state = _ ∧ (t.guard.next b o t.now e).lease.deadline ≤ t.now
    rw [hDeadline]
    rcases hLease with hSame | hSame
    · rw [hSame]
      exact h.state
    · rw [hSame]
      exact (Lease.refresh_state h.started h.state).imp_left And.left
  -- nothing is sent, so the commands are those there were
  · obtain ⟨new, hNew, hAll, hLength⟩ := h.starts
    refine ⟨new, ?_, hAll, (Nat.add_le_add_left hLeft _).trans hLength⟩
    show (if e = .sendRenew then _ else t.starts) = _
    rw [if_neg hSend]
    exact hNew
  · have hLog := h.log
    show t.log.length + 1 + 4 * (t.guard.next b o t.now e).renewal.left _ _ t.now +
      (t.guard.next b o t.now e).renewal.turn ≤ _
    omega

theorem Retrying.wake (h : Retrying o s t) (hEn : t.guard.enabled b t.now .wake = true) :
    Retrying o s (t.next b o (.act .wake)) := by
  obtain ⟨start, wait, hRenewal⟩ : ∃ start wait, t.guard.renewal = .waiting start wait := by
    cases hRenewal : t.guard.renewal with
    | waiting start wait => exact ⟨start, wait, rfl⟩
    | off | woken | cleared | renewing _ | stopped => simp [Guard.enabled, hRenewal] at hEn
  have hPaced := h.paced
  rw [hRenewal] at hPaced
  obtain ⟨hStart, hWait, hTime⟩ := hPaced
  refine h.quiet rfl (by rintro ⟨⟩) (Or.inl rfl) trivial ?_ ?_
  · show (if t.now < s.guard.lease.deadline then _ else _) ≤ left o s t
    split
    · rename_i hAhead
      -- something remains of the lease, so it is the wait that is over
      have hRemaining : t.guard.lease.remaining t.now ≠ 0 := by
        rw [Lease.remaining_of_started h.started h.state, h.deadline]
        omega
      have hOver : wait ≤ elapsed t.now start := by
        simpa [Guard.enabled, hRenewal, hRemaining] using hEn
      have hNow : t.now = start + wait := by
        unfold elapsed at hOver
        omega
      have hTry := Backoff.tries_step (r := (s.guard.lease.deadline - start).toNat) (d := 1)
        o.retryPos (by omega) (le_refl 1)
      have hLess : (s.guard.lease.deadline - t.now - 1).toNat =
          (s.guard.lease.deadline - start).toNat - wait - 1 := by omega
      unfold left
      rw [hRenewal, hLess, hWait]
      exact hTry
    · exact Nat.zero_le _
  · rw [hRenewal]
    exact le_refl 2

theorem Retrying.check (h : Retrying o s t) (hEn : t.guard.enabled b t.now .check = true) :
    Retrying o s (t.next b o (.act .check)) := by
  have hRenewal : t.guard.renewal = .woken := by simpa [Guard.enabled] using hEn
  have hNext : (t.guard.next b o t.now .check).renewal =
      if t.guard.lease.stateAt t.now = .active then .cleared else .stopped := rfl
  have hState : (t.guard.next b o t.now .check).lease.state = t.guard.lease.stateAt t.now := rfl
  refine h.quiet rfl (by rintro ⟨⟩) (Or.inr rfl) ?_ ?_ ?_
  · rw [hNext, hState]
    rcases Lease.refresh_state h.started h.state with ⟨hActive, hAhead⟩ | ⟨hLost, -⟩
    · rw [if_pos (show t.guard.lease.stateAt t.now = .active from hActive)]
      exact ⟨hActive, h.deadline ▸ hAhead⟩
    · have hNot : t.guard.lease.stateAt t.now ≠ .active := by
        rw [show t.guard.lease.stateAt t.now = .lost from hLost]
        rintro ⟨⟩
      rw [if_neg hNot]
      exact hLost
  -- the check passes only before the deadline, and leaves the tries counted there
  · rw [hNext]
    split
    · rename_i hActive
      have hAhead := ((Lease.stateAt_eq_active_of_started h.started).mp hActive).2
      rw [h.deadline] at hAhead
      unfold left
      rw [hRenewal]
      show _ ≤ if _ then _ else _
      rw [if_pos hAhead]
      exact le_refl _
    · exact Nat.zero_le _
  · rw [hNext, hRenewal]
    split <;> exact le_refl 1

/-- The async loop sees that the lease ended. -/
theorem Retrying.inactiveSeen (h : Retrying o s t)
    (hEn : t.guard.enabled b t.now .inactiveSeen = true) :
    Retrying o s (t.next b o (.act .inactiveSeen)) := by
  cases hRenewal : t.guard.renewal with
  | waiting start wait =>
    have hNot : t.guard.lease.stateAt t.now ≠ .active := by
      have hBoth : b = .async ∧ t.guard.lease.stateAt t.now ≠ .active := by
        simpa [Guard.enabled, hRenewal] using hEn
      exact hBoth.2
    refine h.quiet rfl (by rintro ⟨⟩) (Or.inr rfl) ?_ (Nat.zero_le _) ?_
    · show (t.guard.lease.refresh t.now).state = .lost
      rcases Lease.refresh_state h.started h.state with ⟨hActive, -⟩ | ⟨hLost, -⟩
      · exact absurd hActive hNot
      · exact hLost
    · rw [hRenewal]
      exact Nat.le_succ 1
  | off | woken | cleared | renewing _ | stopped => simp [Guard.enabled, hRenewal] at hEn

theorem Retrying.failed {start : Int} (h : Retrying o s t)
    (hRenewal : t.guard.renewal = .renewing start) (hTook : start < t.now) :
    Retrying o s (t.next b o (.act (.renewReply none))) := by
  have hNext : t.guard.next b o t.now (.renewReply none) =
      { t.guard with
        lease := t.guard.lease.refresh t.now
        renewal := .waiting t.now
          (Backoff.wait o.retryInterval (t.guard.lease.remaining t.now)) } :=
    next_failed b o hRenewal
  have hLeft : t.guard.lease.remaining t.now = (s.guard.lease.deadline - t.now).toNat := by
    rw [Lease.remaining_of_started h.started h.state, h.deadline]
  refine h.quiet rfl (fun hNo => (nomatch hNo)) (Or.inr (by rw [hNext])) ?_ ?_ ?_
  · rw [hNext]
    refine ⟨le_refl _, by rw [hLeft], ?_⟩
    omega
  · rw [hNext]
    unfold left
    rw [hRenewal]
    -- at least one tick went by since the command started, and it was paid for by that command
    exact Backoff.tries_mono (by omega)
  · rw [hNext, hRenewal]
    exact le_refl 3

theorem Retrying.sendRenew (h : Retrying o s t) (hEn : t.guard.enabled b t.now .sendRenew = true) :
    Retrying o s (t.next b o (.act .sendRenew)) := by
  have hRenewal : t.guard.renewal = .cleared := by simpa [Guard.enabled] using hEn
  have hPaced := h.paced
  rw [hRenewal] at hPaced
  obtain ⟨hActive, hAhead⟩ := hPaced
  have hLeft : left o s t = 1 + left o s (t.next b o (.act .sendRenew)) := by
    unfold left
    rw [hRenewal]
    rfl
  obtain ⟨new, hNew, hAll, hLength⟩ := h.starts
  refine ⟨h.unstopped, h.deadline, h.started, h.state, ⟨hActive, le_refl _⟩,
    ⟨t.now :: new, ?_, fun x hx => ?_, ?_⟩, ?_⟩
  · show t.now :: t.starts = _
    rw [hNew, List.cons_append]
  -- the check that cleared it saw the deadline ahead
  · rcases List.mem_cons.mp hx with rfl | hx
    · exact hAhead
    · exact hAll x hx
  · rw [List.length_cons]
    omega
  · have hLog := h.log
    rw [hRenewal] at hLog
    show t.log.length + 1 + _ + 3 ≤ _
    unfold Renewal.turn at hLog
    omega

/-- **One event** of a run of failures keeps the count. -/
theorem Retrying.step {e : ClockedEvent} (h : Retrying o s t) (hEn : t.enabled b e)
    (hFailing : Failing t e) : Retrying o s (t.next b o e) := by
  cases e with
  | pass d => exact h.pass hEn
  | exec => exact ⟨h.unstopped, h.deadline, h.started, h.state, h.paced, h.starts, h.log⟩
  | act e =>
    obtain ⟨hLoop, hGuard⟩ := hEn
    cases e with
    | stopSeen =>
      -- nobody has told the loop to stop
      cases hRenewal : t.guard.renewal with
      | waiting start wait => simp [Guard.enabled, hRenewal, h.unstopped] at hGuard
      | off | woken | cleared | renewing _ | stopped => simp [Guard.enabled, hRenewal] at hGuard
    | inactiveSeen => exact h.inactiveSeen hGuard
    | wake => exact h.wake hGuard
    | check => exact h.check hGuard
    | sendRenew => exact h.sendRenew hGuard
    | renewReply reply =>
      obtain ⟨rfl, hTook⟩ := hFailing
      cases hRenewal : t.guard.renewal with
      | renewing start => exact h.failed hRenewal (hTook start hRenewal)
      | off | waiting _ _ | woken | cleared | stopped => simp [Guard.enabled, hRenewal] at hGuard
    | beginRelease | sendRelease | releaseReply _ | cancelRelease | sendOrphan | drop => cases hLoop

theorem Retrying.steps {s₀ : Clocked} (h : Retrying o s s₀)
    (hRun : ((clocked b o).restrict Failing).Steps s₀ t) : Retrying o s t :=
  hRun.invariant h fun _ _ hRetrying hEn => hRetrying.step hEn.1 hEn.2

/-- Until it has stopped, the loop has something to do or will have. -/
theorem Retrying.goes_on (h : Retrying o s t) (hGoing : t.guard.renewal ≠ .stopped) :
    ∃ d e, t.enabled b (.pass d) ∧ (t.next b o (.pass d)).enabled b (.act e) ∧
      Failing (t.next b o (.pass d)) (.act e) := by
  -- what is due by `k` ticks from now is reached by letting time pass to the first such instant
  have hDue : ∀ k : Nat, t.guard.due b (t.now + k) = true →
      ∃ d e, t.enabled b (.pass d) ∧ (t.next b o (.pass d)).enabled b (.act e) ∧
        Failing (t.next b o (.pass d)) (.act e) := by
    intro k hDue
    obtain ⟨d, hPass, hDue⟩ := exists_pass hDue
    obtain ⟨e, hLoop, hReply, hEn⟩ := Guard.exists_of_due hDue
    refine ⟨d, e, hPass, ⟨hLoop, hEn⟩, ?_⟩
    cases e with
    | renewReply reply => exact absurd rfl (hReply reply)
    | _ => trivial
  have hPaced := h.paced
  cases hRenewal : t.guard.renewal with
  | waiting start wait =>
    exact hDue (start + wait - t.now).toNat (Guard.due_of_waiting hRenewal (by omega))
  | woken => exact hDue 0 (Guard.due_of_woken hRenewal)
  | cleared => exact hDue 0 (Guard.due_of_cleared hRenewal)
  | renewing start =>
    rw [hRenewal] at hPaced
    obtain ⟨-, hStart⟩ := hPaced
    -- the reply may fail after one tick
    refine ⟨1, .renewReply none, fun k _ => Guard.not_due_of_renewing hRenewal, ⟨rfl, ?_⟩, rfl, ?_⟩
    · show t.guard.enabled b (t.now + 1) (.renewReply none) = true
      simp [Guard.enabled, hRenewal]
    · intro st hSent
      have hSame : st = start := by
        have hBoth := hSent.symm.trans hRenewal
        cases hBoth
        rfl
      show st < t.now + 1
      omega
  | stopped => exact absurd hRenewal hGoing
  | off =>
    rw [hRenewal] at hPaced
    exact hPaced.elim

/-- **Renewal retries stop.** From a failed renewal on, when every renewal fails
and takes at least one tick: each command starts strictly before the deadline,
their number is bounded, and the loop goes on until it stops with the lease
lost, which it does after a bounded number of events. -/
theorem retry_stops (b : Backend) (o : AcquireOptions) (s : Clocked)
    (hs : (clocked b o).Reachable s) (start : Int) (hSent : s.guard.renewal = .renewing start)
    (t : Clocked)
    (hRun : ((clocked b o).restrict Failing).Steps (s.next b o (.act (.renewReply none))) t) :
    (∃ new, t.starts = new ++ s.starts ∧
      (∀ x ∈ new, x < s.guard.lease.start + s.guard.lease.ttl) ∧
      new.length ≤ s.guard.lease.remaining s.now / o.retryInterval +
        Nat.log 2 (2 * o.retryInterval) + 2) ∧
    t.log.length ≤ s.log.length + 4 * (s.guard.lease.remaining s.now / o.retryInterval +
      Nat.log 2 (2 * o.retryInterval)) + 3 ∧
    (t.guard.renewal = .stopped → t.guard.lease.state = .lost) ∧
    (t.guard.renewal ≠ .stopped → ∃ d e, t.enabled b (.pass d) ∧
      (t.next b o (.pass d)).enabled b (.act e) ∧ Failing (t.next b o (.pass d)) (.act e)) := by
  have hRetrying := (retrying_first (b := b) (o := o) (going_of_reachable hs) hSent).steps hRun
  have hTries := Backoff.tries_le (q := o.retryInterval) (r := s.guard.lease.remaining s.now)
  refine ⟨?_, ?_, fun hStopped => ?_, hRetrying.goes_on⟩
  · obtain ⟨new, hNew, hAll, hLength⟩ := hRetrying.starts
    exact ⟨new, hNew, hAll, by omega⟩
  · have hLog := hRetrying.log
    omega
  · have hPaced := hRetrying.paced
    rw [hStopped] at hPaced
    exact hPaced

/-- The first renewal of a guard with default options is on its way. -/
def firstRenewal : Clocked :=
  ((((new .new 0 0 0).next .async .new (.pass 5000000000)).next .async .new (.act .wake)).next
    .async .new (.act .check)).next .async .new (.act .sendRenew)

theorem firstRenewal_reachable : (clocked .async .new).Reachable firstRenewal := by
  have hPass : (new .new 0 0 0).enabled .async (.pass 5000000000) :=
    enabled_pass (show (new .new 0 0 0).guard.renewal = .waiting 0 5000000000 by decide)
      (by decide) (by decide) (by decide) (by decide) (by decide) (by decide)
  have hStart : (clocked .async .new).Reachable (new .new 0 0 0) :=
    .init ⟨0, 0, 0, le_refl _, le_refl _, rfl⟩
  have hTime := hStart.step (.pass 5000000000) hPass
  have hWoken := hTime.step (.act .wake) ⟨rfl, by decide⟩
  have hCleared := hWoken.step (.act .check) ⟨rfl, by decide⟩
  exact hCleared.step (.act .sendRenew) ⟨rfl, by decide⟩

/-- It failed after 1 ns. -/
def firstFailed : Clocked :=
  (firstRenewal.next .async .new (.pass 1)).next .async .new (.act (.renewReply none))

/-- So did the one after it, which started 100 ms later. -/
def secondFailed : Clocked :=
  (((((firstFailed.next .async .new (.pass 100000000)).next .async .new (.act .wake)).next
    .async .new (.act .check)).next .async .new (.act .sendRenew)).next .async .new (.pass 1)).next
    .async .new (.act (.renewReply none))

/-- All of what follows the first failure is a run of failures. -/
theorem secondFailed_steps : ((clocked .async .new).restrict Failing).Steps firstFailed
    secondFailed := by
  have hPass : firstFailed.enabled .async (.pass 100000000) :=
    enabled_pass (show firstFailed.guard.renewal = .waiting 5000000001 100000000 by decide)
      (by decide) (by decide) (by decide) (by decide) (by decide) (by decide)
  have hStart : ((clocked .async .new).restrict Failing).Steps firstFailed firstFailed := .refl
  have hTime := hStart.step (.pass 100000000) ⟨hPass, trivial⟩
  have hWoken := hTime.step (.act .wake) ⟨⟨rfl, by decide⟩, trivial⟩
  have hCleared := hWoken.step (.act .check) ⟨⟨rfl, by decide⟩, trivial⟩
  have hSent := hCleared.step (.act .sendRenew) ⟨⟨rfl, by decide⟩, trivial⟩
  have hLater := hSent.step (.pass 1) ⟨fun k _ => Guard.not_due_of_renewing rfl, trivial⟩
  refine hLater.step (.act (.renewReply none)) ⟨⟨rfl, by decide⟩, rfl, ?_⟩
  rintro start ⟨⟩
  decide

/-- Two renewals have failed. -/
theorem retry_stops_first :
    secondFailed.starts.length = 3 ∧ (∃ new, secondFailed.starts = new ++ firstRenewal.starts ∧
      (∀ x ∈ new, x < 10000000000) ∧
      new.length ≤ 4999999999 / 100000000 + Nat.log 2 200000000 + 2) ∧
    ∃ d e, secondFailed.enabled .async (.pass d) ∧
      (secondFailed.next .async .new (.pass d)).enabled .async (.act e) := by
  have hReach : (clocked .async .new).Reachable (firstRenewal.next .async .new (.pass 1)) :=
    firstRenewal_reachable.step (.pass 1) fun k _ =>
      Guard.not_due_of_renewing
        (show firstRenewal.guard.renewal = .renewing 5000000000 by decide)
  obtain ⟨hStarts, -, -, hOn⟩ :=
    retry_stops .async .new _ hReach 5000000000 (by decide) _ secondFailed_steps
  obtain ⟨d, e, hPass, hAct, -⟩ := hOn (by decide)
  exact ⟨by decide, hStarts, d, e, hPass, hAct⟩

end Clocked

end RLock.Client
