import RLock.Client.Clocked

/-!
# RLock — renewals that come in time

The renewal loop on a clock when every command succeeds and its reply comes
soon enough: a delay of at most the renewal interval that together with the
interval stays below the TTL (`Prompt`). The loop waits from the stamp of the
last command and not from its reply, and the lease runs from the same stamp, so
slow replies do not add up.

The invariant is `Alive`. It ties the place where the loop stands to the stamp
of the last success (`Renewal.InTime`): a wait ends one interval after that
stamp, a command starts exactly then, and the delay of its reply is still within
the interval. What is left of the lease follows by arithmetic from there, since
`build` accepts an interval only if it is below the TTL. The instants at which
the server executed the commands are kept in `Clocked.executed`, and are less
than a TTL apart because each lies between the stamp of its command and the
reply.

The run is followed one event at a time, with a lemma for each. The last section
shows that the loop is never stuck: from every state in which it is alive the
next command can be reached without leaving the schedule (`Again`).

## Results

* `Alive.stateAt` — in each round the lease has the rest of the round left.
* `Alive.step`, `Alive.steps` — one event, and a run, keep the loop in time.
* `Alive.again` — the loop always gets to its next command.
* `renewal_keeps_alive` — the lease stays active, on the client and on the
  server, and commands start one interval apart.
-/

namespace RLock.Client

namespace AcquireOptions

/-- What `build` checked of the renewal interval. -/
theorem renewInterval_lt {o : AcquireOptions} {interval : Nat}
    (h : o.effectiveRenewInterval = some interval) : interval < o.effectiveTtl := by
  unfold effectiveRenewInterval at h
  rw [o.effectiveTtl_eq] at h ⊢
  exact (o.renewOk interval h).2

end AcquireOptions

theorem Guard.enabled_wake {b : Backend} {g : Guard} {now start : Int} {wait : Nat}
    (h : g.renewal = .waiting start wait) (hOver : wait ≤ elapsed now start) :
    g.enabled b now .wake = true := by
  simp [enabled, h, hOver]

namespace Clocked

/-- Every renewal succeeds, and its reply comes in time. -/
def Prompt (o : AcquireOptions) (interval : Nat) (s : Clocked) : ClockedEvent → Prop
  | .pass d => ∀ start, s.guard.renewal = .renewing start →
    s.now + d - start ≤ interval ∧ interval + (s.now + d - start) < o.effectiveTtl
  | .act (.renewReply reply) => reply = some true ∧ s.unexecuted = false
  | _ => True

end Clocked

/-- Where the loop stands when all goes well. `start` is the stamp of the last
success. -/
def Renewal.InTime (ttl interval : Nat) (start now : Int) : Renewal → Prop
  | .waiting st wait => st = start ∧ wait = interval ∧ now ≤ start + interval
  | .woken => now = start + interval
  | .cleared => now = start + interval
  | .renewing st => st = start + interval ∧ st ≤ now ∧ now - st ≤ interval ∧
    interval + (now - st) < ttl
  | .off => False
  | .stopped => False

/-- When the last command started. -/
def Renewal.lastStart (start : Int) : Renewal → Int
  | .renewing st => st
  | _ => start

namespace Clocked

/-- A loop that has been in time so far: the lease is marked active, the loop stands where it
should, its commands started one interval apart and were executed less than a TTL apart. -/
structure Alive (o : AcquireOptions) (interval : Nat) (t : Clocked) : Prop where
  unstopped : t.guard.stop = false
  active : t.guard.lease.state = .active
  ttl : t.guard.lease.ttl = o.effectiveTtl
  started : t.guard.lease.start ≤ t.now
  inTime : t.guard.renewal.InTime o.effectiveTtl interval t.guard.lease.start t.now
  starts : t.starts.IsChain fun (later earlier : Int) => later = earlier + interval
  lastStart : t.starts.head? = some (t.guard.renewal.lastStart t.guard.lease.start)
  executed : t.executed.IsChain fun (later earlier : Int) => later - earlier < o.effectiveTtl
  /-- The server executed the last success after it was sent. -/
  lastExecuted : ∃ x, t.executed.head? = some x ∧ t.guard.lease.start ≤ x ∧
    (t.unexecuted = false → t.guard.renewal.lastStart t.guard.lease.start ≤ x)

variable {b : Backend} {o : AcquireOptions} {interval : Nat} {s t : Clocked}

/-- A new guard whose acquisition was answered within the interval is in time. -/
theorem alive_new {start executed now : Int} (hInterval : o.effectiveRenewInterval = some interval)
    (hExecuted : start ≤ executed) (hNow : executed ≤ now) (hDelay : now - start ≤ interval) :
    Alive o interval (new o start executed now) := by
  have hRenewal : (new o start executed now).guard.renewal = .waiting start interval := by
    unfold new Guard.new
    dsimp only
    rw [hInterval]
  refine ⟨rfl, rfl, rfl, hExecuted.trans hNow, ?_, List.isChain_singleton _, ?_,
    List.isChain_singleton _, ⟨executed, rfl, hExecuted, fun _ => ?_⟩⟩
  · rw [hRenewal]
    refine ⟨rfl, rfl, ?_⟩
    show now ≤ start + interval
    omega
  · rw [hRenewal]
    rfl
  · rw [hRenewal]
    exact hExecuted

/-- The lease has the rest of the round left. -/
theorem Alive.stateAt (h : Alive o interval t)
    (hInterval : o.effectiveRenewInterval = some interval) :
    t.guard.lease.stateAt t.now = .active := by
  have hLess := AcquireOptions.renewInterval_lt hInterval
  have hInTime := h.inTime
  have hStarted := h.started
  refine Lease.stateAt_eq_active.mpr ⟨h.active, ?_⟩
  rw [Lease.elapsed_lt_iff hStarted, h.ttl]
  cases hRenewal : t.guard.renewal with
  | waiting start wait =>
    rw [hRenewal] at hInTime
    have hEnd := hInTime.2.2
    omega
  | woken | cleared =>
    rw [hRenewal] at hInTime
    have hEnd : t.now = t.guard.lease.start + interval := hInTime
    omega
  | renewing st =>
    rw [hRenewal] at hInTime
    obtain ⟨hStart, -, -, hTtl⟩ := hInTime
    omega
  | off | stopped =>
    rw [hRenewal] at hInTime
    exact hInTime.elim

-- ---------------------------------------------------------------------------
-- One step
-- ---------------------------------------------------------------------------

/-- Time passes only up to the next thing that is due, and a reply does not take longer than
`Prompt` allows. -/
theorem Alive.pass {d : Nat} (h : Alive o interval t) (hEn : t.enabled b (.pass d))
    (hPrompt : Prompt o interval t (.pass d)) : Alive o interval (t.next b o (.pass d)) := by
  have hInTime := h.inTime
  have hStarted := h.started
  have hZero : t.guard.due b t.now = true → d = 0 := pass_eq_zero hEn
  refine ⟨h.unstopped, h.active, h.ttl, ?_, ?_, h.starts, h.lastStart, h.executed, h.lastExecuted⟩
  · show t.guard.lease.start ≤ t.now + d
    omega
  · show t.guard.renewal.InTime _ _ t.guard.lease.start (t.now + d)
    cases hRenewal : t.guard.renewal with
    | waiting start wait =>
      rw [hRenewal] at hInTime
      obtain ⟨hStart, hWait, hTime⟩ := hInTime
      have hEnd := pass_le hEn hRenewal (by omega)
      -- the end of the wait would be due, so time cannot pass beyond it
      exact ⟨hStart, hWait, by omega⟩
    | woken =>
      rw [hRenewal] at hInTime
      -- something is due at once: no time passes
      have hNone := hZero (Guard.due_of_woken hRenewal)
      subst hNone
      simpa using hInTime
    | cleared =>
      rw [hRenewal] at hInTime
      have hNone := hZero (Guard.due_of_cleared hRenewal)
      subst hNone
      simpa using hInTime
    | renewing st =>
      rw [hRenewal] at hInTime
      obtain ⟨hStart, hSent, -, -⟩ := hInTime
      obtain ⟨hInterval, hTtl⟩ := hPrompt st hRenewal
      -- the promise about the reply is the one that `Prompt` makes for this delay
      exact ⟨hStart, by omega, hInterval, hTtl⟩
    | off | stopped =>
      rw [hRenewal] at hInTime
      exact hInTime.elim

/-- The server executes the command that runs. -/
theorem Alive.exec (h : Alive o interval t) (hEn : t.enabled b .exec) :
    Alive o interval (t.next b o .exec) := by
  obtain ⟨⟨st, hRenewal⟩, -⟩ := hEn
  have hInTime := h.inTime
  rw [hRenewal] at hInTime
  obtain ⟨hStart, hSent, -, hTtl⟩ := hInTime
  obtain ⟨x, hHead, hAfter, -⟩ := h.lastExecuted
  refine ⟨h.unstopped, h.active, h.ttl, h.started, h.inTime, h.starts, h.lastStart, ?_,
    ⟨t.now, rfl, h.started, fun _ => ?_⟩⟩
  · -- the last success was executed after its own stamp, one interval before this one
    show (t.now :: t.executed).IsChain _
    refine List.isChain_cons.mpr ⟨fun y hy => ?_, h.executed⟩
    rw [hHead, Option.mem_some_iff] at hy
    omega
  · show t.guard.renewal.lastStart _ ≤ t.now
    rw [hRenewal]
    exact hSent

/-- The loop wakes exactly at the end of its wait. -/
theorem Alive.wake (h : Alive o interval t) (hInterval : o.effectiveRenewInterval = some interval)
    (hEn : t.guard.enabled b t.now .wake = true) : Alive o interval (t.next b o (.act .wake)) := by
  have hInTime := h.inTime
  have hLastStart := h.lastStart
  have hLastExecuted := h.lastExecuted
  cases hRenewal : t.guard.renewal with
  | waiting start wait =>
    rw [hRenewal] at hInTime hLastStart hLastExecuted
    obtain ⟨rfl, rfl, hTime⟩ := hInTime
    have hLess := AcquireOptions.renewInterval_lt hInterval
    have hTtl := h.ttl
    have hStarted := h.started
    -- something remains of the lease, so it is the wait that is over
    have hRemaining : t.guard.lease.remaining t.now ≠ 0 := by
      unfold Lease.remaining
      rw [if_pos (show (t.guard.lease.refresh t.now).state = .active from h.stateAt hInterval)]
      unfold elapsed
      omega
    have hOver : wait ≤ elapsed t.now t.guard.lease.start := by
      simpa [Guard.enabled, hRenewal, hRemaining] using hEn
    have hNow : t.now = t.guard.lease.start + wait := by
      unfold elapsed at hOver
      omega
    exact ⟨h.unstopped, h.active, h.ttl, h.started, hNow, h.starts, hLastStart, h.executed,
      hLastExecuted⟩
  | off | woken | cleared | renewing _ | stopped => simp [Guard.enabled, hRenewal] at hEn

/-- The check before a command finds the lease active. -/
theorem Alive.check (h : Alive o interval t) (hInterval : o.effectiveRenewInterval = some interval)
    (hEn : t.guard.enabled b t.now .check = true) :
    Alive o interval (t.next b o (.act .check)) := by
  have hRenewal : t.guard.renewal = .woken := by simpa [Guard.enabled] using hEn
  have hActive := h.stateAt hInterval
  have hNext : t.guard.next b o t.now .check = { t.guard with renewal := .cleared } := by
    unfold Guard.next
    dsimp only
    rw [if_pos hActive, Lease.refresh_of_active hActive]
  have hInTime := h.inTime
  have hLastStart := h.lastStart
  have hLastExecuted := h.lastExecuted
  rw [hRenewal] at hInTime hLastStart hLastExecuted
  have hGuard : (t.next b o (.act .check)).guard = { t.guard with renewal := .cleared } := hNext
  refine ⟨?_, ?_, ?_, ?_, ?_, h.starts, ?_, h.executed, ?_⟩
  all_goals rw [hGuard]
  · exact h.unstopped
  · exact h.active
  · exact h.ttl
  · exact h.started
  · exact hInTime
  · exact hLastStart
  · exact hLastExecuted

theorem Alive.sendRenew (h : Alive o interval t)
    (hInterval : o.effectiveRenewInterval = some interval)
    (hEn : t.guard.enabled b t.now .sendRenew = true) :
    Alive o interval (t.next b o (.act .sendRenew)) := by
  have hRenewal : t.guard.renewal = .cleared := by simpa [Guard.enabled] using hEn
  have hInTime := h.inTime
  have hLastStart := h.lastStart
  rw [hRenewal] at hInTime hLastStart
  have hNow : t.now = t.guard.lease.start + interval := hInTime
  have hLess := AcquireOptions.renewInterval_lt hInterval
  obtain ⟨x, hHead, hAfter, -⟩ := h.lastExecuted
  refine ⟨h.unstopped, h.active, h.ttl, h.started, ⟨hNow, le_refl _, ?_, ?_⟩, ?_, rfl, h.executed,
    ⟨x, hHead, hAfter, (by rintro ⟨⟩)⟩⟩
  · show t.now - t.now ≤ interval
    omega
  · show interval + (t.now - t.now) < (o.effectiveTtl : Int)
    omega
  · show (t.now :: t.starts).IsChain _
    -- the command before it started at the stamp the lease has, one interval ago
    refine List.isChain_cons.mpr ⟨fun y hy => ?_, h.starts⟩
    rw [hLastStart, Option.mem_some_iff] at hy
    rw [← hy]
    exact hNow

/-- A success moves the lease to the stamp of its command. -/
theorem Alive.guard_renewed {st : Int} (h : Alive o interval t)
    (hInterval : o.effectiveRenewInterval = some interval)
    (hRenewal : t.guard.renewal = .renewing st) :
    (t.next b o (.act (.renewReply (some true)))).guard =
      { t.guard with
        lease := { t.guard.lease with start := st, ttl := o.effectiveTtl }
        renewal := .waiting st interval } := by
  have hInTime := h.inTime
  rw [hRenewal] at hInTime
  obtain ⟨-, hSent, -, hTtl⟩ := hInTime
  -- the reply came before the renewed lease would end
  have hAhead : ¬ o.effectiveTtl ≤ elapsed t.now st := by
    unfold elapsed
    omega
  have hActive := h.stateAt hInterval
  have hRenew : t.guard.lease.renew t.now st o.effectiveTtl =
      (true, { t.guard.lease with start := st, ttl := o.effectiveTtl }) := by
    unfold Lease.renew
    dsimp only
    rw [Lease.refresh_of_active hActive, if_neg (not_not.mpr h.active), if_neg hAhead]
  show t.guard.next b o t.now (.renewReply (some true)) = _
  unfold Guard.next
  dsimp only
  rw [hRenewal]
  unfold Guard.afterReply
  dsimp only
  rw [hRenew, hInterval]
  rfl

/-- The reply of an executed command starts the next round at the stamp of that command. -/
theorem Alive.renewed {st : Int} (h : Alive o interval t)
    (hInterval : o.effectiveRenewInterval = some interval)
    (hRenewal : t.guard.renewal = .renewing st) (hExecuted : t.unexecuted = false) :
    Alive o interval (t.next b o (.act (.renewReply (some true)))) := by
  have hGuard := h.guard_renewed (b := b) hInterval hRenewal
  have hInTime := h.inTime
  have hLastStart := h.lastStart
  have hLastExecuted := h.lastExecuted
  rw [hRenewal] at hInTime hLastStart hLastExecuted
  obtain ⟨-, hSent, hDelay, -⟩ := hInTime
  obtain ⟨x, hHead, -, hAfter⟩ := hLastExecuted
  refine ⟨?_, ?_, ?_, ?_, ?_, h.starts, ?_, h.executed, ⟨x, hHead, ?_, fun _ => ?_⟩⟩
  all_goals rw [hGuard]
  · exact h.unstopped
  · exact h.active
  · exact hSent
  · refine ⟨rfl, rfl, ?_⟩
    show t.now ≤ st + interval
    omega
  · exact hLastStart
  · exact hAfter hExecuted
  · exact hAfter hExecuted

/-- One event that keeps the schedule leaves the loop in time. -/
theorem Alive.step {e : ClockedEvent} (h : Alive o interval t)
    (hInterval : o.effectiveRenewInterval = some interval) (hEn : t.enabled b e)
    (hPrompt : Prompt o interval t e) : Alive o interval (t.next b o e) := by
  cases e with
  | pass d => exact h.pass hEn hPrompt
  | exec => exact h.exec hEn
  | act e =>
    obtain ⟨hLoop, hGuard⟩ := hEn
    cases e with
    | stopSeen =>
      -- nobody has told the loop to stop
      cases hRenewal : t.guard.renewal with
      | waiting start wait => simp [Guard.enabled, hRenewal, h.unstopped] at hGuard
      | off | woken | cleared | renewing _ | stopped => simp [Guard.enabled, hRenewal] at hGuard
    | inactiveSeen =>
      cases hRenewal : t.guard.renewal with
      | waiting start wait =>
        simp [Guard.enabled, hRenewal, h.stateAt hInterval] at hGuard
      | off | woken | cleared | renewing _ | stopped => simp [Guard.enabled, hRenewal] at hGuard
    | wake => exact h.wake hInterval hGuard
    | check => exact h.check hInterval hGuard
    | sendRenew => exact h.sendRenew hInterval hGuard
    | renewReply reply =>
      obtain ⟨rfl, hExecuted⟩ := hPrompt
      cases hRenewal : t.guard.renewal with
      | renewing st => exact h.renewed hInterval hRenewal hExecuted
      | off | waiting _ _ | woken | cleared | stopped => simp [Guard.enabled, hRenewal] at hGuard
    -- not events of the loop
    | beginRelease | sendRelease | releaseReply _ | cancelRelease | sendOrphan | drop => cases hLoop

/-- So does a run of such events. -/
theorem Alive.steps (h : Alive o interval s) (hInterval : o.effectiveRenewInterval = some interval)
    (hRun : ((clocked b o).restrict (Prompt o interval)).Steps s t) : Alive o interval t :=
  hRun.invariant h fun _ _ hAlive hEn => hAlive.step hInterval hEn.1 hEn.2

-- ---------------------------------------------------------------------------
-- The next command
-- ---------------------------------------------------------------------------

/-- `t` gets to one more command. -/
def Again (b : Backend) (o : AcquireOptions) (interval : Nat) (t : Clocked) : Prop :=
  ∃ t', ((clocked b o).restrict (Prompt o interval)).Steps t t' ∧
    t'.starts.length = t.starts.length + 1

/-- A step that starts no command can be put before. -/
theorem Again.of_step {e : ClockedEvent} (hEn : t.enabled b e) (hPrompt : Prompt o interval t e)
    (hSame : (t.next b o e).starts = t.starts) (h : Again b o interval (t.next b o e)) :
    Again b o interval t := by
  obtain ⟨t', hRun, hLength⟩ := h
  have hRestricted : ((clocked b o).restrict (Prompt o interval)).enabled t e := ⟨hEn, hPrompt⟩
  have hStep : ((clocked b o).restrict (Prompt o interval)).Steps t (t.next b o e) :=
    .step .refl e hRestricted
  exact ⟨t', hStep.trans hRun, by rw [hLength, hSame]⟩

/-- After the check the command is sent at once. -/
theorem again_of_cleared (h : t.guard.renewal = .cleared) : Again b o interval t := by
  have hEn : t.enabled b (.act .sendRenew) := ⟨rfl, by simp [Guard.enabled, h]⟩
  have hRestricted : ((clocked b o).restrict (Prompt o interval)).enabled t (.act .sendRenew) :=
    ⟨hEn, trivial⟩
  exact ⟨t.next b o (.act .sendRenew), .step .refl _ hRestricted, rfl⟩

/-- After a wait there is the check, which passes. -/
theorem Alive.again_of_woken (h : Alive o interval t)
    (hInterval : o.effectiveRenewInterval = some interval) (hRenewal : t.guard.renewal = .woken) :
    Again b o interval t := by
  have hEn : t.enabled b (.act .check) := ⟨rfl, by simp [Guard.enabled, hRenewal]⟩
  refine .of_step hEn trivial rfl (again_of_cleared ?_)
  exact if_pos (h.stateAt hInterval)

/-- A wait is followed by the check: time passes to its end, and no further. -/
theorem Alive.again_of_waiting {start : Int} {wait : Nat} (h : Alive o interval t)
    (hInterval : o.effectiveRenewInterval = some interval)
    (hRenewal : t.guard.renewal = .waiting start wait) : Again b o interval t := by
  have hInTime := h.inTime
  rw [hRenewal] at hInTime
  obtain ⟨rfl, rfl, hTime⟩ := hInTime
  have hStarted := h.started
  have hLess := AcquireOptions.renewInterval_lt hInterval
  -- nothing happens before the end of the wait
  have hPass : t.enabled b (.pass (t.guard.lease.start + wait - t.now).toNat) := by
    intro k hk
    refine Guard.not_due_of_waiting hRenewal h.unstopped
      (Lease.stateAt_eq_active.mpr ⟨h.active, ?_⟩) (by omega) (by omega)
    rw [Lease.elapsed_lt_iff (by omega), h.ttl]
    omega
  have hPrompt : Prompt o wait t (.pass (t.guard.lease.start + wait - t.now).toNat) := by
    intro st hSent
    have hBoth := hSent.symm.trans hRenewal
    cases hBoth
  refine .of_step hPass hPrompt rfl ?_
  have hWaited := h.pass hPass hPrompt
  have hEn : (t.next b o (.pass (t.guard.lease.start + wait - t.now).toNat)).enabled b
      (.act .wake) := by
    have hOver : wait ≤ elapsed (t.now + (t.guard.lease.start + wait - t.now).toNat)
        t.guard.lease.start := by
      unfold elapsed
      omega
    exact ⟨rfl, Guard.enabled_wake hRenewal hOver⟩
  exact .of_step hEn trivial rfl ((hWaited.wake hInterval hEn.2).again_of_woken hInterval rfl)

/-- **The loop always gets to its next command.** -/
theorem Alive.again (h : Alive o interval t)
    (hInterval : o.effectiveRenewInterval = some interval) : Again b o interval t := by
  -- a reply that may come leads to the next wait
  have hReply : ∀ {u : Clocked} {st : Int}, Alive o interval u → u.guard.renewal = .renewing st →
      u.unexecuted = false → Again b o interval u := by
    intro u st hAlive hRenewal hExecuted
    have hEn : u.enabled b (.act (.renewReply (some true))) :=
      ⟨rfl, by simp [Guard.enabled, hRenewal]⟩
    have hRenewed := hAlive.renewed (b := b) hInterval hRenewal hExecuted
    have hGuard := hAlive.guard_renewed (b := b) hInterval hRenewal
    exact .of_step hEn ⟨rfl, hExecuted⟩ rfl
      (hRenewed.again_of_waiting hInterval (congrArg Guard.renewal hGuard))
  have hInTime := h.inTime
  cases hRenewal : t.guard.renewal with
  | waiting start wait => exact h.again_of_waiting hInterval hRenewal
  | woken => exact h.again_of_woken hInterval hRenewal
  | cleared => exact again_of_cleared hRenewal
  | renewing st =>
    cases hExecuted : t.unexecuted with
    | false => exact hReply h hRenewal hExecuted
    | true =>
      -- the server executes the command first
      have hEn : t.enabled b .exec := ⟨⟨st, hRenewal⟩, hExecuted⟩
      exact .of_step hEn trivial rfl (hReply (h.exec hEn) hRenewal rfl)
  | off | stopped =>
    rw [hRenewal] at hInTime
    exact hInTime.elim

/-- **Automatic renewal keeps the lease alive** as long as every command
succeeds in time and nobody releases or drops the guard, in both backends and
for any number of rounds. -/
theorem renewal_keeps_alive (b : Backend) (o : AcquireOptions) (interval : Nat)
    (hInterval : o.effectiveRenewInterval = some interval) (start executed now : Int)
    (hExecuted : start ≤ executed) (hNow : executed ≤ now) (hDelay : now - start ≤ interval)
    (t : Clocked)
    (hRun : ((clocked b o).restrict (Prompt o interval)).Steps (new o start executed now) t) :
    t.guard.lease.stateAt t.now = .active ∧
    (t.executed.IsChain fun (later earlier : Int) => later - earlier < o.effectiveTtl) ∧
    (t.starts.IsChain fun (later earlier : Int) => later = earlier + interval) ∧
    ∃ t', ((clocked b o).restrict (Prompt o interval)).Steps t t' ∧
      t'.starts.length = t.starts.length + 1 := by
  have hAlive := (alive_new hInterval hExecuted hNow hDelay).steps hInterval hRun
  exact ⟨hAlive.stateAt hInterval, hAlive.executed, hAlive.starts, hAlive.again hInterval⟩

/-- With default options, after an acquisition that took 3 ns: the first renewal has
just been answered. -/
def renewed : Clocked :=
  (((((((new .new 0 1 3).next .sync .new (.pass 4999999997)).next .sync .new (.act .wake)).next
    .sync .new (.act .check)).next .sync .new (.act .sendRenew)).next .sync .new .exec).next
    .sync .new (.pass 2)).next .sync .new (.act (.renewReply (some true)))

/-- Each of its seven events keeps the schedule. -/
theorem renewed_steps :
    ((clocked .sync .new).restrict (Prompt .new 5000000000)).Steps (new .new 0 1 3) renewed := by
  have hPass : (new .new 0 1 3).enabled .sync (.pass 4999999997) :=
    enabled_pass (show (new .new 0 1 3).guard.renewal = .waiting 0 5000000000 by decide)
      (by decide) (by decide) (by decide) (by decide) (by decide) (by decide)
  have hStart : ((clocked .sync .new).restrict (Prompt .new 5000000000)).Steps
      (new .new 0 1 3) (new .new 0 1 3) := .refl
  have hTime := hStart.step (.pass 4999999997) ⟨hPass, by rintro start ⟨⟩⟩
  have hWoken := hTime.step (.act .wake) ⟨⟨rfl, by decide⟩, trivial⟩
  have hCleared := hWoken.step (.act .check) ⟨⟨rfl, by decide⟩, trivial⟩
  have hSent := hCleared.step (.act .sendRenew) ⟨⟨rfl, by decide⟩, trivial⟩
  have hExecuted := hSent.step .exec ⟨⟨⟨_, rfl⟩, rfl⟩, trivial⟩
  have hLater := hExecuted.step (.pass 2) ⟨fun k _ => Guard.not_due_of_renewing rfl, by
    rintro start ⟨⟩
    decide⟩
  exact hLater.step (.act (.renewReply (some true))) ⟨⟨rfl, by decide⟩, rfl, rfl⟩

/-- The theorem after one round with default options: two commands have started, 5 s apart, and the
third one follows. -/
theorem renewal_keeps_alive_default :
    renewed.guard.lease.stateAt renewed.now = .active ∧ renewed.starts = [5000000000, 0] ∧
      (renewed.executed.IsChain fun (later earlier : Int) => later - earlier < 10000000000) ∧
      ∃ t', ((clocked .sync .new).restrict (Prompt .new 5000000000)).Steps renewed t' ∧
        t'.starts.length = 3 := by
  have hInterval : AcquireOptions.new.effectiveRenewInterval = some 5000000000 := by decide
  obtain ⟨hActive, hExecuted, -, hAgain⟩ := renewal_keeps_alive .sync .new 5000000000 hInterval
    0 1 3 (by decide) (by decide) (by decide) _ renewed_steps
  exact ⟨hActive, by decide, hExecuted, hAgain⟩

end Clocked

end RLock.Client
