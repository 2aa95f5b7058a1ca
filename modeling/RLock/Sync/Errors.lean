import RLock.Sync.Outcome

/-!
# RLock — the errors of a sync acquisition

An error that `acquire_internal` returns tells what happened: for each of them an
event of the run is named that is its cause. A `WorkerError` is a thread that could not
be spawned; a worker that runs tells its caller before it goes away.

An error is on its way in the loop (`Task.fails`), in the channel, or with a caller that
is about to return it (`Caller.fails`); a deadline that the caller has missed is also in
the flag, which the loop reads. `State.names` is that it is at one of these places, and
`names_next` that it gets to the first of them by an event that is its cause. From there
the rule for runs (`Machine.Path.cause`) finds the event in the history of any state that
names it.

That a worker tells its caller is a fact about the channel: it gives up its sender by
sending, so a caller that receives has a worker left, or a message (`State.Heard`).

## Results

* `heard_of_reachable` — who waits has a worker, or a result.
* `names_next` — an error that is named first by an event is caused by it.
* `errors_told` — every error that is returned.
-/

namespace RLock.Sync

open RLock.Client

/-- What the loop is about to return. -/
def Task.fails : Task → Option AcquireError
  | .finished (.failed e) => some e
  | .lateRelease e => some e
  | .lateReleasing e => some e
  | .ioError => some .redisError
  | _ => none

/-- What the caller is about to return, or has returned. -/
def Caller.fails : Caller → Option AcquireError
  | .returned (.error e) => some e
  | .checkDeadline (.failed e) => some e
  | .checkShutdown (.failed e) => some e
  | .checkLease (.failed e) => some e
  | .timedOut _ => some .lockTimeout
  | .leaving _ => some .lockTimeout
  | _ => none

/-- The error is on its way to the caller, or has reached it. -/
def State.names (err : AcquireError) (s : State) : Prop :=
  s.caller.fails = some err ∨ s.result.value = some (.failed err) ∨ s.task.fails = some err ∨
    s.canceled = true ∧ err = .lockTimeout

/-- The lease of the guard is out of time when it is checked. -/
def State.Outlived (now : Int) (s : State) : Prop :=
  ∀ g, s.guard = some g → g.lease.stateAt now ≠ .active

/-- What makes the request fail in this way: the manager is closed or has given up its
sender, the deadline has passed, a lease is out of time when it is checked, the command
failed or no connection could be opened for it, a thread could not be spawned. -/
def Cause (o : AcquireOptions) (err : AcquireError) (s : State) (e : View × Event) : Prop :=
  match err with
  | .shutdown => e.1.isOpen = false ∨ e.1.hasSender = false
  | .lockTimeout => deadlineElapsed e.1.now s.start o.lockTimeout = true
  | .leaseExpired =>
    (∃ start ok, s.task = .lateLease start ∧ e.2 = .task ok ∧
      (Lease.new start o.effectiveTtl).stateAt e.1.now ≠ .active) ∨
    (s.caller = .checkLease .acquisition ∨ s.caller = .finalLease) ∧
      (∃ ok, e.2 = .caller ok) ∧ s.Outlived e.1.now
  | .redisError =>
    (∃ io, e.2 = .acquireReply (.error io)) ∨ ∃ start, s.task = .checkout start ∧ e.2 = .task false
  | .workerError =>
    s.caller = .spawning ∧ e.2 = .caller false ∨
      ∃ start, s.task = .newGuard start ∧ e.2 = .task false ∧ o.effectiveRenewInterval ≠ none

/-- Whoever waits has a worker left, or a result. -/
def State.Heard (s : State) : Prop :=
  s.caller = .receiving → s.result.txAlive = false → s.result.value.isSome = true

section

variable {s t : State} {o : AcquireOptions} {once ok : Bool} {v : View} {err : AcquireError}

theorem names_of_result (h : s.result.value = some (.failed err)) : s.names err := Or.inr (Or.inl h)

theorem names_of_task (h : s.task.fails = some err) : s.names err := Or.inr (Or.inr (Or.inl h))

theorem names_of_canceled (h : s.canceled = true) (hErr : err = .lockTimeout) : s.names err :=
  Or.inr (Or.inr (Or.inr ⟨h, hErr⟩))

-- ---------------------------------------------------------------------------
-- Who waits is told
-- ---------------------------------------------------------------------------

/-- The worker lets go of its sender by sending. -/
theorem taskStep_sends (o : AcquireOptions) (once : Bool) (v : View) (ok : Bool) (s : State) :
    (taskStep o once v ok s).result = s.result ∨
      ∃ m, s.task = .finished m ∧ (taskStep o once v ok s).result = (s.result.send m).2 := by
  unfold taskStep
  cases hTask : s.task with
  | loopTimeout | loopShutdown | lateShutdown start | lateTimeout start | lateLease start
  | contended | contendedTimeout | ioError | sending start | lateRelease e | cleanup =>
    exact Or.inl (State.check_keeps _ _ s).2.1
  | loopCanceled | stamp | checkout start | lateCanceled start | contendedOnce | retryWait
  | parking wait | waiting start wait => exact Or.inl (State.goto_keeps _ s).2.1
  | newGuard start =>
    dsimp only
    split
    · exact Or.inl rfl
    · obtain ⟨-, -, -, hResult⟩ := State.guardStep_keeps o v.now .drop
        { s with guard := some (Guard.unspawned o (Lease.new start o.effectiveTtl) start) }
      exact Or.inl hResult
  | finished m =>
    cases m with
    | acquisition =>
      dsimp only
      split
      · exact Or.inr ⟨.acquisition, rfl, rfl⟩
      · obtain ⟨-, -, -, hResult⟩ :=
          State.guardStep_keeps o v.now .drop (s.note (.result .acquisition))
        exact Or.inl hResult
    | nothing | failed e => exact Or.inr ⟨_, rfl, rfl⟩
  | awaitAccepted =>
    dsimp only
    split <;> exact Or.inl rfl
  | unborn | acquiring start | lateReleasing e | cleaning | done => exact Or.inl rfl

/-- Only the caller and the loop touch the channel and the flag. -/
theorem result_other {e : Event} (hCaller : ∀ ok, e ≠ .caller ok) (hTask : ∀ ok, e ≠ .task ok) :
    (next o once v s e).result = s.result ∧ (next o once v s e).canceled = s.canceled := by
  cases e with
  | caller ok => exact absurd rfl (hCaller ok)
  | task ok => exact absurd rfl (hTask ok)
  | acquireReply r =>
    show (acquireReplied r s).result = s.result ∧ (acquireReplied r s).canceled = s.canceled
    unfold acquireReplied
    split <;> exact ⟨rfl, rfl⟩
  | releaseReply ok =>
    show (releaseReplied s).result = s.result ∧ (releaseReplied s).canceled = s.canceled
    unfold releaseReplied
    split <;> exact ⟨rfl, rfl⟩
  | guard e => exact (next_guard_keeps o once v s e).2.1

/-- A caller that starts to wait has a fresh channel. -/
theorem callerStep_receives (o : AcquireOptions) (v : View) (ok : Bool) (s : State) :
    (callerStep o v ok s).caller = .receiving →
      s.caller = .receiving ∧ (callerStep o v ok s).result = s.result ∨
        (callerStep o v ok s).result.txAlive = true := by
  have hLeft : ∀ (e : AcquireError) (s' : State) {P : Prop},
      (s'.leave o v.now e).caller = .receiving → P := by
    intro e s' P hNo
    rw [(State.leave_keeps o v.now e s').2.1] at hNo
    cases hNo
  unfold callerStep
  cases hCaller : s.caller with
  | begin | timedOut m | accept => exact fun hNo => by cases hNo
  | returned r =>
    intro hNo
    rw [hCaller] at hNo
    cases hNo
  | checkZero | checkDeadline m =>
    intro hNo
    change (if _ then _ else _ : Caller) = .receiving at hNo
    split at hNo <;> cases hNo
  | admission =>
    dsimp only
    split
    · split <;> exact fun hNo => by cases hNo
    · exact fun hNo => by cases hNo
  | spawning =>
    dsimp only
    split
    · exact fun _ => Or.inr rfl
    · exact fun hNo => by cases hNo
  | receiving =>
    dsimp only
    split
    · split
      · exact fun hNo => by cases hNo
      · exact hLeft _ _
    · exact fun hNo => by cases hNo
  | inLoop =>
    dsimp only
    split
    · exact fun hNo => by cases hNo
    · exact fun hNo => by cases hNo
    · exact fun hNo => by cases hNo
    · intro hNo
      rw [hCaller] at hNo
      cases hNo
  | leaving m => exact hLeft _ _
  | checkShutdown m | finalLease =>
    dsimp only
    split
    · exact fun hNo => by cases hNo
    · exact hLeft _ _
  | checkLease m =>
    cases m with
    | failed e | nothing => exact fun hNo => by cases hNo
    | acquisition =>
      dsimp only
      split
      · exact fun hNo => by cases hNo
      · exact hLeft _ _

/-- **One event** leaves whoever receives with a worker or a message. -/
theorem State.Heard.step {e : Event} (h : s.Heard) (hInv : Inv s) :
    (next o once v s e).Heard := by
  intro hWaits hTx
  cases e with
  | caller ok =>
    -- it received before, or is about to start with a fresh channel
    rcases callerStep_receives o v ok s hWaits with ⟨hHere, hSame⟩ | hFresh
    · have hNow : (next o once v s (.caller ok)).result = s.result := hSame
      rw [hNow] at hTx ⊢
      exact h hHere hTx
    · exact absurd (hTx.symm.trans hFresh) Bool.false_ne_true
  | task ok =>
    have hHere : s.caller = .receiving :=
      (taskStep_caller o once v ok s).1.symm.trans hWaits
    have hRx : s.result.rxAlive = true := hInv.waits (by rw [hHere]; rfl)
    rcases taskStep_sends o once v ok s with hSame | ⟨m, -, hSent⟩
    · have hNow : (next o once v s (.task ok)).result = s.result := hSame
      rw [hNow] at hTx ⊢
      exact h hHere hTx
    -- somebody receives, so what is sent is in the channel
    · show (taskStep o once v ok s).result.value.isSome = true
      rw [hSent]
      unfold Channel.send
      rw [if_pos hRx]
      rfl
  | acquireReply r | releaseReply ok | guard e =>
    rw [(caller_next o once v s fun _ hNo => by cases hNo).1] at hWaits
    rw [(result_other (fun _ hNo => by cases hNo) fun _ hNo => by cases hNo).1] at hTx ⊢
    exact h hWaits hTx

/-- **Who waits** has a worker left, or a result. -/
theorem heard_of_reachable (hs : (acquisition o once).Reachable s) : s.Heard := by
  refine hs.invariant_of (J := Inv) (fun s => inv_of_reachable) (fun s hInit => ?_)
    fun s e hInv hHeard _ => hHeard.step hInv
  rw [show s = State.initial from hInit]
  exact fun hNo => by cases hNo

-- ---------------------------------------------------------------------------
-- Where an error comes from
-- ---------------------------------------------------------------------------

/-- A check of the lease that fails finds it out of time. -/
theorem outlived_of_inactive (h : s.leaseActive v.now ≠ true) : s.Outlived v.now := by
  intro g hGuard hActive
  refine h ?_
  unfold State.leaseActive
  rw [hGuard]
  exact decide_eq_true hActive

/-- The caller is about to return an error it was told, or one it found itself. -/
theorem callerStep_fails (hHeard : s.Heard) (hEn : enabled o v s (.caller ok) = true) :
    (callerStep o v ok s).caller.fails = some err →
      s.names err ∨ Cause o err s (v, .caller ok) := by
  -- a check of its own is the cause
  have hLeft : ∀ (e : AcquireError) (s' : State), s.names e ∨ Cause o e s (v, .caller ok) →
      (s'.leave o v.now e).caller.fails = some err →
        s.names err ∨ Cause o err s (v, .caller ok) := by
    intro e s' hCause hIs
    rw [(State.leave_keeps o v.now e s').2.1] at hIs
    cases hIs
    exact hCause
  have hSame : ∀ c : Caller, s.caller.fails = c.fails → c.fails = some err →
      s.names err ∨ Cause o err s (v, .caller ok) := fun c hSame hIs =>
    Or.inl (Or.inl (hSame.trans hIs))
  unfold callerStep
  cases hCaller : s.caller with
  | begin | accept => exact fun hNo => by cases hNo
  | returned r => exact fun hIs => Or.inl (Or.inl hIs)
  | timedOut m => exact hSame (.leaving m) (by rw [hCaller]; rfl)
  | checkZero =>
    intro hIs
    change (if _ then _ else _ : Caller).fails = some err at hIs
    split at hIs
    -- a timeout of zero has always elapsed
    · rename_i hZero
      cases hIs
      refine Or.inr ?_
      show deadlineElapsed v.now s.start o.lockTimeout = true
      rw [of_decide_eq_true hZero]
      show decide (0 ≤ elapsed v.now s.start) = true
      exact decide_eq_true (Nat.zero_le _)
    · cases hIs
  | admission =>
    dsimp only
    split
    · split <;> exact fun hNo => by cases hNo
    · rename_i hShut
      rintro ⟨⟩
      exact Or.inr (Or.inr (Bool.eq_false_iff.mpr hShut))
  | spawning =>
    dsimp only
    split
    · exact fun hNo => by cases hNo
    · rename_i hFailed
      rintro ⟨⟩
      refine Or.inr (Or.inl ⟨hCaller, ?_⟩)
      rw [Bool.eq_false_iff.mpr hFailed]
  | receiving =>
    dsimp only
    split
    · rename_i hOk
      split
      · rename_i m hValue
        intro hIs
        refine Or.inl (names_of_result ?_)
        rw [hValue]
        cases m with
        | failed e =>
          cases hIs
          rfl
        | nothing | acquisition => cases hIs
      · -- the worker would have told
        rename_i hNone
        have hTx : s.result.txAlive = false := by
          simpa [enabled, hCaller, hOk, hNone] using hEn
        have hTold := hHeard hCaller hTx
        rw [hNone] at hTold
        cases hTold
    · rename_i hOk
      rintro ⟨⟩
      refine Or.inr ?_
      show deadlineElapsed v.now s.start o.lockTimeout = true
      -- `recv_timeout` ends with the clock only after the deadline
      simpa [enabled, hCaller, hOk] using hEn
  | inLoop =>
    dsimp only
    split
    · exact fun hNo => by cases hNo
    · exact fun hNo => by cases hNo
    · rename_i e hTask
      intro hIs
      refine Or.inl (names_of_task ?_)
      rw [hTask]
      exact hIs
    · intro hNo
      rw [hCaller] at hNo
      cases hNo
  | checkDeadline m =>
    intro hIs
    change (if _ then _ else _ : Caller).fails = some err at hIs
    split at hIs
    · rename_i hLate
      cases hIs
      exact Or.inr hLate
    · refine hSame (.checkShutdown m) ?_ hIs
      rw [hCaller]
      cases m <;> rfl
  | leaving m => exact hLeft _ _ (Or.inl (Or.inl (by rw [hCaller]; rfl)))
  | checkShutdown m =>
    dsimp only
    split
    · refine hSame (.checkLease m) ?_
      rw [hCaller]
      cases m <;> rfl
    · rename_i hShut
      exact hLeft _ _ (Or.inr (Or.inl (Bool.eq_false_iff.mpr hShut)))
  | checkLease m =>
    cases m with
    | failed e => exact hSame (.returned (.error e)) (by rw [hCaller]; rfl)
    | nothing => exact fun hNo => by cases hNo
    | acquisition =>
      dsimp only
      split
      · exact fun hNo => by cases hNo
      · rename_i hDead
        exact hLeft _ _ (Or.inr (Or.inr ⟨Or.inl hCaller, ⟨_, rfl⟩, outlived_of_inactive hDead⟩))
  | finalLease =>
    dsimp only
    split
    · exact fun hNo => by cases hNo
    · rename_i hDead
      exact hLeft _ _ (Or.inr (Or.inr ⟨Or.inr hCaller, ⟨_, rfl⟩, outlived_of_inactive hDead⟩))

/-- The caller puts nothing into the channel, and sets the flag when it gives up. -/
theorem callerStep_value {m : Message} (o : AcquireOptions) (v : View) (ok : Bool) (s : State) :
    ((callerStep o v ok s).result.value = some m → s.result.value = some m) ∧
      ((callerStep o v ok s).canceled = true →
        s.canceled = true ∨ s.caller.fails = some .lockTimeout) := by
  have hLeft : ∀ (e : AcquireError) (s' : State), s'.canceled = s.canceled →
      ((s'.leave o v.now e).result.value = some m → s.result.value = some m) ∧
        ((s'.leave o v.now e).canceled = true →
          s.canceled = true ∨ s.caller.fails = some .lockTimeout) := by
    intro e s' hSame
    refine ⟨fun hNo => ?_, fun hSet => Or.inl ?_⟩
    · rw [(State.leave_keeps o v.now e s').2.2.2] at hNo
      cases hNo
    · rwa [State.leave_canceled, hSame] at hSet
  unfold callerStep
  cases hCaller : s.caller with
  | begin | accept | returned r | checkZero | checkDeadline m => exact ⟨id, Or.inl⟩
  -- this is the step that sets the flag
  | timedOut m => exact ⟨id, fun _ => Or.inr rfl⟩
  | admission =>
    dsimp only
    split
    · split
      · exact ⟨id, Or.inl⟩
      · exact ⟨fun hNo => (by cases hNo), Or.inl⟩
    · exact ⟨id, Or.inl⟩
  | spawning =>
    dsimp only
    split
    · exact ⟨fun hNo => (by cases hNo), Or.inl⟩
    · exact ⟨id, Or.inl⟩
  | receiving =>
    rw [hCaller] at hLeft
    dsimp only
    split
    · split
      · exact ⟨fun hNo => (by cases hNo), Or.inl⟩
      · exact hLeft _ _ rfl
    · exact ⟨id, Or.inl⟩
  | inLoop =>
    dsimp only
    split <;> exact ⟨id, Or.inl⟩
  | leaving m =>
    rw [hCaller] at hLeft
    exact hLeft _ _ rfl
  | checkShutdown m | finalLease =>
    rw [hCaller] at hLeft
    dsimp only
    split
    · exact ⟨id, Or.inl⟩
    · exact hLeft _ _ rfl
  | checkLease m =>
    rw [hCaller] at hLeft
    cases m with
    | failed e | nothing => exact ⟨id, Or.inl⟩
    | acquisition =>
      dsimp only
      split
      · exact ⟨id, Or.inl⟩
      · exact hLeft _ _ rfl

/-- The loop reads the flag and does not set it. -/
theorem taskStep_canceled (o : AcquireOptions) (once : Bool) (v : View) (ok : Bool) (s : State) :
    (taskStep o once v ok s).canceled = s.canceled := by
  unfold taskStep
  cases s.task with
  | loopTimeout | loopShutdown | lateShutdown start | lateTimeout start | lateLease start
  | contended | contendedTimeout | ioError | sending start | lateRelease e | cleanup =>
    exact (State.check_keeps _ _ s).2.2
  | loopCanceled | stamp | checkout start | lateCanceled start | contendedOnce | retryWait
  | parking wait | waiting start wait => exact (State.goto_keeps _ s).2.2
  | newGuard start =>
    dsimp only
    split
    · rfl
    · exact State.guardStep_canceled o v.now .drop
        { s with guard := some (Guard.unspawned o (Lease.new start o.effectiveTtl) start) }
  | finished m =>
    cases m with
    | acquisition =>
      dsimp only
      split
      · rfl
      · exact State.guardStep_canceled o v.now .drop (s.note (.result .acquisition))
    | nothing | failed e => rfl
  | awaitAccepted =>
    dsimp only
    split <;> rfl
  | unborn | acquiring start | lateReleasing e | cleaning | done => rfl

/-- What the loop is about to return it was told by the flag, or it found it itself. -/
theorem taskStep_fails (o : AcquireOptions) (once : Bool) (v : View) (ok : Bool) (s : State) :
    (taskStep o once v ok s).task.fails = some err →
      s.names err ∨ Cause o err s (v, .task ok) := by
  have hNone : ∀ t : Task, t.fails = none → t.fails = some err →
      s.names err ∨ Cause o err s (v, .task ok) := by
    intro t hNone hNo
    cases hNone.symm.trans hNo
  -- a check goes one way or the other
  have hCheck : ∀ (b : Bool) (t₁ t₂ : Task),
      (b = true → t₁.fails = some err → s.names err ∨ Cause o err s (v, .task ok)) →
      (b = false → t₂.fails = some err → s.names err ∨ Cause o err s (v, .task ok)) →
      (if b then t₁ else t₂).fails = some err → s.names err ∨ Cause o err s (v, .task ok) := by
    intro b t₁ t₂ h₁ h₂
    cases b with
    | true => exact h₁ rfl
    | false => exact h₂ rfl
  unfold taskStep
  cases hTask : s.task with
  | loopCanceled | lateCanceled start =>
    refine hCheck s.canceled _ _ (fun hSet => ?_) fun _ => hNone _ rfl
    rintro ⟨⟩
    exact Or.inl (names_of_canceled hSet rfl)
  | loopTimeout | contendedTimeout | lateTimeout start =>
    refine hCheck (deadlineElapsed v.now s.start o.lockTimeout) _ _ (fun hLate => ?_)
      fun _ => hNone _ rfl
    rintro ⟨⟩
    exact Or.inr hLate
  | loopShutdown | contended | lateShutdown start =>
    refine hCheck v.isOpen _ _ (fun _ => hNone _ rfl) fun hShut => ?_
    rintro ⟨⟩
    exact Or.inr (Or.inl hShut)
  | checkout start =>
    refine hCheck ok _ _ (fun _ => hNone _ rfl) fun hOff => ?_
    rintro ⟨⟩
    exact Or.inr (Or.inr ⟨start, hTask, by rw [hOff]⟩)
  | lateLease start =>
    refine hCheck (decide ((Lease.new start o.effectiveTtl).stateAt v.now = .active)) _ _
      (fun _ => hNone _ rfl) fun hDead => ?_
    rintro ⟨⟩
    exact Or.inr (Or.inl ⟨start, _, hTask, rfl, of_decide_eq_false hDead⟩)
  -- the error of the command was named by its reply
  | ioError =>
    rintro ⟨⟩
    exact Or.inl (names_of_task (by rw [hTask]; rfl))
  | lateRelease e =>
    have hFails : s.task.fails = some e := by rw [hTask]; rfl
    refine hCheck ok _ _ (fun _ => ?_) fun _ => ?_
    · rintro ⟨⟩
      exact Or.inl (names_of_task hFails)
    · rintro ⟨⟩
      exact Or.inl (names_of_task hFails)
  | newGuard start =>
    dsimp only
    split
    · exact hNone _ rfl
    -- a guard without automatic renewal needs no thread
    · rename_i hNoThread
      rintro ⟨⟩
      obtain ⟨hOff, hRenews⟩ := Bool.or_eq_false_iff.mp (Bool.eq_false_iff.mpr hNoThread)
      refine Or.inr (Or.inr ⟨start, hTask, by rw [hOff], fun hNever => ?_⟩)
      rw [hNever] at hRenews
      cases hRenews
  | finished m =>
    cases m with
    | acquisition =>
      dsimp only
      split <;> exact hNone _ rfl
    | nothing | failed e => exact hNone _ rfl
  | awaitAccepted =>
    dsimp only
    split <;> exact hNone _ rfl
  | contendedOnce => exact hCheck once _ _ (fun _ => hNone _ rfl) fun _ => hNone _ rfl
  | cleanup => exact hCheck ok _ _ (fun _ => hNone _ rfl) fun _ => hNone _ rfl
  | unborn | acquiring start | lateReleasing e | cleaning | done =>
    intro hIs
    exact Or.inl (names_of_task hIs)
  | stamp | sending start | retryWait | parking wait | waiting start wait => exact hNone _ rfl

/-- What the worker sends it was about to send. -/
theorem taskStep_names (o : AcquireOptions) (once : Bool) (v : View) (ok : Bool) (s : State)
    (hNames : (taskStep o once v ok s).names err) :
    s.names err ∨ Cause o err s (v, .task ok) := by
  rcases hNames with hIs | hIs | hIs | ⟨hSet, hErr⟩
  · exact Or.inl (Or.inl ((taskStep_caller o once v ok s).1 ▸ hIs))
  · rcases taskStep_sends o once v ok s with hSame | ⟨m, hTask, hSent⟩
    · exact Or.inl (names_of_result (hSame ▸ hIs))
    · rw [hSent] at hIs
      unfold Channel.send at hIs
      split at hIs
      · cases hIs
        exact Or.inl (names_of_task (by rw [hTask]; rfl))
      · exact Or.inl (names_of_result hIs)
  · exact taskStep_fails o once v ok s hIs
  · exact Or.inl (names_of_canceled (taskStep_canceled o once v ok s ▸ hSet) hErr)

/-- What neither side does itself leaves the caller, the channel and the flag as they
are. -/
theorem names_other {e : Event} (hCaller : ∀ ok, e ≠ .caller ok) (hTask : ∀ ok, e ≠ .task ok)
    (hNames : (next o once v s e).names err) :
    s.names err ∨ (next o once v s e).task.fails = some err := by
  have hSame : (next o once v s e).result = s.result ∧ (next o once v s e).canceled = s.canceled :=
    result_other hCaller hTask
  rcases hNames with hIs | hIs | hIs | ⟨hSet, hErr⟩
  · exact Or.inl (Or.inl ((caller_next o once v s hCaller).1 ▸ hIs))
  · exact Or.inl (names_of_result (hSame.1 ▸ hIs))
  · exact Or.inr hIs
  · exact Or.inl (names_of_canceled (hSame.2 ▸ hSet) hErr)

/-- **An error that is named first by an event** is caused by it. -/
theorem names_next {e : Event} (hHeard : s.Heard) (hEn : enabled o v s e = true)
    (hNames : (next o once v s e).names err) : s.names err ∨ Cause o err s (v, e) := by
  cases e with
  | caller ok =>
    rcases hNames with hIs | hIs | hIs | ⟨hSet, hErr⟩
    · exact callerStep_fails hHeard hEn hIs
    · exact Or.inl (names_of_result ((callerStep_value o v ok s).1 hIs))
    · change (callerStep o v ok s).task.fails = some err at hIs
      rcases callerStep_task o v ok s with hSame | ⟨-, hSpawned, -⟩ | ⟨-, hDone, -⟩
      · rw [hSame] at hIs
        exact Or.inl (names_of_task hIs)
      · rw [hSpawned] at hIs
        cases hIs
      · rw [hDone] at hIs
        cases hIs
    -- it was set, or is set by a caller that has missed the deadline
    · rcases (callerStep_value (m := .nothing) o v ok s).2 hSet with hOld | hFails
      · exact Or.inl (names_of_canceled hOld hErr)
      · exact Or.inl (Or.inl (hErr ▸ hFails))
  | task ok => exact taskStep_names o once v ok s hNames
  | acquireReply r =>
    refine (names_other (fun _ hNo => by cases hNo) (fun _ hNo => by cases hNo) hNames).imp_right
      fun hFails => ?_
    change (acquireReplied r s).task.fails = some err at hFails
    unfold acquireReplied at hFails
    cases hTask : s.task with
    | acquiring start =>
      rw [hTask] at hFails
      cases r with
      | acquired | contended => cases hFails
      -- the command failed just now
      | error io => cases io <;> cases hFails <;> exact Or.inl ⟨_, rfl⟩
    | _ => simp [enabled, hTask] at hEn
  | releaseReply ok =>
    rcases names_other (fun _ hNo => by cases hNo) (fun _ hNo => by cases hNo) hNames with
      hOld | hFails
    · exact Or.inl hOld
    · change (releaseReplied s).task.fails = some err at hFails
      unfold releaseReplied at hFails
      cases hTask : s.task with
      | lateReleasing e =>
        rw [hTask] at hFails
        exact Or.inl (names_of_task (hTask ▸ hFails))
      | cleaning =>
        rw [hTask] at hFails
        cases hFails
      | _ => simp [enabled, hTask] at hEn
  | guard e =>
    have hTask : (next o once v s (.guard e)).task = s.task := (next_guard_keeps o once v s e).2.2
    rcases names_other (fun _ hNo => by cases hNo) (fun _ hNo => by cases hNo) hNames with
      hOld | hFails
    · exact Or.inl hOld
    · rw [hTask] at hFails
      exact Or.inl (names_of_task hFails)

/-- **Every error has its cause** in an event of the run, and whoever waits for a worker
that runs no more has its result. -/
theorem errors_told {es : List (View × Event)} (hRun : (acquisition o once).Path .initial es t) :
    (∀ err, t.caller = .returned (.error err) →
      (acquisition o once).Happened .initial es (Cause o err)) ∧ t.Heard := by
  refine ⟨fun err hReturned => ?_, heard_of_reachable (Machine.Reachable.path (.init rfl) hRun)⟩
  refine hRun.cause (J := (acquisition o once).Reachable) (Q := State.names err) (.init rfl)
    (fun u e hu hEn => hu.step e hEn) (fun hNo => ?_) (fun u e hu hEn hNames => ?_)
    (Or.inl (by rw [hReturned]; rfl))
  -- nothing is named at the beginning
  · rcases hNo with hNo | hNo | hNo | ⟨hNo, -⟩ <;> cases hNo
  · exact names_next (heard_of_reachable hu) hEn hNames

end

/-- The connection breaks under the command of the worker, which queues a release and
tells its caller. -/
def brokenRun : List (View × Event) :=
  let still (e : Event) : View × Event := (⟨0, true, true⟩, e)
  (List.replicate 4 (still (.caller true)) ++ List.replicate 6 (still (.task true))) ++
    still (.acquireReply (.error true)) ::
      (List.replicate 2 (still (.task true)) ++ List.replicate 4 (still (.caller true)))

/-- Where the run leads: the caller has returned. -/
def broken : State := ((acquisition fiveMillis false).exec .initial brokenRun).getD .initial

/-- It returned the error of Redis, and the cause is the broken command. -/
theorem errors_told_broken :
    (acquisition fiveMillis false).Happened .initial brokenRun.reverse
      (Cause fiveMillis .redisError) ∧ broken.Heard := by
  have hExec : (acquisition fiveMillis false).exec .initial brokenRun = some broken := by
    decide +kernel
  have hReturned : broken.caller = .returned (.error .redisError) := by decide +kernel
  obtain ⟨hCauses, hHeard⟩ := errors_told (Machine.path_of_exec hExec)
  exact ⟨hCauses .redisError hReturned, hHeard⟩

end RLock.Sync
