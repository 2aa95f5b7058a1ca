import RLock.Async.Outcome

/-!
# RLock — the errors of an async acquisition

An error that `acquire_internal` returns tells what happened: for each of them an
event of the run is named that is its cause. There is none for `WorkerError`, since a
supervisor does not go away before it has told a caller that waits.

An error goes from where it is found to the caller in up to three steps: the
supervisor is about to report it (`Task.fails`), it is in the channel, the caller
returns it. `State.names` is that it is at one of these places, and `names_next`
that it gets to the first of them by an event that is its cause. From there the
rule for runs (`Machine.Path.cause`) finds the event in the history of any state
that names it. What a step of the supervisor has to show is `State.Explains`, with
a lemma for each way in which it may go on.

The one error without a cause needs a fact about the channel: a caller that waits
has a sender left, or a message (`State.Heard`).

## Results

* `heard_of_reachable` — who waits has a sender, or a result.
* `names_next` — an error that is named first by an event is caused by it.
* `errors_honest` — every error that is returned.
-/

namespace RLock.Async

open RLock.Client

/-- What the supervisor is about to report. -/
def Task.fails : Task → Option AcquireError
  | .reject e => some e
  | .unlock (.rejected e) => some e
  | .failing => some .redisError
  | _ => none

/-- The error is on its way to the caller, or has reached it. -/
def State.names (err : AcquireError) (s : State) : Prop :=
  s.caller = .returned (.error err) ∨ s.result.value = some (.failed err) ∨
    s.task.fails = some err

/-- What makes the request fail in this way: the manager is closed or has given up its
sender, the deadline has passed, a lease is out of time when it is checked, the command
failed; and nothing makes the supervisor stop without a word. -/
def Cause (o : AcquireOptions) (err : AcquireError) (s : State) (e : View × Event) : Prop :=
  match err with
  | .shutdown => e.1.isOpen = false ∨ e.1.hasSender = false
  | .lockTimeout => deadlineElapsed e.1.now s.start o.lockTimeout = true
  | .leaseExpired =>
    (∃ start ready, s.task = .handLease start ∧ e.2 = .task ready ∧
      (Lease.new start o.effectiveTtl).stateAt e.1.now ≠ .active) ∨
    s.caller = .checkLease ∧ (∃ ready, e.2 = .caller ready) ∧
      ∀ g, s.guard = some g → g.lease.stateAt e.1.now ≠ .active
  | .redisError => ∃ io, e.2 = .acquireReply (.error io)
  | .workerError => False

/-- Whoever waits has a sender left, or a result. -/
def State.Heard (s : State) : Prop :=
  s.caller.phase = .waiting → s.result.txAlive = false → s.result.value.isSome = true

section

variable {s t : State} {o : AcquireOptions} {once ready : Bool} {v : View} {err : AcquireError}

theorem names_of_result (h : s.result.value = some (.failed err)) : s.names err := Or.inr (Or.inl h)

theorem names_of_task (h : s.task.fails = some err) : s.names err := Or.inr (Or.inr h)

-- ---------------------------------------------------------------------------
-- Who waits is told
-- ---------------------------------------------------------------------------

theorem leave_phase {now : Int} {e : AcquireError} (s : State) :
    (s.leave o now (.returned (.error e))).caller.phase = .without := by
  rw [(leave_task o now _ s).2.2]
  rfl

/-- A caller that waits after its step has not touched the channel, or it is fresh. -/
theorem callerStep_waits (o : AcquireOptions) (v : View) (ready : Bool) (s : State) :
    (callerStep o v ready s).caller.phase = .waiting →
      s.caller.phase = .waiting ∧ (callerStep o v ready s).result = s.result ∨
        (callerStep o v ready s).result.txAlive = true := by
  have hLeft : ∀ (e : AcquireError) (s' : State) {P : Prop},
      (s'.leave o v.now (.returned (.error e))).caller.phase = .waiting → P := by
    intro e s' P hNo
    rw [leave_phase] at hNo
    cases hNo
  unfold callerStep
  cases hCaller : s.caller with
  | begin | accept => exact fun hNo => by cases hNo
  | parked => exact fun _ => Or.inl ⟨rfl, rfl⟩
  | cancelled =>
    intro hNo
    rw [hCaller] at hNo
    cases hNo
  | returned r =>
    intro hNo
    rw [hCaller] at hNo
    exact Or.inl ⟨hNo, rfl⟩
  | checkTimeout =>
    dsimp only
    split <;> exact fun hNo => by cases hNo
  | admission =>
    dsimp only
    split
    · exact fun _ => Or.inr rfl
    · exact fun hNo => by cases hNo
  | pollShutdown | pollDeadline =>
    dsimp only
    split
    · exact hLeft _ _
    · exact fun _ => Or.inl ⟨rfl, rfl⟩
  | pollResult =>
    dsimp only
    split
    · split
      · exact fun hNo => by cases hNo
      · exact fun hNo => by cases hNo
      · exact fun hNo => by cases hNo
      · split
        · exact fun _ => Or.inl ⟨rfl, rfl⟩
        · exact hLeft _ _
    · exact fun _ => Or.inl ⟨rfl, rfl⟩
  | checkDeadline got =>
    dsimp only
    split
    · exact hLeft _ _
    · cases got <;> exact fun hNo => by cases hNo
  | checkOpen got =>
    dsimp only
    split
    · cases got <;> exact fun hNo => by cases hNo
    · exact hLeft _ _
  | checkLease =>
    dsimp only
    split
    · exact fun hNo => by cases hNo
    · exact hLeft _ _

/-- Speaking fills the channel of a caller that is there. -/
theorem say_tells_off {s' : State} (m : Message) (t : Task) (hSame : s'.result = s.result) :
    (s'.say m t).result = s.result ∨
      (s.result.rxAlive = true → (s'.say m t).result.value.isSome = true) := by
  rcases State.say_result m t s' with hKept | hSent
  · exact Or.inl (hKept.trans hSame)
  · refine Or.inr fun hRx => ?_
    rw [hSent, hSame]
    unfold Channel.send
    rw [if_pos hRx]
    rfl

/-- The supervisor lets go of its sender by sending, or when its receiver is gone. -/
theorem taskStep_tells_off (h : Inv s) (o : AcquireOptions) (once : Bool) (v : View)
    (ready : Bool) : (taskStep o once v ready s).result = s.result ∨
      (s.result.rxAlive = true → (taskStep o once v ready s).result.value.isSome = true) := by
  have hOwns : s.task.ownsTx = true → s.hasTx = true := fun hIs => h.tx.trans hIs
  unfold taskStep
  cases hTask : s.task with
  | checkClosed =>
    have hTx : s.hasTx = true := hOwns (by rw [hTask]; rfl)
    dsimp only
    rw [if_pos hTx]
    split
    · exact Or.inl rfl
    · rename_i hRx
      exact Or.inr fun hNo => absurd hNo hRx
  | retryClosed start =>
    have hTx : s.hasTx = true := hOwns (by rw [hTask]; rfl)
    dsimp only
    rw [if_pos hTx]
    split
    · rename_i hGone
      refine Or.inr fun hRx => ?_
      rw [hRx, Bool.not_true, Bool.and_false] at hGone
      cases hGone
    · exact Or.inl rfl
  | checkOpen | checkDeadline | contended | retryShutdown start | retryDeadline start =>
    dsimp only
    split <;> first | exact Or.inl rfl | exact say_tells_off _ _ rfl
  | failing | reject e => exact say_tells_off _ _ rfl
  | unlock h => cases h <;> exact Or.inl rfl
  | releaseGuard =>
    dsimp only
    split
    · exact Or.inl rfl
    · exact Or.inl (State.guardStep_keeps o v.now _ s).2.1
  | dropGuard => exact Or.inl (State.guardStep_keeps o v.now _ s).2.1
  | handSend start =>
    have hTx : s.hasTx = true := hOwns (by rw [hTask]; rfl)
    refine Or.inr fun hRx => ?_
    dsimp only
    rw [if_pos hTx]
    unfold Channel.send
    rw [if_pos hRx]
    rfl
  | retryTimer start | awaitAccepted =>
    dsimp only
    split <;> exact Or.inl (State.goto_keeps _ s).2
  | sending start | handOpen start | handDeadline start | handLease start | cleaning =>
    exact Or.inl (State.check_keeps _ _ s).2
  | stamp | locking start | retryParked start => exact Or.inl (State.goto_keeps _ s).2
  | unborn | acquiring start | cleaned | guardReleasing | done | panicked | guardStarting =>
    exact Or.inl rfl

/-- Only the caller and a step of the supervisor touch the channel. -/
theorem result_other {e : Event} (hCaller : e.byCaller = false) (hTask : ∀ ready, e ≠ .task ready) :
    (next o once v s e).result = s.result := by
  cases e with
  | caller ready | cancel => cases hCaller
  | task ready => exact absurd rfl (hTask ready)
  | acquireReply r =>
    show (acquireReplied r s).result = s.result
    unfold acquireReplied
    split <;> rfl
  | releaseReply ok =>
    show (releaseReplied o v ok s).result = s.result
    unfold releaseReplied
    split <;> rfl
  | guard e => exact (next_guard_keeps o once v s e).2.1

/-- **One event** leaves whoever waits with a sender or a message. -/
theorem State.Heard.step {e : Event} (h : s.Heard) (hInv : Inv s)
    (hEn : enabled v s e = true) : (next o once v s e).Heard := by
  intro hWaits hTx
  cases e with
  | caller ready =>
    -- it waited before, or is about to start with a fresh channel
    rcases callerStep_waits o v ready s hWaits with ⟨hHere, hSame⟩ | hFresh
    · have hNow : (next o once v s (.caller ready)).result = s.result := hSame
      rw [hNow] at hTx ⊢
      exact h hHere hTx
    · exact absurd (hTx.symm.trans hFresh) Bool.false_ne_true
  | cancel =>
    have hOver : (next o once v s .cancel).caller = .cancelled := (leave_task _ _ _ _).2.2
    rw [hOver] at hWaits
    cases hWaits
  | task ready =>
    have hHere : s.caller.phase = .waiting := by
      rwa [(caller_next o once v s (e := .task ready) rfl).1] at hWaits
    -- a supervisor that gives up its sender has used it
    rcases taskStep_tells_off hInv o once v ready with hSame | hTold
    · have hNow : (next o once v s (.task ready)).result = s.result := hSame
      rw [hNow] at hTx ⊢
      exact h hHere hTx
    · exact hTold (hInv.waits hHere)
  | acquireReply r | releaseReply ok | guard e =>
    rw [(caller_next o once v s rfl).1] at hWaits
    rw [result_other rfl fun _ hNo => by cases hNo] at hTx ⊢
    exact h hWaits hTx

/-- **Who waits** has a sender left, or a result. -/
theorem heard_of_reachable (hs : (acquisition o once).Reachable s) : s.Heard := by
  refine hs.invariant_of (J := Inv) (fun s => inv_of_reachable) (fun s hInit => ?_)
    fun s e hInv hHeard hEn => hHeard.step hInv hEn
  rw [show s = State.initial from hInit]
  exact fun hNo => by cases hNo

-- ---------------------------------------------------------------------------
-- Where an error comes from
-- ---------------------------------------------------------------------------

/-- The caller returns an error it was told, or one it found itself. -/
theorem callerStep_fails (hHeard : s.Heard) :
    (callerStep o v ready s).caller = .returned (.error err) →
      s.names err ∨ Cause o err s (v, .caller ready) := by
  -- a check of its own is the cause
  have hLeft : ∀ (e : AcquireError) (s' : State), Cause o e s (v, .caller ready) →
      (s'.leave o v.now (.returned (.error e))).caller = .returned (.error err) →
        s.names err ∨ Cause o err s (v, .caller ready) := by
    intro e s' hCause hIs
    rw [(leave_task o v.now _ s').2.2] at hIs
    cases hIs
    exact Or.inr hCause
  unfold callerStep
  cases hCaller : s.caller with
  | begin | parked | accept => exact fun hNo => by cases hNo
  | cancelled | returned r => exact fun hIs => Or.inl (Or.inl hIs)
  | checkTimeout =>
    dsimp only
    split
    · rename_i hLate
      rintro ⟨⟩
      exact Or.inr hLate
    · exact fun hNo => by cases hNo
  | admission =>
    dsimp only
    split
    · exact fun hNo => by cases hNo
    · rename_i hShut
      rintro ⟨⟩
      exact Or.inr (Bool.and_eq_false_iff.mp (Bool.eq_false_iff.mpr hShut))
  | pollShutdown =>
    dsimp only
    split
    · rename_i hShut
      refine hLeft _ _ (Or.inl ?_)
      simpa using (Bool.and_eq_true_iff.mp hShut).2
    · exact fun hNo => by cases hNo
  | pollDeadline =>
    dsimp only
    split
    · rename_i hLate
      exact hLeft _ _ (Bool.and_eq_true_iff.mp hLate).2
    · exact fun hNo => by cases hNo
  | pollResult =>
    dsimp only
    split
    · split
      · rename_i hValue
        rintro ⟨⟩
        exact Or.inl (names_of_result hValue)
      · exact fun hNo => by cases hNo
      · exact fun hNo => by cases hNo
      · rename_i hNone
        split
        · exact fun hNo => by cases hNo
        · -- the supervisor would have told
          rename_i hTx
          have hTold := hHeard (by rw [hCaller]; rfl) (Bool.eq_false_iff.mpr hTx)
          rw [hNone] at hTold
          cases hTold
    · exact fun hNo => by cases hNo
  | checkDeadline got =>
    dsimp only
    split
    · rename_i hLate
      exact hLeft _ _ hLate
    · exact fun hNo => by cases hNo
  | checkOpen got =>
    dsimp only
    split
    · cases got <;> exact fun hNo => by cases hNo
    · rename_i hShut
      exact hLeft _ _ (Or.inl (Bool.eq_false_iff.mpr hShut))
  | checkLease =>
    dsimp only
    split
    · exact fun hNo => by cases hNo
    · rename_i hDead
      refine hLeft _ _ (Or.inr ⟨hCaller, ⟨_, rfl⟩, fun g hGuard hActive => hDead ?_⟩)
      rw [hGuard]
      exact decide_eq_true hActive

/-- The caller puts nothing into the channel. -/
theorem callerStep_value {m : Message} (o : AcquireOptions) (v : View) (ready : Bool)
    (s : State) : (callerStep o v ready s).result.value = some m → s.result.value = some m := by
  have hLeft : ∀ (c : Caller) (s' : State), (s'.leave o v.now c).result.value = some m →
      s.result.value = some m := by
    intro c s' hNo
    unfold State.leave at hNo
    cases hNo
  unfold callerStep
  cases s.caller with
  | begin | parked | accept | cancelled | returned r | checkTimeout => exact id
  | admission =>
    dsimp only
    split
    · exact fun hNo => by cases hNo
    · exact id
  | pollShutdown | pollDeadline | checkDeadline got | checkOpen got | checkLease =>
    dsimp only
    split <;> first | exact id | exact hLeft _ _
  | pollResult =>
    dsimp only
    split
    · split
      · exact fun hNo => by cases hNo
      · exact fun hNo => by cases hNo
      · exact fun hNo => by cases hNo
      · split
        · exact id
        · exact hLeft _ _
    · exact id

/-- Whatever the next state names was named before, or is caused by this event. -/
def State.Explains (o : AcquireOptions) (s : State) (e : View × Event) (s' : State) : Prop :=
  ∀ err, s'.names err → s.names err ∨ Cause o err s e

section

variable {s' : State} {e : View × Event}

/-- Only what the supervisor is about to report is left to explain. -/
theorem explained_of_task (hCaller : s'.caller = s.caller)
    (hResult : s'.result.value = s.result.value)
    (hTask : ∀ err, s'.task.fails = some err → s.names err ∨ Cause o err s e) :
    s.Explains o e s' := by
  rintro err (hIs | hIs | hIs)
  · exact Or.inl (Or.inl (hCaller.symm.trans hIs))
  · exact Or.inl (names_of_result (hResult.symm.trans hIs))
  · exact hTask err hIs

/-- A check that refuses explains the refusal. -/
theorem explained_check (a : Action) (t : Task)
    (hTask : ∀ err, t.fails = some err → s.names err ∨ Cause o err s e) :
    s.Explains o e ((s.note a).goto t) :=
  explained_of_task rfl rfl hTask

/-- A step that reports nothing has nothing to explain. -/
theorem explained_of_silent (hCaller : s'.caller = s.caller)
    (hResult : s'.result.value = s.result.value) (hTask : s'.task.fails = none) :
    s.Explains o e s' := by
  refine explained_of_task hCaller hResult fun err hNo => ?_
  rw [hTask] at hNo
  cases hNo

/-- A supervisor that speaks explains its message. -/
theorem explained_say {m : Message} (t : Task) (hCaller : s'.caller = s.caller)
    (hResult : s'.result = s.result) (hTask : t.fails = none)
    (hCause : ∀ err, m = .failed err → s.names err ∨ Cause o err s e) :
    s.Explains o e (s'.say m t) := by
  have hSilent : (s'.say m t).task.fails = none := by
    rcases State.say_task m t s' with hIs | hIs <;> rw [hIs]
    · exact hTask
    · rfl
  -- the caller has not moved, so a new name is in the message
  rintro err (hIs | hIs | hIs)
  · exact Or.inl (Or.inl (hCaller.symm.trans ((State.say_keeps m t s').1.symm.trans hIs)))
  · rcases State.say_result m t s' with hKept | hSent
    · rw [hKept, hResult] at hIs
      exact Or.inl (names_of_result hIs)
    · rw [hSent, hResult] at hIs
      unfold Channel.send at hIs
      split at hIs
      · exact hCause err (Option.some.inj hIs)
      · exact Or.inl (names_of_result hIs)
  · rw [hSilent] at hIs
    cases hIs

/-- A step that releases or drops the guard reports nothing. -/
theorem explained_guardStep {now : Int} (g : GuardEvent) (t : Task) (hTask : t.fails = none) :
    s.Explains o e ((s.guardStep o now g).goto t) := by
  obtain ⟨⟨hCaller, -⟩, hResult, -⟩ := State.guardStep_keeps o now g s
  exact explained_of_silent hCaller (congrArg Channel.value hResult) hTask

end

/-- What the supervisor reports it was about to report, or it found it itself. -/
theorem taskStep_names (o : AcquireOptions) (once : Bool) (v : View) (ready : Bool) (s : State) :
    s.Explains o (v, .task ready) (taskStep o once v ready s) := by
  unfold taskStep
  cases hTask : s.task with
  | checkClosed | retryClosed start =>
    dsimp only
    split
    · split <;> exact explained_of_silent rfl rfl rfl
    · exact explained_of_silent rfl rfl rfl
  | checkOpen =>
    dsimp only
    split
    · exact explained_of_silent rfl rfl rfl
    · rename_i hShut
      refine explained_say _ rfl rfl rfl ?_
      rintro _ ⟨⟩
      exact Or.inr (Or.inl (Bool.eq_false_iff.mpr hShut))
  | checkDeadline =>
    dsimp only
    split
    · rename_i hLate
      refine explained_say _ rfl rfl rfl ?_
      rintro _ ⟨⟩
      exact Or.inr hLate
    · exact explained_of_silent rfl rfl rfl
  | failing | reject e =>
    refine explained_say _ rfl rfl rfl ?_
    rintro _ ⟨⟩
    exact Or.inl (names_of_task (by rw [hTask]; rfl))
  | handOpen start =>
    refine explained_check _ _ fun e hFails => ?_
    change (if _ then _ else _ : Task).fails = some e at hFails
    split at hFails
    · cases hFails
    · rename_i hShut
      cases hFails
      exact Or.inr (Bool.and_eq_false_iff.mp (Bool.eq_false_iff.mpr hShut)).symm
  | handDeadline start =>
    refine explained_check _ _ fun e hFails => ?_
    change (if _ then _ else _ : Task).fails = some e at hFails
    split at hFails
    · rename_i hLate
      cases hFails
      exact Or.inr hLate
    · cases hFails
  | handLease start =>
    refine explained_check _ _ fun e hFails => ?_
    change (if _ then _ else _ : Task).fails = some e at hFails
    split at hFails
    · cases hFails
    · rename_i hDead
      cases hFails
      exact Or.inr (Or.inl ⟨start, _, hTask, rfl, fun hActive => hDead (decide_eq_true hActive)⟩)
  | handSend start =>
    dsimp only
    split
    · unfold Channel.send
      cases hRx : s.result.rxAlive with
      | true =>
        -- an acquisition is no error
        rw [if_pos rfl]
        rintro err (hIs | hNo | hNo)
        · exact Or.inl (Or.inl hIs)
        · cases hNo
        · cases hNo
      | false => exact explained_of_silent rfl rfl rfl
    · exact explained_of_silent rfl rfl rfl
  | unlock h =>
    cases h with
    | sent | abandoned => exact explained_of_silent rfl rfl rfl
    | rejected e =>
      refine explained_of_task rfl rfl fun e' hFails => Or.inl (names_of_task ?_)
      rw [hTask]
      exact hFails
  | releaseGuard =>
    dsimp only
    split
    · exact explained_of_silent rfl rfl rfl
    · exact explained_guardStep _ _ rfl
  | dropGuard => exact explained_guardStep _ _ rfl
  | contended =>
    dsimp only
    split
    · refine explained_say _ rfl rfl rfl fun e hNo => ?_
      cases hNo
    · exact explained_of_silent rfl rfl rfl
  | retryShutdown start =>
    dsimp only
    split
    · rename_i hShut
      refine explained_say _ rfl rfl rfl ?_
      rintro _ ⟨⟩
      refine Or.inr (Or.inl ?_)
      simpa using (Bool.and_eq_true_iff.mp hShut).2
    · exact explained_of_silent rfl rfl rfl
  | retryDeadline start =>
    dsimp only
    split
    · rename_i hLate
      refine explained_say _ rfl rfl rfl ?_
      rintro _ ⟨⟩
      exact Or.inr (Bool.and_eq_true_iff.mp hLate).2
    · exact explained_of_silent rfl rfl rfl
  | retryTimer start | awaitAccepted =>
    dsimp only
    split <;> exact explained_of_silent rfl rfl rfl
  | unborn | acquiring start | cleaned | guardReleasing | done | panicked =>
    exact fun _ hNames => Or.inl hNames
  | sending start | cleaning =>
    refine explained_check _ _ fun e hNo => ?_
    cases hNo
  | stamp | locking start | retryParked start => exact explained_of_silent rfl rfl rfl
  | guardStarting => exact explained_of_silent rfl rfl rfl

/-- What neither side does itself leaves the caller and the channel as they are. -/
theorem names_other {e : Event} (hCaller : e.byCaller = false) (hTask : ∀ ready, e ≠ .task ready)
    (hNames : (next o once v s e).names err) :
    s.names err ∨ (next o once v s e).task.fails = some err := by
  rcases hNames with hIs | hIs | hIs
  · exact Or.inl (Or.inl ((caller_next o once v s hCaller).1.symm.trans hIs))
  · rw [result_other hCaller hTask] at hIs
    exact Or.inl (names_of_result hIs)
  · exact Or.inr hIs

/-- **An error that is named first by an event** is caused by it. -/
theorem names_next {e : Event} (hHeard : s.Heard) (hEn : enabled v s e = true)
    (hNames : (next o once v s e).names err) : s.names err ∨ Cause o err s (v, e) := by
  cases e with
  | caller ready =>
    rcases hNames with hIs | hIs | hIs
    · exact callerStep_fails hHeard hIs
    · exact Or.inl (names_of_result (callerStep_value o v ready s hIs))
    · change (callerStep o v ready s).task.fails = some err at hIs
      rcases callerStep_task o v ready s with hSame | ⟨-, hSpawned⟩
      · rw [hSame] at hIs
        exact Or.inl (names_of_task hIs)
      -- a new supervisor has nothing to report
      · rw [hSpawned] at hIs
        cases hIs
  | cancel =>
    obtain ⟨hTask, -, hCaller⟩ := leave_task o v.now .cancelled s
    rcases hNames with hIs | hIs | hIs
    · cases hCaller.symm.trans hIs
    · cases hIs
    · exact Or.inl (names_of_task (hTask ▸ hIs))
  | task ready => exact taskStep_names o once v ready s err hNames
  | acquireReply r =>
    refine (names_other rfl (fun _ hNo => by cases hNo) hNames).imp_right fun hFails => ?_
    change (acquireReplied r s).task.fails = some err at hFails
    unfold acquireReplied at hFails
    cases hTask : s.task with
    | acquiring start =>
      rw [hTask] at hFails
      cases r with
      | acquired | contended => cases hFails
      -- the command failed just now
      | error io =>
        cases hFails
        exact ⟨io, rfl⟩
    | _ => simp [enabled, hTask] at hEn
  | releaseReply ok =>
    refine (names_other rfl (fun _ hNo => by cases hNo) hNames).imp_right fun hFails => ?_
    change (releaseReplied o v ok s).task.fails = some err at hFails
    unfold releaseReplied at hFails
    cases hTask : s.task with
    | cleaned | guardReleasing =>
      rw [hTask] at hFails
      cases hFails
    | _ => simp [enabled, hTask] at hEn
  | guard e =>
    have hTask : (next o once v s (.guard e)).task = s.task := (next_guard_keeps o once v s e).2.2
    rcases names_other rfl (fun _ hNo => by cases hNo) hNames with hOld | hFails
    · exact Or.inl hOld
    · rw [hTask] at hFails
      exact Or.inl (names_of_task hFails)

/-- **Every error has its cause** in an event of the run, and `WorkerError` is never
returned. -/
theorem errors_honest {es : List (View × Event)} (hRun : (acquisition o once).Path .initial es t)
    (hReturned : t.caller = .returned (.error err)) :
    (acquisition o once).Happened .initial es (Cause o err) ∧ err ≠ .workerError := by
  have hCause : (acquisition o once).Happened .initial es (Cause o err) := by
    refine hRun.cause (J := (acquisition o once).Reachable) (Q := State.names err) (.init rfl)
      (fun u e hu hEn => hu.step e hEn) (fun hNo => ?_) (fun u e hu hEn hNames => ?_)
      (Or.inl hReturned)
    -- nothing is named at the beginning
    · rcases hNo with hNo | hNo | hNo <;> cases hNo
    · exact names_next (heard_of_reachable hu) hEn hNames
  refine ⟨hCause, ?_⟩
  rintro rfl
  obtain ⟨_, _, _, _, -, -, -, hNo⟩ := hCause
  exact hNo

end

/-- The manager is closed while the command of the supervisor runs; the caller learns of
it at once. -/
def refusedRun : List (View × Event) :=
  let still (e : Event) : View × Event := (⟨0, true, true⟩, e)
  [still (.caller true), still (.caller true), still (.caller true), still (.task true),
    still (.task true), still (.task true), still (.task true), still (.task true),
    (⟨7, false, false⟩, .caller true)]

/-- What the run leads to: the caller has returned. -/
def refused : State := ((acquisition .new false).exec .initial refusedRun).getD .initial

/-- It returned `Shutdown`, and the cause is the last event. -/
theorem errors_honest_refused :
    (acquisition .new false).Happened .initial refusedRun.reverse (Cause .new .shutdown) ∧
      AcquireError.shutdown ≠ .workerError := by
  have hExec : (acquisition .new false).exec .initial refusedRun = some refused := by
    decide +kernel
  have hReturned : refused.caller = .returned (.error .shutdown) := by decide +kernel
  exact errors_honest (Machine.path_of_exec hExec) hReturned

end RLock.Async
