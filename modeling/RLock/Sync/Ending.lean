import RLock.Sync.Outcome
import RLock.Client.Ending

/-!
# RLock — a sync acquisition comes to its end

The caller goes straight to its end; what it may have to wait for is its worker. Once
the manager is closed, the deadline has passed or the caller has given up, the worker
has only so many steps to go, and the two never wait for each other.

The steps that are left are counted by `Caller.toGo` and `Task.toGo`. The loop passes
its checks again and again, so a check that the ending makes fail is worth the least,
and what comes before it in the loop more, around the retry; a success that comes late
leads through the handoff and the cleanup, which is the longest way. Threads cannot be
dropped and have no `select!`, so there are no polls that miss anything, and a step
always lowers the number of its own side.

Who may wait for whom is `Joined`. A caller that receives has a worker that has not sent
yet, or a channel whose sender is gone; a caller that runs the loop itself has a loop
that is not done. A worker waits for its caller only when it has offered the guard, and
between two attempts for the clock, the flag or the shutdown.

## Results

* `taskStep_nearer`, `callerStep_nearer` — what one step leaves to do.
* `Joined.step` — a caller that waits has a worker that will answer.
* `works_of_reachable`, `calls_of_reachable` — neither side waits for something that
  does not come.
* `request_ends` — the steps, and the attempts, of a whole run.
-/

namespace RLock.Sync

open RLock.Client

/-- `acquire_internal` has returned. -/
def Caller.over : Caller → Bool
  | .returned _ => true
  | _ => false

/-- How many steps the caller has to go at most. -/
def Caller.toGo : Caller → Nat
  | .begin => 10
  | .checkZero => 9
  | .admission => 8
  | .spawning => 7
  | .receiving => 6
  | .checkDeadline _ => 5
  | .checkShutdown _ => 4
  | .checkLease _ => 3
  | .accept => 2
  | .inLoop => 2
  | .timedOut _ => 2
  | .leaving _ => 1
  | .finalLease => 1
  | .returned _ => 0

/-- How many steps the worker has to go at most, the replies it waits for counted with
them. -/
def Task.toGo (why : Ending) : Task → Nat
  | .unborn => why.pick 4 3 2
  | .loopCanceled => why.pick 4 3 2
  | .loopTimeout => why.pick 3 2 15
  | .loopShutdown => why.pick 2 14 14
  | .stamp => 13
  | .checkout _ => 12
  | .sending _ => 11
  | .acquiring _ => 10
  | .lateShutdown _ => 9
  | .lateCanceled _ => 8
  | .lateTimeout _ => 7
  | .lateLease _ => 6
  | .newGuard _ => 5
  | .lateRelease _ => 3
  | .lateReleasing _ => 2
  | .ioError => 2
  | .contended => why.pick 2 3 8
  | .contendedTimeout => why.pick 9 2 7
  | .contendedOnce => why.pick 8 7 6
  | .retryWait => why.pick 7 6 5
  | .parking _ => why.pick 6 5 4
  | .waiting _ _ => why.pick 5 4 3
  | .finished .acquisition => 4
  | .finished _ => 1
  | .awaitAccepted => 3
  | .cleanup => 2
  | .cleaning => 1
  | .done => 0

/-- What brings the request to its end is there; its caller is gone when it has set the
flag. -/
def Ends (o : AcquireOptions) (why : Ending) (s : State) (e : View × Event) : Prop :=
  match why with
  | .closed => e.1.isOpen = false
  | .late => deadlineElapsed e.1.now s.start o.lockTimeout = true
  | .gone => s.canceled = true

/-- The steps of the caller. -/
def Event.byCaller : Event → Bool
  | .caller _ => true
  | _ => false

/-- The steps of the worker, and the replies it waits for. -/
def Event.byTask : Event → Bool
  | .task _ => true
  | .acquireReply _ => true
  | .releaseReply _ => true
  | _ => false

section

variable {s t : State} {o : AcquireOptions} {once ok : Bool} {v : View} {why : Ending}

-- ---------------------------------------------------------------------------
-- The worker
-- ---------------------------------------------------------------------------

/-- A check that ends the request now, or may. -/
theorem check_toGo {b : Bool} {t' t₁ t₂ : Task} (h₁ : b = true → t₁.toGo why < t'.toGo why)
    (h₂ : b = false → t₂.toGo why < t'.toGo why) :
    (if b then t₁ else t₂).toGo why < t'.toGo why := by
  cases b with
  | true => exact h₁ rfl
  | false => exact h₂ rfl

/-- **A step of the worker** takes it nearer to its end. -/
theorem taskStep_nearer (hEnds : Ends o why s (v, .task ok))
    (hEn : enabled o v s (.task ok) = true) :
    (taskStep o once v ok s).task.toGo why < s.task.toGo why := by
  unfold taskStep
  cases hTask : s.task with
  | loopCanceled =>
    refine check_toGo (fun _ => ?_) fun hNot => ?_
    · cases why <;> simp [Task.toGo, Ending.pick]
    · cases why with
      -- the flag is set, so the check sees it
      | gone => exact absurd (hNot.symm.trans hEnds) Bool.false_ne_true
      | closed | late => exact Nat.lt_succ_self _
  | loopTimeout =>
    refine check_toGo (fun _ => ?_) fun hNot => ?_
    · cases why <;> simp [Task.toGo, Ending.pick]
    · cases why with
      | late => exact absurd (hNot.symm.trans hEnds) Bool.false_ne_true
      | closed | gone => exact Nat.lt_succ_self _
  | loopShutdown =>
    refine check_toGo (fun hOpen => ?_) fun _ => ?_
    · cases why with
      | closed => exact absurd (hEnds.symm.trans hOpen) Bool.false_ne_true
      | late | gone => exact Nat.lt_succ_self 13
    · cases why <;> simp [Task.toGo, Ending.pick]
  | stamp => exact Nat.lt_succ_self 12
  | checkout start =>
    refine check_toGo (fun _ => Nat.lt_succ_self 11) fun _ => ?_
    simp [Task.toGo]
  | sending start => exact Nat.lt_succ_self 10
  | ioError => exact Nat.lt_succ_self 1
  -- passed or not, it goes on to the next check or to the release
  | lateShutdown start | lateCanceled start | lateTimeout start | lateLease start =>
    refine check_toGo (fun _ => ?_) fun _ => ?_ <;> simp [Task.toGo]
  | lateRelease e =>
    refine check_toGo (fun _ => Nat.lt_succ_self 2) fun _ => ?_
    simp [Task.toGo]
  | newGuard start =>
    dsimp only
    split
    · exact Nat.lt_succ_self 4
    · simp [State.goto, Task.toGo]
  | contended =>
    refine check_toGo (fun hOpen => ?_) fun _ => ?_
    · cases why with
      | closed => exact absurd (hEnds.symm.trans hOpen) Bool.false_ne_true
      | late | gone => exact Nat.lt_succ_self _
    · cases why <;> simp [Task.toGo, Ending.pick]
  | contendedTimeout =>
    refine check_toGo (fun _ => ?_) fun hNot => ?_
    · cases why <;> simp [Task.toGo, Ending.pick]
    · cases why with
      | late => exact absurd (hNot.symm.trans hEnds) Bool.false_ne_true
      | closed | gone => exact Nat.lt_succ_self _
  | contendedOnce =>
    refine check_toGo (fun _ => ?_) fun _ => ?_ <;> cases why <;> simp [Task.toGo, Ending.pick]
  | retryWait | parking wait | waiting start wait => cases why <;> exact Nat.lt_succ_self _
  | finished m =>
    cases m with
    | acquisition =>
      dsimp only
      split
      · exact Nat.lt_succ_self 3
      · exact Nat.lt_succ_of_le (Nat.le_succ 2)
    | nothing | failed e => exact Nat.one_pos
  | awaitAccepted =>
    dsimp only
    split
    · exact Nat.zero_lt_succ 2
    · exact Nat.lt_succ_self 2
  | cleanup => exact check_toGo (fun _ => Nat.lt_succ_self 1) fun _ => Nat.zero_lt_succ 1
  | unborn | acquiring start | lateReleasing e | cleaning | done =>
    simp [enabled, hTask] at hEn

theorem reply_nearer {e : Event} (hReply : ∀ ok, e ≠ .task ok) (hOwn : e.byTask = true)
    (hEn : enabled o v s e = true) : (next o once v s e).task.toGo why < s.task.toGo why := by
  cases e with
  | task ok => exact absurd rfl (hReply ok)
  | caller ok | guard e => cases hOwn
  | acquireReply r =>
    show (acquireReplied r s).task.toGo why < _
    unfold acquireReplied
    cases hTask : s.task with
    | acquiring start =>
      cases r with
      | acquired => exact Nat.lt_succ_self 9
      | contended => cases why <;> simp [State.goto, Task.toGo, Ending.pick]
      | error io => exact check_toGo (fun _ => by simp [Task.toGo]) fun _ => by simp [Task.toGo]
    | _ => simp [enabled, hTask] at hEn
  | releaseReply ok =>
    show (releaseReplied s).task.toGo why < _
    unfold releaseReplied
    cases hTask : s.task with
    | lateReleasing e => exact Nat.lt_succ_self 1
    | cleaning => exact Nat.one_pos
    | _ => simp [enabled, hTask] at hEn

/-- What is not about the worker leaves it where it is, starts it or takes its result. -/
theorem task_other (h : Inv s) {e : Event} (hOther : e.byTask = false) :
    (next o once v s e).task = s.task ∨
      s.task = .unborn ∧ (next o once v s e).task = .loopCanceled ∨
      (next o once v s e).task = .done := by
  cases e with
  | task ok | acquireReply r | releaseReply ok => cases hOther
  | caller ok =>
    rcases callerStep_task o v ok s with hSame | ⟨hCaller, hSpawned, -⟩ | ⟨-, hDone, -⟩
    · exact Or.inl hSame
    · refine Or.inr (Or.inl ⟨h.born ?_, hSpawned⟩)
      rcases hCaller with hAt | hAt <;> rw [hAt] <;> rfl
    · exact Or.inr (Or.inr hDone)
  | guard e => exact Or.inl (next_guard_keeps o once v s e).2.2

/-- The worker in the terms of `Tracked.Nears`: no step is missed, and ten steps come after an
attempt. -/
theorem task_nears (o : AcquireOptions) (once : Bool) (why : Ending) :
    Tracked.Nears (acquisition o once) (Ends o why) (fun s => s.task.progress)
      (fun s => s.task.toGo why) (fun e => e.2.byTask) (fun _ => false) 0 10 where
  own s e hs hEn hEnds hOwn := by
    obtain ⟨v, e⟩ := e
    cases e with
    | task ok => exact Or.inl (taskStep_nearer hEnds hEn)
    | acquireReply r | releaseReply ok => exact Or.inl (reply_nearer (fun _ => by simp) hOwn hEn)
    | caller ok | guard e => cases hOwn
  other s e hs hEn hEnds hOther := by
    rcases task_other (inv_of_reachable hs) hOther with hSame | ⟨hUnborn, hSpawned⟩ | hDone
    · have hTask : ((acquisition o once).next s e).task = s.task := hSame
      rw [hTask]
      exact ⟨Nat.le_refl _, fun _ => id⟩
    · have hTask : ((acquisition o once).next s e).task = .loopCanceled := hSpawned
      rw [hTask, hUnborn]
      exact ⟨Nat.le_refl _, fun _ hNo => by cases hNo⟩
    · have hTask : ((acquisition o once).next s e).task = .done := hDone
      rw [hTask]
      exact ⟨Nat.zero_le _, fun _ hNo => by cases hNo⟩
  running s start hRunning := by
    cases hTask : s.task with
    | acquiring start => rfl
    | _ =>
      rw [hTask] at hRunning
      cases hRunning
  apart := by decide

-- ---------------------------------------------------------------------------
-- The caller
-- ---------------------------------------------------------------------------

/-- **A step of the caller** takes it nearer to its end, whatever it sees. -/
theorem callerStep_nearer (hEn : enabled o v s (.caller ok) = true) :
    (callerStep o v ok s).caller.toGo < s.caller.toGo := by
  have hLeave : ∀ (e : AcquireError) (s' : State), (s'.leave o v.now e).caller.toGo = 0 := by
    intro e s'
    rw [(State.leave_keeps o v.now e s').2.1]
    rfl
  unfold callerStep
  cases hCaller : s.caller with
  | begin => exact Nat.lt_succ_self 9
  | checkZero =>
    show Caller.toGo (if _ then _ else _) < _
    split <;> simp [Caller.toGo]
  | admission =>
    dsimp only
    split
    · split <;> simp [State.call, Caller.toGo]
    · simp [State.call, Caller.toGo]
  | spawning =>
    dsimp only
    split <;> simp [State.call, Caller.toGo]
  | receiving =>
    dsimp only
    split
    · split
      · exact Nat.lt_succ_self 5
      · rw [hLeave]
        exact Nat.zero_lt_succ 5
    · simp [State.call, Caller.toGo]
  | inLoop =>
    cases hTask : s.task with
    | finished m => cases m <;> simp [Caller.toGo]
    | _ => simp [enabled, hCaller, hTask] at hEn
  | checkDeadline m =>
    show Caller.toGo (if _ then _ else _) < _
    split <;> simp [Caller.toGo]
  | timedOut m => exact Nat.lt_succ_self 1
  | leaving m =>
    dsimp only
    rw [hLeave]
    exact Nat.one_pos
  | checkShutdown m =>
    dsimp only
    split
    · exact Nat.lt_succ_self 3
    · rw [hLeave]
      exact Nat.zero_lt_succ 3
  | checkLease m =>
    cases m with
    | failed e | nothing => exact Nat.zero_lt_succ 2
    | acquisition =>
      dsimp only
      split
      · exact Nat.lt_succ_self 2
      · rw [hLeave]
        exact Nat.zero_lt_succ 2
  | accept => exact Nat.lt_succ_self 1
  | finalLease =>
    dsimp only
    split
    · exact Nat.one_pos
    · rw [hLeave]
      exact Nat.one_pos
  | returned r => simp [enabled, hCaller] at hEn

-- ---------------------------------------------------------------------------
-- Nobody is left waiting
-- ---------------------------------------------------------------------------

/-- The worker is to be started, or the caller waits for it. -/
def Caller.joins : Caller → Bool
  | .spawning => true
  | .receiving => true
  | .inLoop => true
  | _ => false

/-- A caller that waits has a worker that will answer or has. -/
structure Joined (o : AcquireOptions) (s : State) : Prop where
  spawning : s.caller = .spawning → o.lockTimeout.isSome = true
  receiving : s.caller = .receiving → o.lockTimeout.isSome = true ∧ s.task ≠ .unborn ∧
    (s.task.unsent = false → s.result.txAlive = false)
  inLoop : s.caller = .inLoop → o.lockTimeout.isSome = false ∧ s.task ≠ .unborn ∧
    s.task.unsent = true
  alone : o.lockTimeout.isSome = false → s.task = .unborn ∨ s.task = .done ∨ s.caller = .inLoop

theorem joined_initial (o : AcquireOptions) : Joined o .initial where
  spawning hNo := by cases hNo
  receiving hNo := by cases hNo
  inLoop hNo := by cases hNo
  alone _ := Or.inl rfl

/-- The caller goes on, and does not wait. -/
theorem Joined.past (h : Joined o s) (hNow : s.caller ≠ .inLoop) (hTask : t.task = s.task)
    (hPast : t.caller.joins = false) : Joined o t where
  spawning hNo := by
    rw [hNo] at hPast
    cases hPast
  receiving hNo := by
    rw [hNo] at hPast
    cases hPast
  inLoop hNo := by
    rw [hNo] at hPast
    cases hPast
  alone hNone := by
    rw [hTask]
    exact (h.alone hNone).imp_right fun hEnd => Or.inl (hEnd.resolve_right hNow)

theorem Joined.leave (h : Joined o s) {s' : State} {now : Int} {e : AcquireError}
    (hNow : s.caller ≠ .inLoop) (hTask : s'.task = s.task) : Joined o (s'.leave o now e) := by
  refine h.past hNow ((State.leave_keeps o now e s').1.trans hTask) ?_
  rw [(State.leave_keeps o now e s').2.1]
  rfl

/-- **A step of the caller** starts the worker before it waits for it. -/
theorem Joined.callerStep (h : Joined o s) (hEn : enabled o v s (.caller ok) = true) :
    Joined o (callerStep o v ok s) := by
  unfold Sync.callerStep
  cases hCaller : s.caller with
  | begin | timedOut m | accept => exact h.past (by simp [hCaller]) rfl rfl
  | returned r => exact h
  | checkZero =>
    refine h.past (by simp [hCaller]) rfl ?_
    show Caller.joins (if _ then _ else _) = false
    split <;> rfl
  | admission =>
    dsimp only
    split
    · split
      · rename_i hSome
        -- a worker is to be spawned
        exact ⟨fun _ => hSome, by simp [State.call], by simp [State.call], by simp [hSome]⟩
      · rename_i hNone
        -- the loop runs here, and is not done
        exact ⟨by simp, by simp, fun _ => ⟨Bool.eq_false_iff.mpr hNone, by simp, rfl⟩,
          fun _ => Or.inr (Or.inr rfl)⟩
    · exact h.past (by simp [hCaller]) rfl rfl
  | spawning =>
    have hSome := h.spawning hCaller
    dsimp only
    split
    · exact ⟨by simp, fun _ => ⟨hSome, by simp, by simp [Task.unsent]⟩, by simp, by simp [hSome]⟩
    · exact h.past (by simp [hCaller]) rfl rfl
  | receiving =>
    dsimp only
    split
    · split
      · exact h.past (by simp [hCaller]) rfl rfl
      · exact h.leave (by simp [hCaller]) rfl
    · exact h.past (by simp [hCaller]) rfl rfl
  | inLoop =>
    cases hTask : s.task with
    | finished m =>
      cases m <;> exact ⟨by simp, by simp, by simp, fun _ => Or.inr (Or.inl rfl)⟩
    | _ => simp [enabled, hCaller, hTask] at hEn
  | checkDeadline m =>
    refine h.past (by simp [hCaller]) rfl ?_
    show Caller.joins (if _ then _ else _) = false
    split <;> rfl
  | leaving m => exact h.leave (by simp [hCaller]) rfl
  | checkShutdown m | finalLease =>
    dsimp only
    split
    · exact h.past (by simp [hCaller]) rfl rfl
    · exact h.leave (by simp [hCaller]) rfl
  | checkLease m =>
    cases m with
    | failed e | nothing => exact h.past (by simp [hCaller]) rfl rfl
    | acquisition =>
      dsimp only
      split
      · exact h.past (by simp [hCaller]) rfl rfl
      · exact h.leave (by simp [hCaller]) rfl

/-- The worker leaves the loop only by telling its caller, if there is one. -/
theorem taskStep_tells_end (hEn : enabled o v s (.task ok) = true) :
    (taskStep o once v ok s).task ≠ .unborn ∧
      ((taskStep o once v ok s).task.unsent = true ∨
        s.task.unsent = false ∧ (taskStep o once v ok s).result = s.result ∨
        o.lockTimeout.isSome = true ∧
          (s.result.rxAlive = true → (taskStep o once v ok s).result.txAlive = false)) := by
  have hGoto : ∀ t : Task, t ≠ .unborn → t.unsent = true → ∀ s' : State,
      (s'.goto t).task ≠ .unborn ∧ ((s'.goto t).task.unsent = true ∨
        s.task.unsent = false ∧ (s'.goto t).result = s.result ∨
        o.lockTimeout.isSome = true ∧
          (s.result.rxAlive = true → (s'.goto t).result.txAlive = false)) :=
    fun t hBorn hUnsent _ => ⟨hBorn, Or.inl hUnsent⟩
  unfold taskStep
  cases hTask : s.task with
  | loopCanceled | loopTimeout | loopShutdown | checkout start | lateShutdown start
  | lateCanceled start | lateTimeout start | lateLease start | lateRelease e | contended
  | contendedTimeout | contendedOnce =>
    rw [hTask] at hGoto
    dsimp only
    split <;> exact hGoto _ (by simp) rfl _
  | stamp | sending start | ioError | retryWait | parking wait | waiting start wait =>
    rw [hTask] at hGoto
    exact hGoto _ (by simp) rfl _
  | newGuard start =>
    dsimp only
    split
    · exact ⟨by simp, Or.inl rfl⟩
    · exact ⟨by simp [State.goto], Or.inl rfl⟩
  | finished m =>
    have hSome : o.lockTimeout.isSome = true := by simpa [enabled, hTask] using hEn
    -- to send is to give up the sender
    have hSent : ∀ m : Message, (s.result.send m).2.txAlive = false := by
      intro m
      unfold Channel.send
      split <;> rfl
    cases m with
    | acquisition =>
      dsimp only
      split
      · exact ⟨by simp, Or.inr (Or.inr ⟨hSome, fun _ => hSent _⟩)⟩
      · rename_i hRx
        exact ⟨by simp [State.goto], Or.inr (Or.inr ⟨hSome, fun hNo => absurd hNo hRx⟩)⟩
    | nothing | failed e => exact ⟨by simp, Or.inr (Or.inr ⟨hSome, fun _ => hSent _⟩)⟩
  | awaitAccepted =>
    dsimp only
    split <;> exact ⟨by simp [State.goto], Or.inr (Or.inl ⟨rfl, rfl⟩)⟩
  | cleanup =>
    dsimp only
    split <;> exact ⟨by simp [State.goto], Or.inr (Or.inl ⟨rfl, rfl⟩)⟩
  | unborn | acquiring start | lateReleasing e | cleaning | done =>
    simp [enabled, hTask] at hEn

/-- What is not the caller's doing: nothing, or a step of a worker that goes on, has sent
its result or sends it now. -/
theorem task_next {e : Event} (hEn : enabled o v s e = true) (hOther : e.byCaller = false) :
    (next o once v s e).task = s.task ∧ (next o once v s e).result = s.result ∨
      s.task ≠ .unborn ∧ s.task ≠ .done ∧ (next o once v s e).task ≠ .unborn ∧
        ((next o once v s e).task.unsent = true ∨
          s.task.unsent = false ∧ (next o once v s e).result = s.result ∨
          o.lockTimeout.isSome = true ∧
            (s.result.rxAlive = true → (next o once v s e).result.txAlive = false)) := by
  cases e with
  | caller ok => cases hOther
  | task ok =>
    refine Or.inr ⟨fun hNo => ?_, fun hNo => ?_, taskStep_tells_end hEn⟩ <;>
      simp [enabled, hNo] at hEn
  | acquireReply r =>
    refine Or.inr ?_
    show _ ∧ _ ∧ (acquireReplied r s).task ≠ .unborn ∧ ((acquireReplied r s).task.unsent = true ∨ _)
    unfold acquireReplied
    cases hTask : s.task with
    | acquiring start =>
      refine ⟨by simp, by simp, ?_⟩
      rcases r with _ | _ | io
      · exact ⟨by simp [State.goto], Or.inl rfl⟩
      · exact ⟨by simp [State.goto], Or.inl rfl⟩
      · cases io <;> exact ⟨by simp [State.goto], Or.inl rfl⟩
    | _ => simp [enabled, hTask] at hEn
  | releaseReply ok =>
    refine Or.inr ?_
    show _ ∧ _ ∧ (releaseReplied s).task ≠ .unborn ∧ ((releaseReplied s).task.unsent = true ∨
      _ ∧ (releaseReplied s).result = _ ∨ _)
    unfold releaseReplied
    cases hTask : s.task with
    | lateReleasing e => exact ⟨by simp, by simp, by simp [State.goto], Or.inl rfl⟩
    | cleaning => exact ⟨by simp, by simp, by simp [State.goto], Or.inr (Or.inl ⟨rfl, rfl⟩)⟩
    | _ => simp [enabled, hTask] at hEn
  | guard e =>
    obtain ⟨-, ⟨hResult, -⟩, hTask⟩ := next_guard_keeps o once v s e
    exact Or.inl ⟨hTask, hResult⟩

/-- **One event** leaves whoever waits with somebody who will answer. -/
theorem Joined.step {e : Event} (h : Joined o s) (hInv : Inv s) (hEn : enabled o v s e = true) :
    Joined o (next o once v s e) := by
  cases hOwn : e.byCaller with
  | true =>
    cases e with
    | caller ok => exact h.callerStep hEn
    | task ok | acquireReply r | releaseReply ok | guard e => cases hOwn
  | false =>
    have hCaller : (next o once v s e).caller = s.caller := by
      refine (caller_next o once v s fun ok hNo => ?_).1
      rw [hNo] at hOwn
      cases hOwn
    rcases @task_next s o once v e hEn hOwn with ⟨hTask, hResult⟩ | ⟨hBorn, hOn, hNext, hSays⟩
    · refine ⟨fun hAt => h.spawning (hCaller.symm.trans hAt), ?_, ?_, ?_⟩ <;>
        rw [hCaller, hTask]
      · rw [hResult]
        exact h.receiving
      · exact h.inLoop
      · exact h.alone
    · refine ⟨fun hAt => h.spawning (hCaller.symm.trans hAt), fun hAt => ?_, fun hAt => ?_,
        fun hNone => ?_⟩
      -- it still receives: its worker has not sent, or has just done so
      · have hHere := hCaller.symm.trans hAt
        have hRx : s.result.rxAlive = true := hInv.waits (by rw [hHere]; rfl)
        obtain ⟨hSome, -, hTold⟩ := h.receiving hHere
        refine ⟨hSome, hNext, fun hUnsent => ?_⟩
        rcases hSays with hStill | ⟨hSent, hResult⟩ | ⟨-, hSends⟩
        · exact absurd (hUnsent.symm.trans hStill) Bool.false_ne_true
        · rw [hResult]
          exact hTold hSent
        · exact hSends hRx
      -- it runs the loop itself, which does not send
      · obtain ⟨hNone, -, hUnsent⟩ := h.inLoop (hCaller.symm.trans hAt)
        refine ⟨hNone, hNext, ?_⟩
        rcases hSays with hStill | ⟨hSent, -⟩ | ⟨hSome, -⟩
        · exact hStill
        · exact absurd (hSent.symm.trans hUnsent) Bool.false_ne_true
        · exact absurd (hNone.symm.trans hSome) Bool.false_ne_true
      · rw [hCaller]
        exact Or.inr (Or.inr (((h.alone hNone).resolve_left hBorn).resolve_left hOn))

theorem joined_of_reachable (hs : (acquisition o once).Reachable s) : Joined o s := by
  refine hs.invariant_of (J := Inv) (fun s => inv_of_reachable) (fun s hInit => ?_)
    fun s e hInv hJoined hEn => hJoined.step hInv hEn
  rw [show s = State.initial from hInit]
  exact joined_initial o

/-- The worker has ended or can go on; or its result is with a caller that can go on, or
it sleeps between two attempts and nothing has woken it yet. -/
def State.Works (o : AcquireOptions) (v : View) (s : State) : Prop :=
  s.task = .unborn ∨ s.task = .done ∨
    (∃ e : Event, e.byTask = true ∧ enabled o v s e = true) ∨
    (∃ m, s.task = .finished m ∧ s.caller = .inLoop) ∨
    s.task = .awaitAccepted ∧ s.caller.over = false ∨
    ∃ start wait, s.task = .waiting start wait ∧ s.canceled = false ∧ v.isOpen = true ∧
      deadlineElapsed v.now start (some wait) = false

/-- The caller has returned or can go on, or it waits for a worker that has not told it
its result. -/
def State.Calls (o : AcquireOptions) (v : View) (s : State) : Prop :=
  s.caller.over = true ∨ (∃ ok, enabled o v s (.caller ok) = true) ∨
    (s.caller = .receiving ∨ s.caller = .inLoop ∧ ∀ m, s.task ≠ .finished m) ∧
      s.task ≠ .unborn ∧ s.task.unsent = true

/-- **No worker is left waiting** for a caller that is gone. -/
theorem works_of_reachable (hs : (acquisition o once).Reachable s) (v : View) :
    s.Works o v := by
  have h := inv_of_reachable hs
  have hJoined := joined_of_reachable hs
  have hStep : enabled o v s (.task true) = true → s.Works o v := fun hEn =>
    Or.inr (Or.inr (Or.inl ⟨.task true, rfl, hEn⟩))
  cases hTask : s.task with
  | unborn => exact Or.inl hTask
  | done => exact Or.inr (Or.inl hTask)
  | acquiring start =>
    exact Or.inr (Or.inr (Or.inl ⟨.acquireReply .contended, rfl, by simp [enabled, hTask]⟩))
  | lateReleasing e | cleaning =>
    exact Or.inr (Or.inr (Or.inl ⟨.releaseReply true, rfl, by simp [enabled, hTask]⟩))
  | finished m =>
    cases hTimeout : o.lockTimeout.isSome with
    | true => exact hStep (by simp [enabled, hTask, hTimeout])
    | false =>
      have hWaits := hJoined.alone hTimeout
      simp only [hTask, reduceCtorEq, false_or] at hWaits
      exact Or.inr (Or.inr (Or.inr (Or.inl ⟨m, hTask, hWaits⟩)))
  | awaitAccepted =>
    cases hOver : s.caller.over with
    | false => exact Or.inr (Or.inr (Or.inr (Or.inr (Or.inl ⟨hTask, hOver⟩))))
    | true =>
      -- the caller has taken the guard or dropped it
      refine hStep ?_
      have hSit := h.situation
      rw [hTask] at hSit
      obtain ⟨ch, hCh, hOffered⟩ := hSit
      have hSpoken : ch.value.isSome = true ∨ ch.txAlive = false := by
        cases hCaller : s.caller with
        | returned r =>
          rw [hCaller] at hOffered
          rcases r with e | got
          · refine hOffered.2.2.imp_left fun hValue => ?_
            rw [hValue]
            rfl
          · cases got with
            | true => exact Or.inl (by rw [hOffered.2.2]; rfl)
            | false =>
              refine hOffered.2.2.imp_left fun hValue => ?_
              rw [hValue]
              rfl
        | _ =>
          rw [hCaller] at hOver
          cases hOver
      rcases hSpoken with hSome | hDropped
      · simp [enabled, hTask, hCh, hSome]
      · simp [enabled, hTask, hCh, hDropped]
  | waiting start wait =>
    by_cases hWakes : enabled o v s (.task true) = true
    · exact hStep hWakes
    · refine Or.inr (Or.inr (Or.inr (Or.inr (Or.inr ⟨start, wait, hTask, ?_⟩))))
      simpa [enabled, hTask, and_assoc] using hWakes
  | _ => exact hStep (by simp [enabled, hTask])

/-- **No caller is left waiting** for a worker that is gone. -/
theorem calls_of_reachable (hs : (acquisition o once).Reachable s) (v : View) :
    s.Calls o v := by
  have hJoined := joined_of_reachable hs
  cases hCaller : s.caller with
  | returned r => exact Or.inl (by rw [hCaller]; rfl)
  | receiving =>
    obtain ⟨-, hBorn, hTold⟩ := hJoined.receiving hCaller
    cases hUnsent : s.task.unsent with
    -- its worker is still to send
    | true => exact Or.inr (Or.inr ⟨Or.inl hCaller, hBorn, hUnsent⟩)
    | false => exact Or.inr (Or.inl ⟨true, by simp [enabled, hCaller, hTold hUnsent]⟩)
  | inLoop =>
    obtain ⟨-, hBorn, hUnsent⟩ := hJoined.inLoop hCaller
    by_cases hFinished : ∃ m, s.task = .finished m
    · obtain ⟨m, hTask⟩ := hFinished
      exact Or.inr (Or.inl ⟨true, by simp [enabled, hCaller, hTask]⟩)
    · exact Or.inr (Or.inr ⟨Or.inr ⟨hCaller, fun m hNo => hFinished ⟨m, hNo⟩⟩, hBorn, hUnsent⟩)
  | _ => exact Or.inr (Or.inl ⟨true, by simp [enabled, hCaller]⟩)

/-- **Every acquisition comes to its end.** Once the manager is closed, the deadline has
passed or the caller has given up, the caller makes at most ten more steps and the
worker at most fifteen, with at most one more attempt; and until then they can go on and
never wait for each other. -/
theorem request_ends (hs : (acquisition o once).Reachable s) {es : List (View × Event)}
    (hRun : ((acquisition o once).restrict (Ends o why)).Path s es t) :
    (∀ v, t.Works o v ∧ t.Calls o v) ∧ es.countP (fun e => e.2.byCaller) ≤ 10 ∧
      es.countP (fun e => e.2.byTask) ≤ 15 ∧
      t.log.countP Action.isAttempt ≤ s.log.countP Action.isAttempt + 1 := by
  have ht : (acquisition o once).Reachable t :=
    hRun.invariant (I := (acquisition o once).Reachable) hs fun s e hr hEn => hr.step e hEn.1
  obtain ⟨hTask, hAttempts⟩ := (tracked o once).ends (task_nears o once why) hs hRun
  have hOther : ∀ s e, e.2.byCaller = false →
      ((acquisition o once).next s e).caller = s.caller := by
    intro s e hOwn
    refine (caller_next o once e.1 s fun ok hNo => ?_).1
    rw [hNo] at hOwn
    cases hOwn
  have hCaller := hRun.bounded (M := (acquisition o once).restrict (Ends o why))
    (I := fun _ => True) (fun s => s.caller.toGo) (fun e => e.2.byCaller) (fun _ _ h _ => h)
    (fun s e _ hEn hOwn => ?_) (fun s e _ _ hOwn => ?_) trivial
  -- both counts are bounded from the start
  · have hFew : s.caller.toGo ≤ 10 := by
      cases s.caller <;> simp [Caller.toGo]
    have hMany : s.task.toGo why ≤ 15 := by
      cases s.task with
      | finished m => cases m <;> simp [Task.toGo]
      | _ => cases why <;> simp [Task.toGo, Ending.pick]
    exact ⟨fun v => ⟨works_of_reachable ht v, calls_of_reachable ht v⟩, by omega, by omega,
      hAttempts⟩
  · obtain ⟨v, e⟩ := e
    cases e with
    | caller ok => exact callerStep_nearer hEn.1
    | task ok | acquireReply r | releaseReply ok | guard e => cases hOwn
  · exact Nat.le_of_eq (congrArg Caller.toGo (hOther s e hOwn))

end

/-- The deadline passes while the command of the worker runs. -/
def givenUpRun : List (View × Event) :=
  let now (n : Int) (e : Event) : View × Event := (⟨n, true, true⟩, e)
  [now 0 (.caller true), now 0 (.caller true), now 0 (.caller true), now 0 (.caller true),
    now 0 (.task true), now 0 (.task true), now 0 (.task true), now 0 (.task true),
    now 0 (.task true), now 0 (.task true), now 5000000 (.caller false), now 5000000 (.caller true)]

/-- Where the run leads: the caller has set the flag. -/
def givenUp : State := ((acquisition fiveMillis false).exec .initial givenUpRun).getD .initial

/-- The theorem for every run after that one: the command may be answered, and its lock is cleaned
up. -/
theorem request_ends_givenUp :
    givenUp.task = .acquiring 0 ∧ ∀ es t,
      ((acquisition fiveMillis false).restrict (Ends fiveMillis .gone)).Path givenUp es t →
      (∀ v, t.Works fiveMillis v ∧ t.Calls fiveMillis v) ∧
        es.countP (fun e => e.2.byCaller) ≤ 10 ∧ es.countP (fun e => e.2.byTask) ≤ 15 ∧
        t.log.countP Action.isAttempt ≤ givenUp.log.countP Action.isAttempt + 1 :=
  ⟨by decide +kernel, fun _ _ => request_ends
    (Machine.reachable_getD rfl (by decide +kernel))⟩

end RLock.Sync
