import RLock.Async.Deadline
import RLock.Async.Outcome
import RLock.Async.Shutdown
import RLock.Client.Ending

/-!
# RLock — an async acquisition comes to its end

Once the manager is closed, the deadline has passed or the caller is gone, the
caller and the supervisor have only so many steps to go, whatever Redis replies and
however the two are scheduled. A poll that misses what is ready sends them around
their `select!` once more.

The steps that are left are counted by `Caller.toGo` and `Task.toGo`, for each of
the three endings. The numbers go down along the code: a check that the ending
makes fail is worth one step, and the checks before it a step more each, round the
`select!` if need be. A success that comes late leads through the handoff, which
is the longest way (15 steps). Each step lowers the number of its own side and
leaves that of the other, except for a poll that misses what is ready, which is
charged to the events that missed it (`Machine.Path.charged`).

Whoever is parked in a `select!` may be polled at any time. That a poll comes when it
has to is the business of the futures it waits for: `wait_for_shutdown`, which watches
the state of the manager, and `wait_for_deadline`, which sets timers. `Selects` puts
their machines (`Async.Shutdown`, `Async.Deadline`) beside the acquisition, at one
moment that all three agree on.

## Results

* `taskStep_nearer`, `callerStep_nearer` — what one step leaves to do.
* `goes_of_reachable` — neither side waits for something that does not come.
* `woken_of_parked` — what brings the request to its end wakes whoever is parked.
* `acquisition_ends` — the steps, and the attempts, of a whole run.
-/

namespace RLock.Async

open RLock.Client

/-- `acquire_internal` has returned or was dropped. -/
def Caller.over : Caller → Bool
  | .returned _ => true
  | .cancelled => true
  | _ => false

/-- How many steps the caller has to go at most. -/
def Caller.toGo (why : Ending) : Caller → Nat
  | .begin => why.pick 3 2 0
  | .checkTimeout => why.pick 2 1 0
  | .admission => why.pick 1 3 0
  | .pollShutdown => why.pick 1 2 0
  | .pollDeadline => why.pick 4 1 0
  | .pollResult => why.pick 3 4 0
  | .parked => why.pick 2 3 0
  | .checkDeadline _ => why.pick 2 1 0
  | .checkOpen _ => why.pick 1 3 0
  | .checkLease => 2
  | .accept => 1
  | .returned _ => 0
  | .cancelled => 0

/-- How many steps the supervisor has to go at most, the replies it waits for counted
with them. -/
def Task.toGo (why : Ending) : Task → Nat
  | .unborn => why.pick 2 3 1
  | .checkClosed => why.pick 2 3 1
  | .checkOpen => why.pick 1 2 15
  | .checkDeadline => why.pick 14 1 14
  | .stamp => 13
  | .sending _ => 12
  | .acquiring _ => 11
  | .locking _ => 10
  | .handOpen _ => 9
  | .handDeadline _ => 8
  | .handLease _ => 7
  | .handSend _ => 6
  | .unlock _ => 5
  | .releaseGuard => 4
  | .guardStarting => 3
  | .guardReleasing => 2
  | .dropGuard => 1
  | .awaitAccepted => 3
  | .reject _ => 3
  | .failing => 3
  | .cleaning => 2
  | .cleaned => 1
  | .contended => why.pick 3 4 2
  | .retryClosed _ => why.pick 2 3 1
  | .retryShutdown _ => why.pick 1 2 5
  | .retryDeadline _ => why.pick 5 1 4
  | .retryTimer _ => why.pick 4 5 3
  | .retryParked _ => why.pick 3 4 2
  | .done => 0
  | .panicked => 0

/-- What brings the request to its end is there. -/
def Ends (o : AcquireOptions) (why : Ending) (s : State) (e : View × Event) : Prop :=
  match why with
  | .closed => e.1.isOpen = false
  | .late => deadlineElapsed e.1.now s.start o.lockTimeout = true
  | .gone => s.caller.over = true

/-- The steps of the supervisor, and the replies it waits for. -/
def Event.byTask : Event → Bool
  | .task _ => true
  | .acquireReply _ => true
  | .releaseReply _ => true
  | _ => false

section

variable {s t : State} {o : AcquireOptions} {once ready : Bool} {v : View} {why : Ending}

-- ---------------------------------------------------------------------------
-- The supervisor
-- ---------------------------------------------------------------------------

/-- Whoever speaks goes on to `t`, or has ended in a panic. -/
theorem say_toGo (m : Message) (t : Task) (s : State) :
    (s.say m t).task.toGo why ≤ t.toGo why := by
  rcases State.say_task m t s with hTask | hTask
  · exact le_of_eq (congrArg _ hTask)
  · rw [hTask]
    exact Nat.zero_le _

/-- A caller that is gone took its receiver with it. -/
theorem Inv.rx_of_over (h : Inv s) (hTx : s.hasTx = true) (hOver : s.caller.over = true) :
    s.result.rxAlive = false := by
  cases hRx : s.result.rxAlive with
  | false => rfl
  | true =>
    have hWaits := h.heard hTx hRx
    cases hCaller : s.caller with
    | returned r =>
      rw [hCaller] at hWaits
      rcases r with e | got
      · cases hWaits
      · cases got <;> cases hWaits
    | cancelled =>
      rw [hCaller] at hWaits
      cases hWaits
    | _ =>
      rw [hCaller] at hOver
      cases hOver

/-- **A step of the supervisor** takes it nearer to its end, or it polled and missed what
is ready. -/
theorem taskStep_nearer (h : Inv s) (hEnds : Ends o why s (v, .task ready))
    (hEn : enabled v s (.task ready) = true) :
    (taskStep o once v ready s).task.toGo why < s.task.toGo why ∨
      ready = false ∧ (taskStep o once v ready s).task.toGo why ≤ 5 ∧ 0 < s.task.toGo why := by
  have hOwns : s.task.ownsTx = true → s.hasTx = true := fun hIs => h.tx.trans hIs
  unfold taskStep
  cases hTask : s.task with
  | checkClosed =>
    -- it still has its sender, so it does not panic
    have hTx : s.hasTx = true := hOwns (by rw [hTask]; rfl)
    refine Or.inl ?_
    dsimp only
    rw [if_pos hTx]
    cases why with
    | gone =>
      rw [h.rx_of_over hTx hEnds, if_neg Bool.false_ne_true]
      exact Nat.one_pos
    | closed | late =>
      split
      · exact Nat.lt_succ_self _
      · exact Nat.zero_lt_succ _
  | checkOpen =>
    refine Or.inl ?_
    dsimp only
    cases why with
    | closed =>
      rw [show v.isOpen = false from hEnds, if_neg Bool.false_ne_true]
      exact Nat.lt_of_le_of_lt (say_toGo _ _ _) Nat.one_pos
    | late | gone =>
      split
      · exact Nat.lt_succ_self _
      · exact Nat.lt_of_le_of_lt (say_toGo _ _ _) (Nat.zero_lt_succ _)
  | checkDeadline =>
    refine Or.inl ?_
    dsimp only
    cases why with
    | late =>
      rw [if_pos (show deadlineElapsed v.now s.start o.lockTimeout = true from hEnds)]
      exact Nat.lt_of_le_of_lt (say_toGo _ _ _) Nat.one_pos
    | closed | gone =>
      split
      · exact Nat.lt_of_le_of_lt (say_toGo _ _ _) (Nat.zero_lt_succ _)
      · exact Nat.lt_succ_self _
  | stamp | sending start | locking start => exact Or.inl (Nat.lt_succ_self _)
  | failing => exact Or.inl (Nat.lt_of_le_of_lt (say_toGo _ _ _) (Nat.lt_succ_self 2))
  | reject e => exact Or.inl (Nat.lt_of_le_of_lt (say_toGo _ _ _) (Nat.lt_succ_self 2))
  | handOpen start | handDeadline start | handLease start =>
    refine Or.inl ?_
    show Task.toGo why (if _ then _ else _) < _
    split <;> simp [Task.toGo]
  -- a message is sent, or comes back
  | handSend start =>
    have hTx : s.hasTx = true := hOwns (by rw [hTask]; rfl)
    refine Or.inl ?_
    dsimp only
    rw [if_pos hTx]
    split
    · exact Nat.lt_succ_self 5
    · exact Nat.lt_succ_self 5
    · exact Nat.zero_lt_succ 5
  | unlock h =>
    refine Or.inl ?_
    cases h with
    | sent => exact Nat.lt_succ_of_le (Nat.le_succ 3)
    | rejected e => exact Nat.lt_succ_of_le (Nat.le_succ 3)
    | abandoned => exact Nat.lt_succ_self 4
  | awaitAccepted =>
    refine Or.inl ?_
    dsimp only
    split
    · exact Nat.zero_lt_succ 2
    · exact Nat.lt_succ_self 2
  | cleaning => exact Or.inl (Nat.lt_succ_self 1)
  | releaseGuard =>
    refine Or.inl ?_
    dsimp only
    split
    · exact Nat.lt_succ_of_le (Nat.le_succ_of_le (Nat.le_succ 1))
    · exact Nat.lt_succ_self 3
  | guardStarting => exact Or.inl (Nat.lt_succ_self 2)
  | dropGuard => exact Or.inl Nat.one_pos
  | contended =>
    refine Or.inl ?_
    dsimp only
    split
    · exact Nat.lt_of_le_of_lt (say_toGo _ _ _) (by cases why <;> exact Nat.zero_lt_succ _)
    · cases why <;> exact Nat.lt_succ_self _
  | retryClosed start =>
    have hTx : s.hasTx = true := hOwns (by rw [hTask]; rfl)
    dsimp only
    rw [if_pos hTx]
    cases why with
    | gone =>
      rw [h.rx_of_over hTx hEnds]
      cases ready with
      | true => exact Or.inl Nat.one_pos
      -- the poll missed that the channel is closed
      | false => exact Or.inr ⟨rfl, Nat.le_refl 5, Nat.one_pos⟩
    | closed | late =>
      refine Or.inl ?_
      split
      · exact Nat.zero_lt_succ _
      · exact Nat.lt_succ_self _
  | retryShutdown start =>
    dsimp only
    cases why with
    | closed =>
      rw [show v.isOpen = false from hEnds]
      cases ready with
      | true => exact Or.inl (Nat.lt_of_le_of_lt (say_toGo _ _ _) Nat.one_pos)
      | false => exact Or.inr ⟨rfl, Nat.le_refl 5, Nat.one_pos⟩
    | late | gone =>
      refine Or.inl ?_
      split
      · exact Nat.lt_of_le_of_lt (say_toGo _ _ _) (Nat.zero_lt_succ _)
      · exact Nat.lt_succ_self _
  | retryDeadline start =>
    dsimp only
    cases why with
    | late =>
      rw [show deadlineElapsed v.now s.start o.lockTimeout = true from hEnds]
      cases ready with
      | true => exact Or.inl (Nat.lt_of_le_of_lt (say_toGo _ _ _) Nat.one_pos)
      | false => exact Or.inr ⟨rfl, Nat.le_refl 5, Nat.one_pos⟩
    | closed | gone =>
      refine Or.inl ?_
      split
      · exact Nat.lt_of_le_of_lt (say_toGo _ _ _) (Nat.zero_lt_succ _)
      · exact Nat.lt_succ_self _
  | retryTimer start =>
    refine Or.inl ?_
    dsimp only
    split <;> cases why <;> simp [State.goto, Task.toGo, Ending.pick]
  | retryParked start =>
    refine Or.inl ?_
    cases why <;> exact Nat.lt_succ_self _
  -- nothing that the supervisor does by itself
  | unborn | acquiring start | cleaned | guardReleasing | done | panicked =>
    simp [enabled, hTask] at hEn

/-- What is not about the supervisor leaves it where it is, or spawns it. -/
theorem task_other (h : Inv s) {e : Event} (hOther : e.byTask = false) :
    (next o once v s e).task = s.task ∨
      s.task = .unborn ∧ (next o once v s e).task = .checkClosed := by
  cases e with
  | task ready | acquireReply r | releaseReply ok => cases hOther
  | caller ready =>
    refine (callerStep_task o v ready s).imp_right fun hSpawned => ⟨h.born ?_, hSpawned.2⟩
    rw [hSpawned.1]
    rfl
  | cancel => exact Or.inl (leave_task o v.now .cancelled s).1
  | guard e =>
    exact Or.inl (next_guard_keeps o once v s e).2.2

theorem reply_nearer {e : Event} (hReply : ∀ ready, e ≠ .task ready) (hOwn : e.byTask = true)
    (hEn : enabled v s e = true) : (next o once v s e).task.toGo why < s.task.toGo why := by
  cases e with
  | task ready => exact absurd rfl (hReply ready)
  | caller ready | cancel | guard e => cases hOwn
  | acquireReply r =>
    show (acquireReplied r s).task.toGo why < _
    unfold acquireReplied
    cases hTask : s.task with
    | acquiring start =>
      cases r with
      | acquired => exact Nat.lt_succ_self 10
      | contended => cases why <;> simp [State.goto, Task.toGo, Ending.pick]
      | error io => simp [State.goto, Task.toGo]
    | _ => simp [enabled, hTask] at hEn
  | releaseReply ok =>
    show (releaseReplied o v ok s).task.toGo why < _
    unfold releaseReplied
    cases hTask : s.task with
    | cleaned => exact Nat.one_pos
    | guardReleasing => exact Nat.lt_succ_self 1
    | _ => simp [enabled, hTask] at hEn

/-- The supervisor in the terms of `Tracked.Nears`: a missed poll costs five steps, and eleven steps
come after an attempt. -/
theorem task_nears (o : AcquireOptions) (once : Bool) (why : Ending) :
    Tracked.Nears (acquisition o once) (Ends o why) (fun s => s.task.progress)
      (fun s => s.task.toGo why) (fun e => e.2.byTask) (fun e => e.2 = .task false) 5 11 where
  own s e hs hEn hEnds hOwn := by
    obtain ⟨v, e⟩ := e
    cases e with
    | task ready =>
      refine (taskStep_nearer (inv_of_reachable hs) hEnds hEn).imp_right ?_
      rintro ⟨rfl, hFar⟩
      exact ⟨decide_eq_true rfl, hFar⟩
    | acquireReply r | releaseReply ok => exact Or.inl (reply_nearer (fun _ => nofun) hOwn hEn)
    | caller ready | cancel | guard e => cases hOwn
  other s e hs hEn hEnds hOther := by
    rcases task_other (inv_of_reachable hs) hOther with hSame | ⟨hUnborn, hSpawned⟩
    · have hTask : ((acquisition o once).next s e).task = s.task := hSame
      rw [hTask]
      exact ⟨Nat.le_refl _, fun _ => id⟩
    · have hTask : ((acquisition o once).next s e).task = .checkClosed := hSpawned
      rw [hTask, hUnborn]
      exact ⟨Nat.le_refl _, nofun⟩
  running s start hRunning := by
    cases hTask : s.task with
    | acquiring start => rfl
    | _ =>
      rw [hTask] at hRunning
      cases hRunning
  apart := by decide

-- ---------------------------------------------------------------------------
-- The caller
-- ---------------------------------------------------------------------------

/-- A caller that leaves has no step to go. -/
theorem leave_toGo (o : AcquireOptions) (now : Int) (r : Except AcquireError Bool) (s : State) :
    (s.leave o now (.returned r)).caller.toGo why = 0 := by
  rw [(leave_task o now (.returned r) s).2.2]
  rfl

theorem not_gone (hEnds : Ends o why s (v, .caller ready))
    (hEn : enabled v s (.caller ready) = true) : why ≠ .gone := by
  rintro rfl
  cases hCaller : s.caller with
  | returned r | cancelled => simp [enabled, hCaller] at hEn
  | _ =>
    have hOver : s.caller.over = true := hEnds
    rw [hCaller] at hOver
    cases hOver

/-- From a look at the channel it goes to sleep, to its last checks, or away. -/
theorem pollResult_nearer (hHere : why ≠ .gone) {c : Caller}
    (h : c = .parked ∨ (∃ got, c = .checkDeadline got) ∨ ∃ r, c = .returned r) :
    c.toGo why < Caller.pollResult.toGo why := by
  rcases h with rfl | ⟨got, rfl⟩ | ⟨r, rfl⟩ <;> cases why <;>
    first | exact absurd rfl hHere | simp [Caller.toGo, Ending.pick]

/-- **A step of the caller** takes it nearer to its end, or it polled and missed what is
ready. -/
theorem callerStep_nearer (hEnds : Ends o why s (v, .caller ready))
    (hEn : enabled v s (.caller ready) = true) :
    (callerStep o v ready s).caller.toGo why < s.caller.toGo why ∨
      ready = false ∧ (callerStep o v ready s).caller.toGo why ≤ 4 ∧ 0 < s.caller.toGo why := by
  have hHere : why ≠ .gone := not_gone hEnds hEn
  unfold callerStep
  cases hCaller : s.caller with
  | begin =>
    refine Or.inl ?_
    cases why with
    | gone => exact absurd rfl hHere
    | closed | late => exact Nat.lt_succ_self _
  | checkTimeout =>
    refine Or.inl ?_
    dsimp only
    cases why with
    | gone => exact absurd rfl hHere
    | late =>
      rw [if_pos (show deadlineElapsed v.now s.start o.lockTimeout = true from hEnds)]
      exact Nat.one_pos
    | closed =>
      show Caller.toGo _ (if _ then _ else _) < 2
      split
      · exact Nat.zero_lt_succ 1
      · exact Nat.lt_succ_self 1
  | admission =>
    refine Or.inl ?_
    dsimp only
    cases why with
    | gone => exact absurd rfl hHere
    | closed =>
      rw [show v.isOpen = false from hEnds]
      exact Nat.one_pos
    | late =>
      split
      · exact Nat.lt_succ_self 2
      · exact Nat.zero_lt_succ 2
  | pollShutdown =>
    dsimp only
    cases why with
    | gone => exact absurd rfl hHere
    | closed =>
      rw [show v.isOpen = false from hEnds]
      cases ready with
      | true =>
        refine Or.inl ?_
        rw [if_pos (show (true && !false) = true from rfl), leave_toGo]
        exact Nat.one_pos
      -- the poll missed that the manager is closed
      | false => exact Or.inr ⟨rfl, Nat.le_refl 4, Nat.one_pos⟩
    | late =>
      refine Or.inl ?_
      split
      · rw [leave_toGo]
        exact Nat.zero_lt_succ 1
      · exact Nat.lt_succ_self 1
  | pollDeadline =>
    dsimp only
    cases why with
    | gone => exact absurd rfl hHere
    | late =>
      rw [show deadlineElapsed v.now s.start o.lockTimeout = true from hEnds]
      cases ready with
      | true =>
        refine Or.inl ?_
        rw [if_pos (Bool.and_true true), leave_toGo]
        exact Nat.one_pos
      | false => exact Or.inr ⟨rfl, Nat.le_refl 4, Nat.one_pos⟩
    | closed =>
      refine Or.inl ?_
      split
      · rw [leave_toGo]
        exact Nat.zero_lt_succ 3
      · exact Nat.lt_succ_self 3
  | pollResult =>
    refine Or.inl ?_
    dsimp only
    split
    · split
      · exact pollResult_nearer hHere (Or.inr (Or.inr ⟨_, rfl⟩))
      · exact pollResult_nearer hHere (Or.inr (Or.inl ⟨_, rfl⟩))
      · exact pollResult_nearer hHere (Or.inr (Or.inl ⟨_, rfl⟩))
      · split
        · exact pollResult_nearer hHere (Or.inl rfl)
        · exact pollResult_nearer hHere (Or.inr (Or.inr ⟨_, (leave_task _ _ _ _).2.2⟩))
    · exact pollResult_nearer hHere (Or.inl rfl)
  | parked =>
    refine Or.inl ?_
    cases why with
    | gone => exact absurd rfl hHere
    | closed | late => exact Nat.lt_succ_self _
  | checkDeadline got =>
    refine Or.inl ?_
    dsimp only
    cases why with
    | gone => exact absurd rfl hHere
    | late =>
      rw [if_pos (show deadlineElapsed v.now s.start o.lockTimeout = true from hEnds), leave_toGo]
      exact Nat.one_pos
    | closed =>
      split
      · rw [leave_toGo]
        exact Nat.zero_lt_succ 1
      · exact Nat.lt_succ_self 1
  | checkOpen got =>
    refine Or.inl ?_
    dsimp only
    cases why with
    | gone => exact absurd rfl hHere
    | closed =>
      rw [show v.isOpen = false from hEnds, if_neg Bool.false_ne_true, leave_toGo]
      exact Nat.one_pos
    | late =>
      split
      · cases got
        · exact Nat.zero_lt_succ 2
        · exact Nat.lt_succ_self 2
      · rw [leave_toGo]
        exact Nat.zero_lt_succ 2
  | checkLease =>
    refine Or.inl ?_
    dsimp only
    split
    · exact Nat.lt_succ_self 1
    · rw [leave_toGo]
      exact Nat.zero_lt_succ 1
  | accept => exact Or.inl Nat.one_pos
  -- it has ended
  | returned r | cancelled => simp [enabled, hCaller] at hEn

/-- **An event of the caller**, its cancellation included. -/
theorem caller_nearer {e : Event} (hEnds : Ends o why s (v, e)) (hOwn : e.byCaller = true)
    (hEn : enabled v s e = true) :
    (next o once v s e).caller.toGo why + 1 ≤
      s.caller.toGo why + 4 * (decide (e = .caller false)).toNat := by
  cases e with
  | caller ready =>
    show (callerStep o v ready s).caller.toGo why + 1 ≤ _
    rcases callerStep_nearer hEnds hEn with hLess | ⟨rfl, hFar, hGoing⟩
    · omega
    · show _ ≤ s.caller.toGo why + 4
      omega
  | cancel =>
    have hAt : s.caller = .parked := by simpa [enabled] using hEn
    have hOver : (next o once v s .cancel).caller = .cancelled := (leave_task _ _ _ _).2.2
    rw [hOver, hAt]
    cases why with
    | closed | late => exact Nat.succ_le_succ (Nat.zero_le _)
    | gone =>
      have hNot : s.caller.over = true := hEnds
      rw [hAt] at hNot
      cases hNot
  | task ready | acquireReply r | releaseReply ok | guard e => cases hOwn

-- ---------------------------------------------------------------------------
-- Nobody is left waiting
-- ---------------------------------------------------------------------------

/-- The supervisor has ended or can go on, or its acquisition is with a caller that can. -/
def State.Goes (v : View) (s : State) : Prop :=
  s.task = .unborn ∨ s.task = .done ∨ (∃ e : Event, e.byTask = true ∧ enabled v s e = true) ∨
    s.task = .awaitAccepted ∧ s.caller.over = false

/-- **No supervisor is left waiting.** -/
theorem goes_of_reachable (hs : (acquisition o once).Reachable s) (v : View) : s.Goes v := by
  have h := inv_of_reachable hs
  have hStep : enabled v s (.task true) = true → s.Goes v := fun hEn =>
    Or.inr (Or.inr (Or.inl ⟨.task true, rfl, hEn⟩))
  cases hTask : s.task with
  | unborn => exact Or.inl hTask
  | done => exact Or.inr (Or.inl hTask)
  | panicked => exact absurd hTask h.sound
  -- any reply will do
  | acquiring start =>
    exact Or.inr (Or.inr (Or.inl ⟨.acquireReply .contended, rfl, by simp [enabled, hTask]⟩))
  | cleaned | guardReleasing =>
    exact Or.inr (Or.inr (Or.inl ⟨.releaseReply true, rfl, by simp [enabled, hTask]⟩))
  | awaitAccepted =>
    cases hOver : s.caller.over with
    | false => exact Or.inr (Or.inr (Or.inr ⟨hTask, hOver⟩))
    | true =>
      -- the caller has taken the guard or dropped it
      refine hStep ?_
      have hSit := h.situation
      rw [hTask] at hSit
      obtain ⟨-, ch, hCh, hOffered⟩ := hSit
      have hSpoken : ch.value.isSome = true ∨ ch.txAlive = false := by
        cases hPhase : s.caller.phase with
        | early =>
          rw [hPhase] at hOffered
          exact hOffered.elim
        | waiting | hand =>
          cases hCaller : s.caller with
          | returned r =>
            rw [hCaller] at hPhase
            rcases r with e | got
            · cases hPhase
            · cases got <;> cases hPhase
          | cancelled =>
            rw [hCaller] at hPhase
            cases hPhase
          | _ =>
            rw [hCaller] at hOver
            cases hOver
        | handed =>
          rw [hPhase] at hOffered
          exact Or.inl (by rw [hOffered.2]; rfl)
        | without =>
          rw [hPhase] at hOffered
          exact Or.inr hOffered.2.2
      rcases hSpoken with hSome | hDropped
      · simp [enabled, hTask, hCh, hSome]
      · simp [enabled, hTask, hCh, hDropped]
  | _ => exact hStep (by simp [enabled, hTask])

/-- The futures in a `select!` of the request, at a moment that `v` shows: the wait `j`
for a shutdown, and the wait for the deadline. -/
structure Selects {ρ : Type} [DecidableEq ρ] (o : AcquireOptions) (v : View) (s : State)
    (w : Watched.State ρ) (j : Nat) (d : Deadline.State) : Prop where
  watches : (Watched.machine ρ).Reachable w
  waits : w.waiters j ≠ .idle
  isOpen : v.isOpen = w.manager.isOpen
  timed : (Deadline.waitForDeadline s.start o.lockTimeout).Reachable d
  now : v.now = d.now

/-- In a `select!`, between two polls. -/
def State.Parked (s : State) : Prop := s.caller = .parked ∨ ∃ start, s.task = .retryParked start

/-- The channel is closed, or one of the two waits has returned, can go on, or has a timer
that is due. -/
def Woken {ρ : Type} (s : State) (w : Watched.State ρ) (j : Nat) (d : Deadline.State) : Prop :=
  s.result.rxAlive = false ∨ w.waiters j = .returned ∨ Watched.enabled w (.waiter j) = true ∨
    d.Served

/-- **Whoever is parked is woken** by what brings the request to its end. -/
theorem woken_of_parked {ρ : Type} [DecidableEq ρ] {w : Watched.State ρ} {j : Nat}
    {d : Deadline.State} {e : Event} (h : Inv s) (hParked : s.Parked)
    (hSelects : Selects o v s w j d) (hEnds : Ends o why s (v, e)) : Woken s w j d := by
  cases why with
  | closed =>
    have hShut : w.manager.shutdown ≠ .opened := by
      have hClosed : v.isOpen = false := hEnds
      rw [hSelects.isOpen] at hClosed
      exact of_decide_eq_false hClosed
    cases hAt : w.waiters j with
    | idle => exact absurd hAt hSelects.waits
    | reading => exact Or.inr (Or.inr (Or.inl (by simp [Watched.enabled, hAt])))
    | parked seen =>
      -- the version has moved on since it looked
      have hNews := (Watched.inv_of_reachable hSelects.watches).wakes_waiter hAt hShut
      exact Or.inr (Or.inr (Or.inl (by simp [Watched.enabled, hAt, hNews])))
    | returned => exact Or.inr (Or.inl hAt)
  | late =>
    have hLate : deadlineElapsed d.now s.start o.lockTimeout = true := hSelects.now ▸ hEnds
    have hServed := Deadline.served_of_elapsed (Deadline.inv_of_reachable hSelects.timed) hLate
    exact Or.inr (Or.inr (Or.inr hServed))
  | gone =>
    have hOver : s.caller.over = true := hEnds
    rcases hParked with hCaller | ⟨start, hTask⟩
    · rw [hCaller] at hOver
      cases hOver
    · exact Or.inl (h.rx_of_over (h.tx.trans (by rw [hTask]; rfl)) hOver)

/-- **Every acquisition comes to its end.** Once the manager is closed, the deadline has
passed or the caller is gone, the caller makes at most four more steps and the supervisor
at most fifteen, a few more for each poll that missed what is ready, with at most one
more attempt; and until then each of them can go on, and is woken where it is parked. -/
theorem acquisition_ends (hs : (acquisition o once).Reachable s) {es : List (View × Event)}
    (hRun : ((acquisition o once).restrict (Ends o why)).Path s es t) :
    (∀ v, t.Goes v ∧ (t.caller.over = false → enabled v t (.caller true) = true)) ∧
    es.countP (fun e => e.2.byCaller) ≤ 4 + 4 * es.countP (fun e => e.2 = .caller false) ∧
    es.countP (fun e => e.2.byTask) ≤ 15 + 5 * es.countP (fun e => e.2 = .task false) ∧
    t.log.countP Action.isAttempt ≤ s.log.countP Action.isAttempt + 1 ∧
    (t.Parked → ∀ v (e : Event) (w : Watched.State Nat) j d, Ends o why t (v, e) →
      Selects o v t w j d → Woken t w j d) := by
  have ht : (acquisition o once).Reachable t :=
    hRun.invariant (I := (acquisition o once).Reachable) hs fun s e hr hEn => hr.step e hEn.1
  obtain ⟨hTask, hAttempts⟩ := (tracked o once).ends (task_nears o once why) hs hRun
  have hCaller := hRun.charged (M := (acquisition o once).restrict (Ends o why))
    (I := fun _ => True) (fun s => s.caller.toGo why) (fun e => e.2.byCaller)
    (fun e => e.2 = .caller false) 4 (fun _ _ h _ => h) (fun s e _ hEn => ?_) trivial
  -- both counts are bounded from the start
  · have hFew : s.caller.toGo why ≤ 4 := by
      cases s.caller <;> cases why <;> simp [Caller.toGo, Ending.pick]
    have hMany : s.task.toGo why ≤ 15 := by
      cases s.task <;> cases why <;> simp [Task.toGo, Ending.pick]
    refine ⟨fun v => ⟨goes_of_reachable ht v, fun hOn => ?_⟩, by omega, by omega, hAttempts,
      fun hParked v e w j d hEnds hSelects => ?_⟩
    · cases hAt : t.caller with
      | returned r | cancelled =>
        rw [hAt] at hOn
        cases hOn
      | _ => simp [enabled, hAt]
    · exact woken_of_parked (inv_of_reachable ht) hParked hSelects hEnds
  · cases hOwn : e.2.byCaller with
    | true => exact caller_nearer hEn.2 hOwn hEn.1
    | false =>
      -- what the others do does not move the caller
      have hSame : ((acquisition o once).next s e).caller = s.caller :=
        (caller_next o once e.1 s hOwn).1
      show ((acquisition o once).next s e).caller.toGo why + 0 ≤ _
      rw [hSame]
      omega

end

/-- The caller is dropped while its command runs. -/
def abandonedRun : List (View × Event) :=
  let steps : List Event :=
    [.caller true, .caller true, .caller true, .task true, .task true, .task true, .task true,
      .task true, .caller true, .caller true, .caller true, .cancel]
  steps.map fun e => (⟨0, true, true⟩, e)

/-- What the run leads to. -/
def abandoned : State := ((acquisition .new false).exec .initial abandonedRun).getD .initial

/-- The theorem for every run after that one: the command may be answered, and its lock is cleaned
up. -/
theorem acquisition_ends_abandoned :
    abandoned.task = .acquiring 0 ∧ ∀ es t,
      ((acquisition .new false).restrict (Ends .new .gone)).Path abandoned es t →
      (∀ v, t.Goes v ∧ (t.caller.over = false → enabled v t (.caller true) = true)) ∧
      es.countP (fun e => e.2.byCaller) ≤ 4 + 4 * es.countP (fun e => e.2 = .caller false) ∧
      es.countP (fun e => e.2.byTask) ≤ 15 + 5 * es.countP (fun e => e.2 = .task false) ∧
      t.log.countP Action.isAttempt ≤ abandoned.log.countP Action.isAttempt + 1 ∧
      (t.Parked → ∀ v (e : Event) (w : Watched.State Nat) j d, Ends .new .gone t (v, e) →
        Selects .new v t w j d → Woken t w j d) :=
  ⟨by decide +kernel, fun _ _ => acquisition_ends
    (Machine.reachable_getD rfl (by decide +kernel))⟩

end RLock.Async
