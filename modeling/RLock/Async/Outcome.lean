import RLock.Async.History
import RLock.Client.Outcome

/-!
# RLock — the outcome of an async acquisition

The supervisor as a request (`Client.Outcome`): which place in
`supervise_acquisition` is how far, and what of it reaches the caller.

Each task has its `Progress`, so a step of the supervisor is one of the moves of a
request, with the entries it writes. A step of the caller writes only silent ones,
and the admission is the one step of the caller that moves the request: the
supervisor it spawns is ready for its first check. Since the deadline is compared
with the instant at which the caller entered, the caller must have read the clock
before that (`Opening`).

The second half follows the results to the caller. `State.tells` is that a message
is in the channel or with the caller; it gets there only from a supervisor that is
about to say so (`Task.answers`), and what that says about the history is what
`Client.Outcome` proves of every tracked machine.

## Results

* `moves_next` — every event is a move of the request, so the machine is `tracked`.
* `tells_next` — where the caller's results come from.
* `granted_of_tells` — a guard comes from a success after which every check has
  passed.
* `contended_of_tells` — nothing comes of a single attempt that reported
  contention.
-/

namespace RLock.Async

open RLock.Client

/-- How far a request with its supervisor at `t` is. The handoff passes the manager, the deadline
and the lease in this order. -/
def Task.progress : Task → Progress
  | .unborn => .apart
  | .checkClosed => .ready []
  | .checkOpen => .ready []
  | .checkDeadline => .ready [.manager]
  | .stamp => .ready [.deadline, .manager]
  | .sending _ => .ready [.deadline, .manager]
  | .acquiring start => .running start
  | .contended => .contended
  | .retryClosed _ => .ready []
  | .retryShutdown _ => .ready []
  | .retryDeadline _ => .ready []
  | .retryTimer _ => .ready []
  | .retryParked _ => .ready []
  | .locking _ => .won []
  | .handOpen _ => .won []
  | .handDeadline _ => .won [.manager]
  | .handLease _ => .won [.deadline, .manager]
  | .handSend _ => .won [.lease, .deadline, .manager]
  | _ => .over

/-- The result that the caller has in its hands or has returned. -/
def Caller.got : Caller → Option Message
  | .checkDeadline got => some (if got then .acquisition else .nothing)
  | .checkOpen got => some (if got then .acquisition else .nothing)
  | .checkLease => some .acquisition
  | .accept => some .acquisition
  | .returned (.ok got) => some (if got then .acquisition else .nothing)
  | _ => none

/-- `m` waits for the caller or has reached it. -/
def State.tells (m : Message) (s : State) : Prop :=
  s.result.value = some m ∨ s.caller.got = some m

/-- Events of the future of `acquire_internal`. -/
def Event.byCaller : Event → Bool
  | .caller _ => true
  | .cancel => true
  | _ => false

section

variable {s : State} {o : AcquireOptions} {once : Bool} {v : View}

-- ---------------------------------------------------------------------------
-- Every event is a move
-- ---------------------------------------------------------------------------

/-- A caller that leaves writes silent entries. -/
theorem leave_silent (o : AcquireOptions) (now : Int) (c : Caller) (s : State)
    (may : Check → Bool) : Extends (Silent may) s.log (s.leave o now c).log :=
  (leave_offers o now c s).mono fun _ ha => ha ▸ silent_guard _

/-- What the caller writes; it sees the deadline elapsed only when it has. -/
theorem callerStep_silent (o : AcquireOptions) (v : View) (ready : Bool) (s : State) :
    Extends (Silent (v.may o s.start)) s.log (callerStep o v ready s).log := by
  have hSaw : ∀ c p, (c = .deadline → p = false → v.may o s.start .deadline = false) →
      Extends (Silent (v.may o s.start)) s.log (s.note (.saw true c p)).log :=
    fun c p hLate => (Extends.refl _ _).cons (.of_caller hLate)
  have hManager := fun p => hSaw .manager p fun hNo => (nomatch hNo)
  have hLease := fun p => hSaw .lease p fun hNo => (nomatch hNo)
  unfold callerStep
  cases s.caller with
  | begin | accept | parked | returned r | cancelled => exact .refl _ _
  | checkTimeout => exact hSaw _ _ fun _ hLate => hLate
  | admission =>
    dsimp only
    split <;> exact .refl _ _
  | pollShutdown =>
    dsimp only
    split
    · exact (hManager _).trans (leave_silent _ _ _ _ _)
    · exact .refl _ _
  | pollDeadline =>
    dsimp only
    split
    · rename_i hLate
      rw [Bool.and_eq_true] at hLate
      -- the poll says so only when the deadline has passed
      have hMay : v.may o s.start .deadline = false := by
        unfold View.may
        dsimp only
        rw [hLate.2]
        rfl
      exact (hSaw _ _ fun _ _ => hMay).trans (leave_silent _ _ _ _ _)
    · exact .refl _ _
  | pollResult =>
    dsimp only
    split
    · split
      · exact .refl _ _
      · exact .refl _ _
      · exact .refl _ _
      · split
        · exact .refl _ _
        · exact leave_silent _ _ _ _ _
    · exact .refl _ _
  | checkDeadline got =>
    dsimp only
    split
    · exact (hSaw _ _ fun _ hLate => hLate).trans (leave_silent _ _ _ _ _)
    · exact hSaw _ _ fun _ hLate => hLate
  | checkOpen got =>
    dsimp only
    split
    · exact hManager _
    · exact (hManager _).trans (leave_silent _ _ _ _ _)
  | checkLease =>
    dsimp only
    split
    · exact hLease _
    · exact (hLease _).trans (leave_silent _ _ _ _ _)

/-- A message is no news about attempts. -/
theorem say_plain (m : Message) (t : Task) (s : State) (may : Check → Bool) :
    Extends (Plain may) s.log (s.say m t).log := by
  unfold State.say
  split
  · exact (Extends.refl _ _).cons (silent_result m).1
  · exact .refl _ _

/-- Whoever speaks last has ended, also if it panics. -/
theorem say_progress {m : Message} {t : Task} (hOver : t.progress = .over) (s : State) :
    (s.say m t).task.progress = .over := by
  unfold State.say
  split
  · exact hOver
  · rfl

theorem check_moves {may : Check → Bool} {c : Check} {b : Bool} {passed : List Check} {t : Task}
    (s : State) (hPass : b = true → t.progress = .won (c :: passed) ∧ may c = true)
    (hFail : b = false → t.progress = .over) :
    ∃ ext, ((s.note (.saw false c b)).goto t).log = ext ++ s.log ∧
      Moves o once may (.won passed) ((s.note (.saw false c b)).goto t).task.progress ext := by
  refine ⟨[.saw false c b], rfl, .of_check (fun hB => ?_) hFail⟩
  obtain ⟨hProgress, hMay⟩ := hPass hB
  show Moves o once may (.won passed) t.progress _
  rw [hProgress]
  exact .keep c passed hMay

theorem taskStep_moves (o : AcquireOptions) (once : Bool) (v : View) (ready : Bool) (s : State) :
    ∃ ext, (taskStep o once v ready s).log = ext ++ s.log ∧
      Moves o once (v.may o s.start) s.task.progress (taskStep o once v ready s).task.progress
        ext := by
  -- a supervisor that ends writes what it saw and its result
  have hSay : ∀ (p : Progress) (m : Message) (t : Task) (s' : State), t.progress = .over →
      Extends (Plain (v.may o s.start)) s.log s'.log →
      ∃ ext, (s'.say m t).log = ext ++ s.log ∧
        Moves o once (v.may o s.start) p (s'.say m t).task.progress ext := by
    intro p m t s' hOver hLog
    rw [say_progress hOver]
    exact Moves.of_plain p (hLog.trans (say_plain m t s' _))
  have hStay : ∀ p : Progress, ∃ ext, s.log = ext ++ s.log ∧
      Moves o once (v.may o s.start) p p ext :=
    fun p => Moves.of_silent p (.refl _ _)
  have hStop : ∀ p : Progress, ∃ ext, s.log = ext ++ s.log ∧
      Moves o once (v.may o s.start) p .over ext :=
    fun p => Moves.of_plain p (.refl _ _)
  have hSaw : ∀ c p, Extends (Plain (v.may o s.start)) s.log (s.note (.saw false c p)).log :=
    fun c p => (Extends.refl _ _).cons (plain_saw c p)
  unfold taskStep
  cases hTask : s.task with
  | unborn | acquiring start | cleaned | guardReleasing | done | panicked =>
    rw [hTask]
    exact hStay _
  | stamp | locking start | retryParked start => exact hStay _
  | checkClosed =>
    dsimp only
    split
    · split
      · exact hStay _
      · exact hStop _
    · exact hStop _
  | checkOpen =>
    dsimp only
    split
    · rename_i hOpen
      refine ⟨[.saw false .manager true], ?_, .pass .manager [] hOpen⟩
      show .saw false .manager v.isOpen :: s.log = _
      rw [hOpen]
      rfl
    · exact hSay _ _ _ _ rfl (hSaw _ _)
  | checkDeadline =>
    dsimp only
    split
    · exact hSay _ _ _ _ rfl (hSaw _ _)
    · rename_i hIn
      rw [Bool.not_eq_true] at hIn
      have hMay : v.may o s.start .deadline = true := by
        unfold View.may
        dsimp only
        rw [hIn]
        rfl
      refine ⟨[.saw false .deadline true], ?_, .pass .deadline [.manager] hMay⟩
      show .saw false .deadline (!deadlineElapsed v.now s.start o.lockTimeout) :: s.log = _
      rw [hIn]
      rfl
  | sending start => exact ⟨_, rfl, .attempt start (by decide) (by decide)⟩
  | failing | reject e => exact hSay _ _ _ _ rfl (.refl _ _)
  | handOpen start =>
    -- the handoff checks the sender and the state of the manager at once
    refine check_moves s (fun hOpen => ⟨?_, ?_⟩) fun hShut => ?_
    · rw [if_pos hOpen]
      rfl
    · rw [Bool.and_eq_true] at hOpen
      exact hOpen.2
    · rw [if_neg (by rw [hShut]; exact Bool.false_ne_true)]
      rfl
  | handDeadline start =>
    refine check_moves s (fun hIn => ⟨?_, hIn⟩) fun hLate => ?_
    · rw [if_neg (by simpa using hIn)]
      rfl
    · rw [if_pos (by simpa using hLate)]
      rfl
  | handLease start =>
    refine check_moves s (fun hActive => ⟨?_, rfl⟩) fun hEnded => ?_
    · rw [if_pos hActive]
      rfl
    · rw [if_neg (by rw [hEnded]; exact Bool.false_ne_true)]
      rfl
  | handSend start =>
    have hResult : Extends (Plain (v.may o s.start)) s.log (.result .acquisition :: s.log) :=
      (Extends.refl _ _).cons (silent_result _).1
    dsimp only
    split
    · split <;> exact Moves.of_plain _ hResult
    · exact hStop _
  | unlock h => cases h <;> exact hStay _
  -- a release is no attempt
  | cleaning | guardStarting =>
    exact Moves.of_plain _ ((Extends.refl _ _).cons (silent_release true).1)
  | awaitAccepted =>
    dsimp only
    split <;> exact hStay _
  | releaseGuard =>
    dsimp only
    split
    · exact hStay _
    · unfold State.guardStep
      split <;> exact hStay _
  | dropGuard =>
    exact Moves.of_plain _ ((guardStep_drop_offers o v.now s).mono fun _ ha =>
      ha ▸ (silent_guard _).1)
  | contended =>
    dsimp only
    split
    · exact hSay _ _ _ _ rfl (.refl _ _)
    · rename_i hOnce
      exact ⟨[], rfl, .again (Bool.not_eq_true _ ▸ hOnce)⟩
  | retryClosed start =>
    dsimp only
    split
    · split
      · exact hStop _
      · exact hStay _
    · exact hStop _
  | retryShutdown start | retryDeadline start =>
    dsimp only
    split
    · exact hSay _ _ _ _ rfl (hSaw _ _)
    · exact hStay _
  | retryTimer start =>
    dsimp only
    split <;> exact hStay _

-- ---------------------------------------------------------------------------
-- Up to the admission
-- ---------------------------------------------------------------------------

/-- A caller that leaves does not move the supervisor. -/
theorem leave_task (o : AcquireOptions) (now : Int) (c : Caller) (s : State) :
    (s.leave o now c).task = s.task ∧ (s.leave o now c).start = s.start ∧
      (s.leave o now c).caller = c := by
  unfold State.leave State.dropAcquisition State.guardStep
  dsimp only
  split
  · split <;> exact ⟨rfl, rfl, rfl⟩
  · exact ⟨rfl, rfl, rfl⟩

/-- The admission spawns the supervisor, nothing else the caller does moves it. -/
theorem callerStep_task (o : AcquireOptions) (v : View) (ready : Bool) (s : State) :
    (callerStep o v ready s).task = s.task ∨
      s.caller = .admission ∧ (callerStep o v ready s).task = .checkClosed := by
  unfold callerStep
  cases s.caller with
  | begin | parked | accept | returned r | cancelled => exact Or.inl rfl
  | checkTimeout => exact Or.inl rfl
  | admission =>
    dsimp only
    split
    · exact Or.inr ⟨rfl, rfl⟩
    · exact Or.inl rfl
  | pollShutdown | pollDeadline | checkDeadline got | checkOpen got | checkLease =>
    dsimp only
    split <;> first | exact Or.inl rfl | exact Or.inl (leave_task _ _ _ _).1
  | pollResult =>
    dsimp only
    repeat' split
    all_goals first | exact Or.inl rfl | exact Or.inl (leave_task _ _ _ _).1

/-- A zero timeout is never admitted. -/
theorem callerStep_caller (o : AcquireOptions) (v : View) (ready : Bool) (s : State) :
    (callerStep o v ready s).caller ≠ .begin ∧
      ((callerStep o v ready s).caller = .admission → o.lockTimeout ≠ some 0) := by
  have hLeave : ∀ (r : Except AcquireError Bool) (s' : State),
      (s'.leave o v.now (.returned r)).caller ≠ .begin ∧
        ((s'.leave o v.now (.returned r)).caller = .admission → o.lockTimeout ≠ some 0) := by
    intro r s'
    rw [(leave_task o v.now (.returned r) s').2.2]
    exact ⟨fun hNo => (nomatch hNo), fun hNo => (nomatch hNo)⟩
  unfold callerStep
  cases hCaller : s.caller with
  | begin | parked | accept => exact ⟨fun hNo => (nomatch hNo), fun hNo => (nomatch hNo)⟩
  | returned r | cancelled =>
    rw [hCaller]
    exact ⟨fun hNo => (nomatch hNo), fun hNo => (nomatch hNo)⟩
  | checkTimeout =>
    dsimp only
    split
    · exact ⟨fun hNo => (nomatch hNo), fun hNo => (nomatch hNo)⟩
    · rename_i hIn
      refine ⟨fun hNo => (nomatch hNo), fun _ hZero => hIn ?_⟩
      rw [hZero]
      exact decide_eq_true (Nat.zero_le (elapsed v.now s.start))
  | admission =>
    dsimp only
    split <;> exact ⟨fun hNo => (nomatch hNo), fun hNo => (nomatch hNo)⟩
  | pollShutdown | pollDeadline | checkDeadline got | checkLease =>
    dsimp only
    split <;> first
      | exact hLeave _ _
      | exact ⟨fun hNo => (nomatch hNo), fun hNo => (nomatch hNo)⟩
  | checkOpen got =>
    dsimp only
    split
    · cases got <;> exact ⟨fun hNo => (nomatch hNo), fun hNo => (nomatch hNo)⟩
    · exact hLeave _ _
  | pollResult =>
    dsimp only
    repeat' split
    all_goals first
      | exact hLeave _ _
      | exact ⟨fun hNo => (nomatch hNo), fun hNo => (nomatch hNo)⟩

/-- The clock is read once, before anything is written. -/
theorem callerStep_start (o : AcquireOptions) (v : View) (ready : Bool) (s : State) :
    (callerStep o v ready s).start = s.start ∨
      s.caller = .begin ∧ (callerStep o v ready s).log = s.log := by
  unfold callerStep
  cases s.caller with
  | begin => exact Or.inr ⟨rfl, rfl⟩
  | parked | accept | returned r | cancelled | checkTimeout => exact Or.inl rfl
  | admission =>
    dsimp only
    split <;> exact Or.inl rfl
  | pollShutdown | pollDeadline | checkDeadline got | checkOpen got | checkLease =>
    dsimp only
    split <;> first | exact Or.inl rfl | exact Or.inl (leave_task _ _ _ _).2.1
  | pollResult =>
    dsimp only
    repeat' split
    all_goals first | exact Or.inl rfl | exact Or.inl (leave_task _ _ _ _).2.1

theorem taskStep_caller (o : AcquireOptions) (once : Bool) (v : View) (ready : Bool) (s : State) :
    (taskStep o once v ready s).caller = s.caller ∧
      (taskStep o once v ready s).start = s.start := by
  unfold taskStep
  cases s.task with
  | handOpen start | handDeadline start | handLease start =>
    exact (State.check_keeps _ _ s).1
  | checkOpen | checkDeadline | contended | retryShutdown start | retryDeadline start =>
    dsimp only
    split <;> first | exact ⟨rfl, rfl⟩ | exact State.say_keeps _ _ _
  | failing | reject e => exact State.say_keeps _ _ _
  | unlock h => cases h <;> exact ⟨rfl, rfl⟩
  | releaseGuard =>
    dsimp only
    split
    · exact ⟨rfl, rfl⟩
    · exact (State.guardStep_keeps o v.now _ s).1
  | dropGuard => exact (State.guardStep_keeps o v.now _ s).1
  | handSend start =>
    dsimp only
    split
    · split <;> exact ⟨rfl, rfl⟩
    · exact ⟨rfl, rfl⟩
  | checkClosed | retryClosed start | retryTimer start | awaitAccepted =>
    dsimp only
    repeat' split
    all_goals exact ⟨rfl, rfl⟩
  | unborn | acquiring start | cleaned | guardReleasing | done | panicked | stamp | sending start
  | locking start | cleaning | guardStarting | retryParked start => exact ⟨rfl, rfl⟩

/-- How a request begins. -/
structure Opening (o : AcquireOptions) (s : State) : Prop where
  fresh : s.caller = .begin → s = .initial
  admitted : s.caller = .admission → o.lockTimeout ≠ some 0

/-- What is not the caller's doing leaves it where it is. -/
theorem caller_next (o : AcquireOptions) (once : Bool) (v : View) (s : State) {e : Event}
    (h : e.byCaller = false) :
    (next o once v s e).caller = s.caller ∧ (next o once v s e).start = s.start := by
  cases e with
  | caller ready | cancel => cases h
  | task ready => exact taskStep_caller o once v ready s
  | acquireReply r =>
    show (acquireReplied r s).caller = _ ∧ (acquireReplied r s).start = _
    unfold acquireReplied
    split <;> exact ⟨rfl, rfl⟩
  | releaseReply ok =>
    show (releaseReplied o v ok s).caller = _ ∧ (releaseReplied o v ok s).start = _
    unfold releaseReplied
    split <;> exact ⟨rfl, rfl⟩
  | guard e => exact (next_guard_keeps o once v s e).1

/-- **One event** keeps the order in which a call begins. -/
theorem Opening.step {e : Event} (h : Opening o s) (hEn : enabled v s e = true) :
    Opening o (next o once v s e) := by
  have hOther := caller_next o once v s (e := e)
  cases e with
  | caller ready =>
    obtain ⟨hBegin, hAdmission⟩ := callerStep_caller o v ready s
    exact ⟨fun hNo => absurd hNo hBegin, hAdmission⟩
  | cancel =>
    have hCaller : (next o once v s .cancel).caller = .cancelled := (leave_task _ _ _ _).2.2
    refine ⟨fun hNo => ?_, fun hNo => ?_⟩ <;> rw [hCaller] at hNo <;> cases hNo
  | task _ | acquireReply _ | releaseReply _ | guard _ =>
    obtain ⟨hCaller, -⟩ := hOther rfl
    refine ⟨fun hBegin => ?_, fun hAdmission => h.admitted (hCaller.symm.trans hAdmission)⟩
    -- at the start only the caller can do anything
    rw [h.fresh (hCaller.symm.trans hBegin)] at hEn
    cases hEn

theorem opening_of_reachable (h : (acquisition o once).Reachable s) : Opening o s := by
  refine h.invariant (fun s hInit => ?_) fun s e hOpening hEn => hOpening.step hEn
  refine ⟨fun _ => hInit, fun hNo => ?_⟩
  rw [show s = State.initial from hInit] at hNo
  cases hNo

/-- **Every event is a move of the request.** -/
theorem moves_next (hInv : Inv s) (hOpening : Opening o s) (e : Event) :
    ∃ ext, (next o once v s e).log = ext ++ s.log ∧
      Moves o once (v.may o s.start) s.task.progress (next o once v s e).task.progress ext := by
  cases e with
  | caller ready =>
    show ∃ ext, (callerStep o v ready s).log = _ ∧
      Moves _ _ _ _ (callerStep o v ready s).task.progress _
    rcases callerStep_task o v ready s with hTask | ⟨hCaller, hTask⟩
    · rw [hTask]
      exact Moves.of_silent _ (callerStep_silent o v ready s)
    · -- the admission of a request that has no supervisor yet
      have hBorn : s.task = .unborn := hInv.born (by rw [hCaller]; rfl)
      have hLog : (callerStep o v ready s).log = s.log := by
        unfold callerStep
        rw [hCaller]
        dsimp only
        split <;> rfl
      rw [hTask, hBorn]
      exact ⟨[], hLog, .admitted (hOpening.admitted hCaller)⟩
  | cancel =>
    show ∃ ext, (s.leave o v.now .cancelled).log = _ ∧
      Moves _ _ _ _ (s.leave o v.now .cancelled).task.progress _
    rw [(leave_task o v.now .cancelled s).1]
    exact Moves.of_silent _ (leave_silent _ _ _ _ _)
  | task ready => exact taskStep_moves o once v ready s
  | acquireReply r =>
    show ∃ ext, (acquireReplied r s).log = _ ∧
      Moves _ _ _ _ (acquireReplied r s).task.progress _
    unfold acquireReplied
    split
    · rename_i start hTask
      rw [hTask]
      refine ⟨[.reply start r], rfl, ?_⟩
      cases r with
      -- the reply decides
      | acquired => exact .won start
      | contended => exact .contended start
      | error io => exact .failed start io
    · exact Moves.of_silent _ (.refl _ _)
  | releaseReply ok =>
    show ∃ ext, (releaseReplied o v ok s).log = _ ∧
      Moves _ _ _ _ (releaseReplied o v ok s).task.progress _
    unfold releaseReplied
    split
    · rename_i hTask
      rw [hTask]
      exact Moves.of_silent _ (.refl _ _)
    · rename_i hTask
      rw [hTask]
      exact Moves.of_silent _ (.refl _ _)
    · exact Moves.of_silent _ (.refl _ _)
  | guard e =>
    -- what a guard does is silent
    have hStep : ∀ t : State, (t.guardStep o v.now e).task = t.task ∧
        Extends (Silent (v.may o s.start)) t.log (t.guardStep o v.now e).log := by
      intro t
      unfold State.guardStep
      split
      · exact ⟨rfl, .refl _ _⟩
      · refine ⟨rfl, _, rfl, fun a ha => ?_⟩
        obtain ⟨x, -, rfl⟩ := List.mem_map.mp ha
        exact silent_guard x
    simp only [next]
    split
    · rw [(hStep _).1]
      exact Moves.of_silent _ (((Extends.refl _ _).cons (silent_renewReply _ _)).trans (hStep _).2)
    · rw [(hStep _).1]
      exact Moves.of_silent _ (hStep _).2

/-- **The acquisition is a tracked machine.** -/
theorem tracked (o : AcquireOptions) (once : Bool) :
    Tracked o once (acquisition o once) State.log State.start fun s => s.task.progress where
  init s h := by
    rw [show s = State.initial from h]
    exact ⟨rfl, rfl⟩
  step s e hs hEn := moves_next (inv_of_reachable hs) (opening_of_reachable hs) e.2
  start s e hs hEn := by
    obtain ⟨v, e⟩ := e
    have hOther := caller_next o once v s (e := e)
    cases e with
    | caller ready =>
      refine (callerStep_start o v ready s).imp id ?_
      rintro ⟨hBegin, hLog⟩
      rw [(opening_of_reachable hs).fresh hBegin] at hLog ⊢
      exact hLog
    | cancel => exact Or.inl (leave_task o v.now .cancelled s).2.1
    | task _ | acquireReply _ | releaseReply _ | guard _ =>
      exact Or.inl (hOther rfl).2

-- ---------------------------------------------------------------------------
-- Where the results come from
-- ---------------------------------------------------------------------------

/-- A caller that leaves is told nothing. -/
theorem leave_tells {m : Message} {now : Int} {c : Caller} (hGot : c.got = none) (s : State) :
    ¬ (s.leave o now c).tells m := by
  have hLeft : (s.leave o now c).result.value = none ∧ (s.leave o now c).caller = c := by
    unfold State.leave
    exact ⟨rfl, rfl⟩
  rintro (hValue | hCaller)
  · rw [hLeft.1] at hValue
    cases hValue
  · rw [hLeft.2, hGot] at hCaller
    cases hCaller

/-- The caller makes up no results. -/
theorem callerStep_tells {m : Message} {ready : Bool} (h : (callerStep o v ready s).tells m) :
    s.tells m := by
  have hGone : ∀ (e : AcquireError) (s' : State),
      ¬ (s'.leave o v.now (.returned (.error e))).tells m :=
    fun e s' => leave_tells rfl s'
  unfold callerStep at h
  cases hCaller : s.caller with
  | begin | checkTimeout | parked =>
    rw [hCaller] at h
    dsimp only at h
    refine h.imp id fun hGot => ?_
    first | cases hGot | (revert hGot; split <;> exact fun hGot => (nomatch hGot))
  | returned r | cancelled =>
    rw [hCaller] at h
    exact h
  | admission =>
    rw [hCaller] at h
    dsimp only at h
    split at h
    · rcases h with hValue | hGot
      · cases hValue
      · cases hGot
    · exact h.imp id fun hGot => (nomatch hGot)
  | pollShutdown | pollDeadline =>
    rw [hCaller] at h
    dsimp only at h
    split at h
    · exact absurd h (hGone _ _)
    · exact h.imp id fun hGot => (nomatch hGot)
  | pollResult =>
    rw [hCaller] at h
    dsimp only at h
    split at h
    · split at h
      · rcases h with hValue | hGot
        · cases hValue
        · cases hGot
      -- it takes what the channel had
      · rename_i hValue
        rcases h with hNo | hGot
        · cases hNo
        · exact Or.inl (hValue.trans hGot)
      · rename_i hValue
        rcases h with hNo | hGot
        · cases hNo
        · exact Or.inl (hValue.trans hGot)
      · split at h
        · exact h.imp id fun hGot => (nomatch hGot)
        · exact absurd h (hGone _ _)
    · exact h.imp id fun hGot => (nomatch hGot)
  | checkDeadline got =>
    rw [hCaller] at h
    dsimp only at h
    split at h
    · exact absurd h (hGone _ _)
    · exact h.imp id fun hGot => by rw [hCaller]; exact hGot
  | checkOpen got =>
    rw [hCaller] at h
    dsimp only at h
    split at h
    · refine h.imp id fun hGot => ?_
      rw [hCaller]
      cases got <;> exact hGot
    · exact absurd h (hGone _ _)
  | checkLease =>
    rw [hCaller] at h
    dsimp only at h
    split at h
    · exact h.imp id fun hGot => by rw [hCaller]; exact hGot
    · exact absurd h (hGone _ _)
  | accept =>
    rw [hCaller] at h
    exact h.imp id fun hGot => by rw [hCaller]; exact hGot

/-- Where the supervisor sends a result of an acquisition that did not fail. -/
def Task.answers (once : Bool) : Task → Option Message
  | .contended => if once then some .nothing else none
  | .handSend _ => some .acquisition
  | _ => none

/-- What is said is the message, or was told before. -/
theorem say_tells {m m' : Message} {t : Task} (h : (s.say m' t).tells m) : s.tells m ∨ m' = m := by
  unfold State.say at h
  split at h
  · rcases h with hValue | hGot
    · unfold Channel.send at hValue
      dsimp only at hValue
      split at hValue
      · exact Or.inr (Option.some.inj hValue)
      · exact Or.inl (Or.inl hValue)
    · exact Or.inl (Or.inr hGot)
  · exact Or.inl h

/-- The supervisor answers at two places. -/
theorem taskStep_tells {m : Message} {ready : Bool} (hOk : ∀ e, m ≠ .failed e)
    (h : (taskStep o once v ready s).tells m) :
    s.tells m ∨ s.task.answers once = some m := by
  have hFailed : ∀ (e : AcquireError) (t : Task) (s' : State), (s'.say (.failed e) t).tells m →
      s'.tells m := by
    intro e t s' hTells
    rcases say_tells hTells with hOld | hNew
    · exact hOld
    · exact absurd hNew.symm (hOk e)
  have hCheck : ∀ (a : Action) (t : Task), ((s.note a).goto t).tells m → s.tells m :=
    fun _ _ hTells => hTells
  unfold taskStep at h
  cases hTask : s.task with
  | handOpen start | handDeadline start | handLease start =>
    rw [hTask] at h
    exact Or.inl (hCheck _ _ h)
  | contended =>
    rw [hTask] at h
    dsimp only at h
    split at h
    · rename_i hOnce
      rcases say_tells h with hOld | hNew
      · exact Or.inl hOld
      · refine Or.inr ?_
        unfold Task.answers
        rw [if_pos hOnce, hNew]
    · exact Or.inl h
  | handSend start =>
    rw [hTask] at h
    dsimp only at h
    split at h
    -- sent or not, only this task has an acquisition to tell of
    · by_cases hRx : s.result.rxAlive = true
      · unfold Channel.send at h
        rw [if_pos hRx] at h
        rcases h with hValue | hGot
        · exact Or.inr (hValue)
        · exact Or.inl (Or.inr hGot)
      · unfold Channel.send at h
        rw [if_neg hRx] at h
        exact Or.inl h
    · exact Or.inl h
  | checkOpen | checkDeadline | retryShutdown start | retryDeadline start =>
    rw [hTask] at h
    dsimp only at h
    split at h
    all_goals first
      | exact Or.inl h
      | have hOld := hFailed _ _ _ h
        exact Or.inl hOld
  | failing | reject e =>
    rw [hTask] at h
    exact Or.inl (hFailed _ _ _ h)
  | unlock h' =>
    rw [hTask] at h
    cases h' <;> exact Or.inl h
  | releaseGuard | dropGuard =>
    rw [hTask] at h
    unfold State.guardStep at h
    dsimp only at h
    repeat' split at h
    all_goals exact Or.inl h
  | checkClosed | retryClosed start | retryTimer start | awaitAccepted =>
    rw [hTask] at h
    dsimp only at h
    repeat' split at h
    all_goals exact Or.inl h
  | unborn | acquiring start | cleaned | guardReleasing | done | panicked | stamp | sending start
  | locking start | cleaning | guardStarting | retryParked start =>
    rw [hTask] at h
    exact Or.inl h

/-- **Where a result comes from.** -/
theorem tells_next {m : Message} (hOk : ∀ e, m ≠ .failed e) {e : Event}
    (h : (next o once v s e).tells m) : s.tells m ∨ s.task.answers once = some m := by
  cases e with
  | caller ready => exact Or.inl (callerStep_tells h)
  | cancel => exact absurd h (leave_tells rfl s)
  | task ready => exact taskStep_tells hOk h
  | acquireReply r =>
    refine Or.inl ?_
    unfold next acquireReplied at h
    dsimp only at h
    split at h <;> exact h
  | releaseReply ok =>
    refine Or.inl ?_
    unfold next releaseReplied at h
    dsimp only at h
    split at h <;> exact h
  | guard e =>
    refine Or.inl ?_
    unfold next State.guardStep at h
    dsimp only at h
    repeat' split at h
    all_goals exact h

-- ---------------------------------------------------------------------------
-- What the results are worth
-- ---------------------------------------------------------------------------

/-- An acquisition is answered after the three checks. -/
theorem won_of_answers {t : Task} (h : t.answers once = some .acquisition) :
    t.progress = .won [.lease, .deadline, .manager] := by
  cases t with
  | handSend start => rfl
  | contended => cases once <;> cases h
  | _ => cases h

/-- Nothing is answered after contention, and only to a single attempt. -/
theorem contended_of_answers {t : Task} (h : t.answers once = some .nothing) :
    t.progress = .contended ∧ once = true := by
  cases t with
  | contended =>
    cases once with
    | true => exact ⟨rfl, rfl⟩
    | false => cases h
  | _ => cases h

theorem not_tells_initial {m : Message} (h : (acquisition o once).init s) : ¬ s.tells m := by
  rw [show s = State.initial from h]
  rintro (hNo | hNo) <;> cases hNo

/-- A guard comes from a success after which every check has passed. -/
theorem granted_of_tells (hs : (acquisition o once).Reachable s) (h : s.tells .acquisition) :
    Granted [.lease, .deadline, .manager] s.log := by
  refine (tracked o once).granted (T := State.tells .acquisition)
    (fun _ hInit => not_tells_initial hInit) (fun s e hTells => ?_) hs h
  exact (tells_next (m := .acquisition) (fun _ hNo => (nomatch hNo)) hTells).imp_right
    won_of_answers

/-- Nothing comes of a single attempt that reported contention. -/
theorem contended_of_tells (hs : (acquisition o once).Reachable s) (h : s.tells .nothing) :
    once = true ∧ ∃ start, .reply start .contended ∈ s.log := by
  have hNext : ∀ s e, ((acquisition o once).next s e).tells .nothing →
      s.tells .nothing ∨ s.task.progress = .contended ∧ once = true := fun s e hTells =>
    (tells_next (m := .nothing) (fun _ hNo => (nomatch hNo)) hTells).imp_right
      contended_of_answers
  have hOnce : s.tells .nothing → once = true := by
    refine hs.invariant (I := fun s => s.tells .nothing → once = true)
      (fun _ hInit hNo => absurd hNo (not_tells_initial hInit)) fun s e hOld _ hTells => ?_
    exact (hNext s e hTells).elim hOld And.right
  refine ⟨hOnce h, (tracked o once).contended (T := State.tells .nothing)
    (fun _ hInit => not_tells_initial hInit) (fun s e hTells => ?_) hs h⟩
  exact (hNext s e hTells).imp_right And.left

end

end RLock.Async
