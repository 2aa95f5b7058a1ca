import RLock.Sync.Handoff
import RLock.Client.Outcome

/-!
# RLock — the outcome of a sync acquisition

`acquire_loop` and its worker as a request (`Client.Outcome`): which place is how
far, and what of it reaches the caller.

Each task has its `Progress`, so a step of the loop is one of the moves of a request,
with the entries it writes. Two steps of the caller move the request as well: the one
that starts the loop, in its own thread or in a worker, and the one that takes the
result when it ran the loop itself. The deadline is compared with the instant at which
the caller entered, so it must have read the clock before the loop starts (`Opening`);
with a timeout of zero it never gets that far.

The second half follows the results to the caller. `State.tells` is that a message is
the result of the loop, waits in the channel, or is with the caller. It gets there only
from a loop that is about to say so (`Task.answers`), and what that says about the
history is what `Client.Outcome` proves of every tracked machine. A worker that lost
the caller drops a guard instead of sending it, and this tells nobody anything.

## Results

* `moves_next` — every event is a move of the request, so the machine is `tracked`.
* `tells_next` — where the caller's results come from.
* `granted_of_tells` — a guard comes from a success after which every check has
  passed.
* `contended_of_tells` — nothing comes of a single attempt that reported
  contention.
-/

namespace RLock.Sync

open RLock.Client

/-- How far a request with its loop at `t` is. The handoff passes the manager, the deadline and the
lease in this order; the caller checks again what reaches it. -/
def Task.progress : Task → Progress
  | .unborn => .apart
  | .loopCanceled => .ready []
  | .loopTimeout => .ready []
  | .loopShutdown => .ready [.deadline]
  | .stamp => .ready [.manager, .deadline]
  | .checkout _ => .ready [.manager, .deadline]
  | .sending _ => .ready [.manager, .deadline]
  | .acquiring start => .running start
  | .contended => .contended
  | .contendedTimeout => .contended
  | .contendedOnce => .contended
  | .retryWait => .ready []
  | .parking _ => .ready []
  | .waiting _ _ => .ready []
  | .lateShutdown _ => .won []
  | .lateCanceled _ => .won [.manager]
  | .lateTimeout _ => .won [.manager]
  | .lateLease _ => .won [.deadline, .manager]
  | .newGuard _ => .won [.lease, .deadline, .manager]
  | _ => .over

/-- The result that the caller checks or has returned. -/
def Caller.got : Caller → Option Message
  | .checkDeadline m => some m
  | .checkShutdown m => some m
  | .checkLease m => some m
  | .accept => some .acquisition
  | .finalLease => some .acquisition
  | .returned (.ok got) => some (if got then .acquisition else .nothing)
  | _ => none

/-- `m` is the result of the loop, waits for the caller, or has reached it. -/
def State.tells (m : Message) (s : State) : Prop :=
  s.task = .finished m ∨ s.result.value = some m ∨ s.caller.got = some m

section

variable {s : State} {o : AcquireOptions} {once : Bool} {v : View}

-- ---------------------------------------------------------------------------
-- Every event is a move
-- ---------------------------------------------------------------------------

/-- Dropping the guard writes at most the release it offers. -/
theorem guardStep_drop_offers (o : AcquireOptions) (now : Int) (s : State) :
    Extends (· = .guard .offer) s.log (s.guardStep o now .drop).log := by
  unfold State.guardStep
  split
  · exact .refl _ _
  · rename_i g hGuard
    refine ⟨(g.sent now .drop).toList.map .guard, rfl, ?_⟩
    intro a ha
    obtain ⟨x, hx, rfl⟩ := List.mem_map.mp ha
    rw [Guard.sent_drop (Option.mem_toList.mp hx)]

theorem leave_offers (o : AcquireOptions) (now : Int) (e : AcquireError) (s : State) :
    Extends (· = .guard .offer) s.log (s.leave o now e).log := by
  unfold State.leave
  dsimp only
  split
  · exact guardStep_drop_offers o now s
  · exact .refl _ _

/-- A caller that leaves writes silent entries. -/
theorem leave_silent (o : AcquireOptions) (now : Int) (e : AcquireError) (s : State)
    (may : Check → Bool) : Extends (Silent may) s.log (s.leave o now e).log :=
  (leave_offers o now e s).mono fun _ ha => ha ▸ silent_guard _

/-- What the caller writes; it sees the deadline elapsed only when it has. -/
theorem callerStep_silent {ok : Bool} (hEn : enabled o v s (.caller ok) = true) :
    Extends (Silent (v.may o s.start)) s.log (callerStep o v ok s).log := by
  have hSaw : ∀ c p, (c = .deadline → p = false → v.may o s.start .deadline = false) →
      Extends (Silent (v.may o s.start)) s.log (s.note (.saw true c p)).log :=
    fun c p hLate => (Extends.refl _ _).cons (.of_caller hLate)
  have hManager := fun p => hSaw .manager p fun hNo => (nomatch hNo)
  have hLease := fun p => hSaw .lease p fun hNo => (nomatch hNo)
  unfold callerStep
  cases hCaller : s.caller with
  | begin | accept | timedOut m | spawning =>
    dsimp only
    first | exact .refl _ _ | (split <;> exact .refl _ _)
  | returned r => exact .refl _ _
  | checkZero =>
    refine hSaw _ _ fun _ hLate => ?_
    have hZero : o.lockTimeout = some 0 := by simpa using hLate
    show (!deadlineElapsed v.now s.start o.lockTimeout) = false
    rw [hZero]
    rfl
  | admission =>
    dsimp only
    split
    · split <;> exact .refl _ _
    · exact .refl _ _
  | receiving =>
    dsimp only
    split
    · split
      · exact .refl _ _
      · exact leave_silent _ _ _ _ _
    · rename_i hTimer
      refine hSaw _ _ fun _ _ => ?_
      -- the timer of the receiver is the deadline, and the channel is empty
      have hLate : deadlineElapsed v.now s.start o.lockTimeout = true := by
        simpa [enabled, hCaller, hTimer] using hEn
      show (!deadlineElapsed v.now s.start o.lockTimeout) = false
      rw [hLate]
      rfl
  | inLoop =>
    dsimp only
    split <;> exact .refl _ _
  | checkDeadline m => exact hSaw _ _ fun _ hLate => hLate
  | leaving m => exact leave_silent _ _ _ _ _
  -- a failed check is followed by the drop of what was received
  | checkShutdown m =>
    dsimp only
    split
    · exact hManager _
    · exact (hManager _).trans (leave_silent _ _ _ _ _)
  | checkLease m =>
    cases m with
    | failed e => exact .refl _ _
    | nothing => exact .refl _ _
    | acquisition =>
      dsimp only
      split
      · exact hLease _
      · exact (hLease _).trans (leave_silent _ _ _ _ _)
  | finalLease =>
    dsimp only
    split
    · exact hLease _
    · exact (hLease _).trans (leave_silent _ _ _ _ _)

theorem check_moves {may : Check → Bool} {c : Check} {b : Bool} {p : Progress} {t : Task}
    (s : State) (hPass : b = true → Moves o once may p t.progress [.saw false c true])
    (hFail : b = false → t.progress = .over) :
    ∃ ext, ((s.note (.saw false c b)).goto t).log = ext ++ s.log ∧
      Moves o once may p ((s.note (.saw false c b)).goto t).task.progress ext :=
  ⟨[.saw false c b], rfl, .of_check hPass hFail⟩

/-- A check of a contended attempt, which starts over anyway. -/
theorem contended_moves {may : Check → Bool} (c : Check) :
    Moves o once may .contended .contended [.saw false c true] := by
  refine .stay _ (fun a ha => ?_) fun hNo => ?_
  · rw [List.mem_singleton.mp ha]
    exact plain_saw c true
  · cases List.mem_singleton.mp hNo

/-- A step of the loop or of the worker is a move. -/
theorem taskStep_moves (o : AcquireOptions) (once : Bool) (v : View) (ok : Bool) (s : State) :
    ∃ ext, (taskStep o once v ok s).log = ext ++ s.log ∧
      Moves o once (v.may o s.start) s.task.progress (taskStep o once v ok s).task.progress
        ext := by
  have hStay : ∀ p : Progress, ∃ ext, s.log = ext ++ s.log ∧
      Moves o once (v.may o s.start) p p ext :=
    fun p => Moves.of_silent p (.refl _ _)
  have hStop : ∀ p : Progress, ∃ ext, s.log = ext ++ s.log ∧
      Moves o once (v.may o s.start) p .over ext :=
    fun p => Moves.of_plain p (.refl _ _)
  have hNote : ∀ {a : Action}, Silent (v.may o s.start) a →
      Extends (Plain (v.may o s.start)) s.log (s.note a).log :=
    fun hA => (Extends.refl _ _).cons hA.1
  unfold taskStep
  cases hTask : s.task with
  | unborn | acquiring start | lateReleasing e | cleaning | done =>
    rw [hTask]
    exact hStay _
  | stamp | retryWait | parking wait | waiting start wait => exact hStay _
  | loopCanceled =>
    dsimp only
    split
    · exact hStop _
    · exact hStay _
  -- the checks of a round come in the order of `Progress.ready`
  | loopTimeout =>
    refine check_moves s (fun hIn => ?_) fun hLate => ?_
    · rw [if_neg (by simpa using hIn)]
      exact .pass .deadline [] hIn
    · rw [if_pos (by simpa using hLate)]
      rfl
  | loopShutdown =>
    refine check_moves s (fun hOpen => ?_) fun hShut => ?_
    · rw [if_pos hOpen]
      exact .pass .manager [.deadline] hOpen
    · rw [if_neg (by rw [hShut]; exact Bool.false_ne_true)]
      rfl
  | checkout start =>
    dsimp only
    split
    · exact hStay _
    · exact hStop _
  -- an attempt needs the manager and the deadline, and has both
  | sending start => exact ⟨_, rfl, .attempt start (by decide) (by decide)⟩
  | ioError =>
    refine Moves.of_plain _ (hNote ?_)
    exact ⟨⟨rfl, rfl, fun hNo => (nomatch hNo)⟩, fun hNo => (nomatch hNo)⟩
  -- after a success the same checks decide whether it is kept
  | lateShutdown start =>
    refine check_moves s (fun hOpen => ?_) fun hShut => ?_
    · rw [if_pos hOpen]
      exact .keep .manager [] hOpen
    · rw [if_neg (by rw [hShut]; exact Bool.false_ne_true)]
      rfl
  | lateCanceled start =>
    dsimp only
    split
    · exact hStop _
    · exact hStay _
  | lateTimeout start =>
    refine check_moves s (fun hIn => ?_) fun hLate => ?_
    · rw [if_neg (by simpa using hIn)]
      exact .keep .deadline [.manager] hIn
    · rw [if_pos (by simpa using hLate)]
      rfl
  | lateLease start =>
    refine check_moves s (fun hActive => ?_) fun hEnded => ?_
    · rw [if_pos hActive]
      exact .keep .lease [.deadline, .manager] rfl
    · rw [if_neg (by rw [hEnded]; exact Bool.false_ne_true)]
      rfl
  | lateRelease e =>
    dsimp only
    split <;> exact Moves.of_plain _ (hNote (silent_release ok))
  -- a guard whose renewal thread cannot be started is dropped
  | newGuard start =>
    dsimp only
    split
    · exact hStop _
    · exact Moves.of_plain _ ((guardStep_drop_offers o v.now _).mono fun _ ha =>
        ha ▸ (silent_guard _).1)
  | contended =>
    refine check_moves s (fun hOpen => ?_) fun hShut => ?_
    · rw [if_pos hOpen]
      exact contended_moves .manager
    · rw [if_neg (by rw [hShut]; exact Bool.false_ne_true)]
      rfl
  | contendedTimeout =>
    refine check_moves s (fun hIn => ?_) fun hLate => ?_
    · rw [if_neg (by simpa using hIn)]
      exact contended_moves .deadline
    · rw [if_pos (by simpa using hLate)]
      rfl
  | contendedOnce =>
    dsimp only
    split
    · exact hStop _
    · rename_i hOnce
      exact ⟨[], rfl, .again (Bool.not_eq_true _ ▸ hOnce)⟩
  | finished m =>
    cases m with
    -- a guard that nobody receives is dropped
    | acquisition =>
      dsimp only
      split
      · exact Moves.of_plain _ (hNote (silent_result _))
      · have hDrop : Extends (Plain (v.may o s.start)) (s.note (.result .acquisition)).log
            ((s.note (.result .acquisition)).guardStep o v.now .drop).log :=
          (guardStep_drop_offers o v.now _).mono fun _ ha => ha ▸ (silent_guard _).1
        exact Moves.of_plain _ ((hNote (silent_result _)).trans hDrop)
    | nothing | failed e => exact Moves.of_plain _ (hNote (silent_result _))
  | awaitAccepted =>
    dsimp only
    split <;> exact hStay _
  | cleanup =>
    dsimp only
    split <;> exact Moves.of_plain _ (hNote (silent_release ok))

-- ---------------------------------------------------------------------------
-- Up to the admission
-- ---------------------------------------------------------------------------

/-- The admission starts the loop, and without a timeout the caller ends it. -/
theorem callerStep_task (o : AcquireOptions) (v : View) (ok : Bool) (s : State) :
    (callerStep o v ok s).task = s.task ∨
      ((s.caller = .admission ∨ s.caller = .spawning) ∧
        (callerStep o v ok s).task = .loopCanceled ∧ (callerStep o v ok s).log = s.log) ∨
      (s.caller = .inLoop ∧ (callerStep o v ok s).task = .done ∧
        (callerStep o v ok s).log = s.log) := by
  unfold callerStep
  cases s.caller with
  | begin | checkZero | checkDeadline m | timedOut m | accept | returned r => exact Or.inl rfl
  | admission =>
    dsimp only
    split
    · split
      · exact Or.inl rfl
      · exact Or.inr (Or.inl ⟨Or.inl rfl, rfl, rfl⟩)
    · exact Or.inl rfl
  | spawning =>
    dsimp only
    split
    · exact Or.inr (Or.inl ⟨Or.inr rfl, rfl, rfl⟩)
    · exact Or.inl rfl
  | receiving =>
    dsimp only
    split
    · split
      · exact Or.inl rfl
      · exact Or.inl (State.leave_keeps _ _ _ _).1
    · exact Or.inl rfl
  -- without a timeout the caller takes the result out of the loop
  | inLoop =>
    dsimp only
    split
    · exact Or.inr (Or.inr ⟨rfl, rfl, rfl⟩)
    · exact Or.inr (Or.inr ⟨rfl, rfl, rfl⟩)
    · exact Or.inr (Or.inr ⟨rfl, rfl, rfl⟩)
    · exact Or.inl rfl
  | leaving m => exact Or.inl (State.leave_keeps _ _ _ _).1
  | checkShutdown m | finalLease =>
    dsimp only
    split
    · exact Or.inl rfl
    · exact Or.inl (State.leave_keeps _ _ _ _).1
  | checkLease m =>
    cases m with
    | failed e | nothing => exact Or.inl rfl
    | acquisition =>
      dsimp only
      split
      · exact Or.inl rfl
      · exact Or.inl (State.leave_keeps _ _ _ _).1

/-- A zero timeout is never admitted. -/
theorem callerStep_caller (o : AcquireOptions) (v : View) (ok : Bool) (s : State)
    (hAdmitted : s.caller = .admission → o.lockTimeout ≠ some 0) :
    (callerStep o v ok s).caller ≠ .begin ∧
      ((callerStep o v ok s).caller = .admission ∨ (callerStep o v ok s).caller = .spawning →
        o.lockTimeout ≠ some 0) := by
  have hPast : ∀ c : Caller, c ≠ .begin → c ≠ .admission → c ≠ .spawning →
      c ≠ .begin ∧ (c = .admission ∨ c = .spawning → o.lockTimeout ≠ some 0) :=
    fun c hBegin hA hS => ⟨hBegin, fun hNo => hNo.elim (fun hNo => absurd hNo hA)
      fun hNo => absurd hNo hS⟩
  have hLeave : ∀ (e : AcquireError) (s' : State), (s'.leave o v.now e).caller ≠ .begin ∧
      ((s'.leave o v.now e).caller = .admission ∨ (s'.leave o v.now e).caller = .spawning →
        o.lockTimeout ≠ some 0) := by
    -- whoever leaves has returned
    intro e s'
    rw [(State.leave_keeps o v.now e s').2.1]
    exact hPast _ (by simp) (by simp) (by simp)
  unfold callerStep
  cases hCaller : s.caller with
  | begin | timedOut m | accept => exact hPast _ (by simp) (by simp) (by simp)
  | returned r =>
    rw [hCaller]
    exact hPast _ (by simp) (by simp) (by simp)
  | checkZero =>
    dsimp only
    by_cases hZero : o.lockTimeout = some 0
    · rw [if_pos (by simpa using hZero)]
      exact hPast _ (by simp [State.call]) (by simp [State.call]) (by simp [State.call])
    · rw [if_neg (by simpa using hZero)]
      exact ⟨by simp [State.call], fun _ => hZero⟩
  | admission =>
    have hTimeout := hAdmitted hCaller
    dsimp only
    split
    · split
      · exact ⟨by simp [State.call], fun _ => hTimeout⟩
      · exact hPast _ (by simp) (by simp) (by simp)
    · exact hPast _ (by simp [State.call]) (by simp [State.call]) (by simp [State.call])
  | spawning =>
    dsimp only
    split
    · exact hPast _ (by simp) (by simp) (by simp)
    · exact hPast _ (by simp [State.call]) (by simp [State.call]) (by simp [State.call])
  | receiving =>
    dsimp only
    split
    · split
      · exact hPast _ (by simp) (by simp) (by simp)
      · exact hLeave _ _
    · exact hPast _ (by simp [State.call]) (by simp [State.call]) (by simp [State.call])
  | inLoop =>
    dsimp only
    split
    · exact hPast _ (by simp) (by simp) (by simp)
    · exact hPast _ (by simp) (by simp) (by simp)
    · exact hPast _ (by simp) (by simp) (by simp)
    · rw [hCaller]
      exact hPast _ (by simp) (by simp) (by simp)
  | checkDeadline m =>
    refine hPast _ ?_ ?_ ?_ <;> unfold State.call <;> dsimp only <;> split <;> simp
  | leaving m => exact hLeave _ _
  | checkShutdown m | finalLease =>
    dsimp only
    split
    · exact hPast _ (by simp [State.call]) (by simp [State.call]) (by simp [State.call])
    · exact hLeave _ _
  | checkLease m =>
    cases m with
    | failed e | nothing =>
      exact hPast _ (by simp [State.call]) (by simp [State.call]) (by simp [State.call])
    | acquisition =>
      dsimp only
      split
      · exact hPast _ (by simp [State.call]) (by simp [State.call]) (by simp [State.call])
      · exact hLeave _ _

/-- The clock is read once, before anything is written. -/
theorem callerStep_start (o : AcquireOptions) (v : View) (ok : Bool) (s : State) :
    (callerStep o v ok s).start = s.start ∨
      s.caller = .begin ∧ (callerStep o v ok s).log = s.log := by
  unfold callerStep
  cases s.caller with
  | begin => exact Or.inr ⟨rfl, rfl⟩
  | checkZero | checkDeadline m | timedOut m | accept | returned r => exact Or.inl rfl
  | admission =>
    dsimp only
    split
    · split <;> exact Or.inl rfl
    · exact Or.inl rfl
  | spawning =>
    dsimp only
    split <;> exact Or.inl rfl
  | receiving =>
    dsimp only
    split
    · split
      · exact Or.inl rfl
      · exact Or.inl (State.leave_keeps _ _ _ _).2.2.1
    · exact Or.inl rfl
  | inLoop =>
    dsimp only
    split <;> exact Or.inl rfl
  | leaving m => exact Or.inl (State.leave_keeps _ _ _ _).2.2.1
  | checkShutdown m | finalLease =>
    dsimp only
    split
    · exact Or.inl rfl
    · exact Or.inl (State.leave_keeps _ _ _ _).2.2.1
  | checkLease m =>
    cases m with
    | failed e | nothing => exact Or.inl rfl
    | acquisition =>
      dsimp only
      split
      · exact Or.inl rfl
      · exact Or.inl (State.leave_keeps _ _ _ _).2.2.1

/-- The loop does not move the caller, nor does it change the instant the caller entered at. -/
theorem taskStep_caller (o : AcquireOptions) (once : Bool) (v : View) (ok : Bool) (s : State) :
    (taskStep o once v ok s).caller = s.caller ∧ (taskStep o once v ok s).start = s.start := by
  unfold taskStep
  cases s.task with
  | loopTimeout | loopShutdown | lateShutdown start | lateTimeout start | lateLease start
  | contended | contendedTimeout | ioError | sending start | lateRelease e | cleanup =>
    exact (State.check_keeps _ _ s).1
  | loopCanceled | stamp | checkout start | lateCanceled start | contendedOnce | retryWait
  | parking wait | waiting start wait => exact (State.goto_keeps _ s).1
  | newGuard start =>
    dsimp only
    split
    · exact ⟨rfl, rfl⟩
    · obtain ⟨-, hCaller, hStart, -⟩ := State.guardStep_keeps o v.now .drop
        { s with guard := some (Guard.unspawned o (Lease.new start o.effectiveTtl) start) }
      exact ⟨hCaller, hStart⟩
  | finished m =>
    cases m with
    | acquisition =>
      dsimp only
      split
      · exact ⟨rfl, rfl⟩
      · obtain ⟨-, hCaller, hStart, -⟩ := State.guardStep_keeps o v.now .drop
          (s.note (.result .acquisition))
        exact ⟨hCaller, hStart⟩
    | nothing | failed e => exact ⟨rfl, rfl⟩
  | awaitAccepted =>
    dsimp only
    split <;> exact (State.goto_keeps _ s).1
  | unborn | acquiring start | lateReleasing e | cleaning | done => exact ⟨rfl, rfl⟩

/-- How a request begins. -/
structure Opening (o : AcquireOptions) (s : State) : Prop where
  fresh : s.caller = .begin → s = .initial
  admitted : s.caller = .admission ∨ s.caller = .spawning → o.lockTimeout ≠ some 0

/-- What is not the caller's doing leaves it where it is. -/
theorem caller_next (o : AcquireOptions) (once : Bool) (v : View) (s : State) {e : Event}
    (h : ∀ ok, e ≠ .caller ok) :
    (next o once v s e).caller = s.caller ∧ (next o once v s e).start = s.start := by
  cases e with
  | caller ok => exact absurd rfl (h ok)
  | task ok => exact taskStep_caller o once v ok s
  | acquireReply r =>
    show (acquireReplied r s).caller = _ ∧ (acquireReplied r s).start = _
    unfold acquireReplied
    split <;> exact ⟨rfl, rfl⟩
  | releaseReply ok =>
    show (releaseReplied s).caller = _ ∧ (releaseReplied s).start = _
    unfold releaseReplied
    split <;> exact ⟨rfl, rfl⟩
  | guard e => exact (next_guard_keeps o once v s e).1

/-- **One event** keeps the order in which a call begins. -/
theorem Opening.step {e : Event} (h : Opening o s) (hEn : enabled o v s e = true) :
    Opening o (next o once v s e) := by
  have hOther := caller_next o once v s (e := e)
  cases e with
  | caller ok =>
    obtain ⟨hBegin, hAdmission⟩ :=
      callerStep_caller o v ok s fun hCaller => h.admitted (Or.inl hCaller)
    exact ⟨fun hNo => absurd hNo hBegin, hAdmission⟩
  | task _ | acquireReply _ | releaseReply _ | guard _ =>
    obtain ⟨hCaller, -⟩ := hOther fun _ hNo => (nomatch hNo)
    refine ⟨fun hBegin => ?_, fun hAdmission => h.admitted (by rwa [hCaller] at hAdmission)⟩
    -- at the start only the caller can do anything
    rw [h.fresh (hCaller.symm.trans hBegin)] at hEn
    cases hEn

theorem opening_of_reachable (h : (acquisition o once).Reachable s) : Opening o s := by
  refine h.invariant (fun s hInit => ?_) fun s e hOpening hEn => hOpening.step hEn
  refine ⟨fun _ => hInit, fun hNo => ?_⟩
  rw [show s = State.initial from hInit] at hNo
  rcases hNo with hNo | hNo <;> cases hNo

/-- **Every event is a move of the request.** -/
theorem moves_next {e : Event} (hInv : Inv s) (hOpening : Opening o s)
    (hEn : enabled o v s e = true) :
    ∃ ext, (next o once v s e).log = ext ++ s.log ∧
      Moves o once (v.may o s.start) s.task.progress (next o once v s e).task.progress ext := by
  cases e with
  | caller ok =>
    show ∃ ext, (callerStep o v ok s).log = _ ∧
      Moves _ _ _ _ (callerStep o v ok s).task.progress _
    rcases callerStep_task o v ok s with hTask | ⟨hCaller, hTask, hLog⟩ | ⟨hCaller, hTask, hLog⟩
    · rw [hTask]
      exact Moves.of_silent _ (callerStep_silent hEn)
    · -- the loop of a request starts that had none
      have hBorn : s.task = .unborn := by
        refine hInv.born ?_
        rcases hCaller with hCaller | hCaller <;> rw [hCaller] <;> rfl
      rw [hTask, hBorn]
      exact ⟨[], hLog, .admitted (hOpening.admitted hCaller)⟩
    · rw [hTask, hLog]
      exact Moves.of_plain _ (.refl _ _)
  | task ok => exact taskStep_moves o once v ok s
  | acquireReply r =>
    show ∃ ext, (acquireReplied r s).log = _ ∧
      Moves _ _ _ _ (acquireReplied r s).task.progress _
    unfold acquireReplied
    split
    · rename_i start hTask
      rw [hTask]
      refine ⟨[.reply start r], rfl, ?_⟩
      cases r with
      -- the reply decides
      | acquired => exact .won start
      | contended => exact .contended start
      | error io => cases io <;> exact .failed start _
    · exact Moves.of_silent _ (.refl _ _)
  | releaseReply ok =>
    show ∃ ext, (releaseReplied s).log = _ ∧
      Moves _ _ _ _ (releaseReplied s).task.progress _
    unfold releaseReplied
    split
    · rename_i e hTask
      rw [hTask]
      exact Moves.of_plain _ (.refl _ _)
    · rename_i hTask
      rw [hTask]
      exact Moves.of_silent _ (.refl _ _)
    · exact Moves.of_silent _ (.refl _ _)
  | guard e =>
    -- what a guard does is silent
    have hStep : ∀ t : State, (t.guardStep o v.now e).task = t.task ∧
        Extends (Silent (v.may o s.start)) t.log (t.guardStep o v.now e).log := by
      intro t
      unfold State.guardStep
      split
      · exact ⟨rfl, .refl _ _⟩
      · refine ⟨rfl, _, rfl, fun a ha => ?_⟩
        obtain ⟨x, -, rfl⟩ := List.mem_map.mp ha
        exact silent_guard x
    simp only [next]
    split
    · rw [(hStep _).1]
      exact Moves.of_silent _ (((Extends.refl _ _).cons (silent_renewReply _ _)).trans (hStep _).2)
    · rw [(hStep _).1]
      exact Moves.of_silent _ (hStep _).2

/-- **The acquisition is a tracked machine.** -/
theorem tracked (o : AcquireOptions) (once : Bool) :
    Tracked o once (acquisition o once) State.log State.start fun s => s.task.progress where
  init s h := by
    rw [show s = State.initial from h]
    exact ⟨rfl, rfl⟩
  step s e hs hEn := moves_next (inv_of_reachable hs) (opening_of_reachable hs) hEn
  start s e hs hEn := by
    obtain ⟨v, e⟩ := e
    have hOther := caller_next o once v s (e := e)
    cases e with
    | caller ok =>
      refine (callerStep_start o v ok s).imp id ?_
      rintro ⟨hBegin, hLog⟩
      rw [(opening_of_reachable hs).fresh hBegin] at hLog ⊢
      exact hLog
    | task _ | acquireReply _ | releaseReply _ | guard _ =>
      exact Or.inl (hOther fun _ hNo => (nomatch hNo)).2

-- ---------------------------------------------------------------------------
-- Where the results come from
-- ---------------------------------------------------------------------------

/-- A caller that leaves is told nothing. -/
theorem leave_tells {m : Message} {now : Int} {e : AcquireError} (h : (s.leave o now e).tells m) :
    s.tells m := by
  obtain ⟨hTask, hCaller, -, hValue⟩ := State.leave_keeps o now e s
  rcases h with hFinished | hNo | hNo
  · exact Or.inl (hTask ▸ hFinished)
  · rw [hValue] at hNo
    cases hNo
  · rw [hCaller] at hNo
    cases hNo

theorem guardStep_tells {m : Message} {now : Int} {e : GuardEvent}
    (h : (s.guardStep o now e).tells m) : s.tells m := by
  obtain ⟨hTask, hCaller, -, hResult⟩ := State.guardStep_keeps o now e s
  unfold State.tells at h ⊢
  rwa [hTask, hCaller, hResult] at h

/-- The caller makes up no results. -/
theorem callerStep_tells {m : Message} {ok : Bool} (h : (callerStep o v ok s).tells m) :
    s.tells m := by
  -- the task and the channel are as before, the caller has nothing or what it had
  have hCall : ∀ (c : Caller) (s' : State), (c.got = none ∨ c.got = s.caller.got) →
      s'.task = s.task → s'.result = s.result → (s'.call c).tells m → s.tells m := by
    intro c s' hGot hTask hResult hTells
    rcases hTells with hFinished | hValue | hHas
    · exact Or.inl (hTask ▸ hFinished)
    · exact Or.inr (Or.inl (hResult ▸ hValue))
    · have hHas : c.got = some m := hHas
      rcases hGot with hNone | hSame
      · rw [hNone] at hHas
        cases hHas
      · exact Or.inr (Or.inr (hSame ▸ hHas))
  have hLeave : ∀ (e : AcquireError) (s' : State), s'.task = s.task → s'.result = s.result →
      s'.caller = s.caller → (s'.leave o v.now e).tells m → s.tells m := by
    intro e s' hTask hResult hCaller hTells
    have hOld := leave_tells hTells
    unfold State.tells at hOld ⊢
    rwa [hTask, hResult, hCaller] at hOld
  unfold callerStep at h
  cases hCaller : s.caller with
  | begin =>
    rw [hCaller] at h
    exact hCall .checkZero s (Or.inl rfl) rfl rfl h
  | checkZero =>
    rw [hCaller] at h
    refine hCall _ (s.note _) (Or.inl ?_) rfl rfl h
    split <;> rfl
  | admission =>
    rw [hCaller] at h
    dsimp only at h
    split at h
    · split at h
      · exact hCall _ s (Or.inl rfl) rfl rfl h
      · rcases h with hNo | hNo | hNo <;> cases hNo
    · exact hCall _ s (Or.inl rfl) rfl rfl h
  | spawning =>
    rw [hCaller] at h
    dsimp only at h
    split at h
    · rcases h with hNo | hNo | hNo <;> cases hNo
    · exact hCall _ s (Or.inl rfl) rfl rfl h
  | receiving =>
    rw [hCaller] at h
    dsimp only at h
    split at h
    · split at h
      -- it takes what the channel had
      · rename_i hValue
        rcases h with hFinished | hNo | hGot
        · exact Or.inl hFinished
        · cases hNo
        · exact Or.inr (Or.inl (hValue.trans hGot))
      · exact hLeave _ s rfl rfl rfl h
    · exact hCall _ (s.note _) (Or.inl rfl) rfl rfl h
  | inLoop =>
    rw [hCaller] at h
    dsimp only at h
    split at h
    -- it takes the result of its own loop, whatever that is
    · rename_i hTask
      rcases h with hNo | hValue | hGot
      · cases hNo
      · exact Or.inr (Or.inl hValue)
      · exact Or.inl (hTask.trans (congrArg Task.finished (Option.some.inj hGot)))
    · rename_i hTask
      rcases h with hNo | hValue | hGot
      · cases hNo
      · exact Or.inr (Or.inl hValue)
      · exact Or.inl (hTask.trans (congrArg Task.finished (Option.some.inj hGot)))
    · rcases h with hNo | hValue | hNo
      · cases hNo
      · exact Or.inr (Or.inl hValue)
      · cases hNo
    · exact h
  | checkDeadline m' =>
    rw [hCaller] at h hCall
    refine hCall _ (s.note _) ?_ rfl rfl h
    split
    · exact Or.inl rfl
    · exact Or.inr rfl
  | timedOut m' =>
    rw [hCaller] at h
    exact hCall (.leaving m') { s with canceled := true } (Or.inl rfl) rfl rfl h
  | leaving m' =>
    rw [hCaller] at h
    exact hLeave _ s rfl rfl rfl h
  | checkShutdown m' =>
    rw [hCaller] at h hCall
    dsimp only at h
    split at h
    · exact hCall _ (s.note _) (Or.inr rfl) rfl rfl h
    · exact hLeave _ (s.note _) rfl rfl rfl h
  | checkLease m' =>
    rw [hCaller] at h hCall
    cases m' with
    | failed e => exact hCall _ s (Or.inl rfl) rfl rfl h
    | nothing => exact hCall _ s (Or.inr rfl) rfl rfl h
    | acquisition =>
      dsimp only at h
      split at h
      · exact hCall _ ((s.note _).readLease v.now) (Or.inr rfl) rfl rfl h
      · exact hLeave _ ((s.note _).readLease v.now) rfl rfl rfl h
  | accept =>
    rw [hCaller] at h hCall
    exact hCall .finalLease { s with accepted := s.accepted.map fun ch => (ch.send ()).2 }
      (Or.inr rfl) rfl rfl h
  | finalLease =>
    rw [hCaller] at h hCall
    dsimp only at h
    split at h
    · exact hCall _ ((s.note _).readLease v.now) (Or.inr rfl) rfl rfl h
    · exact hLeave _ ((s.note _).readLease v.now) rfl rfl rfl h
  | returned r =>
    rw [hCaller] at h
    exact h

/-- Where the loop comes to a result of an acquisition that did not fail. -/
def Task.answers (once : Bool) : Task → Option Message
  | .contendedOnce => if once then some .nothing else none
  | .newGuard _ => some .acquisition
  | _ => none

/-- Moving on within the loop changes neither the channel nor the caller. -/
theorem goto_tells {m : Message} (t : Task) (s' : State) (hResult : s'.result = s.result)
    (hCaller : s'.caller = s.caller) (hTells : (s'.goto t).tells m) (hNot : t ≠ .finished m) :
    s.tells m := by
  rcases hTells with hFinished | hValue | hGot
  · exact absurd hFinished hNot
  · exact Or.inr (Or.inl (hResult ▸ hValue))
  · exact Or.inr (Or.inr (hCaller ▸ hGot))

/-- The loop answers at two places. -/
theorem taskStep_tells {m : Message} {ok : Bool} (hOk : ∀ e, m ≠ .failed e)
    (h : (taskStep o once v ok s).tells m) : s.tells m ∨ s.task.answers once = some m := by
  have hFailed : ∀ e, Task.finished (.failed e) ≠ .finished m := by
    intro e hNo
    cases hNo
    exact hOk e rfl
  unfold taskStep at h
  cases hTask : s.task with
  | unborn | acquiring start | lateReleasing e | cleaning | done =>
    rw [hTask] at h
    exact Or.inl h
  | stamp | retryWait | parking wait | waiting start wait =>
    rw [hTask] at h
    exact Or.inl (goto_tells _ s rfl rfl h fun hNo => (nomatch hNo))
  | sending start =>
    rw [hTask] at h
    exact Or.inl (goto_tells _ (s.note _) rfl rfl h fun hNo => (nomatch hNo))
  | ioError =>
    rw [hTask] at h
    exact Or.inl (goto_tells _ (s.note _) rfl rfl h (hFailed _))
  | loopCanceled | checkout start | lateCanceled start =>
    rw [hTask] at h
    refine Or.inl (goto_tells _ s rfl rfl h ?_)
    split <;> first | exact hFailed _ | exact fun hNo => (nomatch hNo)
  | loopTimeout | loopShutdown | lateShutdown start | lateTimeout start | lateLease start
  | contended | contendedTimeout | lateRelease e | cleanup =>
    rw [hTask] at h
    refine Or.inl (goto_tells _ (s.note _) rfl rfl h ?_)
    split <;> first | exact hFailed _ | exact fun hNo => (nomatch hNo)
  | awaitAccepted =>
    rw [hTask] at h
    dsimp only at h
    split at h <;> exact Or.inl (goto_tells _ s rfl rfl h fun hNo => (nomatch hNo))
  -- the guard exists from here on, unless its thread could not be started
  | newGuard start =>
    rw [hTask] at h
    dsimp only at h
    split at h
    · rcases h with hFinished | hOld
      · cases hFinished
        exact Or.inr rfl
      · exact Or.inl (Or.inr hOld)
    · obtain ⟨-, hCaller, -, hResult⟩ := State.guardStep_keeps o v.now .drop
        { s with guard := some (Guard.unspawned o (Lease.new start o.effectiveTtl) start) }
      exact Or.inl (goto_tells _ _ hResult hCaller h (hFailed _))
  | contendedOnce =>
    rw [hTask] at h
    cases once with
    | true =>
      rcases h with hFinished | hOld
      · cases hFinished
        exact Or.inr rfl
      · exact Or.inl (Or.inr hOld)
    | false => exact Or.inl (goto_tells _ s rfl rfl h fun hNo => (nomatch hNo))
  | finished m' =>
    rw [hTask] at h
    -- what the worker sends is the result of the loop
    have hSend : ∀ {m' : Message}, s.task = .finished m' → (s.result.send m').2.value = some m →
        s.tells m := by
      intro m' hFinished hValue
      unfold Channel.send at hValue
      split at hValue
      · exact Or.inl (hFinished.trans (congrArg Task.finished (Option.some.inj hValue)))
      · exact Or.inr (Or.inl hValue)
    cases m' with
    | acquisition =>
      dsimp only at h
      split at h
      · rcases h with hNo | hValue | hGot
        · cases hNo
        · exact Or.inl (hSend hTask hValue)
        · exact Or.inl (Or.inr (Or.inr hGot))
      · obtain ⟨-, hCaller, -, hResult⟩ := State.guardStep_keeps o v.now .drop
          (s.note (.result .acquisition))
        exact Or.inl (goto_tells _ _ hResult hCaller h fun hNo => (nomatch hNo))
    | nothing | failed e =>
      rcases h with hNo | hValue | hGot
      · cases hNo
      · exact Or.inl (hSend hTask hValue)
      · exact Or.inl (Or.inr (Or.inr hGot))

/-- **Where a result comes from.** -/
theorem tells_next {m : Message} (hOk : ∀ e, m ≠ .failed e) {e : Event}
    (h : (next o once v s e).tells m) : s.tells m ∨ s.task.answers once = some m := by
  have hReplied : ∀ t : Task, (∀ m, t = .finished m → ∃ e, m = .failed e) →
      (s.goto t).tells m → s.tells m := by
    intro t hT hTells
    rcases hTells with hFinished | hOld
    · obtain ⟨e, rfl⟩ := hT m hFinished
      exact absurd rfl (hOk e)
    · exact Or.inr hOld
  cases e with
  | caller ok => exact Or.inl (callerStep_tells h)
  | task ok => exact taskStep_tells hOk h
  | acquireReply r =>
    refine Or.inl ?_
    unfold next acquireReplied at h
    dsimp only at h
    split at h
    · refine hReplied _ ?_ h
      rintro m' hFinished
      cases r with
      | acquired | contended => cases hFinished
      -- after an I/O error the loop offers a release first
      | error io =>
        cases io with
        | true => cases hFinished
        | false =>
          cases hFinished
          exact ⟨_, rfl⟩
    · exact h
  | releaseReply ok =>
    refine Or.inl ?_
    unfold next releaseReplied at h
    dsimp only at h
    split at h
    · rename_i e hTask
      refine hReplied _ ?_ h
      rintro m' hFinished
      cases hFinished
      exact ⟨e, rfl⟩
    · exact hReplied .done (fun m' hNo => (nomatch hNo)) h
    · exact h
  | guard e =>
    refine Or.inl ?_
    unfold next at h
    dsimp only at h
    have hOld := guardStep_tells h
    split at hOld <;> exact hOld

-- ---------------------------------------------------------------------------
-- What the results are worth
-- ---------------------------------------------------------------------------

/-- An acquisition is answered after the three checks. -/
theorem won_of_answers {t : Task} (h : t.answers once = some .acquisition) :
    t.progress = .won [.lease, .deadline, .manager] := by
  cases t with
  | newGuard start => rfl
  | contendedOnce => cases once <;> cases h
  | _ => cases h

/-- Nothing is answered after contention, and only to a single attempt. -/
theorem contended_of_answers {t : Task} (h : t.answers once = some .nothing) :
    t.progress = .contended ∧ once = true := by
  cases t with
  | contendedOnce =>
    cases once with
    | true => exact ⟨rfl, rfl⟩
    | false => cases h
  | _ => cases h

theorem not_tells_initial {m : Message} (h : (acquisition o once).init s) : ¬ s.tells m := by
  rw [show s = State.initial from h]
  rintro (hNo | hNo | hNo) <;> cases hNo

/-- A guard comes from a success after which every check has passed. -/
theorem granted_of_tells (hs : (acquisition o once).Reachable s) (h : s.tells .acquisition) :
    Granted [.lease, .deadline, .manager] s.log := by
  refine (tracked o once).granted (T := State.tells .acquisition)
    (fun _ hInit => not_tells_initial hInit) (fun s e hTells => ?_) hs h
  exact (tells_next (m := .acquisition) (fun _ hNo => (nomatch hNo)) hTells).imp_right
    won_of_answers

/-- Nothing comes of a single attempt that reported contention. -/
theorem contended_of_tells (hs : (acquisition o once).Reachable s) (h : s.tells .nothing) :
    once = true ∧ ∃ start, .reply start .contended ∈ s.log := by
  have hNext : ∀ s e, ((acquisition o once).next s e).tells .nothing →
      s.tells .nothing ∨ s.task.progress = .contended ∧ once = true := fun s e hTells =>
    (tells_next (m := .nothing) (fun _ hNo => (nomatch hNo)) hTells).imp_right
      contended_of_answers
  have hOnce : s.tells .nothing → once = true := by
    refine hs.invariant (I := fun s => s.tells .nothing → once = true)
      (fun _ hInit hNo => absurd hNo (not_tells_initial hInit)) fun s e hOld _ hTells => ?_
    exact (hNext s e hTells).elim hOld And.right
  refine ⟨hOnce h, (tracked o once).contended (T := State.tells .nothing)
    (fun _ hInit => not_tells_initial hInit) (fun s e hTells => ?_) hs h⟩
  exact (hNext s e hTells).imp_right And.left

end

end RLock.Sync
