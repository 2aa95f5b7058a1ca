import RLock.Client.Acquisition
import RLock.Lib.Machine

/-!
# RLock — an acquisition of the async backend

One `acquire_internal` call with its `supervise_acquisition` task and the guard
they build, as a machine. The caller, the supervisor, the renewal loop and the
owner of the guard take their steps in any order; what a step reads of the rest
of the process comes with its event.

A step is what the code does between two points at which others can interfere:
a read of the clock, of the manager, or of a channel is a step of its own, and so
is each arm of a `select!`, in the order of its `biased;`. A `select!` is polled
arm by arm, and the caller can be dropped only where all of them were pending
(`Caller.parked`). The `bool` of an event says whether the poll sees what is
ready, so a late wakeup or a late timer is a step that misses it.

The admission lock is not part of the state. The supervisor holds it from
`Task.locking` to `Task.unlock`, and what the lock protects, the senders and the
state of the manager, comes with the `View` of each event. `Manager.Seal` and
`Async.Seal` put the two together.

The history `State.log` records the commands, the replies, what each check saw,
and what went to the manager. Every property of the run is stated about it.

* `callerStep` — `acquire_internal`.
* `taskStep`, `acquireReplied`, `releaseReplied` — `supervise_acquisition`.
* `acquisition` — the machine.
-/

namespace RLock.Async

open RLock.Client

/-- Where `acquire_internal` stands; `got` tells whether the result that is being
checked holds an acquisition. -/
inductive Caller
  | begin
  | checkTimeout
  | admission
  | pollShutdown
  | pollDeadline
  | pollResult
  /-- every arm of the `select!` was pending; only here can the future be dropped -/
  | parked
  | checkDeadline (got : Bool)
  | checkOpen (got : Bool)
  | checkLease
  | accept
  /-- `ok true` is `Ok(Some(guard))` -/
  | returned (r : Except AcquireError Bool)
  | cancelled
  deriving DecidableEq

/-- `acquire_internal` has the acquisition in its hands. -/
def Caller.inHand : Caller → Bool
  | .checkDeadline got => got
  | .checkOpen got => got
  | .checkLease => true
  | .accept => true
  | _ => false

/-- How the handoff was decided under the admission lock. -/
inductive Handoff
  | sent
  | rejected (e : AcquireError)
  | abandoned
  deriving DecidableEq, Repr

/-- Where `supervise_acquisition` stands. -/
inductive Task
  | unborn
  | checkClosed
  | checkOpen
  | checkDeadline
  | stamp
  | sending (start : Int)
  /-- `acquire_lock` is running -/
  | acquiring (start : Int)
  | failing
  | locking (start : Int)
  | handOpen (start : Int)
  | handDeadline (start : Int)
  | handLease (start : Int)
  | handSend (start : Int)
  /-- the handoff is decided, the admission lock still held -/
  | unlock (h : Handoff)
  | awaitAccepted
  | reject (e : AcquireError)
  /-- `clean_abandoned` is next -/
  | cleaning
  | cleaned
  /-- `guard.release()` of an abandoned guard -/
  | releaseGuard
  | guardStarting
  | guardReleasing
  | dropGuard
  | contended
  | retryClosed (start : Int)
  | retryShutdown (start : Int)
  | retryDeadline (start : Int)
  | retryTimer (start : Int)
  | retryParked (start : Int)
  | done
  /-- an `unwrap` of the taken sender, or the `unreachable!` arm -/
  | panicked
  deriving DecidableEq, Repr

/-- An acquisition in progress, with its history. -/
structure State where
  caller : Caller
  task : Task
  /-- `start` of `acquire_internal` -/
  start : Int
  /-- `result_tx` is still there. -/
  hasTx : Bool
  result : Channel Message
  accepted : Option (Channel Unit)
  guard : Option Guard
  /-- The history of the request, the newest entry first. -/
  log : List Action
  deriving DecidableEq

/-- What may happen. `ready` tells whether an arm of a `select!` whose condition
holds is seen by this poll; a timer may fire late. -/
inductive Event
  | caller (ready : Bool)
  | cancel
  | task (ready : Bool)
  | acquireReply (r : Reply)
  | releaseReply (ok : Bool)
  | guard (e : GuardEvent)
  deriving DecidableEq, Repr

namespace State

/-- Before the first step of the caller. -/
def initial : State where
  caller := .begin
  task := .unborn
  start := 0
  hasTx := false
  result := .fresh
  accepted := none
  guard := none
  log := []

/-- One more entry of the history. -/
def note (a : Action) (s : State) : State := { s with log := a :: s.log }

/-- The supervisor goes on to `t`. -/
def goto (t : Task) (s : State) : State := { s with task := t }

/-- The caller goes on to `c`. -/
def call (c : Caller) (s : State) : State := { s with caller := c }

/-- `result_tx.take().unwrap().send(m)`, the result ignored -/
def say (m : Message) (t : Task) (s : State) : State :=
  if s.hasTx then
    { s with hasTx := false, result := (s.result.send m).2, task := t, log := .result m :: s.log }
  else { s with task := .panicked }

/-- `return` of the supervisor, which drops what is left of `result_tx`. -/
def finish (s : State) : State :=
  { s with hasTx := false, result := s.result.dropTx, task := .done }

/-- One event of the guard; what it sends is noted. -/
def guardStep (o : AcquireOptions) (now : Int) (e : GuardEvent) (s : State) : State :=
  match s.guard with
  | none => s
  | some g =>
    { s with
      guard := some (g.next .async o now e)
      log := (g.sent now e).toList.map .guard ++ s.log }

/-- `guard.lease.state()` leaves a lease that is out of time as lost. -/
def readLease (now : Int) (s : State) : State :=
  { s with guard := s.guard.map fun (g : Guard) => { g with lease := g.lease.refresh now } }

/-- Drops an `Acquisition`: the guard, then its side of the acceptance channel. -/
def dropAcquisition (o : AcquireOptions) (now : Int) (s : State) : State :=
  { s.guardStep o now .drop with accepted := s.accepted.map Channel.dropTx }

/-- The caller has the acquisition, or would drop it with its receiver. -/
def callerHolds (s : State) : Bool :=
  s.result.value = some .acquisition || s.caller.inHand

/-- `acquire_internal` ends without a guard and drops what it holds. -/
def leave (o : AcquireOptions) (now : Int) (c : Caller) (s : State) : State :=
  let s' := if s.callerHolds then s.dropAcquisition o now else s
  { s' with caller := c, result := s'.result.dropRx }

-- What these leave as it is.

/-- A step of the supervisor leaves the caller and the channel alone. -/
theorem goto_keeps (t : Task) (s : State) :
    ((s.goto t).caller = s.caller ∧ (s.goto t).start = s.start) ∧ (s.goto t).result = s.result :=
  ⟨⟨rfl, rfl⟩, rfl⟩

/-- A check enters what it saw and goes on. -/
theorem check_keeps (a : Action) (t : Task) (s : State) :
    (((s.note a).goto t).caller = s.caller ∧ ((s.note a).goto t).start = s.start) ∧
      ((s.note a).goto t).result = s.result :=
  ⟨⟨rfl, rfl⟩, rfl⟩

/-- Speaking to the caller does not move it. -/
theorem say_keeps (m : Message) (t : Task) (s : State) :
    (s.say m t).caller = s.caller ∧ (s.say m t).start = s.start := by
  unfold say
  split <;> exact ⟨rfl, rfl⟩

/-- Whoever has no sender left to speak with panics. -/
theorem say_task (m : Message) (t : Task) (s : State) :
    (s.say m t).task = t ∨ (s.say m t).task = .panicked := by
  unfold say
  split
  · exact Or.inl rfl
  · exact Or.inr rfl

/-- The channel is as it was, or the message is in it if somebody is there to get it. -/
theorem say_result (m : Message) (t : Task) (s : State) :
    (s.say m t).result = s.result ∨ (s.say m t).result = (s.result.send m).2 := by
  unfold say
  split
  · exact Or.inr rfl
  · exact Or.inl rfl

/-- The guard does its steps behind the back of the other two. -/
theorem guardStep_keeps (o : AcquireOptions) (now : Int) (e : GuardEvent) (s : State) :
    ((s.guardStep o now e).caller = s.caller ∧ (s.guardStep o now e).start = s.start) ∧
      (s.guardStep o now e).result = s.result ∧ (s.guardStep o now e).task = s.task := by
  unfold guardStep
  split <;> exact ⟨⟨rfl, rfl⟩, rfl, rfl⟩

end State

open State

/-- The next step of `acquire_internal`. -/
def callerStep (o : AcquireOptions) (v : View) (ready : Bool) (s : State) : State :=
  match s.caller with
  | .begin => { s with start := v.now, caller := .checkTimeout }
  | .checkTimeout =>
    let late := deadlineElapsed v.now s.start o.lockTimeout
    (s.note (.saw true .deadline (!late))).call
      (if late then .returned (.error .lockTimeout) else .admission)
  -- `admit` hands out a sender; the task is spawned with it
  | .admission =>
    if v.isOpen && v.hasSender then
      { s with caller := .pollShutdown, task := .checkClosed, hasTx := true, result := .fresh }
    else s.call (.returned (.error .shutdown))
  -- the arms of the biased `select!`, first to last
  | .pollShutdown =>
    if ready && !v.isOpen then
      (s.note (.saw true .manager false)).leave o v.now (.returned (.error .shutdown))
    else s.call .pollDeadline
  | .pollDeadline =>
    if ready && deadlineElapsed v.now s.start o.lockTimeout then
      (s.note (.saw true .deadline false)).leave o v.now (.returned (.error .lockTimeout))
    else s.call .pollResult
  | .pollResult =>
    if ready then
      match s.result.value with
      | some (.failed e) => { s with result := s.result.take, caller := .returned (.error e) }
      | some .nothing => { s with result := s.result.take, caller := .checkDeadline false }
      | some .acquisition => { s with result := s.result.take, caller := .checkDeadline true }
      -- `result_rx` resolves without a message only if the sender is gone
      | none =>
        if s.result.txAlive then s.call .parked
        else s.leave o v.now (.returned (.error .workerError))
    else s.call .parked
  | .parked => s.call .pollShutdown
  -- a result in the hand is dropped with everything in it if one of these checks fails
  | .checkDeadline got =>
    let late := deadlineElapsed v.now s.start o.lockTimeout
    let s := s.note (.saw true .deadline (!late))
    if late then s.leave o v.now (.returned (.error .lockTimeout)) else s.call (.checkOpen got)
  | .checkOpen got =>
    let s := s.note (.saw true .manager v.isOpen)
    if v.isOpen then s.call (if got then .checkLease else .returned (.ok false))
    else s.leave o v.now (.returned (.error .shutdown))
  | .checkLease =>
    let active : Bool := s.guard.any fun g => g.lease.stateAt v.now = .active
    let s := s.note (.saw true .lease active)
    let s := s.readLease v.now
    if active then s.call .accept else s.leave o v.now (.returned (.error .leaseExpired))
  -- the result of `accepted.send(())` is ignored
  | .accept =>
    { s with accepted := s.accepted.map fun ch => (ch.send ()).2, caller := .returned (.ok true) }
  | .returned _ => s
  | .cancelled => s

/-- The next step of `supervise_acquisition`. -/
def taskStep (o : AcquireOptions) (once : Bool) (v : View) (ready : Bool) (s : State) : State :=
  match s.task with
  -- `result_tx.as_ref().unwrap()` panics without a sender
  | .checkClosed =>
    if s.hasTx then if s.result.rxAlive then s.goto .checkOpen else s.finish
    else s.goto .panicked
  | .checkOpen =>
    let s := s.note (.saw false .manager v.isOpen)
    if v.isOpen then s.goto .checkDeadline else s.say (.failed .shutdown) .done
  | .checkDeadline =>
    let late := deadlineElapsed v.now s.start o.lockTimeout
    let s := s.note (.saw false .deadline (!late))
    if late then s.say (.failed .lockTimeout) .done else s.goto .stamp
  | .stamp => s.goto (.sending v.now)
  | .sending start => (s.note (.attempt start)).goto (.acquiring start)
  -- an error of `acquire_lock` is passed on, and the lock cleaned up
  | .failing => s.say (.failed .redisError) .cleaning
  | .locking start => s.goto (.handOpen start)
  -- from here to `unlock` the admission lock is held
  | .handOpen start =>
    let isOpen := v.hasSender && v.isOpen
    (s.note (.saw false .manager isOpen)).goto
      (if isOpen then .handDeadline start else .unlock (.rejected .shutdown))
  | .handDeadline start =>
    let late := deadlineElapsed v.now s.start o.lockTimeout
    (s.note (.saw false .deadline (!late))).goto
      (if late then .unlock (.rejected .lockTimeout) else .handLease start)
  | .handLease start =>
    let active : Bool := (Lease.new start o.effectiveTtl).stateAt v.now = .active
    (s.note (.saw false .lease active)).goto
      (if active then .handSend start else .unlock (.rejected .leaseExpired))
  | .handSend start =>
    let guard := Guard.new o (Lease.new start o.effectiveTtl) start
    if s.hasTx then
      let s := { s with hasTx := false, guard := some guard, log := .result .acquisition :: s.log }
      match s.result.send .acquisition with
      -- the receiver is there: the guard is the caller's
      | (none, ch) =>
        { s with result := ch, accepted := some .fresh, task := .unlock .sent }
      -- it came back: the supervisor releases it
      | (some .acquisition, ch) => { s with result := ch, task := .unlock .abandoned }
      | (some _, ch) => { s with result := ch, task := .panicked }
    else s.goto .panicked
  | .unlock .sent => s.goto .awaitAccepted
  | .unlock (.rejected e) => s.goto (.reject e)
  | .unlock .abandoned => s.goto .releaseGuard
  -- an error of `accepted.await` means that the caller dropped the acquisition
  | .awaitAccepted =>
    if s.accepted.any fun ch => ch.value = some () then s.goto .done else s.goto .cleaning
  | .reject e => s.say (.failed e) .cleaning
  -- `clean_abandoned`
  | .cleaning => (s.note (.release true)).goto .cleaned
  -- `guard.release()` in its own steps, and the guard is dropped after it
  | .releaseGuard =>
    if s.guard.any (·.isReleased) then s.goto .dropGuard
    else (s.guardStep o v.now .beginRelease).goto .guardStarting
  | .guardStarting =>
    { s with
      guard := s.guard.map fun g => g.next .async o v.now .sendRelease
      log := .release true :: s.log
      task := .guardReleasing }
  | .dropGuard => (s.guardStep o v.now .drop).goto .done
  | .contended => if once then s.say .nothing .done else s.goto (.retryClosed v.now)
  -- the arms of the second biased `select!`
  | .retryClosed start =>
    if s.hasTx then
      if ready && !s.result.rxAlive then s.finish else s.goto (.retryShutdown start)
    else s.goto .panicked
  | .retryShutdown start =>
    if ready && !v.isOpen then
      (s.note (.saw false .manager false)).say (.failed .shutdown) .done
    else s.goto (.retryDeadline start)
  | .retryDeadline start =>
    if ready && deadlineElapsed v.now s.start o.lockTimeout then
      (s.note (.saw false .deadline false)).say (.failed .lockTimeout) .done
    else s.goto (.retryTimer start)
  | .retryTimer start =>
    if ready && deadlineElapsed v.now start (some o.retryInterval) then s.goto .checkClosed
    else s.goto (.retryParked start)
  | .retryParked start => s.goto (.retryClosed start)
  -- no step of its own
  | .unborn => s
  | .acquiring _ => s
  | .cleaned => s
  | .guardReleasing => s
  | .done => s
  | .panicked => s

/-- The supervisor receives the reply of `acquire_lock`. -/
def acquireReplied (r : Reply) (s : State) : State :=
  match s.task with
  | .acquiring start =>
    (s.note (.reply start r)).goto
      (match r with
      | .acquired => .locking start
      | .contended => .contended
      | .error _ => .failing)
  | _ => s

/-- The supervisor receives the reply of a `release_lock`. -/
def releaseReplied (o : AcquireOptions) (v : View) (ok : Bool) (s : State) : State :=
  match s.task with
  | .cleaned => s.goto .done
  | .guardReleasing =>
    { s with
      guard := s.guard.map fun g => g.next .async o v.now (.releaseReply ok)
      task := .dropGuard }
  | _ => s

/-- What may happen next. The supervisor waits for a reply, for the caller or for nothing; only the
owner of a guard that was handed out may release it. -/
def enabled (v : View) (s : State) : Event → Bool
  | .caller _ => match s.caller with
    | .returned _ => false
    | .cancelled => false
    | _ => true
  | .cancel => s.caller = .parked
  | .task _ => match s.task with
    | .unborn => false
    | .acquiring _ => false
    | .cleaned => false
    | .guardReleasing => false
    | .done => false
    | .panicked => false
    | .awaitAccepted => s.accepted.any fun ch => ch.value.isSome || !ch.txAlive
    | _ => true
  | .acquireReply _ => match s.task with
    | .acquiring _ => true
    | _ => false
  | .releaseReply _ => s.task = .cleaned || s.task = .guardReleasing
  | .guard e =>
    (s.guard.any fun g => g.enabled .async v.now e) &&
      (!e.byOwner || s.caller = .returned (.ok true))

/-- The step of an event. A reply to a renewal is noted with the stamp of its command. -/
def next (o : AcquireOptions) (once : Bool) (v : View) (s : State) : Event → State
  | .caller ready => callerStep o v ready s
  | .cancel => s.leave o v.now .cancelled
  | .task ready => taskStep o once v ready s
  | .acquireReply r => acquireReplied r s
  | .releaseReply ok => releaseReplied o v ok s
  | .guard e =>
    let s := match e, s.guard.map (·.renewal) with
      | .renewReply r, some (.renewing start) => s.note (.renewReply start r)
      | _, _ => s
    s.guardStep o v.now e

/-- The renewal loop and the owner of the guard change the guard and the history only. -/
theorem next_guard_keeps (o : AcquireOptions) (once : Bool) (v : View) (s : State)
    (e : GuardEvent) :
    ((next o once v s (.guard e)).caller = s.caller ∧
      (next o once v s (.guard e)).start = s.start) ∧
    (next o once v s (.guard e)).result = s.result ∧
    (next o once v s (.guard e)).task = s.task := by
  unfold next State.guardStep
  dsimp only
  repeat' split
  all_goals exact ⟨⟨rfl, rfl⟩, rfl, rfl⟩

/-- The acquisition as a machine; `once` asks for a single attempt. -/
def acquisition (o : AcquireOptions) (once : Bool) : Machine State (View × Event) where
  init s := s = .initial
  enabled s e := enabled e.1 s e.2 = true
  next s e := next o once e.1 s e.2

instance (o : AcquireOptions) (once : Bool) (s : State) (e : View × Event) :
    Decidable ((acquisition o once).enabled s e) :=
  inferInstanceAs (Decidable (enabled e.1 s e.2 = true))

end RLock.Async
