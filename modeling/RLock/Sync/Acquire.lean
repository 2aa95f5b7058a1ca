import RLock.Client.Acquisition
import RLock.Lib.Machine

/-!
# RLock — an acquisition of the sync backend

One `acquire_internal` call of the sync backend as a machine: the caller, the
`acquire_loop` (on a worker thread when there is a timeout, else in the caller
itself), the renewal thread and the owner of the guard, in any order.

A step is what a thread does between two points at which another one can interfere.
The checks of an `if` with several conditions are steps of their own, in the order in
which the source evaluates them, because the flag, the clock and the state of the
manager may change in between. What a step reads of the manager comes with its event.

The caller and the worker share the channel of the result, the acceptance channel and
the flag `canceled`. There is no way to interrupt a worker: a caller that gives up
sets the flag, wakes a worker that waits for its retry, and drops its receiver. A
guard that comes after that comes back to the worker, which releases it. Without a
timeout there is no worker and no channel, and the caller picks up the result of the
loop itself (`Caller.inLoop`).

* `callerStep` — `acquire_internal`.
* `taskStep`, `acquireReplied`, `releaseReplied` — `acquire_loop` and the worker.
* `acquisition` — the machine.
-/

namespace RLock.Sync

open RLock.Client

/-- Where `acquire_internal` stands. -/
inductive Caller
  | begin
  | checkZero
  | admission
  /-- the worker thread is to be spawned -/
  | spawning
  /-- in `recv_timeout` -/
  | receiving
  /-- without a timeout `acquire_loop` runs here -/
  | inLoop
  | checkDeadline (m : Message)
  /-- `cancel_acquisition` is next; `m` is the result if one was received -/
  | timedOut (m : Option Message)
  | leaving (m : Option Message)
  | checkShutdown (m : Message)
  | checkLease (m : Message)
  | accept
  /-- the check of the lease that ends both paths -/
  | finalLease
  /-- `ok true` is `Ok(Some(guard))` -/
  | returned (r : Except AcquireError Bool)
  deriving DecidableEq

/-- The caller has the guard in its hands. -/
def Caller.inHand : Caller → Bool
  | .checkDeadline m => m = .acquisition
  | .timedOut m => m = some .acquisition
  | .leaving m => m = some .acquisition
  | .checkShutdown m => m = .acquisition
  | .checkLease m => m = .acquisition
  | .accept => true
  | .finalLease => true
  | _ => false

/-- Where `acquire_loop` stands, and after it the worker thread. -/
inductive Task
  | unborn
  | loopCanceled
  | loopTimeout
  | loopShutdown
  | stamp
  | checkout (start : Int)
  | sending (start : Int)
  /-- `acquire_lock` is running -/
  | acquiring (start : Int)
  | ioError
  | lateShutdown (start : Int)
  | lateCanceled (start : Int)
  | lateTimeout (start : Int)
  | lateLease (start : Int)
  /-- `release_lock` of a late acquisition is next -/
  | lateRelease (e : AcquireError)
  | lateReleasing (e : AcquireError)
  | newGuard (start : Int)
  | contended
  | contendedTimeout
  | contendedOnce
  | retryWait
  | parking (wait : Nat)
  | waiting (start : Int) (wait : Nat)
  /-- `acquire_loop` returned -/
  | finished (m : Message)
  | awaitAccepted
  /-- `release_lock` of an unclaimed acquisition is next -/
  | cleanup
  | cleaning
  | done
  deriving DecidableEq, Repr

/-- An acquisition in progress, with its history. -/
structure State where
  caller : Caller
  task : Task
  /-- `start` of `acquire_internal` -/
  start : Int
  canceled : Bool
  result : Channel Message
  accepted : Option (Channel Unit)
  guard : Option Guard
  /-- The history of the request, the newest entry first. -/
  log : List Action
  deriving DecidableEq

/-- What may happen. `ok` tells whether a thread could be spawned or a connection
opened, and for `recv_timeout` whether it ends with the channel or the clock. -/
inductive Event
  | caller (ok : Bool)
  | task (ok : Bool)
  | acquireReply (r : Reply)
  | releaseReply (ok : Bool)
  | guard (e : GuardEvent)
  deriving DecidableEq, Repr

namespace State

/-- Before the first step of the caller. -/
def initial : State where
  caller := .begin
  task := .unborn
  start := 0
  canceled := false
  result := .fresh
  accepted := none
  guard := none
  log := []

/-- One more entry of the history. -/
def note (a : Action) (s : State) : State := { s with log := a :: s.log }

/-- The loop goes on to `t`. -/
def goto (t : Task) (s : State) : State := { s with task := t }

/-- The caller goes on to `c`. -/
def call (c : Caller) (s : State) : State := { s with caller := c }

/-- One event of the guard; what it sends is noted. -/
def guardStep (o : AcquireOptions) (now : Int) (e : GuardEvent) (s : State) : State :=
  match s.guard with
  | none => s
  | some g =>
    { s with
      guard := some (g.next .sync o now e)
      log := (g.sent now e).toList.map .guard ++ s.log }

/-- `guard.lease.state()` leaves a lease that is out of time as lost. -/
def readLease (now : Int) (s : State) : State :=
  { s with guard := s.guard.map fun (g : Guard) => { g with lease := g.lease.refresh now } }

/-- `guard.lease.state()` is `Active`. -/
def leaseActive (now : Int) (s : State) : Bool :=
  s.guard.any fun g => g.lease.stateAt now = .active

/-- Drops an `Acquisition`: the guard, then its side of the acceptance channel. -/
def dropAcquisition (o : AcquireOptions) (now : Int) (s : State) : State :=
  { s.guardStep o now .drop with accepted := s.accepted.map Channel.dropTx }

/-- The caller has the guard, or would drop it with its receiver. -/
def callerHolds (s : State) : Bool :=
  s.result.value = some .acquisition || s.caller.inHand

/-- `acquire_internal` ends without a guard and drops what it holds. -/
def leave (o : AcquireOptions) (now : Int) (e : AcquireError) (s : State) : State :=
  let s' := if s.callerHolds then s.dropAcquisition o now else s
  { s' with caller := .returned (.error e), result := s'.result.dropRx }

-- What these leave as it is.

/-- A step of the loop leaves the caller, the channel and the flag alone. -/
theorem goto_keeps (t : Task) (s : State) :
    ((s.goto t).caller = s.caller ∧ (s.goto t).start = s.start) ∧ (s.goto t).result = s.result ∧
      (s.goto t).canceled = s.canceled :=
  ⟨⟨rfl, rfl⟩, rfl, rfl⟩

/-- A check enters what it saw and goes on. -/
theorem check_keeps (a : Action) (t : Task) (s : State) :
    (((s.note a).goto t).caller = s.caller ∧ ((s.note a).goto t).start = s.start) ∧
      ((s.note a).goto t).result = s.result ∧ ((s.note a).goto t).canceled = s.canceled :=
  ⟨⟨rfl, rfl⟩, rfl, rfl⟩

/-- The guard does its steps behind the back of the other two. -/
theorem guardStep_keeps (o : AcquireOptions) (now : Int) (e : GuardEvent) (s : State) :
    (s.guardStep o now e).task = s.task ∧ (s.guardStep o now e).caller = s.caller ∧
      (s.guardStep o now e).start = s.start ∧ (s.guardStep o now e).result = s.result := by
  unfold guardStep
  split <;> exact ⟨rfl, rfl, rfl, rfl⟩

theorem guardStep_canceled (o : AcquireOptions) (now : Int) (e : GuardEvent) (s : State) :
    (s.guardStep o now e).canceled = s.canceled := by
  unfold guardStep
  split <;> rfl

/-- A caller that leaves does not move the loop, and leaves an empty channel. -/
theorem leave_keeps (o : AcquireOptions) (now : Int) (e : AcquireError) (s : State) :
    (s.leave o now e).task = s.task ∧ (s.leave o now e).caller = .returned (.error e) ∧
      (s.leave o now e).start = s.start ∧ (s.leave o now e).result.value = none := by
  unfold leave dropAcquisition guardStep
  dsimp only
  split
  · split <;> exact ⟨rfl, rfl, rfl, rfl⟩
  · exact ⟨rfl, rfl, rfl, rfl⟩

theorem leave_canceled (now : Int) (e : AcquireError) (s : State) :
    (s.leave o now e).canceled = s.canceled := by
  unfold leave dropAcquisition guardStep
  dsimp only
  split
  · split <;> rfl
  · rfl

end State

open State

/-- The next step of `acquire_internal`. -/
def callerStep (o : AcquireOptions) (v : View) (ok : Bool) (s : State) : State :=
  match s.caller with
  | .begin => { s with start := v.now, caller := .checkZero }
  | .checkZero =>
    let zero : Bool := o.lockTimeout = some 0
    (s.note (.saw true .deadline (!zero))).call
      (if zero then .returned (.error .lockTimeout) else .admission)
  -- with a timeout there is a worker thread
  | .admission =>
    if v.hasSender then
      if o.lockTimeout.isSome then s.call .spawning
      else { s with caller := .inLoop, task := .loopCanceled, result := .fresh }
    else s.call (.returned (.error .shutdown))
  | .spawning =>
    if ok then { s with caller := .receiving, task := .loopCanceled, result := .fresh }
    else s.call (.returned (.error .workerError))
  -- `recv_timeout`: a message, `Disconnected`, or `Timeout`
  | .receiving =>
    if ok then
      match s.result.value with
      | some m => { s with result := s.result.take, caller := .checkDeadline m }
      | none => s.leave o v.now .workerError
    else (s.note (.saw true .deadline false)).call (.timedOut none)
  -- the result of the loop that ran here
  | .inLoop =>
    match s.task with
    | .finished .acquisition => { s with task := .done, caller := .finalLease }
    | .finished .nothing => { s with task := .done, caller := .returned (.ok false) }
    | .finished (.failed e) => { s with task := .done, caller := .returned (.error e) }
    | _ => s
  | .checkDeadline m =>
    let late := deadlineElapsed v.now s.start o.lockTimeout
    (s.note (.saw true .deadline (!late))).call
      (if late then .timedOut (some m) else .checkShutdown m)
  -- `cancel_acquisition` sets the flag, and the caller leaves after it
  | .timedOut m => { s with canceled := true, caller := .leaving m }
  | .leaving _ => s.leave o v.now .lockTimeout
  | .checkShutdown m =>
    let s := s.note (.saw true .manager v.isOpen)
    if v.isOpen then s.call (.checkLease m) else s.leave o v.now .shutdown
  -- only a guard has a lease to check
  | .checkLease (.failed e) => s.call (.returned (.error e))
  | .checkLease .nothing => s.call (.returned (.ok false))
  | .checkLease .acquisition =>
    let active := s.leaseActive v.now
    let s := (s.note (.saw true .lease active)).readLease v.now
    if active then s.call .accept else s.leave o v.now .leaseExpired
  | .accept =>
    { s with accepted := s.accepted.map fun ch => (ch.send ()).2, caller := .finalLease }
  -- both paths check the lease once more before they return
  | .finalLease =>
    let active := s.leaseActive v.now
    let s := (s.note (.saw true .lease active)).readLease v.now
    if active then s.call (.returned (.ok true)) else s.leave o v.now .leaseExpired
  | .returned _ => s

/-- `options.lock_timeout().map_or(..)` of the retry. -/
def retryWait (o : AcquireOptions) (now start : Int) : Nat :=
  match o.lockTimeout with
  | none => o.retryInterval
  | some timeout => min o.retryInterval (timeout - elapsed now start)

/-- The next step of `acquire_loop` or of the worker thread. -/
def taskStep (o : AcquireOptions) (once : Bool) (v : View) (ok : Bool) (s : State) : State :=
  match s.task with
  -- the two conditions of the first `if`
  | .loopCanceled =>
    s.goto (if s.canceled then .finished (.failed .lockTimeout) else .loopTimeout)
  | .loopTimeout =>
    let late := deadlineElapsed v.now s.start o.lockTimeout
    (s.note (.saw false .deadline (!late))).goto
      (if late then .finished (.failed .lockTimeout) else .loopShutdown)
  | .loopShutdown =>
    (s.note (.saw false .manager v.isOpen)).goto
      (if v.isOpen then .stamp else .finished (.failed .shutdown))
  | .stamp => s.goto (.checkout v.now)
  -- `checkout` opens a connection if none is idle, which may fail
  | .checkout start => s.goto (if ok then .sending start else .finished (.failed .redisError))
  | .sending start => (s.note (.attempt start)).goto (.acquiring start)
  -- the command may have been applied, so a release is offered
  | .ioError => (s.note .offer).goto (.finished (.failed .redisError))
  -- a success is checked once more, in this order
  | .lateShutdown start =>
    (s.note (.saw false .manager v.isOpen)).goto
      (if v.isOpen then .lateCanceled start else .lateRelease .shutdown)
  | .lateCanceled start =>
    s.goto (if s.canceled then .lateRelease .lockTimeout else .lateTimeout start)
  | .lateTimeout start =>
    let late := deadlineElapsed v.now s.start o.lockTimeout
    (s.note (.saw false .deadline (!late))).goto
      (if late then .lateRelease .lockTimeout else .lateLease start)
  | .lateLease start =>
    let active : Bool := (Lease.new start o.effectiveTtl).stateAt v.now = .active
    (s.note (.saw false .lease active)).goto
      (if active then .newGuard start else .lateRelease .leaseExpired)
  -- `release_lock` on a connection of its own; without one it sends nothing
  | .lateRelease e =>
    (s.note (.release ok)).goto (if ok then .lateReleasing e else .finished (.failed e))
  -- `GuardData::new` fails if the renewal thread cannot be spawned, and drops the guard
  | .newGuard start =>
    let lease := Lease.new start o.effectiveTtl
    if ok || o.effectiveRenewInterval.isNone then
      { s with guard := some (Guard.new o lease start), task := .finished .acquisition }
    else
      let s := { s with guard := some (Guard.unspawned o lease start) }
      (s.guardStep o v.now .drop).goto (.finished (.failed .workerError))
  -- the same checks after contention
  | .contended =>
    (s.note (.saw false .manager v.isOpen)).goto
      (if v.isOpen then .contendedTimeout else .finished (.failed .shutdown))
  | .contendedTimeout =>
    let late := deadlineElapsed v.now s.start o.lockTimeout
    (s.note (.saw false .deadline (!late))).goto
      (if late then .finished (.failed .lockTimeout) else .contendedOnce)
  | .contendedOnce => s.goto (if once then .finished .nothing else .retryWait)
  | .retryWait => s.goto (.parking (retryWait o v.now s.start))
  | .parking wait => s.goto (.waiting v.now wait)
  -- `wait_retry` returns
  | .waiting _ _ => s.goto .loopCanceled
  -- the worker sends the result; a guard that comes back is dropped
  | .finished .acquisition =>
    if s.result.rxAlive then
      { s with
        result := (s.result.send .acquisition).2
        accepted := some .fresh
        log := .result .acquisition :: s.log
        task := .awaitAccepted }
    else ((s.note (.result .acquisition)).guardStep o v.now .drop).goto .cleanup
  | .finished m =>
    { s with result := (s.result.send m).2, log := .result m :: s.log, task := .done }
  -- `accepted_rx.recv()`, an error of which means that nobody took the guard
  | .awaitAccepted =>
    if s.accepted.any fun ch => ch.value = some () then s.goto .done else s.goto .cleanup
  | .cleanup => (s.note (.release ok)).goto (if ok then .cleaning else .done)
  -- no step of its own
  | .unborn => s
  | .acquiring _ => s
  | .lateReleasing _ => s
  | .cleaning => s
  | .done => s

/-- `acquire_loop` receives the reply of `acquire_lock`. -/
def acquireReplied (r : Reply) (s : State) : State :=
  match s.task with
  | .acquiring start =>
    (s.note (.reply start r)).goto
      (match r with
      | .acquired => .lateShutdown start
      | .contended => .contended
      -- only an I/O error leaves the lock in doubt
      | .error io => if io then .ioError else .finished (.failed .redisError))
  | _ => s

/-- A `release_lock` outside the guard returns. -/
def releaseReplied (s : State) : State :=
  match s.task with
  | .lateReleasing e => s.goto (.finished (.failed e))
  | .cleaning => s.goto .done
  | _ => s

/-- What may happen next. A wait on a condition variable ends when its condition holds;
`recv_timeout` ends with a message, a missing sender or the clock. -/
def enabled (o : AcquireOptions) (v : View) (s : State) : Event → Bool
  | .caller ok => match s.caller with
    | .receiving =>
      if ok then s.result.value.isSome || !s.result.txAlive
      else deadlineElapsed v.now s.start o.lockTimeout
    | .inLoop => match s.task with
      | .finished _ => true
      | _ => false
    | .returned _ => false
    | _ => true
  | .task _ => match s.task with
    | .unborn => false
    | .acquiring _ => false
    | .lateReleasing _ => false
    | .cleaning => false
    | .done => false
    -- without a timeout the caller takes the result of the loop
    | .finished _ => o.lockTimeout.isSome
    | .waiting start wait => s.canceled || !v.isOpen || deadlineElapsed v.now start (some wait)
    | .awaitAccepted => s.accepted.any fun ch => ch.value.isSome || !ch.txAlive
    | _ => true
  | .acquireReply _ => match s.task with
    | .acquiring _ => true
    | _ => false
  | .releaseReply _ => match s.task with
    | .lateReleasing _ => true
    | .cleaning => true
    | _ => false
  | .guard e =>
    (s.guard.any fun g => g.enabled .sync v.now e) &&
      (!e.byOwner || s.caller = .returned (.ok true))

/-- The step of an event. A reply to a renewal is noted with the stamp of its command. -/
def next (o : AcquireOptions) (once : Bool) (v : View) (s : State) : Event → State
  | .caller ok => callerStep o v ok s
  | .task ok => taskStep o once v ok s
  | .acquireReply r => acquireReplied r s
  | .releaseReply _ => releaseReplied s
  | .guard e =>
    let s := match e, s.guard.map (·.renewal) with
      | .renewReply r, some (.renewing start) => s.note (.renewReply start r)
      | _, _ => s
    s.guardStep o v.now e

/-- The renewal loop and the owner of the guard change the guard and the history only. -/
theorem next_guard_keeps (o : AcquireOptions) (once : Bool) (v : View) (s : State)
    (e : GuardEvent) :
    ((next o once v s (.guard e)).caller = s.caller ∧
      (next o once v s (.guard e)).start = s.start) ∧
    ((next o once v s (.guard e)).result = s.result ∧
      (next o once v s (.guard e)).canceled = s.canceled) ∧
    (next o once v s (.guard e)).task = s.task := by
  unfold next State.guardStep
  dsimp only
  repeat' split
  all_goals exact ⟨⟨rfl, rfl⟩, ⟨rfl, rfl⟩, rfl⟩

/-- The acquisition as a machine; `once` asks for a single attempt. -/
def acquisition (o : AcquireOptions) (once : Bool) : Machine State (View × Event) where
  init s := s = .initial
  enabled s e := enabled o e.1 s e.2 = true
  next s e := next o once e.1 s e.2

instance (o : AcquireOptions) (once : Bool) (s : State) (e : View × Event) :
    Decidable ((acquisition o once).enabled s e) :=
  inferInstanceAs (Decidable (enabled o e.1 s e.2 = true))

end RLock.Sync
