import RLock.Manager.Queue
import RLock.Lib.Machine
import Mathlib.Logic.Function.Basic

/-!
# RLock — the sync manager and its shutdown

The lock with the release sender, the shutdown flag, the release worker, the
result that concurrent `shutdown()` calls wait for, and any number of such calls.
A call that finds the result `false` panics while it holds the mutex of the
result, which poisons it for the others.

Every call sets the flag while it holds the lock, and wakes those who wait for a retry
after it. The one that found the sender goes on alone: it sends the barrier, waits for
the answer and stores what it learned. The others read the result, or sleep until it is
there. What is known of each call is `CallOk`, and `Inv` ties the calls together: one
of them leads, the queue has no barrier before it sent one, and a result `true` is only
stored when the worker has finished the barrier.

## Results

* `Inv.step` — every event keeps the invariant.
* `Inv.result_kept` — the result is set once.
* `Inv.returned_drained` — a call returns only when everything before the barrier
  is finished.
-/

namespace RLock.Sync

open RLock.Manager

/-- Where one `shutdown()` call stands; `leads` tells whether it took the sender. -/
inductive Call
  | idle
  /-- the lock of the sender is held, the flag is next -/
  | taken (leads : Bool)
  /-- the flag is set, `retry_wake.notify_all()` is next -/
  | waking (leads : Bool)
  /-- in `send(Barrier)` -/
  | sending
  /-- in `ack_rx.recv()` -/
  | awaiting
  | storing (complete : Bool)
  /-- the mutex of the result is next -/
  | reading
  /-- in `shutdown_done.wait` -/
  | waiting
  | returned
  | panicked
  deriving DecidableEq, Repr

/-- The call has the sender, or has not stored its result yet. -/
def Call.leads : Call → Bool
  | .taken leads => leads
  | .waking leads => leads
  | .sending => true
  | .awaiting => true
  | .storing _ => true
  | _ => false

namespace Manager

/-- The manager, and the calls that shut it down. -/
structure State (ρ : Type) where
  /-- the sender in `release_tx` -/
  hasSender : Bool
  /-- the call that holds the lock of `release_tx` -/
  lock : Option Nat
  isShutdown : Bool
  queue : Queue ρ
  /-- `shutdown_result` -/
  result : Option Bool
  poisoned : Bool
  calls : Nat → Call

/-- Who takes a step. Releases come from outside. -/
inductive Event (ρ : Type)
  | call (i : Nat)
  | worker (e : Queue.WorkerEvent)
  /-- a release is offered, by a dropped guard or by `acquire_loop` -/
  | offer (request : ρ)
  deriving DecidableEq, Repr

variable {ρ : Type}

/-- A manager as `new` leaves it. -/
def initial : State ρ where
  hasSender := true
  lock := none
  isShutdown := false
  queue := .empty
  result := none
  poisoned := false
  calls _ := .idle

/-- Call `i` goes on to `c`. -/
def State.setCall (i : Nat) (c : Call) (s : State ρ) : State ρ :=
  { s with calls := Function.update s.calls i c }

/-- The next step of `shutdown()`. -/
def callStep (i : Nat) (s : State ρ) : State ρ :=
  match s.calls i with
  | .idle => { s.setCall i (.taken s.hasSender) with hasSender := false, lock := some i }
  | .taken leads => { s.setCall i (.waking leads) with isShutdown := true, lock := none }
  | .waking leads => s.setCall i (if leads then .sending else .reading)
  | .sending =>
    if s.queue.closed then s.setCall i (.storing false)
    else { s.setCall i .awaiting with queue := s.queue.sendBarrier }
  | .awaiting => s.setCall i (.storing s.queue.acked)
  | .storing complete =>
    if s.poisoned then s.setCall i .panicked
    else { s.setCall i .reading with result := some complete }
  | .reading =>
    if s.poisoned then s.setCall i .panicked
    else match s.result with
      | none => s.setCall i .waiting
      | some true => s.setCall i .returned
      -- `assert_eq!` panics with the mutex held
      | some false => { s.setCall i .panicked with poisoned := true }
  | .waiting => s.setCall i .reading
  | .returned => s
  | .panicked => s

/-- What may happen next. A call waits for the lock, for room in the queue or for an answer;
`shutdown_done.wait` may return at any time. -/
def enabled (s : State ρ) : Event ρ → Bool
  | .call i => match s.calls i with
    | .idle => s.lock = none
    | .sending => s.queue.closed || !s.queue.full
    | .awaiting => s.queue.acked || s.queue.unacked
    | .returned => false
    | .panicked => false
    | _ => true
  -- the manager and the leading call hold senders until the result is set
  | .worker e => s.queue.enabled s.result.isSome e
  | .offer _ => true

/-- The step of an event. -/
def next (s : State ρ) : Event ρ → State ρ
  | .call i => callStep i s
  | .worker e => { s with queue := s.queue.next e }
  | .offer request => { s with queue := s.queue.offer request }

/-- The manager as a machine, over the requests `ρ`. -/
def machine (ρ : Type) [DecidableEq ρ] : Machine (State ρ) (Event ρ) where
  init s := s = initial
  enabled s e := enabled s e = true
  next := next

instance (ρ : Type) [DecidableEq ρ] (s : State ρ) (e : Event ρ) :
    Decidable ((machine ρ).enabled s e) :=
  inferInstanceAs (Decidable (enabled s e = true))

-- ---------------------------------------------------------------------------
-- The invariant
-- ---------------------------------------------------------------------------

/-- What is known of a single call. -/
def CallOk (s : State ρ) : Call → Prop
  | .taken true => s.queue.ack = none
  | .waking true => s.queue.ack = none
  | .sending => s.queue.ack = none
  | .storing true => .barrier ∈ s.queue.finished
  | .returned => s.result = some true
  | .panicked => s.result = some false
  | _ => True

/-- What holds in every reachable manager. -/
structure Inv [DecidableEq ρ] (s : State ρ) : Prop where
  queue : s.queue.Ok
  /-- until the sender is taken nothing is on its way -/
  fresh : s.hasSender = true →
    s.queue.ack = none ∧ s.result = none ∧ ∀ i, (s.calls i).leads = false
  leader : ∀ i, (s.calls i).leads = true →
    s.result = none ∧ ∀ j, (s.calls j).leads = true → j = i
  call : ∀ i, CallOk s (s.calls i)
  result : s.result = some true → .barrier ∈ s.queue.finished
  poisoned : s.poisoned = true → s.result = some false

section

variable [DecidableEq ρ] {s : State ρ}

/-- A new manager has its sender, an empty queue and no result. -/
theorem inv_initial : Inv (initial : State ρ) where
  queue := Queue.ok_empty
  fresh _ := ⟨rfl, rfl, fun _ => rfl⟩
  leader _ h := nomatch h
  call _ := trivial
  result h := nomatch h
  poisoned h := nomatch h

theorem Inv.setCall (h : Inv s) {i : Nat} {c : Call} (hNew : c.leads = false) (hOk : CallOk s c) :
    Inv (s.setCall i c) := by
  -- moving on, it does not come to lead
  have hLeads : ∀ j, (Function.update s.calls i c j).leads = true → (s.calls j).leads = true := by
    intro j hj
    rw [Function.update_apply] at hj
    split at hj
    · rw [hNew] at hj
      cases hj
    · exact hj
  refine ⟨h.queue, ?_, ?_, ?_, h.result, h.poisoned⟩
  · intro hSender
    obtain ⟨hAck, hResult, hNone⟩ := h.fresh hSender
    refine ⟨hAck, hResult, fun j => ?_⟩
    cases hj : (Function.update s.calls i c j).leads with
    | false => exact hj
    | true => exact absurd (hLeads j hj) (by simp [hNone j])
  · intro j hj
    obtain ⟨hResult, hOnly⟩ := h.leader j (hLeads j hj)
    exact ⟨hResult, fun k hk => hOnly k (hLeads k hk)⟩
  · intro j
    show CallOk s (Function.update s.calls i c j)
    rw [Function.update_apply]
    split
    · exact hOk
    · exact h.call j

/-- The leading call moves on and still leads. -/
theorem Inv.setLeader (h : Inv s) {i : Nat} {c : Call} (hLeads : (s.calls i).leads = true)
    (hOk : CallOk s c) : Inv (s.setCall i c) := by
  obtain ⟨hResult, hOnly⟩ := h.leader i hLeads
  -- it led before
  have hOld : ∀ j, (Function.update s.calls i c j).leads = true → (s.calls j).leads = true := by
    intro j hj
    rw [Function.update_apply] at hj
    split at hj
    · rename_i hEq
      rw [hEq]
      exact hLeads
    · exact hj
  refine ⟨h.queue, ?_, ?_, ?_, h.result, h.poisoned⟩
  · intro hSender
    rw [(h.fresh hSender).2.2 i] at hLeads
    cases hLeads
  · intro j hj
    refine ⟨hResult, fun k hk => ?_⟩
    rw [hOnly k (hOld k hk), hOnly j (hOld j hj)]
  · intro j
    show CallOk s (Function.update s.calls i c j)
    rw [Function.update_apply]
    split
    · exact hOk
    · exact h.call j

/-- A call takes what the lock holds; the first one takes the sender. -/
theorem Inv.takeSender (h : Inv s) (i : Nat) :
    Inv { s.setCall i (.taken s.hasSender) with hasSender := false, lock := some i } := by
  cases hSender : s.hasSender with
  | false =>
    have hCall := h.setCall (i := i) (c := .taken false) rfl trivial
    exact ⟨hCall.queue, nofun, hCall.leader, hCall.call, hCall.result, hCall.poisoned⟩
  | true =>
    obtain ⟨hAck, hResult, hNone⟩ := h.fresh hSender
    refine ⟨h.queue, nofun, ?_, ?_, h.result, h.poisoned⟩
    · have hOnly : ∀ j, (Function.update s.calls i (.taken true) j).leads = true → j = i := by
        intro j hj
        rw [Function.update_apply] at hj
        split at hj
        · assumption
        · rw [hNone j] at hj
          cases hj
      intro j hj
      refine ⟨hResult, fun k hk => ?_⟩
      rw [hOnly j hj, hOnly k hk]
    · intro j
      show CallOk s (Function.update s.calls i (.taken true) j)
      rw [Function.update_apply]
      split
      · exact hAck
      · exact h.call j

theorem Inv.sendBarrier (h : Inv s) {i : Nat} (hCall : s.calls i = .sending)
    (hOpen : s.queue.closed = false) :
    Inv { s.setCall i .awaiting with queue := s.queue.sendBarrier } := by
  have hLeads : (s.calls i).leads = true := by rw [hCall]; rfl
  have hAck : s.queue.ack = none := by
    have := h.call i
    rwa [hCall] at this
  obtain ⟨-, hOnly⟩ := h.leader i hLeads
  have hBase := h.setLeader (i := i) (c := .awaiting) hLeads trivial
  refine ⟨h.queue.sendBarrier hOpen hAck, ?_, hBase.leader, ?_, h.result, h.poisoned⟩
  · intro hSender
    rw [(h.fresh hSender).2.2 i] at hLeads
    cases hLeads
  · intro j
    show CallOk _ (Function.update s.calls i .awaiting j)
    rw [Function.update_apply]
    split
    · trivial
    · -- nobody else leads, so nobody else relies on the missing channel
      rename_i hNe
      have hFollows : (s.calls j).leads = false := by
        cases hj : (s.calls j).leads with
        | false => rfl
        | true => exact absurd (hOnly j hj) hNe
      have hj := h.call j
      cases hState : s.calls j with
      | taken leads =>
        rw [hState] at hFollows
        rw [show leads = false from hFollows]
        trivial
      | waking leads =>
        rw [hState] at hFollows
        rw [show leads = false from hFollows]
        trivial
      | sending | storing complete =>
        rw [hState] at hFollows
        cases hFollows
      | returned | panicked =>
        rw [hState] at hj
        exact hj
      | idle | awaiting | reading | waiting => trivial

theorem Inv.store (h : Inv s) {i : Nat} {complete : Bool} (hCall : s.calls i = .storing complete) :
    Inv { s.setCall i .reading with result := some complete } := by
  obtain ⟨hResult, hOnly⟩ := h.leader i (by rw [hCall]; rfl)
  have hNone : ∀ j, (Function.update s.calls i .reading j).leads = false := by
    intro j
    rw [Function.update_apply]
    split
    · rfl
    · rename_i hNe
      cases hj : (s.calls j).leads with
      | false => rfl
      | true => exact absurd (hOnly j hj) hNe
  refine ⟨h.queue, ?_, ?_, ?_, ?_, ?_⟩
  · intro hSender
    have hNo := (h.fresh hSender).2.2 i
    rw [hCall] at hNo
    cases hNo
  · intro j hj
    exact absurd ((hNone j).symm.trans hj) nofun
  · intro j
    have hj := h.call j
    show CallOk _ (Function.update s.calls i .reading j)
    rw [Function.update_apply]
    split
    · trivial
    · cases hState : s.calls j with
      | returned | panicked =>
        -- they would have read a result
        rw [hState] at hj
        exact absurd (hResult.symm.trans hj) nofun
      | taken leads | waking leads | storing leads =>
        rw [hState] at hj
        cases leads with
        | true => exact hj
        | false => trivial
      | sending =>
        rw [hState] at hj
        exact hj
      | idle | awaiting | reading | waiting => trivial
  · intro hComplete
    have hi := h.call i
    rw [hCall, Option.some.inj hComplete] at hi
    exact hi
  · intro hPoisoned
    exact absurd (hResult.symm.trans (h.poisoned hPoisoned)) nofun

/-- **Every step of a `shutdown()` call keeps the invariant.** -/
theorem Inv.callStep (h : Inv s) {i : Nat} : Inv (callStep i s) := by
  have hi := h.call i
  unfold Manager.callStep
  cases hCall : s.calls i with
  | idle => exact h.takeSender i
  | taken leads =>
    have hNext : Inv (s.setCall i (.waking leads)) := by
      cases leads with
      | true => exact h.setLeader (by rw [hCall]; rfl) (by rw [hCall] at hi; exact hi)
      | false => exact h.setCall rfl trivial
    exact ⟨hNext.queue, hNext.fresh, hNext.leader, hNext.call, hNext.result, hNext.poisoned⟩
  | waking leads =>
    cases leads with
    | true => exact h.setLeader (by rw [hCall]; rfl) (by rw [hCall] at hi; exact hi)
    | false => exact h.setCall rfl trivial
  | sending =>
    dsimp only
    split
    · exact h.setLeader (by rw [hCall]; rfl) trivial
    · rename_i hOpen
      exact h.sendBarrier hCall (by simpa using hOpen)
  | awaiting =>
    refine h.setLeader (by rw [hCall]; rfl) ?_
    -- an answer means that the worker had finished the barrier
    cases hAcked : s.queue.acked with
    | true => exact h.queue.acked hAcked
    | false => trivial
  | storing complete =>
    dsimp only
    split
    · exact h.setCall rfl (h.poisoned ‹_›)
    · exact h.store hCall
  | reading =>
    dsimp only
    split
    · exact h.setCall rfl (h.poisoned ‹_›)
    · split
      · exact h.setCall rfl trivial
      · exact h.setCall rfl ‹_›
      -- `assert_eq!` fails, and the mutex is poisoned
      · rename_i hFalse
        have hNext := h.setCall (i := i) (c := .panicked) rfl hFalse
        exact ⟨hNext.queue, hNext.fresh, hNext.leader, hNext.call, hNext.result, fun _ => hFalse⟩
  | waiting => exact h.setCall rfl trivial
  | returned | panicked => exact h

omit [DecidableEq ρ] in
/-- What is known of a call outlives a change of the queue. -/
theorem CallOk.withQueue {c : Call} {q : Queue ρ} (h : CallOk s c)
    (hAck : s.queue.ack = none → q.ack = none)
    (hFinished : .barrier ∈ s.queue.finished → .barrier ∈ q.finished) :
    CallOk { s with queue := q } c := by
  cases c with
  | taken leads | waking leads =>
    cases leads with
    | true => exact hAck h
    | false => trivial
  | sending => exact hAck h
  | storing complete =>
    cases complete with
    | true => exact hFinished h
    | false => trivial
  | returned | panicked => exact h
  | idle | awaiting | reading | waiting => trivial

/-- **Every event keeps the invariant.** -/
theorem Inv.step (h : Inv s) {e : Event ρ} (hEn : enabled s e = true) : Inv (next s e) := by
  cases e with
  | call i => exact h.callStep
  | worker e =>
    have hAck : s.queue.ack = none → (s.queue.next e).ack = none := fun hA =>
      Queue.next_ack_none hA e
    have hFinished := fun hF : .barrier ∈ s.queue.finished => Queue.mem_finished_next hF e
    refine ⟨h.queue.next hEn, ?_, h.leader, ?_, ?_, h.poisoned⟩
    · intro hSender
      obtain ⟨hNone, hRest⟩ := h.fresh hSender
      exact ⟨hAck hNone, hRest⟩
    · exact fun i => (h.call i).withQueue hAck hFinished
    · exact fun hResult => hFinished (h.result hResult)
  | offer request =>
    have hAck := Queue.offer_ack request s.queue
    have hFinished := Queue.offer_finished request s.queue
    refine ⟨h.queue.offer request, ?_, h.leader, ?_, ?_, h.poisoned⟩
    · intro hSender
      obtain ⟨hNone, hRest⟩ := h.fresh hSender
      exact ⟨hAck.trans hNone, hRest⟩
    · exact fun i => (h.call i).withQueue (fun hA => hAck.trans hA) (fun hF => hFinished ▸ hF)
    · intro hResult
      show _ ∈ (s.queue.offer request).finished
      rw [hFinished]
      exact h.result hResult

/-- **A result that is set stays.** -/
theorem Inv.result_kept (h : Inv s) {complete : Bool} (hResult : s.result = some complete)
    (e : Event ρ) : (next s e).result = some complete := by
  cases e with
  | call i =>
    show (Manager.callStep i s).result = _
    unfold Manager.callStep
    cases hCall : s.calls i with
    | storing other =>
      exact absurd ((h.leader i (by rw [hCall]; rfl)).1.symm.trans hResult) nofun
    | sending =>
      dsimp only
      split <;> exact hResult
    | reading =>
      dsimp only
      split
      · exact hResult
      · split <;> exact hResult
    | idle | taken leads | waking leads | awaiting | waiting | returned | panicked => exact hResult
  | worker e | offer request => exact hResult

theorem inv_of_reachable {s : State ρ} (h : (machine ρ).Reachable s) : Inv s :=
  h.invariant (fun _ hInit => hInit ▸ inv_initial) fun _ _ hInv hEn => hInv.step hEn

/-- **A call that returned** has read `true`, so all that was queued before the barrier is finished.
-/
theorem Inv.returned_drained (h : Inv s) {i : Nat} (hReturned : s.calls i = .returned) :
    s.queue.Drained := by
  have hi := h.call i
  rw [hReturned] at hi
  exact h.queue.drained (h.result hi)

end

end Manager

end RLock.Sync
