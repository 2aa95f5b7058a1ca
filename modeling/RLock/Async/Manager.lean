import RLock.Manager.Queue
import RLock.Lib.Machine
import Mathlib.Logic.Function.Basic

/-!
# RLock — the async manager and its shutdown

The admission lock with the release sender, the watch value, the release worker
with its watcher, the barrier coordinator, and any number of `shutdown()` calls,
each of which can be cancelled where it waits.

The first call that finds a sender under the lock leads: it moves the state out of
`Open` while it still holds the lock, spawns the coordinator, and then reads the watch
value like everybody else. From its seal on no acquisition gets past its admission.
The coordinator sends the barrier and waits for the answer, so that what was in the
queue before the barrier is done when it settles the state. The watcher settles it as
well, when the worker is gone. The acquisitions and the guards are outside of this
machine; they take and leave the lock and offer releases whenever they like.

`Inv` has a clause for each of these parts: who may lead, what the state may be while
the sender is taken or the barrier on its way, and what a call that has ended has read.

## Results

* `Inv.step` — every event keeps the invariant.
* `Inv.moves` — how one event may change the shutdown state.
* `Inv.returned_drained` — a call returns only when everything before the barrier
  is finished.
-/

namespace RLock.Async

open RLock.Manager

/-- The watch value. -/
inductive ShutdownState
  | opened | closing | completed | failed
  deriving DecidableEq, Repr

/-- Who holds the admission lock. -/
inductive Holder
  | shutdown (call : Nat)
  | handoff (acquisition : Nat)
  deriving DecidableEq, Repr

/-- Where one `shutdown()` call stands. -/
inductive Call
  | idle
  /-- subscribed, the admission lock is next -/
  | locking
  /-- it took the sender -/
  | taken
  /-- the state is no longer `Open`, the coordinator is to be spawned -/
  | sealed
  /-- `borrow_and_update` is next -/
  | reading
  /-- in `changed()`; only here can the call be cancelled -/
  | parked
  | returned
  | panicked
  | cancelled
  deriving DecidableEq, Repr

/-- The call has the sender and the admission lock. -/
def Call.leads (c : Call) : Prop := c = .taken ∨ c = .sealed

/-- Where the task that `shutdown` spawned stands. -/
inductive Coordinator
  | unborn
  /-- in `send(Barrier)` -/
  | sending
  /-- in `ack_rx` -/
  | awaiting
  | updating (completed : Bool)
  | done
  deriving DecidableEq, Repr

namespace Manager

/-- The manager, and the tasks that belong to it. -/
structure State (ρ : Type) where
  /-- the sender in `admission` -/
  hasSender : Bool
  lock : Option Holder
  shutdown : ShutdownState
  queue : Queue ρ
  coordinator : Coordinator
  /-- the watcher of the worker has updated the state -/
  watched : Bool
  calls : Nat → Call

/-- Who takes a step. The handoff of an acquisition and the drop of a guard come from outside. -/
inductive Event (ρ : Type)
  | call (i : Nat)
  | cancel (i : Nat)
  | coordinator
  | watch
  | worker (e : Queue.WorkerEvent)
  /-- a guard is dropped -/
  | offer (request : ρ)
  /-- an acquisition takes the admission lock for its handoff, or leaves it -/
  | lock (acquisition : Nat)
  | unlock (acquisition : Nat)
  deriving DecidableEq, Repr

variable {ρ : Type}

/-- A manager as `new` leaves it. -/
def initial : State ρ where
  hasSender := true
  lock := none
  shutdown := .opened
  queue := .empty
  coordinator := .unborn
  watched := false
  calls _ := .idle

/-- `is_open` -/
def State.isOpen (s : State ρ) : Bool := s.shutdown = .opened

/-- Call `i` goes on to `c`. -/
def State.setCall (i : Nat) (c : Call) (s : State ρ) : State ρ :=
  { s with calls := Function.update s.calls i c }

/-- The next step of `shutdown()`. -/
def callStep (i : Nat) (s : State ρ) : State ρ :=
  match s.calls i with
  | .idle => s.setCall i .locking
  | .locking =>
    if s.hasSender then { s.setCall i .taken with hasSender := false, lock := some (.shutdown i) }
    else s.setCall i .reading
  | .taken =>
    { s.setCall i .sealed with
      shutdown := if s.shutdown = .opened then .closing else s.shutdown }
  | .sealed => { s.setCall i .reading with coordinator := .sending, lock := none }
  | .reading =>
    match s.shutdown with
    | .completed => s.setCall i .returned
    | .failed => s.setCall i .panicked
    | .opened => s.setCall i .parked
    | .closing => s.setCall i .parked
  | .parked => s.setCall i .reading
  | .returned => s
  | .panicked => s
  | .cancelled => s

/-- The next step of the coordinator. -/
def coordinatorStep (s : State ρ) : State ρ :=
  match s.coordinator with
  | .sending =>
    if s.queue.closed then { s with coordinator := .updating false }
    else { s with coordinator := .awaiting, queue := s.queue.sendBarrier }
  | .awaiting => { s with coordinator := .updating s.queue.acked }
  | .updating completed =>
    { s with
      coordinator := .done
      shutdown :=
        if s.shutdown = .failed then .failed
        else if completed then .completed else .failed }
  | .unborn => s
  | .done => s

/-- What may happen next. A call waits for the lock, the coordinator for room in the queue and then
for an answer, and everybody else for nothing. -/
def enabled (s : State ρ) : Event ρ → Bool
  | .call i => match s.calls i with
    | .locking => s.lock = none
    | .returned => false
    | .panicked => false
    | .cancelled => false
    | _ => true
  | .cancel i => s.calls i = .parked
  | .coordinator => match s.coordinator with
    | .unborn => false
    | .sending => s.queue.closed || !s.queue.full
    | .awaiting => s.queue.acked || s.queue.unacked
    | .updating _ => true
    | .done => false
  | .watch => s.queue.dead && !s.watched
  -- the manager and its coordinator hold senders until the coordinator is done
  | .worker e => s.queue.enabled (s.coordinator = .done) e
  | .offer _ => true
  | .lock _ => s.lock = none
  | .unlock j => s.lock = some (.handoff j)

/-- The step of an event. -/
def next (s : State ρ) : Event ρ → State ρ
  | .call i => callStep i s
  | .cancel i => s.setCall i .cancelled
  | .coordinator => coordinatorStep s
  | .watch =>
    { s with
      watched := true
      shutdown := if s.shutdown = .completed then .completed else .failed }
  | .worker e => { s with queue := s.queue.next e }
  | .offer request => { s with queue := s.queue.offer request }
  | .lock j => { s with lock := some (.handoff j) }
  | .unlock _ => { s with lock := none }

/-- The manager as a machine, over the requests `ρ`. -/
def machine (ρ : Type) [DecidableEq ρ] : Machine (State ρ) (Event ρ) where
  init s := s = initial
  enabled s e := enabled s e = true
  next := next

instance (ρ : Type) [DecidableEq ρ] (s : State ρ) (e : Event ρ) :
    Decidable ((machine ρ).enabled s e) :=
  inferInstanceAs (Decidable (enabled s e = true))

-- ---------------------------------------------------------------------------
-- The invariant
-- ---------------------------------------------------------------------------

/-- What holds in every reachable manager. -/
structure Inv [DecidableEq ρ] (s : State ρ) : Prop where
  queue : s.queue.Ok
  /-- until the sender is taken nothing is on its way -/
  fresh : s.hasSender = true → s.coordinator = .unborn ∧ ∀ i, ¬(s.calls i).leads
  leader : ∀ i, (s.calls i).leads →
    s.coordinator = .unborn ∧ ∀ j, (s.calls j).leads → j = i
  unsent : s.coordinator = .unborn ∨ s.coordinator = .sending → s.queue.ack = none
  closing : (∃ i, s.calls i = .sealed) ∨ s.coordinator ≠ .unborn → s.shutdown ≠ .opened
  opened : s.coordinator ≠ .done → s.shutdown ≠ .completed
  barrier : s.coordinator = .updating true ∨ s.shutdown = .completed → .barrier ∈ s.queue.finished
  returned : ∀ i, s.calls i = .returned → s.shutdown = .completed
  panicked : ∀ i, s.calls i = .panicked → s.shutdown = .failed

/-- What a step may do to the shutdown state. -/
inductive Moves : ShutdownState → ShutdownState → Prop
  | stay (a : ShutdownState) : Moves a a
  | close : Moves .opened .closing
  | complete : Moves .closing .completed
  | fail : Moves .closing .failed
  | crash : Moves .opened .failed

section

variable [DecidableEq ρ] {s : State ρ}

/-- Where a call stands that was not just moved there it stood before. -/
theorem calls_of_update {calls : Nat → Call} {i j : Nat} {c x : Call} (hX : x ≠ c)
    (hj : Function.update calls i c j = x) : j ≠ i ∧ calls j = x := by
  rw [Function.update_apply] at hj
  split at hj
  · exact absurd hj.symm hX
  · exact ⟨by assumption, hj⟩

/-- A new manager is open, with its sender and an empty queue. -/
theorem inv_initial : Inv (initial : State ρ) where
  queue := Queue.ok_empty
  fresh _ := ⟨rfl, fun _ hNo => by rcases hNo with hNo | hNo <;> cases hNo⟩
  leader _ hNo := by rcases hNo with hNo | hNo <;> cases hNo
  unsent _ := rfl
  closing hNo := by
    rcases hNo with ⟨_, hNo⟩ | hNo
    · cases hNo
    · exact absurd rfl hNo
  opened _ := nofun
  barrier hNo := by rcases hNo with hNo | hNo <;> cases hNo
  returned _ hNo := nomatch hNo
  panicked _ hNo := nomatch hNo

/-- A call moves on outside the part that has the sender. -/
theorem Inv.setCall (h : Inv s) {i : Nat} {c : Call} (hNew : ¬c.leads)
    (hReturned : c = .returned → s.shutdown = .completed)
    (hPanicked : c = .panicked → s.shutdown = .failed) : Inv (s.setCall i c) := by
  -- moving on, it does not come to lead
  have hLeads : ∀ j, (Function.update s.calls i c j).leads → (s.calls j).leads := by
    intro j hj
    rw [Function.update_apply] at hj
    split at hj
    · exact absurd hj hNew
    · exact hj
  refine ⟨h.queue, ?_, ?_, h.unsent, ?_, h.opened, h.barrier, ?_, ?_⟩
  · intro hSender
    obtain ⟨hUnborn, hNone⟩ := h.fresh hSender
    exact ⟨hUnborn, fun j hj => hNone j (hLeads j hj)⟩
  · intro j hj
    obtain ⟨hUnborn, hOnly⟩ := h.leader j (hLeads j hj)
    exact ⟨hUnborn, fun k hk => hOnly k (hLeads k hk)⟩
  · rintro (⟨j, hj⟩ | hCoordinator)
    · exact h.closing (Or.inl ⟨j, (calls_of_update (fun hC => hNew (Or.inr hC.symm)) hj).2⟩)
    · exact h.closing (Or.inr hCoordinator)
  · intro j hj
    have hj : Function.update s.calls i c j = .returned := hj
    rw [Function.update_apply] at hj
    split at hj
    · exact hReturned hj
    · exact h.returned j hj
  · intro j hj
    have hj : Function.update s.calls i c j = .panicked := hj
    rw [Function.update_apply] at hj
    split at hj
    · exact hPanicked hj
    · exact h.panicked j hj

/-- A call takes the sender; it is the only one that ever does. -/
theorem Inv.takeSender (h : Inv s) {i : Nat} (hSender : s.hasSender = true) :
    Inv { s.setCall i .taken with hasSender := false, lock := some (.shutdown i) } := by
  obtain ⟨hUnborn, hNone⟩ := h.fresh hSender
  refine ⟨h.queue, nofun, ?_, h.unsent, ?_, h.opened, h.barrier, ?_, ?_⟩
  -- it was the first to find the sender, so it leads alone
  · have hOnly : ∀ j, (Function.update s.calls i .taken j).leads → j = i := by
      intro j hj
      rw [Function.update_apply] at hj
      split at hj
      · assumption
      · exact absurd hj (hNone j)
    intro j hj
    refine ⟨hUnborn, fun k hk => ?_⟩
    rw [hOnly j hj, hOnly k hk]
  · rintro (⟨j, hj⟩ | hNo)
    · exact absurd (Or.inr (calls_of_update (by simp) hj).2) (hNone j)
    · exact absurd hUnborn hNo
  · exact fun j hj => h.returned j (calls_of_update (by simp) hj).2
  · exact fun j hj => h.panicked j (calls_of_update (by simp) hj).2

/-- The call with the sender moves the state out of `Open`. -/
theorem Inv.seal (h : Inv s) {i : Nat} (hCall : s.calls i = .taken) :
    Inv { s.setCall i .sealed with
      shutdown := if s.shutdown = .opened then .closing else s.shutdown } := by
  obtain ⟨hUnborn, hOnly⟩ := h.leader i (Or.inl hCall)
  -- nobody has settled the state while there is no coordinator
  have hNotDone : s.shutdown ≠ .completed := h.opened (by rw [hUnborn]; decide)
  have hLeads : ∀ j, (Function.update s.calls i .sealed j).leads → (s.calls j).leads := by
    intro j hj
    rw [Function.update_apply] at hj
    split at hj
    · rename_i hEq
      rw [hEq]
      exact Or.inl hCall
    · exact hj
  refine ⟨h.queue, ?_, ?_, h.unsent, ?_, ?_, ?_, ?_, ?_⟩
  · intro hSender
    exact absurd (Or.inl hCall) ((h.fresh hSender).2 i)
  · exact fun j hj => ⟨hUnborn, fun k hk => by rw [hOnly k (hLeads k hk), hOnly j (hLeads j hj)]⟩
  · intro _
    dsimp only
    split
    · decide
    · assumption
  · intro _
    dsimp only
    split
    · decide
    · exact hNotDone
  · rintro (hNo | hNo)
    · exact absurd (hUnborn.symm.trans hNo) (by decide)
    · dsimp only at hNo
      split at hNo
      · cases hNo
      · exact absurd hNo hNotDone
  · intro j hj
    exact absurd (h.returned j (calls_of_update (by simp) hj).2) hNotDone
  · intro j hj
    have hFailed := h.panicked j (calls_of_update (by simp) hj).2
    dsimp only
    rw [hFailed, if_neg (by decide)]

/-- The coordinator is spawned and the admission lock released. -/
theorem Inv.spawn (h : Inv s) {i : Nat} (hCall : s.calls i = .sealed) :
    Inv { s.setCall i .reading with coordinator := .sending, lock := none } := by
  obtain ⟨hUnborn, hOnly⟩ := h.leader i (Or.inr hCall)
  -- it leads no more, and nobody else did
  have hNone : ∀ j, ¬(Function.update s.calls i .reading j).leads := by
    rintro j (hj | hj)
    · obtain ⟨hNe, hj⟩ := calls_of_update (by simp) hj
      exact hNe (hOnly j (Or.inl hj))
    · obtain ⟨hNe, hj⟩ := calls_of_update (by simp) hj
      exact hNe (hOnly j (Or.inr hj))
  refine ⟨h.queue, ?_, ?_, fun _ => h.unsent (Or.inl hUnborn), ?_, ?_, ?_, ?_, ?_⟩
  · intro hSender
    exact absurd (Or.inr hCall) ((h.fresh hSender).2 i)
  · exact fun j hj => absurd hj (hNone j)
  · exact fun _ => h.closing (Or.inl ⟨i, hCall⟩)
  · exact fun _ => h.opened (by rw [hUnborn]; decide)
  · rintro (hNo | hDone)
    · cases hNo
    · exact h.barrier (Or.inr hDone)
  · exact fun j hj => h.returned j (calls_of_update (by simp) hj).2
  · exact fun j hj => h.panicked j (calls_of_update (by simp) hj).2

/-- **Every step of a `shutdown()` call keeps the invariant.** -/
theorem Inv.callStep (h : Inv s) (i : Nat) : Inv (callStep i s) := by
  unfold Manager.callStep
  cases hCall : s.calls i with
  | idle => exact h.setCall (by simp [Call.leads]) nofun nofun
  | locking =>
    dsimp only
    split
    · exact h.takeSender ‹_›
    · exact h.setCall (by simp [Call.leads]) nofun nofun
  | taken => exact h.seal hCall
  | sealed => exact h.spawn hCall
  | reading =>
    dsimp only
    split
    · exact h.setCall (by simp [Call.leads]) (fun _ => ‹_›) nofun
    · exact h.setCall (by simp [Call.leads]) nofun (fun _ => ‹_›)
    · exact h.setCall (by simp [Call.leads]) nofun nofun
    · exact h.setCall (by simp [Call.leads]) nofun nofun
  | parked => exact h.setCall (by simp [Call.leads]) nofun nofun
  | returned | panicked | cancelled => exact h

/-- **Every step of the coordinator keeps the invariant.** -/
theorem Inv.coordinatorStep (h : Inv s) : Inv (coordinatorStep s) := by
  unfold Manager.coordinatorStep
  cases hCoordinator : s.coordinator with
  | unborn | done => exact h
  | sending =>
    -- the sender was taken, and the call that took it leads no more
    have hNone : s.hasSender = true → False := by
      intro hSender
      exact absurd ((h.fresh hSender).1.symm.trans hCoordinator) (by decide)
    have hLeader : ∀ i, ¬(s.calls i).leads := by
      intro i hi
      exact absurd ((h.leader i hi).1.symm.trans hCoordinator) (by decide)
    have hClosing : s.shutdown ≠ .opened := h.closing (Or.inr (by rw [hCoordinator]; decide))
    have hOpened : s.shutdown ≠ .completed := h.opened (by rw [hCoordinator]; decide)
    dsimp only
    split
    · refine ⟨h.queue, fun hS => (hNone hS).elim, fun i hi => absurd hi (hLeader i), ?_,
        fun _ => hClosing, fun _ => hOpened, ?_, h.returned, h.panicked⟩
      · rintro (hNo | hNo) <;> cases hNo
      · rintro (hNo | hNo)
        · cases hNo
        · exact absurd hNo hOpened
    -- the barrier goes into the queue
    · rename_i hOpen
      have hAck := h.unsent (Or.inr hCoordinator)
      refine ⟨h.queue.sendBarrier (by simpa using hOpen) hAck, fun hS => (hNone hS).elim,
        fun i hi => absurd hi (hLeader i), ?_, fun _ => hClosing, fun _ => hOpened, ?_, h.returned,
        h.panicked⟩
      · rintro (hNo | hNo) <;> cases hNo
      · rintro (hNo | hNo)
        · cases hNo
        · exact absurd hNo hOpened
  | awaiting =>
    have hNone : s.hasSender = true → False := by
      intro hSender
      exact absurd ((h.fresh hSender).1.symm.trans hCoordinator) (by decide)
    have hLeader : ∀ i, ¬(s.calls i).leads := by
      intro i hi
      exact absurd ((h.leader i hi).1.symm.trans hCoordinator) (by decide)
    have hOpened : s.shutdown ≠ .completed := h.opened (by rw [hCoordinator]; decide)
    refine ⟨h.queue, fun hS => (hNone hS).elim, fun i hi => absurd hi (hLeader i), ?_,
      fun _ => h.closing (Or.inr (by rw [hCoordinator]; decide)), fun _ => hOpened, ?_, h.returned,
      h.panicked⟩
    · rintro (hNo | hNo) <;> cases hNo
    · rintro (hAcked | hNo)
      · exact h.queue.acked (Coordinator.updating.inj hAcked)
      · exact absurd hNo hOpened
  | updating completed =>
    have hNone : s.hasSender = true → False := by
      intro hSender
      exact absurd ((h.fresh hSender).1.symm.trans hCoordinator) nofun
    have hLeader : ∀ i, ¬(s.calls i).leads := by
      intro i hi
      exact absurd ((h.leader i hi).1.symm.trans hCoordinator) nofun
    have hOpened : s.shutdown ≠ .completed := h.opened (by rw [hCoordinator]; nofun)
    refine ⟨h.queue, fun hS => (hNone hS).elim, fun i hi => absurd hi (hLeader i), ?_, ?_,
      fun hNo => absurd rfl hNo, ?_, ?_, ?_⟩
    · rintro (hNo | hNo) <;> cases hNo
    · intro _
      dsimp only
      split
      · decide
      · split <;> decide
    · rintro (hNo | hDone)
      · cases hNo
      · dsimp only at hDone
        split at hDone
        · cases hDone
        · split at hDone
          -- the answer came, so the worker had finished the barrier
          · rename_i hCompleted
            exact h.barrier (Or.inl (by rw [hCoordinator, hCompleted]))
          · cases hDone
    · intro i hi
      exact absurd (h.returned i hi) hOpened
    · intro i hi
      dsimp only
      -- a failure stays one
      rw [h.panicked i hi, if_pos rfl]

/-- **Every event keeps the invariant.** -/
theorem Inv.step (h : Inv s) {e : Event ρ} (hEn : enabled s e = true) : Inv (next s e) := by
  cases e with
  | call i => exact h.callStep i
  | cancel i => exact h.setCall (by simp [Call.leads]) nofun nofun
  | coordinator => exact h.coordinatorStep
  -- the watcher leaves `Completed` alone and fails anything else
  | watch =>
    refine ⟨h.queue, h.fresh, h.leader, h.unsent, ?_, ?_, ?_, ?_, ?_⟩
    · intro _
      dsimp only [next]
      split <;> decide
    · intro hNot
      dsimp only [next]
      rw [if_neg (h.opened hNot)]
      decide
    · rintro (hUpdating | hDone)
      · exact h.barrier (Or.inl hUpdating)
      · dsimp only [next] at hDone
        split at hDone
        · exact h.barrier (Or.inr ‹_›)
        · cases hDone
    · intro i hi
      dsimp only [next]
      rw [if_pos (h.returned i hi)]
    · intro i hi
      dsimp only [next]
      rw [h.panicked i hi, if_neg (by decide)]
  | worker e =>
    refine ⟨h.queue.next hEn, h.fresh, h.leader, ?_, h.closing, h.opened, ?_, h.returned,
      h.panicked⟩
    · intro hUnsent
      exact Queue.next_ack_none (h.unsent hUnsent) e
    · intro hWhen
      exact Queue.mem_finished_next (h.barrier hWhen) e
  | offer request =>
    refine ⟨h.queue.offer request, h.fresh, h.leader, ?_, h.closing, h.opened, ?_, h.returned,
      h.panicked⟩
    · intro hUnsent
      exact (Queue.offer_ack request s.queue).trans (h.unsent hUnsent)
    · intro hWhen
      show _ ∈ (s.queue.offer request).finished
      rw [Queue.offer_finished]
      exact h.barrier hWhen
  | lock j => exact ⟨h.queue, h.fresh, h.leader, h.unsent, h.closing, h.opened, h.barrier,
      h.returned, h.panicked⟩
  | unlock j => exact ⟨h.queue, h.fresh, h.leader, h.unsent, h.closing, h.opened, h.barrier,
      h.returned, h.panicked⟩

/-- **How one event may change the shutdown state.** -/
theorem Inv.moves (h : Inv s) (e : Event ρ) : Moves s.shutdown (next s e).shutdown := by
  cases e with
  | call i =>
    show Moves _ (Manager.callStep i s).shutdown
    unfold Manager.callStep
    cases s.calls i with
    | taken =>
      dsimp only
      split
      · rename_i hOpened
        rw [hOpened]
        exact .close
      · exact .stay _
    | locking =>
      dsimp only
      split <;> exact .stay _
    | reading =>
      dsimp only
      split <;> exact .stay _
    | idle | sealed | parked | returned | panicked | cancelled => exact .stay _
  | coordinator =>
    show Moves _ (Manager.coordinatorStep s).shutdown
    unfold Manager.coordinatorStep
    cases hCoordinator : s.coordinator with
    | updating completed =>
      -- the coordinator finds the state closing, or failed by the watcher
      have hNotOpened : s.shutdown ≠ .opened := h.closing (Or.inr (by rw [hCoordinator]; nofun))
      have hNotCompleted : s.shutdown ≠ .completed := h.opened (by rw [hCoordinator]; nofun)
      dsimp only
      cases hShutdown : s.shutdown with
      | opened => exact absurd hShutdown hNotOpened
      | completed => exact absurd hShutdown hNotCompleted
      | failed => exact .stay _
      | closing =>
        cases completed with
        | true => exact .complete
        | false => exact .fail
    | sending =>
      dsimp only
      split <;> exact .stay _
    | unborn | awaiting | done => exact .stay _
  | watch =>
    show Moves _ (if s.shutdown = .completed then _ else _)
    cases hShutdown : s.shutdown with
    | opened => exact .crash
    | closing => exact .fail
    | completed => exact .stay _
    | failed => exact .stay _
  | cancel i | worker e | offer request | lock j | unlock j => exact .stay _

theorem inv_of_reachable {s : State ρ} (h : (machine ρ).Reachable s) : Inv s :=
  h.invariant (fun _ hInit => hInit ▸ inv_initial) fun _ _ hInv hEn => hInv.step hEn

/-- **A call that returned** has seen `Completed`, so all that was queued before the barrier is
finished. -/
theorem Inv.returned_drained (h : Inv s) {i : Nat} (hReturned : s.calls i = .returned) :
    s.queue.Drained :=
  h.queue.drained (h.barrier (Or.inr (h.returned i hReturned)))

end

end Manager

end RLock.Async
