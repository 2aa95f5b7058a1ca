import RLock.Async.Manager
import RLock.Sync.Manager

/-!
# RLock — shutdown waits for the queue and has one outcome

What both managers promise of `shutdown()`, over every interleaving of calls, dropped
guards, the worker and, in the async backend, cancellations.

The two machines differ in who waits for the barrier: in the async backend a coordinator
that no cancellation stops, in the sync backend the call that took the sender. What they
share is the queue. The barrier enters it once, and a call returns only when the barrier
was acknowledged, hence after everything before it is finished (`Queue.Ok.drained`). The
outcome is written once and read by every call; when the worker stopped before the
barrier, all of them panic.

## Results

* `shutdown_agrees` — one barrier at most, everything before it finished when a call
  returns, an outcome that never changes, and calls that all return or all panic.
-/

namespace RLock.Manager

variable {ρ : Type} [DecidableEq ρ]

theorem outcome_kept {a b : Async.ShutdownState} (h : Async.Manager.Moves a b)
    (hSet : a = .completed ∨ a = .failed) : b = a := by
  cases h with
  | stay => rfl
  | close | complete | fail | crash => rcases hSet with hNo | hNo <;> cases hNo

/-- **Shutdown barrier and agreement.** -/
theorem shutdown_agrees :
    (∀ s : Async.Manager.State ρ, (Async.Manager.machine ρ).Reachable s →
      s.queue.entered.count .barrier ≤ 1 ∧
      (∀ i, s.calls i = .returned → s.queue.Drained) ∧
      (∀ e, Async.Manager.enabled s e = true → s.shutdown = .completed ∨ s.shutdown = .failed →
        (Async.Manager.next s e).shutdown = s.shutdown) ∧
      (∀ i j, s.calls i = .returned → s.calls j ≠ .panicked) ∧
      ∀ e, Async.Manager.enabled s e = true →
        Async.Manager.Moves s.shutdown (Async.Manager.next s e).shutdown) ∧
    ∀ s : Sync.Manager.State ρ, (Sync.Manager.machine ρ).Reachable s →
      s.queue.entered.count .barrier ≤ 1 ∧
      (∀ i, s.calls i = .returned → s.queue.Drained) ∧
      (∀ e, Sync.Manager.enabled s e = true → ∀ complete, s.result = some complete →
        (Sync.Manager.next s e).result = some complete) ∧
      ∀ i j, s.calls i = .returned → s.calls j ≠ .panicked := by
  constructor
  · intro s hReachable
    have hInv := Async.Manager.inv_of_reachable hReachable
    refine ⟨hInv.queue.single, fun i hi => hInv.returned_drained hi, ?_, ?_,
      fun e _ => hInv.moves e⟩
    · exact fun e _ hSet => outcome_kept (hInv.moves e) hSet
    · intro i j hi hj
      -- the state is `Completed` for the one and `Failed` for the other
      exact absurd ((hInv.returned i hi).symm.trans (hInv.panicked j hj)) nofun
  · intro s hReachable
    have hInv := Sync.Manager.inv_of_reachable hReachable
    refine ⟨hInv.queue.single, fun i hi => hInv.returned_drained hi, ?_, ?_⟩
    · exact fun e _ complete hResult => hInv.result_kept hResult e
    · intro i j hi hj
      -- each of them has read the result
      have hReturned := hInv.call i
      have hPanicked := hInv.call j
      rw [hi] at hReturned
      rw [hj] at hPanicked
      exact absurd (Eq.trans (Eq.symm hReturned) hPanicked) nofun

/-- A guard is dropped, `shutdown()` is called and its barrier acknowledged. -/
def asyncRun : List (Async.Manager.Event Nat) :=
  [.offer 7, .call 0, .call 0, .call 0, .call 0, .coordinator, .worker .take, .worker .released,
    .worker .take, .worker .acknowledge, .coordinator, .coordinator, .call 0]

/-- The same in the sync backend, where the call itself waits for the barrier. -/
def syncRun : List (Sync.Manager.Event Nat) :=
  [.offer 7, .call 0, .call 0, .call 0, .call 0, .worker .take, .worker .released,
    .worker .take, .worker .acknowledge, .call 0, .call 0, .call 0]

/-- Where the async run leads. -/
def asyncEnd : Async.Manager.State Nat :=
  ((Async.Manager.machine Nat).exec Async.Manager.initial asyncRun).getD Async.Manager.initial

/-- Where the sync run leads. -/
def syncEnd : Sync.Manager.State Nat :=
  ((Sync.Manager.machine Nat).exec Sync.Manager.initial syncRun).getD Sync.Manager.initial

/-- In both runs the release of the dropped guard is finished when the call
returns. -/
theorem shutdown_agrees_returned :
    asyncEnd.calls 0 = .returned ∧ asyncEnd.queue.Drained ∧
      syncEnd.calls 0 = .returned ∧ syncEnd.queue.Drained := by
  have hAsync : asyncEnd.calls 0 = .returned := by decide +kernel
  have hSync : syncEnd.calls 0 = .returned := by decide +kernel
  have hReachAsync : (Async.Manager.machine Nat).Reachable asyncEnd :=
    Machine.reachable_getD rfl (by decide +kernel)
  have hReachSync : (Sync.Manager.machine Nat).Reachable syncEnd :=
    Machine.reachable_getD rfl (by decide +kernel)
  exact ⟨hAsync, (shutdown_agrees.1 asyncEnd hReachAsync).2.1 0 hAsync, hSync,
    (shutdown_agrees.2 syncEnd hReachSync).2.1 0 hSync⟩

end RLock.Manager
