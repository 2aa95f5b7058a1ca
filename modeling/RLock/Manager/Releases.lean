import RLock.Async.Leader
import RLock.Sync.Leader
import RLock.Manager.Barrier

/-!
# RLock — the releases of dropped guards are carried out

In both managers, whatever else is dropped, shut down or cancelled meanwhile: a release
that got into the queue is carried out in its turn, as long as the worker goes on.

Nothing but the diligence of the worker is assumed, and it ends only when it stops
unexpectedly or no sender is left and the queue is empty. A shutdown does not come before
what entered first, since its barrier waits in the same queue.

## Results

* `releases_finish` — what has entered is finished, at the same place.
-/

namespace RLock.Manager

/-- **Every release that entered the queue is carried out** in its turn, unless the
worker stops unexpectedly. -/
theorem releases_finish (ρ : Type) [DecidableEq ρ] :
    (∀ r : (Async.Manager.machine ρ).Run,
      Queue.Diligent r (fun s => s.queue) Async.Manager.Event.worker →
      ∀ (p : Nat) (c : ReleaseCommand ρ),
      r.Leads (fun s => s.queue.entered[p]? = some c)
        fun s => s.queue.finished[p]? = some c ∨ s.queue.dead = true) ∧
    ∀ r : (Sync.Manager.machine ρ).Run,
      Queue.Diligent r (fun s => s.queue) Sync.Manager.Event.worker →
      ∀ (p : Nat) (c : ReleaseCommand ρ),
      r.Leads (fun s => s.queue.entered[p]? = some c)
        fun s => s.queue.finished[p]? = some c ∨ s.queue.dead = true :=
  ⟨fun _ hFair p c => (Async.Manager.hosts ρ).finishes hFair p c,
    fun _ hFair p c => (Sync.Manager.hosts ρ).finishes hFair p c⟩

theorem asyncRun_ends :
    (Async.Manager.machine Nat).exec Async.Manager.initial asyncRun = some asyncEnd :=
  Machine.exec_getD (by decide +kernel)

theorem syncRun_ends :
    (Sync.Manager.machine Nat).exec Sync.Manager.initial syncRun = some syncEnd :=
  Machine.exec_getD (by decide +kernel)

/-- The release of the guard that is dropped in both runs. -/
theorem releases_finish_dropped :
    (Machine.rest (.init rfl) asyncRun_ends).Leads
      (fun s => s.queue.entered[0]? = some (.release 7))
      (fun s => s.queue.finished[0]? = some (.release 7) ∨ s.queue.dead = true) ∧
    (Machine.rest (.init rfl) syncRun_ends).Leads
      (fun s => s.queue.entered[0]? = some (.release 7))
      fun s => s.queue.finished[0]? = some (.release 7) ∨ s.queue.dead = true := by
  have hBoth := releases_finish Nat
  refine ⟨hBoth.1 _ (fun w hDie => ?_) 0 _, hBoth.2 _ (fun w hDie => ?_) 0 _⟩
  all_goals
    -- nothing is left that the worker could do
    refine (Machine.rest_strict ?_).just
    cases w with
    | take | released | acknowledge | finish => decide +kernel
    | die => exact absurd rfl hDie

end RLock.Manager
