import RLock.Async.Seal
import RLock.Sync.Seal

/-!
# RLock — shutdown seals the manager

What holds of every acquisition from the step on in which `shutdown()` closes the
manager, in both backends and for every interleaving of acquisitions and calls.

The step is the one of the call that has the sender. In the async backend it moves the
watch value out of `Open`, in the sync backend it sets the flag. Whatever an acquisition
reads of the manager afterwards says that it is closed, so each of them is refused where
it asks next; what it had asked before it may still do.

## Results

* `shutdown_seals` — no admission, no attempt but the one already under way, no guard for
  a success that comes too late.
-/

namespace RLock.Manager

open RLock.Client

/-- **Shutdown seals the manager**: the call that has the sender sets the flag, or
moves the state out of `Open`. -/
theorem shutdown_seals (ρ : Type) [DecidableEq ρ] (o : Nat → AcquireOptions)
    (once : Nat → Bool) :
    (∀ s, (Async.system ρ o once).Reachable s → ∀ i, s.1.calls i = .taken → ∀ j,
      Async.Sealed o once ((Async.system ρ o once).next s (.inl (.call i))) j) ∧
    ∀ s, (Sync.system ρ o once).Reachable s → ∀ i, s.1.calls i = .taken true → ∀ j,
      Sync.Sealed o once ((Sync.system ρ o once).next s (.inl (.call i))) j := by
  constructor
  · intro s hs i hTaken j
    exact Async.sealed_of_taken hs hTaken j
  · intro s hs i hTaken j
    exact Sync.sealed_of_taken hs hTaken j

/-- On the way to `acquire_lock`, at a moment when the manager is open. -/
def asyncAsking : List (View × Async.Event) :=
  let es : List Async.Event := List.replicate 3 (.caller true) ++ List.replicate 5 (.task true)
  es.map (⟨0, true, true⟩, ·)

/-- The same in the sync backend. -/
def syncAsking : List (View × Sync.Event) :=
  let es : List Sync.Event := List.replicate 3 (.caller true) ++ List.replicate 6 (.task true)
  es.map (⟨0, true, true⟩, ·)

/-- Steps of an acquisition that leave the manager alone. -/
def asyncAlone : Machine Async.State (View × Async.Event) :=
  (Async.acquisition .new false).restrict fun a d =>
    d.1 = ⟨0, true, true⟩ ∧ (Async.managerLink Nat).moves 0 a d = none

/-- Every step of a sync acquisition leaves the manager alone. -/
def syncAlone : Machine Sync.State (View × Sync.Event) :=
  (Sync.acquisition .new false).restrict fun _ d => d.1 = ⟨0, true, true⟩

instance (s : Async.State) (e : View × Async.Event) : Decidable (asyncAlone.enabled s e) :=
  inferInstanceAs (Decidable (_ ∧ _ ∧ _))

instance (s : Sync.State) (e : View × Sync.Event) : Decidable (syncAlone.enabled s e) :=
  inferInstanceAs (Decidable (_ ∧ _))

/-- The command is under way. -/
def asyncSent : Async.State := (asyncAlone.exec .initial asyncAsking).getD .initial

/-- So it is here. -/
def syncSent : Sync.State := (syncAlone.exec .initial syncAsking).getD .initial

/-- The first acquisition has sent its command, then the first call took the sender. -/
def asyncTaken : Async.Manager.State Nat × (Nat → Async.State) :=
  (Async.Manager.callStep 0 (Async.Manager.callStep 0 Async.Manager.initial),
    Function.update (fun _ => .initial) 0 asyncSent)

/-- The same in the sync backend, where one step takes the sender. -/
def syncTaken : Sync.Manager.State Nat × (Nat → Sync.State) :=
  (Sync.Manager.callStep 0 Sync.Manager.initial, Function.update (fun _ => .initial) 0 syncSent)

/-- The system comes there: first the acquisition, then the call. -/
theorem asyncTaken_reachable :
    (Async.system Nat (fun _ => .new) fun _ => false).Reachable asyncTaken := by
  have hOwn : (Async.managerLink Nat).own (.call 0) :=
    ⟨fun _ hNo => (nomatch hNo), fun _ hNo => (nomatch hNo)⟩
  have hOpened : (Async.system Nat (fun _ => .new) fun _ => false).Reachable
      (Async.Manager.initial, fun _ => .initial) := .init ⟨rfl, fun _ => rfl⟩
  have hExec : asyncAlone.exec .initial asyncAsking = some asyncSent := by decide +kernel
  have hAsks : asyncAlone.Steps .initial asyncSent := Machine.steps_of_exec hExec
  have hSent := hOpened.steps (Machine.Steps.of_client (i := 0) (fun a d hd => by
    obtain ⟨hView, hMoves⟩ := hd
    refine ⟨?_, hMoves⟩
    show d.1.isOpen = _ ∧ d.1.hasSender = _ ∧ (_ → _ → _)
    rw [hView]
    exact ⟨rfl, rfl, fun _ _ => rfl⟩) hAsks)
  have hLocking := hSent.step (.inl (.call 0)) ⟨hOwn, rfl⟩
  exact hLocking.step (.inl (.call 0)) ⟨hOwn, rfl⟩

theorem syncTaken_reachable :
    (Sync.system Nat (fun _ => .new) fun _ => false).Reachable syncTaken := by
  have hOpened : (Sync.system Nat (fun _ => .new) fun _ => false).Reachable
      (Sync.Manager.initial, fun _ => .initial) := .init ⟨rfl, fun _ => rfl⟩
  have hExec : syncAlone.exec .initial syncAsking = some syncSent := by decide +kernel
  have hAsks : syncAlone.Steps .initial syncSent := Machine.steps_of_exec hExec
  have hSent := hOpened.steps (Machine.Steps.of_client (i := 0) (fun a d hd => by
    refine ⟨?_, rfl⟩
    show d.1.isOpen = _ ∧ d.1.hasSender = _ ∧ (_ → _ → _)
    rw [hd]
    exact ⟨rfl, rfl, fun _ _ => rfl⟩) hAsks)
  exact hSent.step (.inl (.call 0)) ⟨trivial, by decide +kernel⟩

/-- The first call seals the manager for every acquisition, also for the one whose
command is under way. -/
theorem shutdown_seals_first :
    ((asyncTaken.2 0).task = .acquiring 0 ∧
      ∀ j, Async.Sealed (fun _ => AcquireOptions.new) (fun _ => false)
        ((Async.system Nat (fun _ => AcquireOptions.new) fun _ => false).next asyncTaken
          (.inl (.call 0))) j) ∧
    (syncTaken.2 0).task = .acquiring 0 ∧
      ∀ j, Sync.Sealed (fun _ => AcquireOptions.new) (fun _ => false)
        ((Sync.system Nat (fun _ => AcquireOptions.new) fun _ => false).next syncTaken
          (.inl (.call 0))) j := by
  have hSeals := shutdown_seals Nat (fun _ => AcquireOptions.new) fun _ => false
  refine ⟨⟨by decide +kernel, ?_⟩, by decide +kernel, ?_⟩
  · exact hSeals.1 asyncTaken asyncTaken_reachable 0 (by decide +kernel)
  · exact hSeals.2 syncTaken syncTaken_reachable 0 (by decide +kernel)

end RLock.Manager
