import RLock.Async.Outcome
import RLock.Sync.Outcome

/-!
# RLock — the outcome of an acquisition in both backends

What `acquire_internal` returns and how many attempts it makes, for every sequence of
replies, clock readings and shutdowns.

Both machines are `Tracked` (`Client.Outcome`), so what is said here is proved once, of
every tracked machine, and instantiated twice. The one thing that depends on a clock that
does not run backwards is said of the timed machine (`Decides.late`).

A check of the caller is not a check of the loop. When the caller sees the deadline
elapsed it returns, but an attempt whose own check has passed is made all the same, and
its success is released. `Punctual` says that it is not made; both backends have a run in
which it is.

## Results

* `acquire_outcome` — attempts and results of both backends.
* `acquire_not_punctual` — a check of the caller that sees the deadline elapsed does not
  stop an attempt whose own check has passed.
-/

namespace RLock.Manager

open RLock.Client

section

variable {σ ε : Type}

/-- The attempts and the results of a request. -/
structure Decides (o : AcquireOptions) (once : Bool) (M : Machine σ (View × ε))
    (log : σ → List Action) (progress : σ → Progress)
    (returned : σ → Except AcquireError Bool → Prop) : Prop where
  /-- `Ok(None)` is returned only by a single attempt that reported contention. -/
  nothing : ∀ s, M.Reachable s → returned s (.ok false) →
    once = true ∧ ∃ start, .reply start .contended ∈ log s
  single : once = true → ∀ s, M.Reachable s → (log s).countP Action.isAttempt ≤ 1
  zero : o.lockTimeout = some 0 → ∀ s, M.Reachable s → (log s).countP Action.isAttempt = 0
  /-- No attempt follows a success, an error, or a check of the loop that saw the
  deadline elapsed. -/
  ended : ∀ s t, M.Reachable s → (∃ a ∈ log s, a.ends = true) → M.Steps s t →
    (log t).countP Action.isAttempt = (log s).countP Action.isAttempt
  /-- After a check of the caller that saw it, at most the attempt follows that
  had passed its own check. -/
  late : ∀ s t, (M.timed clock).Reachable s → .saw true .deadline false ∈ log s.2 →
    (M.timed clock).Steps s t → (log t.2).countP Action.isAttempt ≤
      (log s.2).countP Action.isAttempt + (progress s.2).armed .deadline
  /-- `Ok(Some(guard))` is returned only when the last attempt succeeded and every
  check has passed since its reply. -/
  guard : ∀ s, M.Reachable s → returned s (.ok true) →
    Granted [.lease, .deadline, .manager] (log s)

/-- No attempt is started once any check has seen the deadline elapsed. -/
def Punctual (M : Machine σ (View × ε)) (log : σ → List Action) : Prop :=
  ∀ s t, (M.timed clock).Reachable s → (∃ side, .saw side .deadline false ∈ log s.2) →
    (M.timed clock).Steps s t →
    (log t.2).countP Action.isAttempt = (log s.2).countP Action.isAttempt

/-- **What holds of a tracked machine**, with what it says of its own results. -/
theorem decides_of_tracked {o : AcquireOptions} {once : Bool} {M : Machine σ (View × ε)}
    {log : σ → List Action} {start : σ → Int} {progress : σ → Progress}
    {returned : σ → Except AcquireError Bool → Prop} (h : Tracked o once M log start progress)
    (hNothing : ∀ s, M.Reachable s → returned s (.ok false) →
      once = true ∧ ∃ start, .reply start .contended ∈ log s)
    (hGuard : ∀ s, M.Reachable s → returned s (.ok true) →
      Granted [.lease, .deadline, .manager] (log s)) :
    Decides o once M log progress returned where
  nothing := hNothing
  single hOnce _ hs := (Nat.le_add_right _ _).trans ((h.paced hs).single hOnce)
  zero hZero _ hs := ((h.paced hs).zero hZero).2
  ended _ _ hs hEnded hRun := h.ended_steps hs hEnded hRun
  late _ _ hs hSaw hRun := h.late_steps hs hSaw hRun
  guard := hGuard

/-- After `es` a check of the caller has seen the deadline elapsed, and `es'`
makes another attempt. -/
def attemptsLate (M : Machine σ (View × ε)) [∀ s e, Decidable (M.enabled s e)]
    (log : σ → List Action) (s₀ : Int × σ) (es es' : List (View × ε)) : Bool :=
  match (M.timed clock).exec s₀ es with
  | none => false
  | some s => match (M.timed clock).exec s es' with
    | none => false
    | some t => .saw true .deadline false ∈ log s.2 &&
      (log t.2).countP Action.isAttempt ≠ (log s.2).countP Action.isAttempt

/-- A run that makes a late attempt is a counterexample. -/
theorem not_punctual_of_late {M : Machine σ (View × ε)} [∀ s e, Decidable (M.enabled s e)]
    {log : σ → List Action} (s₀ : Int × σ) (es es' : List (View × ε)) (hInit : M.init s₀.2)
    (hLate : attemptsLate M log s₀ es es' = true) : ¬ Punctual M log := by
  intro hPunctual
  unfold attemptsLate at hLate
  split at hLate
  · cases hLate
  · rename_i s hBefore
    split at hLate
    · cases hLate
    · rename_i t hAfter
      rw [Bool.and_eq_true, decide_eq_true_eq, decide_eq_true_eq] at hLate
      obtain ⟨hSaw, hMore⟩ := hLate
      have hs : (M.timed clock).Reachable s := Machine.reachable_of_exec (.init hInit) hBefore
      exact hMore (hPunctual s t hs ⟨true, hSaw⟩ (Machine.steps_of_exec hAfter))

end

/-- **The outcome of an acquisition**, in both backends. -/
theorem acquire_outcome (o : AcquireOptions) (once : Bool) :
    Decides o once (Async.acquisition o once) Async.State.log (fun s => s.task.progress)
      (fun s r => s.caller = .returned r) ∧
    Decides o once (Sync.acquisition o once) Sync.State.log (fun s => s.task.progress)
      (fun s r => s.caller = .returned r) := by
  constructor
  · refine decides_of_tracked (Async.tracked o once) (fun s hs hReturned => ?_)
      fun s hs hReturned => ?_
    · exact Async.contended_of_tells hs (Or.inr (by rw [hReturned]; rfl))
    · exact Async.granted_of_tells hs (Or.inr (by rw [hReturned]; rfl))
  · refine decides_of_tracked (Sync.tracked o once) (fun s hs hReturned => ?_)
      fun s hs hReturned => ?_
    · exact Sync.contended_of_tells hs (Or.inr (Or.inr (by rw [hReturned]; rfl)))
    · exact Sync.granted_of_tells hs (Or.inr (Or.inr (by rw [hReturned]; rfl)))

-- ---------------------------------------------------------------------------
-- A late attempt
-- ---------------------------------------------------------------------------

/-- Options with a timeout of 5 ns. -/
def limited : AcquireOptions := { AcquireOptions.new with lockTimeout := some 5 }

/-- What is read at `now` while the manager is open. -/
def openAt (now : Int) : View := ⟨now, true, true⟩

/-- The supervisor has passed its check when the caller gives up. -/
def asyncLate : List (View × Async.Event) :=
  [(openAt 0, .caller true), (openAt 0, .caller true), (openAt 0, .caller true),
    (openAt 1, .task true), (openAt 2, .task true), (openAt 4, .task true),
    (openAt 4, .caller true), (openAt 5, .caller true)]

/-- The worker has passed its check when the caller gives up. -/
def syncLate : List (View × Sync.Event) :=
  [(openAt 0, .caller true), (openAt 0, .caller true), (openAt 0, .caller true),
    (openAt 1, .caller true), (openAt 2, .task true), (openAt 4, .task true),
    (openAt 4, .task true), (openAt 5, .caller false)]

/-- **An attempt may follow** the check of the caller that saw the deadline elapsed. -/
theorem acquire_not_punctual :
    ¬ Punctual (Async.acquisition limited false) Async.State.log ∧
      ¬ Punctual (Sync.acquisition limited false) Sync.State.log := by
  constructor
  · exact not_punctual_of_late (0, .initial) asyncLate
      [(openAt 5, .task true), (openAt 5, .task true)] rfl (by decide +kernel)
  · exact not_punctual_of_late (0, .initial) syncLate
      [(openAt 5, .task true), (openAt 5, .task true), (openAt 5, .task true)] rfl
      (by decide +kernel)

end RLock.Manager
