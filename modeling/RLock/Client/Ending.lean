import RLock.Client.Outcome

/-!
# RLock — how an acquisition comes to its end

Three things bring a request to its end: the manager is closed, its deadline has
passed, or its caller is gone. What is left to do is counted in steps; a poll that
misses what is ready may set the count back, and nothing else does.

The count is a measure on states that each backend defines for its own loop, with a value
for each of the three endings. What the measure must do is collected in `Nears`, and the
bound follows from that alone. A poll may miss what is ready because several things are
polled in turn, or because a thread was woken before it was time; whoever misses
something goes round once more, which is what `c` pays for.

An attempt that is about to start costs more than what remains once it is running, so
there is at most one more attempt: the measure has to fall below the cost of a running
command before another could start.

* `Tracked.ends` — the steps of the loop from then on, and its attempts.
-/

namespace RLock.Client

/-- What brings a request to its end. -/
inductive Ending
  /-- the manager is closed -/
  | closed
  /-- the deadline has passed -/
  | late
  /-- the caller is gone -/
  | gone
  deriving DecidableEq, Repr

/-- A number for each of them. -/
def Ending.pick (closed late gone : Nat) : Ending → Nat
  | .closed => closed
  | .late => late
  | .gone => gone

section

variable {o : AcquireOptions} {once : Bool} {may : Check → Bool} {p p' : Progress}
  {ext : List Action}

/-- An attempt starts when the checks have passed, and only then. -/
theorem Moves.attempts (h : Moves o once may p p' ext) :
    ext.countP Action.isAttempt = 0 ∨
      ext.countP Action.isAttempt = 1 ∧
        ∃ passed start, p = .ready passed ∧ p' = .running start := by
  cases h with
  | stay _ hPlain => exact Or.inl (attempts_of_plain hPlain)
  | stop _ hPlain => exact Or.inl (attempts_of_plain hPlain)
  | attempt start => exact Or.inr ⟨rfl, _, start, rfl, rfl⟩
  | admitted | pass | contended | won | failed | again | keep => exact Or.inl rfl

end

namespace Tracked

variable {σ ε : Type} {o : AcquireOptions} {once : Bool} {M : Machine σ (View × ε)}
  {log : σ → List Action} {start : σ → Int} {progress : σ → Progress}

/-- What `P` lets a loop do: each of its steps takes it nearer to its end, unless a poll
missed what is ready, and then it has at most `c` steps to go. A command that is running
has `k` to go. -/
structure Nears (M : Machine σ (View × ε)) (P : σ → View × ε → Prop) (progress : σ → Progress)
    (toGo : σ → Nat) (mine missed : View × ε → Bool) (c k : Nat) : Prop where
  own : ∀ s e, M.Reachable s → M.enabled s e → P s e → mine e = true →
    toGo (M.next s e) < toGo s ∨ missed e = true ∧ toGo (M.next s e) ≤ c ∧ 0 < toGo s
  other : ∀ s e, M.Reachable s → M.enabled s e → P s e → mine e = false →
    toGo (M.next s e) ≤ toGo s ∧ ∀ start, progress (M.next s e) = .running start →
      progress s = .running start
  running : ∀ s start, progress s = .running start → toGo s = k
  apart : c < k

variable {P : σ → View × ε → Prop} {toGo : σ → Nat} {mine missed : View × ε → Bool} {c k : Nat}
  {s t : σ} {es : List (View × ε)}

/-- **What is left to do**: the steps of the loop, and at most the attempt it is about to
make. -/
theorem ends (h : Tracked o once M log start progress)
    (hNears : Nears M P progress toGo mine missed c k) (hs : M.Reachable s)
    (hRun : (M.restrict P).Path s es t) :
    es.countP mine + toGo t ≤ toGo s + c * es.countP missed ∧
      (log t).countP Action.isAttempt ≤ (log s).countP Action.isAttempt + 1 := by
  refine ⟨hRun.charged (M := M.restrict P) (I := M.Reachable) toGo mine missed c
    (fun s e hr hEn => hr.step e hEn.1) (fun s e hr hEn => ?_) hs, ?_⟩
  · cases hMine : mine e with
    | true =>
      rcases hNears.own s e hr hEn.1 hEn.2 hMine with hLess | ⟨hMissed, hFar, hGoing⟩
      · show toGo (M.next s e) + 1 ≤ _
        omega
      · rw [hMissed]
        show toGo (M.next s e) + 1 ≤ toGo s + c * 1
        omega
    | false =>
      have hLess := (hNears.other s e hr hEn.1 hEn.2 hMine).1
      show toGo (M.next s e) + 0 ≤ _
      omega
  · -- who has more than a running command to go may be about to make an attempt
    have hKeep : M.Reachable t ∧ (log t).countP Action.isAttempt + (if k < toGo t then 1 else 0) ≤
        (log s).countP Action.isAttempt + (if k < toGo s then 1 else 0) := by
      refine hRun.invariant (I := fun t => M.Reachable t ∧ (log t).countP Action.isAttempt +
        (if k < toGo t then 1 else 0) ≤ (log s).countP Action.isAttempt +
          (if k < toGo s then 1 else 0)) ⟨hs, Nat.le_refl _⟩ fun u e hu hEn => ?_
      obtain ⟨hr, hLess⟩ := hu
      refine ⟨hr.step e hEn.1, Nat.le_trans ?_ hLess⟩
      obtain ⟨ext, hLog, hMoves⟩ := h.step u e hr hEn.1
      show (log (M.next u e)).countP Action.isAttempt + (if k < toGo (M.next u e) then 1 else 0) ≤ _
      have hApart := hNears.apart
      have hNear : toGo (M.next u e) < toGo u ∨ toGo (M.next u e) ≤ c ∨
          toGo (M.next u e) ≤ toGo u ∧ ∀ start, progress (M.next u e) = .running start →
            progress u = .running start := by
        cases hMine : mine e with
        | true =>
          exact (hNears.own u e hr hEn.1 hEn.2 hMine).imp_right fun hMissed => Or.inl hMissed.2.1
        | false => exact Or.inr (Or.inr (hNears.other u e hr hEn.1 hEn.2 hMine))
      rw [hLog, List.countP_append]
      -- no attempt here, or the one that the loop was about to make
      rcases hMoves.attempts with hNone | ⟨hOne, passed, start, hReady, hRunning⟩
      · rw [hNone]
        split <;> split <;> omega
      · have hAt := hNears.running _ start hRunning
        rcases hNear with hLess | hFar | ⟨-, hSame⟩
        · rw [hOne, if_neg (by omega), if_pos (by omega)]
          omega
        · omega
        · rw [hSame start hRunning] at hReady
          cases hReady
    have hAll := hKeep.2
    split at hAll <;> split at hAll <;> omega

end Tracked

end RLock.Client
