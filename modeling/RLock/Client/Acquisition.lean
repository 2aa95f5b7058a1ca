import RLock.Client.Guard
import RLock.Lib.Channel
import RLock.Lib.Debt

/-!
# RLock — what the acquisitions of both backends share

The errors and results of `acquire_internal`, what a step may read of the rest
of the process, and the history of one request.

The history is the log of a request, the latest entry first: the attempts it made and
the replies they got, the checks its two sides made, what was sent to the caller, and
what was sent to Redis or to the release queue. It is there for the statements only; no
step reads it. `Action.owes` marks the replies after which Redis may hold the lock,
`Action.releases` the entries that give it up again outside a guard, and what both
backends are judged by is that every debt is followed by a payment (`Paid`).

Which errors count as debts is a parameter (`risky`), since the backends do not agree on
it: the async one gives up the lock after every error of the command, the sync one only
after an I/O error, which may have left the command applied.

* `Extends` — the log grew by entries of a certain sort.
* `Quiet`, `Clear` — nothing was given up, nothing is owed.
-/

namespace RLock.Client

/-- The errors of an acquisition. -/
inductive AcquireError
  | redisError | lockTimeout | shutdown | leaseExpired | workerError
  deriving DecidableEq, Repr

/-- The reply of `acquire_lock`; `io` is `error.is_io_error()`. -/
inductive Reply
  | acquired
  | contended
  | error (io : Bool)
  deriving DecidableEq, Repr

/-- What the supervisor or the worker sends to the caller, a
`Result<Option<Acquisition>, AcquireError>`. -/
inductive Message
  | failed (e : AcquireError)
  | nothing
  | acquisition
  deriving DecidableEq, Repr

/-- What a step reads outside the request: the clock, `is_open()` (in the sync
backend the negated `is_shutdown()`), and whether the manager still has its
release sender. -/
structure View where
  now : Int
  isOpen : Bool
  hasSender : Bool
  deriving DecidableEq, Repr

/-- The checks between the attempts and before the handoff. -/
inductive Check
  | manager | deadline | lease
  deriving DecidableEq, Repr

/-- One entry in the history of a request. -/
inductive Action
  /-- an `acquire_lock` stamped with `start` goes out -/
  | attempt (start : Int)
  | reply (start : Int) (r : Reply)
  /-- the caller (or else the supervisor or worker) made a check -/
  | saw (byCaller : Bool) (c : Check) (passed : Bool)
  /-- the supervisor or worker sends its result -/
  | result (m : Message)
  /-- the supervisor or worker calls `release_lock`; `sent` is false when the
  pool had no connection for it -/
  | release (sent : Bool)
  /-- `acquire_loop` offers a release to the queue -/
  | offer
  | guard (s : Sent)
  | renewReply (start : Int) (r : Option Bool)
  deriving DecidableEq, Repr

namespace Action

/-- The request tries to give up the lock outside its guard. -/
def releases : Action → Bool
  | .release _ => true
  | .offer => true
  | _ => false

/-- A reply after which the lock may be held in Redis: it was acquired, or the
command failed in a way that `risky` counts. -/
def owes (risky : Bool → Bool) : Action → Bool
  | .reply _ .acquired => true
  | .reply _ (.error io) => risky io
  | _ => false

/-- The supervisor or worker told the caller how it ended. -/
def isResult : Action → Bool
  | .result _ => true
  | _ => false

/-- A command to acquire goes out. -/
def isAttempt : Action → Bool
  | .attempt _ => true
  | _ => false

end Action

/-- No release was issued outside the guard. -/
def Quiet (log : List Action) : Prop := ∀ a ∈ log, a.releases = false

/-- Nothing in the history may have left the lock in Redis. -/
def Clear (risky : Bool → Bool) (log : List Action) : Prop := ∀ a ∈ log, a.owes risky = false

/-- A history stays quiet while nothing is given up. -/
theorem Quiet.append {log : List Action} (h : Quiet log) (new : List Action)
    (hNew : ∀ a ∈ new, a.releases = false) : Quiet (new ++ log) := by
  intro a ha
  rcases List.mem_append.mp ha with ha | ha
  · exact hNew a ha
  · exact h a ha

/-- A history stays clear while nothing is owed. -/
theorem Clear.append {risky : Bool → Bool} {log : List Action} (h : Clear risky log)
    (new : List Action) (hNew : ∀ a ∈ new, a.owes risky = false) : Clear risky (new ++ log) := by
  intro a ha
  rcases List.mem_append.mp ha with ha | ha
  · exact hNew a ha
  · exact h a ha

/-- The history grew by entries that all satisfy `P`. -/
def Extends (P : Action → Prop) (old new : List Action) : Prop :=
  ∃ ext, new = ext ++ old ∧ ∀ a ∈ ext, P a

namespace Extends

variable {P Q : Action → Prop} {a b c : List Action} {x : Action}

theorem refl (P : Action → Prop) (a : List Action) : Extends P a a := ⟨[], rfl, by simp⟩

theorem cons (h : Extends P a b) (hX : P x) : Extends P a (x :: b) := by
  obtain ⟨ext, rfl, hExt⟩ := h
  refine ⟨x :: ext, rfl, ?_⟩
  intro y hy
  rcases List.mem_cons.mp hy with rfl | hy
  · exact hX
  · exact hExt y hy

theorem trans (h : Extends P a b) (h' : Extends P b c) : Extends P a c := by
  obtain ⟨ext, rfl, hExt⟩ := h
  obtain ⟨ext', rfl, hExt'⟩ := h'
  refine ⟨ext' ++ ext, (List.append_assoc _ _ _).symm, ?_⟩
  intro y hy
  rcases List.mem_append.mp hy with hy | hy
  · exact hExt' y hy
  · exact hExt y hy

/-- The sort may be described more loosely. -/
theorem mono (h : Extends P a b) (hPQ : ∀ x, P x → Q x) : Extends Q a b := by
  obtain ⟨ext, hEq, hExt⟩ := h
  exact ⟨ext, hEq, fun x hx => hPQ x (hExt x hx)⟩

theorem mem (h : Extends P a b) (hX : x ∈ b) : x ∈ a ∨ P x := by
  obtain ⟨ext, rfl, hExt⟩ := h
  rcases List.mem_append.mp hX with hX | hX
  · exact Or.inr (hExt x hX)
  · exact Or.inl hX

theorem mem_old (h : Extends P a b) (hX : x ∈ a) : x ∈ b := by
  obtain ⟨ext, rfl, -⟩ := h
  exact List.mem_append_right ext hX

end Extends

end RLock.Client
