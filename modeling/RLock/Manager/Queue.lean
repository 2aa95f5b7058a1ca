import RLock.Lib.Channel
import Mathlib.Data.List.Infix
import Mathlib.Data.List.Count

/-!
# RLock — the release queue and its worker

Both managers keep a bounded queue of release commands that a single worker takes one by
one. Guards offer releases with `try_send`; `shutdown` sends one barrier, which the
worker acknowledges when its turn comes. The worker may stop at any moment, and the
queue is then lost with what is in it.

Two histories stand beside the channel, of what has entered it and of what the worker is
done with. They are what the theorems speak of: the program keeps neither, and no step
looks at them. While the worker is there, the first is the second, followed by what it
has in its hands and by what is in the channel; once it is gone the second is still a
prefix of the first. A release that found the queue full or closed has not entered.

The queue knows nothing of the two managers. Which of their steps touch it is said
where they are (`Async.Manager`, `Sync.Manager`), and what a worker that goes on makes
of it in `Manager.Drain`.

## Results

* `Queue.Ok` — the queue is in order: what the worker has finished is a prefix of what
  entered, and the barrier is acknowledged only when it is in that prefix.
* `Ok.next` — the worker keeps it so, and so does whoever sends (`Ok.offer`,
  `Ok.sendBarrier`).
* `Ok.drained` — once the barrier is finished, everything before it is.
-/

namespace RLock.Manager

/-- `ReleaseCommand`, over the requests `ρ`. -/
inductive ReleaseCommand (ρ : Type)
  | release (request : ρ)
  | barrier
  deriving DecidableEq, Repr

/-- Where the release worker stands. -/
inductive Worker (ρ : Type)
  /-- in `recv()` -/
  | receiving
  | releasing (request : ρ)
  /-- it has taken the barrier, `ack.send(())` is next -/
  | acking
  /-- `recv()` found every sender gone -/
  | ended
  /-- it stopped unexpectedly -/
  | died
  deriving DecidableEq, Repr

/-- `RECYCLE_CHANNEL_BUFFER` -/
def recycleChannelBuffer : Nat := 1024

/-- The channel with its worker, and the two histories. -/
structure Queue (ρ : Type) where
  /-- the commands in the channel, the oldest first -/
  pending : List (ReleaseCommand ρ)
  worker : Worker ρ
  /-- the channel of the barrier, once it was made -/
  ack : Option (Channel Unit)
  /-- every command that ever entered, the oldest first -/
  entered : List (ReleaseCommand ρ)
  /-- the commands the worker is done with, the oldest first -/
  finished : List (ReleaseCommand ρ)
  deriving DecidableEq

namespace Queue

variable {ρ : Type}

/-- The queue of a new manager. -/
def empty : Queue ρ := ⟨[], .receiving, none, [], []⟩

/-- The receiver is gone. -/
def closed (q : Queue ρ) : Bool :=
  match q.worker with
  | .ended => true
  | .died => true
  | _ => false

/-- The worker stopped unexpectedly. -/
def dead (q : Queue ρ) : Bool :=
  match q.worker with
  | .died => true
  | _ => false

/-- No command can be sent now. -/
def full (q : Queue ρ) : Bool := recycleChannelBuffer ≤ q.pending.length

/-- A command enters. -/
def push (c : ReleaseCommand ρ) (q : Queue ρ) : Queue ρ :=
  { q with pending := q.pending ++ [c], entered := q.entered ++ [c] }

/-- `try_send` of a release, as a dropped guard does it. -/
def offer (request : ρ) (q : Queue ρ) : Queue ρ :=
  if q.closed || q.full then q else q.push (.release request)

/-- `send` of the barrier into a queue that has room. -/
def sendBarrier (q : Queue ρ) : Queue ρ := { q.push .barrier with ack := some .fresh }

/-- The steps of the worker. -/
inductive WorkerEvent
  /-- `recv()` returns a command -/
  | take
  /-- `release_lock` returned, with whatever result -/
  | released
  | acknowledge
  /-- `recv()` finds every sender gone -/
  | finish
  | die
  deriving DecidableEq, Repr

/-- `noSender` tells that no sender is left that could be used. -/
def enabled (noSender : Bool) (q : Queue ρ) : WorkerEvent → Bool
  | .take => match q.worker, q.pending with
    | .receiving, _ :: _ => true
    | _, _ => false
  | .released => match q.worker with
    | .releasing _ => true
    | _ => false
  | .acknowledge => match q.worker with
    | .acking => true
    | _ => false
  | .finish => match q.worker, q.pending with
    | .receiving, [] => noSender
    | _, _ => false
  | .die => !q.closed

/-- A step of the worker. A release whose `release_lock` failed is done with too: the worker
only logs the error. -/
def next (q : Queue ρ) : WorkerEvent → Queue ρ
  | .take => match q.pending with
    | .release request :: rest => { q with pending := rest, worker := .releasing request }
    | .barrier :: rest => { q with pending := rest, worker := .acking }
    | [] => q
  | .released => match q.worker with
    | .releasing request =>
      { q with worker := .receiving, finished := q.finished ++ [.release request] }
    | _ => q
  | .acknowledge =>
    { q with
      worker := .receiving
      ack := q.ack.map fun ch => (ch.send ()).2
      finished := q.finished ++ [.barrier] }
  | .finish => { q with worker := .ended }
  -- the commands in the channel are dropped, and with the barrier its sender
  | .die => { q with worker := .died, pending := [], ack := q.ack.map Channel.dropTx }

/-- The command the worker has in its hands. -/
def current (q : Queue ρ) : List (ReleaseCommand ρ) :=
  match q.worker with
  | .releasing request => [.release request]
  | .acking => [.barrier]
  | _ => []

/-- The barrier was acknowledged. -/
def acked (q : Queue ρ) : Bool := q.ack.any fun ch => ch.value = some ()

/-- The sender of the barrier's acknowledgement was dropped unused. -/
def unacked (q : Queue ρ) : Bool := q.ack.any fun ch => ch.value = none && !ch.txAlive

/-- The queue is in order. -/
structure Ok [DecidableEq ρ] (q : Queue ρ) : Prop where
  ordered : q.closed = false → q.entered = q.finished ++ (q.current ++ q.pending)
  done : q.finished <+: q.entered
  single : q.entered.count .barrier ≤ 1
  unsent : q.ack = none → .barrier ∉ q.entered
  acked : q.acked = true → .barrier ∈ q.finished

/-- Everything that entered before the barrier is finished. -/
def Drained (q : Queue ρ) : Prop :=
  .barrier ∈ q.entered ∧
    ∀ before after, q.entered = before ++ .barrier :: after → before <+: q.finished

/-- A release that is offered has no channel of its own. -/
theorem offer_ack (request : ρ) (q : Queue ρ) : (q.offer request).ack = q.ack := by
  unfold offer
  split <;> rfl

/-- It is not finished by being offered. -/
theorem offer_finished (request : ρ) (q : Queue ρ) : (q.offer request).finished = q.finished := by
  unfold offer
  split <;> rfl

/-- The worker makes no acknowledgement channel. -/
theorem next_ack_none {q : Queue ρ} (h : q.ack = none) (e : WorkerEvent) :
    (q.next e).ack = none := by
  cases e with
  | take | released =>
    unfold next
    dsimp only
    split <;> exact h
  | acknowledge | die =>
    show q.ack.map _ = none
    rw [h]
    rfl
  | finish => exact h

theorem mem_finished_next {q : Queue ρ} {c : ReleaseCommand ρ} (h : c ∈ q.finished)
    (e : WorkerEvent) : c ∈ (q.next e).finished := by
  cases e with
  | take =>
    unfold next
    dsimp only
    split <;> exact h
  | released =>
    unfold next
    dsimp only
    split
    · exact List.mem_append_left _ h
    · exact h
  | acknowledge => exact List.mem_append_left _ h
  | finish | die => exact h

section

variable [DecidableEq ρ] {q : Queue ρ}

theorem ok_empty : Ok (empty : Queue ρ) where
  ordered _ := rfl
  done := List.prefix_rfl
  single := by simp [empty]
  unsent _ := by simp [empty]
  acked h := nomatch h

/-- Two splits of a list at its only barrier agree. -/
theorem Ok.drained (h : Ok q) (hAcked : .barrier ∈ q.finished) : q.Drained := by
  obtain ⟨rest, hRest⟩ := h.done
  refine ⟨hRest ▸ List.mem_append_left rest hAcked, ?_⟩
  intro before after hEq
  obtain ⟨done, left, hDone⟩ := List.append_of_mem hAcked
  -- the barrier of `finished` is the barrier of `entered`
  have hBefore : .barrier ∉ before := by
    intro hMem
    have hSingle := h.single
    rw [hEq, List.count_append, List.count_cons_self] at hSingle
    have hPos := List.count_pos_iff.mpr hMem
    omega
  have hLater : .barrier ∉ done := by
    intro hMem
    have hSingle := h.single
    rw [← hRest, hDone, List.append_assoc, List.count_append, List.cons_append,
      List.count_cons_self] at hSingle
    have hPos := List.count_pos_iff.mpr hMem
    omega
  have hSplit : before ++ .barrier :: after = done ++ .barrier :: (left ++ rest) := by
    rw [← hEq, ← hRest, hDone, List.append_assoc, List.cons_append]
  -- up to the barrier the two are the same
  have hSame : before = done := by
    have hTake := congrArg (List.takeWhile (· ≠ ReleaseCommand.barrier)) hSplit
    have hStop : ∀ (xs ys : List (ReleaseCommand ρ)), .barrier ∉ xs →
        List.takeWhile (· ≠ ReleaseCommand.barrier) (xs ++ .barrier :: ys) = xs := by
      intro xs ys hNot
      rw [List.takeWhile_append_of_pos]
      · simp
      · intro x hx
        simpa using fun hNo : x = ReleaseCommand.barrier => hNot (hNo ▸ hx)
    rw [hStop _ _ hBefore, hStop _ _ hLater] at hTake
    exact hTake
  rw [hSame, hDone]
  exact ⟨.barrier :: left, rfl⟩

/-- It is still in order after a release has entered, -/
theorem Ok.push_release (h : Ok q) (hOpen : q.closed = false) (request : ρ) :
    Ok (q.push (.release request)) where
  ordered _ := by
    show q.entered ++ _ = q.finished ++ (q.current ++ (q.pending ++ _))
    rw [h.ordered hOpen]
    simp only [List.append_assoc]
  done := h.done.trans (List.prefix_append _ _)
  single := by
    show (q.entered ++ [_]).count _ ≤ 1
    rw [List.count_append]
    simpa using h.single
  unsent hAck := by
    show _ ∉ q.entered ++ [_]
    simpa using h.unsent hAck
  acked := h.acked

/-- or was refused, -/
theorem Ok.offer (h : Ok q) (request : ρ) : Ok (q.offer request) := by
  unfold Queue.offer
  split
  · exact h
  · rename_i hRoom
    simp only [Bool.or_eq_true, not_or, Bool.not_eq_true] at hRoom
    exact h.push_release hRoom.1 request

/-- The first barrier is the only one. -/
theorem Ok.sendBarrier (h : Ok q) (hOpen : q.closed = false) (hAck : q.ack = none) :
    Ok q.sendBarrier where
  ordered _ := by
    show q.entered ++ _ = q.finished ++ (q.current ++ (q.pending ++ _))
    rw [h.ordered hOpen]
    simp only [List.append_assoc]
  done := h.done.trans (List.prefix_append _ _)
  single := by
    show (q.entered ++ [_]).count _ ≤ 1
    -- without a channel none has entered
    rw [List.count_append, List.count_eq_zero.mpr (h.unsent hAck)]
    simp
  unsent hNo := nomatch hNo
  acked hNo := nomatch hNo

theorem Ok.take (h : Ok q) {c : ReleaseCommand ρ} {rest : List (ReleaseCommand ρ)} {w : Worker ρ}
    (hWorker : q.worker = .receiving) (hPending : q.pending = c :: rest)
    (hW : w = match c with
      | .release request => .releasing request
      | .barrier => .acking) : Ok { q with pending := rest, worker := w } where
  ordered _ := by
    have hOrder := h.ordered (by simp [closed, hWorker])
    rw [hPending] at hOrder
    simp only [current, hWorker, List.nil_append] at hOrder
    subst hW
    cases c with
    | release request => exact hOrder
    | barrier => exact hOrder
  done := h.done
  single := h.single
  unsent := h.unsent
  acked := h.acked

/-- **Every step of the worker keeps the queue in order.** -/
theorem Ok.next (h : Ok q) {noSender : Bool} {e : WorkerEvent} (hEn : q.enabled noSender e = true) :
    Ok (q.next e) := by
  cases e with
  | take =>
    cases hWorker : q.worker with
    | receiving =>
      cases hPending : q.pending with
      | nil => simp [enabled, hWorker, hPending] at hEn
      | cons c rest =>
        unfold Queue.next
        cases c with
        | release request => simpa only [hPending] using h.take hWorker hPending rfl
        | barrier => simpa only [hPending] using h.take hWorker hPending rfl
    | _ => simp [enabled, hWorker] at hEn
  | released =>
    cases hWorker : q.worker with
    | releasing request =>
      -- what it had in its hands comes next in the history
      have hOrder := h.ordered (by simp [closed, hWorker])
      simp only [current, hWorker] at hOrder
      simp only [Queue.next, hWorker]
      refine ⟨fun _ => ?_, ?_, h.single, h.unsent, fun hA => List.mem_append_left _ (h.acked hA)⟩
      · show q.entered = (q.finished ++ _) ++ ([] ++ q.pending)
        rw [hOrder, List.append_assoc, List.nil_append]
      · show q.finished ++ _ <+: q.entered
        rw [hOrder, ← List.append_assoc]
        exact List.prefix_append _ _
    | _ => simp [enabled, hWorker] at hEn
  | acknowledge =>
    cases hWorker : q.worker with
    | acking =>
      have hOrder := h.ordered (by simp [closed, hWorker])
      simp only [current, hWorker] at hOrder
      refine ⟨fun _ => ?_, ?_, h.single, ?_, fun _ => List.mem_append_right _ (by simp)⟩
      · show q.entered = (q.finished ++ _) ++ ([] ++ q.pending)
        rw [hOrder, List.append_assoc, List.nil_append]
      · show q.finished ++ _ <+: q.entered
        rw [hOrder, ← List.append_assoc]
        exact List.prefix_append _ _
      · intro hNone
        exact h.unsent (Option.map_eq_none_iff.mp hNone)
    | _ => simp [enabled, hWorker] at hEn
  | finish =>
    exact ⟨fun hNo => (nomatch hNo), h.done, h.single, h.unsent, h.acked⟩
  | die =>
    refine ⟨fun hNo => (nomatch hNo), h.done, h.single, ?_, ?_⟩
    · intro hNone
      exact h.unsent (Option.map_eq_none_iff.mp hNone)
    -- no acknowledgement comes of it
    · intro hAcked
      refine h.acked ?_
      unfold Queue.acked at hAcked ⊢
      cases hAck : q.ack with
      | none => simp [Queue.next, hAck] at hAcked
      | some ch => simpa [Queue.next, hAck, Channel.dropTx] using hAcked

end

end Queue

end RLock.Manager
