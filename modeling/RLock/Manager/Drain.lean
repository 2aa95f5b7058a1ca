import RLock.Manager.Queue
import RLock.Lib.Fairness
import Mathlib.Data.List.Basic

/-!
# RLock — the release queue drains

What a worker that goes on does for the release queue of either manager: room comes
back, what has entered is finished, and the barrier is answered. The worker may stop at
any moment, and then the queue is closed.

The results are about any machine that keeps such a queue and in which nobody but the
worker takes from it (`Hosts`); both managers are such machines. A step of the others
only feeds the queue (`Fed`), and does not change what the worker is at. A step of the
worker ends it, begins with a command, or is done with one (`next_cases`), so a command
costs two steps. `Hosts.counted` makes of such a count that it runs out in every run in
which the worker is diligent, and the two results below are a choice of what to count.

What the sender of the barrier can rely on is an invariant of its own (`Answers`): the
channel of the acknowledgement is there from the moment the barrier has entered, and it
is used or dropped when the barrier is finished or the worker has stopped.

## Results

* `Hosts` — a machine in which nobody but the worker takes from the queue.
* `Hosts.drains` — as many commands are finished as have entered.
* `Hosts.finishes` — each of them in its turn.
* `Hosts.gives_room` — a full queue has room again.
* `Answers.answered` — the sender of the barrier learns what became of it.
-/

namespace RLock.Manager

namespace Queue

variable {ρ : Type}

/-- The step the worker is at, unless it stops. -/
def turn (q : Queue ρ) : WorkerEvent :=
  match q.worker with
  | .releasing _ => .released
  | .acking => .acknowledge
  | _ => .take

/-- What others than the worker do to the queue. -/
inductive Fed (q : Queue ρ) : Queue ρ → Prop
  | same : Fed q q
  | offer (request : ρ) : Fed q (q.offer request)
  | barrier (hOpen : q.closed = false) (hRoom : q.full = false) (hAck : q.ack = none) :
      Fed q q.sendBarrier

/-- What the one who sent the barrier can rely on. -/
structure Answers (q : Queue ρ) : Prop where
  entered : q.ack ≠ none → .barrier ∈ q.entered
  alive : ∀ ch ∈ q.ack, ch.rxAlive = true
  acked : .barrier ∈ q.finished → q.acked = true
  dropped : q.dead = true → ∀ ch ∈ q.ack, ch.txAlive = false
  unacked : q.unacked = true → q.dead = true

/-- The queue is no longer than its buffer, and nothing is left behind in it when the
last sender is gone. -/
structure Fits (q : Queue ρ) : Prop where
  room : q.pending.length ≤ recycleChannelBuffer
  emptied : q.closed = true → q.dead = true ∨ q.finished = q.entered

section

variable {q q' : Queue ρ} {noSender : Bool} {e : WorkerEvent}

theorem closed_of_dead (h : q.dead = true) : q.closed = true := by
  unfold dead at h
  unfold closed
  split at h
  · rename_i hWorker
    rw [hWorker]
  · cases h

/-- The worker does nothing any more once it is gone. -/
theorem open_of_enabled (hEn : q.enabled noSender e = true) : q.closed = false := by
  unfold closed
  cases hWorker : q.worker with
  | receiving | releasing _ | acking => rfl
  | ended | died => cases e <;> simp [enabled, closed, hWorker] at hEn

/-- The worker is gone because it stopped, or because nobody can send any more. -/
theorem next_closed (hEn : q.enabled noSender e = true) (hClosed : (q.next e).closed = true) :
    noSender = true ∨ (q.next e).dead = true := by
  have hOpen := open_of_enabled hEn
  cases e with
  | finish =>
    left
    unfold enabled at hEn
    dsimp only at hEn
    split at hEn
    · exact hEn
    · cases hEn
  | die => exact Or.inr rfl
  -- after a command it is there
  | acknowledge => cases hClosed
  | take | released =>
    unfold Queue.next at hClosed
    dsimp only at hClosed
    split at hClosed
    all_goals first
      | cases hClosed
      | exact absurd (hOpen.symm.trans hClosed) (by decide)

/-- What a step of the worker does: it stops, begins with a command, or is done
with it. -/
theorem next_cases (hEn : q.enabled noSender e = true) :
    (q.next e).closed = true ∨
      (∃ c rest, q.current = [] ∧ q.pending = c :: rest ∧ (q.next e).current = [c] ∧
        (q.next e).pending = rest ∧ (q.next e).finished = q.finished) ∨
      ∃ c, q.current = [c] ∧ (q.next e).current = [] ∧ (q.next e).pending = q.pending ∧
        (q.next e).finished = q.finished ++ [c] := by
  cases e with
  | take =>
    cases hWorker : q.worker with
    | receiving =>
      cases hPending : q.pending with
      | nil => simp [enabled, hWorker, hPending] at hEn
      | cons c rest =>
        refine Or.inr (Or.inl ⟨c, rest, by simp [current, hWorker], rfl, ?_⟩)
        cases c <;> simp [Queue.next, current, hPending]
    | _ => simp [enabled, hWorker] at hEn
  | released =>
    cases hWorker : q.worker with
    | releasing request =>
      refine Or.inr (Or.inr ⟨.release request, ?_⟩)
      simp [Queue.next, current, hWorker]
    | _ => simp [enabled, hWorker] at hEn
  | acknowledge =>
    cases hWorker : q.worker with
    | acking => exact Or.inr (Or.inr ⟨.barrier, by simp [current, hWorker], rfl, rfl, rfl⟩)
    | _ => simp [enabled, hWorker] at hEn
  | finish | die => exact Or.inl rfl

/-- A barrier that was sent has a channel for good. -/
theorem next_ack (h : q.ack ≠ none) (e : WorkerEvent) : (q.next e).ack ≠ none := by
  cases e with
  | take | released =>
    unfold Queue.next
    dsimp only
    split <;> exact h
  | acknowledge | die =>
    show q.ack.map _ ≠ none
    exact fun hNo => h (Option.map_eq_none_iff.mp hNo)
  | finish => exact h

/-- The worker puts nothing into the queue. -/
theorem next_entered (e : WorkerEvent) : (q.next e).entered = q.entered := by
  unfold Queue.next
  split
  · split <;> rfl
  · split <;> rfl
  all_goals rfl

/-- A worker that is not gone has something to do while there is something. -/
theorem turn_enabled (hOpen : q.closed = false) (hBusy : q.current ≠ [] ∨ q.pending ≠ []) :
    q.enabled noSender q.turn = true := by
  unfold turn
  cases hWorker : q.worker with
  | receiving =>
    cases hPending : q.pending with
    | nil =>
      rcases hBusy with hNo | hNo
      · exact absurd (by simp [current, hWorker]) hNo
      · exact absurd hPending hNo
    | cons c rest => simp [enabled, hWorker, hPending]
  | releasing request | acking => simp [enabled, hWorker]
  | ended | died =>
    unfold closed at hOpen
    rw [hWorker] at hOpen
    cases hOpen

theorem turn_ne_die (q : Queue ρ) : q.turn ≠ .die := by
  unfold turn
  split <;> exact fun hNo => (nomatch hNo)

/-- Others leave the worker alone and only add to the queue. -/
theorem Fed.keeps (h : Fed q q') : q'.worker = q.worker ∧ q'.finished = q.finished ∧
    q.entered <+: q'.entered ∧ (q.full = true → q'.pending = q.pending) := by
  cases h with
  | same => exact ⟨rfl, rfl, List.prefix_rfl, fun _ => rfl⟩
  | offer request =>
    unfold Queue.offer
    split
    · exact ⟨rfl, rfl, List.prefix_rfl, fun _ => rfl⟩
    -- into a full queue nothing is pushed
    · rename_i hRoom
      refine ⟨rfl, rfl, List.prefix_append _ _, fun hFull => ?_⟩
      rw [hFull, Bool.or_true] at hRoom
      exact absurd rfl hRoom
  | barrier hOpen hRoom =>
    refine ⟨rfl, rfl, List.prefix_append _ _, fun hFull => ?_⟩
    rw [hFull] at hRoom
    cases hRoom

theorem Fed.closed (h : Fed q q') : q'.closed = q.closed := by
  unfold Queue.closed
  rw [h.keeps.1]

theorem Fed.current (h : Fed q q') : q'.current = q.current := by
  unfold Queue.current
  rw [h.keeps.1]

theorem Fed.dead (h : Fed q q') : q'.dead = q.dead := by
  unfold Queue.dead
  rw [h.keeps.1]

/-- A barrier that was sent keeps its channel. -/
theorem Fed.ack (h : Fed q q') (hSent : q.ack ≠ none) : q'.ack ≠ none := by
  cases h with
  | same => exact hSent
  | offer request =>
    rw [offer_ack]
    exact hSent
  | barrier _ _ hNone => exact absurd hNone hSent

theorem Fed.turn (h : Fed q q') : q'.turn = q.turn := by
  unfold Queue.turn
  rw [h.keeps.1]

theorem answers_empty : Answers (empty : Queue ρ) where
  entered hNo := absurd rfl hNo
  alive _ hNo := nomatch hNo
  acked hNo := nomatch hNo
  dropped hNo := nomatch hNo
  unacked hNo := nomatch hNo

theorem fits_empty : Fits (empty : Queue ρ) where
  room := Nat.zero_le _
  emptied hNo := nomatch hNo

/-- A command that enters finds room, so the queue still fits. -/
theorem push_room (c : ReleaseCommand ρ) (hRoom : q.full = false) :
    (q.push c).pending.length ≤ recycleChannelBuffer := by
  have hLess : q.pending.length < recycleChannelBuffer := by
    simpa [full] using hRoom
  show (q.pending ++ [c]).length ≤ recycleChannelBuffer
  rw [List.length_append]
  exact hLess

/-- What others do keeps it within its buffer. -/
theorem Fits.fed (h : Fits q) (hFed : Fed q q') : Fits q' := by
  cases hFed with
  | same => exact h
  | offer request =>
    unfold Queue.offer
    split
    · exact h
    · rename_i hRoom
      simp only [Bool.or_eq_true, not_or, Bool.not_eq_true] at hRoom
      exact ⟨push_room _ hRoom.2, fun hNo => absurd (hRoom.1.symm.trans hNo) (by decide)⟩
  | barrier hOpen hRoom hAck =>
    exact ⟨push_room _ hRoom, fun hNo => absurd (hOpen.symm.trans hNo) (by decide)⟩

/-- **The one who sent the barrier learns** that it was reached, or that it never
will be. -/
theorem Answers.answered (h : Answers q) (hSent : q.ack ≠ none)
    (hEnd : .barrier ∈ q.finished ∨ q.dead = true) : (q.acked || q.unacked) = true := by
  rcases hEnd with hFinished | hDead
  · rw [h.acked hFinished, Bool.true_or]
  · obtain ⟨ch, hAck⟩ := Option.ne_none_iff_exists'.mp hSent
    have hDropped := h.dropped hDead ch hAck
    cases hValue : ch.value <;> simp [Queue.acked, Queue.unacked, hAck, hDropped, hValue]

variable [DecidableEq ρ]

/-- What others do takes nothing from the sender of the barrier. -/
theorem Answers.fed (h : Answers q) (hOk : q.Ok) (hFed : Fed q q') : Answers q' := by
  cases hFed with
  | same => exact h
  | offer request =>
    unfold Queue.offer
    split
    · exact h
    · exact ⟨fun hSent => List.mem_append_left _ (h.entered hSent), h.alive, h.acked, h.dropped,
        h.unacked⟩
  | barrier hOpen hRoom hAck =>
    -- the barrier enters with a fresh channel
    refine ⟨fun _ => List.mem_append_right _ List.mem_cons_self, ?_, fun hFinished => ?_,
      fun hDead => ?_, fun hNo => (nomatch hNo)⟩
    · rintro ch ⟨⟩
      rfl
    · exact absurd (hOk.done.subset hFinished) (hOk.unsent hAck)
    · have hClosed : q.closed = true := closed_of_dead hDead
      rw [hOpen] at hClosed
      cases hClosed

theorem Answers.next (h : Answers q) (hOk : q.Ok) (hEn : q.enabled noSender e = true) :
    Answers (q.next e) := by
  -- a channel dropped unused means that the worker has stopped
  have hNotYet : q.unacked = true → False := by
    intro hUnacked
    have hOpen := open_of_enabled hEn
    rw [closed_of_dead (h.unacked hUnacked)] at hOpen
    cases hOpen
  cases e with
  | take =>
    cases hWorker : q.worker with
    | receiving =>
      cases hPending : q.pending with
      | nil => simp [enabled, hWorker, hPending] at hEn
      | cons c rest =>
        unfold Queue.next
        rw [hPending]
        cases c <;> exact ⟨h.entered, h.alive, h.acked, fun hNo => (by cases hNo),
          fun hOld => (hNotYet hOld).elim⟩
    | _ => simp [enabled, hWorker] at hEn
  | released =>
    cases hWorker : q.worker with
    | releasing request =>
      unfold Queue.next
      rw [hWorker]
      exact ⟨h.entered, h.alive, fun hMem => h.acked (by simpa using hMem),
        fun hNo => (by cases hNo), fun hOld => (hNotYet hOld).elim⟩
    | _ => simp [enabled, hWorker] at hEn
  | acknowledge =>
    cases hWorker : q.worker with
    | acking =>
      -- the barrier in the hands of the worker has a channel
      have hEntered : .barrier ∈ q.entered := by
        rw [hOk.ordered (by simp [closed, hWorker])]
        simp [current, hWorker]
      cases hAck : q.ack with
      | none => exact absurd hEntered (hOk.unsent hAck)
      | some ch =>
        have hAlive := h.alive ch hAck
        refine ⟨fun _ => hEntered, ?_, fun _ => ?_, fun hNo => (by cases hNo), fun hNo => ?_⟩
        · simp [Queue.next, hAck, Channel.send, hAlive]
        · simp [Queue.next, Queue.acked, hAck, Channel.send, hAlive]
        · simp [Queue.next, Queue.unacked, hAck, Channel.send, hAlive] at hNo
    | _ => simp [enabled, hWorker] at hEn
  | finish =>
    exact ⟨h.entered, h.alive, h.acked, fun hNo => (by cases hNo), fun hOld => (hNotYet hOld).elim⟩
  | die =>
    refine ⟨fun hSent => h.entered fun hNo => hSent (by simp [Queue.next, hNo]), ?_,
      fun hMem => ?_, ?_, fun _ => rfl⟩
    · intro ch hch
      obtain ⟨old, hOld, rfl⟩ := Option.map_eq_some_iff.mp hch
      exact h.alive old hOld
    -- what was acknowledged stays so
    · have hAcked := h.acked hMem
      cases hAck : q.ack <;> simp_all [Queue.next, Queue.acked, Channel.dropTx]
    · rintro - ch hch
      obtain ⟨old, -, rfl⟩ := Option.map_eq_some_iff.mp hch
      rfl

/-- A step of the worker keeps the queue within its buffer, and it leaves for want of senders only
when the queue is empty. -/
theorem Fits.next (h : Fits q) (hOk : q.Ok) (hEn : q.enabled noSender e = true) :
    Fits (q.next e) := by
  have hOpen := open_of_enabled hEn
  constructor
  · have hShrinks : (q.next e).pending.length ≤ q.pending.length := by
      unfold Queue.next
      split
      · split <;> simp [*]
      · split <;> exact Nat.le_refl _
      · exact Nat.le_refl _
      · exact Nat.le_refl _
      · exact Nat.zero_le _
    exact Nat.le_trans hShrinks h.room
  · intro hClosed
    cases e with
    | finish =>
      unfold enabled at hEn
      dsimp only at hEn
      split at hEn
      · rename_i hWorker hPending
        -- nothing is pending and nothing in its hands, so all that entered is finished
        have hOrder := hOk.ordered hOpen
        rw [hPending, List.append_nil] at hOrder
        simp only [current, hWorker, List.append_nil] at hOrder
        exact Or.inr hOrder.symm
      · cases hEn
    | die => exact Or.inl rfl
    | acknowledge => cases hClosed
    | take | released =>
      unfold Queue.next at hClosed
      dsimp only at hClosed
      split at hClosed
      all_goals first
        | cases hClosed
        | exact absurd (hOpen.symm.trans hClosed) (by decide)

/-- What others do keeps the queue in order. -/
theorem Ok.fed (h : Ok q) (hFed : Fed q q') : Ok q' := by
  cases hFed with
  | same => exact h
  | offer request => exact h.offer request
  | barrier hOpen _ hAck => exact h.sendBarrier hOpen hAck

end

-- ---------------------------------------------------------------------------
-- Machines with a release queue
-- ---------------------------------------------------------------------------

section

variable {σ ε : Type} [DecidableEq ρ]

/-- Nobody but the worker takes from the queue. -/
structure Hosts (M : Machine σ ε) (queue : σ → Queue ρ) (worker : WorkerEvent → ε) : Prop where
  init : ∀ s, M.init s → queue s = empty
  next : ∀ s e, queue (M.next s (worker e)) = (queue s).next e
  step : ∀ s d, M.Reachable s → M.enabled s d →
    (∃ e noSender, d = worker e ∧ (queue s).enabled noSender e = true) ∨
      Fed (queue s) (queue (M.next s d))

/-- A worker that goes on with what it can do. -/
def Diligent {M : Machine σ ε} (r : M.Run) (queue : σ → Queue ρ) (worker : WorkerEvent → ε) :
    Prop :=
  ∀ e, e ≠ .die → r.Just (fun s => (queue s).enabled false e = true) (worker e)

variable {M : Machine σ ε} {queue : σ → Queue ρ} {worker : WorkerEvent → ε} {r : M.Run}

/-- **The queue of every reachable state** is in order. -/
theorem Hosts.ok (h : Hosts M queue worker) {s : σ} (hs : M.Reachable s) :
    (queue s).Ok ∧ (queue s).Answers ∧ (queue s).Fits := by
  refine Machine.Reachable.invariant_of (J := M.Reachable)
    (I := fun s => (queue s).Ok ∧ (queue s).Answers ∧ (queue s).Fits) (fun _ hs => hs)
    (fun s hInit => ?_) ?_ hs
  · rw [h.init s hInit]
    exact ⟨ok_empty, answers_empty, fits_empty⟩
  · intro s d hs ⟨hOk, hAnswers, hFits⟩ hEn
    rcases h.step s d hs hEn with ⟨e, noSender, rfl, hWorker⟩ | hFed
    · rw [h.next]
      exact ⟨hOk.next hWorker, hAnswers.next hOk hWorker, hFits.next hOk hWorker⟩
    · exact ⟨hOk.fed hFed, hAnswers.fed hOk hFed, hFits.fed hFed⟩

/-- **What every step of the worker counts down** and nobody else counts up comes to
its end. -/
theorem Hosts.counted (h : Hosts M queue worker) (hFair : Diligent r queue worker)
    {P : Queue ρ → Prop} (rank : Queue ρ → Nat)
    (hWork : ∀ q e noSender, q.Ok → q.Fits → P q → q.enabled noSender e = true →
      (q.next e).closed = true ∨ ¬ P (q.next e) ∨ rank (q.next e) < rank q)
    (hFed : ∀ q q', P q → Fed q q' → ¬ P q' ∨ rank q' = rank q)
    (hBusy : ∀ q, q.Ok → P q → q.closed = false → q.current ≠ [] ∨ q.pending ≠ []) :
    r.Leads (fun s => P (queue s)) fun s => ¬ P (queue s) ∨ (queue s).closed = true := by
  refine .ranked (fun s => rank (queue s)) fun k => ?_
  -- what one step of the worker makes of it
  have hLess : ∀ s e noSender, M.Reachable s → P (queue s) → rank (queue s) = k →
      (queue s).enabled noSender e = true →
      (¬ P ((queue s).next e) ∨ ((queue s).next e).closed = true) ∨
        P ((queue s).next e) ∧ rank ((queue s).next e) < k := by
    rintro s e noSender hs hP rfl hEn
    rcases hWork _ e noSender (h.ok hs).1 (h.ok hs).2.2 hP hEn with hClosed | hNot | hLess
    · exact Or.inl (Or.inr hClosed)
    · exact Or.inl (Or.inl hNot)
    · by_cases hP' : P ((queue s).next e)
      · exact Or.inr ⟨hP', hLess⟩
      · exact Or.inl (Or.inl hP')
  -- the worker is fair to each of its steps, so one of them at a time
  have hOne : ∀ e, r.Leads
      (fun s => (P (queue s) ∧ rank (queue s) = k) ∧ (queue s).closed = false ∧
        (queue s).turn = e)
      fun s => (¬ P (queue s) ∨ (queue s).closed = true) ∨ P (queue s) ∧ rank (queue s) < k := by
    intro e
    -- it is never its turn to stop
    by_cases hDie : e = .die
    · rintro n ⟨-, -, hTurn⟩
      exact absurd (hTurn.trans hDie) (turn_ne_die _)
    -- while it is there and busy its turn can come
    have hDue : ∀ s, M.Reachable s → P (queue s) → (queue s).closed = false →
        (queue s).turn = e → (queue s).enabled false e = true := by
      rintro s hs hP hOpen rfl
      exact turn_enabled hOpen (hBusy _ (h.ok hs).1 hP hOpen)
    refine .just (hFair e hDie) ?_ ?_ ?_
    · rintro s d hs ⟨⟨hP, hRank⟩, hOpen, hTurn⟩ hEn
      -- whatever happens, it is one step of the worker or none
      rcases h.step s d hs hEn with ⟨e', noSender, rfl, hWorker⟩ | hOther
      · rw [h.next]
        exact Or.inr (hLess s e' noSender hs hP hRank hWorker)
      · rcases hFed _ _ hP hOther with hNot | hSame
        · exact Or.inr (Or.inl (Or.inl hNot))
        · by_cases hP' : P (queue (M.next s d))
          · exact Or.inl ⟨⟨hP', hSame.trans hRank⟩, hOther.closed.trans hOpen,
              hOther.turn.trans hTurn⟩
          · exact Or.inr (Or.inl (Or.inl hP'))
    · rintro s hs ⟨⟨hP, hRank⟩, hOpen, hTurn⟩ -
      rw [h.next]
      exact hLess s e false hs hP hRank (hDue s hs hP hOpen hTurn)
    · rintro s hs ⟨⟨hP, -⟩, hOpen, hTurn⟩
      exact Or.inl (hDue s hs hP hOpen hTurn)
  intro n hn
  cases hOpen : (queue (r.state n)).closed with
  | true => exact ⟨n, Nat.le_refl n, Or.inl (Or.inr hOpen)⟩
  | false => exact hOne _ n ⟨hn, hOpen, rfl⟩

omit [DecidableEq ρ] in
/-- What has entered stays in the history. -/
theorem Hosts.entered (h : Hosts M queue worker) {s : σ} {d : ε} (hs : M.Reachable s)
    (hEn : M.enabled s d) : (queue s).entered <+: (queue (M.next s d)).entered := by
  rcases h.step s d hs hEn with ⟨e, _, rfl, -⟩ | hFed
  · rw [h.next, next_entered]
  · exact hFed.keeps.2.2.1

/-- **As many commands are finished as have entered**, unless the worker stops. -/
theorem Hosts.drains (h : Hosts M queue worker) (hFair : Diligent r queue worker) (n : Nat) :
    r.Leads (fun s => n ≤ (queue s).entered.length)
      fun s => n ≤ (queue s).finished.length ∨ (queue s).closed = true := by
  have hCount := h.counted hFair
    (P := fun q => q.finished.length < n ∧ n ≤ q.entered.length)
    (fun q => 2 * (n - q.finished.length) - q.current.length) ?_ ?_ ?_
  -- what has entered stays
  · have hKeep : ∀ s d, M.Reachable s → n ≤ (queue s).entered.length → M.enabled s d →
        n ≤ (queue (M.next s d)).entered.length :=
      fun s d hs hn hEn => Nat.le_trans hn (h.entered hs hEn).length_le
    intro m hm
    by_cases hDone : n ≤ (queue (r.state m)).finished.length
    · exact ⟨m, Nat.le_refl m, Or.inl hDone⟩
    · obtain ⟨j, hj, hEnd⟩ := hCount m ⟨Nat.lt_of_not_le hDone, hm⟩
      refine ⟨j, hj, hEnd.imp_left fun hNot => ?_⟩
      have hEntered := Machine.Run.stable hKeep hm hj
      exact Nat.le_of_not_lt fun hLess => hNot ⟨hLess, hEntered⟩
  · rintro q e noSender hOk - ⟨hLess, hEntered⟩ hEn
    rcases next_cases hEn with hClosed | ⟨c, rest, hIdle, -, hCurrent, -, hFinished⟩ |
      ⟨c, hBusy, hCurrent, -, hFinished⟩
    · exact Or.inl hClosed
    · refine Or.inr (Or.inr ?_)
      rw [hFinished, hCurrent, hIdle, List.length_singleton, List.length_nil]
      omega
    · refine Or.inr (Or.inr ?_)
      rw [hFinished, hCurrent, hBusy, List.length_append, List.length_singleton, List.length_nil]
      omega
  · rintro q q' - hFed
    refine Or.inr ?_
    rw [hFed.keeps.2.1, hFed.current]
  · rintro q hOk ⟨hLess, hEntered⟩ hOpen
    -- otherwise all that entered is finished
    by_contra hNone
    rw [not_or, not_not, not_not] at hNone
    have hLength := congrArg List.length (hOk.ordered hOpen)
    rw [hNone.1, hNone.2, List.append_nil, List.append_nil] at hLength
    omega

/-- **What has entered is finished** in its turn, unless the worker stops unexpectedly. -/
theorem Hosts.finishes (h : Hosts M queue worker) (hFair : Diligent r queue worker) (p : Nat)
    (c : ReleaseCommand ρ) : r.Leads (fun s => (queue s).entered[p]? = some c)
      fun s => (queue s).finished[p]? = some c ∨ (queue s).dead = true := by
  intro n hn
  have hKeep : ∀ s d, M.Reachable s → (queue s).entered[p]? = some c → M.enabled s d →
      (queue (M.next s d)).entered[p]? = some c := by
    intro s d hs hp hEn
    obtain ⟨more, hMore⟩ := h.entered hs hEn
    rw [← hMore]
    exact (List.getElem?_append_left (List.getElem?_eq_some_iff.mp hp).1).trans hp
  obtain ⟨m, hm, hEnd⟩ := h.drains hFair (p + 1) n (List.getElem?_eq_some_iff.mp hn).1
  have hAt := Machine.Run.stable hKeep hn hm
  obtain ⟨hOk, -, hFits⟩ := h.ok (r.reachable m)
  refine ⟨m, hm, ?_⟩
  -- the history of what is finished is a prefix of the other
  rcases hEnd with hLong | hClosed
  · obtain ⟨rest, hRest⟩ := hOk.done
    rw [← hRest, List.getElem?_append_left hLong] at hAt
    exact Or.inl hAt
  · refine (hFits.emptied hClosed).symm.imp_left fun hAll => ?_
    rw [hAll]
    exact hAt

/-- **A full queue has room again**, unless the worker stops. -/
theorem Hosts.gives_room (h : Hosts M queue worker) (hFair : Diligent r queue worker) :
    r.Leads (fun s => (queue s).full = true)
      fun s => (queue s).full = false ∨ (queue s).closed = true := by
  have hCount := h.counted hFair (P := fun q => q.full = true) (fun q => q.current.length) ?_ ?_ ?_
  · intro n hn
    obtain ⟨m, hm, hEnd⟩ := hCount n hn
    exact ⟨m, hm, hEnd.imp_left (Bool.not_eq_true _).mp⟩
  · intro q e noSender _ hFits hFull hEn
    rcases next_cases hEn with hClosed | ⟨c, rest, -, hPending, -, hRest, -⟩ |
      ⟨c, hBusy, hCurrent, -⟩
    · exact Or.inl hClosed
    · -- it took a command out
      refine Or.inr (Or.inl ?_)
      have hRoom := hFits.room
      rw [hPending, List.length_cons] at hRoom
      unfold full
      rw [hRest, decide_eq_true_eq]
      omega
    · refine Or.inr (Or.inr ?_)
      rw [hCurrent, hBusy]
      exact Nat.zero_lt_one
  · intro q q' hFull hFed
    refine Or.inr ?_
    rw [hFed.current]
  · intro q hOk hFull hOpen
    refine Or.inr fun hNone => ?_
    unfold full at hFull
    rw [hNone] at hFull
    cases hFull

end

end Queue

end RLock.Manager
