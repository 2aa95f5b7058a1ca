import RLock.Client.Waiting

/-!
# RLock — waiting for a deadline

`wait_for_deadline`: for the deadline of a request, and for the time between two
attempts. It sleeps for a day at most, since longer timers are out of Tokio's range, and
then looks at the clock again; so a timer is as late as the task was slow between the
clock and the timer. `select!` may drop it at any time, which ends a run.

Time is an event of its own, and the clock never goes back. What remains until the
deadline is counted in segments of a day (`segments`), from the instant at which the clock
can be looked at next (`State.due`). A timer that is set makes that instant later by its
length and so pays for itself; time that goes by can only lower the number. Hence a wait
sets no more timers than there are segments at its beginning.

## Results

* `Timer.bounds` — a timer is positive, a day at most, and ends with the deadline.
* `left_next` — what one step leaves to do.
* `served_of_elapsed` — after the deadline the wait has returned, can go on, or sleeps on
  a timer that is due.
* `wait_for_deadline_returns` — never before the deadline, and after so many timers.
-/

namespace RLock.Async.Deadline

open RLock.Client

/-- Where `wait_for_deadline` stands. -/
inductive Wait
  | entered
  /-- in `future::pending` -/
  | pending
  /-- `start.elapsed()` is next -/
  | looking (limit : Nat)
  /-- the clock showed `asked`, the timer is set next -/
  | setting (limit : Nat) (asked : Int) (segment : Nat)
  | sleeping (limit : Nat) (asked since : Int) (segment : Nat)
  | returned
  deriving DecidableEq, Repr

/-- One wait, and the clock it looks at. -/
structure State where
  now : Int
  wait : Wait
  deriving DecidableEq, Repr

inductive Event
  | pass (now : Int)
  | enter
  | look
  | sleep
  | wake
  deriving DecidableEq, Repr

/-- The steps of `wait_for_deadline`. -/
def Event.own : Event → Bool
  | .pass _ => false
  | _ => true

/-- The event that sets a timer. -/
def Event.sets (e : Event) : Bool := e = .sleep

/-- `timeout.saturating_sub(start.elapsed())` -/
def remaining (start : Int) (limit : Nat) (now : Int) : Nat := limit - elapsed now start

/-- Timers fire when they are due, or later. -/
def enabled (s : State) : Event → Bool
  | .pass now => s.now ≤ now
  | .enter => s.wait = .entered
  | .look => match s.wait with
    | .looking _ => true
    | _ => false
  | .sleep => match s.wait with
    | .setting _ _ _ => true
    | _ => false
  | .wake => match s.wait with
    | .sleeping _ _ since segment => since + segment ≤ s.now
    | _ => false

/-- The step of an event. -/
def next (start : Int) (timeout : Option Nat) (s : State) : Event → State
  | .pass now => { s with now := now }
  | .enter =>
    { s with
      wait := match timeout with
        | none => .pending
        | some limit => .looking limit }
  | .look => match s.wait with
    | .looking limit =>
      let left := remaining start limit s.now
      { s with
        wait := if left = 0 then .returned else .setting limit s.now (min left Waiting.day) }
    | _ => s
  | .sleep => match s.wait with
    | .setting limit asked segment => { s with wait := .sleeping limit asked s.now segment }
    | _ => s
  | .wake => match s.wait with
    | .sleeping limit _ _ _ => { s with wait := .looking limit }
    | _ => s

/-- The wait as a machine, entered after `start` was read. -/
def waitForDeadline (start : Int) (timeout : Option Nat) : Machine State Event where
  init s := s.wait = .entered ∧ start ≤ s.now
  enabled s e := enabled s e = true
  next := next start timeout

instance (start : Int) (timeout : Option Nat) (s : State) (e : Event) :
    Decidable ((waitForDeadline start timeout).enabled s e) :=
  inferInstanceAs (Decidable (enabled s e = true))

section

variable {start : Int} {timeout : Option Nat} {limit segment : Nat} {now now' asked : Int}
  {s t : State}

-- ---------------------------------------------------------------------------
-- The timer
-- ---------------------------------------------------------------------------

/-- What the timer is set to when the clock shows `asked`. -/
structure Timer (start : Int) (timeout : Option Nat) (limit : Nat) (asked : Int)
    (segment : Nat) : Prop where
  limited : timeout = some limit
  started : start ≤ asked
  left : remaining start limit asked ≠ 0
  segment_eq : segment = min (remaining start limit asked) Waiting.day

/-- A timer is positive, a day at most, and ends no later than the deadline, counted from the
instant that was read. -/
theorem Timer.bounds (h : Timer start timeout limit asked segment) :
    0 < segment ∧ segment ≤ Waiting.day ∧ asked + segment ≤ start + limit := by
  obtain ⟨-, hStarted, hLeft, rfl⟩ := h
  unfold remaining elapsed Waiting.day at *
  omega

/-- The task knows what it has read of the clock. -/
def Wait.Ok (start : Int) (timeout : Option Nat) (now : Int) : Wait → Prop
  | .entered => True
  | .pending => timeout = none
  | .looking limit => timeout = some limit
  | .setting limit asked segment => Timer start timeout limit asked segment ∧ asked ≤ now
  | .sleeping limit asked since segment =>
    Timer start timeout limit asked segment ∧ asked ≤ since ∧ since ≤ now
  | .returned => deadlineElapsed now start timeout = true

/-- The clock has not gone back, and the task knows what it read. -/
structure Inv (start : Int) (timeout : Option Nat) (s : State) : Prop where
  started : start ≤ s.now
  ok : s.wait.Ok start timeout s.now

/-- If nothing remains, the deadline has passed. -/
theorem elapsed_of_remaining (h : remaining start limit now = 0) :
    deadlineElapsed now start (some limit) = true :=
  decide_eq_true (Nat.sub_eq_zero_iff_le.mp h)

theorem remaining_of_elapsed (h : deadlineElapsed now start (some limit) = true) :
    remaining start limit now = 0 :=
  Nat.sub_eq_zero_of_le (of_decide_eq_true h)

/-- What was read stays true when time passes. -/
theorem Wait.Ok.later {w : Wait} (hNow : now ≤ now') (h : w.Ok start timeout now) :
    w.Ok start timeout now' := by
  cases w with
  | entered | pending | looking limit => exact h
  | setting limit asked segment => exact ⟨h.1, h.2.trans hNow⟩
  | sleeping limit asked since segment => exact ⟨h.1, h.2.1, h.2.2.trans hNow⟩
  | returned => exact deadlineElapsed_mono hNow h

/-- **One event** keeps the invariant. -/
theorem Inv.step {e : Event} (h : Inv start timeout s) (hEn : enabled s e = true) :
    Inv start timeout (next start timeout s e) := by
  obtain ⟨now, w⟩ := s
  obtain ⟨hStarted, hOk⟩ := h
  cases e with
  | pass now' =>
    have hNow : now ≤ now' := of_decide_eq_true hEn
    exact ⟨hStarted.trans hNow, hOk.later hNow⟩
  | enter =>
    cases timeout with
    | none => exact ⟨hStarted, rfl⟩
    | some limit => exact ⟨hStarted, rfl⟩
  | look =>
    cases w with
    | looking limit =>
      refine ⟨hStarted, ?_⟩
      show (if _ then _ else _ : Wait).Ok start timeout now
      obtain rfl : timeout = some limit := hOk
      split
      · rename_i hZero
        -- it returns only here
        exact elapsed_of_remaining hZero
      · rename_i hLeft
        exact ⟨⟨rfl, hStarted, hLeft, rfl⟩, le_rfl⟩
    | _ => cases hEn
  | sleep =>
    cases w with
    | setting limit asked segment => exact ⟨hStarted, hOk.1, hOk.2, le_rfl⟩
    | _ => cases hEn
  | wake =>
    cases w with
    | sleeping limit asked since segment => exact ⟨hStarted, hOk.1.limited⟩
    | _ => cases hEn

theorem inv_of_reachable (hs : (waitForDeadline start timeout).Reachable s) :
    Inv start timeout s := by
  refine hs.invariant (fun s hInit => ⟨hInit.2, ?_⟩) fun s e h hEn => h.step hEn
  rw [hInit.1]
  trivial

-- ---------------------------------------------------------------------------
-- How far it has to go
-- ---------------------------------------------------------------------------

/-- How many timers it takes to sleep for this long. -/
def segments (left : Nat) : Nat := (left + Waiting.day - 1) / Waiting.day

theorem segments_mono {m n : Nat} (h : m ≤ n) : segments m ≤ segments n :=
  Nat.div_le_div_right (by omega)

theorem segments_zero : segments 0 = 0 := by decide

/-- The timer of one segment leaves one less. -/
theorem segments_min {n : Nat} (h : n ≠ 0) : segments (n - min n Waiting.day) + 1 ≤ segments n := by
  unfold segments Waiting.day
  omega

theorem remaining_mono (h : now ≤ now') :
    remaining start limit now' ≤ remaining start limit now := by
  unfold remaining elapsed
  omega

/-- What the clock shows at the earliest when it is looked at next. -/
def State.looks (s : State) : Int :=
  match s.wait with
  | .setting _ asked segment => max s.now (asked + segment)
  | .sleeping _ _ since segment => max s.now (since + segment)
  | _ => s.now

/-- What remains then. -/
def State.due (start : Int) (timeout : Option Nat) (s : State) : Nat :=
  match s.wait with
  | .pending => 0
  | .returned => 0
  | _ => remaining start (timeout.getD 0) s.looks

/-- How many steps there are to the next look at the clock, and around to the next timer. -/
def Wait.toGo : Wait → Nat
  | .entered => 2
  | .looking _ => 1
  | .setting _ _ _ => 3
  | .sleeping _ _ _ _ => 2
  | _ => 0

/-- The timer that is set next. -/
def Wait.toSet : Wait → Nat
  | .setting _ _ _ => 1
  | _ => 0

theorem due_later {w : Wait} (hNow : now ≤ now') :
    State.due start timeout ⟨now', w⟩ ≤ State.due start timeout ⟨now, w⟩ := by
  cases w with
  | pending | returned => exact le_rfl
  | entered | looking limit => exact remaining_mono hNow
  | setting limit asked segment => exact remaining_mono (max_le_max_right _ hNow)
  | sleeping limit asked since segment => exact remaining_mono (max_le_max_right _ hNow)

/-- The timer that was just set leaves the other segments. -/
theorem due_setting (h : start ≤ now) :
    State.due start (some limit) ⟨now, .setting limit now segment⟩ =
      remaining start limit now - segment := by
  show remaining start limit (max now (now + segment)) = _
  unfold remaining elapsed
  omega

/-- A look at the clock that finds nothing left is the last one. -/
theorem next_look_zero (h : remaining start limit now = 0) :
    next start timeout ⟨now, .looking limit⟩ .look = ⟨now, .returned⟩ := by
  unfold next
  simp only [if_pos h]

/-- A look that finds something left asks for a timer. -/
theorem next_look_left (h : remaining start limit now ≠ 0) :
    next start timeout ⟨now, .looking limit⟩ .look =
      ⟨now, .setting limit now (min (remaining start limit now) Waiting.day)⟩ := by
  unfold next
  simp only [if_neg h]

/-- A deadline that has passed has passed for good. -/
theorem elapsed_next {e : Event} (h : deadlineElapsed s.now start timeout = true)
    (hEn : enabled s e = true) :
    deadlineElapsed (next start timeout s e).now start timeout = true := by
  cases e with
  | pass now => exact deadlineElapsed_mono (of_decide_eq_true hEn) h
  | enter => exact h
  | look | sleep | wake =>
    unfold next
    dsimp only
    split <;> exact h

/-- **A step** leaves less to do: each look at the clock that does not end the wait is
paid for by a segment. -/
theorem left_next {e : Event} (h : Inv start timeout s) (hEn : enabled s e = true) :
    3 * segments ((next start timeout s e).due start timeout) +
        (next start timeout s e).wait.toGo + e.own.toNat ≤
      3 * segments (s.due start timeout) + s.wait.toGo ∧
    segments ((next start timeout s e).due start timeout) +
        (next start timeout s e).wait.toSet + e.sets.toNat ≤
      segments (s.due start timeout) + s.wait.toSet := by
  obtain ⟨now, w⟩ := s
  obtain ⟨hStarted, hOk⟩ := h
  change start ≤ now at hStarted
  cases e with
  | pass now' =>
    have hNow : now ≤ now' := of_decide_eq_true hEn
    -- time that goes by may leave fewer segments, and no more
    have hLess : segments (State.due start timeout ⟨now', w⟩) ≤
        segments (State.due start timeout ⟨now, w⟩) := segments_mono (due_later hNow)
    exact ⟨Nat.add_le_add_right (Nat.mul_le_mul_left 3 hLess) _, Nat.add_le_add_right hLess _⟩
  | enter =>
    obtain rfl : w = .entered := of_decide_eq_true hEn
    cases timeout with
    | none =>
      show 3 * segments 0 + 0 + 1 ≤ 3 * _ + 2 ∧ segments 0 + 0 + 0 ≤ _
      rw [segments_zero]
      omega
    | some limit =>
      show 3 * segments (remaining start limit now) + 1 + 1 ≤
          3 * segments (remaining start limit now) + 2 ∧
        segments (remaining start limit now) + 0 + 0 ≤ segments (remaining start limit now) + 0
      omega
  | look =>
    cases w with
    | looking limit =>
      obtain rfl : timeout = some limit := hOk
      by_cases hLeft : remaining start limit now = 0
      · rw [next_look_zero hLeft]
        show 3 * segments 0 + 0 + 1 ≤ 3 * _ + 1 ∧ segments 0 + 0 + 0 ≤ _
        rw [segments_zero]
        omega
      · -- the segment that the timer is set to pays for the look
        have hPaid := segments_min hLeft
        rw [next_look_left hLeft, due_setting hStarted]
        show 3 * _ + 3 + 1 ≤ 3 * segments (remaining start limit now) + 1 ∧
          _ + 1 + 0 ≤ segments (remaining start limit now) + 0
        omega
    | _ => cases hEn
  | sleep =>
    cases w with
    | setting limit asked segment =>
      have hAsked : asked ≤ now := hOk.2
      -- the timer is set later than the clock was read, so it ends later
      have hLess : segments (remaining start (timeout.getD 0) (max now (now + segment))) ≤
          segments (remaining start (timeout.getD 0) (max now (asked + segment))) :=
        segments_mono (remaining_mono (max_le_max_left now (by omega)))
      show 3 * segments (remaining start (timeout.getD 0) (max now (now + segment))) + 2 + 1 ≤
          3 * segments (remaining start (timeout.getD 0) (max now (asked + segment))) + 3 ∧
        segments (remaining start (timeout.getD 0) (max now (now + segment))) + 0 + 1 ≤
          segments (remaining start (timeout.getD 0) (max now (asked + segment))) + 1
      omega
    | _ => cases hEn
  | wake =>
    cases w with
    | sleeping limit asked since segment =>
      -- the timer is over: what was due then is due now
      have hDue : max now (since + segment) = now := max_eq_left (of_decide_eq_true hEn)
      have hSame : State.due start timeout ⟨now, .sleeping limit asked since segment⟩ =
          remaining start (timeout.getD 0) now := by
        show remaining start (timeout.getD 0) (max now (since + segment)) = _
        rw [hDue]
      rw [hSame]
      show 3 * segments (remaining start (timeout.getD 0) now) + 1 + 1 ≤
          3 * segments (remaining start (timeout.getD 0) now) + 2 ∧
        segments (remaining start (timeout.getD 0) now) + 0 + 0 ≤
          segments (remaining start (timeout.getD 0) now) + 0
      omega
    | _ => cases hEn

/-- When the deadline has elapsed there is nothing due. -/
theorem due_of_elapsed (h : deadlineElapsed s.now start timeout = true) :
    s.due start timeout = 0 := by
  obtain ⟨now, w⟩ := s
  cases timeout with
  | none => cases h
  | some limit =>
    have hNow : remaining start limit now = 0 := remaining_of_elapsed h
    have hLater : ∀ now', now ≤ now' → remaining start limit now' = 0 := fun now' hLe =>
      Nat.le_zero.mp (hNow ▸ remaining_mono hLe)
    cases w with
    | pending | returned => rfl
    | entered | looking limit' => exact hNow
    | setting limit' asked segment => exact hLater _ (le_max_left _ _)
    | sleeping limit' asked since segment => exact hLater _ (le_max_left _ _)

/-- What is due is at most what remains now. -/
theorem due_le (s : State) : s.due start timeout ≤ remaining start (timeout.getD 0) s.now := by
  obtain ⟨now, w⟩ := s
  cases w with
  | pending | returned => exact Nat.zero_le _
  | entered | looking limit => exact le_rfl
  | setting limit asked segment => exact remaining_mono (le_max_left _ _)
  | sleeping limit asked since segment => exact remaining_mono (le_max_left _ _)

/-- The task has returned or can go on, or its timer is due as soon as it was late
itself. -/
def State.Served (s : State) : Prop :=
  s.wait = .returned ∨ (∃ e, e.own = true ∧ enabled s e = true) ∨
    ∃ limit asked since segment,
      s.wait = .sleeping limit asked since segment ∧ since + segment ≤ s.now + (since - asked)

/-- **After the deadline** the wait has returned, can go on, or sleeps on a timer that is due but
for the time the task was slow. -/
theorem served_of_elapsed (h : Inv start timeout s)
    (hElapsed : deadlineElapsed s.now start timeout = true) : s.Served := by
  obtain ⟨now, w⟩ := s
  obtain ⟨hNow, hOk⟩ := h
  change start ≤ now at hNow
  cases w with
  | entered => exact Or.inr (Or.inl ⟨.enter, rfl, rfl⟩)
  | pending =>
    obtain rfl : timeout = none := hOk
    cases hElapsed
  | looking limit => exact Or.inr (Or.inl ⟨.look, rfl, rfl⟩)
  | setting limit asked segment => exact Or.inr (Or.inl ⟨.sleep, rfl, rfl⟩)
  | sleeping limit asked since segment =>
    refine Or.inr (Or.inr ⟨limit, asked, since, segment, rfl, ?_⟩)
    obtain ⟨hTimer, -, -⟩ := hOk
    obtain ⟨-, -, hEarly⟩ := hTimer.bounds
    obtain rfl : timeout = some limit := hTimer.limited
    -- the timer ends with the deadline, as much later as the task was slow
    have hLate : limit ≤ elapsed now start := of_decide_eq_true hElapsed
    show since + segment ≤ now + (since - asked)
    unfold elapsed at hLate
    omega
  | returned => exact Or.inl rfl

/-- **`wait_for_deadline`** does not return before the deadline, and no timer it sets is
later than that by more than the task was slow between the clock and the timer. It sets
as many timers as days are left; and once the deadline has elapsed it can always go on,
with at most three steps to go. -/
theorem wait_for_deadline_returns (hs : (waitForDeadline start timeout).Reachable s)
    {es : List Event} (hRun : (waitForDeadline start timeout).Path s es t) :
    (t.wait = .returned → deadlineElapsed t.now start timeout = true) ∧
    (∀ limit asked since segment, t.wait = .sleeping limit asked since segment →
      timeout = some limit ∧ 0 < segment ∧ segment ≤ Waiting.day ∧ asked ≤ since ∧
        since + segment ≤ start + limit + (since - asked)) ∧
    (s.wait = .entered →
      es.countP Event.sets ≤ segments (remaining start (timeout.getD 0) s.now)) ∧
    (deadlineElapsed s.now start timeout = true → es.countP Event.own ≤ 3 ∧ t.Served) := by
  have hInv := inv_of_reachable hs
  have hKeep : ∀ s e, Inv start timeout s → (waitForDeadline start timeout).enabled s e →
      Inv start timeout ((waitForDeadline start timeout).next s e) := fun _ _ h hEn => h.step hEn
  have hEnd : Inv start timeout t := hRun.invariant hInv hKeep
  refine ⟨fun hReturned => ?_, fun limit asked since segment hSleeps => ?_, fun hEntered => ?_,
    fun hElapsed => ⟨?_, ?_⟩⟩
  · have hOk := hEnd.ok
    rwa [hReturned] at hOk
  · have hOk := hEnd.ok
    rw [hSleeps] at hOk
    obtain ⟨hTimer, hAsked, -⟩ := hOk
    obtain ⟨hPos, hShort, hEarly⟩ := hTimer.bounds
    exact ⟨hTimer.limited, hPos, hShort, hAsked, by omega⟩
  · have hFew := hRun.charged (I := Inv start timeout)
      (fun s => segments (s.due start timeout) + s.wait.toSet) Event.sets (fun _ => false) 0 hKeep
      (fun s e h hEn => (left_next h hEn).2.trans (Nat.le_add_right _ _)) hInv
    -- at the beginning nothing is owed to a timer that is set already
    have hAll := segments_mono (@due_le start timeout s)
    rw [hEntered] at hFew
    change _ ≤ _ + 0 + _ at hFew
    omega
  · have hFew := hRun.charged (I := Inv start timeout)
      (fun s => 3 * segments (s.due start timeout) + s.wait.toGo) Event.own (fun _ => false) 0 hKeep
      (fun s e h hEn => (left_next h hEn).1.trans (Nat.le_add_right _ _)) hInv
    rw [due_of_elapsed hElapsed, segments_zero] at hFew
    -- no segments are left, so only the way to the next look is
    have hThree : s.wait.toGo ≤ 3 := by
      cases s.wait <;> simp [Wait.toGo]
    omega
  · refine served_of_elapsed hEnd ?_
    exact (hRun.invariant (I := fun t => Inv start timeout t ∧
      deadlineElapsed t.now start timeout = true) ⟨hInv, hElapsed⟩ fun u e h hEn =>
        ⟨h.1.step hEn, elapsed_next h.2 hEn⟩).2

end

/-- Two days and a bit, with a task that is slow to set its first timer. -/
def waitedRun : List Event :=
  let day : Int := Waiting.day
  [.enter, .look, .pass 7, .sleep, .pass (day + 7), .wake, .look, .sleep, .pass (2 * day + 7),
    .wake, .look, .sleep, .pass (2 * day + 9), .wake, .look]

/-- Where the run leads. -/
def waited : State :=
  ((waitForDeadline 0 (some (2 * Waiting.day + 9))).exec ⟨0, .entered⟩ waitedRun).getD
    ⟨0, .entered⟩

/-- It returned after the deadline, and set no more timers than the three that the theorem allows.
-/
theorem wait_for_deadline_returns_waited :
    deadlineElapsed waited.now 0 (some (2 * Waiting.day + 9)) = true ∧
      waitedRun.reverse.countP Event.sets ≤ segments (remaining 0 (2 * Waiting.day + 9) 0) := by
  have hExec : (waitForDeadline 0 (some (2 * Waiting.day + 9))).exec ⟨0, .entered⟩ waitedRun =
      some waited := by decide +kernel
  have hReturned : waited.wait = .returned := by decide +kernel
  have hStart : (waitForDeadline 0 (some (2 * Waiting.day + 9))).Reachable ⟨0, .entered⟩ :=
    .init ⟨rfl, le_rfl⟩
  obtain ⟨hNever, -, hFew, -⟩ := wait_for_deadline_returns hStart (Machine.path_of_exec hExec)
  exact ⟨hNever hReturned, hFew rfl⟩

end RLock.Async.Deadline
