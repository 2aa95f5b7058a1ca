import RLock.Sync.Manager
import RLock.Manager.Drain

/-!
# RLock — who leads a sync shutdown

What each step of a `shutdown()` call can be, and what holds of the call that takes
the sender, sends the barrier and stores the result for all.

There is no coordinator here: the call that took the sender does everything itself,
and the others sleep on a condition variable until it has stored the result. The steps
are inverted once (`CallStep`), with what each of them needs and does; every fact below
is proved by cases on them. `Led` is an invariant beside `Manager.Inv`: the shutdown
never loses its leader before the result is there, since a thread cannot be dropped.

## Results

* `callStep_cases` — what one step can be.
* `Led.step` — whoever took the sender is there until the result is; it is `false` only
  if the worker stopped.
* `Leading.next` — the leading call only goes forward.
* `hosts` — nobody but the worker takes from the release queue.
-/

namespace RLock.Sync

open RLock.Manager

/-- The call is over. -/
def Call.ended (c : Call) : Prop := c = .returned ∨ c = .panicked

/-- How far a call that leads is. -/
def Call.stage : Call → Nat
  | .waking _ => 1
  | .sending => 2
  | .awaiting => 3
  | .storing _ => 4
  | _ => 0

/-- How many own steps a call has to go when the result is there. It
may be notified in between. -/
def Call.toGo : Call → Nat
  | .taken _ => 6
  | .waking _ => 5
  | .waiting => 3
  | .reading => 1
  | _ => 0

namespace Manager

variable {ρ : Type} {s s' : State ρ} {e : Event ρ} {i j : Nat}

/-- The steps of a `shutdown()` call. -/
inductive CallStep (i : Nat) (s : State ρ) : State ρ → Prop
  | take (hAt : s.calls i = .idle) (hFree : s.lock = none) :
      CallStep i s { s.setCall i (.taken s.hasSender) with hasSender := false, lock := some i }
  | flag {leads : Bool} (hAt : s.calls i = .taken leads) :
      CallStep i s { s.setCall i (.waking leads) with isShutdown := true, lock := none }
  | wake {leads : Bool} (hAt : s.calls i = .waking leads) :
      CallStep i s (s.setCall i (if leads then .sending else .reading))
  | refuse (hAt : s.calls i = .sending) (hClosed : s.queue.closed = true) :
      CallStep i s (s.setCall i (.storing false))
  | send (hAt : s.calls i = .sending) (hOpen : s.queue.closed = false)
      (hRoom : s.queue.full = false) :
      CallStep i s { s.setCall i .awaiting with queue := s.queue.sendBarrier }
  | receive (hAt : s.calls i = .awaiting) (hAnswer : (s.queue.acked || s.queue.unacked) = true) :
      CallStep i s (s.setCall i (.storing s.queue.acked))
  | store {complete : Bool} (hAt : s.calls i = .storing complete) (hClean : s.poisoned = false) :
      CallStep i s { s.setCall i .reading with result := some complete }
  | poisoned (hAt : (∃ complete, s.calls i = .storing complete) ∨ s.calls i = .reading)
      (hPoisoned : s.poisoned = true) : CallStep i s (s.setCall i .panicked)
  | sleep (hAt : s.calls i = .reading) (hResult : s.result = none) :
      CallStep i s (s.setCall i .waiting)
  | pass (hAt : s.calls i = .reading) (hResult : s.result = some true) :
      CallStep i s (s.setCall i .returned)
  | fail (hAt : s.calls i = .reading) (hResult : s.result = some false) :
      CallStep i s { s.setCall i .panicked with poisoned := true }
  | woken (hAt : s.calls i = .waiting) : CallStep i s (s.setCall i .reading)

/-- A call that takes a step takes one of these. -/
theorem callStep_cases (hEn : enabled s (.call i) = true) : CallStep i s (callStep i s) := by
  unfold callStep
  cases hAt : s.calls i with
  | idle => exact .take hAt (by simpa [enabled, hAt] using hEn)
  | taken leads => exact .flag hAt
  | waking leads => exact .wake hAt
  | sending =>
    dsimp only
    split
    · exact .refuse hAt ‹_›
    · rename_i hOpen
      rw [Bool.not_eq_true] at hOpen
      exact .send hAt hOpen (by simpa [enabled, hAt, hOpen] using hEn)
  | awaiting => exact .receive hAt (by simpa [enabled, hAt] using hEn)
  | storing complete =>
    dsimp only
    split
    · exact .poisoned (Or.inl ⟨complete, hAt⟩) ‹_›
    · exact .store hAt (by simpa using ‹¬ s.poisoned = true›)
  | reading =>
    dsimp only
    split
    · exact .poisoned (Or.inr hAt) ‹_›
    · cases hResult : s.result with
      | none => exact .sleep hAt hResult
      | some complete =>
        cases complete with
        | true => exact .pass hAt hResult
        | false => exact .fail hAt hResult
  | waiting => exact .woken hAt
  | returned | panicked => simp [enabled, hAt] at hEn

/-- Call `i` is where it was moved. -/
theorem setCall_self (i : Nat) (c : Call) : (s.setCall i c).calls i = c := by
  simp [State.setCall]

theorem setCall_of_ne (h : j ≠ i) (c : Call) : (s.setCall i c).calls j = s.calls j := by
  simp [State.setCall, h]

theorem CallStep.frame (h : CallStep i s s') (hNe : j ≠ i) : s'.calls j = s.calls j := by
  cases h <;> exact setCall_of_ne hNe _

theorem calls_next (hEn : enabled s e = true) (hCall : e ≠ .call i) :
    (next s e).calls i = s.calls i := by
  cases e with
  | call j => exact (callStep_cases hEn).frame fun hSame => hCall (by rw [hSame])
  | worker w | offer request => rfl

theorem CallStep.made (h : CallStep i s s') : s'.calls i ≠ .idle := by
  cases h with
  | wake hAt =>
    rename_i leads
    rw [setCall_self]
    cases leads <;> nofun
  | take | flag | send | store | fail =>
    exact fun hNo => absurd ((setCall_self i _).symm.trans hNo) nofun
  | refuse | receive | poisoned | sleep | pass | woken =>
    rw [setCall_self]
    nofun

/-- A call that was made was made for good. -/
theorem not_idle_next (hAt : s.calls i ≠ .idle) (hEn : enabled s e = true) :
    (next s e).calls i ≠ .idle := by
  by_cases hCall : e = .call i
  · subst hCall
    exact (callStep_cases hEn).made
  · rw [calls_next hEn hCall]
    exact hAt

-- ---------------------------------------------------------------------------
-- The queue
-- ---------------------------------------------------------------------------

section

variable [DecidableEq ρ]

/-- The queue is fed by guards and by the call that leads. -/
theorem queue_step (h : Inv s) (hEn : enabled s e = true) :
    (∃ w noSender, e = .worker w ∧ s.queue.enabled noSender w = true) ∨
      Queue.Fed s.queue (next s e).queue := by
  cases e with
  | worker w => exact Or.inl ⟨w, _, rfl, hEn⟩
  | offer request => exact Or.inr (.offer request)
  | call i =>
    refine Or.inr ?_
    have hOk := h.call i
    have hMove := callStep_cases hEn
    show Queue.Fed s.queue (callStep i s).queue
    generalize callStep i s = s' at hMove ⊢
    cases hMove with
    | send hAt hOpen hRoom =>
      rw [hAt] at hOk
      exact .barrier hOpen hRoom hOk
    | take | flag | wake | refuse | receive | store | poisoned | sleep | pass | fail | woken =>
      exact .same

/-- **The queue is the worker's**: others only put something in. -/
theorem hosts (ρ : Type) [DecidableEq ρ] :
    Queue.Hosts (machine ρ) (fun s => s.queue) Event.worker where
  init s hInit := by
    rw [show s = initial from hInit]
    rfl
  next _ _ := rfl
  step _ _ hs hEn := queue_step (inv_of_reachable hs) hEn

theorem result_next (h : Inv s) (hResult : s.result ≠ none) (e : Event ρ) :
    (next s e).result ≠ none := by
  obtain ⟨complete, hSome⟩ := Option.ne_none_iff_exists'.mp hResult
  rw [h.result_kept hSome e]
  nofun

theorem dead_next (h : Inv s) (hEn : enabled s e = true) (hDead : s.queue.dead = true) :
    (next s e).queue.dead = true := by
  rcases queue_step h hEn with ⟨w, noSender, rfl, hWorker⟩ | hFed
  · have hOpen := Queue.open_of_enabled hWorker
    rw [Queue.closed_of_dead hDead] at hOpen
    cases hOpen
  · exact hFed.dead.trans hDead

end

-- ---------------------------------------------------------------------------
-- Who goes on
-- ---------------------------------------------------------------------------

/-- The result is there; `false` tells that the worker stopped. -/
def State.Settled (s : State ρ) : Prop :=
  s.result = some true ∨ s.result = some false ∧ s.queue.dead = true

/-- Who took the sender is there until the result is. -/
structure Led (s : State ρ) : Prop where
  made : ∀ i, s.calls i ≠ .idle → s.hasSender = false
  holder : ∀ i, s.lock = some i → ∃ leads, s.calls i = .taken leads
  led : s.hasSender = false → (∃ i, (s.calls i).leads = true) ∨ s.result ≠ none
  sent : ∀ i, s.calls i = .awaiting → s.queue.ack ≠ none
  closed : s.queue.closed = true → s.result ≠ none ∨ s.queue.dead = true
  failed : (s.result = some false ∨ ∃ i, s.calls i = .storing false) → s.queue.dead = true

theorem led_initial : Led (initial : State ρ) where
  made _ hNo := absurd rfl hNo
  holder _ hNo := nomatch hNo
  led hNo := nomatch hNo
  sent _ hNo := nomatch hNo
  closed hNo := nomatch hNo
  failed hNo := by rcases hNo with hNo | ⟨_, hNo⟩ <;> cases hNo

/-- A call moves on that has left the lock. -/
theorem Led.setCall (h : Led s) {c : Call} (hMade : s.calls i ≠ .idle)
    (hLeft : ∀ j, s.lock = some j → j ≠ i)
    (hLeads : (s.calls i).leads = true → c.leads = true ∨ s.result ≠ none)
    (hSent : c = .awaiting → s.queue.ack ≠ none)
    (hFailed : c = .storing false → s.queue.dead = true) : Led (s.setCall i c) where
  made j hj := by
    by_cases hSame : j = i
    · exact h.made i hMade
    · rw [setCall_of_ne hSame] at hj
      exact h.made j hj
  holder j hj := by
    obtain ⟨leads, hTaken⟩ := h.holder j hj
    exact ⟨leads, (setCall_of_ne (hLeft j hj) c).trans hTaken⟩
  led hSender := by
    rcases h.led hSender with ⟨j, hj⟩ | hResult
    · by_cases hSame : j = i
      · subst hSame
        -- it leads on, or has stored the result
        refine (hLeads hj).imp_left fun hc => ⟨j, ?_⟩
        rw [setCall_self]
        exact hc
      · refine Or.inl ⟨j, ?_⟩
        rw [setCall_of_ne hSame]
        exact hj
    · exact Or.inr hResult
  sent j hj := by
    by_cases hSame : j = i
    · subst hSame
      exact hSent ((setCall_self j c).symm.trans hj)
    · exact h.sent j ((setCall_of_ne hSame c).symm.trans hj)
  closed := h.closed
  failed hNow := by
    rcases hNow with hResult | ⟨j, hj⟩
    · exact h.failed (Or.inl hResult)
    · by_cases hSame : j = i
      · subst hSame
        exact hFailed ((setCall_self j c).symm.trans hj)
      · exact h.failed (Or.inr ⟨j, (setCall_of_ne hSame c).symm.trans hj⟩)

/-- A call that is past the lock does not hold it. -/
theorem Led.lock_ne (h : Led s) (hAt : ∀ leads, s.calls i ≠ .taken leads) :
    ∀ j, s.lock = some j → j ≠ i := by
  rintro j hj rfl
  obtain ⟨leads, hTaken⟩ := h.holder j hj
  exact hAt leads hTaken

/-- What happens in the queue leaves it so. -/
theorem Led.queue (h : Led s) {q : Queue ρ} (hAck : s.queue.ack ≠ none → q.ack ≠ none)
    (hDead : s.queue.dead = true → q.dead = true)
    (hClosed : q.closed = true → s.queue.closed = true ∨ s.result ≠ none ∨ q.dead = true) :
    Led { s with queue := q } where
  made := h.made
  holder := h.holder
  led := h.led
  sent i hAt := hAck (h.sent i hAt)
  closed hNow := by
    rcases hClosed hNow with hOld | hEnd
    · exact (h.closed hOld).imp_right hDead
    · exact hEnd
  failed hNow := hDead (h.failed hNow)

theorem Led.take (h : Led s) (hAt : s.calls i = .idle) :
    Led { s.setCall i (.taken s.hasSender) with hasSender := false, lock := some i } where
  made _ _ := rfl
  holder j hj := by
    obtain rfl : i = j := by simpa using hj
    exact ⟨_, setCall_self i _⟩
  led _ := by
    cases hSender : s.hasSender with
    | true => exact Or.inl ⟨i, congrArg Call.leads (setCall_self i _)⟩
    -- it came late: the leader is another call
    | false =>
      refine (h.led hSender).imp_left fun ⟨j, hj⟩ => ⟨j, ?_⟩
      have hNe : j ≠ i := by
        rintro rfl
        rw [hAt] at hj
        cases hj
      exact (congrArg Call.leads (setCall_of_ne hNe _)).trans hj
  sent j hj := by
    by_cases hSame : j = i
    · subst hSame
      exact absurd ((setCall_self j _).symm.trans hj) nofun
    · exact h.sent j ((setCall_of_ne hSame _).symm.trans hj)
  closed := h.closed
  failed hNow := by
    rcases hNow with hResult | ⟨j, hj⟩
    · exact h.failed (Or.inl hResult)
    · by_cases hSame : j = i
      · subst hSame
        exact absurd ((setCall_self j _).symm.trans hj) nofun
      · exact h.failed (Or.inr ⟨j, (setCall_of_ne hSame _).symm.trans hj⟩)

/-- A result that is there tells why. -/
theorem Led.settled (h : Led s) (hResult : s.result ≠ none) : s.Settled := by
  cases hNow : s.result with
  | none => exact absurd hNow hResult
  | some complete =>
    cases complete with
    | true => exact Or.inl hNow
    | false => exact Or.inr ⟨hNow, h.failed (Or.inl hNow)⟩

/-- The call leads and is that far, or there is a result already. -/
def Leading (i k : Nat) (s : State ρ) : Prop :=
  s.result ≠ none ∨ (s.calls i).leads = true ∧ k ≤ (s.calls i).stage

/-- A leader that moves on leads as far as it gets. -/
theorem leading_setCall {k : Nat} {c : Call} (hLeads : c.leads = true) (hStage : k ≤ c.stage) :
    Leading i k (s.setCall i c) := by
  refine Or.inr ?_
  rw [setCall_self]
  exact ⟨hLeads, hStage⟩

section

variable [DecidableEq ρ]

/-- **The steps of a call keep track of who leads.** -/
theorem Led.call (h : Led s) (hInv : Inv s) (hAnswers : s.queue.Answers)
    (hMove : CallStep i s s') : Led s' := by
  cases hMove with
  | take hAt => exact h.take hAt
  | flag hAt =>
    -- it leaves the lock when it sets the flag
    have hFree : Led { s with isShutdown := true, lock := none } :=
      ⟨h.made, nofun, h.led, h.sent, h.closed, h.failed⟩
    exact hFree.setCall (i := i) (by simp [hAt]) nofun
      (fun hLeads => Or.inl (by simpa [hAt, Call.leads] using hLeads)) nofun nofun
  | wake hAt =>
    rename_i leads
    refine h.setCall (by simp [hAt]) (h.lock_ne (by simp [hAt])) (fun hLeads => ?_) ?_ ?_
    · rw [hAt] at hLeads
      rw [show leads = true from hLeads]
      exact Or.inl rfl
    · cases leads <;> nofun
    · cases leads <;> nofun
  | refuse hAt hClosed =>
    refine h.setCall (by simp [hAt]) (h.lock_ne (by simp [hAt])) (fun _ => Or.inl rfl) nofun
      fun _ => ?_
    -- there is no result yet, so it was the worker that closed the queue
    refine (h.closed hClosed).resolve_left fun hResult => hResult ?_
    exact (hInv.leader i (by rw [hAt]; rfl)).1
  | send hAt hOpen =>
    have hSent : Led { s with queue := s.queue.sendBarrier } := by
      refine h.queue (fun _ => nofun) id fun hNo => ?_
      exact absurd (hOpen.symm.trans hNo) (by decide)
    exact hSent.setCall (i := i) (by simp [hAt]) (h.lock_ne (by simp [hAt])) (fun _ => Or.inl rfl)
      (fun _ => nofun) nofun
  | receive hAt hAnswer =>
    refine h.setCall (by simp [hAt]) (h.lock_ne (by simp [hAt])) (fun _ => Or.inl rfl) nofun
      fun hNot => ?_
    -- nothing else than a worker that stopped drops the sender of the answer
    rw [Call.storing.inj hNot, Bool.false_or] at hAnswer
    exact hAnswers.unacked hAnswer
  | store hAt hClean =>
    rename_i complete
    have hStored : Led { s with result := some complete } := by
      refine ⟨h.made, h.holder, fun _ => Or.inr nofun, h.sent, fun _ => Or.inl nofun, ?_⟩
      rintro (hResult | hStoring)
      · exact h.failed (Or.inr ⟨i, Option.some.inj hResult ▸ hAt⟩)
      · exact h.failed (Or.inr hStoring)
    exact hStored.setCall (i := i) (by simp [hAt]) (h.lock_ne (by simp [hAt]))
      (fun _ => Or.inr nofun) nofun nofun
  | poisoned hAt hPoisoned =>
    have hResult : s.result ≠ none := by
      rw [hInv.poisoned hPoisoned]
      nofun
    rcases hAt with ⟨complete, hAt⟩ | hAt <;>
    exact h.setCall (by simp [hAt]) (h.lock_ne (by simp [hAt])) (fun _ => Or.inr hResult) nofun
      nofun
  | sleep hAt | pass hAt | woken hAt =>
    exact h.setCall (by simp [hAt]) (h.lock_ne (by simp [hAt])) (by simp [hAt, Call.leads]) nofun
      nofun
  | fail hAt =>
    have hNext := h.setCall (i := i) (c := .panicked) (by simp [hAt]) (h.lock_ne (by simp [hAt]))
      (by simp [hAt, Call.leads]) nofun nofun
    exact ⟨hNext.made, hNext.holder, hNext.led, hNext.sent, hNext.closed, hNext.failed⟩

/-- **One event** leaves the shutdown with a leader. -/
theorem Led.step (h : Led s) (hInv : Inv s) (hAnswers : s.queue.Answers)
    (hEn : enabled s e = true) : Led (next s e) := by
  cases e with
  | call i => exact h.call hInv hAnswers (callStep_cases hEn)
  | worker w =>
    refine h.queue (fun hAck => Queue.next_ack hAck w) (fun hDead => dead_next hInv hEn hDead)
      fun hClosed => Or.inr ?_
    refine (Queue.next_closed hEn hClosed).imp_left fun hSome => ?_
    exact Option.isSome_iff_ne_none.mp hSome
  | offer request =>
    have hFed : Queue.Fed s.queue (s.queue.offer request) := .offer request
    exact h.queue hFed.ack hFed.dead.trans fun hClosed => Or.inl (hFed.closed.symm.trans hClosed)

/-- Every reachable manager has one, when it needs one. -/
theorem led_of_reachable (hs : (machine ρ).Reachable s) : Led s := by
  refine hs.invariant_of (J := fun s => Inv s ∧ s.queue.Answers)
    (fun s hs => ⟨inv_of_reachable hs, ((hosts ρ).ok hs).2.1⟩) (fun s hInit => ?_)
    fun s e hJ hLed hEn => hLed.step hJ.1 hJ.2 hEn
  rw [show s = initial from hInit]
  exact led_initial

/-- With every step the call that leads gets further. -/
theorem CallStep.further (h : CallStep i s s') (hInv : Inv s) {k : Nat}
    (hLeads : (s.calls i).leads = true) (hStage : k ≤ (s.calls i).stage) :
    Leading i (k + 1) s' := by
  cases h with
  | flag hAt =>
    rw [hAt] at hLeads hStage
    have hNext : Leading i (k + 1) (s.setCall i (.waking _)) :=
      leading_setCall hLeads (Nat.succ_le_succ hStage)
    exact hNext
  | wake hAt =>
    rename_i leads
    rw [hAt] at hLeads hStage
    rw [show leads = true from hLeads]
    exact leading_setCall rfl (Nat.succ_le_succ hStage)
  | refuse hAt =>
    rw [hAt] at hStage
    exact leading_setCall rfl (Nat.succ_le_succ (Nat.le_succ_of_le hStage))
  | send hAt =>
    rw [hAt] at hStage
    have hNext : Leading i (k + 1) (s.setCall i .awaiting) :=
      leading_setCall rfl (Nat.succ_le_succ hStage)
    exact hNext
  | receive hAt =>
    rw [hAt] at hStage
    exact leading_setCall rfl (Nat.succ_le_succ hStage)
  | store hAt => exact Or.inl nofun
  | poisoned hAt hPoisoned =>
    refine Or.inl ?_
    rw [show (s.setCall i .panicked).result = _ from hInv.poisoned hPoisoned]
    nofun
  | take hAt | sleep hAt | pass hAt | fail hAt | woken hAt =>
    rw [hAt] at hLeads
    cases hLeads

/-- **The leading call only goes forward**, or has stored the result. -/
theorem Leading.next {k : Nat} (h : Leading i k s) (hInv : Inv s) (hEn : enabled s e = true) :
    Leading i k (next s e) := by
  rcases h with hResult | ⟨hLeads, hStage⟩
  · exact Or.inl (result_next hInv hResult e)
  · by_cases hCall : e = .call i
    · subst hCall
      refine ((callStep_cases hEn).further hInv hLeads hStage).imp_right fun hNext => ?_
      exact ⟨hNext.1, Nat.le_of_succ_le hNext.2⟩
    · refine Or.inr ?_
      rw [calls_next hEn hCall]
      exact ⟨hLeads, hStage⟩

/-- When the result is there every step of a call takes it nearer to its end. -/
theorem CallStep.nearer (h : CallStep i s s') (hInv : Inv s) (hResult : s.result ≠ none)
    (hMade : s.calls i ≠ .idle) :
    (s'.calls i).ended ∨ (s'.calls i).toGo < (s.calls i).toGo := by
  have hFollows : (s.calls i).leads = true → False := fun hLeads =>
    hResult (hInv.leader i hLeads).1
  cases h with
  | take hAt => exact absurd hAt hMade
  | flag hAt =>
    rename_i leads
    rw [hAt]
    have hNow := congrArg Call.toGo (setCall_self (s := s) i (.waking leads))
    exact Or.inr (Nat.lt_of_le_of_lt (Nat.le_of_eq hNow) (Nat.lt_succ_self 5))
  | wake hAt =>
    rename_i leads
    rw [hAt] at hFollows
    cases leads with
    | true => exact (hFollows rfl).elim
    | false =>
      refine Or.inr ?_
      rw [hAt, if_neg Bool.false_ne_true, setCall_self]
      show 1 < 5
      decide
  | refuse hAt | send hAt | receive hAt | store hAt =>
    rw [hAt] at hFollows
    exact (hFollows rfl).elim
  | sleep hAt hNone => exact absurd hNone hResult
  | poisoned =>
    rw [setCall_self]
    exact Or.inl (Or.inr rfl)
  | pass =>
    rw [setCall_self]
    exact Or.inl (Or.inl rfl)
  | fail => exact Or.inl (Or.inr (setCall_self i _))
  | woken hAt =>
    refine Or.inr ?_
    rw [hAt, setCall_self]
    show 1 < 3
    decide

/-- With the result there a call that is not over can go on. -/
theorem call_enabled (h : Inv s) (hResult : s.result ≠ none) (hMade : s.calls i ≠ .idle)
    (hOn : ¬ (s.calls i).ended) : enabled s (.call i) = true := by
  have hFollows : (s.calls i).leads = true → False := fun hLeads =>
    hResult (h.leader i hLeads).1
  cases hAt : s.calls i with
  | idle => exact absurd hAt hMade
  | taken leads | waking leads | reading | waiting => simp [enabled, hAt]
  | sending | awaiting | storing complete =>
    rw [hAt] at hFollows
    exact (hFollows rfl).elim
  | returned | panicked => exact absurd (by simp [Call.ended, hAt]) hOn

end

end Manager

end RLock.Sync
