import RLock.Async.Manager
import RLock.Manager.Drain

/-!
# RLock — who leads an async shutdown

What each step of a `shutdown()` call and of its coordinator can be, and what holds
of those who carry the shutdown on, from the call that takes the sender to the
coordinator that settles the state.

The steps are inverted once (`CallStep`, `CoordinatorStep`), with what each of them
needs and does; every fact below is proved by cases on them, without the functions.
`Led` is an invariant beside `Manager.Inv`. It says that the shutdown never loses its
leader: as long as the state is not settled, somebody has the sender, or the
coordinator is on its way, and whoever holds the lock for a shutdown leads it. A call
cannot be cancelled before it reads the watch value, so the leader is not dropped
half-way.

## Results

* `callStep_cases`, `coordinatorStep_cases` — what one step can be.
* `Led.step` — whoever took the sender, or the coordinator after it, is still there;
  the state is `Failed` only if the worker stopped.
* `stage_coordinator`, `stage_next` — the coordinator goes forward.
* `hosts` — nobody but the worker takes from the release queue.
-/

namespace RLock.Async

open RLock.Manager

/-- How far the coordinator is. -/
def Coordinator.stage : Coordinator → Nat
  | .unborn => 0
  | .sending => 1
  | .awaiting => 2
  | .updating _ => 3
  | .done => 4

/-- A coordinator that was spawned is past the first stage. -/
theorem Coordinator.stage_pos {c : Coordinator} (h : c ≠ .unborn) : 1 ≤ c.stage := by
  cases c with
  | unborn => exact absurd rfl h
  | sending | awaiting | updating _ | done => simp [stage]

theorem Coordinator.sending_of_stage {c : Coordinator} (h : c.stage = 1) : c = .sending := by
  cases c <;> simp [stage] at h ⊢

theorem Coordinator.awaiting_of_stage {c : Coordinator} (h : c.stage = 2) : c = .awaiting := by
  cases c <;> simp [stage] at h ⊢

theorem Coordinator.updating_of_stage {c : Coordinator} (h : c.stage = 3) :
    ∃ completed, c = .updating completed := by
  cases c <;> simp [stage] at h ⊢

theorem Coordinator.done_of_stage {c : Coordinator} (h : 3 < c.stage) : c = .done := by
  cases c <;> simp [stage] at h ⊢

/-- The call is over. -/
def Call.ended (c : Call) : Prop := c = .returned ∨ c = .panicked ∨ c = .cancelled

/-- The call has had the admission lock. -/
def Call.begun (c : Call) : Prop := c ≠ .idle ∧ c ≠ .locking

/-- How many own steps a call that has had the lock has to go when the state is final. -/
def Call.toGo : Call → Nat
  | .taken => 4
  | .sealed => 3
  | .parked => 2
  | .reading => 1
  | _ => 0

namespace Manager

theorem Moves.not_opened {a b : ShutdownState} (h : Moves a b) (hShut : a ≠ .opened) :
    b ≠ .opened := by
  cases h with
  | stay => exact hShut
  | close | complete | fail | crash => decide

variable {ρ : Type} {s s' : State ρ} {e : Event ρ} {i j : Nat}

-- ---------------------------------------------------------------------------
-- What one step can be
-- ---------------------------------------------------------------------------

/-- What `borrow_and_update` leads to. -/
inductive Finds : ShutdownState → Call → Prop
  | completed : Finds .completed .returned
  | failed : Finds .failed .panicked
  | opened : Finds .opened .parked
  | closing : Finds .closing .parked

/-- The steps of a `shutdown()` call. -/
inductive CallStep (i : Nat) (s : State ρ) : State ρ → Prop
  | subscribe (hAt : s.calls i = .idle) : CallStep i s (s.setCall i .locking)
  | take (hAt : s.calls i = .locking) (hFree : s.lock = none) (hSender : s.hasSender = true) :
      CallStep i s { s.setCall i .taken with hasSender := false, lock := some (.shutdown i) }
  | late (hAt : s.calls i = .locking) (hSender : s.hasSender = false) :
      CallStep i s (s.setCall i .reading)
  | close (hAt : s.calls i = .taken) : CallStep i s { s.setCall i .sealed with
      shutdown := if s.shutdown = .opened then .closing else s.shutdown }
  | spawn (hAt : s.calls i = .sealed) :
      CallStep i s { s.setCall i .reading with coordinator := .sending, lock := none }
  | read (hAt : s.calls i = .reading) {c : Call} (hFinds : Finds s.shutdown c) :
      CallStep i s (s.setCall i c)
  | wake (hAt : s.calls i = .parked) : CallStep i s (s.setCall i .reading)

/-- The steps of the coordinator. -/
inductive CoordinatorStep (s : State ρ) : State ρ → Prop
  | refuse (hAt : s.coordinator = .sending) (hClosed : s.queue.closed = true) :
      CoordinatorStep s { s with coordinator := .updating false }
  | send (hAt : s.coordinator = .sending) (hOpen : s.queue.closed = false)
      (hRoom : s.queue.full = false) :
      CoordinatorStep s { s with coordinator := .awaiting, queue := s.queue.sendBarrier }
  | receive (hAt : s.coordinator = .awaiting)
      (hAnswer : (s.queue.acked || s.queue.unacked) = true) :
      CoordinatorStep s { s with coordinator := .updating s.queue.acked }
  | update {completed : Bool} (hAt : s.coordinator = .updating completed) :
      CoordinatorStep s { s with
        coordinator := .done
        shutdown :=
          if s.shutdown = .failed then .failed
          else if completed then .completed else .failed }

/-- A call that takes a step takes one of these. -/
theorem callStep_cases (hEn : enabled s (.call i) = true) : CallStep i s (callStep i s) := by
  unfold callStep
  cases hAt : s.calls i with
  | idle => exact .subscribe hAt
  | locking =>
    have hFree : s.lock = none := by simpa [enabled, hAt] using hEn
    dsimp only
    cases hSender : s.hasSender with
    | true => exact .take hAt hFree hSender
    | false => exact .late hAt hSender
  | taken => exact .close hAt
  | sealed => exact .spawn hAt
  | reading =>
    dsimp only
    cases hShutdown : s.shutdown with
    | completed => exact .read hAt (hShutdown ▸ .completed)
    | failed => exact .read hAt (hShutdown ▸ .failed)
    | opened => exact .read hAt (hShutdown ▸ .opened)
    | closing => exact .read hAt (hShutdown ▸ .closing)
  | parked => exact .wake hAt
  | returned | panicked | cancelled => simp [enabled, hAt] at hEn

/-- So does the coordinator. -/
theorem coordinatorStep_cases (hEn : enabled s .coordinator = true) :
    CoordinatorStep s (coordinatorStep s) := by
  unfold coordinatorStep
  cases hAt : s.coordinator with
  | sending =>
    dsimp only
    split
    · exact .refuse hAt ‹_›
    · rename_i hOpen
      rw [Bool.not_eq_true] at hOpen
      exact .send hAt hOpen (by simpa [enabled, hAt, hOpen] using hEn)
  | awaiting => exact .receive hAt (by simpa [enabled, hAt] using hEn)
  | updating completed => exact .update hAt
  | unborn | done => simp [enabled, hAt] at hEn

/-- Call `i` is where it was moved. -/
theorem setCall_self (i : Nat) (c : Call) : (s.setCall i c).calls i = c := by
  simp [State.setCall]

theorem setCall_of_ne (h : j ≠ i) (c : Call) : (s.setCall i c).calls j = s.calls j := by
  simp [State.setCall, h]

/-- With the lock behind it a call that is not over can go on. -/
theorem call_enabled (hBegun : (s.calls i).begun) (hOn : ¬ (s.calls i).ended) :
    enabled s (.call i) = true := by
  cases hAt : s.calls i with
  | taken | sealed | reading | parked => simp [enabled, hAt]
  | idle => exact absurd hAt hBegun.1
  | locking => exact absurd hAt hBegun.2
  | returned | panicked | cancelled => exact absurd (by simp [Call.ended, hAt]) hOn

/-- A call leaves the others alone, and the queue. -/
theorem CallStep.frame (h : CallStep i s s') :
    s'.queue = s.queue ∧ ∀ j, j ≠ i → s'.calls j = s.calls j := by
  cases h <;> exact ⟨rfl, fun j hNe => setCall_of_ne hNe _⟩

/-- The coordinator leaves the calls, the lock and the sender alone. -/
theorem CoordinatorStep.frame (h : CoordinatorStep s s') :
    s'.calls = s.calls ∧ s'.lock = s.lock ∧ s'.hasSender = s.hasSender := by
  cases h <;> exact ⟨rfl, rfl, rfl⟩

/-- A call is moved on by itself and by whoever cancels it. -/
theorem calls_next (hEn : enabled s e = true) (hCall : e ≠ .call i) (hCancel : e ≠ .cancel i) :
    (next s e).calls i = s.calls i := by
  cases e with
  | call j => exact (callStep_cases hEn).frame.2 i fun hSame => hCall (by rw [hSame])
  | cancel j => exact setCall_of_ne (fun hSame => hCancel (by rw [hSame])) _
  | coordinator => exact congrFun (coordinatorStep_cases hEn).frame.1 i
  | watch | worker w | offer request | lock j | unlock j => rfl

/-- Only where it waits a call can be cancelled. -/
theorem calls_kept (hEn : enabled s e = true) (hCall : e ≠ .call i) (hAt : s.calls i ≠ .parked) :
    (next s e).calls i = s.calls i := by
  refine calls_next hEn hCall ?_
  rintro rfl
  exact hAt (by simpa [enabled] using hEn)

theorem not_idle_next (hAt : s.calls i ≠ .idle) (hEn : enabled s e = true) :
    (next s e).calls i ≠ .idle := by
  by_cases hCall : e = .call i
  · subst hCall
    have hMove := callStep_cases hEn
    show (callStep i s).calls i ≠ .idle
    generalize callStep i s = s' at hMove ⊢
    -- no step of its own leads back to the beginning
    cases hMove with
    | subscribe hNo => exact absurd hNo hAt
    | read hReading hFinds =>
      rw [setCall_self]
      generalize s.shutdown = found at hFinds
      cases hFinds <;> nofun
    | late | wake =>
      rw [setCall_self]
      nofun
    | take | close | spawn => exact fun hNo => absurd ((setCall_self i _).symm.trans hNo) nofun
  · by_cases hCancel : e = .cancel i
    · subst hCancel
      show (s.setCall i .cancelled).calls i ≠ .idle
      rw [setCall_self]
      nofun
    · rw [calls_next hEn hCall hCancel]
      exact hAt

/-- With the next step a call has had the lock. -/
theorem begun_of_call (hAt : s.calls i ≠ .idle) (hMove : CallStep i s s') :
    (s'.calls i).begun := by
  cases hMove with
  | subscribe hNo => exact absurd hNo hAt
  | read hReading hFinds =>
    rw [setCall_self]
    generalize s.shutdown = found at hFinds
    cases hFinds <;> exact ⟨nofun, nofun⟩
  | late | wake =>
    rw [setCall_self]
    exact ⟨nofun, nofun⟩
  | take | close | spawn =>
    show ((s.setCall i _).calls i).begun
    rw [setCall_self]
    exact ⟨nofun, nofun⟩

/-- A call that has had the lock has had it for good. -/
theorem begun_next (hBegun : (s.calls i).begun) (hEn : enabled s e = true) :
    ((next s e).calls i).begun := by
  by_cases hCall : e = .call i
  · subst hCall
    exact begun_of_call hBegun.1 (callStep_cases hEn)
  · by_cases hCancel : e = .cancel i
    · subst hCancel
      show ((s.setCall i .cancelled).calls i).begun
      rw [setCall_self]
      exact ⟨nofun, nofun⟩
    · rw [calls_next hEn hCall hCancel]
      exact hBegun

/-- The lock of a handoff is left by it alone. -/
theorem handoff_next {a : Nat} (hLock : s.lock = some (.handoff a)) (hEn : enabled s e = true) :
    (next s e).lock = some (.handoff a) ∨ (next s e).lock = none := by
  cases e with
  | call i =>
    have hMove := callStep_cases hEn
    show (callStep i s).lock = _ ∨ (callStep i s).lock = none
    generalize callStep i s = s' at hMove ⊢
    cases hMove with
    | take hAt hFree => exact absurd (hFree.symm.trans hLock) nofun
    | spawn => exact Or.inr rfl
    | subscribe | late | close | read | wake => exact Or.inl hLock
  | coordinator => exact Or.inl ((coordinatorStep_cases hEn).frame.2.1.trans hLock)
  | lock b =>
    have hFree : s.lock = none := by simpa [enabled] using hEn
    exact absurd (hFree.symm.trans hLock) nofun
  | unlock b => exact Or.inr rfl
  | cancel i | watch | worker w | offer request => exact Or.inl hLock

-- ---------------------------------------------------------------------------
-- The queue
-- ---------------------------------------------------------------------------

section

variable [DecidableEq ρ]

/-- The queue is fed by guards and by the coordinator. -/
theorem queue_step (h : Inv s) (hEn : enabled s e = true) :
    (∃ w noSender, e = .worker w ∧ s.queue.enabled noSender w = true) ∨
      Queue.Fed s.queue (next s e).queue := by
  cases e with
  | worker w => exact Or.inl ⟨w, _, rfl, hEn⟩
  | offer request => exact Or.inr (.offer request)
  | coordinator =>
    refine Or.inr ?_
    have hMove := coordinatorStep_cases hEn
    show Queue.Fed s.queue (coordinatorStep s).queue
    generalize coordinatorStep s = s' at hMove ⊢
    cases hMove with
    | send hAt hOpen hRoom => exact .barrier hOpen hRoom (h.unsent (Or.inr hAt))
    | refuse | receive | update => exact .same
  | call i =>
    refine Or.inr ?_
    rw [show (next s (.call i)).queue = s.queue from (callStep_cases hEn).frame.1]
    exact .same
  | cancel i | watch | lock j | unlock j => exact Or.inr .same

/-- **The queue is the worker's**: others only put something in. -/
theorem hosts (ρ : Type) [DecidableEq ρ] :
    Queue.Hosts (machine ρ) (fun s => s.queue) Event.worker where
  init s hInit := by
    rw [show s = initial from hInit]
    rfl
  next _ _ := rfl
  step _ _ hs hEn := queue_step (inv_of_reachable hs) hEn

theorem dead_next (h : Inv s) (hEn : enabled s e = true) (hDead : s.queue.dead = true) :
    (next s e).queue.dead = true := by
  rcases queue_step h hEn with ⟨w, noSender, rfl, hWorker⟩ | hFed
  · have hOpen := Queue.open_of_enabled hWorker
    rw [Queue.closed_of_dead hDead] at hOpen
    cases hOpen
  · exact hFed.dead.trans hDead

end

-- ---------------------------------------------------------------------------
-- Who goes on
-- ---------------------------------------------------------------------------

/-- The state is final; `Failed` tells that the worker stopped. -/
def State.Settled (s : State ρ) : Prop :=
  s.shutdown = .completed ∨ s.shutdown = .failed ∧ s.queue.dead = true

/-- Who took the sender is there until the state is settled. -/
structure Led (s : State ρ) : Prop where
  begun : ∀ i, (s.calls i).begun → s.hasSender = false
  holder : ∀ i, s.lock = some (.shutdown i) → (s.calls i).leads
  led : s.hasSender = false → (∃ i, (s.calls i).leads) ∨ s.coordinator ≠ .unborn
  sent : s.coordinator = .awaiting → s.queue.ack ≠ none
  done : s.coordinator = .done → s.Settled
  closed : s.queue.closed = true → s.coordinator = .done ∨ s.queue.dead = true
  failed : s.shutdown = .failed ∨ s.coordinator = .updating false → s.queue.dead = true

theorem led_initial : Led (initial : State ρ) where
  begun _ hNo := absurd rfl hNo.1
  holder _ hNo := nomatch hNo
  led hNo := nomatch hNo
  sent hNo := nomatch hNo
  done hNo := nomatch hNo
  closed hNo := nomatch hNo
  failed hNo := by rcases hNo with hNo | hNo <;> cases hNo

/-- Another call that moves does not keep one from leading. -/
theorem leads_setCall {c : Call} (hLeads : (s.calls j).leads) (hAt : ¬ (s.calls i).leads) :
    ((s.setCall i c).calls j).leads := by
  have hNe : j ≠ i := by
    rintro rfl
    exact hAt hLeads
  rw [setCall_of_ne hNe]
  exact hLeads

/-- A call that moves on within its half was there before. -/
theorem begun_setCall {c : Call} (hBegun : ((s.setCall i c).calls j).begun)
    (hAt : (s.calls i).begun ∨ ¬ c.begun) : (s.calls j).begun := by
  by_cases hSame : j = i
  · subst hSame
    rw [setCall_self] at hBegun
    exact hAt.resolve_right fun hNot => hNot hBegun
  · rwa [setCall_of_ne hSame] at hBegun

theorem Led.setCall (h : Led s) {c : Call} (hAt : ¬ (s.calls i).leads)
    (hBegun : (s.calls i).begun ∨ ¬ c.begun ∨ s.hasSender = false) : Led (s.setCall i c) where
  begun j hj := by
    rcases hBegun with hOld | hNot | hSender
    · exact h.begun j (begun_setCall hj (Or.inl hOld))
    · exact h.begun j (begun_setCall hj (Or.inr hNot))
    · exact hSender
  holder j hj := leads_setCall (h.holder j hj) hAt
  led hSender := (h.led hSender).imp_left fun ⟨j, hj⟩ => ⟨j, leads_setCall hj hAt⟩
  sent := h.sent
  done := h.done
  closed := h.closed
  failed := h.failed

/-- The steps of the coordinator keep track of who leads. -/
theorem Led.coordinator (h : Led s) (hAnswers : s.queue.Answers) (hMove : CoordinatorStep s s') :
    Led s' := by
  cases hMove with
  | refuse hAt hClosed =>
    -- only a worker that stopped closes the queue while the coordinator holds a sender
    have hDead := (h.closed hClosed).resolve_left fun hNo => absurd (hAt.symm.trans hNo) nofun
    exact ⟨h.begun, h.holder, fun _ => Or.inr nofun, nofun, nofun, fun _ => Or.inr hDead,
      fun _ => hDead⟩
  | send hAt hOpen hRoom =>
    refine ⟨h.begun, h.holder, fun _ => Or.inr nofun, nofun, nofun, fun hNo => ?_, ?_⟩
    · exact absurd (hOpen.symm.trans hNo) nofun
    · rintro (hFailed | hNo)
      · exact h.failed (Or.inl hFailed)
      · cases hNo
  | receive hAt hAnswer =>
    refine ⟨h.begun, h.holder, fun _ => Or.inr nofun, nofun, nofun, fun hClosed => ?_, ?_⟩
    · exact Or.inr ((h.closed hClosed).resolve_left fun hNo => absurd (hAt.symm.trans hNo) nofun)
    · rintro (hFailed | hNot)
      · exact h.failed (Or.inl hFailed)
      · -- nothing else than a worker that stopped drops the sender of the answer
        have hNotAcked : s.queue.acked = false := Coordinator.updating.inj hNot
        rw [hNotAcked, Bool.false_or] at hAnswer
        exact hAnswers.unacked hAnswer
  | update hAt =>
    rename_i completed
    -- a failure is one of the watcher, or of the missing answer
    have hFailed : (if s.shutdown = .failed then ShutdownState.failed
        else if completed then .completed else .failed) = .failed → s.queue.dead = true := by
      intro hNow
      split at hNow
      · exact h.failed (Or.inl ‹_›)
      · cases completed with
        | true => cases hNow
        | false => exact h.failed (Or.inr hAt)
    refine ⟨h.begun, h.holder, fun _ => Or.inr nofun, nofun, fun _ => ?_, fun _ => Or.inl rfl, ?_⟩
    · by_cases hNow : (if s.shutdown = .failed then ShutdownState.failed
          else if completed then .completed else .failed) = .failed
      · exact Or.inr ⟨hNow, hFailed hNow⟩
      · refine Or.inl ?_
        show (if s.shutdown = .failed then ShutdownState.failed
          else if completed then .completed else .failed) = .completed
        split at hNow
        · exact absurd rfl hNow
        · cases completed with
          | true => rw [if_neg ‹_›, if_pos rfl]
          | false => exact absurd rfl hNow
    · rintro (hNow | hNo)
      · exact hFailed hNow
      · cases hNo

/-- What the others do to the queue leaves it so. -/
theorem Led.queue (h : Led s) {q : Queue ρ} (hAck : s.queue.ack ≠ none → q.ack ≠ none)
    (hDead : s.queue.dead = true → q.dead = true)
    (hClosed : q.closed = true → s.queue.closed = true ∨ s.coordinator = .done ∨ q.dead = true) :
    Led { s with queue := q } where
  begun := h.begun
  holder := h.holder
  led := h.led
  sent hAt := hAck (h.sent hAt)
  done hAt := (h.done hAt).imp_right fun hFailed => ⟨hFailed.1, hDead hFailed.2⟩
  closed hNow := by
    rcases hClosed hNow with hOld | hEnd
    · exact (h.closed hOld).imp_right hDead
    · exact hEnd
  failed hNow := hDead (h.failed hNow)

/-- The coordinator goes forward. -/
theorem stage_coordinator (hEn : enabled s .coordinator = true) :
    s.coordinator.stage < (next s .coordinator).coordinator.stage := by
  show _ < (coordinatorStep s).coordinator.stage
  have hMove := coordinatorStep_cases hEn
  generalize coordinatorStep s = s' at hMove ⊢
  cases hMove with
  | refuse hAt | send hAt | receive hAt | update hAt =>
    rw [hAt]
    simp [Coordinator.stage]

/-- When the state is final every step of a call takes it nearer to its end. -/
theorem CallStep.nearer (h : CallStep i s s') (hSettled : s.Settled) (hBegun : (s.calls i).begun) :
    (s'.calls i).ended ∨ (s'.calls i).toGo < (s.calls i).toGo := by
  cases h with
  | subscribe hAt => exact absurd hAt hBegun.1
  | take hAt | late hAt => exact absurd hAt hBegun.2
  | close hAt | spawn hAt | wake hAt =>
    refine Or.inr ?_
    rw [hAt]
    show ((s.setCall i _).calls i).toGo < _
    rw [setCall_self]
    simp [Call.toGo]
  | read hAt hFinds =>
    rw [setCall_self]
    rcases hSettled with hFinal | ⟨hFinal, -⟩ <;> rw [hFinal] at hFinds <;> cases hFinds
    · exact Or.inl (Or.inl rfl)
    · exact Or.inl (Or.inr (Or.inl rfl))

section

variable [DecidableEq ρ]

theorem Led.call (h : Led s) (hInv : Inv s) (hMove : CallStep i s s') : Led s' := by
  cases hMove with
  | subscribe hAt =>
    exact h.setCall (by simp [hAt, Call.leads]) (Or.inr (Or.inl (by simp [Call.begun])))
  | late hAt hSender =>
    exact h.setCall (by simp [hAt, Call.leads]) (Or.inr (Or.inr hSender))
  | read hAt hFinds =>
    exact h.setCall (by simp [hAt, Call.leads]) (Or.inl (by simp [hAt, Call.begun]))
  | wake hAt =>
    exact h.setCall (by simp [hAt, Call.leads]) (Or.inl (by simp [hAt, Call.begun]))
  | take hAt hFree hSender =>
    refine ⟨fun _ _ => rfl, fun j hj => ?_, fun _ => Or.inl ⟨i, Or.inl (setCall_self i _)⟩, h.sent,
      h.done, h.closed, h.failed⟩
    -- it took the lock for itself
    obtain rfl : i = j := by simpa using hj
    exact Or.inl (setCall_self i _)
  | close hAt =>
    obtain ⟨hUnborn, -⟩ := hInv.leader i (Or.inl hAt)
    -- it leads on, and so does nobody else
    have hLeads : ∀ j, (s.calls j).leads → ((s.setCall i .sealed).calls j).leads := by
      intro j hj
      by_cases hSame : j = i
      · exact Or.inr (hSame ▸ setCall_self i _)
      · rwa [setCall_of_ne hSame]
    refine ⟨fun j hj => h.begun j (begun_setCall hj (Or.inl (by simp [hAt, Call.begun]))),
      fun j hj => hLeads j (h.holder j hj), fun _ => Or.inl ⟨i, Or.inr (setCall_self i _)⟩, h.sent,
      fun hNo => absurd (hUnborn.symm.trans hNo) (by simp), h.closed, ?_⟩
    rintro (hFailed | hNo)
    · refine h.failed (Or.inl ?_)
      by_cases hOpened : s.shutdown = .opened
      · simp [hOpened] at hFailed
      · simpa [hOpened] using hFailed
    · exact absurd (hUnborn.symm.trans hNo) (by simp)
  | spawn hAt =>
    obtain ⟨hUnborn, -⟩ := hInv.leader i (Or.inr hAt)
    refine ⟨fun j hj => h.begun j (begun_setCall hj (Or.inl (by simp [hAt, Call.begun]))), by simp,
      fun _ => Or.inr (by simp), by simp, by simp, fun hClosed => Or.inr ?_, ?_⟩
    · exact (h.closed hClosed).resolve_left (by simp [hUnborn])
    · rintro (hFailed | hNo)
      · exact h.failed (Or.inl hFailed)
      · cases hNo

/-- **One event** leaves the shutdown with a leader. -/
theorem Led.step (h : Led s) (hInv : Inv s) (hAnswers : s.queue.Answers)
    (hEn : enabled s e = true) : Led (next s e) := by
  cases e with
  | call i => exact h.call hInv (callStep_cases hEn)
  | cancel i =>
    have hAt : s.calls i = .parked := by simpa [enabled] using hEn
    exact h.setCall (by simp [hAt, Call.leads]) (Or.inl (by simp [hAt, Call.begun]))
  | coordinator => exact h.coordinator hAnswers (coordinatorStep_cases hEn)
  | watch =>
    -- the watcher waits for the end of the worker
    have hDead : s.queue.dead = true := by
      simp only [enabled, Bool.and_eq_true] at hEn
      exact hEn.1
    refine ⟨h.begun, h.holder, h.led, h.sent, fun _ => ?_, h.closed, fun _ => hDead⟩
    by_cases hCompleted : s.shutdown = .completed
    · exact Or.inl (if_pos hCompleted)
    · exact Or.inr ⟨if_neg hCompleted, hDead⟩
  | worker w =>
    refine h.queue (fun hAck => Queue.next_ack hAck w) (fun hDead => dead_next hInv hEn hDead)
      fun hClosed => Or.inr ?_
    exact (Queue.next_closed hEn hClosed).imp_left of_decide_eq_true
  | offer request =>
    have hFed : Queue.Fed s.queue (s.queue.offer request) := .offer request
    exact h.queue hFed.ack hFed.dead.trans fun hClosed => Or.inl (hFed.closed.symm.trans hClosed)
  | lock j | unlock j =>
    refine ⟨h.begun, fun _ hNo => ?_, h.led, h.sent, h.done, h.closed, h.failed⟩
    cases hNo

/-- Every reachable manager has one, when it needs one. -/
theorem led_of_reachable (hs : (machine ρ).Reachable s) : Led s := by
  refine hs.invariant_of (J := fun s => Inv s ∧ s.queue.Answers)
    (fun s hs => ⟨inv_of_reachable hs, ((hosts ρ).ok hs).2.1⟩) (fun s hInit => ?_)
    fun s e hJ hLed hEn => hLed.step hJ.1 hJ.2 hEn
  rw [show s = initial from hInit]
  exact led_initial

theorem State.Settled.next (hSettled : s.Settled) (h : Inv s) (hEn : enabled s e = true) :
    (next s e).Settled := by
  have hMoves := h.moves e
  rcases hSettled with hCompleted | ⟨hFailed, hDead⟩
  · rw [hCompleted] at hMoves
    cases hStay : (Manager.next s e).shutdown <;> rw [hStay] at hMoves <;> cases hMoves
    exact Or.inl hStay
  · rw [hFailed] at hMoves
    cases hStay : (Manager.next s e).shutdown <;> rw [hStay] at hMoves <;> cases hMoves
    exact Or.inr ⟨hStay, dead_next h hEn hDead⟩

/-- **The coordinator only goes forward.** -/
theorem stage_next (h : Inv s) (hEn : enabled s e = true) :
    s.coordinator.stage ≤ (next s e).coordinator.stage := by
  cases e with
  | coordinator => exact Nat.le_of_lt (stage_coordinator hEn)
  | call i =>
    have hMove := callStep_cases hEn
    show _ ≤ (callStep i s).coordinator.stage
    generalize callStep i s = s' at hMove ⊢
    cases hMove with
    | spawn hAt =>
      rw [(h.leader i (Or.inr hAt)).1]
      exact Nat.zero_le _
    | subscribe | take | late | close | read | wake => exact Nat.le_refl _
  | cancel i | watch | worker w | offer request | lock j | unlock j => exact Nat.le_refl _

end

end Manager

end RLock.Async
