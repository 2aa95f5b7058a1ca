import RLock.Sync.Leader

/-!
# RLock — the sync shutdown comes to its end

The manager with the condition variable `shutdown_done`. The call that leads stores the
result and notifies afterwards, without the mutex; a call that found no result sleeps
until it is notified, or wakes for no reason. In a fair run nobody sleeps for ever: the
room in the queue may be taken by others again and again, but not always, and whoever
can go on does.

Between the store and the notification the call that leads owes a wakeup (`State.owes`).
A call tests the result with the mutex in its hands and goes to sleep with the same
step, so whoever sleeps found no result, or is owed the wakeup (`Inv`). A wakeup for no
reason is harmless: the call tests again.

The ends are chained as leads-to facts over a fair run (`Lib.Fairness`). The call that
leads goes from stage to stage: it takes the sender, sets the flag and wakes the
waits, finds room in the queue, gets its answer and stores the result. Then the others
have only steps of their own left, and at most one wakeup to wait for; `toGo` counts
both.

## Results

* `Inv.step` — nobody sleeps on a result, unless its notification is to come.
* `sending_goes`, `awaiting_goes` — the barrier gets into the queue and is answered.
* `settles` — once a call has begun there is a result.
* `result_reaches_all` — every call ends with it.
-/

namespace RLock.Sync.Signalled

open RLock.Manager

/-- The manager, with those who wait for its result. -/
structure State (ρ : Type) where
  manager : Manager.State ρ
  /-- the call that has stored the result and is to notify -/
  owes : Option Nat
  /-- the calls that sleep in `shutdown_done.wait` -/
  asleep : Nat → Bool

/-- An event of the manager, or one of the condition variable. -/
inductive Event (ρ : Type)
  | manager (e : Manager.Event ρ)
  /-- `notify_all` -/
  | notify
  /-- a call wakes for no reason -/
  | wake (i : Nat)
  deriving DecidableEq, Repr

section

variable {ρ : Type}

/-- A new manager, for which nobody waits. -/
def initial : State ρ := ⟨Manager.initial, none, fun _ => false⟩

/-- The call stores the result with its next step. -/
def stores (m : Manager.State ρ) (i : Nat) : Bool :=
  match m.calls i with
  | .storing _ => !m.poisoned
  | _ => false

/-- The call goes to sleep with its next step. -/
def sleeps (m : Manager.State ρ) (i : Nat) : Bool :=
  m.calls i = .reading ∧ m.poisoned = false ∧ m.result = none

/-- What may happen next. A call that sleeps, or owes a notification, does nothing else. -/
def enabled (s : State ρ) : Event ρ → Bool
  | .manager (.call i) =>
    Manager.enabled s.manager (.call i) && (s.owes ≠ some i && !s.asleep i)
  | .manager e => Manager.enabled s.manager e
  | .notify => s.owes.isSome
  | .wake i => s.asleep i

/-- The step of an event. A call that stores the result owes the notification. -/
def next (s : State ρ) : Event ρ → State ρ
  | .manager (.call i) =>
    { manager := Manager.next s.manager (.call i)
      owes := if stores s.manager i then some i else s.owes
      asleep := if sleeps s.manager i then Function.update s.asleep i true else s.asleep }
  | .manager e => { s with manager := Manager.next s.manager e }
  | .notify => { s with owes := none, asleep := fun _ => false }
  | .wake i => { s with asleep := Function.update s.asleep i false }

end

/-- The manager with those who wait for its result. -/
def machine (ρ : Type) [DecidableEq ρ] : Machine (State ρ) (Event ρ) where
  init s := s = initial
  enabled s e := enabled s e = true
  next := next

instance (ρ : Type) [DecidableEq ρ] (s : State ρ) (e : Event ρ) :
    Decidable ((machine ρ).enabled s e) :=
  inferInstanceAs (Decidable (enabled s e = true))

section

variable {ρ : Type} {s : State ρ} {e : Event ρ} {i : Nat}

/-- An event of the manager is enabled there. -/
theorem enabled_manager {d : Manager.Event ρ} (hEn : enabled s (.manager d) = true) :
    Manager.enabled s.manager d = true := by
  cases d with
  | call i =>
    simp only [enabled, Bool.and_eq_true] at hEn
    exact hEn.1
  | worker w | offer request => exact hEn

/-- Every other event leaves the manager alone. -/
theorem manager_next (hEn : enabled s e = true) :
    (∃ d, e = .manager d ∧ Manager.enabled s.manager d = true ∧
      (next s e).manager = Manager.next s.manager d) ∨ (next s e).manager = s.manager := by
  cases e with
  | manager d => exact Or.inl ⟨d, rfl, enabled_manager hEn, by cases d <;> rfl⟩
  | notify | wake i => exact Or.inr rfl

/-- A call is moved by its own events only. -/
theorem calls_kept (hEn : enabled s e = true) (hOwn : e ≠ .manager (.call i)) :
    (next s e).manager.calls i = s.manager.calls i := by
  rcases manager_next hEn with ⟨d, rfl, hManager, hNext⟩ | hSame
  · rw [hNext]
    exact Manager.calls_next hManager fun hNo => hOwn (by rw [hNo])
  · rw [hSame]

-- ---------------------------------------------------------------------------
-- Nobody sleeps on a result
-- ---------------------------------------------------------------------------

/-- Whoever sleeps found no result, or is to be notified of it. -/
structure Inv (s : State ρ) : Prop where
  /-- who sleeps found no result, or is to be notified of it -/
  asleep : ∀ i, s.asleep i = true →
    s.manager.calls i = .waiting ∧ (s.manager.result = none ∨ s.owes ≠ none)
  owes : ∀ i, s.owes = some i → s.manager.calls i = .reading ∧ s.manager.result ≠ none

theorem inv_initial : Inv (initial : State ρ) where
  asleep _ hNo := nomatch hNo
  owes _ hNo := nomatch hNo

/-- A call that does not store the result leaves it as it is. -/
theorem result_next {m : Manager.State ρ} (hEn : Manager.enabled m (.call i) = true)
    (hNot : stores m i = false) : (Manager.next m (.call i)).result = m.result := by
  have hMove := Manager.callStep_cases hEn
  show (Manager.callStep i m).result = m.result
  generalize Manager.callStep i m = m' at hMove ⊢
  cases hMove with
  | store hAt hClean => simp [stores, hAt, hClean] at hNot
  | take | flag | wake | refuse | send | receive | poisoned | sleep | pass | fail | woken => rfl

theorem store_next {m : Manager.State ρ} (hStores : stores m i = true) :
    (Manager.next m (.call i)).calls i = .reading ∧ (Manager.next m (.call i)).result ≠ none := by
  unfold stores at hStores
  split at hStores
  · rename_i complete hAt
    have hClean : m.poisoned = false := by simpa using hStores
    simp [Manager.next, Manager.callStep, hAt, hClean, Manager.State.setCall]
  · cases hStores

theorem sleep_next {m : Manager.State ρ} (hSleeps : sleeps m i = true) :
    (Manager.next m (.call i)).calls i = .waiting ∧ (Manager.next m (.call i)).result = none := by
  obtain ⟨hAt, hClean, hResult⟩ := of_decide_eq_true hSleeps
  simp [Manager.next, Manager.callStep, hAt, hClean, hResult, Manager.State.setCall]

/-- A call that leads has not stored its result, so it neither sleeps nor owes. -/
theorem Inv.leader_enabled (h : Inv s) (hLeads : (s.manager.calls i).leads = true)
    (hOwn : Manager.enabled s.manager (.call i) = true) :
    enabled s (.manager (.call i)) = true := by
  have hFree : s.owes ≠ some i := by
    intro hOwes
    rw [(h.owes i hOwes).1] at hLeads
    cases hLeads
  have hAwake : s.asleep i = false := by
    cases hAsleep : s.asleep i with
    | false => rfl
    | true =>
      rw [(h.asleep i hAsleep).1] at hLeads
      cases hLeads
  simp [enabled, hOwn, hFree, hAwake]

variable [DecidableEq ρ]

/-- **The step of a call** puts nobody to sleep on a result. -/
theorem Inv.call (h : Inv s) (hManager : Manager.Inv s.manager)
    (hEn : enabled s (.manager (.call i)) = true) : Inv (next s (.manager (.call i))) := by
  have hOwn := enabled_manager hEn
  obtain ⟨hFree, hAwake⟩ : s.owes ≠ some i ∧ s.asleep i = false := by
    simpa [enabled, hOwn] using hEn
  have hOther : ∀ j, j ≠ i → (next s (.manager (.call i))).manager.calls j = s.manager.calls j :=
    fun j hNe => (Manager.callStep_cases hOwn).frame hNe
  have hOwes : s.owes ≠ none → (next s (.manager (.call i))).owes ≠ none := by
    intro hSome
    show (if stores s.manager i then some i else s.owes) ≠ none
    split
    · nofun
    · exact hSome
  constructor
  · intro j hj
    by_cases hSame : j = i
    · subst hSame
      -- the call itself was awake, so it goes to sleep now, and found no result
      have hSleeps : sleeps s.manager j = true := by
        have hj : (if sleeps s.manager j then Function.update s.asleep j true else s.asleep) j =
          true := hj
        split at hj
        · assumption
        · exact absurd (hAwake.symm.trans hj) nofun
      exact ⟨(sleep_next hSleeps).1, Or.inl (sleep_next hSleeps).2⟩
    · have hOld : s.asleep j = true := by
        have hj : (if sleeps s.manager i then Function.update s.asleep i true else s.asleep) j =
          true := hj
        split at hj
        · exact (Function.update_of_ne hSame _ _).symm.trans hj
        · exact hj
      obtain ⟨hWaiting, hWhy⟩ := h.asleep j hOld
      refine ⟨(hOther j hSame).trans hWaiting, ?_⟩
      -- another one sleeps on: if the result comes now, its notification is owed
      rcases hWhy with hNone | hSome
      · cases hStores : stores s.manager i with
        | true =>
          refine Or.inr ?_
          show (if stores s.manager i then some i else s.owes) ≠ none
          rw [hStores]
          nofun
        | false => exact Or.inl ((result_next hOwn hStores).trans hNone)
      · exact Or.inr (hOwes hSome)
  · intro j hj
    have hNow : (if stores s.manager i then some i else s.owes) = some j := hj
    split at hNow
    · cases hNow
      exact store_next ‹_›
    -- who owed a notification before is not this call, which could not go on
    · have hNe : j ≠ i := by
        rintro rfl
        exact hFree hNow
      obtain ⟨hReading, hResult⟩ := h.owes j hNow
      exact ⟨(hOther j hNe).trans hReading, Manager.result_next hManager hResult _⟩

/-- **Nobody sleeps on a result**, unless its notification is to come. -/
theorem Inv.step (h : Inv s) (hManager : Manager.Inv s.manager) (hEn : enabled s e = true) :
    Inv (next s e) := by
  cases e with
  | manager d =>
    cases d with
    | call i => exact h.call hManager hEn
    | worker w | offer request => exact ⟨h.asleep, h.owes⟩
  | notify => exact ⟨nofun, nofun⟩
  | wake i =>
    refine ⟨fun j hj => h.asleep j ?_, h.owes⟩
    have hj : Function.update s.asleep i false j = true := hj
    rw [Function.update_apply] at hj
    split at hj
    · cases hj
    · exact hj

theorem manager_reachable (hs : (machine ρ).Reachable s) :
    (Manager.machine ρ).Reachable s.manager := by
  refine hs.project (fun s hInit => ?_) fun s e hEn => ?_
  · rw [show s = initial from hInit]
    rfl
  · rcases manager_next hEn with ⟨d, -, hOwn, hNext⟩ | hSame
    · exact Or.inr ⟨d, hOwn, hNext⟩
    · exact Or.inl hSame

/-- What is kept by the manager is kept with those who wait. -/
theorem manager_keeps {I : Manager.State ρ → Prop}
    (hKeep : ∀ m d, Manager.Inv m → I m → Manager.enabled m d = true → I (Manager.next m d)) :
    ∀ s d, (machine ρ).Reachable s → I s.manager → (machine ρ).enabled s d →
      I ((machine ρ).next s d).manager := by
  intro s d hs hI hEn
  rcases manager_next hEn with ⟨d, -, hOwn, hNext⟩ | hSame
  · rw [show ((machine ρ).next s _).manager = _ from hNext]
    exact hKeep _ _ (Manager.inv_of_reachable (manager_reachable hs)) hI hOwn
  · exact hSame ▸ hI

theorem inv_of_reachable (hs : (machine ρ).Reachable s) : Inv s := by
  refine hs.invariant_of (J := fun s => Manager.Inv s.manager)
    (fun s hs => Manager.inv_of_reachable (manager_reachable hs)) (fun s hInit => ?_)
    fun s d hManager hInv hEn => hInv.step hManager hEn
  rw [show s = initial from hInit]
  exact inv_initial

-- ---------------------------------------------------------------------------
-- Fair runs
-- ---------------------------------------------------------------------------

/-- A call that has the sender, or has found it gone, is not passed over for ever at the
room in the queue, though others may come first; a command to Redis returns. Nothing is
promised to a call that has not come past the lock of the sender, and no wakeup for no
reason is owed. -/
structure Fair (r : (machine ρ).Run) : Prop where
  call : ∀ i, r.Strict
    (fun s => s.manager.calls i ≠ .idle ∧ enabled s (.manager (.call i)) = true)
    (.manager (.call i))
  notify : r.Just (fun s => s.owes ≠ none) .notify
  worker : Queue.Diligent r (fun s => s.manager.queue) fun w => .manager (.worker w)

variable {r : (machine ρ).Run}

/-- The queue is the worker's, also with calls that sleep. -/
theorem hosts (ρ : Type) [DecidableEq ρ] :
    Queue.Hosts (machine ρ) (fun s => s.manager.queue) fun w => .manager (.worker w) where
  init s hInit := by
    rw [show s = initial from hInit]
    rfl
  next _ _ := rfl
  step s d hs hEn := by
    rcases manager_next hEn with ⟨d, rfl, hOwn, hNext⟩ | hSame
    · have hInv := Manager.inv_of_reachable (manager_reachable hs)
      rw [show ((machine ρ).next s _).manager = _ from hNext]
      exact (Manager.queue_step hInv hOwn).imp_left fun ⟨w, noSender, hIs, hWorker⟩ =>
        ⟨w, noSender, by rw [hIs], hWorker⟩
    · refine Or.inr ?_
      rw [show ((machine ρ).next s d).manager = s.manager from hSame]
      exact .same

-- ---------------------------------------------------------------------------
-- The call that leads
-- ---------------------------------------------------------------------------

/-- Who leads goes on leading, or has stored the result. -/
theorem leading_kept {k : Nat} : ∀ s d, (machine ρ).Reachable s →
    Manager.Leading i k s.manager → (machine ρ).enabled s d →
    Manager.Leading i k ((machine ρ).next s d).manager :=
  manager_keeps fun _ _ hInv hLeading hEn => hLeading.next hInv hEn

/-- **The call that leads goes on** when it comes to be able to. -/
theorem leader_goes (hFair : Fair r) {k : Nat}
    (hDue : r.Leads
      (fun s => (s.manager.calls i).leads = true ∧ (s.manager.calls i).stage = k)
      fun s => (s.manager.calls i).leads = true → (s.manager.calls i).stage = k →
        Manager.enabled s.manager (.call i) = true) :
    r.Leads (fun s => Manager.Leading i k s.manager)
      fun s => Manager.Leading i (k + 1) s.manager := by
  refine .strict (hFair.call i) (fun s d hs hAt hEn => Or.inl (leading_kept s d hs hAt hEn))
    (fun s hs hAt hEn => ?_) fun n hAt => ?_
  · have hInv := Manager.inv_of_reachable (manager_reachable hs)
    rcases hAt with hResult | ⟨hLeads, hStage⟩
    · exact Or.inl (Manager.result_next hInv hResult _)
    · exact (Manager.callStep_cases (enabled_manager hEn)).further hInv hLeads hStage
  · rcases hAt with hResult | ⟨hLeads, hStage⟩
    · exact ⟨n, Nat.le_refl n, Or.inr (Or.inl hResult)⟩
    · rcases Nat.lt_or_eq_of_le hStage with hPast | hNow
      · exact ⟨n, Nat.le_refl n, Or.inr (Or.inr ⟨hLeads, hPast⟩)⟩
      -- it has not moved by the time it can
      · obtain ⟨m, hm, hReady⟩ := hDue n ⟨hLeads, hNow.symm⟩
        refine ⟨m, hm, ?_⟩
        rcases Machine.Run.stable leading_kept (Or.inr ⟨hLeads, hStage⟩) hm with
          hResult | ⟨hLeads, hStage⟩
        · exact Or.inr (Or.inl hResult)
        · rcases Nat.lt_or_eq_of_le hStage with hPast | hNow
          · exact Or.inr (Or.inr ⟨hLeads, hPast⟩)
          · refine Or.inl ⟨?_, (inv_of_reachable (r.reachable m)).leader_enabled hLeads
              (hReady hLeads hNow.symm)⟩
            intro hNo
            rw [hNo] at hLeads
            cases hLeads

/-- Where the leading call waits for nobody. -/
theorem leader_ready (hFair : Fair r) {k : Nat} (hReady : ∀ m : Manager.State ρ,
    (m.calls i).leads = true → (m.calls i).stage = k → Manager.enabled m (.call i) = true) :
    r.Leads (fun s => Manager.Leading i k s.manager)
      fun s => Manager.Leading i (k + 1) s.manager :=
  leader_goes hFair (.of_imp fun s _ _ hLeads hStage => hReady s.manager hLeads hStage)

/-- The barrier gets into the queue. -/
theorem sending_goes (hFair : Fair r) (i : Nat) :
    r.Leads (fun s => Manager.Leading i 2 s.manager) fun s => Manager.Leading i 3 s.manager := by
  have hReady : ∀ m : Manager.State ρ, (m.calls i).stage = 2 →
      m.queue.full = false ∨ m.queue.closed = true → Manager.enabled m (.call i) = true := by
    intro m hStage hRoom
    cases hAt : m.calls i with
    | sending => rcases hRoom with hRoom | hClosed <;> simp [Manager.enabled, *]
    | _ => simp [Call.stage, hAt] at hStage
  refine leader_goes hFair fun n hAt => ?_
  -- a full queue has room later, since the worker is diligent
  cases hFull : (r.state n).manager.queue.full with
  | false => exact ⟨n, Nat.le_refl n, fun _ hStage => hReady _ hStage (Or.inl hFull)⟩
  | true =>
    obtain ⟨m, hm, hRoom⟩ := (hosts ρ).gives_room hFair.worker n hFull
    exact ⟨m, hm, fun _ hStage => hReady _ hStage hRoom⟩

/-- The barrier is answered. -/
theorem awaiting_goes (hFair : Fair r) (i : Nat) :
    r.Leads (fun s => Manager.Leading i 3 s.manager) fun s => Manager.Leading i 4 s.manager := by
  have hAwaits : ∀ c : Call, c.stage = 3 → c = .awaiting := by
    intro c hStage
    cases c <;> simp [Call.stage] at hStage ⊢
  refine leader_goes hFair fun n hAt => ?_
  have hSent := (Manager.led_of_reachable (manager_reachable (r.reachable n))).sent i
    (hAwaits _ hAt.2)
  -- the barrier has a place in the queue, and the worker comes to it
  have hEntered := ((hosts ρ).ok (r.reachable n)).2.1.entered hSent
  obtain ⟨p, hp⟩ := List.mem_iff_getElem?.mp hEntered
  obtain ⟨m, hm, hEnd⟩ := (hosts ρ).finishes hFair.worker p .barrier n hp
  refine ⟨m, hm, fun _ hStage => ?_⟩
  have hStill := hAwaits _ hStage
  have hLed := Manager.led_of_reachable (manager_reachable (r.reachable m))
  have hAnswer := ((hosts ρ).ok (r.reachable m)).2.1.answered (hLed.sent i hStill)
    (hEnd.imp_left List.mem_of_getElem?)
  simpa [Manager.enabled, hStill] using hAnswer

/-- **Once a call has begun there is a result.** -/
theorem settles (hFair : Fair r) (i : Nat) :
    r.Leads (fun s => s.manager.calls i ≠ .idle) fun s => s.manager.result ≠ none := by
  intro n hMade
  have hLed := Manager.led_of_reachable (manager_reachable (r.reachable n))
  rcases hLed.led (hLed.made i hMade) with ⟨k, hLeads⟩ | hResult
  -- stage by stage; only the queue can hold it up
  · have hFirst : r.Leads (fun s => Manager.Leading k 0 s.manager)
        fun s => Manager.Leading k 1 s.manager := by
      refine leader_ready hFair fun m hLeads hStage => ?_
      cases hAt : m.calls k <;> simp_all [Call.stage, Call.leads, Manager.enabled]
    have hSecond : r.Leads (fun s => Manager.Leading k 1 s.manager)
        fun s => Manager.Leading k 2 s.manager := by
      refine leader_ready hFair fun m hLeads hStage => ?_
      cases hAt : m.calls k <;> simp_all [Call.stage, Manager.enabled]
    have hLast : r.Leads (fun s => Manager.Leading k 4 s.manager)
        fun s => Manager.Leading k 5 s.manager := by
      refine leader_ready hFair fun m hLeads hStage => ?_
      cases hAt : m.calls k <;> simp_all [Call.stage, Manager.enabled]
    have hResult : r.Leads (fun s => Manager.Leading k 5 s.manager)
        fun s => s.manager.result ≠ none := by
      refine .of_imp fun s _ hLeading => hLeading.resolve_right ?_
      rintro ⟨-, hStage⟩
      cases hAt : s.manager.calls k <;> simp [Call.stage, hAt] at hStage
    exact (hFirst.trans <| hSecond.trans <| (sending_goes hFair k).trans <|
      (awaiting_goes hFair k).trans <| hLast.trans hResult) n (Or.inr ⟨hLeads, Nat.zero_le _⟩)
  · exact ⟨n, Nat.le_refl n, hResult⟩

-- ---------------------------------------------------------------------------
-- The others
-- ---------------------------------------------------------------------------

/-- The call is to be notified, or to notify itself, before it goes on. -/
def blocked (s : State ρ) (i : Nat) : Bool := s.asleep i || s.owes = some i

/-- How many steps a call has to go, with the notification. -/
def toGo (s : State ρ) (i : Nat) : Nat := (s.manager.calls i).toGo + (blocked s i).toNat

/-- When the result is there nobody is blocked any more. -/
theorem blocked_next (hManager : Manager.Inv s.manager) (hResult : s.manager.result ≠ none)
    (hNow : blocked (next s e) i = true) : blocked s i = true := by
  have hCall : ∀ k, next s (.manager (.call k)) =
      { s with manager := Manager.next s.manager (.call k) } := by
    intro k
    -- nobody stores a second result
    have hStores : stores s.manager k = false := by
      cases hAt : s.manager.calls k with
      | storing complete => exact absurd (hManager.leader k (by rw [hAt]; rfl)).1 hResult
      | _ => simp [stores, hAt]
    have hSleeps : sleeps s.manager k = false := by simp [sleeps, hResult]
    simp [next, hStores, hSleeps]
  cases e with
  | manager d =>
    cases d with
    | call k =>
      rw [hCall k] at hNow
      exact hNow
    | worker w | offer request => exact hNow
  | notify => cases hNow
  | wake k =>
    have hNow : (Function.update s.asleep k false i || s.owes = some i) = true := hNow
    rw [Function.update_apply] at hNow
    unfold blocked
    split at hNow
    · rw [Bool.false_or] at hNow
      rw [hNow, Bool.or_true]
    · exact hNow

/-- The result is there for a call that was made. -/
def Told (i : Nat) (m : Manager.State ρ) : Prop := m.result ≠ none ∧ m.calls i ≠ .idle

/-- A result stays, and so does a call that was made. -/
theorem told_kept : ∀ s d, (machine ρ).Reachable s → Told i s.manager →
    (machine ρ).enabled s d → Told i ((machine ρ).next s d).manager :=
  manager_keeps fun _ d hInv hTold hEn =>
    ⟨Manager.result_next hInv hTold.1 d, Manager.not_idle_next hTold.2 hEn⟩

/-- What others do takes a call nearer to its end or leaves it alone. -/
theorem others_next (hs : (machine ρ).Reachable s) (hTold : Told i s.manager)
    (hEn : enabled s e = true) (hCall : e ≠ .manager (.call i)) :
    blocked (next s e) i = blocked s i ∧ toGo (next s e) i = toGo s i ∨
      toGo (next s e) i < toGo s i := by
  have hManager := Manager.inv_of_reachable (manager_reachable hs)
  unfold toGo
  rw [calls_kept hEn hCall]
  cases hNow : blocked (next s e) i with
  | true =>
    rw [blocked_next hManager hTold.1 hNow]
    exact Or.inl ⟨rfl, rfl⟩
  | false =>
    cases hBefore : blocked s i with
    | true => exact Or.inr (Nat.lt_succ_self _)
    | false => exact Or.inl ⟨rfl, rfl⟩

theorem own_next (hs : (machine ρ).Reachable s) (hTold : Told i s.manager)
    (hFree : blocked s i = false) (hEn : enabled s (.manager (.call i)) = true) :
    ((next s (.manager (.call i))).manager.calls i).ended ∨
      toGo (next s (.manager (.call i))) i < toGo s i := by
  have hManager := Manager.inv_of_reachable (manager_reachable hs)
  refine ((Manager.callStep_cases (enabled_manager hEn)).nearer hManager hTold.1
    hTold.2).imp_right fun hLess => ?_
  -- it does not go to sleep any more
  have hStill : blocked (next s (.manager (.call i))) i = false := by
    rw [← Bool.not_eq_true]
    intro hNow
    exact absurd (hFree.symm.trans (blocked_next hManager hTold.1 hNow)) nofun
  unfold toGo
  rw [hStill, hFree]
  exact hLess

/-- **Who is to be notified is.** -/
theorem blocked_goes (hFair : Fair r) (i k : Nat) :
    r.Leads (fun s => (Told i s.manager ∧ toGo s i = k) ∧ blocked s i = true)
      fun s => Told i s.manager ∧ toGo s i < k := by
  refine .just hFair.notify (fun s d hs ⟨⟨hTold, hRank⟩, hBlocked⟩ hEn => ?_)
    (fun s hs ⟨⟨hTold, hRank⟩, hBlocked⟩ hEn => ?_) fun s hs ⟨⟨hTold, _⟩, hBlocked⟩ => Or.inl ?_
  -- a call that is blocked does nothing else
  · have hCall : d ≠ .manager (.call i) := by
      rintro rfl
      have hEn : enabled s (.manager (.call i)) = true := hEn
      simp only [enabled, blocked, Bool.and_eq_true, Bool.or_eq_true] at hEn hBlocked
      simp_all
    have hNext := told_kept s d hs hTold hEn
    rcases others_next hs hTold hEn hCall with ⟨hSame, hLeft⟩ | hLess
    · exact Or.inl ⟨⟨hNext, hLeft.trans hRank⟩, hSame.trans hBlocked⟩
    · exact Or.inr ⟨hNext, hRank ▸ hLess⟩
  · refine ⟨told_kept s _ hs hTold hEn, hRank ▸ ?_⟩
    show _ < (s.manager.calls i).toGo + (blocked s i).toNat
    rw [hBlocked]
    exact Nat.lt_succ_self _
  -- the result is there, so a notification is owed
  · have hInv := inv_of_reachable hs
    unfold blocked at hBlocked
    rcases (Bool.or_eq_true _ _).mp hBlocked with hAsleep | hOwes
    · exact (hInv.asleep i hAsleep).2.resolve_left hTold.1
    · rw [of_decide_eq_true hOwes]
      nofun

/-- **Who is not blocked goes on.** -/
theorem free_goes (hFair : Fair r) (i k : Nat) :
    r.Leads (fun s => (Told i s.manager ∧ toGo s i = k) ∧ blocked s i = false)
      fun s => (s.manager.calls i).ended ∨ Told i s.manager ∧ toGo s i < k := by
  have hOwn : ∀ s, (machine ρ).Reachable s →
      (Told i s.manager ∧ toGo s i = k) ∧ blocked s i = false →
      enabled s (.manager (.call i)) = true →
      ((next s (.manager (.call i))).manager.calls i).ended ∨
        Told i (next s (.manager (.call i))).manager ∧
          toGo (next s (.manager (.call i))) i < k := by
    rintro s hs ⟨⟨hTold, rfl⟩, hFree⟩ hEn
    exact (own_next hs hTold hFree hEn).imp_right fun hLess => ⟨told_kept s _ hs hTold hEn, hLess⟩
  refine .just (hFair.call i).just (fun s d hs hAt hEn => ?_) hOwn fun s hs hAt => ?_
  · by_cases hCall : d = .manager (.call i)
    · subst hCall
      exact Or.inr (hOwn s hs hAt hEn)
    · obtain ⟨⟨hTold, hRank⟩, hFree⟩ := hAt
      have hNext := told_kept s d hs hTold hEn
      rcases others_next hs hTold hEn hCall with ⟨hSame, hLeft⟩ | hLess
      · exact Or.inl ⟨⟨hNext, hLeft.trans hRank⟩, hSame.trans hFree⟩
      · exact Or.inr (Or.inr ⟨hNext, hRank ▸ hLess⟩)
  · obtain ⟨⟨hTold, -⟩, hFree⟩ := hAt
    by_cases hEnded : (s.manager.calls i).ended
    · exact Or.inr (Or.inl hEnded)
    · have hManager := Manager.inv_of_reachable (manager_reachable hs)
      refine Or.inl ⟨hTold.2, ?_⟩
      -- with the result there it waits for nobody
      have hOwnEn := Manager.call_enabled hManager hTold.1 hTold.2 hEnded
      simp only [blocked, Bool.or_eq_false_iff, decide_eq_false_iff_not] at hFree
      simp [enabled, hOwnEn, hFree.1, hFree.2]

/-- **A call comes to its end** when there is a result. -/
theorem call_ends (hFair : Fair r) (i : Nat) :
    r.Leads (fun s => Told i s.manager) fun s => (s.manager.calls i).ended := by
  refine .ranked (fun s => toGo s i) fun k n hn => ?_
  cases hBlocked : blocked (r.state n) i with
  | true =>
    obtain ⟨m, hm, hLess⟩ := blocked_goes hFair i k n ⟨hn, hBlocked⟩
    exact ⟨m, hm, Or.inr hLess⟩
  | false => exact free_goes hFair i k n ⟨hn, hBlocked⟩

/-- **The result reaches all**: every call ends, with a result that tells whether the
worker stopped before the barrier. -/
theorem result_reaches_all (hFair : Fair r) (i : Nat) :
    r.Leads (fun s => s.manager.calls i ≠ .idle)
      fun s => s.manager.Settled ∧ (s.manager.calls i).ended := by
  intro n hMade
  have hKept := manager_keeps (ρ := ρ) (I := fun m => m.calls i ≠ .idle)
    fun _ _ _ hAt hEn => Manager.not_idle_next hAt hEn
  obtain ⟨m, hm, hResult⟩ := settles hFair i n hMade
  have hTold : Told i (r.state m).manager := ⟨hResult, Machine.Run.stable hKept hMade hm⟩
  obtain ⟨k, hk, hEnded⟩ := call_ends hFair i m hTold
  have hStill := Machine.Run.stable (P := fun s : State ρ => Told i s.manager) told_kept hTold hk
  exact ⟨k, Nat.le_trans hm hk,
    (Manager.led_of_reachable (manager_reachable (r.reachable k))).settled hStill.1, hEnded⟩

end

/-- The first call sends its barrier behind a release; the second sleeps until it is
notified. -/
def schedule : List (Event Nat) :=
  [.manager (.offer 7), .manager (.worker .take), .manager (.offer 8)] ++
    List.replicate 4 (.manager (.call 0)) ++ List.replicate 4 (.manager (.call 1)) ++
    [.manager (.worker .released), .manager (.worker .take), .manager (.worker .released),
      .manager (.worker .take), .manager (.worker .acknowledge)] ++
    List.replicate 2 (.manager (.call 0)) ++ [.notify, .manager (.call 0)] ++
    List.replicate 2 (.manager (.call 1))

/-- Where the schedule leads. -/
def settled : State Nat := ((machine Nat).exec initial schedule).getD initial

theorem schedule_settled : (machine Nat).exec initial schedule = some settled :=
  Machine.exec_getD (by decide +kernel)

/-- The schedule, and then nothing. -/
def settling : (machine Nat).Run := Machine.rest (.init rfl) schedule_settled

/-- The run after it is fair, since nobody who made a step can make another one. -/
theorem settling_fair : Fair settling where
  call i := by
    refine Machine.rest_strict ?_
    rintro ⟨hMade, hEn⟩
    by_cases hCalls : i = 0 ∨ i = 1
    · rcases hCalls with rfl | rfl <;> exact absurd hEn (by decide +kernel)
    · refine hMade (Machine.exec_keeps (P := fun s => s.manager.calls i = .idle)
        (fun e he s hs hOn => (calls_kept hOn ?_).trans hs) schedule_settled rfl)
      rintro rfl
      simp [schedule, not_or.mp hCalls] at he
  notify := by
    refine (Machine.rest_strict ?_).just
    have hNone : settled.owes = none := by decide +kernel
    exact fun hNo => hNo hNone
  worker w hDie := by
    refine (Machine.rest_strict ?_).just
    cases w with
    | take | released | acknowledge | finish => decide +kernel
    | die => exact absurd rfl hDie

/-- Also to the call that slept. -/
theorem result_reaches_all_settling :
    settling.Leads (fun s => s.manager.calls 1 ≠ .idle)
      fun s => s.manager.Settled ∧ (s.manager.calls 1).ended :=
  result_reaches_all settling_fair 1

end RLock.Sync.Signalled
