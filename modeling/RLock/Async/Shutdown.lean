import RLock.Async.Leader
import RLock.Lib.Watch

/-!
# RLock — the async shutdown comes to its end

The manager with the version of its watch value. A `shutdown()` call that waits in
`changed()` goes on only when the version differs from the one it has seen, and so
does every `wait_for_shutdown` of an acquisition. In a fair run nobody waits for
ever: the lock and the room in the queue may be taken by others again and again,
but not always, and whoever can go on does.

A waiter that has looked at a version knows the value it had then. As long as the
version is the same it knows the value that is there (`Watch.Knows`), because a step
that changes the value without a new version does not exist (`announces_all`). A call
that waits saw the state opened or closing, so once it is settled the version has
moved on, and the call is awake.

The ends are chained as leads-to facts over a fair run (`Lib.Fairness`): the lock
becomes free, a call gets it, its leader spawns the coordinator, the coordinator finds
room, sends, gets its answer and settles the state, and then each call has only steps
of its own left. What fairness is needed for is in `Fair`, and the last section has a
run that satisfies it.

## Results

* `Inv.call_next`, `Inv.waiter_next` — nobody waits for what is there already.
* `lock_freed`, `locking_goes` — a call gets the admission lock.
* `coordinator_goes`, `settles` — once a call has begun the state is settled, whoever is
  cancelled.
* `shutdown_ends` — every call ends, and every wait for a shutdown.
-/

namespace RLock.Async.Watched

open RLock.Manager Machine

/-- Where one call of `wait_for_shutdown` stands. -/
inductive Waiter
  | idle
  /-- `borrow_and_update` is next -/
  | reading
  /-- in `changed()`, with the version it has seen -/
  | parked (seen : Nat)
  | returned
  deriving DecidableEq, Repr

/-- The manager, with the versions that its watchers have seen. -/
structure State (ρ : Type) where
  manager : Manager.State ρ
  /-- the version of the watch value -/
  version : Nat
  /-- the version the receiver of each `shutdown()` call has seen -/
  seen : Nat → Nat
  waiters : Nat → Waiter

/-- An event of the manager, or of someone who waits for its shutdown. -/
inductive Event (ρ : Type)
  | manager (e : Manager.Event ρ)
  | waiter (j : Nat)
  /-- another branch of the `select!` is taken -/
  | leave (j : Nat)
  deriving DecidableEq, Repr

section

variable {ρ : Type}

/-- A new manager that nobody watches. -/
def initial : State ρ := ⟨Manager.initial, 0, fun _ => 0, fun _ => .idle⟩

/-- The closure of a `send_if_modified` tells that it changed the value. -/
def announces (m : Manager.State ρ) : Manager.Event ρ → Bool
  | .call i => m.calls i = .taken ∧ m.shutdown = .opened
  | .coordinator => match m.coordinator with
    | .updating _ => m.shutdown ≠ .failed
    | _ => false
  | .watch => m.shutdown ≠ .completed
  | _ => false

/-- `subscribe`, `borrow_and_update` and `changed` mark the version as seen. -/
def marks : Call → Bool
  | .idle => true
  | .reading => true
  | .parked => true
  | _ => false

/-- What may happen next. Whoever is parked waits for a new version. -/
def enabled (s : State ρ) : Event ρ → Bool
  | .manager (.call i) => Manager.enabled s.manager (.call i) &&
    (s.manager.calls i ≠ .parked || s.version ≠ s.seen i)
  | .manager e => Manager.enabled s.manager e
  | .waiter j => match s.waiters j with
    | .parked seen => s.version ≠ seen
    | .returned => false
    | _ => true
  | .leave j => match s.waiters j with
    | .parked _ => true
    | _ => false

/-- The next step of `wait_for_shutdown`. -/
def waiterStep (s : State ρ) : Waiter → Waiter
  | .idle => .reading
  | .reading => if s.manager.shutdown ≠ .opened then .returned else .parked s.version
  | .parked _ => .reading
  | .returned => .returned

/-- The step of an event. A change of the value that is announced makes a new version. -/
def next (s : State ρ) : Event ρ → State ρ
  | .manager e =>
    { s with
      manager := Manager.next s.manager e
      version := s.version + (announces s.manager e).toNat
      seen := match e with
        | .call i =>
          if marks (s.manager.calls i) then Function.update s.seen i s.version else s.seen
        | _ => s.seen }
  | .waiter j => { s with waiters := Function.update s.waiters j (waiterStep s (s.waiters j)) }
  | .leave j => { s with waiters := Function.update s.waiters j .idle }

end

/-- The manager with those who watch it. -/
def machine (ρ : Type) [DecidableEq ρ] : Machine (State ρ) (Event ρ) where
  init s := s = initial
  enabled s e := enabled s e = true
  next := next

instance (ρ : Type) [DecidableEq ρ] (s : State ρ) (e : Event ρ) :
    Decidable ((machine ρ).enabled s e) :=
  inferInstanceAs (Decidable (enabled s e = true))

section

variable {ρ : Type} {s : State ρ} {e : Event ρ} {i j : Nat}

/-- An event of the manager is enabled there. -/
theorem enabled_manager {e : Manager.Event ρ} (hEn : enabled s (.manager e) = true) :
    Manager.enabled s.manager e = true := by
  cases e with
  | call i =>
    unfold enabled at hEn
    rw [Bool.and_eq_true] at hEn
    exact hEn.1
  | cancel i | coordinator | watch | worker w | offer request | lock j | unlock j => exact hEn

/-- A call is enabled if it is in the manager and, where it waits, has seen an older version. -/
theorem enabled_call (hOwn : Manager.enabled s.manager (.call i) = true)
    (hSees : s.manager.calls i = .parked → s.version ≠ s.seen i) :
    enabled s (.manager (.call i)) = true := by
  show (Manager.enabled s.manager (.call i) && _) = true
  by_cases hAt : s.manager.calls i = .parked
  · simp [hOwn, hSees hAt]
  · simp [hOwn, hAt]

/-- What the watchers do is nothing to the manager. -/
theorem manager_next (hEn : enabled s e = true) :
    (∃ d, e = .manager d ∧ Manager.enabled s.manager d = true) ∨
      (next s e).manager = s.manager ∧ (next s e).version = s.version := by
  cases e with
  | manager d => exact Or.inl ⟨d, rfl, enabled_manager hEn⟩
  | waiter j | leave j => exact Or.inr ⟨rfl, rfl⟩

/-- A call is moved by its own events only. -/
theorem calls_same (hEn : enabled s e = true) (hCall : e ≠ .manager (.call i))
    (hCancel : e ≠ .manager (.cancel i)) :
    (next s e).manager.calls i = s.manager.calls i := by
  rcases manager_next hEn with ⟨d, rfl, hManager⟩ | ⟨hSame, -⟩
  · exact Manager.calls_next hManager (fun hNo => hCall (by rw [hNo]))
      fun hNo => hCancel (by rw [hNo])
  · rw [hSame]

theorem calls_kept (hEn : enabled s e = true) (hOwn : e ≠ .manager (.call i))
    (hAt : s.manager.calls i ≠ .parked) : (next s e).manager.calls i = s.manager.calls i := by
  rcases manager_next hEn with ⟨d, rfl, hManager⟩ | ⟨hSame, -⟩
  · exact Manager.calls_kept hManager (fun hNo => hOwn (by rw [hNo])) hAt
  · rw [hSame]

theorem waiters_same (hOwn : e ≠ .waiter j) (hLeave : e ≠ .leave j) :
    (next s e).waiters j = s.waiters j := by
  cases e with
  | manager d => rfl
  | waiter k => exact Function.update_of_ne (fun hSame => hOwn (by rw [hSame])) _ _
  | leave k => exact Function.update_of_ne (fun hSame => hLeave (by rw [hSame])) _ _

/-- Without a word the state does not change. -/
theorem shutdown_next {m : Manager.State ρ} {d : Manager.Event ρ}
    (hEn : Manager.enabled m d = true) (hSilent : announces m d = false) :
    (Manager.next m d).shutdown = m.shutdown := by
  cases d with
  | call i =>
    have hMove := Manager.callStep_cases hEn
    show (Manager.callStep i m).shutdown = m.shutdown
    generalize Manager.callStep i m = m' at hMove ⊢
    cases hMove with
    | close hAt =>
      have hNot : m.shutdown ≠ .opened := by simpa [announces, hAt] using hSilent
      exact if_neg hNot
    | subscribe | take | late | spawn | read | wake => rfl
  | coordinator =>
    have hMove := Manager.coordinatorStep_cases hEn
    show (Manager.coordinatorStep m).shutdown = m.shutdown
    generalize Manager.coordinatorStep m = m' at hMove ⊢
    cases hMove with
    | update hAt =>
      have hFailed : m.shutdown = .failed := by simpa [announces, hAt] using hSilent
      exact (if_pos hFailed).trans hFailed.symm
    | refuse | send | receive => rfl
  | watch =>
    have hCompleted : m.shutdown = .completed := by simpa [announces] using hSilent
    exact (if_pos hCompleted).trans hCompleted.symm
  | cancel i | worker w | offer request | lock j | unlock j => rfl

/-- How many own steps a wait has to go when the manager is not open. -/
def Waiter.toGo : Waiter → Nat
  | .parked _ => 2
  | .reading => 1
  | _ => 0

/-- When the manager is not open every step of a wait takes it nearer to its end. -/
theorem waiterStep_nearer {w : Waiter} (hAt : w ≠ .idle) (hOn : w ≠ .returned)
    (hShut : s.manager.shutdown ≠ .opened) :
    waiterStep s w = .returned ∨
      waiterStep s w ≠ .idle ∧ (waiterStep s w).toGo < w.toGo := by
  cases w with
  | idle => exact absurd rfl hAt
  | reading => exact Or.inl (if_pos hShut)
  | parked seen => exact Or.inr ⟨nofun, Nat.lt_succ_self 1⟩
  | returned => exact absurd rfl hOn

/-- The receiver knows the state it found, or is to be woken. -/
abbrev Knows (s : State ρ) (seen : Nat) (found : ShutdownState) : Prop :=
  Watch.Knows s.version False s.manager.shutdown seen found

/-- Whoever is parked knows the value, or is awake. -/
structure Inv (s : State ρ) : Prop where
  call : ∀ i, s.manager.calls i = .parked →
    ∃ found, (found = .opened ∨ found = .closing) ∧ Knows s (s.seen i) found
  waiter : ∀ j seen, s.waiters j = .parked seen → Knows s seen .opened

theorem inv_initial : Inv (initial : State ρ) where
  call _ hNo := nomatch hNo
  waiter _ _ hNo := nomatch hNo

/-- **No wakeup is lost**: who waits when the state is final has a version to see. -/
theorem Inv.wakes (h : Inv s) (hAt : s.manager.calls i = .parked) (hSettled : s.manager.Settled) :
    s.version ≠ s.seen i := by
  obtain ⟨found, hFound, hKnows⟩ := h.call i hAt
  refine (hKnows.wakes (fun x => x = .completed ∨ x = .failed) ?_ ?_).resolve_right id
  · rcases hFound with rfl | rfl <;> decide
  · exact hSettled.imp_right And.left

/-- **A shutdown wakes** whoever waits for one. -/
theorem Inv.wakes_waiter (h : Inv s) {seen : Nat} (hAt : s.waiters j = .parked seen)
    (hShut : s.manager.shutdown ≠ .opened) : s.version ≠ seen :=
  ((h.waiter j seen hAt).wakes (fun x => x ≠ .opened) (fun hNo => hNo rfl)
    hShut).resolve_right id

variable [DecidableEq ρ]

theorem manager_reachable (hs : (machine ρ).Reachable s) :
    (Manager.machine ρ).Reachable s.manager := by
  refine hs.project (fun s hInit => ?_) fun s e hEn => ?_
  · rw [show s = initial from hInit]
    rfl
  · rcases manager_next hEn with ⟨d, rfl, hOwn⟩ | ⟨hSame, -⟩
    · exact Or.inr ⟨d, hOwn, rfl⟩
    · exact Or.inl hSame

/-- What is kept by the manager is kept with those who watch it. -/
theorem manager_keeps {I : Manager.State ρ → Prop}
    (hKeep : ∀ m d, Manager.Inv m → I m → Manager.enabled m d = true → I (Manager.next m d)) :
    ∀ s d, (machine ρ).Reachable s → I s.manager → (machine ρ).enabled s d →
      I ((machine ρ).next s d).manager := by
  intro s d hs hI hEn
  rcases manager_next hEn with ⟨d, rfl, hOwn⟩ | ⟨hSame, -⟩
  · exact hKeep _ _ (Manager.inv_of_reachable (manager_reachable hs)) hI hOwn
  · exact hSame ▸ hI

-- ---------------------------------------------------------------------------
-- Nobody waits for what is there
-- ---------------------------------------------------------------------------

/-- **Every change is announced** by a new version. -/
theorem announces_all :
    Watch.Announces (machine ρ) State.version (fun _ => False) fun s => s.manager.shutdown where
  grows s d hEn := by
    rcases manager_next hEn with ⟨d, rfl, -⟩ | ⟨-, hSame⟩
    · exact Nat.le_add_right _ _
    · exact Nat.le_of_eq hSame.symm
  change s d hEn := by
    rcases manager_next hEn with ⟨d, rfl, hOwn⟩ | ⟨hSame, -⟩
    · cases hTold : announces s.manager d with
      | false => exact Or.inl (shutdown_next hOwn hTold)
      | true =>
        refine Or.inr (Or.inl ?_)
        show s.version < s.version + (announces s.manager d).toNat
        rw [hTold]
        exact Nat.lt_succ_self _
    · exact Or.inl (congrArg Manager.State.shutdown hSame)
  debt _ _ _ hNo := hNo.elim

/-- A call comes to wait because it has just found nothing final. -/
theorem Inv.call_next (h : Inv s) (hEn : enabled s e = true)
    (hParked : (next s e).manager.calls i = .parked) :
    ∃ found, (found = .opened ∨ found = .closing) ∧ Knows (next s e) ((next s e).seen i) found := by
  by_cases hOwn : e = .manager (.call i)
  · subst hOwn
    have hMove := Manager.callStep_cases (enabled_manager hEn)
    -- a call parks only after it has read a value that is not settled
    have hAt : s.manager.calls i = .reading ∧ (s.manager.shutdown = .opened ∨
        s.manager.shutdown = .closing) ∧
        (Manager.callStep i s.manager).shutdown = s.manager.shutdown := by
      have hParked : (Manager.callStep i s.manager).calls i = .parked := hParked
      generalize Manager.callStep i s.manager = m' at hMove hParked ⊢
      cases hMove with
      | read hAt hFinds =>
        rw [Manager.setCall_self] at hParked
        subst hParked
        refine ⟨hAt, ?_, rfl⟩
        generalize s.manager.shutdown = found at hFinds
        cases hFinds with
        | opened => exact Or.inl rfl
        | closing => exact Or.inr rfl
      | subscribe | late | wake =>
        rw [Manager.setCall_self] at hParked
        cases hParked
      | take | close | spawn => exact absurd ((Manager.setCall_self i _).symm.trans hParked) nofun
    obtain ⟨hReading, hFound, hShutdown⟩ := hAt
    refine ⟨s.manager.shutdown, hFound, ?_⟩
    have hSeen : (next s (.manager (.call i))).seen i = s.version := by
      simp [next, hReading, marks]
    have hVersion : (next s (.manager (.call i))).version = s.version := by
      simp [next, announces, hReading]
    have hSame : (next s (.manager (.call i))).manager.shutdown = s.manager.shutdown := hShutdown
    unfold Knows
    rw [hSeen, hVersion, hSame]
    exact .look (Nat.le_refl _)
  -- it was parked before, and what it knows it still knows
  · have hOld : s.manager.calls i = .parked ∧ (next s e).seen i = s.seen i := by
      cases e with
      | waiter j | leave j => exact ⟨hParked, rfl⟩
      | manager d =>
        have hCancel : d ≠ .cancel i := by
          rintro rfl
          exact absurd ((Manager.setCall_self i _).symm.trans hParked) nofun
        have hCall : d ≠ .call i := fun hNo => hOwn (by rw [hNo])
        refine ⟨(Manager.calls_next (enabled_manager hEn) hCall hCancel).symm.trans hParked, ?_⟩
        cases d with
        | call k =>
          have hNe : i ≠ k := fun hSame => hCall (by rw [hSame])
          show (if _ then _ else _ : Nat → Nat) i = _
          split
          · exact Function.update_of_ne hNe _ _
          · rfl
        | cancel k | coordinator | watch | worker w | offer request | lock k | unlock k => rfl
    obtain ⟨found, hFound, hKnows⟩ := h.call i hOld.1
    rw [hOld.2]
    exact ⟨found, hFound, announces_all.knows hEn hKnows⟩

/-- And so does an acquisition. -/
theorem Inv.waiter_next (h : Inv s) (hEn : enabled s e = true) {seen : Nat}
    (hParked : (next s e).waiters j = .parked seen) : Knows (next s e) seen .opened := by
  have hOld : s.waiters j = .parked seen → Knows (next s e) seen .opened :=
    fun hAt => announces_all.knows hEn (h.waiter j seen hAt)
  cases e with
  | manager d => exact hOld hParked
  | leave k =>
    have hParked : Function.update s.waiters k .idle j = .parked seen := hParked
    by_cases hSame : j = k
    · rw [hSame, Function.update_self] at hParked
      cases hParked
    · exact hOld ((Function.update_of_ne hSame _ _).symm.trans hParked)
  | waiter k =>
    have hParked : Function.update s.waiters k (waiterStep s (s.waiters k)) j = .parked seen :=
      hParked
    by_cases hSame : j = k
    · rw [hSame, Function.update_self] at hParked
      cases hAt : s.waiters k with
      | reading =>
        rw [hAt] at hParked
        unfold waiterStep at hParked
        dsimp only at hParked
        split at hParked
        · cases hParked
        · cases hParked
          -- it parks with the version it read, when the value was `Open`
          refine ⟨Nat.le_refl _, fun _ => Or.inr ?_⟩
          show s.manager.shutdown = .opened
          exact not_not.mp ‹_›
      | idle | parked old | returned =>
        rw [hAt] at hParked
        cases hParked
    · exact hOld ((Function.update_of_ne hSame _ _).symm.trans hParked)

theorem inv_of_reachable (hs : (machine ρ).Reachable s) : Inv s := by
  refine hs.invariant (fun s hInit => ?_) fun s d hInv hEn =>
    ⟨fun i hAt => hInv.call_next hEn hAt, fun j seen hAt => hInv.waiter_next hEn hAt⟩
  rw [show s = initial from hInit]
  exact inv_initial

-- ---------------------------------------------------------------------------
-- Fair runs
-- ---------------------------------------------------------------------------

/-- Nobody is passed over for ever: neither at the admission lock nor at the room in
the queue, though others may come first; a command to Redis returns, and so does
whoever holds the lock for a handoff. A call that was never made is not owed. -/
structure Fair (r : (machine ρ).Run) : Prop where
  call : ∀ i, r.Strict
    (fun s => s.manager.calls i ≠ .idle ∧ enabled s (.manager (.call i)) = true)
    (.manager (.call i))
  coordinator : r.Strict (fun s => Manager.enabled s.manager .coordinator = true)
    (.manager .coordinator)
  worker : Queue.Diligent r (fun s => s.manager.queue) fun w => .manager (.worker w)
  unlock : ∀ a, r.Just (fun s => s.manager.lock = some (.handoff a)) (.manager (.unlock a))
  waiter : ∀ j, r.Just (fun s => s.waiters j ≠ .idle ∧ enabled s (.waiter j) = true) (.waiter j)

variable {r : (machine ρ).Run}

/-- The queue is the worker's, also with watchers around. -/
theorem hosts (ρ : Type) [DecidableEq ρ] :
    Queue.Hosts (machine ρ) (fun s => s.manager.queue) fun w => .manager (.worker w) where
  init s hInit := by
    rw [show s = initial from hInit]
    rfl
  next _ _ := rfl
  step s d hs hEn := by
    rcases manager_next hEn with ⟨d, rfl, hOwn⟩ | ⟨hSame, -⟩
    · have hInv := Manager.inv_of_reachable (manager_reachable hs)
      exact (Manager.queue_step hInv hOwn).imp_left fun ⟨w, noSender, hIs, hWorker⟩ =>
        ⟨w, noSender, by rw [hIs], hWorker⟩
    · refine Or.inr ?_
      rw [show ((machine ρ).next s d).manager = s.manager from hSame]
      exact .same

/-- **A call that can go on does.** -/
theorem call_goes (hFair : Fair r) {c : Call} {Q : Manager.State ρ → Prop} (hIdle : c ≠ .idle)
    (hParked : c ≠ .parked)
    (hDue : ∀ m : Manager.State ρ, m.calls i = c → Manager.enabled m (.call i) = true)
    (hAct : ∀ m m', m.calls i = c → Manager.CallStep i m m' → Q m') :
    r.Leads (fun s => s.manager.calls i = c) fun s => Q s.manager := by
  have hOwn : ∀ s, s.manager.calls i = c → enabled s (.manager (.call i)) = true →
      Q (next s (.manager (.call i))).manager :=
    fun s hAt hEn => hAct _ _ hAt (Manager.callStep_cases (enabled_manager hEn))
  refine .just (hFair.call i).just (fun s d _ hAt hEn => ?_) (fun s _ hAt hEn => hOwn s hAt hEn)
    fun s _ hAt => Or.inl ⟨?_, ?_⟩
  · by_cases hIs : d = .manager (.call i)
    · subst hIs
      exact Or.inr (hOwn s hAt hEn)
    · exact Or.inl ((calls_kept hEn hIs (by rw [hAt]; exact hParked)).trans hAt)
  · rw [hAt]
    exact hIdle
  · exact enabled_call (hDue _ hAt) fun hNo => absurd (hAt.symm.trans hNo) hParked

/-- A call that took the sender seals the manager. -/
theorem taken_goes (hFair : Fair r) (i : Nat) :
    r.Leads (fun s => s.manager.calls i = .taken) fun s => s.manager.calls i = .sealed := by
  refine call_goes hFair (Q := fun m => m.calls i = .sealed) (by simp) (by simp) (fun m hAt => ?_)
    fun m m' hAt hMove => ?_
  · simp [Manager.enabled, hAt]
  · cases hMove with
    | close => exact Manager.setCall_self i _
    | subscribe hNo | take hNo | late hNo | spawn hNo | read hNo | wake hNo =>
      exact absurd (hAt.symm.trans hNo) (by simp)

/-- Then it spawns the coordinator and leaves the lock. -/
theorem sealed_goes (hFair : Fair r) (i : Nat) :
    r.Leads (fun s => s.manager.calls i = .sealed)
      fun s => s.manager.lock = none ∧ 1 ≤ s.manager.coordinator.stage := by
  refine call_goes hFair (Q := fun m => m.lock = none ∧ 1 ≤ m.coordinator.stage) (by simp) (by simp)
    (fun m hAt => ?_) fun m m' hAt hMove => ?_
  · simp [Manager.enabled, hAt]
  · cases hMove with
    | spawn => exact ⟨rfl, Nat.le_refl _⟩
    | subscribe hNo | take hNo | late hNo | close hNo | read hNo | wake hNo =>
      exact absurd (hAt.symm.trans hNo) (by simp)

/-- Whoever leads leaves the lock, with the coordinator on its way. -/
theorem leader_goes (hFair : Fair r) (i : Nat) : r.Leads (fun s => (s.manager.calls i).leads)
    fun s => s.manager.lock = none ∧ 1 ≤ s.manager.coordinator.stage := by
  intro n hLeads
  rcases hLeads with hTaken | hSealed
  · exact (taken_goes hFair i).trans (sealed_goes hFair i) n hTaken
  · exact sealed_goes hFair i n hSealed

/-- **The admission lock becomes free** again and again. -/
theorem lock_freed (hFair : Fair r) :
    r.Leads (fun _ => True) fun s => s.manager.lock = none := by
  intro n _
  cases hLock : (r.state n).manager.lock with
  | none => exact ⟨n, Nat.le_refl n, hLock⟩
  | some holder =>
    cases holder with
    | shutdown i =>
      -- whoever holds it for a shutdown leads, and leaves it
      have hLeads := (Manager.led_of_reachable (manager_reachable (r.reachable n))).holder i hLock
      obtain ⟨m, hm, hFree, -⟩ := leader_goes hFair i n hLeads
      exact ⟨m, hm, hFree⟩
    | handoff a =>
      have hGo : r.Leads (fun s => s.manager.lock = some (.handoff a))
          fun s => s.manager.lock = none := by
        refine .just (hFair.unlock a) (fun s d hs hAt hEn => ?_) (fun s _ _ _ => rfl)
          fun s _ hAt => Or.inl hAt
        rcases manager_next hEn with ⟨d, rfl, hOwn⟩ | ⟨hSame, -⟩
        · exact Manager.handoff_next hAt hOwn
        · exact Or.inl ((congrArg Manager.State.lock hSame).trans hAt)
      exact hGo n hLock

/-- **A call gets the admission lock.** -/
theorem locking_goes (hFair : Fair r) (i : Nat) :
    r.Leads (fun s => s.manager.calls i ≠ .idle) fun s => (s.manager.calls i).begun := by
  have hKeep := manager_keeps (ρ := ρ) (I := fun m => m.calls i ≠ .idle)
    fun m d _ hAt hEn => Manager.not_idle_next hAt hEn
  have hAct : ∀ s : State ρ, s.manager.calls i ≠ .idle → enabled s (.manager (.call i)) = true →
      ((next s (.manager (.call i))).manager.calls i).begun := by
    intro s hAt hEn
    exact Manager.begun_of_call hAt (Manager.callStep_cases (enabled_manager hEn))
  refine .strict (hFair.call i) (fun s d hs hAt hEn => Or.inl (hKeep s d hs hAt hEn))
    (fun s _ hAt hEn => hAct s hAt hEn) ?_
  intro n hAt
  obtain ⟨m, hm, hFree⟩ := lock_freed hFair n trivial
  have hStill := Machine.Run.stable hKeep hAt hm
  refine ⟨m, hm, ?_⟩
  by_cases hBegun : ((r.state m).manager.calls i).begun
  · exact Or.inr hBegun
  · have hLocking : (r.state m).manager.calls i = .locking := by
      unfold Call.begun at hBegun
      tauto
    refine Or.inl ⟨hStill, enabled_call ?_ fun hNo => absurd (hLocking.symm.trans hNo) nofun⟩
    simp [Manager.enabled, hLocking, hFree]

-- ---------------------------------------------------------------------------
-- The coordinator
-- ---------------------------------------------------------------------------

/-- The coordinator only goes forward, over the whole run. -/
theorem stage_kept {k n m : Nat} (hAt : k ≤ (r.state n).manager.coordinator.stage) (hm : n ≤ m) :
    k ≤ (r.state m).manager.coordinator.stage :=
  Machine.Run.stable (manager_keeps (ρ := ρ) (I := fun m => k ≤ m.coordinator.stage)
    fun _ _ hInv hAt hEn => Nat.le_trans hAt (Manager.stage_next hInv hEn)) hAt hm

/-- **The coordinator goes on** when it comes to be able to. -/
theorem coordinator_goes (hFair : Fair r) {k : Nat}
    (hDue : r.Leads (fun s => s.manager.coordinator.stage = k) fun s =>
      Manager.enabled s.manager .coordinator = true ∨ k < s.manager.coordinator.stage) :
    r.Leads (fun s => k ≤ s.manager.coordinator.stage)
      fun s => k < s.manager.coordinator.stage := by
  have hKeep := manager_keeps (ρ := ρ) (I := fun m => k ≤ m.coordinator.stage)
    fun m d hInv hAt hEn => Nat.le_trans hAt (Manager.stage_next hInv hEn)
  refine .strict hFair.coordinator (fun s d hs hAt hEn => Or.inl (hKeep s d hs hAt hEn))
    (fun s _ hAt hEn => ?_) fun n hAt => ?_
  · exact Nat.lt_of_le_of_lt hAt (Manager.stage_coordinator (enabled_manager hEn))
  · rcases Nat.lt_or_eq_of_le hAt with hPast | hNow
    · exact ⟨n, Nat.le_refl n, Or.inr hPast⟩
    · exact hDue n hNow.symm

theorem sending_goes (hFair : Fair r) :
    r.Leads (fun s => 1 ≤ s.manager.coordinator.stage)
      fun s => 1 < s.manager.coordinator.stage := by
  have hReady : ∀ s : State ρ, s.manager.coordinator.stage = 1 →
      s.manager.queue.full = false ∨ s.manager.queue.closed = true →
      Manager.enabled s.manager .coordinator = true := by
    intro s hStage hRoom
    have hAt := Coordinator.sending_of_stage hStage
    rcases hRoom with hRoom | hClosed <;> simp [Manager.enabled, *]
  refine coordinator_goes hFair fun n hAt => ?_
  cases hFull : (r.state n).manager.queue.full with
  | false => exact ⟨n, Nat.le_refl n, Or.inl (hReady _ hAt (Or.inl hFull))⟩
  | true =>
    obtain ⟨m, hm, hRoom⟩ := (hosts ρ).gives_room hFair.worker n hFull
    refine ⟨m, hm, ?_⟩
    rcases Nat.lt_or_eq_of_le (stage_kept (Nat.le_of_eq hAt.symm) hm) with hPast | hNow
    · exact Or.inr hPast
    · exact Or.inl (hReady _ hNow.symm hRoom)

theorem awaiting_goes (hFair : Fair r) :
    r.Leads (fun s => 2 ≤ s.manager.coordinator.stage)
      fun s => 2 < s.manager.coordinator.stage := by
  refine coordinator_goes hFair fun n hAt => ?_
  have hSent := (Manager.led_of_reachable (manager_reachable (r.reachable n))).sent
    (Coordinator.awaiting_of_stage hAt)
  have hEntered := ((hosts ρ).ok (r.reachable n)).2.1.entered hSent
  obtain ⟨p, hp⟩ := List.mem_iff_getElem?.mp hEntered
  obtain ⟨m, hm, hEnd⟩ := (hosts ρ).finishes hFair.worker p .barrier n hp
  refine ⟨m, hm, ?_⟩
  rcases Nat.lt_or_eq_of_le (stage_kept (Nat.le_of_eq hAt.symm) hm) with hPast | hNow
  · exact Or.inr hPast
  · have hStill := Coordinator.awaiting_of_stage hNow.symm
    have hLed := Manager.led_of_reachable (manager_reachable (r.reachable m))
    have hAnswer := ((hosts ρ).ok (r.reachable m)).2.1.answered (hLed.sent hStill)
      (hEnd.imp_left List.mem_of_getElem?)
    refine Or.inl ?_
    simpa [Manager.enabled, hStill] using hAnswer

theorem updating_goes (hFair : Fair r) :
    r.Leads (fun s => 3 ≤ s.manager.coordinator.stage)
      fun s => 3 < s.manager.coordinator.stage := by
  refine coordinator_goes hFair fun n hAt => ⟨n, Nat.le_refl n, Or.inl ?_⟩
  obtain ⟨completed, hNow⟩ := Coordinator.updating_of_stage hAt
  simp [Manager.enabled, hNow]

/-- **Once a call has begun the state is settled**, and if every call is cancelled. -/
theorem settles (hFair : Fair r) (i : Nat) :
    r.Leads (fun s => s.manager.calls i ≠ .idle) fun s => s.manager.Settled := by
  have hLeader : r.Leads (fun s => (s.manager.calls i).begun)
      fun s => 1 ≤ s.manager.coordinator.stage := by
    intro n hBegun
    have hLed := Manager.led_of_reachable (manager_reachable (r.reachable n))
    rcases hLed.led (hLed.begun i hBegun) with ⟨k, hLeads⟩ | hBorn
    · obtain ⟨m, hm, -, hStage⟩ := leader_goes hFair k n hLeads
      exact ⟨m, hm, hStage⟩
    · exact ⟨n, Nat.le_refl n, Coordinator.stage_pos hBorn⟩
  have hDone : r.Leads (fun s => 3 < s.manager.coordinator.stage) fun s => s.manager.Settled :=
    .of_imp fun s hs hStage =>
      (Manager.led_of_reachable (manager_reachable hs)).done (Coordinator.done_of_stage hStage)
  exact (locking_goes hFair i).trans <| hLeader.trans <| (sending_goes hFair).trans <|
    (awaiting_goes hFair).trans <| (updating_goes hFair).trans hDone

-- ---------------------------------------------------------------------------
-- The calls and the waits
-- ---------------------------------------------------------------------------

theorem settled_kept : ∀ s d, (machine ρ).Reachable s → s.manager.Settled →
    (machine ρ).enabled s d → ((machine ρ).next s d).manager.Settled :=
  manager_keeps fun _ _ hInv hSettled hEn => hSettled.next hInv hEn

/-- **A call comes to its end** when the state is settled. -/
theorem call_ends (hFair : Fair r) (i : Nat) :
    r.Leads (fun s => s.manager.Settled ∧ (s.manager.calls i).begun)
      fun s => (s.manager.calls i).ended := by
  refine .ranked (fun s => (s.manager.calls i).toGo) fun k => ?_
  have hKeep : ∀ s d, (machine ρ).Reachable s →
      s.manager.Settled ∧ (s.manager.calls i).begun → enabled s d = true →
      (next s d).manager.Settled ∧ ((next s d).manager.calls i).begun :=
    fun s d hs hP hEn => ⟨settled_kept s d hs hP.1 hEn,
      manager_keeps (I := fun m => (m.calls i).begun)
        (fun _ _ _ hBegun hEn => Manager.begun_next hBegun hEn) s d hs hP.2 hEn⟩
  have hOwn : ∀ s, (machine ρ).Reachable s → (s.manager.Settled ∧ (s.manager.calls i).begun) ∧
      (s.manager.calls i).toGo = k → enabled s (.manager (.call i)) = true →
      ((next s (.manager (.call i))).manager.calls i).ended ∨
        ((next s (.manager (.call i))).manager.Settled ∧
          ((next s (.manager (.call i))).manager.calls i).begun) ∧
          ((next s (.manager (.call i))).manager.calls i).toGo < k := by
    rintro s hs ⟨hP, rfl⟩ hEn
    have hMove := Manager.callStep_cases (enabled_manager hEn)
    exact (hMove.nearer hP.1 hP.2).imp_right fun hLess => ⟨hKeep s _ hs hP hEn, hLess⟩
  -- a settled state lets every call go on: the waiting ones have an older version
  refine .just (hFair.call i).just (fun s d hs hP hEn => ?_) hOwn fun s hs hP => ?_
  · by_cases hCall : d = .manager (.call i)
    · subst hCall
      exact Or.inr (hOwn s hs hP hEn)
    · by_cases hCancel : d = .manager (.cancel i)
      · subst hCancel
        exact Or.inr (Or.inl (Or.inr (Or.inr (Manager.setCall_self i _))))
      · refine Or.inl ⟨hKeep s d hs hP.1 hEn, ?_⟩
        exact (congrArg Call.toGo (calls_same hEn hCall hCancel)).trans hP.2
  · by_cases hEnded : (s.manager.calls i).ended
    · exact Or.inr (Or.inl hEnded)
    · refine Or.inl ⟨hP.1.2.1, enabled_call ?_ fun hAt => ?_⟩
      · exact Manager.call_enabled hP.1.2 hEnded
      · exact (inv_of_reachable hs).wakes hAt hP.1.1

/-- **A wait for a shutdown comes to its end** when the manager is not open. -/
theorem wait_ends (hFair : Fair r) (j : Nat) :
    r.Leads (fun s => s.waiters j ≠ .idle ∧ s.manager.shutdown ≠ .opened)
      fun s => s.waiters j = .returned ∨ s.waiters j = .idle := by
  refine .ranked (fun s => (s.waiters j).toGo) fun k => ?_
  have hShutKept := manager_keeps (ρ := ρ) (I := fun m => m.shutdown ≠ .opened)
    fun m d hInv hShut _ => (hInv.moves d).not_opened hShut
  have hOwn : ∀ s, (machine ρ).Reachable s → (s.waiters j ≠ .idle ∧ s.manager.shutdown ≠ .opened) ∧
      (s.waiters j).toGo = k → enabled s (.waiter j) = true →
      ((next s (.waiter j)).waiters j = .returned ∨ (next s (.waiter j)).waiters j = .idle) ∨
        ((next s (.waiter j)).waiters j ≠ .idle ∧ (next s (.waiter j)).manager.shutdown ≠ .opened) ∧
          ((next s (.waiter j)).waiters j).toGo < k := by
    rintro s hs ⟨⟨hAt, hShut⟩, rfl⟩ hEn
    have hOn : s.waiters j ≠ .returned := by
      intro hNo
      simp [enabled, hNo] at hEn
    have hNow : (next s (.waiter j)).waiters j = waiterStep s (s.waiters j) :=
      Function.update_self j _ s.waiters
    rw [hNow]
    rcases waiterStep_nearer hAt hOn hShut with hReturned | ⟨hStill, hLess⟩
    · exact Or.inl (Or.inl hReturned)
    · exact Or.inr ⟨⟨hStill, hShut⟩, hLess⟩
  -- the wait is awake, returned, or dropped
  refine .just (hFair.waiter j) (fun s d hs hP hEn => ?_) hOwn fun s hs hP => ?_
  · have hShut := hShutKept s d hs hP.1.2 hEn
    by_cases hSelf : d = .waiter j
    · subst hSelf
      exact Or.inr (hOwn s hs hP hEn)
    · by_cases hLeave : d = .leave j
      · subst hLeave
        exact Or.inr (Or.inl (Or.inr (Function.update_self j _ s.waiters)))
      · have hSame : ((machine ρ).next s d).waiters j = s.waiters j :=
          waiters_same hSelf hLeave
        exact Or.inl ⟨⟨hSame ▸ hP.1.1, hShut⟩, (congrArg Waiter.toGo hSame).trans hP.2⟩
  · cases hAt : s.waiters j with
    | returned => exact Or.inr (Or.inl (Or.inl rfl))
    | idle => exact absurd hAt hP.1.1
    | reading => exact Or.inl ⟨nofun, by simp [enabled, hAt]⟩
    | parked seen =>
      refine Or.inl ⟨nofun, ?_⟩
      simpa [enabled, hAt] using (inv_of_reachable hs).wakes_waiter hAt hP.1.2

/-- **Every shutdown comes to its end**: the state is settled and every call over; and
whoever waits for a shutdown learns of it. -/
theorem shutdown_ends (hFair : Fair r) :
    (∀ i, r.Leads (fun s => s.manager.calls i ≠ .idle)
      fun s => s.manager.Settled ∧ (s.manager.calls i).ended) ∧
    ∀ j, r.Leads (fun s => s.waiters j ≠ .idle ∧ s.manager.shutdown ≠ .opened)
      fun s => s.waiters j = .returned ∨ s.waiters j = .idle := by
  refine ⟨fun i n hAt => ?_, wait_ends hFair⟩
  have hMade := manager_keeps (ρ := ρ) (I := fun m => m.calls i ≠ .idle)
    fun _ _ _ hAt hEn => Manager.not_idle_next hAt hEn
  -- first the state is settled, then the call has the lock, then it ends
  obtain ⟨m, hm, hSettled⟩ := settles hFair i n hAt
  obtain ⟨k, hk, hBegun⟩ := locking_goes hFair i m (Machine.Run.stable hMade hAt hm)
  have hStill := Machine.Run.stable settled_kept hSettled hk
  obtain ⟨l, hl, hEnded⟩ := call_ends hFair i k ⟨hStill, hBegun⟩
  exact ⟨l, Nat.le_trans hm (Nat.le_trans hk hl),
    Machine.Run.stable settled_kept hStill hl, hEnded⟩

end

/-- A release is under way and one waits in the queue when the only call is made. -/
def schedule : List (Event Nat) :=
  [.manager (.offer 7), .manager (.worker .take), .manager (.offer 8), .waiter 0, .waiter 0] ++
    List.replicate 5 (.manager (.call 0)) ++
    [.manager .coordinator, .manager (.worker .released), .manager (.worker .take),
      .manager (.worker .released), .manager (.worker .take), .manager (.worker .acknowledge),
      .manager .coordinator, .manager .coordinator] ++
    List.replicate 2 (.manager (.call 0)) ++ List.replicate 2 (.waiter 0)

/-- Where the schedule leads. -/
def settled : State Nat := ((machine Nat).exec initial schedule).getD initial

theorem schedule_settled : (machine Nat).exec initial schedule = some settled :=
  Machine.exec_getD (by decide +kernel)

/-- The schedule, and then nothing. -/
def settling : (machine Nat).Run := Machine.rest (.init rfl) schedule_settled

/-- The run after it is fair, since nobody who made a step can make another one. -/
theorem settling_fair : Fair settling where
  call i := by
    refine Machine.rest_strict ?_
    rintro ⟨hMade, hEn⟩
    -- every other call was never made
    by_cases hFirst : i = 0
    · subst hFirst
      exact absurd hEn (by decide +kernel)
    · refine hMade (Machine.exec_keeps (P := fun s => s.manager.calls i = .idle)
        (fun e he s hs hOn => ?_) schedule_settled rfl)
      refine (calls_same hOn ?_ ?_).trans hs
      · rintro rfl
        simp [schedule, hFirst] at he
      · rintro rfl
        simp [schedule] at he
  coordinator := Machine.rest_strict (by decide +kernel)
  worker w hDie := by
    refine (Machine.rest_strict ?_).just
    cases w with
    | take | released | acknowledge | finish => decide +kernel
    | die => exact absurd rfl hDie
  unlock a := by
    refine (Machine.rest_strict ?_).just
    have hFree : settled.manager.lock = none := by decide +kernel
    rw [hFree]
    nofun
  waiter j := by
    refine (Machine.rest_strict ?_).just
    rintro ⟨hWaits, hEn⟩
    by_cases hFirst : j = 0
    · subst hFirst
      exact absurd hEn (by decide +kernel)
    · refine hWaits (Machine.exec_keeps (P := fun s => s.waiters j = .idle)
        (fun e he s hs hOn => ?_) schedule_settled rfl)
      refine (waiters_same ?_ ?_).trans hs
      · rintro rfl
        simp [schedule, hFirst] at he
      · rintro rfl
        simp [schedule] at he

/-- So the theorem holds of it. -/
theorem shutdown_ends_settling :
    (∀ i, settling.Leads (fun s => s.manager.calls i ≠ .idle)
      fun s => s.manager.Settled ∧ (s.manager.calls i).ended) ∧
    ∀ j, settling.Leads (fun s => s.waiters j ≠ .idle ∧ s.manager.shutdown ≠ .opened)
      fun s => s.waiters j = .returned ∨ s.waiters j = .idle :=
  shutdown_ends settling_fair

end RLock.Async.Watched
