import RLock.Async.Manager
import RLock.Async.Outcome
import RLock.Lib.Fleet

/-!
# RLock — the async seal

The manager with any number of acquisitions, each of which reads the watch value
and the sender and takes the admission lock for its admission and for its
handoff. The seal is the step of `shutdown()` that has the sender and moves the
state out of `Open`. From then on every read finds the manager closed, so it is
enough to follow one acquisition through a run in which it does (`closed`).

The system is a fleet (`Lib.Fleet`): the manager is what all share, an acquisition
is a client, and what an event of it may read is what the manager shows at that
moment. A manager that is shut stays shut (`Manager.State.Shut`), so each client's
part of a run after the seal is a run of `closed`. There a success has only a few
steps left, all of which lead to a release (`Task.rejecting`).

## Results

* `refused_of_closed` — an acquisition at its admission fails.
* `rejected_of_closed` — a success that comes now is released and not handed out.
* `sealed_of_taken` — what holds after the seal, for every acquisition.
-/

namespace RLock.Async

open RLock.Client

-- ---------------------------------------------------------------------------
-- One acquisition in a closed manager
-- ---------------------------------------------------------------------------

/-- The acquisition while every read finds the manager closed. -/
def closed (o : AcquireOptions) (once : Bool) : Machine State (View × Event) :=
  (acquisition o once).restrict fun _ e => e.1.isOpen = false ∧ e.1.hasSender = false

/-- How far the supervisor is from releasing what it won in a closed manager. -/
def Task.rejecting : Task → Nat
  | .locking _ => 5
  | .handOpen _ => 4
  | .unlock (.rejected _) => 3
  | .reject _ => 2
  | .cleaning => 1
  | _ => 0

/-- Since `old` a release was issued, or the supervisor is on its way to it. -/
def Releases (old : List Action) (s : State) : Prop :=
  ∃ newer, s.log = newer ++ old ∧ (.release true ∈ newer ∨ 0 < s.task.rejecting)

section

variable {o : AcquireOptions} {once : Bool} {v : View} {s t : State}

/-- Refused at the admission, or not there yet. -/
def Refused (s : State) : Prop :=
  s.task = .unborn ∧ (s.caller = .admission ∨ s.caller = .returned (.error .shutdown))

/-- Refused once, it stays refused, and sends nothing. -/
theorem Refused.step {e : Event} (h : Refused s) (hEn : enabled v s e = true)
    (hShut : v.isOpen = false) : Refused (next o once v s e) := by
  obtain ⟨hTask, hCaller⟩ := h
  have hOther := caller_next o once v s (e := e)
  cases e with
  | caller ready =>
    rcases hCaller with hCaller | hCaller
    · have hNext : callerStep o v ready s = s.call (.returned (.error .shutdown)) := by
        unfold callerStep
        rw [hCaller]
        dsimp only
        rw [hShut, Bool.false_and, if_neg Bool.false_ne_true]
      show Refused (callerStep o v ready s)
      rw [hNext]
      exact ⟨hTask, Or.inr rfl⟩
    · simp [enabled, hCaller] at hEn
  | cancel => rcases hCaller with hCaller | hCaller <;> simp [enabled, hCaller] at hEn
  | task ready | acquireReply r | releaseReply ok => simp [enabled, hTask] at hEn
  | guard e =>
    have hSame : (next o once v s (.guard e)).task = s.task := (next_guard_keeps o once v s e).2.2
    exact ⟨hSame.trans hTask, by rw [(hOther rfl).1]; exact hCaller⟩

/-- **An acquisition at its admission fails with `Shutdown`** and makes no attempt. -/
theorem refused_of_closed (hs : (acquisition o once).Reachable s) (hCaller : s.caller = .admission)
    (hRun : (closed o once).Steps s t) :
    (t.caller = .admission ∨ t.caller = .returned (.error .shutdown)) ∧
      t.log.countP Action.isAttempt = 0 := by
  have hStart : Refused s := by
    refine ⟨(inv_of_reachable hs).born ?_, Or.inl hCaller⟩
    rw [hCaller]
    rfl
  have hKeep : (acquisition o once).Reachable t ∧ Refused t :=
    hRun.invariant (I := fun t => (acquisition o once).Reachable t ∧ Refused t) ⟨hs, hStart⟩
      fun t e ⟨hr, hRefused⟩ hEn => ⟨hr.step e hEn.1, hRefused.step hEn.1 hEn.2.1⟩
  obtain ⟨hReach, hTask, hEnd⟩ := hKeep
  exact ⟨hEnd, ((tracked o once).paced hReach).apart (by rw [hTask]; rfl)⟩

-- ---------------------------------------------------------------------------
-- A success in a closed manager
-- ---------------------------------------------------------------------------

/-- One step of a supervisor on its way to the release. -/
theorem rejecting_task (o : AcquireOptions) (once ready : Bool) (hInv : Inv s)
    (hGoing : 0 < s.task.rejecting) (hShut : v.isOpen = false) :
    (∃ newer, (taskStep o once v ready s).log = .release true :: newer ++ s.log) ∨
      (0 < (taskStep o once v ready s).task.rejecting ∧
        (taskStep o once v ready s).task.rejecting < s.task.rejecting) := by
  have hTx := hInv.tx
  unfold taskStep
  cases hTask : s.task with
  | locking start => exact Or.inr ⟨Nat.zero_lt_succ 3, Nat.lt_succ_self 4⟩
  | handOpen start =>
    refine Or.inr ?_
    show 0 < Task.rejecting (if v.hasSender && v.isOpen then _ else _) ∧
      Task.rejecting (if v.hasSender && v.isOpen then _ else _) < 4
    -- the manager is closed, so the handoff is rejected
    rw [hShut, Bool.and_false, if_neg Bool.false_ne_true]
    exact ⟨Nat.zero_lt_succ 2, Nat.lt_succ_self 3⟩
  | unlock h =>
    cases h with
    | rejected e => exact Or.inr ⟨Nat.zero_lt_succ 1, Nat.lt_succ_self 2⟩
    | sent | abandoned =>
      rw [hTask] at hGoing
      cases hGoing
  | reject e =>
    -- the sender of the result is still there
    have hSender : s.hasTx = true := by rw [hTx, hTask]; rfl
    refine Or.inr ?_
    show 0 < (s.say (.failed e) .cleaning).task.rejecting ∧
      (s.say (.failed e) .cleaning).task.rejecting < 2
    unfold State.say
    rw [if_pos hSender]
    exact ⟨Nat.zero_lt_succ 0, Nat.lt_succ_self 1⟩
  | cleaning => exact Or.inl ⟨[], rfl⟩
  | _ =>
    rw [hTask] at hGoing
    cases hGoing

/-- What is not its own step leaves the supervisor on its way. -/
theorem rejecting_other (o : AcquireOptions) (once : Bool) (hInv : Inv s) {e : Event}
    (hEn : enabled v s e = true) (hOther : ∀ ready, e ≠ .task ready)
    (hGoing : 0 < s.task.rejecting) :
    (next o once v s e).task = s.task := by
  cases e with
  | task ready => exact absurd rfl (hOther ready)
  | caller ready =>
    rcases callerStep_task o v ready s with hSame | ⟨hCaller, -⟩
    · exact hSame
    · have hBorn : s.task = .unborn := hInv.born (by rw [hCaller]; rfl)
      rw [hBorn] at hGoing
      cases hGoing
  | cancel => exact (leave_task o v.now .cancelled s).1
  | acquireReply r =>
    cases hTask : s.task with
    | acquiring start =>
      rw [hTask] at hGoing
      cases hGoing
    | _ => simp [enabled, hTask] at hEn
  | releaseReply ok =>
    have hAt : s.task = .cleaned ∨ s.task = .guardReleasing := by simpa [enabled] using hEn
    rcases hAt with hAt | hAt <;> rw [hAt] at hGoing <;> cases hGoing
  | guard e =>
    unfold next State.guardStep
    dsimp only
    repeat' split
    all_goals rfl

/-- **One event** brings the release nearer, or leaves it as near. -/
theorem Releases.step {old : List Action} {e : Event} (h : Releases old s)
    (hs : (acquisition o once).Reachable s) (hEn : enabled v s e = true)
    (hShut : v.isOpen = false) : Releases old (next o once v s e) := by
  obtain ⟨newer, hLog, hWay⟩ := h
  obtain ⟨added, hNext, -⟩ := next_log o once v s e
  have hGrown : (next o once v s e).log = (added ++ newer) ++ old := by
    rw [hNext, hLog, List.append_assoc]
  rcases hWay with hReleased | hGoing
  · exact ⟨_, hGrown, Or.inl (List.mem_append_right added hReleased)⟩
  · have hInv := inv_of_reachable hs
    -- only a step of the supervisor leads on
    by_cases hTask : ∃ ready, e = .task ready
    · obtain ⟨ready, rfl⟩ := hTask
      rcases rejecting_task o once ready hInv hGoing hShut with
        ⟨more, hMore⟩ | hCloser
      -- here is the release
      · refine ⟨.release true :: more ++ newer, ?_, Or.inl List.mem_cons_self⟩
        show (taskStep o once v ready s).log = _
        rw [hMore, hLog]
        simp
      · refine ⟨_, hGrown, ?_⟩
        exact Or.inr hCloser.1
    · have hSame := rejecting_other o once hInv hEn
        (fun ready hE => hTask ⟨ready, hE⟩) hGoing
      exact ⟨_, hGrown, Or.inr (hSame ▸ hGoing)⟩

/-- **A success in a closed manager** is not handed out, and its supervisor
releases it. -/
theorem rejected_of_closed {start : Int} (hs : (acquisition o once).Reachable s)
    (hTask : s.task = .acquiring start)
    (hRun : (closed o once).Steps (next o once v s (.acquireReply .acquired)) t) :
    t.caller ≠ .returned (.ok true) ∧
      Releases (next o once v s (.acquireReply .acquired)).log t := by
  have hReply : (acquisition o once).Reachable (next o once v s (.acquireReply .acquired)) :=
    hs.step (v, .acquireReply .acquired) (by
      show enabled v s (.acquireReply .acquired) = true
      simp [enabled, hTask])
  have hWon : (next o once v s (.acquireReply .acquired)).task = .locking start := by
    unfold next acquireReplied
    dsimp only
    rw [hTask]
    rfl
  refine ⟨fun hReturned => ?_, ?_⟩
  · -- nobody had an acquisition while the command ran
    have hNone : ¬ (next o once v s (.acquireReply .acquired)).tells .acquisition := by
      intro hTells
      rcases tells_next (m := .acquisition) (by rintro _ ⟨⟩) hTells with hOld | hNow
      · exact ((tracked o once).paced hs).not_granted (by rw [hTask]; rfl)
          (granted_of_tells hs hOld)
      · rw [hTask] at hNow
        cases hNow
    refine (tracked o once).barred_steps (T := State.tells .acquisition) (fun s e hTells => ?_)
      (fun _ e hEn => hEn.1) hReply (by rw [hWon]; rfl) hNone hRun
      (Or.inr (by rw [hReturned]; rfl))
    exact (tells_next (m := .acquisition) (by rintro _ ⟨⟩) hTells).imp_right
      won_of_answers
  -- the reply leaves four steps to the release
  · have hStart : Releases (next o once v s (.acquireReply .acquired)).log
        (next o once v s (.acquireReply .acquired)) :=
      ⟨[], rfl, Or.inr (by rw [hWon]; exact Nat.zero_lt_succ 4)⟩
    have hKeep : (acquisition o once).Reachable t ∧
        Releases (next o once v s (.acquireReply .acquired)).log t := by
      refine hRun.invariant (I := fun t => (acquisition o once).Reachable t ∧
        Releases (next o once v s (.acquireReply .acquired)).log t) ⟨hReply, hStart⟩ ?_
      rintro t e ⟨hr, hReleases⟩ hEn
      exact ⟨hr.step e hEn.1, hReleases.step hr hEn.1 hEn.2.1⟩
    exact hKeep.2

end

-- ---------------------------------------------------------------------------
-- The manager with its acquisitions
-- ---------------------------------------------------------------------------

/-- What an acquisition reads of the manager, and when it takes the admission
lock. -/
def managerLink (ρ : Type) :
    Link (Manager.State ρ) (Manager.Event ρ) Nat State (View × Event) where
  own e := (∀ j, e ≠ .lock j) ∧ ∀ j, e ≠ .unlock j
  reads _ m a d := d.1.isOpen = m.isOpen ∧ d.1.hasSender = m.hasSender ∧
    (a.caller = .admission → (∃ ready, d.2 = .caller ready) → m.lock = none)
  moves j a d := match d.2, a.task with
    | .task _, .locking _ => some (.lock j)
    | .task _, .unlock _ => some (.unlock j)
    | _, _ => none

/-- A manager and its acquisitions, of which any number has begun. -/
def system (ρ : Type) [DecidableEq ρ] (o : Nat → AcquireOptions) (once : Nat → Bool) :
    Machine (Manager.State ρ × (Nat → State)) (Manager.Event ρ ⊕ Nat × View × Event) :=
  Machine.fleet (Manager.machine ρ) (fun j => acquisition (o j) (once j)) (managerLink ρ)

section

variable {ρ : Type}

/-- Neither the state nor the sender lets anything in. -/
def Manager.State.Shut (m : Manager.State ρ) : Prop := m.shutdown ≠ .opened ∧ m.hasSender = false

/-- **A manager that is shut** stays so, with no sender. -/
theorem Manager.State.Shut.step {m : Manager.State ρ} {e : Manager.Event ρ} (h : m.Shut) :
    (Manager.next m e).Shut := by
  obtain ⟨hShutdown, hSender⟩ := h
  cases e with
  | call i =>
    show (Manager.callStep i m).Shut
    unfold Manager.callStep
    split
    · exact ⟨hShutdown, hSender⟩
    -- a call that comes late finds no sender
    · rw [if_neg (by rw [hSender]; exact Bool.false_ne_true)]
      exact ⟨hShutdown, hSender⟩
    · refine ⟨?_, hSender⟩
      rw [if_neg hShutdown]
      exact hShutdown
    · exact ⟨hShutdown, hSender⟩
    · split <;> exact ⟨hShutdown, hSender⟩
    all_goals exact ⟨hShutdown, hSender⟩
  | coordinator =>
    show (Manager.coordinatorStep m).Shut
    unfold Manager.coordinatorStep
    split
    · split <;> exact ⟨hShutdown, hSender⟩
    · exact ⟨hShutdown, hSender⟩
    · refine ⟨?_, hSender⟩
      dsimp only
      repeat' split
      all_goals exact fun hNo => (nomatch hNo)
    all_goals exact ⟨hShutdown, hSender⟩
  | watch =>
    refine ⟨?_, hSender⟩
    show (if m.shutdown = .completed then ShutdownState.completed else .failed) ≠ .opened
    split <;> exact fun hNo => (nomatch hNo)
  | cancel i | worker e | offer request | lock j | unlock j => exact ⟨hShutdown, hSender⟩

variable [DecidableEq ρ] {o : Nat → AcquireOptions} {once : Nat → Bool}
  {s t : Manager.State ρ × (Nat → State)}

/-- What holds of the acquisition `j` from the seal `s` on. -/
structure Sealed (o : Nat → AcquireOptions) (once : Nat → Bool)
    (s : Manager.State ρ × (Nat → State)) (j : Nat) : Prop where
  /-- Whoever reaches the admission fails with `Shutdown` and makes no attempt. -/
  refused : ∀ u, (system ρ o once).Steps s u → (u.2 j).caller = .admission →
    ∀ t, (system ρ o once).Steps u t →
    ((t.2 j).caller = .admission ∨ (t.2 j).caller = .returned (.error .shutdown)) ∧
      (t.2 j).log.countP Action.isAttempt = 0
  /-- At most the attempt is made whose check of the manager had passed. -/
  attempts : ∀ t, (system ρ o once).Steps s t → (t.2 j).log.countP Action.isAttempt ≤
    (s.2 j).log.countP Action.isAttempt + (s.2 j).task.progress.armed .manager
  /-- A success that is received is released and not handed out. -/
  released : ∀ u v start, (system ρ o once).Steps s u → (u.2 j).task = .acquiring start →
    (system ρ o once).enabled u (.inr (j, v, .acquireReply .acquired)) →
    ∀ t, (system ρ o once).Steps
        ((system ρ o once).next u (.inr (j, v, .acquireReply .acquired))) t →
    (t.2 j).caller ≠ .returned (.ok true) ∧
      Releases (((system ρ o once).next u (.inr (j, v, .acquireReply .acquired))).2 j).log (t.2 j)

/-- A run after the seal is a run in a closed manager. -/
theorem closed_of_steps (hShut : s.1.Shut) (hRun : (system ρ o once).Steps s t) (j : Nat) :
    (closed (o j) (once j)).Steps (s.2 j) (t.2 j) := by
  refine Machine.Steps.weaken (fun _ d hReads => ?_)
    (Machine.Steps.client (C := Manager.State.Shut) (fun _ _ hC _ => hC.step) hRun hShut j)
  obtain ⟨m, ⟨hShutdown, hSender⟩, hOpen, hHas, -⟩ := hReads
  refine ⟨hOpen.trans ?_, hHas.trans hSender⟩
  exact decide_eq_false hShutdown

/-- So it does in every run of the system. -/
theorem shut_of_steps (hShut : s.1.Shut) (hRun : (system ρ o once).Steps s t) : t.1.Shut := by
  refine hRun.invariant (I := fun s => s.1.Shut) hShut fun s e hOld hEn => ?_
  rcases Machine.fleet_shared hEn with hSame | ⟨e', -, hNext⟩
  · exact hSame ▸ hOld
  · exact hNext ▸ hOld.step

/-- **The seal**: a call that has the sender moves the state out of `Open`. -/
theorem sealed_of_taken (hs : (system ρ o once).Reachable s) {i : Nat}
    (hTaken : s.1.calls i = .taken) (j : Nat) :
    Sealed o once ((system ρ o once).next s (.inl (.call i))) j := by
  have hEn : (system ρ o once).enabled s (.inl (.call i)) := by
    refine ⟨⟨fun _ hNo => (nomatch hNo), fun _ hNo => (nomatch hNo)⟩, ?_⟩
    show Manager.enabled s.1 (.call i) = true
    simp [Manager.enabled, hTaken]
  have hr := hs.step _ hEn
  have hShut : ((system ρ o once).next s (.inl (.call i))).1.Shut := by
    have hInv := Manager.inv_of_reachable hs.shared
    -- the call that leads took it
    have hSender : s.1.hasSender = false := by
      rw [← Bool.not_eq_true]
      exact fun hHas => (hInv.fresh hHas).2 i (Or.inl hTaken)
    show (Manager.callStep i s.1).Shut
    unfold Manager.callStep
    rw [hTaken]
    refine ⟨?_, hSender⟩
    dsimp only
    split
    · exact fun hNo => (nomatch hNo)
    · assumption
  refine ⟨fun u hu hCaller t ht => ?_, fun t ht => ?_, fun u v start hu hTask hEn t ht => ?_⟩
  · exact refused_of_closed ((hr.steps hu).client j) hCaller
      (closed_of_steps (shut_of_steps hShut hu) ht j)
  -- at most the attempt that has passed the check of the manager
  · have hArmed := (tracked (o j) (once j)).armed_steps (c := .manager)
      (fun hNo => (nomatch hNo)) (fun _ e hE => hE.1) (hr.client j) (closed_of_steps hShut ht j)
    exact (Nat.le_add_right _ _).trans hArmed
  · have hNext : ((system ρ o once).next u (.inr (j, v, .acquireReply .acquired))).2 j =
        next (o j) (once j) v (u.2 j) (.acquireReply .acquired) :=
      Function.update_self j _ u.2
    have hShutU := shut_of_steps hShut (hu.step _ hEn)
    have hRun := closed_of_steps hShutU ht j
    rw [hNext] at hRun ⊢
    exact rejected_of_closed ((hr.steps hu).client j) hTask hRun

end

end RLock.Async
