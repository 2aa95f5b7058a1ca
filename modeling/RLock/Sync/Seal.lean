import RLock.Sync.Manager
import RLock.Sync.Outcome
import RLock.Lib.Fleet

/-!
# RLock — the sync seal

The manager with any number of acquisitions, each of which reads the shutdown flag,
and under the lock of the sender at its admission whether the sender is there. The
seal is the step of `shutdown()` that has the sender and sets the flag. From then on
every read finds the manager closed, so it is enough to follow one acquisition through
a run in which it does (`closed`).

The system is a fleet (`Lib.Fleet`): the manager is what all share, an acquisition is
a client, and what an event of it may read is what the manager shows at that moment.
A manager that is shut stays shut (`Manager.State.Shut`), so each client's part of a
run after the seal is a run of `closed`. There a success has two steps left, both of
which lead to the release (`Task.rejecting`). That release is noted with `sent`, which
is `false` when `release_lock` found no connection in the pool: it was issued all the
same, and the lease ends with its TTL.

## Results

* `refused_of_closed` — an acquisition at its admission fails.
* `rejected_of_closed` — a success that comes now is released and not handed out.
* `sealed_of_taken` — what holds after the seal, for every acquisition.
-/

namespace RLock.Sync

open RLock.Client

-- ---------------------------------------------------------------------------
-- One acquisition in a closed manager
-- ---------------------------------------------------------------------------

/-- The acquisition while every read finds the manager closed. -/
def closed (o : AcquireOptions) (once : Bool) : Machine State (View × Event) :=
  (acquisition o once).restrict fun _ e => e.1.isOpen = false ∧ e.1.hasSender = false

/-- How far the loop is from releasing what it won in a closed manager. -/
def Task.rejecting : Task → Nat
  | .lateShutdown _ => 2
  | .lateRelease _ => 1
  | _ => 0

/-- Since `old` a release was issued, or the loop is on its way to it. -/
def Releases (old : List Action) (s : State) : Prop :=
  ∃ newer, s.log = newer ++ old ∧ ((∃ sent, .release sent ∈ newer) ∨ 0 < s.task.rejecting)

section

variable {o : AcquireOptions} {once : Bool} {v : View} {s t : State}

/-- Refused at the admission, or not there yet. -/
def Refused (s : State) : Prop :=
  s.task = .unborn ∧ (s.caller = .admission ∨ s.caller = .returned (.error .shutdown))

/-- Refused once, it stays refused, and sends nothing. -/
theorem Refused.step {e : Event} (h : Refused s) (hEn : enabled o v s e = true)
    (hSender : v.hasSender = false) : Refused (next o once v s e) := by
  obtain ⟨hTask, hCaller⟩ := h
  have hOther := caller_next o once v s (e := e)
  cases e with
  | caller ok =>
    rcases hCaller with hCaller | hCaller
    · have hNext : callerStep o v ok s = s.call (.returned (.error .shutdown)) := by
        unfold callerStep
        rw [hCaller]
        dsimp only
        rw [if_neg (by rw [hSender]; exact Bool.false_ne_true)]
      show Refused (callerStep o v ok s)
      rw [hNext]
      exact ⟨hTask, Or.inr rfl⟩
    · simp [enabled, hCaller] at hEn
  | task ok | acquireReply r | releaseReply ok => simp [enabled, hTask] at hEn
  | guard e =>
    refine ⟨(next_guard_keeps o once v s e).2.2.trans hTask, ?_⟩
    rw [(hOther (by rintro _ ⟨⟩)).1]
    exact hCaller

/-- **An acquisition at its admission fails with `Shutdown`** and makes no attempt. -/
theorem refused_of_closed (hs : (acquisition o once).Reachable s) (hCaller : s.caller = .admission)
    (hRun : (closed o once).Steps s t) :
    (t.caller = .admission ∨ t.caller = .returned (.error .shutdown)) ∧
      t.log.countP Action.isAttempt = 0 := by
  have hStart : Refused s := by
    refine ⟨(inv_of_reachable hs).born ?_, Or.inl hCaller⟩
    rw [hCaller]
    rfl
  have hKeep : (acquisition o once).Reachable t ∧ Refused t :=
    hRun.invariant (I := fun t => (acquisition o once).Reachable t ∧ Refused t) ⟨hs, hStart⟩
      fun t e ⟨hr, hRefused⟩ hEn => ⟨hr.step e hEn.1, hRefused.step hEn.1 hEn.2.2⟩
  obtain ⟨hReach, hTask, hEnd⟩ := hKeep
  exact ⟨hEnd, ((tracked o once).paced hReach).apart (by rw [hTask]; rfl)⟩

-- ---------------------------------------------------------------------------
-- A success in a closed manager
-- ---------------------------------------------------------------------------

/-- One step of a loop on its way to the release. -/
theorem rejecting_task (o : AcquireOptions) (once ok : Bool) (hGoing : 0 < s.task.rejecting)
    (hShut : v.isOpen = false) :
    (taskStep o once v ok s).log = .release ok :: s.log ∨
      (0 < (taskStep o once v ok s).task.rejecting ∧
        (taskStep o once v ok s).task.rejecting < s.task.rejecting) := by
  unfold taskStep
  cases hTask : s.task with
  | lateShutdown start =>
    refine Or.inr ?_
    show 0 < Task.rejecting (if v.isOpen then _ else _) ∧
      Task.rejecting (if v.isOpen then _ else _) < 2
    -- the flag is set, so the late acquisition is turned down
    rw [hShut, if_neg Bool.false_ne_true]
    exact ⟨Nat.zero_lt_succ 0, Nat.lt_succ_self 1⟩
  -- sent or not, the release is noted
  | lateRelease e => exact Or.inl rfl
  | _ =>
    rw [hTask] at hGoing
    cases hGoing

/-- What is not its own step leaves the loop on its way. -/
theorem rejecting_other (once : Bool) (hInv : Inv s) {e : Event} (hEn : enabled o v s e = true)
    (hOther : ∀ ok, e ≠ .task ok) (hGoing : 0 < s.task.rejecting) :
    (next o once v s e).task = s.task := by
  cases e with
  | task ok => exact absurd rfl (hOther ok)
  | caller ok =>
    rcases callerStep_task o v ok s with hSame | ⟨hCaller, -⟩ | ⟨hCaller, -⟩
    · exact hSame
    · have hBorn : s.task = .unborn := by
        refine hInv.born ?_
        rcases hCaller with hCaller | hCaller <;> rw [hCaller] <;> rfl
      rw [hBorn] at hGoing
      cases hGoing
    · -- the caller takes only the result of a loop that has finished
      cases hTask : s.task with
      | finished m =>
        rw [hTask] at hGoing
        cases hGoing
      | _ => simp [enabled, hCaller, hTask] at hEn
  | acquireReply r =>
    cases hTask : s.task with
    | acquiring start =>
      rw [hTask] at hGoing
      cases hGoing
    | _ => simp [enabled, hTask] at hEn
  | releaseReply ok =>
    cases hTask : s.task with
    | lateReleasing e | cleaning =>
      rw [hTask] at hGoing
      cases hGoing
    | _ => simp [enabled, hTask] at hEn
  | guard e => exact (next_guard_keeps o once v s e).2.2

/-- **One event** brings the release nearer, or leaves it as near. -/
theorem Releases.step {old : List Action} {e : Event} (h : Releases old s)
    (hs : (acquisition o once).Reachable s) (hEn : enabled o v s e = true)
    (hShut : v.isOpen = false) : Releases old (next o once v s e) := by
  obtain ⟨newer, hLog, hWay⟩ := h
  obtain ⟨more, hNext, -⟩ := (tracked o once).step s (v, e) hs hEn
  have hGrown : (next o once v s e).log = (more ++ newer) ++ old := by
    show ((acquisition o once).next s (v, e)).log = _
    rw [hNext, hLog, List.append_assoc]
  rcases hWay with ⟨sent, hReleased⟩ | hGoing
  · exact ⟨_, hGrown, Or.inl ⟨sent, List.mem_append_right more hReleased⟩⟩
  · by_cases hTask : ∃ ok, e = .task ok
    · obtain ⟨ok, rfl⟩ := hTask
      rcases rejecting_task o once ok hGoing hShut with hMore | hCloser
      · refine ⟨.release ok :: newer, ?_, Or.inl ⟨ok, List.mem_cons_self⟩⟩
        show (taskStep o once v ok s).log = _
        rw [hMore, hLog, List.cons_append]
      · exact ⟨_, hGrown, Or.inr hCloser.1⟩
    -- nobody but the loop moves it there
    · have hSame := rejecting_other once (inv_of_reachable hs) hEn
        (fun ok hE => hTask ⟨ok, hE⟩) hGoing
      exact ⟨_, hGrown, Or.inr (hSame ▸ hGoing)⟩

/-- **A success in a closed manager** is not handed out, and its loop releases it. -/
theorem rejected_of_closed {start : Int} (hs : (acquisition o once).Reachable s)
    (hTask : s.task = .acquiring start)
    (hRun : (closed o once).Steps (next o once v s (.acquireReply .acquired)) t) :
    t.caller ≠ .returned (.ok true) ∧
      Releases (next o once v s (.acquireReply .acquired)).log t := by
  have hReply : (acquisition o once).Reachable (next o once v s (.acquireReply .acquired)) :=
    hs.step (v, .acquireReply .acquired) (by
      show enabled o v s (.acquireReply .acquired) = true
      simp [enabled, hTask])
  have hWon : (next o once v s (.acquireReply .acquired)).task = .lateShutdown start := by
    unfold next acquireReplied
    dsimp only
    rw [hTask]
    rfl
  refine ⟨fun hReturned => ?_, ?_⟩
  · -- nobody had an acquisition while the command ran
    have hNone : ¬ (next o once v s (.acquireReply .acquired)).tells .acquisition := by
      intro hTells
      rcases tells_next (m := .acquisition) (by rintro _ ⟨⟩) hTells with hOld | hNow
      · exact ((tracked o once).paced hs).not_granted (by rw [hTask]; rfl)
          (granted_of_tells hs hOld)
      · rw [hTask] at hNow
        cases hNow
    refine (tracked o once).barred_steps (T := State.tells .acquisition) (fun s e hTells => ?_)
      (fun _ e hEn => hEn.1) hReply (by rw [hWon]; rfl) hNone hRun
      (Or.inr (Or.inr (by rw [hReturned]; rfl)))
    exact (tells_next (m := .acquisition) (by rintro _ ⟨⟩) hTells).imp_right
      won_of_answers
  · have hStart : Releases (next o once v s (.acquireReply .acquired)).log
        (next o once v s (.acquireReply .acquired)) :=
      ⟨[], rfl, Or.inr (by rw [hWon]; exact Nat.zero_lt_succ 1)⟩
    have hKeep : (acquisition o once).Reachable t ∧
        Releases (next o once v s (.acquireReply .acquired)).log t := by
      refine hRun.invariant (I := fun t => (acquisition o once).Reachable t ∧
        Releases (next o once v s (.acquireReply .acquired)).log t) ⟨hReply, hStart⟩ ?_
      rintro t e ⟨hr, hReleases⟩ hEn
      exact ⟨hr.step e hEn.1, hReleases.step hr hEn.1 hEn.2.1⟩
    exact hKeep.2

end

-- ---------------------------------------------------------------------------
-- The manager with its acquisitions
-- ---------------------------------------------------------------------------

/-- What an acquisition reads of the manager; the admission needs the lock of the
sender. -/
def managerLink (ρ : Type) :
    Link (Manager.State ρ) (Manager.Event ρ) Nat State (View × Event) where
  own _ := True
  reads _ m a d := d.1.isOpen = !m.isShutdown ∧ d.1.hasSender = m.hasSender ∧
    (a.caller = .admission → (∃ ok, d.2 = .caller ok) → m.lock = none)
  moves _ _ _ := none

/-- A manager and its acquisitions, of which any number has begun. -/
def system (ρ : Type) [DecidableEq ρ] (o : Nat → AcquireOptions) (once : Nat → Bool) :
    Machine (Manager.State ρ × (Nat → State)) (Manager.Event ρ ⊕ Nat × View × Event) :=
  Machine.fleet (Manager.machine ρ) (fun j => acquisition (o j) (once j)) (managerLink ρ)

section

variable {ρ : Type}

/-- Neither the flag nor the sender lets anything in. -/
def Manager.State.Shut (m : Manager.State ρ) : Prop := m.isShutdown = true ∧ m.hasSender = false

/-- **A manager that is shut** stays so, with no sender. -/
theorem Manager.State.Shut.step {m : Manager.State ρ} {e : Manager.Event ρ} (h : m.Shut) :
    (Manager.next m e).Shut := by
  obtain ⟨hFlag, hSender⟩ := h
  cases e with
  | call i =>
    show (Manager.callStep i m).Shut
    unfold Manager.callStep
    repeat' split
    all_goals first
      | exact ⟨hFlag, hSender⟩
      | exact ⟨rfl, hSender⟩
      | exact ⟨hFlag, rfl⟩
  | worker e | offer request => exact ⟨hFlag, hSender⟩

variable [DecidableEq ρ] {o : Nat → AcquireOptions} {once : Nat → Bool}
  {s t : Manager.State ρ × (Nat → State)}

/-- What holds of the acquisition `j` from the seal `s` on. -/
structure Sealed (o : Nat → AcquireOptions) (once : Nat → Bool)
    (s : Manager.State ρ × (Nat → State)) (j : Nat) : Prop where
  /-- Whoever reaches the admission fails with `Shutdown` and makes no attempt. -/
  refused : ∀ u, (system ρ o once).Steps s u → (u.2 j).caller = .admission →
    ∀ t, (system ρ o once).Steps u t →
    ((t.2 j).caller = .admission ∨ (t.2 j).caller = .returned (.error .shutdown)) ∧
      (t.2 j).log.countP Action.isAttempt = 0
  /-- At most the attempt is made whose check of the manager had passed. -/
  attempts : ∀ t, (system ρ o once).Steps s t → (t.2 j).log.countP Action.isAttempt ≤
    (s.2 j).log.countP Action.isAttempt + (s.2 j).task.progress.armed .manager
  /-- A success that is received is released and not handed out. -/
  released : ∀ u v start, (system ρ o once).Steps s u → (u.2 j).task = .acquiring start →
    (system ρ o once).enabled u (.inr (j, v, .acquireReply .acquired)) →
    ∀ t, (system ρ o once).Steps
      ((system ρ o once).next u (.inr (j, v, .acquireReply .acquired))) t →
    (t.2 j).caller ≠ .returned (.ok true) ∧
      Releases (((system ρ o once).next u (.inr (j, v, .acquireReply .acquired))).2 j).log (t.2 j)

/-- A run after the seal is a run in a closed manager. -/
theorem closed_of_steps (hShut : s.1.Shut) (hRun : (system ρ o once).Steps s t) (j : Nat) :
    (closed (o j) (once j)).Steps (s.2 j) (t.2 j) := by
  refine Machine.Steps.weaken (fun _ d hReads => ?_)
    (Machine.Steps.client (C := Manager.State.Shut) (fun _ _ hC _ => hC.step) hRun hShut j)
  obtain ⟨m, ⟨hFlag, hSender⟩, hOpen, hHas, -⟩ := hReads
  refine ⟨hOpen.trans ?_, hHas.trans hSender⟩
  rw [hFlag]
  rfl

/-- So it does in every run of the system. -/
theorem shut_of_steps (hShut : s.1.Shut) (hRun : (system ρ o once).Steps s t) : t.1.Shut := by
  refine hRun.invariant (I := fun s => s.1.Shut) hShut fun s e hOld hEn => ?_
  rcases Machine.fleet_shared hEn with hSame | ⟨e', -, hNext⟩
  · exact hSame ▸ hOld
  · exact hNext ▸ hOld.step

/-- **The seal**: a call that has the sender sets the flag. -/
theorem sealed_of_taken (hs : (system ρ o once).Reachable s) {i : Nat}
    (hTaken : s.1.calls i = .taken true) (j : Nat) :
    Sealed o once ((system ρ o once).next s (.inl (.call i))) j := by
  have hEn : (system ρ o once).enabled s (.inl (.call i)) := by
    refine ⟨trivial, ?_⟩
    show Manager.enabled s.1 (.call i) = true
    simp [Manager.enabled, hTaken]
  have hr := hs.step _ hEn
  have hShut : ((system ρ o once).next s (.inl (.call i))).1.Shut := by
    have hInv := Manager.inv_of_reachable hs.shared
    -- the call that has the sender took it from the manager
    have hSender : s.1.hasSender = false := by
      rw [← Bool.not_eq_true]
      intro hHas
      have hLeads := (hInv.fresh hHas).2.2 i
      rw [hTaken] at hLeads
      cases hLeads
    show (Manager.callStep i s.1).Shut
    unfold Manager.callStep
    rw [hTaken]
    exact ⟨rfl, hSender⟩
  refine ⟨fun u hu hCaller t ht => ?_, fun t ht => ?_, fun u v start hu hTask hEn t ht => ?_⟩
  · exact refused_of_closed ((hr.steps hu).client j) hCaller
      (closed_of_steps (shut_of_steps hShut hu) ht j)
  · have hArmed := (tracked (o j) (once j)).armed_steps (c := .manager)
      (fun hNo => (nomatch hNo)) (fun _ e hE => hE.1) (hr.client j) (closed_of_steps hShut ht j)
    exact (Nat.le_add_right _ _).trans hArmed
  · have hNext : ((system ρ o once).next u (.inr (j, v, .acquireReply .acquired))).2 j =
        next (o j) (once j) v (u.2 j) (.acquireReply .acquired) :=
      Function.update_self j _ u.2
    have hShutU := shut_of_steps hShut (hu.step _ hEn)
    have hRun := closed_of_steps hShutU ht j
    rw [hNext] at hRun ⊢
    exact rejected_of_closed ((hr.steps hu).client j) hTask hRun

end

end RLock.Sync
