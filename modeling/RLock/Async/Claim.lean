import RLock.Client.Claim
import RLock.Async.Outcome

/-!
# RLock — the claim of an async guard

Every step of an async acquisition handles the guard and the history of the
request in one of the ways of `Client.Claim`, except for the step that makes the
guard after a success. So the guard that was handed out has an active lease only
as long as the history bears it out.

`Handles` says that of a step, and `handled_next` proves it event by event. The
step that makes the guard is treated apart: the supervisor got there with a
reply of `acquire_lock`, so the history has the success that the new lease is
about (`Backed.made`). For this the supervisor is followed from the reply to the
handoff by `Task.won`, and to the release of a guard that nobody took by
`Task.yields`; `Advances` says how a step may change the two.

The last section is about stamps. They are all in the past (`Dated`), which the
machine of the whole system needs to compare them with the clock of the server.

## Results

* `handled_next` — what each event does to the guard.
* `Backed.step` — what the guard of a reachable state can prove.
* `earned_of_returned` — the claim of a guard in the caller's hands.
* `Dated.step` — commands carry stamps of the past.
-/

namespace RLock.Async

open RLock.Client

/-- The supervisor has won the lock with an attempt stamped `start` and not made
the guard yet. -/
def Task.won : Task → Option Int
  | .locking start => some start
  | .handOpen start => some start
  | .handDeadline start => some start
  | .handLease start => some start
  | .handSend start => some start
  | _ => none

/-- The supervisor releases the guard itself. -/
def Task.yields : Task → Bool
  | .guardStarting => true
  | .guardReleasing => true
  | _ => false

section

variable {s : State} {o : AcquireOptions} {once : Bool} {v : View}

/-- `t` is `s` after a step that handles its guard; `T` are the stamps of the
attempts it may make. -/
def Handles (T : Int → Prop) (o : AcquireOptions) (now : Int) (s t : State) : Prop :=
  Handled T .async o now s.guard s.log t.guard t.log

section

variable {T : Int → Prop}

theorem handles_refl (o : AcquireOptions) (now : Int) (s : State) : Handles T o now s s :=
  .kept _ (.refl _ _)

/-- A step that notes something foreign to the guard. -/
theorem handles_note {a : Action} (ha : Foreign T a) (o : AcquireOptions) (now : Int)
    (s : State) : Handles T o now s (s.note a) := .kept _ ((Extends.refl _ _).cons ha)

theorem handles_goto {a : Action} (ha : Foreign T a) (t : Task) (o : AcquireOptions) (now : Int)
    (s : State) : Handles T o now s ((s.note a).goto t) := .kept _ ((Extends.refl _ _).cons ha)

theorem foreign_saw (side : Bool) (c : Check) (p : Bool) : Foreign T (.saw side c p) :=
  foreign_of_plain rfl rfl

theorem handles_read (o : AcquireOptions) (now : Int) (s : State) :
    Handles T o now s (s.readLease now) := .read _ _

/-- Dropping the acquisition drops the guard, if there is one. -/
theorem handles_drop (o : AcquireOptions) (now : Int) (s : State) :
    Handles T o now s (s.guardStep o now .drop) := by
  unfold Handles State.guardStep
  cases hGuard : s.guard with
  | none =>
    dsimp only
    rw [hGuard]
    exact .kept _ (.refl _ _)
  | some g => exact .dropped g s.log

/-- The caller drops what it holds when it leaves. -/
theorem handles_leave (o : AcquireOptions) (now : Int) (c : Caller) (s : State) :
    Handles T o now s (s.leave o now c) := by
  unfold State.leave State.dropAcquisition
  dsimp only
  split
  · exact handles_drop o now s
  · exact handles_refl o now s

/-- A message to the caller is foreign to the guard. -/
theorem handles_say (o : AcquireOptions) (now : Int) (m : Message) (t : Task) (s : State) :
    Handles T o now s (s.say m t) := by
  unfold State.say
  split
  · exact .kept _ ((Extends.refl _ _).cons (foreign_of_plain rfl rfl))
  · exact .kept _ (.refl _ _)

/-- **A step of the caller** reads the lease or drops the guard, at most. -/
theorem handles_callerStep (o : AcquireOptions) (v : View) (ready : Bool) (s : State) :
    Handles T o v.now s (callerStep o v ready s) := by
  have hStay := handles_refl (T := T) o v.now s
  have hSaw := fun c p => handles_note (T := T) (foreign_saw true c p) o v.now s
  have hLeave := fun c p r => (hSaw c p).trans (handles_leave o v.now r _)
  unfold callerStep
  cases s.caller with
  | begin | accept | parked | returned r | cancelled => exact hStay
  | checkTimeout => exact hSaw _ _
  | admission =>
    dsimp only
    split <;> exact hStay
  | pollShutdown | pollDeadline =>
    dsimp only
    split
    · exact hLeave _ _ _
    · exact hStay
  | pollResult =>
    dsimp only
    repeat' split
    all_goals first
      | exact hStay
      | exact handles_leave _ _ _ _
  | checkDeadline got =>
    dsimp only
    split
    · exact hLeave _ _ _
    · exact hSaw _ _
  | checkOpen got =>
    dsimp only
    split
    · exact hSaw _ _
    · exact hLeave _ _ _
  | checkLease =>
    have hRead := fun p => (hSaw .lease p).trans (handles_read o v.now _)
    dsimp only
    split
    · exact hRead _
    · exact (hRead _).trans (handles_leave o v.now _ _)

end

/-- The supervisor handles the guard, except when it makes it. -/
theorem handles_taskStep (o : AcquireOptions) (once : Bool) (v : View) (ready : Bool) (s : State)
    (hMake : ∀ start, s.task ≠ .handSend start)
    (hYields : s.task.yields = true → ∀ g, s.guard = some g → g.lease.state ≠ .active) :
    Handles (fun start => s.task = .sending start) o v.now s (taskStep o once v ready s) := by
  generalize hT : (fun start => s.task = .sending start) = T
  have hStay := handles_refl (T := T) o v.now s
  have hSaw := fun c p t => handles_goto (T := T) (foreign_saw false c p) t o v.now s
  have hSay := fun m t => handles_say (T := T) o v.now m t s
  have hSawSay := fun c p m t =>
    (handles_note (T := T) (foreign_saw false c p) o v.now s).trans (handles_say o v.now m t _)
  unfold taskStep
  cases hTask : s.task with
  | handSend start => exact absurd hTask (hMake start)
  | unborn | stamp | acquiring start | locking start | cleaned | guardReleasing | done | panicked
  | retryParked start => exact hStay
  | sending start =>
    refine handles_note (a := .attempt start) ⟨rfl, fun start' hStart => ?_⟩ o v.now s
    cases hStart
    rw [← hT]
    exact hTask
  | cleaning => exact handles_note (a := .release true) (foreign_of_plain rfl rfl) o v.now s
  | checkClosed | awaitAccepted | retryTimer start | retryClosed start =>
    dsimp only
    repeat' split
    all_goals exact hStay
  | checkOpen | checkDeadline =>
    dsimp only
    split <;> first | exact hSaw _ _ _ | exact hSawSay _ _ _ _
  | handOpen start | handDeadline start | handLease start => exact hSaw _ _ _
  | failing | reject e => exact hSay _ _
  | unlock h => cases h <;> exact hStay
  | releaseGuard =>
    dsimp only
    split
    · exact hStay
    · unfold Handles State.guardStep
      cases hGuard : s.guard with
      | none =>
        dsimp only
        show Handled _ _ _ _ none s.log s.guard s.log
        rw [hGuard]
        exact .kept _ (.refl _ _)
      | some g => exact .yielded g _ _ (Lease.lose_ne_active _)
  | guardStarting =>
    have hMarked := hYields (by rw [hTask]; rfl)
    have hNote : Handles T o v.now s (s.note (.release true)) :=
      handles_note (foreign_of_plain rfl rfl) o v.now s
    refine hNote.trans ?_
    show Handled _ _ _ _ s.guard _ (s.guard.map _) _
    cases hGuard : s.guard with
    | none => exact .kept _ (.refl _ _)
    | some g => exact .yielded g _ _ (hMarked g hGuard)
  | dropGuard => exact handles_drop o v.now s
  | contended =>
    dsimp only
    split
    · exact hSay _ _
    · exact hStay
  | retryShutdown start | retryDeadline start =>
    dsimp only
    split
    · exact hSawSay _ _ _ _
    · exact hStay

/-- **Every event handles the guard**, except the one that makes it. -/
theorem handled_next {e : Event} (hEn : enabled v s e = true)
    (hMake : ∀ ready start, e = .task ready → s.task ≠ .handSend start)
    (hYields : s.task.yields = true → ∀ g, s.guard = some g → g.lease.state ≠ .active) :
    Handles (fun start => s.task = .sending start) o v.now s (next o once v s e) := by
  cases e with
  | caller ready => exact handles_callerStep o v ready s
  | cancel => exact handles_leave o v.now .cancelled s
  | task ready =>
    exact handles_taskStep o once v ready s (fun start => hMake ready start rfl) hYields
  | acquireReply r =>
    show Handles _ o v.now s (acquireReplied r s)
    unfold acquireReplied
    split
    · rename_i start hTask
      exact handles_note (a := .reply start r) (foreign_of_plain rfl rfl) o v.now s
    · exact handles_refl o v.now s
  | releaseReply ok =>
    show Handles _ o v.now s (releaseReplied o v ok s)
    unfold releaseReplied
    split
    · exact handles_refl o v.now s
    · rename_i hTask
      have hMarked := hYields (by rw [hTask]; rfl)
      show Handled _ _ _ _ s.guard _ (s.guard.map _) _
      cases hGuard : s.guard with
      | none => exact .kept _ (.refl _ _)
      | some g => exact .yielded g _ _ (Guard.inactive_next _ (hMarked g hGuard))
    · exact handles_refl o v.now s
  | guard ge =>
    cases hGuard : s.guard with
    | none => simp [enabled, hGuard] at hEn
    | some g =>
      have hEnabled : g.enabled .async v.now ge = true := by
        simp only [enabled, hGuard, Option.any_some, Bool.and_eq_true] at hEn
        exact hEn.1
      have hStep : ∀ t : State, t.guard = some g →
          (∀ start, ge = .renewReply (some true) → g.renewal = .renewing start →
            .renewReply start (some true) ∈ t.log) →
          Handles (fun start => s.task = .sending start) o v.now t (t.guardStep o v.now ge) := by
        intro t hT hReply
        unfold Handles State.guardStep
        rw [hT]
        exact .event g t.log hEnabled hReply
      simp only [next, hGuard, Option.map_some]
      split
      · rename_i r start hRenewal
        have hNote : Handles (fun start => s.task = .sending start) o v.now s
            (s.note (.renewReply start r)) := handles_note (foreign_of_plain rfl rfl) o v.now s
        refine hNote.trans (hStep _ hGuard fun start' hEvent hStart => ?_)
        cases hEvent
        rw [Option.some.inj hRenewal] at hStart
        cases hStart
        exact List.mem_cons_self
      · rename_i hNot
        refine hStep s hGuard fun start hEvent hStart => ?_
        exact (hNot _ start hEvent (congrArg some hStart)).elim

-- ---------------------------------------------------------------------------
-- The claim
-- ---------------------------------------------------------------------------

/-- What the guard of a reachable state can prove. -/
structure Backed (o : AcquireOptions) (s : State) : Prop where
  claimed : Claimed o s.guard s.log
  won : ∀ start, s.task.won = some start → .reply start .acquired ∈ s.log
  /-- there is no guard before it is made -/
  bare : s.task.progress ≠ .over → s.guard = none
  yielded : s.task.yields = true → ∀ g, s.guard = some g → g.lease.state ≠ .active

theorem backed_initial (o : AcquireOptions) : Backed o .initial where
  claimed := claimed_nil o
  won _ hNo := nomatch hNo
  bare _ := rfl
  yielded hNo := nomatch hNo

/-- The supervisor wins with a reply only, releases a guard that nobody took, and
stamps an attempt when it is next. -/
structure Advances (now : Int) (t t' : Task) : Prop where
  won : t'.won = t.won ∨ t'.won = none
  yields : t'.yields = true → t.yields = true ∨ t = .releaseGuard
  stamp : ∀ start, t' = .sending start → t = .sending start ∨ start = now

/-- Tasks about which there is nothing to say. -/
def Task.plain : Task → Bool
  | .sending _ => false
  | t => t.won.isNone && !t.yields

/-- Such a task does not release a guard. -/
theorem Task.yields_of_plain {t : Task} (h : t.plain = true) : t.yields = false := by
  cases t with
  | guardStarting | guardReleasing => cases h
  | _ => rfl

theorem advances_of_plain {now : Int} {t t' : Task} (h : t'.plain = true) :
    Advances now t t' := by
  cases t' with
  | sending _ | locking _ | handOpen _ | handDeadline _ | handLease _ | handSend _
  | guardStarting | guardReleasing => cases h
  | _ => exact ⟨Or.inr rfl, fun hNo => (nomatch hNo), fun _ hNo => (nomatch hNo)⟩

theorem advances_refl (now : Int) (t : Task) : Advances now t t :=
  ⟨Or.inl rfl, Or.inl, fun _ => Or.inl⟩

/-- **A step of the supervisor** wins nothing and stamps with the present. -/
theorem advances_taskStep (o : AcquireOptions) (once : Bool) (v : View) (ready : Bool)
    (s : State) : Advances v.now s.task (taskStep o once v ready s).task := by
  -- a step that speaks ends at `t` or panics
  have hSay : ∀ (t₀ : Task) (m : Message) (t : Task) (s' : State), t.plain = true →
      Advances v.now t₀ (s'.say m t).task := by
    intro t₀ m t s' hPlain
    rcases State.say_task m t s' with hTask | hTask <;> rw [hTask]
    · exact advances_of_plain hPlain
    · exact advances_of_plain rfl
  -- on the way to the handoff the stamp is carried along
  have hWon : ∀ {t t' : Task}, t'.won = t.won → t'.yields = false →
      (∀ start, t' ≠ .sending start) → Advances v.now t t' := by
    intro t t' hSame hYields hNot
    refine ⟨Or.inl hSame, fun hNo => ?_, fun start hNo => absurd hNo (hNot start)⟩
    rw [hYields] at hNo
    cases hNo
  unfold taskStep
  cases hTask : s.task with
  | locking start => exact hWon rfl rfl fun _ hNo => (nomatch hNo)
  | handOpen start | handDeadline start | handLease start =>
    show Advances _ _ (if _ then _ else _)
    split
    all_goals first
      | exact advances_of_plain rfl
      | exact hWon rfl rfl fun _ hNo => (nomatch hNo)
  | handSend start =>
    dsimp only
    split
    · split <;> exact advances_of_plain rfl
    · exact advances_of_plain rfl
  | unlock h => cases h <;> exact advances_of_plain rfl
  | releaseGuard =>
    dsimp only
    split <;> exact ⟨Or.inr rfl, fun _ => Or.inr rfl, fun _ hNo => (nomatch hNo)⟩
  | guardStarting => exact ⟨Or.inr rfl, fun _ => Or.inl rfl, fun _ hNo => (nomatch hNo)⟩
  | failing | reject e =>
    refine hSay _ _ _ _ ?_
    rfl
  | checkOpen | checkDeadline | contended | retryShutdown start | retryDeadline start =>
    dsimp only
    split
    all_goals first
      | exact advances_of_plain rfl
      | refine hSay _ _ _ _ ?_; rfl
  | checkClosed | awaitAccepted | retryTimer start | retryClosed start =>
    dsimp only
    repeat' split
    all_goals exact advances_of_plain rfl
  | stamp =>
    refine ⟨Or.inr rfl, fun hNo => (nomatch hNo), fun start hStart => Or.inr ?_⟩
    cases hStart
    rfl
  | sending start | cleaning | dropGuard | retryParked start => exact advances_of_plain rfl
  | unborn | acquiring start | cleaned | guardReleasing | done | panicked =>
    dsimp only
    rw [hTask]
    exact advances_refl v.now _

/-- The step that makes the guard. -/
theorem Backed.made {start : Int} (h : Backed o s) (once : Bool) (v : View) (ready : Bool)
    (hTask : s.task = .handSend start) : Backed o (taskStep o once v ready s) := by
  have hBare : s.guard = none := h.bare (by rw [hTask]; exact fun hNo => (nomatch hNo))
  have hWon : .reply start .acquired ∈ s.log := h.won start (by rw [hTask]; rfl)
  have hOld := h.claimed
  rw [hBare] at hOld
  have hMade : Claimed o (some (Guard.new o (Lease.new start o.effectiveTtl) start))
      (.result .acquisition :: s.log) :=
    Claimed.made (hOld.extends (P := (· = .result .acquisition)) ((Extends.refl _ _).cons rfl)
      fun x hNo => (nomatch hNo)) (List.mem_cons_of_mem _ hWon)
  unfold taskStep
  rw [hTask]
  dsimp only
  split
  · split
    all_goals exact
      ⟨hMade, fun _ hNo => (nomatch hNo), fun hNo => absurd rfl hNo, fun hNo => (nomatch hNo)⟩
  · exact ⟨h.claimed, fun _ hNo => (nomatch hNo), fun hNo => absurd rfl hNo,
      fun hNo => (nomatch hNo)⟩

/-- `guard.release()` of the supervisor marks the lease first. -/
theorem inactive_releaseGuard (o : AcquireOptions) (once : Bool) (v : View) (ready : Bool)
    (hTask : s.task = .releaseGuard) (hYields : (taskStep o once v ready s).task.yields = true) :
    ∀ g, (taskStep o once v ready s).guard = some g → g.lease.state ≠ .active := by
  unfold taskStep at hYields ⊢
  rw [hTask] at hYields ⊢
  dsimp only at hYields ⊢
  split at hYields
  · cases hYields
  · rename_i hHeld
    rw [if_neg hHeld]
    unfold State.guardStep
    intro g hSome
    cases hGuard : s.guard with
    | none =>
      rw [hGuard] at hSome
      exact absurd (hGuard.symm.trans hSome) fun hNo => (nomatch hNo)
    | some g' =>
      rw [hGuard] at hSome
      cases hSome
      exact Lease.lose_ne_active _

/-- The task after an event: its own step, or a reply, or nothing of note. -/
theorem task_next (o : AcquireOptions) (once : Bool) (v : View) (s : State) (e : Event) :
    (∃ ready, e = .task ready) ∨ (next o once v s e).task = s.task ∨
      (next o once v s e).task.plain = true ∨
      ∃ start, (next o once v s e).task = .locking start ∧
        .reply start .acquired ∈ (next o once v s e).log := by
  cases e with
  | task ready => exact Or.inl ⟨ready, rfl⟩
  | caller ready =>
    rcases callerStep_task o v ready s with hSame | ⟨-, hSpawned⟩
    · exact Or.inr (Or.inl hSame)
    · refine Or.inr (Or.inr (Or.inl ?_))
      show (callerStep o v ready s).task.plain = true
      rw [hSpawned]
      rfl
  | cancel => exact Or.inr (Or.inl (leave_task o v.now .cancelled s).1)
  | acquireReply r =>
    unfold next acquireReplied
    dsimp only
    split
    · rename_i start hTask
      cases r with
      | acquired => exact Or.inr (Or.inr (Or.inr ⟨start, rfl, List.mem_cons_self⟩))
      | contended | error io => exact Or.inr (Or.inr (Or.inl rfl))
    · exact Or.inr (Or.inl rfl)
  | releaseReply ok =>
    unfold next releaseReplied
    dsimp only
    split
    · exact Or.inr (Or.inr (Or.inl rfl))
    · exact Or.inr (Or.inr (Or.inl rfl))
    · exact Or.inr (Or.inl rfl)
  | guard e =>
    exact Or.inr (Or.inl (next_guard_keeps o once v s e).2.2)

/-- Apart from a reply of success, the supervisor advances. -/
theorem advances_next (o : AcquireOptions) (once : Bool) (v : View) (s : State) (e : Event) :
    Advances v.now s.task (next o once v s e).task ∨
      ∃ start, (next o once v s e).task = .locking start ∧
        .reply start .acquired ∈ (next o once v s e).log := by
  rcases task_next o once v s e with ⟨ready, rfl⟩ | hSame | hPlain | hWon
  · exact Or.inl (advances_taskStep o once v ready s)
  · rw [hSame]
    exact Or.inl (advances_refl v.now s.task)
  · exact Or.inl (advances_of_plain hPlain)
  · exact Or.inr hWon

/-- **One event** keeps what the guard can prove. -/
theorem Backed.step {e : Event} (h : Backed o s) (hs : (acquisition o once).Reachable s)
    (hEn : enabled v s e = true) : Backed o (next o once v s e) := by
  by_cases hMake : ∃ ready start, e = .task ready ∧ s.task = .handSend start
  -- the supervisor makes the guard
  · obtain ⟨ready, start, rfl, hTask⟩ := hMake
    exact h.made once v ready hTask
  · have hStep : Handles (fun start => s.task = .sending start) o v.now s (next o once v s e) :=
      handled_next hEn (fun ready start hE hTask => hMake ⟨ready, start, hE, hTask⟩) h.yielded
    obtain ⟨new, -, hMoves⟩ := (tracked o once).step s (v, e) hs hEn
    refine ⟨hStep.claimed h.claimed, fun start hWon => ?_, fun hNot => ?_, fun hYields => ?_⟩
    -- what is won now was won before, or is in the reply that just came
    · rcases advances_next o once v s e with hAdvances | ⟨start', hTask, hMem⟩
      · rcases hAdvances.won with hSame | hNone
        · exact hStep.mem (h.won start (hSame ▸ hWon))
        · rw [hNone] at hWon
          cases hWon
      · rw [hTask] at hWon
        cases hWon
        exact hMem
    -- before the handoff there was no guard, and this step made none
    · exact hStep.none_iff.mpr (h.bare fun hOver => hNot (hMoves.over hOver))
    · rcases task_next o once v s e with ⟨ready, rfl⟩ | hSame | hPlain | ⟨start, hTask, -⟩
      · rcases (advances_taskStep o once v ready s).yields hYields with hOld | hRelease
        · exact hStep.inactive (h.yielded hOld)
        · exact inactive_releaseGuard o once v ready hRelease hYields
      · exact hStep.inactive (h.yielded (hSame ▸ hYields))
      · rw [Task.yields_of_plain hPlain] at hYields
        cases hYields
      · rw [hTask] at hYields
        cases hYields

theorem backed_of_reachable (hs : (acquisition o once).Reachable s) : Backed o s := by
  refine Machine.Reachable.invariant_of (J := (acquisition o once).Reachable) (fun _ hs => hs)
    (fun s hInit => ?_) (fun s e hs hBacked hEn => hBacked.step hs hEn) hs
  rw [show s = .initial from hInit]
  exact backed_initial o

/-- A caller that has the guard shares it with nobody. -/
theorem quiet_of_handed (hInv : Inv s) (hHanded : s.caller.phase = .handed) : Quiet s.log := by
  have hSit := hInv.situation
  -- of all stages only the settled one speaks of a release, and there the caller has no guard
  cases hStage : s.task.stage <;> rw [hStage] at hSit
  case before => exact hSit.2.1
  case owed => exact hSit.1
  case offered => exact hSit.1
  case settled => exact absurd hHanded hSit.2.2.2.2
  case ended =>
    rcases hSit with ⟨-, hAbsent⟩ | ⟨hQuiet, -⟩
    · exact absurd hHanded hAbsent.2.2
    · exact hQuiet

/-- **The claim of a guard that was handed out**: while its lease is active, its
history bears it out and no release was sent for it. -/
theorem earned_of_returned {g : Guard} (hs : (acquisition o once).Reachable s)
    (hReturned : s.caller = .returned (.ok true)) (hGuard : s.guard = some g)
    (hActive : g.lease.state = .active) :
    Earned o g.lease s.log ∧ ∀ a ∈ s.log, a.command ≠ some .release := by
  have hEarned := (backed_of_reachable hs).claimed.earned g hGuard hActive
  exact ⟨hEarned,
    hEarned.unreleased (quiet_of_handed (inv_of_reachable hs) (by rw [hReturned]; rfl))⟩

-- ---------------------------------------------------------------------------
-- Stamps
-- ---------------------------------------------------------------------------

/-- Every stamp lies in the past. -/
structure Dated (now : Int) (s : State) : Prop where
  log : Stamped now s.log
  task : ∀ start, s.task = .sending start → start ≤ now

theorem Dated.later {now now' : Int} (h : Dated now s) (hNow : now ≤ now') : Dated now' s where
  log := h.log.extends hNow (.refl (fun _ => False) _) fun _ _ _ hNo => hNo.elim
  task start hTask := (h.task start hTask).trans hNow

/-- **One event** at `now` leaves no stamp later than `now`. -/
theorem Dated.step {e : Event} (h : Dated v.now s) (hs : (acquisition o once).Reachable s)
    (hEn : enabled v s e = true) : Dated v.now (next o once v s e) where
  log := by
    by_cases hMake : ∃ ready start, e = .task ready ∧ s.task = .handSend start
    · -- the step that makes the guard writes its result
      obtain ⟨ready, start, rfl, hTask⟩ := hMake
      have hResult : Extends (· = .result .acquisition) s.log (taskStep o once v ready s).log := by
        unfold taskStep
        rw [hTask]
        dsimp only
        split
        · split <;> exact (Extends.refl _ _).cons rfl
        · exact .refl _ _
      refine h.log.extends le_rfl hResult ?_
      rintro a cmd start rfl hCmd
      cases hCmd
    · have hStep : Handles (fun start => s.task = .sending start) o v.now s (next o once v s e) :=
        handled_next hEn (fun ready start hE hTask => hMake ⟨ready, start, hE, hTask⟩)
          (backed_of_reachable hs).yielded
      exact hStep.stamped h.task h.log
  task start hTask := by
    rcases advances_next o once v s e with hAdvances | ⟨start', hLocking, -⟩
    · rcases hAdvances.stamp start hTask with hOld | rfl
      · exact h.task start hOld
      · exact le_rfl
    · rw [hLocking] at hTask
      cases hTask

end

end RLock.Async
