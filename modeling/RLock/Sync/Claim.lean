import RLock.Client.Claim
import RLock.Sync.Outcome

/-!
# RLock — the claim of a sync guard

Every step of a sync acquisition handles the guard and the history of the request
in one of the ways of `Client.Claim`, except for the step that makes the guard; a
guard whose renewal thread could not be spawned is dropped in that same step.

The loop is followed from the reply of `acquire_lock` to the guard by `Task.won`, and
from the clock to the command by `Task.stamped`; `Advances` says how a step may change
the two. So the guard is made with the stamp of an attempt that was answered, and its
lease has a success in the history to be about (`Backed.made`). The caller and the
owner only read the lease or drop the guard.

The last section is about stamps. They are all in the past (`Dated`), which the
machine of the whole system needs to compare them with the clock of the server.

## Results

* `handled_next` — what each event does to the guard.
* `Backed.step` — what the guard of a reachable state can prove.
* `earned_of_returned` — the claim of a guard in the caller's hands.
* `Dated.step` — commands carry stamps of the past.
-/

namespace RLock.Sync

open RLock.Client

/-- The loop has won the lock with an attempt stamped `start` and not made the
guard yet. -/
def Task.won : Task → Option Int
  | .lateShutdown start => some start
  | .lateCanceled start => some start
  | .lateTimeout start => some start
  | .lateLease start => some start
  | .newGuard start => some start
  | _ => none

/-- The stamp of the attempt that is next. -/
def Task.stamped : Task → Option Int
  | .checkout start => some start
  | .sending start => some start
  | _ => none

section

variable {s : State} {o : AcquireOptions} {once : Bool} {v : View}

/-- `t` is `s` after a step that handles its guard; `T` are the stamps of the
attempts it may make. -/
def Handles (T : Int → Prop) (o : AcquireOptions) (now : Int) (s t : State) : Prop :=
  Handled T .sync o now s.guard s.log t.guard t.log

section

variable {T : Int → Prop}

theorem handles_refl (o : AcquireOptions) (now : Int) (s : State) : Handles T o now s s :=
  .kept _ (.refl _ _)

/-- A step that notes something foreign to the guard. -/
theorem handles_note {a : Action} (ha : Foreign T a) (o : AcquireOptions) (now : Int)
    (s : State) : Handles T o now s (s.note a) := .kept _ ((Extends.refl _ _).cons ha)

theorem handles_goto {a : Action} (ha : Foreign T a) (t : Task) (o : AcquireOptions) (now : Int)
    (s : State) : Handles T o now s ((s.note a).goto t) := .kept _ ((Extends.refl _ _).cons ha)

theorem foreign_saw (side : Bool) (c : Check) (p : Bool) : Foreign T (.saw side c p) :=
  foreign_of_plain rfl rfl

theorem handles_read (o : AcquireOptions) (now : Int) (s : State) :
    Handles T o now s (s.readLease now) := .read _ _

/-- Dropping the acquisition drops the guard, if there is one. -/
theorem handles_drop (o : AcquireOptions) (now : Int) (s : State) :
    Handles T o now s (s.guardStep o now .drop) := by
  unfold Handles State.guardStep
  cases hGuard : s.guard with
  | none =>
    dsimp only
    rw [hGuard]
    exact .kept _ (.refl _ _)
  | some g => exact .dropped g s.log

/-- The caller drops what it holds when it leaves. -/
theorem handles_leave (o : AcquireOptions) (now : Int) (e : AcquireError) (s : State) :
    Handles T o now s (s.leave o now e) := by
  unfold State.leave State.dropAcquisition
  dsimp only
  split
  · exact handles_drop o now s
  · exact handles_refl o now s

/-- **A step of the caller** reads the lease or drops the guard, at most. -/
theorem handles_callerStep (o : AcquireOptions) (v : View) (ok : Bool) (s : State) :
    Handles T o v.now s (callerStep o v ok s) := by
  have hStay := handles_refl (T := T) o v.now s
  have hSaw := fun c p => handles_note (T := T) (foreign_saw true c p) o v.now s
  have hCall : ∀ (c : Check) (p : Bool) (x : Caller),
      Handles T o v.now s ((s.note (.saw true c p)).call x) := fun c p x => hSaw c p
  have hRead := fun p => (hSaw .lease p).trans (handles_read o v.now _)
  have hLeave := fun e => handles_leave (T := T) o v.now e s
  unfold callerStep
  cases s.caller with
  | begin | accept | timedOut m | returned r => exact hStay
  | checkZero => exact hCall _ _ _
  | admission =>
    dsimp only
    split
    · split <;> exact hStay
    · exact hStay
  | spawning =>
    dsimp only
    split <;> exact hStay
  | receiving =>
    dsimp only
    split
    · split
      · exact hStay
      · exact hLeave _
    · exact hCall _ _ _
  | inLoop =>
    dsimp only
    split <;> exact hStay
  | checkDeadline m => exact hCall _ _ _
  | leaving m => exact hLeave _
  | checkShutdown m =>
    dsimp only
    split
    · exact hCall _ _ _
    · exact (hSaw _ _).trans (handles_leave o v.now _ _)
  | checkLease m =>
    cases m with
    | failed e => exact hStay
    | nothing => exact hStay
    | acquisition =>
      dsimp only
      split
      · exact hRead _
      · exact (hRead _).trans (handles_leave o v.now _ _)
  | finalLease =>
    dsimp only
    split
    · exact hRead _
    · exact (hRead _).trans (handles_leave o v.now _ _)

end

/-- The loop and the worker handle the guard, except when it is made. -/
theorem handles_taskStep (o : AcquireOptions) (once : Bool) (v : View) (ok : Bool) (s : State)
    (hMake : ∀ start, s.task ≠ .newGuard start) :
    Handles (fun start => s.task = .sending start) o v.now s (taskStep o once v ok s) := by
  generalize hT : (fun start => s.task = .sending start) = T
  have hStay := handles_refl (T := T) o v.now s
  have hSaw := fun c p t => handles_goto (T := T) (foreign_saw false c p) t o v.now s
  have hPlain : ∀ (a : Action) (t : Task), a.byGuard = false → a.isAttempt = false →
      Handles T o v.now s ((s.note a).goto t) :=
    fun a t hGuard hAttempt => handles_goto (foreign_of_plain hGuard hAttempt) t o v.now s
  unfold taskStep
  cases hTask : s.task with
  | newGuard start => exact absurd hTask (hMake start)
  | unborn | acquiring start | lateReleasing e | cleaning | done => exact hStay
  | loopCanceled | stamp | checkout start | lateCanceled start | contendedOnce | retryWait
  | parking wait | waiting start wait => exact hStay
  | loopTimeout | loopShutdown | lateShutdown start | lateTimeout start | lateLease start
  | contended | contendedTimeout => exact hSaw _ _ _
  | sending start =>
    -- the attempt that goes out now has the stamp of this task
    refine handles_goto (a := .attempt start) ⟨rfl, fun start' hStart => ?_⟩ _ o v.now s
    cases hStart
    rw [← hT]
    exact hTask
  | ioError => exact hPlain .offer _ rfl rfl
  | lateRelease e => exact hPlain (.release ok) _ rfl rfl
  | cleanup => exact hPlain (.release ok) _ rfl rfl
  | awaitAccepted =>
    dsimp only
    split <;> exact hStay
  | finished m =>
    have hResult : ∀ m, Handles T o v.now s (s.note (.result m)) :=
      fun m => handles_note (foreign_of_plain rfl rfl) o v.now s
    cases m with
    | acquisition =>
      dsimp only
      split
      · exact hResult .acquisition
      -- nobody is there to get it, so it is dropped
      · exact (hResult .acquisition).trans (handles_drop o v.now _)
    | nothing => exact hResult .nothing
    | failed e => exact hResult (.failed e)

/-- **Every event handles the guard**, except the one that makes it. -/
theorem handled_next {e : Event} (hEn : enabled o v s e = true)
    (hMake : ∀ ok start, e = .task ok → s.task ≠ .newGuard start) :
    Handles (fun start => s.task = .sending start) o v.now s (next o once v s e) := by
  cases e with
  | caller ok => exact handles_callerStep o v ok s
  | task ok => exact handles_taskStep o once v ok s fun start => hMake ok start rfl
  | acquireReply r =>
    show Handles _ o v.now s (acquireReplied r s)
    unfold acquireReplied
    split
    · rename_i start hTask
      exact handles_note (a := .reply start r) (foreign_of_plain rfl rfl) o v.now s
    · exact handles_refl o v.now s
  | releaseReply ok =>
    show Handles _ o v.now s (releaseReplied s)
    unfold releaseReplied
    split <;> exact handles_refl o v.now s
  | guard ge =>
    cases hGuard : s.guard with
    | none => simp [enabled, hGuard] at hEn
    | some g =>
      have hEnabled : g.enabled .sync v.now ge = true := by
        simp only [enabled, hGuard, Option.any_some, Bool.and_eq_true] at hEn
        exact hEn.1
      -- the guard does the event, and what it is told is in the history
      have hStep : ∀ t : State, t.guard = some g →
          (∀ start, ge = .renewReply (some true) → g.renewal = .renewing start →
            .renewReply start (some true) ∈ t.log) →
          Handles (fun start => s.task = .sending start) o v.now t (t.guardStep o v.now ge) := by
        intro t hT hReply
        unfold Handles State.guardStep
        rw [hT]
        exact .event g t.log hEnabled hReply
      simp only [next, hGuard, Option.map_some]
      split
      · rename_i r start hRenewal
        have hNote : Handles (fun start => s.task = .sending start) o v.now s
            (s.note (.renewReply start r)) := handles_note (foreign_of_plain rfl rfl) o v.now s
        refine hNote.trans (hStep _ hGuard fun start' hEvent hStart => ?_)
        cases hEvent
        rw [Option.some.inj hRenewal] at hStart
        cases hStart
        exact List.mem_cons_self
      · rename_i hNot
        refine hStep s hGuard fun start hEvent hStart => ?_
        exact (hNot _ start hEvent (congrArg some hStart)).elim

-- ---------------------------------------------------------------------------
-- The loop
-- ---------------------------------------------------------------------------

/-- The loop wins with a reply only, and stamps an attempt when it is next. -/
structure Advances (now : Int) (t t' : Task) : Prop where
  won : t'.won = t.won ∨ t'.won = none
  stamp : t'.stamped = t.stamped ∨ t'.stamped = none ∨ t'.stamped = some now

theorem advances_refl (now : Int) (t : Task) : Advances now t t := ⟨Or.inl rfl, Or.inl rfl⟩

/-- Tasks that neither won nor carry a stamp. -/
def Task.plain (t : Task) : Bool := t.won.isNone && t.stamped.isNone

/-- A step to such a task wins nothing and stamps nothing. -/
theorem advances_of_plain {now : Int} {t t' : Task} (h : t'.plain = true) :
    Advances now t t' := by
  unfold Task.plain at h
  rw [Bool.and_eq_true, Option.isNone_iff_eq_none, Option.isNone_iff_eq_none] at h
  exact ⟨Or.inr h.1, Or.inr (Or.inl h.2)⟩

/-- **A step of the loop** wins nothing and stamps with the present. -/
theorem advances_taskStep (o : AcquireOptions) (once : Bool) (v : View) (ok : Bool) (s : State) :
    Advances v.now s.task (taskStep o once v ok s).task := by
  unfold taskStep
  cases hTask : s.task with
  | loopCanceled | loopTimeout | loopShutdown | contended | contendedTimeout | contendedOnce
  | lateRelease e | cleanup | checkout start | lateShutdown start | lateCanceled start
  | lateTimeout start | lateLease start =>
    show Advances _ _ (if _ then _ else _)
    split
    -- on the way, at the end of it, or up to the command
    all_goals first
      | exact advances_of_plain rfl
      | exact ⟨Or.inl rfl, Or.inr (Or.inl rfl)⟩
      | exact ⟨Or.inr rfl, Or.inl rfl⟩
  | stamp => exact ⟨Or.inr rfl, Or.inr (Or.inr rfl)⟩
  | sending start | ioError | retryWait | parking wait | waiting start wait =>
    exact advances_of_plain rfl
  | newGuard start =>
    dsimp only
    split
    · exact advances_of_plain rfl
    · exact advances_of_plain rfl
  | finished m =>
    cases m with
    | acquisition =>
      dsimp only
      split <;> exact advances_of_plain rfl
    | nothing | failed e => exact advances_of_plain rfl
  | awaitAccepted =>
    dsimp only
    split <;> exact advances_of_plain rfl
  | unborn | acquiring start | lateReleasing e | cleaning | done =>
    dsimp only
    rw [hTask]
    exact advances_refl v.now _

/-- Apart from a reply of success, the loop advances. -/
theorem advances_next (o : AcquireOptions) (once : Bool) (v : View) (s : State) (e : Event) :
    Advances v.now s.task (next o once v s e).task ∨
      ∃ start, (next o once v s e).task = .lateShutdown start ∧
        .reply start .acquired ∈ (next o once v s e).log := by
  cases e with
  | task ok => exact Or.inl (advances_taskStep o once v ok s)
  | caller ok =>
    refine Or.inl ?_
    show Advances v.now s.task (callerStep o v ok s).task
    rcases callerStep_task o v ok s with hSame | ⟨-, hStarted, -⟩ | ⟨-, hDone, -⟩
    · rw [hSame]
      exact advances_refl v.now s.task
    · rw [hStarted]
      exact advances_of_plain rfl
    · rw [hDone]
      exact advances_of_plain rfl
  | acquireReply r =>
    unfold next acquireReplied
    dsimp only
    split
    · rename_i start hTask
      cases r with
      | acquired => exact Or.inr ⟨start, rfl, List.mem_cons_self⟩
      | contended => exact Or.inl (advances_of_plain rfl)
      | error io => cases io <;> exact Or.inl (advances_of_plain rfl)
    · exact Or.inl (advances_refl v.now s.task)
  | releaseReply ok =>
    refine Or.inl ?_
    unfold next releaseReplied
    dsimp only
    split
    · exact advances_of_plain rfl
    · exact advances_of_plain rfl
    · exact advances_refl v.now s.task
  | guard e =>
    refine Or.inl ?_
    rw [(next_guard_keeps o once v s e).2.2]
    exact advances_refl v.now s.task

-- ---------------------------------------------------------------------------
-- The claim
-- ---------------------------------------------------------------------------

/-- What the guard of a reachable state can prove. -/
structure Backed (o : AcquireOptions) (s : State) : Prop where
  claimed : Claimed o s.guard s.log
  won : ∀ start, s.task.won = some start → .reply start .acquired ∈ s.log
  /-- there is no guard before it is made -/
  bare : s.task.progress ≠ .over → s.guard = none

theorem backed_initial (o : AcquireOptions) : Backed o .initial where
  claimed := claimed_nil o
  won _ hNo := nomatch hNo
  bare _ := rfl

/-- The step that makes the guard, or drops it at once. -/
theorem Backed.made {start : Int} (h : Backed o s) (once : Bool) (v : View) (ok : Bool)
    (hTask : s.task = .newGuard start) : Backed o (taskStep o once v ok s) := by
  have hBare : s.guard = none := h.bare (by rw [hTask]; exact fun hNo => (nomatch hNo))
  have hWon : .reply start .acquired ∈ s.log := h.won start (by rw [hTask]; rfl)
  have hOld := h.claimed
  rw [hBare] at hOld
  unfold taskStep
  rw [hTask]
  dsimp only
  split
  · exact ⟨hOld.made hWon, fun _ hNo => (nomatch hNo), fun hNo => absurd rfl hNo⟩
  · exact ⟨claimed_of_inactive (Lease.release_ne_active _), fun _ hNo => (nomatch hNo),
      fun hNo => absurd rfl hNo⟩

/-- **One event** keeps what the guard can prove. -/
theorem Backed.step {e : Event} (h : Backed o s) (hs : (acquisition o once).Reachable s)
    (hEn : enabled o v s e = true) : Backed o (next o once v s e) := by
  by_cases hMake : ∃ ok start, e = .task ok ∧ s.task = .newGuard start
  · obtain ⟨ok, start, rfl, hTask⟩ := hMake
    exact h.made once v ok hTask
  · have hStep : Handles (fun start => s.task = .sending start) o v.now s (next o once v s e) :=
      handled_next hEn fun ok start hE hTask => hMake ⟨ok, start, hE, hTask⟩
    obtain ⟨new, -, hMoves⟩ := (tracked o once).step s (v, e) hs hEn
    refine ⟨hStep.claimed h.claimed, fun start hWon => ?_, fun hNot => ?_⟩
    · rcases advances_next o once v s e with hAdvances | ⟨start', hTask, hMem⟩
      · rcases hAdvances.won with hSame | hNone
        · exact hStep.mem (h.won start (hSame ▸ hWon))
        · rw [hNone] at hWon
          cases hWon
      · rw [hTask] at hWon
        cases hWon
        exact hMem
    · exact hStep.none_iff.mpr (h.bare fun hOver => hNot (hMoves.over hOver))

theorem backed_of_reachable (hs : (acquisition o once).Reachable s) : Backed o s := by
  refine Machine.Reachable.invariant_of (J := (acquisition o once).Reachable) (fun _ hs => hs)
    (fun s hInit => ?_) (fun s e hs hBacked hEn => hBacked.step hs hEn) hs
  rw [show s = .initial from hInit]
  exact backed_initial o

/-- A caller that has the guard shares it with nobody. -/
theorem quiet_of_handed (hInv : Inv s) (hHanded : s.caller.phase = .handed) : Quiet s.log := by
  have hSit := hInv.situation
  cases hStage : s.task.stage <;> rw [hStage] at hSit
  case before => exact hSit.2.1
  case down => exact hSit.2.1
  case owed => exact hSit.1
  case held => exact hSit.1
  case offered =>
    obtain ⟨ch, -, hOffered⟩ := hSit
    rw [hHanded] at hOffered
    exact hOffered.1
  case settled => exact absurd hHanded hSit.2.2.2.2
  case ended =>
    rcases hSit with ⟨-, hAbsent⟩ | ⟨hQuiet, -⟩
    · exact absurd hHanded hAbsent.2.2.2
    · exact hQuiet

/-- **The claim of a guard that was handed out**: while its lease is active, its
history bears it out and no release was sent for it. -/
theorem earned_of_returned {g : Guard} (hs : (acquisition o once).Reachable s)
    (hReturned : s.caller = .returned (.ok true)) (hGuard : s.guard = some g)
    (hActive : g.lease.state = .active) :
    Earned o g.lease s.log ∧ ∀ a ∈ s.log, a.command ≠ some .release := by
  have hEarned := (backed_of_reachable hs).claimed.earned g hGuard hActive
  exact ⟨hEarned,
    hEarned.unreleased (quiet_of_handed (inv_of_reachable hs) (by rw [hReturned]; rfl))⟩

-- ---------------------------------------------------------------------------
-- Stamps
-- ---------------------------------------------------------------------------

/-- Every stamp lies in the past. -/
structure Dated (now : Int) (s : State) : Prop where
  log : Stamped now s.log
  task : ∀ start, s.task.stamped = some start → start ≤ now

/-- Stamps of the past stay in the past. -/
theorem Dated.later {now now' : Int} (h : Dated now s) (hNow : now ≤ now') : Dated now' s where
  log := h.log.extends hNow (.refl (fun _ => False) _) fun _ _ _ hNo => hNo.elim
  task start hTask := (h.task start hTask).trans hNow

/-- **One event** at `now` leaves no stamp later than `now`. -/
theorem Dated.step {e : Event} (h : Dated v.now s) (hEn : enabled o v s e = true) :
    Dated v.now (next o once v s e) where
  log := by
    by_cases hMake : ∃ ok start, e = .task ok ∧ s.task = .newGuard start
    · -- the step that makes the guard sends at most the release of its drop
      obtain ⟨ok, start, rfl, hTask⟩ := hMake
      have hOffer : Extends (· = .guard .offer) s.log (taskStep o once v ok s).log := by
        unfold taskStep
        rw [hTask]
        dsimp only
        split
        · exact .refl _ _
        · exact (Extends.refl _ _).cons rfl
      refine h.log.extends le_rfl hOffer ?_
      rintro a cmd start rfl hCmd hStart
      cases hCmd
      cases hStart
    · have hStep : Handles (fun start => s.task = .sending start) o v.now s (next o once v s e) :=
        handled_next hEn fun ok start hE hTask => hMake ⟨ok, start, hE, hTask⟩
      exact hStep.stamped (fun start hTask => h.task start (by rw [hTask]; rfl)) h.log
  task start hTask := by
    rcases advances_next o once v s e with hAdvances | ⟨start', hLate, -⟩
    · rcases hAdvances.stamp with hOld | hNone | hNow
      · exact h.task start (hOld ▸ hTask)
      · rw [hNone] at hTask
        cases hTask
      -- it was stamped just now
      · rw [hNow] at hTask
        cases hTask
        exact le_rfl
    · rw [hLate] at hTask
      cases hTask

end

end RLock.Sync
