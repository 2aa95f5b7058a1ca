import RLock.Async.Acquire

/-!
# RLock — the async handoff neither loses nor steals a lock

Between the reply of `acquire_lock` and the end of the supervisor the request
owes a release unless the caller takes the guard. The invariant says, for every
place the supervisor can be at, who has the acquisition and whether a release was
issued.

The two sides are abstracted to how far they are: the caller to a `Phase`, the
supervisor to a `Stage`. `Situation` is what holds of the history and the
channels in each stage; in the stage `offered` it depends on the phase, since the
acquisition may be in the channel, in the caller's hands, with the caller for
good, or dropped, and the acceptance channel tells which (`Offered`). The
remaining fields of `Inv` make the stages exclusive: the sender is used once, a
receiver is there as long as the caller waits, and no guard was released behind
the back of whoever has it.

A step is proved by how it moves: it stays within its stage (`Inv.goto`), enters
another one (`Inv.enter`, `Inv.move`), speaks (`Inv.say`), or takes, drops or
accepts what is in the channel (`Inv.take`, `Inv.leave`, `Inv.accept`). The cases
of `Inv.callerStep` and `Inv.taskStep` then follow the source line by line.

## Results

* `Inv.step` — every event of the acquisition keeps the invariant.
* `supervised_not_orphaned` — once caller and supervisor are finished, each reply
  that may have left the lock in Redis ended in a guard without a release, or in a
  release without a guard.
-/

namespace RLock.Async

open RLock.Client

-- ---------------------------------------------------------------------------
-- Where the two sides stand
-- ---------------------------------------------------------------------------

/-- How far the caller is, as far as the supervisor cares. -/
inductive Phase
  | early | waiting | hand | handed | without
  deriving DecidableEq

/-- Where the acquisition is with a caller at `c`. A result without an acquisition leaves it
`without` one. -/
def Caller.phase : Caller → Phase
  | .begin => .early
  | .checkTimeout => .early
  | .admission => .early
  | .pollShutdown => .waiting
  | .pollDeadline => .waiting
  | .pollResult => .waiting
  | .parked => .waiting
  | .checkDeadline got => if got then .hand else .without
  | .checkOpen got => if got then .hand else .without
  | .checkLease => .hand
  | .accept => .hand
  | .returned (.ok got) => if got then .handed else .without
  | .returned (.error _) => .without
  | .cancelled => .without

/-- The supervisor has not used its sender yet. -/
def Task.ownsTx : Task → Bool
  | .checkClosed => true
  | .checkOpen => true
  | .checkDeadline => true
  | .stamp => true
  | .sending _ => true
  | .acquiring _ => true
  | .failing => true
  | .locking _ => true
  | .handOpen _ => true
  | .handDeadline _ => true
  | .handLease _ => true
  | .handSend _ => true
  | .unlock (.rejected _) => true
  | .reject _ => true
  | .contended => true
  | .retryClosed _ => true
  | .retryShutdown _ => true
  | .retryDeadline _ => true
  | .retryTimer _ => true
  | .retryParked _ => true
  | _ => false

/-- What the supervisor still has to see to. -/
inductive Stage
  /-- no reply that may have left the lock in Redis came yet -/
  | before
  /-- one came, and no release was issued yet -/
  | owed
  /-- the acquisition went to the caller -/
  | offered
  /-- a release was issued -/
  | settled
  | ended
  deriving DecidableEq

/-- The stage of a supervisor at `t`. It pays with the release that it issues, not with the reply to
it. -/
def Task.stage : Task → Stage
  | .failing => .owed
  | .locking _ => .owed
  | .handOpen _ => .owed
  | .handDeadline _ => .owed
  | .handLease _ => .owed
  | .handSend _ => .owed
  | .unlock .sent => .offered
  | .unlock _ => .owed
  | .awaitAccepted => .offered
  | .reject _ => .owed
  | .cleaning => .owed
  | .releaseGuard => .owed
  | .guardStarting => .owed
  | .cleaned => .settled
  | .guardReleasing => .settled
  | .dropGuard => .settled
  | .done => .ended
  | .panicked => .ended
  | _ => .before

/-- Any error of `acquire_lock` may leave the lock in Redis. -/
def risky (_ : Bool) : Bool := true

/-- Every such reply was followed by a release. -/
def Settled (log : List Action) : Prop :=
  Paid (fun a => a.owes risky = true) (fun a => a = .release true) log

/-- The caller has no acquisition and none waits for it. -/
def Absent (phase : Phase) (result : Channel Message) : Prop :=
  result.value ≠ some .acquisition ∧ phase ≠ .hand ∧ phase ≠ .handed

/-- The acceptance channel shows where the acquisition went. -/
def Offered (result : Channel Message) (ch : Channel Unit) : Phase → Prop
  | .early => False
  | .waiting => result.value = some .acquisition ∧ ch = .fresh
  | .hand => result.value ≠ some .acquisition ∧ ch = .fresh
  | .handed => result.value ≠ some .acquisition ∧ ch.value = some ()
  | .without => result.value ≠ some .acquisition ∧ ch.disconnected

/-- A guard was released only by the caller that has it, or by the supervisor. -/
def Fresh (phase : Phase) (guard : Option Guard) (log : List Action) : Prop :=
  ∀ g, guard = some g → g.isReleased = true → phase = .handed ∨ .release true ∈ log

/-- What holds in each stage. A finished request was settled, or its caller has the guard and nobody
released it. -/
def Situation (s : State) : Stage → Prop
  | .before => Clear risky s.log ∧ Quiet s.log ∧ Absent s.caller.phase s.result
  | .owed => Quiet s.log ∧ Absent s.caller.phase s.result
  | .offered => Quiet s.log ∧ ∃ ch, s.accepted = some ch ∧ Offered s.result ch s.caller.phase
  | .settled => .release true ∈ s.log ∧ Settled s.log ∧ Absent s.caller.phase s.result
  | .ended =>
    (Settled s.log ∧ Absent s.caller.phase s.result) ∨
      (Quiet s.log ∧ s.caller.phase = .handed ∧ s.result.value ≠ some .acquisition)

/-- What every reachable acquisition satisfies. -/
structure Inv (s : State) : Prop where
  tx : s.hasTx = s.task.ownsTx
  sound : s.task ≠ .panicked
  born : s.caller.phase = .early → s.task = .unborn
  results : s.log.countP Action.isResult ≤ if s.hasTx ∨ s.task = .unborn then 0 else 1
  empty : s.hasTx = true → s.result.value = none
  waits : s.caller.phase = .waiting → s.result.rxAlive = true
  heard : s.hasTx = true → s.result.rxAlive = true → s.caller.phase = .waiting
  fresh : Fresh s.caller.phase s.guard s.log
  situation : Situation s s.task.stage

theorem inv_initial : Inv .initial where
  tx := rfl
  sound := by decide
  born _ := rfl
  results := by decide
  empty h := nomatch h
  waits h := nomatch h
  heard h := nomatch h
  fresh := fun _ hNo => nomatch hNo
  situation := by
    refine ⟨?_, ?_, ?_⟩
    · intro a ha
      cases ha
    · intro a ha
      cases ha
    · exact ⟨by decide, by decide, by decide⟩

-- ---------------------------------------------------------------------------
-- Moves that leave the situation as it is
-- ---------------------------------------------------------------------------

/-- Entries that neither owe nor pay nor answer the caller. -/
def neutral (a : Action) : Prop :=
  a.owes risky = false ∧ a.releases = false ∧ a.isResult = false

section

variable {s : State}

/-- Neutral entries leave the debts paid. -/
theorem Settled.append {log new : List Action} (h : Settled log) (hNew : ∀ a ∈ new, neutral a) :
    Settled (new ++ log) := by
  induction new with
  | nil => exact h
  | cons a new ih =>
    have hRest := ih fun b hb => hNew b (List.mem_cons_of_mem a hb)
    refine hRest.cons ?_
    rw [(hNew a List.mem_cons_self).1]
    exact Bool.false_ne_true

/-- Where there is no debt, all are paid. -/
theorem settled_of_clear {log : List Action} (h : Clear risky log) : Settled log := by
  refine Paid.of_no_debt ?_
  intro a ha
  rw [h a ha]
  exact Bool.false_ne_true

/-- A release pays for everything before it. -/
theorem settled_release (log : List Action) : Settled (.release true :: log) :=
  Paid.of_pay rfl Bool.false_ne_true

/-- Neutral entries leave the situation as it is. -/
theorem Situation.append {st : Stage} {new : List Action} (h : Situation s st)
    (hNew : ∀ a ∈ new, neutral a) : Situation { s with log := new ++ s.log } st := by
  have hQuiet : Quiet s.log → Quiet (new ++ s.log) := fun hq =>
    hq.append new fun a ha => (hNew a ha).2.1
  cases st with
  | before =>
    obtain ⟨hClear, hq, hAbsent⟩ := h
    exact ⟨hClear.append new fun a ha => (hNew a ha).1, hQuiet hq, hAbsent⟩
  | owed => exact ⟨hQuiet h.1, h.2⟩
  | offered => exact ⟨hQuiet h.1, h.2⟩
  | settled => exact ⟨List.mem_append_right _ h.1, h.2.1.append hNew, h.2.2⟩
  | ended =>
    rcases h with ⟨hs, hAbsent⟩ | ⟨hq, hRest⟩
    · exact Or.inl ⟨hs.append hNew, hAbsent⟩
    · exact Or.inr ⟨hQuiet hq, hRest⟩

theorem Fresh.append {phase : Phase} {guard : Option Guard} {log : List Action}
    (h : Fresh phase guard log) (new : List Action) : Fresh phase guard (new ++ log) := by
  intro g hGuard hReleased
  rcases h g hGuard hReleased with hHanded | hLog
  · exact Or.inl hHanded
  · exact Or.inr (List.mem_append_right new hLog)

theorem Inv.append (h : Inv s) (new : List Action) (hNew : ∀ a ∈ new, neutral a) :
    Inv { s with log := new ++ s.log } where
  tx := h.tx
  sound := h.sound
  born := h.born
  results := by
    have hZero : new.countP Action.isResult = 0 := by
      rw [List.countP_eq_zero]
      intro a ha
      rw [(hNew a ha).2.2]
      exact Bool.false_ne_true
    show (new ++ s.log).countP Action.isResult ≤ _
    rw [List.countP_append, hZero, Nat.zero_add]
    exact h.results
  empty := h.empty
  waits := h.waits
  heard := h.heard
  fresh := h.fresh.append new
  situation := h.situation.append hNew

theorem Inv.note {a : Action} (h : Inv s) (hA : neutral a) : Inv (s.note a) := by
  refine h.append [a] ?_
  intro b hb
  rw [List.mem_singleton.mp hb]
  exact hA

theorem Inv.saw (h : Inv s) (caller : Bool) (c : Check) (p : Bool) :
    Inv (s.note (.saw caller c p)) :=
  h.note ⟨rfl, rfl, rfl⟩

/-- The situation of a supervisor at `t`. -/
theorem Inv.situation_at {t : Task} (h : Inv s) (hTask : s.task = t) : Situation s t.stage :=
  hTask ▸ h.situation

/-- The guard changes, and still nobody released it behind the back of whoever has it. -/
theorem Inv.withGuard {g : Option Guard} (h : Inv s) (hFresh : Fresh s.caller.phase g s.log) :
    Inv { s with guard := g } :=
  ⟨h.tx, h.sound, h.born, h.results, h.empty, h.waits, h.heard, hFresh, h.situation⟩

/-- Reading the lease does not release the guard. -/
theorem Inv.readLease (h : Inv s) (now : Int) : Inv (s.readLease now) := by
  refine h.withGuard ?_
  intro g' hGuard hReleased
  obtain ⟨g, hG, rfl⟩ := Option.map_eq_some_iff.mp hGuard
  exact h.fresh g hG hReleased

/-- What a guard sends is neutral: it releases through the manager or by its own command. -/
theorem sent_neutral (g : Guard) (now : Int) (e : GuardEvent) :
    ∀ a ∈ (g.sent now e).toList.map Action.guard, neutral a := by
  intro a ha
  obtain ⟨x, -, rfl⟩ := List.mem_map.mp ha
  exact ⟨rfl, rfl, rfl⟩

/-- A guard event; only the owner of a handed guard hears that it was released. -/
theorem Inv.guardStep (h : Inv s) (o : AcquireOptions) (now : Int) (e : GuardEvent)
    (hE : e = .releaseReply true → s.caller.phase = .handed) : Inv (s.guardStep o now e) := by
  unfold State.guardStep
  split
  · exact h
  · rename_i g hGuard
    refine (h.append _ (sent_neutral g now e)).withGuard ?_
    intro g' hG' hReleased
    cases hG'
    -- it was released before, or hears so now
    rcases Guard.isReleased_next hReleased with hOld | hReply
    · exact (h.fresh.append _) g hGuard hOld
    · exact Or.inl (hE hReply)

/-- The caller moves on without passing anything. -/
theorem Inv.call {c : Caller} (h : Inv s) (hPhase : c.phase = s.caller.phase) :
    Inv (s.call c) := by
  have hSit : Situation (s.call c) s.task.stage ↔ Situation s s.task.stage := by
    cases hStage : s.task.stage <;> simp only [Situation, State.call, hPhase]
  refine ⟨h.tx, h.sound, ?_, h.results, h.empty, ?_, ?_, ?_, hSit.mpr h.situation⟩
  · intro hEarly
    exact h.born (hPhase ▸ hEarly)
  · intro hWait
    exact h.waits (hPhase ▸ hWait)
  · intro hTx hRx
    show c.phase = .waiting
    rw [hPhase]
    exact h.heard hTx hRx
  · show Fresh c.phase s.guard s.log
    rw [hPhase]
    exact h.fresh

/-- The supervisor moves on into a stage whose situation holds. -/
theorem Inv.move {t₀ t : Task} (h : Inv s) (hTask : s.task = t₀) (hSit : Situation s t.stage)
    (hTx : t.ownsTx = t₀.ownsTx := by rfl) (hSound : t ≠ .panicked := by simp)
    (hBorn : t₀ ≠ .unborn := by simp) (hBorn' : t ≠ .unborn := by simp) : Inv (s.goto t) := by
  rw [← hTask] at hTx hBorn
  refine ⟨h.tx.trans hTx.symm, hSound, ?_, ?_, h.empty, h.waits, h.heard, h.fresh, hSit⟩
  · intro hEarly
    exact absurd (h.born hEarly) hBorn
  · have hResults := h.results
    simp only [hBorn, or_false] at hResults
    show s.log.countP Action.isResult ≤ if s.hasTx ∨ t = .unborn then 0 else 1
    simp only [hBorn', or_false]
    exact hResults

/-- The supervisor moves on within its stage. -/
theorem Inv.goto {t₀ t : Task} (h : Inv s) (hTask : s.task = t₀)
    (hStage : t.stage = t₀.stage := by rfl) (hTx : t.ownsTx = t₀.ownsTx := by rfl)
    (hSound : t ≠ .panicked := by simp) (hBorn : t₀ ≠ .unborn := by simp)
    (hBorn' : t ≠ .unborn := by simp) : Inv (s.goto t) := by
  refine h.move hTask ?_ hTx hSound hBorn hBorn'
  rw [hStage, ← hTask]
  exact h.situation

/-- An entry takes the supervisor into another stage. -/
theorem Inv.enter {t₀ t : Task} {a : Action} (h : Inv s) (hTask : s.task = t₀)
    (hSit : Situation (s.note a) t.stage) (hA : a.isResult = false := by rfl)
    (hTx : t.ownsTx = t₀.ownsTx := by rfl) (hSound : t ≠ .panicked := by simp)
    (hBorn : t₀ ≠ .unborn := by simp) (hBorn' : t ≠ .unborn := by simp) :
    Inv ((s.note a).goto t) := by
  rw [← hTask] at hTx hBorn
  refine ⟨h.tx.trans hTx.symm, hSound, ?_, ?_, h.empty, h.waits, h.heard, h.fresh.append [a], hSit⟩
  · intro hEarly
    exact absurd (h.born hEarly) hBorn
  · have hResults := h.results
    simp only [hBorn, or_false] at hResults
    show (a :: s.log).countP Action.isResult ≤ if s.hasTx ∨ t = .unborn then 0 else 1
    rw [List.countP_cons_of_neg (by simp [hA])]
    simp only [hBorn', or_false]
    exact hResults

-- ---------------------------------------------------------------------------
-- The result and the acquisition change hands
-- ---------------------------------------------------------------------------

/-- The model's test for an acquisition in the hands of the caller, as a phase. -/
theorem Caller.inHand_iff (c : Caller) : c.inHand = true ↔ c.phase = .hand := by
  cases c with
  | checkDeadline got => cases got <;> decide
  | checkOpen got => cases got <;> decide
  | returned r =>
    rcases r with e | got
    · simp [Caller.inHand, Caller.phase]
    · cases got <;> simp [Caller.inHand, Caller.phase]
  | _ => decide

theorem Caller.handed_iff {c : Caller} : c.phase = .handed ↔ c = .returned (.ok true) := by
  cases c with
  | checkDeadline got => cases got <;> simp [Caller.phase]
  | checkOpen got => cases got <;> simp [Caller.phase]
  | returned r =>
    rcases r with e | got
    · simp [Caller.phase]
    · cases got <;> simp [Caller.phase]
  | _ => simp [Caller.phase]

/-- A supervisor that ends before any such reply leaves nothing behind. -/
theorem Situation.before_ended (h : Situation s .before) : Situation s .ended :=
  Or.inl ⟨settled_of_clear h.1, h.2.2⟩

/-- Sending a result that holds no acquisition. -/
theorem Inv.say {m : Message} {t₀ t : Task} (h : Inv s) (hTask : s.task = t₀)
    (hSit : Situation s t.stage) (hOwns₀ : t₀.ownsTx = true := by rfl)
    (hOwns : t.ownsTx = false := by rfl) (hSound : t ≠ .panicked := by simp)
    (hBorn' : t ≠ .unborn := by simp) (hM : m ≠ .acquisition := by simp)
    (hStage : t.stage ≠ .offered := by decide) : Inv (s.say m t) := by
  have hTx : s.hasTx = true := by rw [h.tx, hTask, hOwns₀]
  have hBorn : s.task ≠ .unborn := by
    rintro hNo
    rw [← hTask, hNo] at hOwns₀
    cases hOwns₀
  have hEq : s.say m t =
      { s with hasTx := false, result := (s.result.send m).2, task := t,
               log := .result m :: s.log } := by
    unfold State.say
    rw [if_pos hTx]
  -- sending leaves the receiver, and an acquisition that is not there, as they are
  have hRx : (s.result.send m).2.rxAlive = s.result.rxAlive := by
    unfold Channel.send
    split <;> rfl
  have hAbsent : Absent s.caller.phase s.result →
      Absent s.caller.phase (s.result.send m).2 := by
    rintro ⟨hValue, hPhase⟩
    refine ⟨?_, hPhase⟩
    unfold Channel.send
    split
    · simpa using hM
    · exact hValue
  have hQuiet : Quiet s.log → Quiet (.result m :: s.log) := fun hq =>
    hq.append [.result m] (by simp [Action.releases])
  rw [hEq]
  refine ⟨hOwns.symm, hSound, ?_, ?_, fun hNo => (nomatch hNo), ?_, fun hNo => (nomatch hNo),
    h.fresh.append [.result m], ?_⟩
  · intro hEarly
    exact absurd (h.born hEarly) hBorn
  -- no result was sent before, since the sender was there
  · have hZero := h.results
    rw [if_pos (Or.inl hTx)] at hZero
    show (Action.result m :: s.log).countP Action.isResult ≤ _
    rw [List.countP_cons_of_pos rfl, Nat.le_zero.mp hZero, if_neg (by simp [hBorn'])]
  · intro hWait
    show (s.result.send m).2.rxAlive = true
    rw [hRx]
    exact h.waits hWait
  · show Situation _ t.stage
    cases hSt : t.stage with
    | before =>
      rw [hSt] at hSit
      exact ⟨hSit.1.append [.result m] (by simp [Action.owes]), hQuiet hSit.2.1,
        hAbsent hSit.2.2⟩
    | owed =>
      rw [hSt] at hSit
      exact ⟨hQuiet hSit.1, hAbsent hSit.2⟩
    | offered => exact absurd hSt hStage
    | settled =>
      rw [hSt] at hSit
      exact ⟨List.mem_cons_of_mem _ hSit.1, hSit.2.1.cons Bool.false_ne_true, hAbsent hSit.2.2⟩
    | ended =>
      rw [hSt] at hSit
      rcases hSit with ⟨hs, hA⟩ | ⟨hq, hHanded, hValue⟩
      · exact Or.inl ⟨hs.cons Bool.false_ne_true, hAbsent hA⟩
      · -- the caller cannot have the guard while the supervisor holds its sender
        refine Or.inr ⟨hQuiet hq, hHanded, ?_⟩
        unfold Channel.send
        split
        · simpa using hM
        · exact hValue

/-- Dropping the acquisition changes nothing but the guard, its noted sends and
the acceptance channel. -/
theorem leave_eq (o : AcquireOptions) (now : Int) (c : Caller) (s : State) :
    ∃ g new, (∀ a ∈ new, neutral a) ∧
      (∀ g', g = some g' → g'.isReleased = true → ∃ g₀, s.guard = some g₀ ∧ g₀.isReleased = true) ∧
      s.leave o now c =
      { s with
        caller := c
        result := s.result.dropRx
        accepted := if s.callerHolds then s.accepted.map Channel.dropTx else s.accepted
        guard := g
        log := new ++ s.log } := by
  unfold State.leave
  split
  · unfold State.dropAcquisition State.guardStep
    split
    · exact ⟨s.guard, [], by simp, fun g' hG hR => ⟨g', hG, hR⟩, by simp_all⟩
    -- what the drop of a guard sends is neutral, and releases nothing by itself
    · rename_i g hGuard
      refine ⟨_, (g.sent now .drop).toList.map .guard, sent_neutral g now .drop, ?_, rfl⟩
      intro g' hG' hReleased
      cases hG'
      rcases Guard.isReleased_next hReleased with hOld | hReply
      · exact ⟨g, hGuard, hOld⟩
      · cases hReply
  · exact ⟨s.guard, [], by simp, fun g' hG hR => ⟨g', hG, hR⟩, rfl⟩

/-- The caller ends without a guard. -/
theorem Inv.leave {c : Caller} (h : Inv s) (o : AcquireOptions) (now : Int)
    (hEarly : s.caller.phase ≠ .early) (hHanded : s.caller.phase ≠ .handed)
    (hC : c.phase = .without) : Inv (s.leave o now c) := by
  obtain ⟨g, new, hNew, hOld, hEq⟩ := leave_eq o now c s
  have hRelease : ∀ g, s.guard = some g → g.isReleased = true → .release true ∈ s.log := by
    intro g hGuard hReleased
    rcases h.fresh g hGuard hReleased with hNo | hLog
    · exact absurd hNo hHanded
    · exact hLog
  rw [hEq]
  have hAbsent : Absent c.phase s.result.dropRx := by
    refine ⟨fun hNo => (nomatch hNo), ?_, ?_⟩ <;> rw [hC] <;> decide
  -- all but the guard, whose drop is neutral
  have hBase : Inv { s with
      caller := c
      result := s.result.dropRx
      accepted := if s.callerHolds then s.accepted.map Channel.dropTx else s.accepted } := by
    refine ⟨h.tx, h.sound, ?_, h.results, fun _ => rfl, ?_, ?_, ?_, ?_⟩
    · intro hNo
      exact absurd (hC.symm.trans hNo) (by decide)
    · intro hNo
      exact absurd (hC.symm.trans hNo) (by decide)
    · intro _ hNo
      exact (nomatch hNo)
    · intro g hGuard hReleased
      exact Or.inr (hRelease g hGuard hReleased)
    · have hSit := h.situation
      show Situation _ s.task.stage
      cases hSt : s.task.stage with
      | before =>
        rw [hSt] at hSit
        exact ⟨hSit.1, hSit.2.1, hAbsent⟩
      | owed =>
        rw [hSt] at hSit
        exact ⟨hSit.1, hAbsent⟩
      | settled =>
        rw [hSt] at hSit
        exact ⟨hSit.1, hSit.2.1, hAbsent⟩
      -- a supervisor that has ended owes nothing, or the guard was handed out
      | ended =>
        rw [hSt] at hSit
        rcases hSit with ⟨hs, -⟩ | ⟨-, hNo, -⟩
        · exact Or.inl ⟨hs, hAbsent⟩
        · exact absurd hNo hHanded
      | offered =>
        rw [hSt] at hSit
        obtain ⟨hq, ch, hCh, hOffered⟩ := hSit
        refine ⟨hq, ?_⟩
        -- the acquisition is in the channel, in the caller's hands, or dropped before
        cases hPhase : s.caller.phase with
        | early => exact absurd hPhase hEarly
        | handed => exact absurd hPhase hHanded
        | waiting =>
          rw [hPhase] at hOffered
          obtain ⟨hValue, rfl⟩ := hOffered
          have hHolds : s.callerHolds = true := by simp [State.callerHolds, hValue]
          refine ⟨Channel.dropTx .fresh, ?_, ?_⟩
          · simp [hHolds, hCh]
          · show Offered _ _ c.phase
            rw [hC]
            exact ⟨hAbsent.1, rfl, rfl⟩
        | hand =>
          rw [hPhase] at hOffered
          obtain ⟨-, rfl⟩ := hOffered
          have hHolds : s.callerHolds = true := by
            simp [State.callerHolds, (Caller.inHand_iff s.caller).mpr hPhase]
          refine ⟨Channel.dropTx .fresh, ?_, ?_⟩
          · simp [hHolds, hCh]
          · show Offered _ _ c.phase
            rw [hC]
            exact ⟨hAbsent.1, rfl, rfl⟩
        | without =>
          rw [hPhase] at hOffered
          obtain ⟨hValue, hGone⟩ := hOffered
          have hHolds : s.callerHolds = false := by
            have hHand : s.caller.inHand ≠ true := by
              rw [Ne, Caller.inHand_iff, hPhase]
              decide
            simp [State.callerHolds, hValue, hHand]
          refine ⟨ch, ?_, ?_⟩
          · simp [hHolds, hCh]
          · show Offered _ _ c.phase
            rw [hC]
            exact ⟨hAbsent.1, hGone⟩
  refine (hBase.append new hNew).withGuard ?_
  intro g' hG' hReleased
  obtain ⟨g₀, hG₀, hR₀⟩ := hOld g' hG' hReleased
  exact Or.inr (List.mem_append_right new (hRelease g₀ hG₀ hR₀))

/-- The caller takes a result out of the channel. -/
theorem Inv.take {c : Caller} {m : Message} (h : Inv s) (hWait : s.caller.phase = .waiting)
    (hValue : s.result.value = some m)
    (hC : c.phase = if m = .acquisition then .hand else .without) :
    Inv { s with result := s.result.take, caller := c } := by
  -- a message in the channel has used the sender up
  have hTx : s.hasTx ≠ true := by
    intro hTx
    rw [h.empty hTx] at hValue
    cases hValue
  refine ⟨h.tx, h.sound, ?_, h.results, fun _ => rfl, ?_, fun hNo => absurd hNo hTx, ?_, ?_⟩
  · intro hNo
    refine absurd (hC.symm.trans hNo) ?_
    split <;> decide
  · intro hNo
    refine absurd (hC.symm.trans hNo) ?_
    split <;> decide
  · intro g hGuard hReleased
    rcases h.fresh g hGuard hReleased with hNo | hLog
    · exact absurd (hWait.symm.trans hNo) (by decide)
    · exact Or.inr hLog
  · have hSit := h.situation
    have hNone : ∀ m', Channel.value (s.result.take) ≠ some m' := fun _ hNo => (nomatch hNo)
    have hAbsent : Absent s.caller.phase s.result → Absent c.phase s.result.take := by
      rintro ⟨hNot, -⟩
      have hM : m ≠ .acquisition := fun hM => hNot (hM ▸ hValue)
      rw [hC, if_neg hM]
      exact ⟨hNone _, by decide, by decide⟩
    show Situation _ s.task.stage
    cases hSt : s.task.stage with
    | before =>
      rw [hSt] at hSit
      exact ⟨hSit.1, hSit.2.1, hAbsent hSit.2.2⟩
    | owed =>
      rw [hSt] at hSit
      exact ⟨hSit.1, hAbsent hSit.2⟩
    | settled =>
      rw [hSt] at hSit
      exact ⟨hSit.1, hSit.2.1, hAbsent hSit.2.2⟩
    | ended =>
      rw [hSt] at hSit
      rcases hSit with ⟨hs, hA⟩ | ⟨-, hNo, -⟩
      · exact Or.inl ⟨hs, hAbsent hA⟩
      · exact absurd (hWait.symm.trans hNo) (by decide)
    -- only in this stage can the message be an acquisition
    | offered =>
      rw [hSt] at hSit
      obtain ⟨hq, ch, hCh, hOffered⟩ := hSit
      rw [hWait] at hOffered
      obtain ⟨hAcq, rfl⟩ := hOffered
      have hM : m = .acquisition := Option.some.inj (hValue.symm.trans hAcq)
      refine ⟨hq, .fresh, hCh, ?_⟩
      show Offered _ _ c.phase
      rw [hC, if_pos hM]
      exact ⟨hNone _, rfl⟩

/-- The caller gives up before the request exists. -/
theorem Inv.refuse {c : Caller} (h : Inv s) (hEarly : s.caller.phase = .early)
    (hC : c.phase = .without) : Inv (s.call c) := by
  have hTask : s.task = .unborn := h.born hEarly
  have hTx : s.hasTx ≠ true := by
    rw [h.tx, hTask]
    decide
  refine ⟨h.tx, h.sound, fun _ => hTask, h.results, h.empty, ?_, fun hNo => absurd hNo hTx, ?_, ?_⟩
  · intro hNo
    exact absurd (hC.symm.trans hNo) (by decide)
  · intro g hGuard hReleased
    rcases h.fresh g hGuard hReleased with hNo | hLog
    · exact absurd (hEarly.symm.trans hNo) (by decide)
    · exact Or.inr hLog
  -- the supervisor was never spawned, so there is nothing to owe
  · have hSit := h.situation
    rw [hTask] at hSit
    show Situation _ s.task.stage
    rw [hTask]
    refine ⟨hSit.1, hSit.2.1, hSit.2.2.1, ?_, ?_⟩ <;> show c.phase ≠ _ <;> rw [hC] <;> decide

theorem Inv.spawn (h : Inv s) (hEarly : s.caller.phase = .early) :
    Inv { s with
      caller := .pollShutdown
      task := .checkClosed
      hasTx := true
      result := .fresh } := by
  have hTask : s.task = .unborn := h.born hEarly
  have hSit := h.situation
  rw [hTask] at hSit
  refine ⟨rfl, fun hNo => (nomatch hNo), fun hNo => (nomatch hNo), ?_, fun _ => rfl, fun _ => rfl,
    fun _ _ => rfl, ?_, ⟨hSit.1, hSit.2.1, ?_⟩⟩
  -- no result yet
  · have hResults := h.results
    rw [if_pos (Or.inr hTask)] at hResults
    rw [if_pos (Or.inl rfl)]
    exact hResults
  · intro g hGuard hReleased
    rcases h.fresh g hGuard hReleased with hNo | hLog
    · exact absurd (hEarly.symm.trans hNo) (by decide)
    · exact Or.inr hLog
  · exact ⟨fun hNo => (nomatch hNo), fun hNo => (nomatch hNo), fun hNo => (nomatch hNo)⟩

/-- The caller accepts: from here on it has the guard. -/
theorem Inv.accept (h : Inv s) (hCaller : s.caller = .accept) :
    Inv { s with
      accepted := s.accepted.map fun ch => (ch.send ()).2
      caller := .returned (.ok true) } := by
  have hHand : s.caller.phase = .hand := by rw [hCaller]; rfl
  refine ⟨h.tx, h.sound, fun hNo => (nomatch hNo), h.results, h.empty, fun hNo => (nomatch hNo),
    ?_, fun _ _ _ => Or.inl rfl, ?_⟩
  · intro hTx hRx
    exact absurd (hHand.symm.trans (h.heard hTx hRx)) (by decide)
  · have hSit := h.situation
    show Situation _ s.task.stage
    -- only the stage that offered the acquisition can have it in the caller's hands
    cases hSt : s.task.stage with
    | before =>
      rw [hSt] at hSit
      exact absurd hHand hSit.2.2.2.1
    | owed =>
      rw [hSt] at hSit
      exact absurd hHand hSit.2.2.1
    | settled =>
      rw [hSt] at hSit
      exact absurd hHand hSit.2.2.2.1
    | ended =>
      rw [hSt] at hSit
      rcases hSit with ⟨-, -, hNo, -⟩ | ⟨-, hNo, -⟩
      · exact absurd hHand hNo
      · exact absurd (hHand.symm.trans hNo) (by decide)
    | offered =>
      rw [hSt] at hSit
      obtain ⟨hq, ch, hCh, hOffered⟩ := hSit
      rw [hHand] at hOffered
      obtain ⟨hValue, rfl⟩ := hOffered
      refine ⟨hq, (Channel.send () .fresh).2, ?_, hValue, rfl⟩
      show s.accepted.map _ = _
      rw [hCh]
      rfl

/-- **Every step of the caller keeps the invariant.** -/
theorem Inv.callerStep (h : Inv s) (o : AcquireOptions) (v : View) (ready : Bool) :
    Inv (callerStep o v ready s) := by
  unfold Async.callerStep
  cases hCaller : s.caller with
  | begin =>
    have hCall := h.call (c := .checkTimeout) (by rw [hCaller]; rfl)
    exact ⟨hCall.tx, hCall.sound, hCall.born, hCall.results, hCall.empty, hCall.waits, hCall.heard,
      hCall.fresh, hCall.situation⟩
  | checkTimeout =>
    dsimp only
    have hEarly : s.caller.phase = .early := by rw [hCaller]; rfl
    split
    · exact (h.saw _ _ _).refuse hEarly rfl
    · exact (h.saw _ _ _).call hEarly.symm
  | admission =>
    have hEarly : s.caller.phase = .early := by rw [hCaller]; rfl
    dsimp only
    split
    · exact h.spawn hEarly
    · exact h.refuse hEarly rfl
  | pollShutdown =>
    have hWait : s.caller.phase = .waiting := by rw [hCaller]; rfl
    dsimp only
    split
    · refine (h.saw _ _ _).leave o v.now ?_ ?_ rfl <;>
        show s.caller.phase ≠ _ <;> rw [hWait] <;> decide
    · exact h.call hWait.symm
  | pollDeadline =>
    have hWait : s.caller.phase = .waiting := by rw [hCaller]; rfl
    dsimp only
    split
    · refine (h.saw _ _ _).leave o v.now ?_ ?_ rfl <;>
        show s.caller.phase ≠ _ <;> rw [hWait] <;> decide
    · exact h.call hWait.symm
  | pollResult =>
    have hWait : s.caller.phase = .waiting := by rw [hCaller]; rfl
    dsimp only
    split
    · split
      · exact h.take hWait ‹_› rfl
      · exact h.take hWait ‹_› rfl
      · exact h.take hWait ‹_› rfl
      · split
        · exact h.call hWait.symm
        · refine h.leave o v.now ?_ ?_ rfl <;> rw [hWait] <;> decide
    · exact h.call hWait.symm
  | parked => exact h.call (by rw [hCaller]; rfl)
  | checkDeadline got =>
    have hPhase : s.caller.phase = if got then .hand else .without := by rw [hCaller]; rfl
    dsimp only
    split
    · refine (h.saw _ _ _).leave o v.now ?_ ?_ rfl <;> show s.caller.phase ≠ _ <;> rw [hPhase] <;>
        cases got <;> decide
    · exact (h.saw _ _ _).call hPhase.symm
  | checkOpen got =>
    have hPhase : s.caller.phase = if got then .hand else .without := by rw [hCaller]; rfl
    dsimp only
    split
    · refine (h.saw _ _ _).call (Eq.trans ?_ hPhase.symm)
      cases got <;> rfl
    · refine (h.saw _ _ _).leave o v.now ?_ ?_ rfl <;> show s.caller.phase ≠ _ <;> rw [hPhase] <;>
        cases got <;> decide
  | checkLease =>
    have hHand : s.caller.phase = .hand := by rw [hCaller]; rfl
    dsimp only
    split
    · exact ((h.saw _ _ _).readLease v.now).call hHand.symm
    · refine ((h.saw _ _ _).readLease v.now).leave o v.now ?_ ?_ rfl <;> show s.caller.phase ≠ _ <;>
        rw [hHand] <;> decide
  | accept => exact h.accept hCaller
  | returned r => exact h
  | cancelled => exact h

-- ---------------------------------------------------------------------------
-- The supervisor
-- ---------------------------------------------------------------------------

/-- The supervisor returns without a word, which it may while it owes nothing. -/
theorem Inv.finish {t₀ : Task} (h : Inv s) (hTask : s.task = t₀) (hSit : Situation s .before)
    (hBorn : t₀ ≠ .unborn := by simp) : Inv s.finish := by
  rw [← hTask] at hBorn
  refine ⟨rfl, fun hNo => (nomatch hNo), ?_, ?_, fun hNo => (nomatch hNo), h.waits,
    fun hNo => (nomatch hNo), h.fresh, ?_⟩
  · intro hEarly
    exact absurd (h.born hEarly) hBorn
  · refine le_trans h.results ?_
    show (if _ then 0 else 1) ≤ if false = true ∨ Task.done = .unborn then 0 else 1
    split <;> simp
  · exact hSit.before_ended

/-- The acquisition is sent; when the caller is gone it comes back. -/
theorem Inv.handSend {start : Int} (h : Inv s) (o : AcquireOptions) (once : Bool) (v : View)
    (ready : Bool) (hTask : s.task = .handSend start) : Inv (taskStep o once v ready s) := by
  have hTx : s.hasTx = true := by
    rw [h.tx, hTask]
    rfl
  have hBorn : s.caller.phase ≠ .early := by
    intro hEarly
    have := h.born hEarly
    rw [hTask] at this
    cases this
  have hSit := h.situation
  rw [hTask] at hSit
  obtain ⟨hq, hValue, hHand, hHanded⟩ := hSit
  have hQuiet : Quiet (.result .acquisition :: s.log) :=
    hq.append [.result .acquisition] (by simp [Action.releases])
  have hOne : (Action.result .acquisition :: s.log).countP Action.isResult ≤ 1 := by
    have hZero := h.results
    rw [if_pos (Or.inl hTx)] at hZero
    rw [List.countP_cons_of_pos rfl, Nat.le_zero.mp hZero]
  -- a new guard is not released
  have hNewFresh : Fresh s.caller.phase (some (Guard.new o (Lease.new start o.effectiveTtl) start))
      (.result .acquisition :: s.log) := by
    intro g hGuard hReleased
    cases hGuard
    cases hReleased
  unfold taskStep
  rw [hTask]
  dsimp only
  rw [if_pos hTx]
  cases hRx : s.result.rxAlive with
  | true =>
    -- somebody is there to get it
    have hWait : s.caller.phase = .waiting := h.heard hTx hRx
    have hSend : s.result.send .acquisition =
        (none, { s.result with value := some .acquisition, txAlive := false }) := by
      unfold Channel.send
      rw [if_pos hRx]
    rw [hSend]
    refine ⟨rfl, fun hNo => (nomatch hNo), fun hEarly => absurd hEarly hBorn, hOne,
      fun hNo => (nomatch hNo), fun _ => hRx, fun hNo => (nomatch hNo), hNewFresh, ?_⟩
    refine ⟨hQuiet, .fresh, rfl, ?_⟩
    show Offered _ _ s.caller.phase
    rw [hWait]
    exact ⟨rfl, rfl⟩
  | false =>
    -- it comes back, and the supervisor still owes the release
    have hSend : s.result.send .acquisition =
        (some .acquisition, { s.result with txAlive := false }) := by
      unfold Channel.send
      rw [if_neg (by simp [hRx])]
    rw [hSend]
    refine ⟨rfl, fun hNo => (nomatch hNo), fun hEarly => absurd hEarly hBorn, hOne,
      fun hNo => (nomatch hNo), h.waits, fun hNo => (nomatch hNo), hNewFresh, ?_⟩
    exact ⟨hQuiet, hValue, hHand, hHanded⟩

theorem Situation.release (h : Situation s .owed) :
    Situation (s.note (.release true)) .settled :=
  ⟨List.mem_cons_self, settled_release _, h.2⟩

/-- The acceptance channel speaks: the caller has the guard, or dropped the acquisition and a
release is owed. -/
theorem Inv.awaitAccepted (h : Inv s) (o : AcquireOptions) (once : Bool) (v : View) (ready : Bool)
    (hTask : s.task = .awaitAccepted) (hEn : enabled v s (.task ready) = true) :
    Inv (taskStep o once v ready s) := by
  have hSit := h.situation
  rw [hTask] at hSit
  obtain ⟨hq, ch, hCh, hOffered⟩ := hSit
  simp only [enabled, hTask, hCh, Option.any_some] at hEn
  unfold taskStep
  rw [hTask]
  dsimp only
  simp only [hCh, Option.any_some, decide_eq_true_eq]
  -- what the channel says tells where the caller is
  cases hPhase : s.caller.phase with
  | early =>
    rw [hPhase] at hOffered
    exact hOffered.elim
  | waiting =>
    rw [hPhase] at hOffered
    obtain ⟨-, rfl⟩ := hOffered
    cases hEn
  | hand =>
    rw [hPhase] at hOffered
    obtain ⟨-, rfl⟩ := hOffered
    cases hEn
  | handed =>
    rw [hPhase] at hOffered
    rw [if_pos hOffered.2]
    exact h.move hTask (Or.inr ⟨hq, hPhase, hOffered.1⟩)
  | without =>
    rw [hPhase] at hOffered
    rw [if_neg (by simp [hOffered.2.1])]
    refine h.move hTask ⟨hq, hOffered.1, ?_, ?_⟩ <;>
      rw [hPhase] <;> decide

/-- The guard does not move the supervisor. -/
theorem guardStep_task {o : AcquireOptions} {now : Int} {e : GuardEvent} {t : Task}
    (hTask : s.task = t) : (s.guardStep o now e).task = t :=
  (State.guardStep_keeps o now e s).2.2.trans hTask

/-- **Every step of the supervisor keeps the invariant.** -/
theorem Inv.taskStep (h : Inv s) (o : AcquireOptions) (once : Bool) (v : View) (ready : Bool)
    (hEn : enabled v s (.task ready) = true) : Inv (taskStep o once v ready s) := by
  have hBorn : s.task ≠ .unborn := by
    intro hNo
    simp [enabled, hNo] at hEn
  cases hTask : s.task with
  | handSend start => exact h.handSend o once v ready hTask
  | awaitAccepted => exact h.awaitAccepted o once v ready hTask hEn
  | unborn => exact absurd hTask hBorn
  | checkClosed =>
    simp only [Async.taskStep, hTask]
    -- it still has its sender
    rw [if_pos (by rw [h.tx, hTask]; rfl)]
    split
    · exact h.goto hTask
    · exact h.finish hTask (h.situation_at hTask)
  | checkOpen =>
    simp only [Async.taskStep, hTask]
    split
    · exact (h.saw _ _ _).goto hTask
    · exact (h.saw _ _ _).say hTask ((h.saw _ _ _).situation_at hTask).before_ended
  | checkDeadline =>
    simp only [Async.taskStep, hTask]
    split
    · exact (h.saw _ _ _).say hTask ((h.saw _ _ _).situation_at hTask).before_ended
    · exact (h.saw _ _ _).goto hTask
  | stamp =>
    simp only [Async.taskStep, hTask]
    exact h.goto hTask
  | sending start =>
    simp only [Async.taskStep, hTask]
    exact (h.note ⟨rfl, rfl, rfl⟩).goto hTask
  | acquiring start =>
    simp [enabled, hTask] at hEn
  -- an error of the command: the cleanup is still to come
  | failing =>
    simp only [Async.taskStep, hTask]
    have hOwed : Situation s .owed := h.situation_at hTask
    exact h.say hTask hOwed
  | locking start =>
    simp only [Async.taskStep, hTask]
    exact h.goto hTask
  | handOpen start =>
    simp only [Async.taskStep, hTask]
    split
    · exact (h.saw _ _ _).goto hTask
    · exact (h.saw _ _ _).goto hTask
  | handDeadline start =>
    simp only [Async.taskStep, hTask]
    split
    · exact (h.saw _ _ _).goto hTask
    · exact (h.saw _ _ _).goto hTask
  | handLease start =>
    simp only [Async.taskStep, hTask]
    split
    · exact (h.saw _ _ _).goto hTask
    · exact (h.saw _ _ _).goto hTask
  | unlock handoff =>
    cases handoff with
    | sent =>
      simp only [Async.taskStep, hTask]
      exact h.goto hTask
    | rejected e =>
      simp only [Async.taskStep, hTask]
      exact h.goto hTask
    | abandoned =>
      simp only [Async.taskStep, hTask]
      exact h.goto hTask
  | reject e =>
    simp only [Async.taskStep, hTask]
    have hOwed : Situation s .owed := h.situation_at hTask
    exact h.say hTask hOwed
  | cleaning =>
    simp only [Async.taskStep, hTask]
    exact h.enter hTask (h.situation_at hTask).release
  | cleaned => simp [enabled, hTask] at hEn
  | releaseGuard =>
    simp only [Async.taskStep, hTask]
    split
    · -- an abandoned guard was never released
      rename_i hReleased
      obtain ⟨g, hGuard, hR⟩ : ∃ g, s.guard = some g ∧ g.isReleased = true := by
        cases hGuard : s.guard with
        | none => simp [hGuard] at hReleased
        | some g => exact ⟨g, rfl, by simpa [hGuard] using hReleased⟩
      obtain ⟨hq, -, -, hHanded⟩ := h.situation_at hTask
      rcases h.fresh g hGuard hR with hNo | hLog
      · exact absurd hNo hHanded
      · exact absurd (hq _ hLog) (by decide)
    · exact (h.guardStep o v.now .beginRelease nofun).goto (guardStep_task hTask)
  | guardStarting =>
    simp only [Async.taskStep, hTask]
    -- the release of the guard itself pays
    refine (h.enter (t := .guardReleasing) hTask (h.situation_at hTask).release).withGuard ?_
    intro g' hG' hReleased
    exact Or.inr List.mem_cons_self
  | guardReleasing => simp [enabled, hTask] at hEn
  | dropGuard =>
    simp only [Async.taskStep, hTask]
    have hDrop := h.guardStep o v.now .drop nofun
    have hSettled := hDrop.situation
    rw [guardStep_task hTask] at hSettled
    exact hDrop.move (guardStep_task hTask) (Or.inl hSettled.2)
  | contended =>
    simp only [Async.taskStep, hTask]
    split
    · exact h.say hTask (h.situation_at hTask).before_ended
    · exact h.goto hTask
  | retryClosed start =>
    simp only [Async.taskStep, hTask]
    rw [if_pos (by rw [h.tx, hTask]; rfl)]
    split
    · exact h.finish hTask (h.situation_at hTask)
    · exact h.goto hTask
  | retryShutdown start =>
    simp only [Async.taskStep, hTask]
    split
    · exact (h.saw _ _ _).say hTask ((h.saw _ _ _).situation_at hTask).before_ended
    · exact h.goto hTask
  | retryDeadline start =>
    simp only [Async.taskStep, hTask]
    split
    · exact (h.saw _ _ _).say hTask ((h.saw _ _ _).situation_at hTask).before_ended
    · exact h.goto hTask
  | retryTimer start =>
    simp only [Async.taskStep, hTask]
    split
    · exact h.goto hTask
    · exact h.goto hTask
  | retryParked start =>
    simp only [Async.taskStep, hTask]
    exact h.goto hTask
  | done => simp [enabled, hTask] at hEn
  | panicked => exact absurd hTask h.sound

/-- The reply of `acquire_lock` decides what the supervisor owes. -/
theorem Inv.acquireReplied (h : Inv s) (r : Reply) : Inv (acquireReplied r s) := by
  unfold Async.acquireReplied
  cases hTask : s.task with
  | acquiring start =>
    have hSit := h.situation
    rw [hTask] at hSit
    -- only contention owes nothing
    have hOwed : Situation (s.note (.reply start r)) .owed :=
      ⟨hSit.2.1.append [.reply start r] (by simp [Action.releases]), hSit.2.2⟩
    cases r with
    | acquired => exact h.enter hTask hOwed
    | contended => exact (h.note ⟨rfl, rfl, rfl⟩).goto hTask
    | error io => exact h.enter hTask hOwed
  | _ => exact h

/-- The reply to a release ends the supervisor, whatever it says. -/
theorem Inv.releaseReplied (h : Inv s) (o : AcquireOptions) (v : View) (ok : Bool) :
    Inv (releaseReplied o v ok s) := by
  unfold Async.releaseReplied
  have hSit := h.situation
  cases hTask : s.task with
  | cleaned =>
    rw [hTask] at hSit
    exact h.move hTask (Or.inl hSit.2)
  | guardReleasing =>
    rw [hTask] at hSit
    refine (h.goto (t := .dropGuard) hTask).withGuard ?_
    intro g' hG' hReleased
    exact Or.inr hSit.1
  | _ => exact h

/-- **Every event keeps the invariant.** -/
theorem Inv.step (h : Inv s) (o : AcquireOptions) (once : Bool) (v : View) {e : Event}
    (hEn : enabled v s e = true) : Inv (next o once v s e) := by
  cases e with
  | caller ready => exact h.callerStep o v ready
  | cancel =>
    have hParked : s.caller = .parked := by simpa [enabled] using hEn
    refine h.leave o v.now ?_ ?_ rfl <;> rw [hParked] <;> decide
  | task ready => exact h.taskStep o once v ready hEn
  | acquireReply r => exact h.acquireReplied r
  | releaseReply ok => exact h.releaseReplied o v ok
  | guard e =>
    -- only the owner of a guard that was handed out releases it
    have hOwner : e = .releaseReply true → s.caller.phase = .handed := by
      rintro rfl
      have hReturned : s.caller = .returned (.ok true) := by
        simpa [enabled, GuardEvent.byOwner] using (Bool.and_eq_true_iff.mp hEn).2
      rw [hReturned]
      rfl
    simp only [next]
    split
    · exact (h.note (a := .renewReply _ _) ⟨rfl, rfl, rfl⟩).guardStep o v.now _ hOwner
    · exact h.guardStep o v.now _ hOwner

end

-- ---------------------------------------------------------------------------
-- Neither orphaned nor stolen
-- ---------------------------------------------------------------------------

theorem inv_of_reachable {o : AcquireOptions} {once : Bool} {s : State}
    (h : (acquisition o once).Reachable s) : Inv s :=
  h.invariant (fun _ hInit => hInit ▸ inv_initial)
    fun _ e hInv hEn => hInv.step o once e.1 hEn

/-- The caller returned or was dropped, and the supervisor ended or was never
spawned. -/
def State.finished (s : State) : Prop :=
  (s.caller = .cancelled ∨ ∃ r, s.caller = .returned r) ∧ (s.task = .done ∨ s.task = .unborn)

/-- **No orphaned and no stolen acquisition.** The supervisor never unwraps a
missing sender, sends at most one result, and once both sides are finished every
reply that acquired the lock or failed went with a guard and no release, or with
a later release and no guard. -/
theorem supervised_not_orphaned {o : AcquireOptions} {once : Bool} {s : State}
    (hReachable : (acquisition o once).Reachable s) :
    s.task ≠ .panicked ∧ s.log.countP Action.isResult ≤ 1 ∧
      (s.finished → ∀ later start r earlier, s.log = later ++ .reply start r :: earlier →
        r ≠ .contended →
        (s.caller = .returned (.ok true) ∧ ∀ sent, .release sent ∉ s.log) ∨
          (s.caller ≠ .returned (.ok true) ∧ .release true ∈ later)) := by
  have hInv := inv_of_reachable hReachable
  refine ⟨hInv.sound, ?_, ?_⟩
  · refine le_trans hInv.results ?_
    split <;> omega
  · rintro ⟨-, hTask⟩ later start r earlier hLog hReply
    have hOwes : (Action.reply start r).owes risky = true := by
      cases r with
      | contended => exact absurd rfl hReply
      | _ => rfl
    -- if all debts are paid, there is a release after this reply
    have hSettled : Settled s.log ∧ Absent s.caller.phase s.result →
        s.caller ≠ .returned (.ok true) ∧ .release true ∈ later := by
      rintro ⟨hPaid, -, -, hHanded⟩
      refine ⟨fun hNo => hHanded (by rw [hNo]; rfl), ?_⟩
      obtain ⟨x, hx, rfl⟩ := hPaid later _ earlier hLog hOwes
      exact hx
    have hSit := hInv.situation
    rcases hTask with hTask | hTask
    -- the supervisor ended, or was never spawned
    · rw [hTask] at hSit
      rcases hSit with hs | ⟨hq, hHanded, -⟩
      · exact Or.inr (hSettled hs)
      · refine Or.inl ⟨Caller.handed_iff.mp hHanded, ?_⟩
        intro sent hMem
        exact absurd (hq _ hMem) (by simp [Action.releases])
    · rw [hTask] at hSit
      exact Or.inr (hSettled ⟨settled_of_clear hSit.1, hSit.2.2⟩)

/-- The caller is dropped while its command runs; the command then succeeds. -/
def droppedRun : List (View × Event) :=
  let steps : List Event :=
    [.caller true, .caller true, .caller true, .task true, .task true, .task true, .task true,
      .task true, .caller true, .caller true, .caller true, .cancel, .acquireReply .acquired,
      .task true, .task true, .task true, .task true, .task true, .task true, .task true,
      .task true, .releaseReply true, .task true]
  steps.map fun e => (⟨0, true, true⟩, e)

/-- What the run leads to. -/
def droppedEnd : State := ((acquisition .new false).exec .initial droppedRun).getD .initial

/-- The guard nobody took is released. -/
theorem supervised_not_orphaned_dropped :
    droppedEnd.finished ∧ droppedEnd.caller = .cancelled ∧ .release true ∈ droppedEnd.log := by
  have hExec : (acquisition .new false).exec .initial droppedRun = some droppedEnd := by
    decide +kernel
  have hReachable := Machine.reachable_of_exec (.init rfl) hExec
  have hCaller : droppedEnd.caller = .cancelled := by decide +kernel
  have hFinished : droppedEnd.finished := ⟨Or.inl hCaller, Or.inl (by decide +kernel)⟩
  have hLog : ∃ later earlier, droppedEnd.log = later ++ .reply 0 .acquired :: earlier := by
    have hMem : .reply 0 .acquired ∈ droppedEnd.log := by decide +kernel
    exact List.append_of_mem hMem
  obtain ⟨later, earlier, hLog⟩ := hLog
  refine ⟨hFinished, hCaller, ?_⟩
  obtain ⟨-, -, hEnds⟩ := supervised_not_orphaned hReachable
  rcases hEnds hFinished later 0 .acquired earlier hLog nofun with ⟨hNo, -⟩ | ⟨-, hRelease⟩
  · rw [hCaller] at hNo
    cases hNo
  · rw [hLog]
    exact List.mem_append_left _ hRelease

end RLock.Async
