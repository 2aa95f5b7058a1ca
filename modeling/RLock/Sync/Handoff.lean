import RLock.Sync.Acquire

/-!
# RLock — the sync handoff neither loses nor steals a lock

The caller re-checks a result after it received it and again after it accepted
it, so the guard can be dropped at three places: in the channel, in the caller's
hands before and after the acceptance. Each time its `Drop` offers a release.

The two sides are abstracted to how far they are: the caller to a `Phase`, the loop
with its worker to a `Stage`. `Situation` is what holds of the history, the guard and
the channels in each stage; in the stage `offered` it depends on the phase, and the
acceptance channel tells which it is (`Offered`). A guard that is not handed out yet
is intact: its drop offers a release, since nobody has used its sender.

There are three ways to settle what a reply left. After an I/O error the loop offers
a release to the queue, with room or without (`Queued`). A guard that is dropped offers
one. A late acquisition is released by the loop itself, on a connection of its own, and
there may be none; so the stage `down` remembers that the loop had turned it down
(`State.TurnedDown`).

A step is proved by how it moves: it stays within its stage (`Inv.goto`), enters
another one (`Inv.enter`, `Inv.move`), or passes the guard on (`Inv.take`, `Inv.leave`,
`Inv.accept`, `Inv.keep`, `Inv.returnInline`, `Inv.sendGuard`).

## Results

* `Inv.step` — every event of the acquisition keeps the invariant.
* `acquired_not_orphaned` — once both sides are finished, each reply that may have
  left the lock in Redis ended in a guard without a release, or in a release
  without a guard. After an I/O error that release was offered to the queue; it may
  stay unsent only when the loop turned a late acquisition down and the pool has no
  connection for it.
* `acquired_not_orphaned_unsent` — a run in which it stays unsent.
-/

namespace RLock.Sync

open RLock.Client

-- ---------------------------------------------------------------------------
-- Where the two sides stand
-- ---------------------------------------------------------------------------

/-- How far the caller is, as far as the worker cares. -/
inductive Phase
  | early | waiting | hand
  /-- accepted, the last check of the lease is next -/
  | last
  | handed | without
  deriving DecidableEq

/-- A caller with the result `m` in its hands. -/
def receivedPhase (m : Message) : Phase := if m = .acquisition then .hand else .without

/-- Where the guard is with a caller at `c`. A caller that times out may still have a result in its
hands. -/
def Caller.phase : Caller → Phase
  | .begin => .early
  | .checkZero => .early
  | .admission => .early
  | .spawning => .early
  | .receiving => .waiting
  | .inLoop => .waiting
  | .checkDeadline m => receivedPhase m
  | .timedOut m => m.elim .waiting receivedPhase
  | .leaving m => m.elim .waiting receivedPhase
  | .checkShutdown m => receivedPhase m
  | .checkLease m => receivedPhase m
  | .accept => .hand
  | .finalLease => .last
  | .returned (.ok got) => if got then .handed else .without
  | .returned (.error _) => .without

/-- The result of the loop was not handed on yet. -/
def Task.unsent : Task → Bool
  | .awaitAccepted => false
  | .cleanup => false
  | .cleaning => false
  | .done => false
  | _ => true

/-- What `acquire_loop` and the worker still have to see to. -/
inductive Stage
  /-- no reply that may have left the lock in Redis came yet -/
  | before
  /-- one came, and no release was issued yet -/
  | owed
  /-- the loop has turned the acquisition down, its release is next -/
  | down
  /-- the loop returned a guard -/
  | held
  /-- the acquisition went to the caller -/
  | offered
  /-- nothing is owed -/
  | settled
  | ended
  deriving DecidableEq

/-- The stage of a loop, or a worker, at `t`. -/
def Task.stage : Task → Stage
  | .ioError => .owed
  | .lateShutdown _ => .owed
  | .lateCanceled _ => .owed
  | .lateTimeout _ => .owed
  | .lateLease _ => .owed
  | .lateRelease _ => .down
  | .newGuard _ => .owed
  | .finished .acquisition => .held
  | .awaitAccepted => .offered
  | .lateReleasing _ => .settled
  | .finished _ => .settled
  | .cleanup => .settled
  | .cleaning => .settled
  | .done => .ended
  | _ => .before

/-- `GuardData::new` was not called yet. -/
def Stage.unmade : Stage → Bool
  | .before => true
  | .owed => true
  | .down => true
  | _ => false

/-- Only an I/O error can leave the command applied. -/
def risky (io : Bool) : Bool := io

/-- The loop made no guard of what it got: it saw the cancellation, or one of its checks
of the shutdown, the deadline and the lease failed. -/
def State.TurnedDown (s : State) : Prop :=
  s.guard = none ∧ (s.canceled = true ∨ ∃ check, .saw false check false ∈ s.log)

/-- A release is sent or offered to the queue; one that is tried without a connection
counts where the loop has turned the acquisition down. -/
def gives (down : Prop) (a : Action) : Prop :=
  a = .release true ∨ a = .offer ∨ a = .guard .offer ∨ a = .release false ∧ down

/-- Every risky reply was followed by a release. -/
def Settled (log : List Action) (down : Prop) : Prop :=
  Paid (fun a => a.owes risky = true) (gives down) log

/-- The command failed on its connection, so it may have been applied. -/
def failedReply (a : Action) : Prop := ∃ start, a = .reply start (.error true)

/-- After every such reply the loop offered a release to the queue. -/
def Queued (log : List Action) : Prop := Paid failedReply (· = .offer) log

/-- The caller has no guard and none waits for it. -/
def Absent (phase : Phase) (result : Channel Message) : Prop :=
  result.value ≠ some .acquisition ∧ phase ≠ .hand ∧ phase ≠ .last ∧ phase ≠ .handed

/-- Dropping the guard offers a release. -/
def Intact (guard : Option Guard) : Prop :=
  ∃ g, guard = some g ∧ g.hasSender = true ∧ g.isReleased = false

/-- The acceptance channel shows where the acquisition went. -/
def Offered (s : State) (ch : Channel Unit) : Phase → Prop
  | .early => False
  | .waiting => Quiet s.log ∧ Intact s.guard ∧ s.result.value = some .acquisition ∧ ch = .fresh
  | .hand => Quiet s.log ∧ Intact s.guard ∧ s.result.value ≠ some .acquisition ∧ ch = .fresh
  | .last =>
    Quiet s.log ∧ Intact s.guard ∧ s.result.value ≠ some .acquisition ∧ ch.value = some ()
  | .handed => Quiet s.log ∧ s.result.value ≠ some .acquisition ∧ ch.value = some ()
  | .without =>
    Settled s.log s.TurnedDown ∧ s.result.value ≠ some .acquisition ∧
      (ch.value = some () ∨ ch.txAlive = false)

/-- The caller keeps the guard, or is about to. -/
def Kept (s : State) : Prop :=
  Quiet s.log ∧ s.result.value ≠ some .acquisition ∧
    (s.caller.phase = .last ∧ Intact s.guard ∨ s.caller.phase = .handed)

/-- What holds in each stage. A finished request was settled, or its caller keeps the guard and
nobody released it. -/
def Situation (s : State) : Stage → Prop
  | .before => Clear risky s.log ∧ Quiet s.log ∧ Absent s.caller.phase s.result
  | .owed => Quiet s.log ∧ Absent s.caller.phase s.result
  | .down => s.TurnedDown ∧ Quiet s.log ∧ Absent s.caller.phase s.result
  | .held => Quiet s.log ∧ Intact s.guard ∧ Absent s.caller.phase s.result
  | .offered => ∃ ch, s.accepted = some ch ∧ Offered s ch s.caller.phase
  | .settled => Settled s.log s.TurnedDown ∧ Absent s.caller.phase s.result
  | .ended => (Settled s.log s.TurnedDown ∧ Absent s.caller.phase s.result) ∨ Kept s

/-- What every reachable acquisition satisfies. -/
structure Inv (s : State) : Prop where
  born : s.caller.phase = .early → s.task = .unborn
  empty : s.task.unsent = true → s.result.value = none
  waits : s.caller.phase = .waiting → s.result.rxAlive = true
  heard : s.task.unsent = true → s.task ≠ .unborn → s.result.rxAlive = true →
    s.caller.phase = .waiting
  unmade : s.task.stage.unmade = true → s.guard = none
  queued : s.task ≠ .ioError → Queued s.log
  situation : Situation s s.task.stage

theorem inv_initial : Inv .initial where
  born _ := rfl
  empty _ := rfl
  waits h := nomatch h
  heard _ h := absurd rfl h
  unmade _ := rfl
  queued _ := by
    refine Paid.of_no_debt ?_
    intro a ha
    cases ha
  situation := by
    refine ⟨?_, ?_, ?_⟩
    · intro a ha
      cases ha
    · intro a ha
      cases ha
    · exact ⟨by decide, by decide, by decide, by decide⟩

-- ---------------------------------------------------------------------------
-- Moves that leave the situation as it is
-- ---------------------------------------------------------------------------

/-- Entries that neither owe nor pay. -/
def neutral (a : Action) : Prop := a.owes risky = false ∧ a.releases = false

section

variable {s : State}

/-- What pays is still pay when more is allowed. -/
theorem Settled.mono {log : List Action} {down down' : Prop} (h : Settled log down)
    (hDown : down → down') : Settled log down' :=
  Paid.mono h fun _ hGives => hGives.imp_right (Or.imp_right (Or.imp_right (And.imp_right hDown)))

/-- An entry that makes no debt leaves the others paid. -/
theorem Settled.cons {log : List Action} {down down' : Prop} {a : Action} (h : Settled log down)
    (hA : a.owes risky = false) (hDown : down → down') : Settled (a :: log) down' := by
  refine Paid.cons (h.mono hDown) ?_
  rw [hA]
  exact Bool.false_ne_true

/-- Neutral entries leave the debts paid. -/
theorem Settled.append {log : List Action} {down down' : Prop} (h : Settled log down)
    (hDown : down → down') (new : List Action) (hNew : ∀ a ∈ new, neutral a) :
    Settled (new ++ log) down' := by
  induction new with
  | nil => exact h.mono hDown
  | cons a new ih =>
    have hRest := ih fun b hb => hNew b (List.mem_cons_of_mem a hb)
    exact hRest.cons (hNew a List.mem_cons_self).1 id

/-- An entry that owes nothing leaves the offers in place. -/
theorem Queued.cons {log : List Action} {a : Action} (h : Queued log)
    (hA : a.owes risky = false) : Queued (a :: log) := by
  refine Paid.cons h ?_
  rintro ⟨start, rfl⟩
  cases hA

theorem Queued.append {log : List Action} (h : Queued log) (new : List Action)
    (hNew : ∀ a ∈ new, neutral a) : Queued (new ++ log) := by
  induction new with
  | nil => exact h
  | cons a new ih =>
    have hRest := ih fun b hb => hNew b (List.mem_cons_of_mem a hb)
    exact hRest.cons (hNew a List.mem_cons_self).1

/-- What made the loop turn the acquisition down stays in the history. -/
theorem State.TurnedDown.append (h : s.TurnedDown) (new : List Action) :
    State.TurnedDown { s with log := new ++ s.log } :=
  ⟨h.1, h.2.imp_right fun ⟨check, hSaw⟩ => ⟨check, List.mem_append_right new hSaw⟩⟩

/-- Where there is no debt, all are paid. -/
theorem settled_of_clear {log : List Action} {down : Prop} (h : Clear risky log) :
    Settled log down := by
  refine Paid.of_no_debt ?_
  intro a ha
  rw [h a ha]
  exact Bool.false_ne_true

/-- A release pays for everything before it. -/
theorem settled_of_gives {a : Action} {down : Prop} (h : gives down a) (log : List Action) :
    Settled (a :: log) down := by
  refine Paid.of_pay h ?_
  rcases h with rfl | rfl | rfl | ⟨rfl, -⟩ <;> exact Bool.false_ne_true

/-- Neutral entries leave the situation as it is. -/
theorem Situation.append {st : Stage} (h : Situation s st) (new : List Action)
    (hNew : ∀ a ∈ new, neutral a) : Situation { s with log := new ++ s.log } st := by
  have hQuiet : Quiet s.log → Quiet (new ++ s.log) := fun hq =>
    hq.append new fun a ha => (hNew a ha).2
  cases st with
  | before => exact ⟨h.1.append new fun a ha => (hNew a ha).1, hQuiet h.2.1, h.2.2⟩
  | owed => exact ⟨hQuiet h.1, h.2⟩
  | down => exact ⟨h.1.append new, hQuiet h.2.1, h.2.2⟩
  | held => exact ⟨hQuiet h.1, h.2⟩
  | offered =>
    obtain ⟨ch, hCh, hOffered⟩ := h
    refine ⟨ch, hCh, ?_⟩
    show Offered _ ch s.caller.phase
    cases hPhase : s.caller.phase with
    | without =>
      rw [hPhase] at hOffered
      exact ⟨hOffered.1.append (fun h => h.append new) new hNew, hOffered.2⟩
    | early =>
      rw [hPhase] at hOffered
      exact hOffered
    | waiting | hand | last | handed =>
      rw [hPhase] at hOffered
      exact ⟨hQuiet hOffered.1, hOffered.2⟩
  | settled => exact ⟨h.1.append (fun h => h.append new) new hNew, h.2⟩
  | ended =>
    rcases h with ⟨hs, hAbsent⟩ | ⟨hq, hRest⟩
    · exact Or.inl ⟨hs.append (fun h => h.append new) new hNew, hAbsent⟩
    · exact Or.inr ⟨hQuiet hq, hRest⟩

theorem Inv.append (h : Inv s) (new : List Action) (hNew : ∀ a ∈ new, neutral a) :
    Inv { s with log := new ++ s.log } where
  born := h.born
  empty := h.empty
  waits := h.waits
  heard := h.heard
  unmade := h.unmade
  queued hT := (h.queued hT).append new hNew
  situation := h.situation.append new hNew

theorem Inv.note {a : Action} (h : Inv s) (hA : neutral a) : Inv (s.note a) := by
  refine h.append [a] ?_
  intro b hb
  rw [List.mem_singleton.mp hb]
  exact hA

theorem Inv.saw (h : Inv s) (caller : Bool) (c : Check) (p : Bool) :
    Inv (s.note (.saw caller c p)) :=
  h.note ⟨rfl, rfl⟩

/-- The situation of a loop at `t`. -/
theorem Inv.situation_at {t : Task} (h : Inv s) (hTask : s.task = t) : Situation s t.stage :=
  hTask ▸ h.situation

/-- The guard may change as long as dropping it still offers a release, or the
caller already has it. -/
theorem Inv.withGuard {g : Option Guard} (h : Inv s) (hNone : s.guard = none → g = none)
    (hG : s.caller.phase ≠ .handed → Intact s.guard → Intact g) : Inv { s with guard := g } := by
  have hDown : s.TurnedDown → State.TurnedDown { s with guard := g } := fun h => ⟨hNone h.1, h.2⟩
  refine ⟨h.born, h.empty, h.waits, h.heard, fun hU => hNone (h.unmade hU), h.queued, ?_⟩
  have hSit := h.situation
  show Situation _ s.task.stage
  cases hSt : s.task.stage with
  | before | owed =>
    rw [hSt] at hSit
    exact hSit
  | down =>
    rw [hSt] at hSit
    exact ⟨hDown hSit.1, hSit.2⟩
  | settled =>
    rw [hSt] at hSit
    exact ⟨hSit.1.mono hDown, hSit.2⟩
  | held =>
    rw [hSt] at hSit
    exact ⟨hSit.1, hG hSit.2.2.2.2.2 hSit.2.1, hSit.2.2⟩
  | offered =>
    rw [hSt] at hSit
    obtain ⟨ch, hCh, hOffered⟩ := hSit
    refine ⟨ch, hCh, ?_⟩
    show Offered _ ch s.caller.phase
    cases hPhase : s.caller.phase with
    | early | handed =>
      rw [hPhase] at hOffered
      exact hOffered
    | without =>
      rw [hPhase] at hOffered
      exact ⟨hOffered.1.mono hDown, hOffered.2⟩
    | waiting | hand | last =>
      rw [hPhase] at hOffered hG
      exact ⟨hOffered.1, hG (by decide) hOffered.2.1, hOffered.2.2⟩
  | ended =>
    rw [hSt] at hSit
    rcases hSit with ⟨hs, hAbsent⟩ | ⟨hq, hValue, ⟨hLast, hIntact⟩ | hHanded⟩
    · exact Or.inl ⟨hs.mono hDown, hAbsent⟩
    · exact Or.inr ⟨hq, hValue, Or.inl ⟨hLast, hG (by rw [hLast]; decide) hIntact⟩⟩
    · exact Or.inr ⟨hq, hValue, Or.inr hHanded⟩

/-- Reading the lease leaves the guard intact. -/
theorem Inv.readLease (h : Inv s) (now : Int) : Inv (s.readLease now) := by
  refine h.withGuard (fun hNone => by rw [hNone]; rfl) ?_
  rintro - ⟨g, hGuard, hSender, hReleased⟩
  exact ⟨{ g with lease := g.lease.refresh now }, by rw [hGuard]; rfl, hSender, hReleased⟩

/-- What a guard sends neither owes nor is a release of the loop. -/
theorem sent_neutral (g : Guard) (now : Int) (e : GuardEvent) :
    ∀ a ∈ (g.sent now e).toList.map Action.guard, neutral a := by
  intro a ha
  obtain ⟨x, -, rfl⟩ := List.mem_map.mp ha
  exact ⟨rfl, rfl⟩

/-- A guard event that its owner did not make, or of a handed guard. -/
theorem Inv.guardStep (h : Inv s) (o : AcquireOptions) (now : Int) (e : GuardEvent)
    (hE : e.byOwner = false ∨ s.caller.phase = .handed) : Inv (s.guardStep o now e) := by
  unfold State.guardStep
  split
  · exact h
  · rename_i g hGuard
    refine (h.append _ (sent_neutral g now e)).withGuard
      (fun hNone => absurd (hGuard.symm.trans hNone) (Option.some_ne_none g)) ?_
    rintro hHanded ⟨g', hG', hSender, hReleased⟩
    cases hGuard.symm.trans hG'
    rcases hE with hOther | hNo
    · obtain ⟨hS, hR⟩ := Guard.next_of_not_owner .sync o now g hOther
      exact ⟨_, rfl, hS.trans hSender, hR.trans hReleased⟩
    · exact absurd hNo hHanded

/-- The caller moves on without passing anything. -/
theorem Inv.call {c : Caller} (h : Inv s) (hPhase : c.phase = s.caller.phase) :
    Inv (s.call c) := by
  have hSit : Situation (s.call c) s.task.stage ↔ Situation s s.task.stage := by
    cases hStage : s.task.stage with
    | offered =>
      simp only [Situation, State.call, hPhase]
      refine exists_congr fun ch => and_congr_right fun _ => ?_
      cases s.caller.phase <;> exact Iff.rfl
    | _ => simp only [Situation, Kept, State.TurnedDown, State.call, hPhase]
  refine ⟨?_, h.empty, ?_, ?_, h.unmade, h.queued, hSit.mpr h.situation⟩
  · intro hEarly
    exact h.born (hPhase ▸ hEarly)
  · intro hWait
    exact h.waits (hPhase ▸ hWait)
  · intro hUnsent hBorn hRx
    show c.phase = .waiting
    rw [hPhase]
    exact h.heard hUnsent hBorn hRx

/-- The flag is set. It may be one more reason that the loop had. -/
theorem Inv.cancel (h : Inv s) : Inv { s with canceled := true } := by
  have hDown : s.TurnedDown → State.TurnedDown { s with canceled := true } := fun h =>
    ⟨h.1, Or.inl rfl⟩
  refine ⟨h.born, h.empty, h.waits, h.heard, h.unmade, h.queued, ?_⟩
  have hSit := h.situation
  show Situation _ s.task.stage
  cases hSt : s.task.stage with
  | before | owed | held =>
    rw [hSt] at hSit
    exact hSit
  | down =>
    rw [hSt] at hSit
    exact ⟨hDown hSit.1, hSit.2⟩
  | settled =>
    rw [hSt] at hSit
    exact ⟨hSit.1.mono hDown, hSit.2⟩
  | ended =>
    rw [hSt] at hSit
    exact hSit.imp_left fun hs => ⟨hs.1.mono hDown, hs.2⟩
  | offered =>
    rw [hSt] at hSit
    obtain ⟨ch, hCh, hOffered⟩ := hSit
    refine ⟨ch, hCh, ?_⟩
    show Offered _ ch s.caller.phase
    cases hPhase : s.caller.phase with
    | early | waiting | hand | last | handed =>
      rw [hPhase] at hOffered
      exact hOffered
    | without =>
      rw [hPhase] at hOffered
      exact ⟨hOffered.1.mono hDown, hOffered.2⟩

/-- The task moves on into a stage whose situation holds. -/
theorem Inv.move {t₀ t : Task} (h : Inv s) (hTask : s.task = t₀) (hSit : Situation s t.stage)
    (hUnsent : t.unsent = t₀.unsent := by rfl) (hBorn : t₀ ≠ .unborn := by simp)
    (hMade : t.stage.unmade = true → t₀.stage.unmade = true := by
      simp [Task.stage, Stage.unmade])
    (hIo : t₀ ≠ .ioError := by simp) : Inv (s.goto t) := by
  rw [← hTask] at hUnsent hBorn hMade hIo
  refine ⟨?_, ?_, h.waits, ?_, fun hU => h.unmade (hMade hU), fun _ => h.queued hIo, hSit⟩
  · intro hEarly
    exact absurd (h.born hEarly) hBorn
  · intro hT
    exact h.empty (hUnsent ▸ hT)
  · intro hT _ hRx
    exact h.heard (hUnsent ▸ hT) hBorn hRx

/-- The task moves on within its stage. -/
theorem Inv.goto {t₀ t : Task} (h : Inv s) (hTask : s.task = t₀)
    (hStage : t.stage = t₀.stage := by rfl) (hUnsent : t.unsent = t₀.unsent := by rfl)
    (hBorn : t₀ ≠ .unborn := by simp) (hIo : t₀ ≠ .ioError := by simp) : Inv (s.goto t) := by
  refine h.move hTask ?_ hUnsent hBorn (hStage ▸ id) hIo
  rw [hStage, ← hTask]
  exact h.situation

/-- An entry takes the task into another stage. -/
theorem Inv.enter {t₀ t : Task} {a : Action} (h : Inv s) (hTask : s.task = t₀)
    (hSit : Situation (s.note a) t.stage) (hQueued : t ≠ .ioError → Queued (a :: s.log))
    (hUnsent : t.unsent = t₀.unsent := by rfl)
    (hBorn : t₀ ≠ .unborn := by simp)
    (hMade : t.stage.unmade = true → t₀.stage.unmade = true := by
      simp [Task.stage, Stage.unmade]) : Inv ((s.note a).goto t) := by
  rw [← hTask] at hUnsent hBorn hMade
  refine ⟨?_, ?_, h.waits, ?_, fun hU => h.unmade (hMade hU), hQueued, hSit⟩
  · intro hEarly
    exact absurd (h.born hEarly) hBorn
  · intro hT
    exact h.empty (hUnsent ▸ hT)
  · intro hT _ hRx
    exact h.heard (hUnsent ▸ hT) hBorn hRx

-- ---------------------------------------------------------------------------
-- The result and the guard change hands
-- ---------------------------------------------------------------------------

/-- Only an acquisition puts a guard into the caller's hands. -/
theorem receivedPhase_eq_hand {m : Message} : receivedPhase m = .hand ↔ m = .acquisition := by
  unfold receivedPhase
  split <;> simp_all

/-- The model's test for a guard in the hands of the caller, as a phase. -/
theorem Caller.inHand_iff (c : Caller) : c.inHand = true ↔ c.phase = .hand ∨ c.phase = .last := by
  have hReceived : ∀ m, m = Message.acquisition ↔
      receivedPhase m = .hand ∨ receivedPhase m = .last := by
    intro m
    cases m <;> simp [receivedPhase]
  cases c with
  | checkDeadline m | checkShutdown m | checkLease m =>
    simpa [Caller.inHand, Caller.phase] using hReceived m
  | timedOut m | leaving m =>
    cases m with
    | none => simp [Caller.inHand, Caller.phase]
    | some m => simpa [Caller.inHand, Caller.phase] using hReceived m
  | returned r =>
    rcases r with e | got
    · simp [Caller.inHand, Caller.phase]
    · cases got <;> simp [Caller.inHand, Caller.phase]
  | _ => simp [Caller.inHand, Caller.phase]

theorem Caller.handed_iff {c : Caller} : c.phase = .handed ↔ c = .returned (.ok true) := by
  have hReceived : ∀ m, receivedPhase m ≠ .handed := by
    intro m
    cases m <;> simp [receivedPhase]
  cases c with
  | checkDeadline m | checkShutdown m | checkLease m => simp [Caller.phase, hReceived]
  | timedOut m | leaving m => cases m <;> simp [Caller.phase, hReceived]
  | returned r =>
    rcases r with e | got
    · simp [Caller.phase]
    · cases got <;> simp [Caller.phase]
  | _ => simp [Caller.phase]

/-- A caller without a guard drops nothing. -/
theorem Absent.not_holds (h : Absent s.caller.phase s.result) : s.callerHolds = false := by
  obtain ⟨hValue, hHand, hLast, -⟩ := h
  have hIn : s.caller.inHand ≠ true := by
    rw [Ne, Caller.inHand_iff]
    rintro (hNo | hNo)
    · exact hHand hNo
    · exact hLast hNo
  simp [State.callerHolds, hValue, hIn]

/-- A caller that has left has none, and none waits for it. -/
theorem absent_left (result : Channel Message) : Absent .without result.dropRx :=
  ⟨fun hNo => (nomatch hNo), by decide, by decide, by decide⟩

/-- Dropping an intact guard offers a release. -/
theorem guardStep_drop (o : AcquireOptions) (now : Int) (h : Intact s.guard) :
    ∃ g, s.guardStep o now .drop = { s with guard := some g, log := .guard .offer :: s.log } := by
  obtain ⟨g, hGuard, hSender, hReleased⟩ := h
  refine ⟨g.next .sync o now .drop, ?_⟩
  have hSent : g.sent now .drop = some .offer := by simp [Guard.sent, hSender, hReleased]
  unfold State.guardStep
  rw [hGuard]
  dsimp only
  rw [hSent]
  rfl

theorem Inv.leave_empty (h : Inv s) (o : AcquireOptions) (now : Int) (e : AcquireError)
    (hEarly : s.caller.phase ≠ .early) (hHanded : s.caller.phase ≠ .handed)
    (hHolds : s.callerHolds = false) : Inv (s.leave o now e) := by
  have hEq : s.leave o now e =
      { s with caller := .returned (.error e), result := s.result.dropRx } := by
    unfold State.leave
    rw [hHolds]
    rfl
  have hAbsent := absent_left s.result
  have hNotIn : s.result.value ≠ some .acquisition ∧ s.caller.phase ≠ .hand ∧
      s.caller.phase ≠ .last := by
    rw [State.callerHolds, Bool.or_eq_false_iff] at hHolds
    refine ⟨by simpa using hHolds.1, ?_, ?_⟩
    · intro hNo
      exact absurd ((Caller.inHand_iff _).mpr (Or.inl hNo)) (by simp [hHolds.2])
    · intro hNo
      exact absurd ((Caller.inHand_iff _).mpr (Or.inr hNo)) (by simp [hHolds.2])
  rw [hEq]
  refine ⟨fun hNo => (nomatch hNo), fun _ => rfl, fun hNo => (nomatch hNo),
    fun _ _ hNo => (nomatch hNo), h.unmade, h.queued, ?_⟩
  have hSit := h.situation
  show Situation _ s.task.stage
  cases hSt : s.task.stage with
  | before =>
    rw [hSt] at hSit
    exact ⟨hSit.1, hSit.2.1, hAbsent⟩
  | owed =>
    rw [hSt] at hSit
    exact ⟨hSit.1, hAbsent⟩
  | down =>
    rw [hSt] at hSit
    exact ⟨hSit.1, hSit.2.1, hAbsent⟩
  | held =>
    rw [hSt] at hSit
    exact ⟨hSit.1, hSit.2.1, hAbsent⟩
  | settled =>
    rw [hSt] at hSit
    exact ⟨hSit.1, hAbsent⟩
  | ended =>
    rw [hSt] at hSit
    rcases hSit with ⟨hs, -⟩ | ⟨-, -, ⟨hNo, -⟩ | hNo⟩
    · exact Or.inl ⟨hs, hAbsent⟩
    · exact absurd hNo hNotIn.2.2
    · exact absurd hNo hHanded
  | offered =>
    rw [hSt] at hSit
    obtain ⟨ch, hCh, hOffered⟩ := hSit
    refine ⟨ch, hCh, ?_⟩
    -- it has left before: any other phase would have it hold the guard
    cases hPhase : s.caller.phase with
    | early => exact absurd hPhase hEarly
    | handed => exact absurd hPhase hHanded
    | hand => exact absurd hPhase hNotIn.2.1
    | last => exact absurd hPhase hNotIn.2.2
    | waiting =>
      rw [hPhase] at hOffered
      exact absurd hOffered.2.2.1 hNotIn.1
    | without =>
      rw [hPhase] at hOffered
      exact ⟨hOffered.1, hAbsent.1, hOffered.2.2⟩

/-- The caller leaves and drops the guard, which offers a release. -/
theorem Inv.leave_drop (h : Inv s) (o : AcquireOptions) (now : Int) (e : AcquireError)
    (hEarly : s.caller.phase ≠ .early) (hHanded : s.caller.phase ≠ .handed)
    (hHolds : s.callerHolds = true) : Inv (s.leave o now e) := by
  have hNotAbsent : ¬Absent s.caller.phase s.result := by
    intro hNo
    rw [hNo.not_holds] at hHolds
    cases hHolds
  -- so the guard is on its way to the caller, and still intact
  have hCases : Intact s.guard ∧
      ((s.task.stage = .offered ∧ ∃ ch, s.accepted = some ch) ∨ s.task.stage = .ended) := by
    have hSit := h.situation
    cases hSt : s.task.stage with
    | before =>
      rw [hSt] at hSit
      exact absurd hSit.2.2 hNotAbsent
    | owed =>
      rw [hSt] at hSit
      exact absurd hSit.2 hNotAbsent
    | down =>
      rw [hSt] at hSit
      exact absurd hSit.2.2 hNotAbsent
    | held =>
      rw [hSt] at hSit
      exact absurd hSit.2.2 hNotAbsent
    | settled =>
      rw [hSt] at hSit
      exact absurd hSit.2 hNotAbsent
    | ended =>
      rw [hSt] at hSit
      rcases hSit with ⟨-, hNo⟩ | ⟨-, -, ⟨-, hIntact⟩ | hNo⟩
      · exact absurd hNo hNotAbsent
      · exact ⟨hIntact, Or.inr rfl⟩
      · exact absurd hNo hHanded
    | offered =>
      rw [hSt] at hSit
      obtain ⟨ch, hCh, hOffered⟩ := hSit
      cases hPhase : s.caller.phase with
      | early => exact absurd hPhase hEarly
      | handed => exact absurd hPhase hHanded
      | waiting =>
        rw [hPhase] at hOffered
        exact ⟨hOffered.2.1, Or.inl ⟨rfl, ch, hCh⟩⟩
      | hand =>
        rw [hPhase] at hOffered
        exact ⟨hOffered.2.1, Or.inl ⟨rfl, ch, hCh⟩⟩
      | last =>
        rw [hPhase] at hOffered
        exact ⟨hOffered.2.1, Or.inl ⟨rfl, ch, hCh⟩⟩
      | without =>
        rw [hPhase] at hOffered
        refine absurd ⟨hOffered.2.1, ?_⟩ hNotAbsent
        rw [hPhase]
        decide
  obtain ⟨hIntact, hStage⟩ := hCases
  obtain ⟨g, hDrop⟩ := guardStep_drop o now hIntact
  have hEq : s.leave o now e =
      { s with
        caller := .returned (.error e)
        result := s.result.dropRx
        accepted := s.accepted.map Channel.dropTx
        guard := some g
        log := .guard .offer :: s.log } := by
    unfold State.leave State.dropAcquisition
    rw [hHolds, hDrop]
    rfl
  -- the offer of the drop pays for everything before it
  have hSettled : ∀ down, Settled (.guard .offer :: s.log) down := fun _ =>
    settled_of_gives (Or.inr (Or.inr (Or.inl rfl))) _
  have hMade : s.task.stage.unmade ≠ true := by
    rcases hStage with ⟨hSt, -⟩ | hSt <;> rw [hSt] <;> exact Bool.false_ne_true
  rw [hEq]
  refine ⟨fun hNo => (nomatch hNo), fun _ => rfl, fun hNo => (nomatch hNo),
    fun _ _ hNo => (nomatch hNo), fun hU => absurd hU hMade, fun hT => (h.queued hT).cons rfl, ?_⟩
  show Situation _ s.task.stage
  rcases hStage with ⟨hSt, ch, hCh⟩ | hSt
  · rw [hSt]
    refine ⟨ch.dropTx, by rw [hCh]; rfl, hSettled _, fun hNo => (nomatch hNo), Or.inr rfl⟩
  · rw [hSt]
    exact Or.inl ⟨hSettled _, absent_left _⟩

/-- The caller ends without a guard. -/
theorem Inv.leave (h : Inv s) (o : AcquireOptions) (now : Int) (e : AcquireError)
    (hEarly : s.caller.phase ≠ .early) (hHanded : s.caller.phase ≠ .handed) :
    Inv (s.leave o now e) := by
  cases hHolds : s.callerHolds with
  | true => exact h.leave_drop o now e hEarly hHanded hHolds
  | false => exact h.leave_empty o now e hEarly hHanded hHolds

/-- The caller takes a result out of the channel. -/
theorem Inv.take {m : Message} (h : Inv s) (hWait : s.caller.phase = .waiting)
    (hValue : s.result.value = some m) :
    Inv { s with result := s.result.take, caller := .checkDeadline m } := by
  -- a message in the channel was sent by the worker
  have hSent : s.task.unsent ≠ true := by
    intro hUnsent
    rw [h.empty hUnsent] at hValue
    cases hValue
  have hPhase : ∀ p, p = .early ∨ p = .waiting ∨ p = .last ∨ p = .handed → receivedPhase m ≠ p := by
    rintro p (rfl | rfl | rfl | rfl) <;> unfold receivedPhase <;> split <;> decide
  have hNone : ∀ m', s.result.take.value ≠ some m' := fun _ hNo => (nomatch hNo)
  refine ⟨fun hNo => absurd hNo (hPhase _ (by simp)), fun _ => rfl,
    fun hNo => absurd hNo (hPhase _ (by simp)), fun hNo => absurd hNo hSent, h.unmade,
    h.queued, ?_⟩
  have hAbsent : Absent s.caller.phase s.result → Absent (receivedPhase m) s.result.take := by
    rintro ⟨hNot, -⟩
    have hM : m ≠ .acquisition := fun hM => hNot (hM ▸ hValue)
    exact ⟨hNone _, fun hNo => hM (receivedPhase_eq_hand.mp hNo), hPhase _ (by simp),
      hPhase _ (by simp)⟩
  have hSit := h.situation
  show Situation _ s.task.stage
  cases hSt : s.task.stage with
  | before =>
    rw [hSt] at hSit
    exact ⟨hSit.1, hSit.2.1, hAbsent hSit.2.2⟩
  | owed =>
    rw [hSt] at hSit
    exact ⟨hSit.1, hAbsent hSit.2⟩
  | down =>
    rw [hSt] at hSit
    exact ⟨hSit.1, hSit.2.1, hAbsent hSit.2.2⟩
  | held =>
    rw [hSt] at hSit
    exact ⟨hSit.1, hSit.2.1, hAbsent hSit.2.2⟩
  | settled =>
    rw [hSt] at hSit
    exact ⟨hSit.1, hAbsent hSit.2⟩
  | ended =>
    rw [hSt] at hSit
    rcases hSit with ⟨hs, hA⟩ | ⟨-, -, ⟨hNo, -⟩ | hNo⟩
    · exact Or.inl ⟨hs, hAbsent hA⟩
    · exact absurd (hWait.symm.trans hNo) (by decide)
    · exact absurd (hWait.symm.trans hNo) (by decide)
  | offered =>
    rw [hSt] at hSit
    obtain ⟨ch, hCh, hOffered⟩ := hSit
    rw [hWait] at hOffered
    -- only in this stage can the message be an acquisition
    obtain ⟨hq, hIntact, hAcq, rfl⟩ := hOffered
    have hM : receivedPhase m = .hand :=
      receivedPhase_eq_hand.mpr (Option.some.inj (hValue.symm.trans hAcq))
    refine ⟨.fresh, hCh, ?_⟩
    show Offered _ _ (receivedPhase m)
    rw [hM]
    exact ⟨hq, hIntact, hNone _, rfl⟩

/-- The caller gives up before the request exists, or is about to start it. -/
theorem Inv.refuse {e : AcquireError} (h : Inv s) (hEarly : s.caller.phase = .early) :
    Inv (s.call (.returned (.error e))) := by
  have hTask : s.task = .unborn := h.born hEarly
  refine ⟨fun _ => hTask, h.empty, fun hNo => (nomatch hNo), fun _ hNo => absurd hTask hNo,
    h.unmade, h.queued, ?_⟩
  have hSit := h.situation
  rw [hTask] at hSit
  show Situation _ s.task.stage
  rw [hTask]
  refine ⟨hSit.1, hSit.2.1, hSit.2.2.1, ?_, ?_, ?_⟩ <;> exact fun hNo => (nomatch hNo)

/-- The loop starts, on a worker thread or in the caller. -/
theorem Inv.spawn {c : Caller} (h : Inv s) (hEarly : s.caller.phase = .early)
    (hC : c.phase = .waiting) :
    Inv { s with caller := c, task := .loopCanceled, result := .fresh } := by
  have hSit := h.situation
  have hMade : s.guard = none := h.unmade (by rw [h.born hEarly]; rfl)
  have hQueued : Queued s.log := h.queued (by simp [h.born hEarly])
  rw [h.born hEarly] at hSit
  refine ⟨fun hNo => absurd (hC.symm.trans hNo) (by decide), fun _ => rfl, fun _ => rfl,
    fun _ _ _ => hC, fun _ => hMade, fun _ => hQueued, hSit.1, hSit.2.1,
    fun hNo => (nomatch hNo), ?_, ?_, ?_⟩ <;>
    exact fun hNo => absurd (hC.symm.trans hNo) (by decide)

/-- The caller accepts; the check of the lease is still to come. -/
theorem Inv.accept (h : Inv s) (hCaller : s.caller = .accept) :
    Inv { s with
      accepted := s.accepted.map fun ch => (ch.send ()).2
      caller := .finalLease } := by
  have hHand : s.caller.phase = .hand := by rw [hCaller]; rfl
  have hSit := h.situation
  refine ⟨fun hNo => (nomatch hNo), h.empty, fun hNo => (nomatch hNo), ?_, h.unmade, h.queued, ?_⟩
  · intro hUnsent hBorn hRx
    exact absurd (hHand.symm.trans (h.heard hUnsent hBorn hRx)) (by decide)
  · show Situation _ s.task.stage
    -- only the stage that offered the acquisition can have it in the caller's hands
    cases hSt : s.task.stage with
    | before =>
      rw [hSt] at hSit
      exact absurd hHand hSit.2.2.2.1
    | owed =>
      rw [hSt] at hSit
      exact absurd hHand hSit.2.2.1
    | down =>
      rw [hSt] at hSit
      exact absurd hHand hSit.2.2.2.1
    | held =>
      rw [hSt] at hSit
      exact absurd hHand hSit.2.2.2.1
    | settled =>
      rw [hSt] at hSit
      exact absurd hHand hSit.2.2.1
    | ended =>
      rw [hSt] at hSit
      rcases hSit with ⟨-, -, hNo, -⟩ | ⟨-, -, ⟨hNo, -⟩ | hNo⟩
      · exact absurd hHand hNo
      · exact absurd (hHand.symm.trans hNo) (by decide)
      · exact absurd (hHand.symm.trans hNo) (by decide)
    | offered =>
      rw [hSt] at hSit
      obtain ⟨ch, hCh, hOffered⟩ := hSit
      rw [hHand] at hOffered
      obtain ⟨hq, hIntact, hValue, rfl⟩ := hOffered
      refine ⟨(Channel.send () .fresh).2, ?_, hq, hIntact, hValue, rfl⟩
      show s.accepted.map _ = _
      rw [hCh]
      rfl

/-- The last check passed: the caller returns the guard. -/
theorem Inv.keep (h : Inv s) (hLast : s.caller.phase = .last) :
    Inv (s.call (.returned (.ok true))) := by
  have hSit := h.situation
  refine ⟨fun hNo => (nomatch hNo), h.empty, fun hNo => (nomatch hNo), ?_, h.unmade, h.queued, ?_⟩
  · intro hUnsent hBorn hRx
    exact absurd (hLast.symm.trans (h.heard hUnsent hBorn hRx)) (by decide)
  · show Situation _ s.task.stage
    cases hSt : s.task.stage with
    | before =>
      rw [hSt] at hSit
      exact absurd hLast hSit.2.2.2.2.1
    | owed =>
      rw [hSt] at hSit
      exact absurd hLast hSit.2.2.2.1
    | down =>
      rw [hSt] at hSit
      exact absurd hLast hSit.2.2.2.2.1
    | held =>
      rw [hSt] at hSit
      exact absurd hLast hSit.2.2.2.2.1
    | settled =>
      rw [hSt] at hSit
      exact absurd hLast hSit.2.2.2.1
    | ended =>
      rw [hSt] at hSit
      rcases hSit with ⟨-, -, -, hNo, -⟩ | ⟨hq, hValue, -⟩
      · exact absurd hLast hNo
      -- the worker has seen it, or the loop ran in the caller
      · exact Or.inr ⟨hq, hValue, Or.inr rfl⟩
    -- the worker has not seen the acceptance yet
    | offered =>
      rw [hSt] at hSit
      obtain ⟨ch, hCh, hOffered⟩ := hSit
      rw [hLast] at hOffered
      exact ⟨ch, hCh, hOffered.1, hOffered.2.2.1, hOffered.2.2.2⟩

/-- Without a worker thread the caller takes the result of the loop itself. -/
theorem Inv.returnInline (h : Inv s) {m : Message} {c : Caller} (hTask : s.task = .finished m)
    (hC : c.phase = if m = .acquisition then .last else .without) :
    Inv { s with task := .done, caller := c } := by
  have hValue : s.result.value = none := h.empty (by rw [hTask]; rfl)
  have hNone : s.result.value ≠ some .acquisition := by simp [hValue]
  have hSit := h.situation
  rw [hTask] at hSit
  refine ⟨?_, fun _ => hValue, ?_, fun hNo => (nomatch hNo), fun hNo => (nomatch hNo),
    fun _ => h.queued (by simp [hTask]), ?_⟩
  · intro hNo
    refine absurd (hC.symm.trans hNo) ?_
    split <;> decide
  · intro hNo
    refine absurd (hC.symm.trans hNo) ?_
    split <;> decide
  · have hSettled : m ≠ .acquisition → Settled s.log s.TurnedDown →
        Situation { s with task := .done, caller := c } .ended := by
      intro hM hs
      rw [if_neg hM] at hC
      refine Or.inl ⟨hs, hNone, ?_, ?_, ?_⟩ <;> show c.phase ≠ _ <;> rw [hC] <;> decide
    cases m with
    -- the guard is intact, and the last check is still to come
    | acquisition => exact Or.inr ⟨hSit.1, hNone, Or.inl ⟨hC, hSit.2.1⟩⟩
    | nothing => exact hSettled (by simp) hSit.1
    | failed e => exact hSettled (by simp) hSit.1

/-- **Every step of the caller keeps the invariant.** -/
theorem Inv.callerStep (h : Inv s) (o : AcquireOptions) (v : View) {ok : Bool} :
    Inv (callerStep o v ok s) := by
  have hReceived : ∀ m, receivedPhase m ≠ .early ∧ receivedPhase m ≠ .handed := by
    intro m
    cases m <;> simp [receivedPhase]
  unfold Sync.callerStep
  cases hCaller : s.caller with
  | begin =>
    have hCall := h.call (c := .checkZero) (by rw [hCaller]; rfl)
    exact ⟨hCall.born, hCall.empty, hCall.waits, hCall.heard, hCall.unmade, hCall.queued,
      hCall.situation⟩
  | checkZero =>
    have hEarly : s.caller.phase = .early := by rw [hCaller]; rfl
    dsimp only
    split
    · exact (h.saw _ _ _).refuse hEarly
    · exact (h.saw _ _ _).call hEarly.symm
  | admission =>
    have hEarly : s.caller.phase = .early := by rw [hCaller]; rfl
    dsimp only
    split
    · split
      · exact h.call hEarly.symm
      · exact h.spawn hEarly rfl
    · exact h.refuse hEarly
  | spawning =>
    have hEarly : s.caller.phase = .early := by rw [hCaller]; rfl
    dsimp only
    split
    · exact h.spawn hEarly rfl
    · exact h.refuse hEarly
  | receiving =>
    have hWait : s.caller.phase = .waiting := by rw [hCaller]; rfl
    dsimp only
    split
    · split
      · exact h.take hWait ‹_›
      · refine h.leave o v.now _ ?_ ?_ <;> rw [hWait] <;> decide
    · exact (h.saw _ _ _).call hWait.symm
  | inLoop =>
    dsimp only
    split
    · exact h.returnInline ‹_› rfl
    · exact h.returnInline ‹_› rfl
    · exact h.returnInline ‹_› rfl
    · exact h
  | checkDeadline m =>
    have hPhase : s.caller.phase = receivedPhase m := by rw [hCaller]; rfl
    dsimp only
    split
    · exact (h.saw _ _ _).call hPhase.symm
    · exact (h.saw _ _ _).call hPhase.symm
  | timedOut m =>
    exact (h.call (c := .leaving m) (by rw [hCaller]; rfl)).cancel
  | leaving m =>
    have hPhase : s.caller.phase = m.elim .waiting receivedPhase := by rw [hCaller]; rfl
    dsimp only
    cases m with
    | none => refine h.leave o v.now _ ?_ ?_ <;> rw [hPhase] <;> decide
    | some m =>
      refine h.leave o v.now _ ?_ ?_ <;> rw [hPhase]
      · exact (hReceived m).1
      · exact (hReceived m).2
  | checkShutdown m =>
    have hPhase : s.caller.phase = receivedPhase m := by rw [hCaller]; rfl
    dsimp only
    split
    · exact (h.saw _ _ _).call hPhase.symm
    · refine (h.saw _ _ _).leave o v.now _ ?_ ?_ <;> show s.caller.phase ≠ _ <;> rw [hPhase]
      · exact (hReceived m).1
      · exact (hReceived m).2
  | checkLease m =>
    have hPhase : s.caller.phase = receivedPhase m := by rw [hCaller]; rfl
    cases m with
    | failed e => exact h.call hPhase.symm
    | nothing => exact h.call hPhase.symm
    | acquisition =>
      dsimp only
      split
      · exact ((h.saw _ _ _).readLease v.now).call hPhase.symm
      · refine ((h.saw _ _ _).readLease v.now).leave o v.now _ ?_ ?_ <;> show s.caller.phase ≠ _ <;>
          rw [hPhase] <;> decide
  | accept => exact h.accept hCaller
  | finalLease =>
    have hLast : s.caller.phase = .last := by rw [hCaller]; rfl
    dsimp only
    split
    · exact ((h.saw _ _ _).readLease v.now).keep hLast
    · refine ((h.saw _ _ _).readLease v.now).leave o v.now _ ?_ ?_ <;> show s.caller.phase ≠ _ <;>
        rw [hLast] <;> decide
  | returned r => exact h

-- ---------------------------------------------------------------------------
-- The loop and the worker
-- ---------------------------------------------------------------------------

/-- A loop that ends before any such reply leaves nothing behind. -/
theorem Situation.settle (h : Situation s .before) : Situation s .settled :=
  ⟨settled_of_clear h.1, h.2.2⟩

/-- An offer settles what the loop owes after an I/O error. -/
theorem Situation.offer (h : Situation s .owed) : Situation (s.note .offer) .settled :=
  ⟨settled_of_gives (Or.inr (Or.inl rfl)) _, h.2⟩

/-- An offer answers everything before it. -/
theorem queued_offer (log : List Action) : Queued (.offer :: log) := by
  refine Paid.of_pay rfl ?_
  rintro ⟨start, hNo⟩
  cases hNo

/-- A release settles it once the acquisition was turned down, even when it finds no
connection. -/
theorem Situation.release (h : Situation s .down) (sent : Bool) :
    Situation (s.note (.release sent)) .settled := by
  refine ⟨settled_of_gives ?_ _, h.2.2⟩
  cases sent with
  | true => exact Or.inl rfl
  | false => exact Or.inr (Or.inr (Or.inr ⟨rfl, h.1.append [.release false]⟩))

/-- A check that fails turns the acquisition down. -/
theorem Situation.turnDown (h : Situation s .owed) (hMade : s.guard = none)
    (hWhy : s.canceled = true ∨ ∃ check, .saw false check false ∈ s.log) : Situation s .down :=
  ⟨⟨hMade, hWhy⟩, h⟩

/-- `GuardData::new`; without its thread the guard is dropped at once. -/
theorem Inv.newGuard {start : Int} (h : Inv s) (o : AcquireOptions) (once : Bool) (v : View)
    (ok : Bool) (hTask : s.task = .newGuard start) : Inv (taskStep o once v ok s) := by
  have hSit := h.situation
  rw [hTask] at hSit
  have hEmpty : s.result.value = none := h.empty (by rw [hTask]; rfl)
  have hBorn : s.caller.phase ≠ .early := by
    intro hEarly
    have hNo := h.born hEarly
    rw [hTask] at hNo
    cases hNo
  have hHeard : s.result.rxAlive = true → s.caller.phase = .waiting :=
    h.heard (by rw [hTask]; rfl) (by simp [hTask])
  have hQueued : Queued s.log := h.queued (by simp [hTask])
  simp only [taskStep, hTask]
  split
  · refine ⟨fun hEarly => absurd hEarly hBorn, fun _ => hEmpty, h.waits, fun _ _ => hHeard,
      fun hNo => (nomatch hNo), fun _ => hQueued, ?_⟩
    exact ⟨hSit.1, ⟨_, rfl, rfl, rfl⟩, hSit.2⟩
  -- the thread could not be spawned, so the guard is dropped where it was made
  · obtain ⟨g, hDrop⟩ := guardStep_drop o v.now
      (s := { s with
        task := .newGuard start
        guard := some (Guard.unspawned o (Lease.new start o.effectiveTtl) start) })
      ⟨_, rfl, rfl, rfl⟩
    rw [hDrop]
    refine ⟨fun hEarly => absurd hEarly hBorn, fun _ => hEmpty, h.waits, fun _ _ => hHeard,
      fun hNo => (nomatch hNo), fun _ => hQueued.cons rfl, ?_⟩
    exact ⟨settled_of_gives (Or.inr (Or.inr (Or.inl rfl))) _, hSit.2⟩

/-- The worker sends the guard; when the caller is gone it is dropped. -/
theorem Inv.sendGuard (h : Inv s) (o : AcquireOptions) (once : Bool) (v : View) (ok : Bool)
    (hTask : s.task = .finished .acquisition) : Inv (taskStep o once v ok s) := by
  have hSit := h.situation
  rw [hTask] at hSit
  obtain ⟨hq, hIntact, hAbsent⟩ := hSit
  have hEmpty : s.result.value = none := h.empty (by rw [hTask]; rfl)
  have hBorn : s.caller.phase ≠ .early := by
    intro hEarly
    have hNo := h.born hEarly
    rw [hTask] at hNo
    cases hNo
  have hQueued : Queued s.log := h.queued (by simp [hTask])
  simp only [taskStep, hTask]
  split
  · rename_i hRx
    -- somebody is there to get it
    have hWait : s.caller.phase = .waiting := h.heard (by rw [hTask]; rfl) (by simp [hTask]) hRx
    have hSend : (s.result.send .acquisition).2 =
        { s.result with value := some .acquisition, txAlive := false } := by
      unfold Channel.send
      rw [if_pos hRx]
    rw [hSend]
    refine ⟨fun hEarly => absurd hEarly hBorn, fun hNo => (nomatch hNo), fun _ => hRx,
      fun hNo => (nomatch hNo), fun hNo => (nomatch hNo), fun _ => hQueued.cons rfl, .fresh, rfl,
      ?_⟩
    show Offered _ _ s.caller.phase
    rw [hWait]
    exact ⟨hq.append [.result .acquisition] (by simp [Action.releases]), hIntact, rfl, rfl⟩
  -- nobody is there: the drop offers a release
  · have hNoted : Intact (s.note (.result .acquisition)).guard := hIntact
    obtain ⟨g, hDrop⟩ := guardStep_drop o v.now hNoted
    rw [hDrop]
    refine ⟨fun hEarly => absurd hEarly hBorn, fun hNo => (nomatch hNo), h.waits,
      fun hNo => (nomatch hNo), fun hNo => (nomatch hNo),
      fun _ => (hQueued.cons rfl).cons rfl, ?_⟩
    exact ⟨settled_of_gives (Or.inr (Or.inr (Or.inl rfl))) _, hAbsent⟩

/-- The worker sends a result without a guard. -/
theorem Inv.sendResult {m : Message} (h : Inv s) (hTask : s.task = .finished m)
    (hM : m ≠ .acquisition) :
    Inv { s with result := (s.result.send m).2, log := .result m :: s.log, task := .done } := by
  have hSit := h.situation
  have hStage : s.task.stage = .settled := by
    rw [hTask]
    cases m with
    | acquisition => exact absurd rfl hM
    | nothing => rfl
    | failed e => rfl
  rw [hStage] at hSit
  obtain ⟨hs, hValue, hPhase⟩ := hSit
  have hRx : (s.result.send m).2.rxAlive = s.result.rxAlive := by
    unfold Channel.send
    split <;> rfl
  refine ⟨?_, fun hNo => (nomatch hNo), ?_, fun hNo => (nomatch hNo), fun hNo => (nomatch hNo),
    fun _ => (h.queued (by simp [hTask])).cons rfl, ?_⟩
  · intro hEarly
    have hNo := h.born hEarly
    rw [hTask] at hNo
    cases hNo
  · intro hWait
    show (s.result.send m).2.rxAlive = true
    rw [hRx]
    exact h.waits hWait
  · refine Or.inl ⟨hs.cons rfl fun h => h.append [.result m], ?_, hPhase⟩
    show (s.result.send m).2.value ≠ _
    unfold Channel.send
    split
    · simpa using hM
    · exact hValue

/-- The acceptance channel speaks: the caller took the guard, or has dropped it, which paid. -/
theorem Inv.awaitAccepted (h : Inv s) (o : AcquireOptions) (once : Bool) (v : View) {ok : Bool}
    (hTask : s.task = .awaitAccepted) (hEn : enabled o v s (.task ok) = true) :
    Inv (taskStep o once v ok s) := by
  have hSit := h.situation
  rw [hTask] at hSit
  obtain ⟨ch, hCh, hOffered⟩ := hSit
  simp only [enabled, hTask, hCh, Option.any_some] at hEn
  simp only [taskStep, hTask, hCh, Option.any_some, decide_eq_true_eq]
  -- what the channel says tells where the caller is
  cases hPhase : s.caller.phase with
  | early =>
    rw [hPhase] at hOffered
    exact hOffered.elim
  | waiting =>
    rw [hPhase] at hOffered
    obtain ⟨-, -, -, rfl⟩ := hOffered
    cases hEn
  | hand =>
    rw [hPhase] at hOffered
    obtain ⟨-, -, -, rfl⟩ := hOffered
    cases hEn
  | last =>
    rw [hPhase] at hOffered
    obtain ⟨hq, hIntact, hValue, hSent⟩ := hOffered
    rw [if_pos hSent]
    exact h.move hTask (Or.inr ⟨hq, hValue, Or.inl ⟨hPhase, hIntact⟩⟩)
  | handed =>
    rw [hPhase] at hOffered
    obtain ⟨hq, hValue, hSent⟩ := hOffered
    rw [if_pos hSent]
    exact h.move hTask (Or.inr ⟨hq, hValue, Or.inr hPhase⟩)
  | without =>
    rw [hPhase] at hOffered
    obtain ⟨hs, hValue, -⟩ := hOffered
    have hAbsent : Absent s.caller.phase s.result := by
      refine ⟨hValue, ?_, ?_, ?_⟩ <;> rw [hPhase] <;> decide
    split
    · exact h.move hTask (Or.inl ⟨hs, hAbsent⟩)
    · exact h.move hTask ⟨hs, hAbsent⟩

/-- A check that fails turns the late acquisition down. -/
theorem Inv.checkedDown {t : Task} (h : Inv s) (check : Check) (hTask : s.task = t)
    (hOwed : t.stage = .owed) : Situation (s.note (.saw false check false)) .down :=
  Situation.turnDown (hOwed ▸ (h.saw false check false).situation_at hTask)
    (h.unmade (by rw [hTask, hOwed]; rfl)) (Or.inr ⟨check, List.mem_cons_self⟩)

/-- **Every step of the loop and of the worker keeps the invariant.** -/
theorem Inv.taskStep (h : Inv s) (o : AcquireOptions) (once : Bool) (v : View) {ok : Bool}
    (hEn : enabled o v s (.task ok) = true) : Inv (taskStep o once v ok s) := by
  cases hTask : s.task with
  | unborn => simp [enabled, hTask] at hEn
  | loopCanceled =>
    simp only [Sync.taskStep, hTask]
    split
    · exact h.move hTask (h.situation_at hTask).settle
    · exact h.goto hTask
  | loopTimeout =>
    simp only [Sync.taskStep, hTask]
    split
    · exact (h.saw _ _ _).move hTask ((h.saw _ _ _).situation_at hTask).settle
    · exact (h.saw _ _ _).goto hTask
  | loopShutdown =>
    simp only [Sync.taskStep, hTask]
    split
    · exact (h.saw _ _ _).goto hTask
    · exact (h.saw _ _ _).move hTask ((h.saw _ _ _).situation_at hTask).settle
  | stamp =>
    simp only [Sync.taskStep, hTask]
    exact h.goto hTask
  | checkout start =>
    simp only [Sync.taskStep, hTask]
    split
    · exact h.goto hTask
    · exact h.move hTask (h.situation_at hTask).settle
  | sending start =>
    simp only [Sync.taskStep, hTask]
    exact (h.note ⟨rfl, rfl⟩).goto hTask
  | acquiring start => simp [enabled, hTask] at hEn
  | ioError =>
    simp only [Sync.taskStep, hTask]
    -- the I/O error of a command that may have been applied
    exact h.enter hTask (Situation.offer (h.situation_at hTask)) fun _ => queued_offer s.log
  -- a check of the late acquisition goes on to the next one or turns it down
  | lateShutdown start =>
    simp only [Sync.taskStep, hTask]
    cases v.isOpen with
    | true => exact (h.saw _ _ _).goto hTask
    | false => exact (h.saw _ _ _).move hTask (h.checkedDown .manager hTask rfl)
  | lateCanceled start =>
    simp only [Sync.taskStep, hTask]
    split
    · rename_i hCanceled
      exact h.move hTask (Situation.turnDown (h.situation_at hTask) (h.unmade (by rw [hTask]; rfl))
        (Or.inl hCanceled))
    · exact h.goto hTask
  | lateTimeout start =>
    simp only [Sync.taskStep, hTask]
    cases deadlineElapsed v.now s.start o.lockTimeout with
    | true => exact (h.saw _ _ _).move hTask (h.checkedDown .deadline hTask rfl)
    | false => exact (h.saw _ _ _).goto hTask
  | lateLease start =>
    simp only [Sync.taskStep, hTask]
    cases decide ((Lease.new start o.effectiveTtl).stateAt v.now = .active) with
    | true => exact (h.saw _ _ _).goto hTask
    | false => exact (h.saw _ _ _).move hTask (h.checkedDown .lease hTask rfl)
  | lateRelease e =>
    simp only [Sync.taskStep, hTask]
    split <;>
      exact h.enter hTask (Situation.release (h.situation_at hTask) _)
        fun _ => (h.queued (by simp [hTask])).cons rfl
  | lateReleasing e => simp [enabled, hTask] at hEn
  | newGuard start => exact h.newGuard o once v ok hTask
  | contended =>
    simp only [Sync.taskStep, hTask]
    split
    · exact (h.saw _ _ _).goto hTask
    · exact (h.saw _ _ _).move hTask ((h.saw _ _ _).situation_at hTask).settle
  | contendedTimeout =>
    simp only [Sync.taskStep, hTask]
    split
    · exact (h.saw _ _ _).move hTask ((h.saw _ _ _).situation_at hTask).settle
    · exact (h.saw _ _ _).goto hTask
  | contendedOnce =>
    simp only [Sync.taskStep, hTask]
    split
    · exact h.move hTask (h.situation_at hTask).settle
    · exact h.goto hTask
  | retryWait =>
    simp only [Sync.taskStep, hTask]
    exact h.goto hTask
  | parking wait =>
    simp only [Sync.taskStep, hTask]
    exact h.goto hTask
  | waiting start wait =>
    simp only [Sync.taskStep, hTask]
    exact h.goto hTask
  | finished m =>
    cases m with
    | acquisition => exact h.sendGuard o once v ok hTask
    | nothing =>
      simp only [Sync.taskStep, hTask]
      exact h.sendResult hTask (by simp)
    | failed e =>
      simp only [Sync.taskStep, hTask]
      exact h.sendResult hTask (by simp)
  | awaitAccepted => exact h.awaitAccepted o once v hTask hEn
  | cleanup =>
    -- the dropped guard has offered its release before
    have hGiven : ∀ sent, Situation (s.note (.release sent)) .settled := fun sent =>
      ⟨(h.situation_at hTask).1.cons rfl fun h => h.append [.release sent],
        (h.situation_at hTask).2⟩
    simp only [Sync.taskStep, hTask]
    split
    · exact h.enter hTask (hGiven _) fun _ => (h.queued (by simp [hTask])).cons rfl
    · exact h.enter hTask (Or.inl (hGiven _)) fun _ => (h.queued (by simp [hTask])).cons rfl
  | cleaning => simp [enabled, hTask] at hEn
  | done => simp [enabled, hTask] at hEn

/-- The reply of `acquire_lock` decides what the loop owes. -/
theorem Inv.acquireReplied (h : Inv s) (r : Reply) : Inv (acquireReplied r s) := by
  unfold Sync.acquireReplied
  cases hTask : s.task with
  | acquiring start =>
    have hSit := h.situation
    rw [hTask] at hSit
    have hOwed : Situation (s.note (.reply start r)) .owed :=
      ⟨hSit.2.1.append [.reply start r] (by simp [Action.releases]), hSit.2.2⟩
    have hQueued : Queued s.log := h.queued (by simp [hTask])
    cases r with
    | acquired =>
      refine h.enter hTask hOwed fun _ => Paid.cons hQueued ?_
      rintro ⟨start', hNo⟩
      cases hNo
    | contended => exact (h.note ⟨rfl, rfl⟩).goto hTask
    | error io =>
      cases io with
      | true => exact h.enter hTask hOwed fun hNo => absurd rfl hNo
      -- an error of Redis itself did not apply the command
      | false =>
        have hNoted := h.note (a := .reply start (.error false)) ⟨rfl, rfl⟩
        have hBefore := hNoted.situation
        rw [show (s.note (.reply start (.error false))).task = .acquiring start from hTask]
          at hBefore
        exact hNoted.move hTask (Situation.settle hBefore)
  | _ => exact h

/-- The reply to a release leads on, whatever it says. -/
theorem Inv.releaseReplied (h : Inv s) : Inv (releaseReplied s) := by
  unfold Sync.releaseReplied
  have hSit := h.situation
  cases hTask : s.task with
  | lateReleasing e => exact h.goto hTask
  | cleaning =>
    rw [hTask] at hSit
    exact h.move hTask (Or.inl hSit)
  | _ => exact h

/-- **Every event keeps the invariant.** -/
theorem Inv.step (h : Inv s) (o : AcquireOptions) (once : Bool) (v : View) {e : Event}
    (hEn : enabled o v s e = true) : Inv (next o once v s e) := by
  cases e with
  | caller ok => exact h.callerStep o v
  | task ok => exact h.taskStep o once v hEn
  | acquireReply r => exact h.acquireReplied r
  | releaseReply ok => exact h.releaseReplied
  | guard e =>
    -- only the owner of a guard that was handed out releases it
    have hOwner : e.byOwner = false ∨ s.caller.phase = .handed := by
      have hMay := (Bool.and_eq_true_iff.mp hEn).2
      rw [Bool.or_eq_true, Bool.not_eq_true', decide_eq_true_eq] at hMay
      rcases hMay with hOther | hReturned
      · exact Or.inl hOther
      · exact Or.inr (Caller.handed_iff.mpr hReturned)
    simp only [next]
    split
    · exact (h.note (a := .renewReply _ _) ⟨rfl, rfl⟩).guardStep o v.now _ hOwner
    · exact h.guardStep o v.now _ hOwner

end

-- ---------------------------------------------------------------------------
-- Neither orphaned nor stolen
-- ---------------------------------------------------------------------------

theorem inv_of_reachable {o : AcquireOptions} {once : Bool} {s : State}
    (h : (acquisition o once).Reachable s) : Inv s :=
  h.invariant (fun _ hInit => hInit ▸ inv_initial)
    fun _ e hInv hEn => hInv.step o once e.1 hEn

/-- The caller returned, and the loop and the worker ended or never started. -/
def State.finished (s : State) : Prop :=
  (∃ r, s.caller = .returned r) ∧ (s.task = .done ∨ s.task = .unborn)

/-- Who ends without a guard has every risky reply paid; who ends with one has issued no
release. -/
theorem Inv.outcome (h : Inv s) (hFinished : s.finished) :
    (s.caller ≠ .returned (.ok true) ∧ Settled s.log s.TurnedDown) ∨
      (s.caller = .returned (.ok true) ∧ Quiet s.log) := by
  have hSit := h.situation
  obtain ⟨⟨r, hReturned⟩, hTask⟩ := hFinished
  have hAbsent : Absent s.caller.phase s.result → s.caller ≠ .returned (.ok true) :=
    fun hAbsent hNo => hAbsent.2.2.2 (Caller.handed_iff.mpr hNo)
  rcases hTask with hTask | hTask
  · rw [hTask] at hSit
    rcases hSit with ⟨hs, hNone⟩ | ⟨hq, -, ⟨hNo, -⟩ | hHanded⟩
    · exact Or.inl ⟨hAbsent hNone, hs⟩
    · -- nobody returns before the last check
      rw [hReturned] at hNo
      rcases r with e | got
      · cases hNo
      · cases got <;> cases hNo
    · exact Or.inr ⟨Caller.handed_iff.mp hHanded, hq⟩
  · rw [hTask] at hSit
    exact Or.inl ⟨hAbsent hSit.2.2, settled_of_clear hSit.1⟩

/-- **No orphaned and no stolen acquisition.** Once both sides are finished, an I/O
error went with an offer to the queue and no guard, and a reply that acquired the lock
with a guard and no release, or with a later release and no guard. That release was sent
to Redis or offered to the queue, unless the loop turned the acquisition down and the
pool had no connection for it. -/
theorem acquired_not_orphaned {o : AcquireOptions} {once : Bool} {s : State}
    (hReachable : (acquisition o once).Reachable s) (hFinished : s.finished) :
    ∀ later start r earlier, s.log = later ++ .reply start r :: earlier →
      (r = .error true → s.caller ≠ .returned (.ok true) ∧ .offer ∈ later) ∧
      (r = .acquired →
        (s.caller = .returned (.ok true) ∧ (∀ sent, .release sent ∉ s.log) ∧ .offer ∉ s.log) ∨
          (s.caller ≠ .returned (.ok true) ∧
            (.release true ∈ later ∨ .offer ∈ later ∨ .guard .offer ∈ later ∨
              .release false ∈ later ∧ s.TurnedDown))) := by
  have hInv := inv_of_reachable hReachable
  have hOutcome := hInv.outcome hFinished
  have hIo : s.task ≠ .ioError := by
    rcases hFinished.2 with hTask | hTask <;> simp [hTask]
  intro later start r earlier hLog
  constructor
  · rintro rfl
    -- the offer for this very reply
    obtain ⟨x, hOffer, rfl⟩ := hInv.queued hIo later _ earlier hLog ⟨start, rfl⟩
    refine ⟨fun hOk => ?_, hOffer⟩
    rcases hOutcome with ⟨hNo, -⟩ | ⟨-, hQuiet⟩
    · exact hNo hOk
    · have hMem : .offer ∈ s.log := by
        rw [hLog]
        exact List.mem_append_left _ hOffer
      exact absurd (hQuiet _ hMem) (by simp [Action.releases])
  · rintro rfl
    rcases hOutcome with ⟨hNone, hSettled⟩ | ⟨hOk, hQuiet⟩
    · refine Or.inr ⟨hNone, ?_⟩
      -- what paid for it came after it
      obtain ⟨x, hx, rfl | rfl | rfl | ⟨rfl, hDown⟩⟩ := hSettled later _ earlier hLog rfl
      · exact Or.inl hx
      · exact Or.inr (Or.inl hx)
      · exact Or.inr (Or.inr (Or.inl hx))
      · exact Or.inr (Or.inr (Or.inr ⟨hx, hDown⟩))
    · refine Or.inl ⟨hOk, fun sent hMem => ?_, fun hMem => ?_⟩
      · exact absurd (hQuiet _ hMem) (by simp [Action.releases])
      · exact absurd (hQuiet _ hMem) (by simp [Action.releases])

/-- The timeout fires while `acquire_lock` runs on the worker; the command then
succeeds. -/
def timedOutRun : List (View × Event) :=
  let early : View := ⟨0, true, true⟩
  let late : View := ⟨fromMillis 5, true, true⟩
  ([.caller true, .caller true, .caller true, .caller true, .task true, .task true, .task true,
    .task true, .task true, .task true].map fun e => (early, e)) ++
  ([.caller false, .caller true, .caller true, .acquireReply .acquired, .task true, .task true,
    .task true, .releaseReply true, .task true].map fun e => (late, e))

/-- Default options with a timeout of 5 ms. -/
def fiveMillis : AcquireOptions := { AcquireOptions.new with lockTimeout := some (fromMillis 5) }

/-- Where the run leads. -/
def timedOutEnd : State := ((acquisition fiveMillis false).exec .initial timedOutRun).getD .initial

/-- The late success is released. -/
theorem acquired_not_orphaned_timedOut :
    timedOutEnd.caller = .returned (.error .lockTimeout) ∧ .release true ∈ timedOutEnd.log := by
  have hExec : (acquisition fiveMillis false).exec .initial timedOutRun = some timedOutEnd := by
    decide +kernel
  have hCaller : timedOutEnd.caller = .returned (.error .lockTimeout) := by decide +kernel
  have hFinished : timedOutEnd.finished := ⟨⟨_, hCaller⟩, Or.inl (by decide +kernel)⟩
  have hMem : .reply 0 .acquired ∈ timedOutEnd.log := by decide +kernel
  obtain ⟨later, earlier, hLog⟩ := List.append_of_mem hMem
  have hOutcome := (acquired_not_orphaned (Machine.reachable_of_exec (.init rfl) hExec) hFinished
    later 0 .acquired earlier hLog).2 rfl
  refine ⟨hCaller, ?_⟩
  have hOnly : .offer ∉ timedOutEnd.log ∧ .guard .offer ∉ timedOutEnd.log ∧
      .release false ∉ timedOutEnd.log := by decide +kernel
  rw [hLog] at hOnly ⊢
  rcases hOutcome with ⟨hNo, -⟩ | ⟨-, hSent | hNo | hNo | ⟨hNo, -⟩⟩
  · rw [hCaller] at hNo
    cases hNo
  · exact List.mem_append_left _ hSent
  · exact absurd (List.mem_append_left _ hNo) hOnly.1
  · exact absurd (List.mem_append_left _ hNo) hOnly.2.1
  · exact absurd (List.mem_append_left _ hNo) hOnly.2.2

/-- Shutdown comes while `acquire_lock` runs; when it has succeeded the pool can
open no connection for the release. -/
def unsentRun : List (View × Event) :=
  ([.caller true, .caller true, .caller true, .task true, .task true, .task true, .task true,
    .task true, .task true].map fun e => (⟨0, true, true⟩, e)) ++
  ([.acquireReply .acquired, .task true, .task false, .caller true].map
    fun e => (⟨0, false, false⟩, e))

/-- **A late acquisition can end with no guard and no release sent or queued.** -/
theorem acquired_not_orphaned_unsent :
    ¬∀ (o : AcquireOptions) (once : Bool) (s : State), (acquisition o once).Reachable s →
      s.finished → ∀ later start r earlier, s.log = later ++ .reply start r :: earlier →
        r = .acquired ∨ r = .error true →
        (s.caller = .returned (.ok true) ∧ (∀ sent, .release sent ∉ s.log) ∧ .offer ∉ s.log) ∨
          (s.caller ≠ .returned (.ok true) ∧
            (.release true ∈ later ∨ .offer ∈ later ∨ .guard .offer ∈ later)) := by
  intro hClaim
  let s := ((acquisition .new false).exec .initial unsentRun).getD .initial
  have hExec : (acquisition .new false).exec .initial unsentRun = some s := by decide +kernel
  have hCaller : s.caller = .returned (.error .shutdown) := by decide +kernel
  have hFinished : s.finished := ⟨⟨_, hCaller⟩, Or.inl (by decide +kernel)⟩
  have hMem : .reply 0 .acquired ∈ s.log := by decide +kernel
  have hNone : .release true ∉ s.log ∧ .offer ∉ s.log ∧ .guard .offer ∉ s.log := by decide +kernel
  obtain ⟨later, earlier, hLog⟩ := List.append_of_mem hMem
  rw [hLog] at hNone
  rcases hClaim .new false s (Machine.reachable_of_exec (.init rfl) hExec) hFinished later 0
    .acquired earlier hLog (Or.inl rfl) with ⟨hNo, -⟩ | ⟨-, hNo | hNo | hNo⟩
  · rw [hCaller] at hNo
    cases hNo
  · exact hNone.1 (List.mem_append_left _ hNo)
  · exact hNone.2.1 (List.mem_append_left _ hNo)
  · exact hNone.2.2 (List.mem_append_left _ hNo)

end RLock.Sync
