import RLock.Client.Trace
import RLock.Client.Guard
import RLock.Lib.Machine

/-!
# RLock — the life of a guard

One guard with its renewal loop, from `GuardData::new` to the end: the events of
`Client.Guard` in any order and at any times, with a log of what happened and
what was sent. `release()` on a guard that was released returns at once.

`release()` and `Drop` mark the lease before anything else (`marks`). From then
on the loop has at most four events left (`Renewal.rank`), one of which may
send the renewal it had already decided on.

The proof has two halves. Up to the mark the invariant `Kept` ties the flag, the sender and
the log together, whatever the loop does. From the mark on, `Ending` counts what is left of
the loop, and `Over` what is sent after a release that returned `Ok`: only tasks whose caller
went away still send, and they were there before. Times are arbitrary in both halves, so
nothing depends on the clock going forward.

## Results

* `Marked.next` — the mark stays.
* `rank_next` — a marked guard's loop runs out.
* `Kept.step` — the flag, the sender and the log agree.
* `Ending.step`, `Over.step` — what is left after the mark, and after a release.
* `guard_lifecycle` — the release lifecycle of both backends.
-/

namespace RLock.Client

/-- Events that the renewal loop makes. -/
def GuardEvent.byLoop : GuardEvent → Bool
  | .stopSeen => true
  | .inactiveSeen => true
  | .wake => true
  | .check => true
  | .sendRenew => true
  | .renewReply _ => true
  | _ => false

/-- Events that mark the lease. -/
def GuardEvent.marks : GuardEvent → Bool
  | .beginRelease => true
  | .drop => true
  | _ => false

/-- How many events the loop has left once the lease is marked. -/
def Renewal.rank : Renewal → Nat
  | .off => 0
  | .stopped => 0
  | .woken => 1
  | .waiting _ _ => 2
  | .renewing _ => 3
  | .cleared => 4

/-- The loop has decided on a renewal it has not sent yet. -/
def Renewal.unsent : Renewal → Nat
  | .cleared => 1
  | _ => 0

namespace Guard

variable {b : Backend} {o : AcquireOptions} {now : Int} {g : Guard}

/-- The lease is marked and the loop was told to stop. -/
def Marked (g : Guard) : Prop := g.lease.state ≠ .active ∧ g.stop = true

/-- The loop does nothing to the owner's side of the guard. -/
theorem next_of_loop (b : Backend) (o : AcquireOptions) (now : Int) (g : Guard) {e : GuardEvent}
    (h : e.byLoop = true) :
    (g.next b o now e).stop = g.stop ∧ (g.next b o now e).isReleased = g.isReleased ∧
      (g.next b o now e).hasSender = g.hasSender ∧ (g.next b o now e).owner = g.owner ∧
      (g.next b o now e).orphans = g.orphans := by
  cases e with
  | renewReply reply =>
    unfold next afterReply
    dsimp only
    repeat' split
    all_goals exact ⟨rfl, rfl, rfl, rfl, rfl⟩
  | stopSeen | inactiveSeen | wake | check | sendRenew => exact ⟨rfl, rfl, rfl, rfl, rfl⟩
  | beginRelease | sendRelease | releaseReply _ | cancelRelease | sendOrphan | drop => cases h

theorem renewal_of_not_loop (b : Backend) (o : AcquireOptions) (now : Int) (g : Guard)
    {e : GuardEvent} (h : e.byLoop = false) : (g.next b o now e).renewal = g.renewal := by
  cases e with
  | stopSeen | inactiveSeen | wake | check | sendRenew | renewReply _ => cases h
  | releaseReply ok => cases ok <;> rfl
  | drop =>
    unfold next
    dsimp only
    split <;> rfl
  | beginRelease | sendRelease | cancelRelease | sendOrphan => rfl

theorem stop_next {e : GuardEvent} (h : g.stop = true) : (g.next b o now e).stop = true := by
  by_cases hLoop : e.byLoop = true
  · rw [(next_of_loop b o now g hLoop).1]
    exact h
  · cases e with
    | stopSeen | inactiveSeen | wake | check | sendRenew | renewReply _ => exact absurd rfl hLoop
    | releaseReply ok => cases ok <;> exact h
    | drop =>
      unfold next
      dsimp only
      split
      · exact h
      · rfl
    | beginRelease => rfl
    | sendRelease | cancelRelease | sendOrphan => exact h

/-- Only the drop offers a release to the queue. -/
theorem eq_drop_of_offer {e : GuardEvent} (h : g.sent now e = some .offer) : e = .drop := by
  cases e with
  | drop => rfl
  | sendRenew | sendRelease | sendOrphan => cases h
  | _ => exact absurd h fun hNo => (nomatch hNo)

/-- Only `release()` and the tasks it left behind send one to Redis. -/
theorem eq_release_of_sent {e : GuardEvent} (h : g.sent now e = some .release) :
    e = .sendRelease ∨ e = .sendOrphan := by
  cases e with
  | sendRelease => exact Or.inl rfl
  | sendOrphan => exact Or.inr rfl
  | drop => exact absurd (sent_drop h) fun hNo => (nomatch hNo)
  | sendRenew => cases h
  | _ => exact absurd h fun hNo => (nomatch hNo)

/-- Only a cancelled call leaves an orphan, and only the orphan itself takes one away. -/
theorem orphans_next (b : Backend) (o : AcquireOptions) (now : Int) (g : Guard) {e : GuardEvent}
    (hCancel : e ≠ .cancelRelease) (hOrphan : e ≠ .sendOrphan) :
    (g.next b o now e).orphans = g.orphans := by
  by_cases hLoop : e.byLoop = true
  · exact (next_of_loop b o now g hLoop).2.2.2.2
  · cases e with
    | stopSeen | inactiveSeen | wake | check | sendRenew | renewReply _ => exact absurd rfl hLoop
    | releaseReply ok => cases ok <;> rfl
    | cancelRelease => exact absurd rfl hCancel
    | sendOrphan => exact absurd rfl hOrphan
    | drop =>
      unfold next
      dsimp only
      split <;> rfl
    | beginRelease | sendRelease => rfl

/-- **The mark stays.** -/
theorem Marked.next {e : GuardEvent} (h : g.Marked) : (g.next b o now e).Marked :=
  ⟨inactive_next e h.1, stop_next h.2⟩

/-- What the loop can still do once the lease is marked. -/
theorem loop_next {e : GuardEvent} (h : g.lease.state ≠ .active)
    (hEn : g.enabled b now e = true) (hLoop : e.byLoop = true) :
    (∃ start wait, g.renewal = .waiting start wait ∧ e ≠ .sendRenew ∧
      ((g.next b o now e).renewal = .stopped ∨ (g.next b o now e).renewal = .woken)) ∨
    (g.renewal = .woken ∧ e ≠ .sendRenew ∧ (g.next b o now e).renewal = .stopped) ∨
    (g.renewal = .cleared ∧ e = .sendRenew ∧ (g.next b o now e).renewal = .renewing now) ∨
    (∃ start, g.renewal = .renewing start ∧ e ≠ .sendRenew ∧
      ((g.next b o now e).renewal = .stopped ∨
        ∃ wait, (g.next b o now e).renewal = .waiting now wait)) := by
  cases e with
  | stopSeen =>
    cases hRenewal : g.renewal with
    | waiting start wait => exact Or.inl ⟨start, wait, rfl, by decide, Or.inl rfl⟩
    | off | woken | cleared | renewing _ | stopped => simp [enabled, hRenewal] at hEn
  | inactiveSeen =>
    cases hRenewal : g.renewal with
    | waiting start wait => exact Or.inl ⟨start, wait, rfl, by decide, Or.inl rfl⟩
    | off | woken | cleared | renewing _ | stopped => simp [enabled, hRenewal] at hEn
  | wake =>
    cases hRenewal : g.renewal with
    | waiting start wait => exact Or.inl ⟨start, wait, rfl, by decide, Or.inr rfl⟩
    | off | woken | cleared | renewing _ | stopped => simp [enabled, hRenewal] at hEn
  | check =>
    have hWoken : g.renewal = .woken := by simpa [enabled] using hEn
    refine Or.inr (Or.inl ⟨hWoken, by decide, ?_⟩)
    -- the lease is not active any more, so the check fails
    show (if g.lease.stateAt now = .active then Renewal.cleared else .stopped) = .stopped
    rw [if_neg fun hActive => h (Lease.stateAt_eq_active.mp hActive).1]
  | sendRenew =>
    have hCleared : g.renewal = .cleared := by simpa [enabled] using hEn
    exact Or.inr (Or.inr (Or.inl ⟨hCleared, rfl, rfl⟩))
  | renewReply reply =>
    cases hRenewal : g.renewal with
    | renewing start =>
      refine Or.inr (Or.inr (Or.inr ⟨start, rfl, (by rintro ⟨⟩), ?_⟩))
      unfold next
      dsimp only
      rw [hRenewal]
      dsimp only
      unfold afterReply
      cases reply with
      | none => exact Or.inr ⟨_, rfl⟩
      | some ok =>
        cases ok with
        | false => exact Or.inl rfl
        | true =>
          -- a late success does not renew a marked lease
          rcases Lease.renew_cases now start o.effectiveTtl g.lease with ⟨-, hActive⟩ | ⟨hNot, -⟩
          · exact absurd (Lease.stateAt_eq_active.mp hActive).1 h
          · dsimp only
            rw [hNot, if_neg Bool.false_ne_true]
            exact Or.inl rfl
    | off | waiting _ _ | woken | cleared | stopped => simp [enabled, hRenewal] at hEn
  | beginRelease | sendRelease | releaseReply _ | cancelRelease | sendOrphan | drop => cases hLoop

/-- **A marked guard's loop runs out.** -/
theorem rank_next {e : GuardEvent} (h : g.lease.state ≠ .active)
    (hEn : g.enabled b now e = true) (hLoop : e.byLoop = true) :
    (g.next b o now e).renewal.rank < g.renewal.rank := by
  rcases loop_next (o := o) h hEn hLoop with ⟨start, wait, hOld, -, hNew | hNew⟩ |
    ⟨hOld, -, hNew⟩ | ⟨hOld, -, hNew⟩ | ⟨start, hOld, -, hNew | ⟨wait, hNew⟩⟩
  all_goals
    rw [hOld, hNew]
    simp [Renewal.rank]

/-- Once the lease is marked, the loop sends at most what it had decided on. -/
theorem unsent_next {e : GuardEvent} (h : g.lease.state ≠ .active)
    (hEn : g.enabled b now e = true) :
    (if e = .sendRenew then 1 else 0) + (g.next b o now e).renewal.unsent ≤ g.renewal.unsent := by
  by_cases hLoop : e.byLoop = true
  · rcases loop_next (o := o) h hEn hLoop with ⟨start, wait, hOld, hSend, hNew | hNew⟩ |
      ⟨hOld, hSend, hNew⟩ | ⟨hOld, rfl, hNew⟩ | ⟨start, hOld, hSend, hNew | ⟨wait, hNew⟩⟩
    case inr.inr.inl => rw [hOld, hNew]; simp [Renewal.unsent]
    all_goals
      rw [hOld, hNew, if_neg hSend]
      simp [Renewal.unsent]
  · have hSend : e ≠ .sendRenew := by
      rintro rfl
      exact hLoop rfl
    rw [renewal_of_not_loop b o now g (Bool.not_eq_true _ ▸ hLoop), if_neg hSend]
    omega

/-- A loop that is told to stop and has not is not stuck, at any time. -/
theorem exists_enabled (now : Int) (hStop : g.stop = true) (hRank : 0 < g.renewal.rank) :
    ∃ e : GuardEvent, e.byLoop = true ∧ g.enabled b now e = true := by
  cases hRenewal : g.renewal with
  | off => simp [hRenewal, Renewal.rank] at hRank
  | stopped => simp [hRenewal, Renewal.rank] at hRank
  | waiting start wait => exact ⟨.stopSeen, rfl, by simp [enabled, hRenewal, hStop]⟩
  | woken => exact ⟨.check, rfl, by simp [enabled, hRenewal]⟩
  | cleared => exact ⟨.sendRenew, rfl, by simp [enabled, hRenewal]⟩
  | renewing start => exact ⟨.renewReply none, rfl, by simp [enabled, hRenewal]⟩

end Guard

-- ---------------------------------------------------------------------------
-- The guard with its log
-- ---------------------------------------------------------------------------

/-- What happened, and what was sent at it. -/
inductive LifeEntry
  | event (e : GuardEvent) (sent : Option Sent)
  /-- `release()` on a guard that was released -/
  | again
  deriving DecidableEq, Repr

namespace LifeEntry

/-- A `release()` call returned `Ok`. -/
def returnsOk : LifeEntry → Bool
  | event e _ => e = .releaseReply true
  | again => true

/-- The entry is a renewal. -/
def renews : LifeEntry → Bool
  | event e _ => e = .sendRenew
  | again => false

/-- The entry is the doing of the loop. -/
def byLoop : LifeEntry → Bool
  | event e _ => e.byLoop
  | again => false

/-- A release command goes to Redis or to the release queue. -/
def releases : LifeEntry → Bool
  | event _ sent => sent = some .release || sent = some .offer
  | again => false

/-- A release goes to the queue. -/
def offers : LifeEntry → Bool
  | event _ sent => sent = some .offer
  | again => false

/-- A task whose `release()` call was cancelled sends its command. -/
def byOrphan : LifeEntry → Bool
  | event e _ => e = .sendOrphan
  | again => false

end LifeEntry

/-- A guard and what happened to it. -/
structure Life where
  guard : Guard
  /-- The latest entry comes first. -/
  log : List LifeEntry

/-- What may happen in its life. -/
inductive LifeEvent
  | event (now : Int) (e : GuardEvent)
  | again
  deriving DecidableEq, Repr

namespace Life

def enabled (b : Backend) (s : Life) : LifeEvent → Bool
  | .event now e => s.guard.enabled b now e
  | .again => s.guard.owner = .idle && s.guard.isReleased

def next (b : Backend) (o : AcquireOptions) (s : Life) : LifeEvent → Life
  | .event now e =>
    { guard := s.guard.next b o now e, log := .event e (s.guard.sent now e) :: s.log }
  | .again => { s with log := .again :: s.log }

end Life

/-- The life of a guard made by `GuardData::new`. -/
def life (b : Backend) (o : AcquireOptions) : Machine Life LifeEvent where
  init := fun s => ∃ lease attemptStart, s = ⟨Guard.new o lease attemptStart, []⟩
  enabled := fun s e => s.enabled b e = true
  next := Life.next b o

instance (b : Backend) (o : AcquireOptions) (s : Life) (e : LifeEvent) :
    Decidable ((life b o).enabled s e) := inferInstanceAs (Decidable (s.enabled b e = true))

namespace Life

variable {b : Backend} {o : AcquireOptions} {s t : Life}

-- ---------------------------------------------------------------------------
-- Before the mark
-- ---------------------------------------------------------------------------

/-- The flag, the sender and the log agree. -/
structure Kept (s : Life) : Prop where
  ok : s.guard.Ok
  told : s.guard.givingUp → s.guard.stop = true
  released : s.guard.isReleased = true ↔ ∃ x ∈ s.log, x.returnsOk = true
  sender : s.guard.hasSender = true ↔ s.guard.isReleased = false ∧ s.guard.owner ≠ .dropped
  /-- A released guard waits for nothing. -/
  quiet : s.guard.isReleased = true → s.guard.owner ≠ .starting ∧ s.guard.owner ≠ .awaiting
  offered : s.log.countP LifeEntry.offers =
    if s.guard.owner = .dropped ∧ s.guard.isReleased = false then 1 else 0

/-- At first nothing has happened, and the sender is there. -/
theorem kept_init (h : (life b o).init s) : Kept s := by
  obtain ⟨lease, attemptStart, rfl⟩ := h
  refine ⟨Guard.ok_new, ?_, by simp [Guard.new], by simp [Guard.new], by simp [Guard.new],
    by simp [Guard.new]⟩
  rintro (hOwner | hReleased | hOrphans)
  · exact absurd rfl hOwner
  · cases hReleased
  · exact absurd hOrphans (lt_irrefl 0)

/-- Whoever begins to give up the lock tells the loop to stop. -/
theorem Kept.told_next {now : Int} {e : GuardEvent} (h : Kept s)
    (hEn : s.guard.enabled b now e = true) (hGiving : (s.guard.next b o now e).givingUp) :
    (s.guard.next b o now e).stop = true := by
  rcases Guard.givingUp_next hEn hGiving with hBefore | rfl | rfl
  · exact Guard.stop_next (h.told hBefore)
  · rfl
  · unfold Guard.next
    dsimp only
    split
    · rename_i hReleased
      exact h.told (Or.inr (Or.inl hReleased.2))
    · rfl

/-- An entry that returns no `Ok`, releases nothing and leaves the owner's side
as it is. -/
theorem Kept.quietly {now : Int} {e : GuardEvent} {sent : Option Sent} (h : Kept s)
    (hEn : s.guard.enabled b now e = true) (hReturn : e ≠ .releaseReply true)
    (hOffer : sent ≠ some .offer)
    (hReleased : (s.guard.next b o now e).isReleased = s.guard.isReleased)
    (hSender : (s.guard.next b o now e).hasSender = s.guard.hasSender)
    (hOwner : (s.guard.next b o now e).owner = .dropped ↔ s.guard.owner = .dropped)
    (hQuiet : s.guard.isReleased = true →
      (s.guard.next b o now e).owner ≠ .starting ∧ (s.guard.next b o now e).owner ≠ .awaiting) :
    Kept ⟨s.guard.next b o now e, .event e sent :: s.log⟩ := by
  have hEntry : (LifeEntry.event e sent).returnsOk = false := by
    simpa [LifeEntry.returnsOk] using hReturn
  refine ⟨h.ok.next hEn, h.told_next hEn, ?_, ?_, ?_, ?_⟩
  · show (s.guard.next b o now e).isReleased = true ↔ _
    rw [hReleased, h.released]
    simp only [List.mem_cons, exists_eq_or_imp, hEntry, Bool.false_eq_true, false_or]
  · show (s.guard.next b o now e).hasSender = true ↔ _
    rw [hSender, h.sender, hReleased, ne_eq, ne_eq, hOwner]
  · show (s.guard.next b o now e).isReleased = true → _
    rw [hReleased]
    exact hQuiet
  · show (LifeEntry.event e sent :: s.log).countP LifeEntry.offers = _
    rw [List.countP_cons_of_neg (by simpa [LifeEntry.offers] using hOffer), h.offered]
    simp only [hReleased, hOwner]

/-- **Every event keeps it.** -/
theorem Kept.step {e : LifeEvent} (h : Kept s) (hEn : s.enabled b e = true) :
    Kept (s.next b o e) := by
  cases e with
  | again =>
    have hReleased : s.guard.isReleased = true := by
      simp only [enabled, Bool.and_eq_true] at hEn
      exact hEn.2
    refine ⟨h.ok, h.told, ?_, h.sender, h.quiet, ?_⟩
    · exact iff_of_true hReleased ⟨.again, List.mem_cons_self .., rfl⟩
    · show (LifeEntry.again :: s.log).countP LifeEntry.offers = _
      rw [List.countP_cons_of_neg (by decide)]
      exact h.offered
  | event now e =>
    have hGuard : s.guard.enabled b now e = true := hEn
    show Kept ⟨s.guard.next b o now e, .event e (s.guard.sent now e) :: s.log⟩
    -- the loop does not touch the owner's side; its events are done at once
    by_cases hLoop : e.byLoop = true
    · obtain ⟨-, hReleased, hSender, hOwner, -⟩ := Guard.next_of_loop b o now s.guard hLoop
      refine h.quietly hGuard ?_ ?_ hReleased hSender (by rw [hOwner])
        (by rw [hOwner]; exact h.quiet)
      · rintro rfl
        cases hLoop
      · intro hOffer
        rw [Guard.eq_drop_of_offer hOffer] at hLoop
        cases hLoop
    · cases e with
      | stopSeen | inactiveSeen | wake | check | sendRenew | renewReply _ =>
        exact absurd rfl hLoop
      | beginRelease =>
        have hIdle : s.guard.owner = .idle ∧ s.guard.isReleased = false := by
          simpa [Guard.enabled] using hGuard
        refine h.quietly hGuard (by rintro ⟨⟩) (by rintro ⟨⟩) rfl rfl ?_ ?_
        · rw [hIdle.1]
          exact iff_of_false (by rintro ⟨⟩) (by rintro ⟨⟩)
        · rw [hIdle.2]
          rintro ⟨⟩
      | sendRelease =>
        have hOwner : s.guard.owner = .starting := by simpa [Guard.enabled] using hGuard
        refine h.quietly hGuard (by rintro ⟨⟩) (by rintro ⟨⟩) rfl rfl ?_
          fun hReleased => absurd hOwner (h.quiet hReleased).1
        rw [hOwner]
        exact iff_of_false (by rintro ⟨⟩) (by rintro ⟨⟩)
      | releaseReply ok =>
        have hOwner : s.guard.owner = .awaiting := by simpa [Guard.enabled] using hGuard
        cases ok with
        | false =>
          refine h.quietly hGuard (by rintro ⟨⟩) (by rintro ⟨⟩) rfl rfl ?_
            fun _ => ⟨(by rintro ⟨⟩), (by rintro ⟨⟩)⟩
          rw [hOwner]
          exact iff_of_false (by rintro ⟨⟩) (by rintro ⟨⟩)
        -- the call returns: the flag, the sender and the log change together
        | true =>
          have hOffered := h.offered
          rw [hOwner, if_neg (by rintro ⟨⟨⟩, -⟩)] at hOffered
          refine ⟨h.ok.next hGuard, h.told_next hGuard, ?_, ?_, ?_, ?_⟩
          · exact iff_of_true rfl ⟨_, List.mem_cons_self .., rfl⟩
          · exact iff_of_false (by rintro ⟨⟩) (by rintro ⟨⟨⟩, -⟩)
          · exact fun _ => ⟨(by rintro ⟨⟩), (by rintro ⟨⟩)⟩
          · exact hOffered
      | cancelRelease =>
        refine h.quietly hGuard (by rintro ⟨⟩) (by rintro ⟨⟩) rfl rfl ?_
          fun _ => ⟨(by rintro ⟨⟩), (by rintro ⟨⟩)⟩
        have hOwner : s.guard.owner = .starting ∨ s.guard.owner = .awaiting := by
          simp only [Guard.enabled, Bool.and_eq_true, Bool.or_eq_true, decide_eq_true_eq] at hGuard
          exact hGuard.2
        refine iff_of_false (by rintro ⟨⟩) fun hDropped => ?_
        rw [hDropped] at hOwner
        rcases hOwner with hNo | hNo <;> cases hNo
      | sendOrphan =>
        exact h.quietly hGuard (by rintro ⟨⟩) (by rintro ⟨⟩) rfl rfl Iff.rfl
          h.quiet
      | drop =>
        have hIdle : s.guard.owner = .idle := by simpa [Guard.enabled] using hGuard
        have hDropped : (s.guard.next b o now .drop).owner = .dropped := by
          unfold Guard.next
          dsimp only
          split <;> rfl
        have hReleased : (s.guard.next b o now .drop).isReleased = s.guard.isReleased := by
          unfold Guard.next
          dsimp only
          split <;> rfl
        have hNone := h.offered
        rw [hIdle, if_neg (by rintro ⟨⟨⟩, -⟩)] at hNone
        refine ⟨h.ok.next hGuard, h.told_next hGuard, ?_, ?_, ?_, ?_⟩
        · show (s.guard.next b o now .drop).isReleased = true ↔ _
          rw [hReleased, h.released]
          simp [LifeEntry.returnsOk]
        · refine iff_of_false (fun hSender => ?_) fun hBoth => hBoth.2 hDropped
          unfold Guard.next at hSender
          dsimp only at hSender
          split at hSender
          · rename_i hSkip
            have hOut := (h.sender.mp hSender).1
            rw [hSkip.2] at hOut
            cases hOut
          · cases hSender
        · intro _
          rw [hDropped]
          exact ⟨(by rintro ⟨⟩), (by rintro ⟨⟩)⟩
        · show (LifeEntry.event .drop (s.guard.sent now .drop) :: s.log).countP LifeEntry.offers =
            if (s.guard.next b o now .drop).owner = .dropped ∧
              (s.guard.next b o now .drop).isReleased = false then 1 else 0
          rw [hDropped, hReleased]
          -- the sender is there exactly when no release returned
          by_cases hFlag : s.guard.isReleased = true
          · have hSent : s.guard.sent now .drop = none := by simp [Guard.sent, hFlag]
            rw [hSent, List.countP_cons_of_neg (by decide), hNone, hFlag]
            rfl
          · rw [Bool.not_eq_true] at hFlag
            have hSender : s.guard.hasSender = true :=
              h.sender.mpr ⟨hFlag, by rw [hIdle]; rintro ⟨⟩⟩
            have hSent : s.guard.sent now .drop = some .offer := by
              simp [Guard.sent, hFlag, hSender]
            rw [hSent, List.countP_cons_of_pos (by decide), hNone, hFlag]
            rfl

theorem kept_of_reachable (h : (life b o).Reachable s) : Kept s :=
  h.invariant (fun _ hInit => kept_init hInit) fun _ _ hKept hEn => hKept.step hEn

-- ---------------------------------------------------------------------------
-- From the mark on
-- ---------------------------------------------------------------------------

/-- The event that marks the lease leaves a marked guard. -/
theorem Kept.marked {now : Int} {e : GuardEvent} (h : Kept s) (hMarks : e.marks = true) :
    (s.guard.next b o now e).Marked := by
  cases e with
  | beginRelease => exact ⟨Lease.lose_ne_active _, rfl⟩
  | drop =>
    unfold Guard.next
    dsimp only
    split
    · -- the guard was marked when it was released
      rename_i hReleased
      exact ⟨h.ok (Or.inr (Or.inl hReleased.2)), h.told (Or.inr (Or.inl hReleased.2))⟩
    · exact ⟨Lease.release_ne_active _, rfl⟩
  | stopSeen | inactiveSeen | wake | check | sendRenew | renewReply _ | sendRelease
  | releaseReply _ | cancelRelease | sendOrphan => cases hMarks

/-- What is left of the loop after the guard was marked in `s`. -/
structure Ending (s t : Life) : Prop where
  marked : t.guard.Marked
  renews : t.log.countP LifeEntry.renews + t.guard.renewal.unsent ≤
    s.log.countP LifeEntry.renews + s.guard.renewal.unsent
  loops : t.log.countP LifeEntry.byLoop + t.guard.renewal.rank ≤
    s.log.countP LifeEntry.byLoop + s.guard.renewal.rank

/-- What is left of the loop only shrinks, event by event. -/
theorem Ending.step {e : LifeEvent} (h : Ending s t) (hEn : t.enabled b e = true) :
    Ending s (t.next b o e) := by
  cases e with
  | again => exact ⟨h.marked, h.renews, h.loops⟩
  | event now e =>
    have hGuard : t.guard.enabled b now e = true := hEn
    refine ⟨h.marked.next, ?_, ?_⟩
    · have hUnsent := Guard.unsent_next (o := o) h.marked.1 hGuard
      have hRenews := h.renews
      show (LifeEntry.event e (t.guard.sent now e) :: t.log).countP LifeEntry.renews +
        (t.guard.next b o now e).renewal.unsent ≤ _
      -- the renewal that is sent was counted as unsent before
      by_cases hSend : e = .sendRenew
      · rw [if_pos hSend] at hUnsent
        rw [List.countP_cons_of_pos (by simpa [LifeEntry.renews] using hSend)]
        omega
      · rw [if_neg hSend] at hUnsent
        rw [List.countP_cons_of_neg (by simpa [LifeEntry.renews] using hSend)]
        omega
    · have hLoops := h.loops
      show (LifeEntry.event e (t.guard.sent now e) :: t.log).countP LifeEntry.byLoop +
        (t.guard.next b o now e).renewal.rank ≤ _
      by_cases hLoop : e.byLoop = true
      · have hRank := Guard.rank_next (o := o) h.marked.1 hGuard hLoop
        rw [List.countP_cons_of_pos (show (LifeEntry.event e _).byLoop = true from hLoop)]
        omega
      · rw [List.countP_cons_of_neg (show ¬ (LifeEntry.event e _).byLoop = true from hLoop),
          Guard.renewal_of_not_loop b o now t.guard (Bool.not_eq_true _ ▸ hLoop)]
        exact hLoops

theorem Ending.steps {s₁ : Life} (h : Ending s s₁) (hRun : (life b o).Steps s₁ t) : Ending s t :=
  hRun.invariant h fun _ _ hEnding hEn => hEnding.step hEn

/-- The count begins with the event that marks the lease. -/
theorem Kept.ending {now : Int} {e : GuardEvent} (h : Kept s) (hMarks : e.marks = true) :
    Ending s (s.next b o (.event now e)) := by
  have hLoop : e.byLoop = false := by
    cases e with
    | beginRelease | drop => rfl
    | _ => cases hMarks
  have hSend : e ≠ .sendRenew := by
    rintro rfl
    cases hMarks
  have hRenewal := Guard.renewal_of_not_loop b o now s.guard hLoop
  refine ⟨h.marked hMarks, ?_, ?_⟩
  · show (LifeEntry.event e _ :: s.log).countP LifeEntry.renews +
      (s.guard.next b o now e).renewal.unsent ≤ _
    rw [List.countP_cons_of_neg (by simpa [LifeEntry.renews] using hSend), hRenewal]
  · show (LifeEntry.event e _ :: s.log).countP LifeEntry.byLoop +
      (s.guard.next b o now e).renewal.rank ≤ _
    rw [List.countP_cons_of_neg (by simpa [LifeEntry.byLoop] using hLoop), hRenewal]

/-- No loop has more than four events left, or more than one renewal. -/
theorem rank_le (r : Renewal) : r.rank ≤ 4 ∧ r.unsent ≤ 1 := by
  cases r <;> simp [Renewal.rank, Renewal.unsent]

/-- A loop with no event left has ended, or never ran. -/
theorem over_of_rank {r : Renewal} (h : r.rank = 0) : r = .off ∨ r = .stopped := by
  cases r with
  | off => exact Or.inl rfl
  | stopped => exact Or.inr rfl
  | waiting start wait | woken | cleared | renewing start => cases h

-- ---------------------------------------------------------------------------
-- After a successful release
-- ---------------------------------------------------------------------------

/-- What happened since `s`, where the guard was released: releases are sent
only by tasks that earlier calls left behind. -/
structure Over (s t : Life) (new : List LifeEntry) : Prop where
  log : t.log = new ++ s.log
  released : t.guard.isReleased = true
  silent : ∀ x ∈ new, x.releases = true → x.byOrphan = true
  orphans : new.countP LifeEntry.byOrphan + t.guard.orphans ≤ s.guard.orphans

/-- Each entry after the release is silent, or takes away an orphan. -/
theorem Over.step {e : LifeEvent} {new : List LifeEntry} (hKept : Kept t) (h : Over s t new)
    (hEn : t.enabled b e = true) : ∃ new', Over s (t.next b o e) new' := by
  have hReleased : (t.next b o e).guard.isReleased = true := by
    obtain ⟨x, hMem, hOk⟩ := hKept.released.mp h.released
    refine (hKept.step (o := o) hEn).released.mpr ⟨x, ?_, hOk⟩
    cases e with
    | event now e => exact List.mem_cons_of_mem _ hMem
    | again => exact List.mem_cons_of_mem _ hMem
  obtain ⟨hStarting, hAwaiting⟩ := hKept.quiet h.released
  cases e with
  | again =>
    refine ⟨.again :: new, ?_, hReleased, fun x hx => ?_, ?_⟩
    · show LifeEntry.again :: t.log = _
      rw [h.log, List.cons_append]
    · rcases List.mem_cons.mp hx with rfl | hx
      · exact fun hNo => (nomatch hNo)
      · exact h.silent x hx
    · rw [List.countP_cons_of_neg (by decide)]
      exact h.orphans
  | event now e =>
    have hGuard : t.guard.enabled b now e = true := hEn
    refine ⟨.event e (t.guard.sent now e) :: new, ?_, hReleased, fun x hx => ?_, ?_⟩
    · show LifeEntry.event e _ :: t.log = _
      rw [h.log, List.cons_append]
    · rcases List.mem_cons.mp hx with rfl | hx
      · intro hReleases
        have hSent : t.guard.sent now e = some .release ∨ t.guard.sent now e = some .offer := by
          simpa [LifeEntry.releases] using hReleases
        rcases hSent with hRelease | hOffer
        · rcases Guard.eq_release_of_sent hRelease with rfl | rfl
          · exact absurd (by simpa [Guard.enabled] using hGuard) hStarting
          · rfl
        · -- the drop of a released guard offers nothing
          rw [Guard.eq_drop_of_offer hOffer] at hOffer
          simp [Guard.sent, h.released] at hOffer
      · exact h.silent x hx
    · have hOrphans := h.orphans
      show (LifeEntry.event e _ :: new).countP LifeEntry.byOrphan +
        (t.guard.next b o now e).orphans ≤ _
      by_cases hOrphan : e = .sendOrphan
      · subst hOrphan
        have hPos : 0 < t.guard.orphans := by simpa [Guard.enabled] using hGuard
        rw [List.countP_cons_of_pos (show (LifeEntry.event .sendOrphan _).byOrphan = true from rfl)]
        show _ + 1 + (t.guard.orphans - 1) ≤ _
        omega
      -- no call is waiting any more, so none can be cancelled
      · have hCancel : e ≠ .cancelRelease := by
          rintro rfl
          simp [Guard.enabled, hStarting, hAwaiting] at hGuard
        rw [List.countP_cons_of_neg (by simpa [LifeEntry.byOrphan] using hOrphan),
          Guard.orphans_next b o now t.guard hCancel hOrphan]
        exact hOrphans

theorem Over.steps (hs : (life b o).Reachable s) (hReleased : s.guard.isReleased = true)
    (hRun : (life b o).Steps s t) : ∃ new, Over s t new := by
  induction hRun with
  | refl => exact ⟨[], rfl, hReleased, fun x hx => absurd hx List.not_mem_nil, by simp⟩
  | step hRun e hEn ih =>
    obtain ⟨new, hOver⟩ := ih
    exact hOver.step (kept_of_reachable (hs.steps hRun)) hEn

/-- **The life of a guard**, in both backends and for every interleaving of the
renewal loop with the calls on the guard and its drop. -/
theorem guard_lifecycle (b : Backend) (o : AcquireOptions) (s : Life)
    (hs : (life b o).Reachable s) :
    -- once `release()` or `Drop` marks the lease it is never active again, and the loop ends
    (∀ now e t, e.marks = true → s.guard.enabled b now e = true →
      (life b o).Steps (s.next b o (.event now e)) t →
      (∀ now', t.guard.lease.stateAt now' ≠ .active) ∧
      t.log.countP LifeEntry.renews ≤ s.log.countP LifeEntry.renews + 1 ∧
      t.log.countP LifeEntry.byLoop ≤ s.log.countP LifeEntry.byLoop + 4 ∧
      (t.guard.renewal = .off ∨ t.guard.renewal = .stopped ∨
        ∀ now', ∃ e' : GuardEvent, e'.byLoop = true ∧ t.guard.enabled b now' e' = true)) ∧
    -- the flag says that some `release()` returned `Ok`
    (s.guard.isReleased = true ↔ ∃ x ∈ s.log, x.returnsOk = true) ∧
    -- and then only tasks of cancelled calls still send a release
    (s.guard.isReleased = true → ∀ t, (life b o).Steps s t → ∃ new, t.log = new ++ s.log ∧
      (∀ x ∈ new, x.releases = true → x.byOrphan = true) ∧
      new.countP LifeEntry.byOrphan ≤ s.guard.orphans) ∧
    -- otherwise the drop offers exactly one
    (s.guard.owner = .dropped →
      s.log.countP LifeEntry.offers = if s.guard.isReleased then 0 else 1) := by
  have hKept := kept_of_reachable hs
  refine ⟨fun now e t hMarks _ hRun => ?_, hKept.released, fun hReleased t hRun => ?_,
    fun hDropped => ?_⟩
  · have hEnding : Ending s t := Ending.steps (hKept.ending hMarks) hRun
    have hBound := rank_le s.guard.renewal
    have hRenews := hEnding.renews
    have hLoops := hEnding.loops
    refine ⟨fun now' hActive => ?_, by omega, by omega, ?_⟩
    · exact hEnding.marked.1 (Lease.stateAt_eq_active.mp hActive).1
    · by_cases hRank : t.guard.renewal.rank = 0
      · exact (over_of_rank hRank).imp_right Or.inl
      · exact Or.inr (Or.inr fun now' =>
          Guard.exists_enabled now' hEnding.marked.2 (Nat.pos_of_ne_zero hRank))
  · obtain ⟨new, hOver⟩ := Over.steps hs hReleased hRun
    have hOrphans := hOver.orphans
    exact ⟨new, hOver.log, hOver.silent, by omega⟩
  · rw [hKept.offered, hDropped]
    cases s.guard.isReleased <;> rfl

/-- A call is cancelled, the next one succeeds. -/
def canceledRelease : List LifeEvent :=
  [.event 0 .beginRelease, .event 1 .cancelRelease, .event 2 .beginRelease, .event 3 .sendRelease,
    .event 4 (.releaseReply true), .event 5 .sendOrphan]

def canceledGuard : Life := ⟨Guard.new .new (Lease.new 0 10) 0, []⟩

/-- The life in which the first call is cancelled. -/
theorem guard_lifecycle_canceled :
    (((life .async .new).exec canceledGuard canceledRelease).getD
      canceledGuard).guard.isReleased = true := by
  have hReach : (life .async .new).Reachable
      (((life .async .new).exec canceledGuard canceledRelease).getD canceledGuard) :=
    Machine.reachable_getD ⟨_, _, rfl⟩ (by decide +kernel)
  have hLife := guard_lifecycle .async .new _ hReach
  exact hLife.2.1.mpr (by decide +kernel)

end Life

end RLock.Client
