import RLock.Client.Acquisition
import RLock.Client.Request

/-!
# RLock — what a guard can prove from the history of its request

An active lease goes back to a reply of success, to an attempt or a renewal
stamped with the start of the lease, and nothing that gives up the lock was sent
for it. This is said of a guard and the history of its request, for both
backends; what their steps do to the two is in `Async.Claim` and `Sync.Claim`.

A guard cannot see Redis. What it can prove is about its own commands: which one
succeeded, when it was stamped, and that none of them since then gives up the lock. The
rest, that Redis has executed the successful command and honours what it granted, is added
where the network is modelled.

`Handled` lists what a step of either backend may do to a guard and its history, as an
inductive relation, so that each backend only has to place its steps in the list. The
invariants are proved once over it. Among the steps are some that the guard's own table of
events does not have, such as giving up a guard that nobody took.

## Results

* `Guard.lease_next` — how a lease stays active.
* `Claimed.event` — what an event of the guard keeps.
* `Handled.claimed` — what a step of either backend keeps.
* `Handled.stamped` — and the stamps of all commands stay in the past.
-/

namespace RLock.Client

/-- The command that goes to Redis, or to the release queue, with an entry. -/
def Action.command : Action → Option Command
  | .attempt start => some (.acquire start)
  | .guard (.renew start) => some (.renew start)
  | .release true => some .release
  | .offer => some .release
  | .guard .release => some .release
  | .guard .offer => some .release
  | _ => none

/-- The command that an entry answers, with the reply of Redis. -/
def Action.answer : Action → Option (Command × Int)
  | .reply start .acquired => some (.acquire start, 1)
  | .reply start .contended => some (.acquire start, 0)
  | .renewReply start (some true) => some (.renew start, 1)
  | .renewReply start (some false) => some (.renew start, 0)
  | _ => none

/-- What the guard sends gives up the lock. -/
def Sent.yields : Sent → Bool
  | .renew _ => false
  | .release => true
  | .offer => true

/-- All commands were stamped by `now`. -/
def Stamped (now : Int) (log : List Action) : Prop :=
  ∀ a ∈ log, ∀ cmd start, a.command = some cmd → cmd.stamp = some start → start ≤ now

/-- Stamps stay in the past when those of the new commands are. -/
theorem Stamped.extends {P : Action → Prop} {now now' : Int} {log log' : List Action}
    (h : Stamped now log) (hNow : now ≤ now') (hExt : Extends P log log')
    (hNew : ∀ a cmd start, P a → a.command = some cmd → cmd.stamp = some start → start ≤ now') :
    Stamped now' log' := by
  intro a ha cmd start hCmd hStart
  rcases hExt.mem ha with hOld | hP
  · exact (h a hOld cmd start hCmd hStart).trans hNow
  · exact hNew a cmd start hP hCmd hStart

-- ---------------------------------------------------------------------------
-- How a lease stays active
-- ---------------------------------------------------------------------------

namespace Guard

variable {b : Backend} {o : AcquireOptions} {now : Int} {g : Guard} {e : GuardEvent}

/-- **A lease that is active after an event** is the old one, or was renewed with
the stamp of a renewal that succeeded. -/
theorem lease_next (h : (g.next b o now e).lease.state = .active) :
    (g.next b o now e).lease = g.lease ∨
      ∃ start, e = .renewReply (some true) ∧ g.renewal = .renewing start ∧
        (g.next b o now e).lease = ⟨.active, start, o.effectiveTtl⟩ := by
  cases e with
  | stopSeen | wake | sendRenew | sendRelease | cancelRelease | sendOrphan => exact Or.inl rfl
  | inactiveSeen | check => exact Or.inl (Lease.refresh_of_active h)
  | renewReply reply =>
    unfold next at h ⊢
    dsimp only at h ⊢
    split at h
    · rename_i start hRenewal
      rw [hRenewal]
      unfold afterReply at h ⊢
      cases reply with
      | none => exact Or.inl (Lease.refresh_of_active h)
      | some ok =>
        cases ok with
        | false => exact absurd h (Lease.lose_ne_active _)
        -- the reply of success: the lease starts at the stamp, if it was still active
        | true =>
          rcases Lease.renew_cases now start o.effectiveTtl g.lease with
            ⟨hRenewed, hActive⟩ | ⟨hNot, -⟩
          · dsimp only
            rw [hRenewed, if_pos rfl]
            refine Or.inr ⟨start, rfl, rfl, ?_⟩
            dsimp only
            rw [(Lease.stateAt_eq_active.mp hActive).1]
          · dsimp only at h
            rw [hNot, if_neg Bool.false_ne_true] at h
            exact absurd h (Lease.lose_ne_active _)
    · rename_i hNot
      cases hRenewal : g.renewal with
      | renewing start => exact absurd hRenewal (hNot start)
      | _ => exact Or.inl rfl
  | beginRelease => exact absurd h (Lease.lose_ne_active _)
  | releaseReply ok =>
    cases ok with
    | true => exact absurd h (Lease.release_ne_active _)
    | false => exact Or.inl rfl
  | drop =>
    unfold next at h ⊢
    dsimp only at h ⊢
    split at h
    · rename_i hIf
      rw [if_pos hIf]
      exact Or.inl rfl
    · exact absurd h (Lease.release_ne_active _)

/-- A guard whose lease is not active has marked it. -/
theorem ok_of_inactive (h : g.lease.state ≠ .active) : g.Ok := fun _ => h

/-- A dropped guard has marked its lease. -/
theorem Ok.drop (h : g.Ok) : (g.next b o now .drop).Ok := by
  intro _
  unfold Guard.next
  dsimp only
  split
  · rename_i hReleased
    exact h (Or.inr (Or.inl hReleased.2))
  · exact Lease.release_ne_active _

/-- A drop that offers a release has marked the lease. -/
theorem drop_inactive {x : Sent} (hSent : g.sent now .drop = some x) :
    (g.next b o now .drop).lease.state ≠ .active := by
  unfold sent at hSent
  dsimp only at hSent
  split at hSent
  · rename_i hIf
    rw [Bool.and_eq_true, Bool.not_eq_true'] at hIf
    unfold Guard.next
    dsimp only
    rw [if_neg (by rw [hIf.1]; exact fun hNo => Bool.false_ne_true hNo.2)]
    exact Lease.release_ne_active _
  · cases hSent

/-- A renewal is stamped when it is sent. -/
theorem sent_renew {start : Int} (h : g.sent now e = some (.renew start)) : start = now := by
  cases e with
  | sendRenew =>
    cases h
    rfl
  | sendRelease | sendOrphan => cases h
  | drop => exact absurd (sent_drop h) fun hNo => (nomatch hNo)
  | _ => exact absurd h fun hNo => (nomatch hNo)

end Guard

-- ---------------------------------------------------------------------------
-- The guard and its history
-- ---------------------------------------------------------------------------

/-- The history bears out an active lease. -/
structure Earned (o : AcquireOptions) (l : Lease) (log : List Action) : Prop where
  ttl : l.ttl = o.effectiveTtl
  success : .reply l.start .acquired ∈ log ∨ .renewReply l.start (some true) ∈ log
  unyielded : ∀ x, .guard x ∈ log → x.yields = false

/-- What a request knows of its guard, if it has made one. -/
structure Claimed (o : AcquireOptions) (guard : Option Guard) (log : List Action) : Prop where
  ok : ∀ g, guard = some g → g.Ok
  earned : ∀ g, guard = some g → g.lease.state = .active → Earned o g.lease log
  bare : guard = none → ∀ x, .guard x ∉ log

variable {o : AcquireOptions} {log log' new : List Action} {guard : Option Guard} {g : Guard}
  {b : Backend} {now : Int} {e : GuardEvent}

/-- New entries bear out what the old ones did, unless one gives up the lock. -/
theorem Earned.append {l : Lease} (h : Earned o l log)
    (hNew : ∀ x, .guard x ∈ new → x.yields = false) : Earned o l (new ++ log) where
  ttl := h.ttl
  success := h.success.imp (List.mem_append_right _) (List.mem_append_right _)
  unyielded x hx := (List.mem_append.mp hx).elim (hNew x) (h.unyielded x)

/-- No release at all was sent against an active lease. -/
theorem Earned.unreleased {l : Lease} (h : Earned o l log) (hQuiet : Quiet log) :
    ∀ a ∈ log, a.command ≠ some .release := by
  intro a ha hRelease
  have hOwn := hQuiet a ha
  cases a with
  | release sent | offer => cases hOwn
  | guard x =>
    have hUnyielded := h.unyielded x ha
    cases x with
    | renew start => cases hRelease
    | release | offer => cases hUnyielded
  | attempt start => cases hRelease
  | _ => exact absurd hRelease fun hNo => (nomatch hNo)

/-- A request that has not begun has no guard. -/
theorem claimed_nil (o : AcquireOptions) : Claimed o none [] where
  ok _ hNo := nomatch hNo
  earned _ hNo := nomatch hNo
  bare _ _ hNo := nomatch hNo

/-- Entries that are not the guard's change nothing. -/
theorem Claimed.extends {P : Action → Prop} (h : Claimed o guard log) (hExt : Extends P log log')
    (hP : ∀ x, ¬ P (.guard x)) : Claimed o guard log' := by
  obtain ⟨new, rfl, hNew⟩ := hExt
  refine ⟨h.ok, fun g hGuard hActive => ?_, fun hNone x hx => ?_⟩
  · exact (h.earned g hGuard hActive).append fun x hx => absurd (hNew _ hx) (hP x)
  · rcases List.mem_append.mp hx with hx | hx
    · exact hP x (hNew _ hx)
    · exact h.bare hNone x hx

/-- A lease that is not active needs nothing. -/
theorem claimed_of_inactive (hInactive : g.lease.state ≠ .active) : Claimed o (some g) log where
  ok := by
    rintro g' ⟨⟩
    exact Guard.ok_of_inactive hInactive
  earned := by
    rintro g' ⟨⟩ hActive
    exact absurd hActive hInactive
  bare hNo := nomatch hNo

/-- `GuardData::new` after a success. -/
theorem Claimed.made {start : Int} (h : Claimed o none log) (hWon : .reply start .acquired ∈ log) :
    Claimed o (some (Guard.new o (Lease.new start o.effectiveTtl) start)) log where
  ok := by
    rintro g' ⟨⟩
    exact Guard.ok_new
  earned := by
    rintro g' ⟨⟩ -
    exact ⟨rfl, Or.inl hWon, fun x hx => absurd hx (h.bare rfl x)⟩
  bare hNo := nomatch hNo

/-- **An event of the guard** that sends nothing against an active lease. -/
theorem Claimed.event (h : Claimed o (some g) log) (hOk : (g.next b o now e).Ok)
    (hSent : ∀ x, g.sent now e = some x → x.yields = true →
      (g.next b o now e).lease.state ≠ .active)
    (hReply : ∀ start, e = .renewReply (some true) → g.renewal = .renewing start →
      .renewReply start (some true) ∈ log) :
    Claimed o (some (g.next b o now e)) ((g.sent now e).toList.map .guard ++ log) := by
  by_cases hActive : (g.next b o now e).lease.state = .active
  -- it was active before, since nothing makes a lease active again
  · have hOld : g.lease.state = .active := by
      by_contra hNot
      exact Guard.inactive_next e hNot hActive
    have hNew : ∀ x, Action.guard x ∈ (g.sent now e).toList.map Action.guard →
        x.yields = false := by
      intro x hx
      obtain ⟨x', hx', hEq⟩ := List.mem_map.mp hx
      cases hEq
      rw [← Bool.not_eq_true]
      exact fun hYields => hSent x (Option.mem_toList.mp hx') hYields hActive
    refine ⟨?_, ?_, fun hNo => (nomatch hNo)⟩
    · rintro g' ⟨⟩
      exact hOk
    · rintro g' ⟨⟩ -
      have hEarned := h.earned g rfl hOld
      -- the same lease, with its old evidence, or the one of this reply
      rcases Guard.lease_next hActive with hSame | ⟨start, rfl, hRenewal, hLease⟩
      · rw [hSame]
        exact hEarned.append hNew
      · rw [hLease]
        have hMem := hReply start rfl hRenewal
        exact Earned.append ⟨rfl, Or.inr hMem, hEarned.unyielded⟩ hNew
  · exact claimed_of_inactive hActive

-- ---------------------------------------------------------------------------
-- What a step does to both
-- ---------------------------------------------------------------------------

/-- The guard sends this. -/
def Action.byGuard : Action → Bool
  | .guard _ => true
  | _ => false

/-- An entry that the guard does not send; an attempt only with a stamp in `T`. -/
structure Foreign (T : Int → Prop) (a : Action) : Prop where
  notGuard : a.byGuard = false
  attempt : ∀ start, a = .attempt start → T start

/-- An entry that is neither of the guard nor an attempt. -/
theorem foreign_of_plain {T : Int → Prop} {a : Action} (hGuard : a.byGuard = false)
    (hAttempt : a.isAttempt = false) : Foreign T a where
  notGuard := hGuard
  attempt start hNo := by
    rw [hNo] at hAttempt
    cases hAttempt

/-- The stamp of an attempt is in the past, and the other entries have none. -/
theorem Foreign.stamp_le {T : Int → Prop} {now : Int} (hT : ∀ start, T start → start ≤ now)
    (a : Action) (cmd : Command) (start : Int) (h : Foreign T a) (hCmd : a.command = some cmd)
    (hStart : cmd.stamp = some start) : start ≤ now := by
  obtain ⟨hGuard, hAttempt⟩ := h
  cases a with
  | attempt start' =>
    cases hCmd
    cases hStart
    exact hT _ (hAttempt _ rfl)
  | guard x => cases hGuard
  | release sent =>
    cases sent <;> cases hCmd
    cases hStart
  | offer =>
    cases hCmd
    cases hStart
  | reply _ _ | saw _ _ _ | result _ | renewReply _ _ => cases hCmd

/-- What a step may do to a guard and the history of its request, when it may make
an attempt with a stamp in `T`. -/
inductive Handled (T : Int → Prop) (b : Backend) (o : AcquireOptions) (now : Int) :
    Option Guard → List Action → Option Guard → List Action → Prop
  | kept (guard : Option Guard) {log log' : List Action} (hExt : Extends (Foreign T) log log') :
      Handled T b o now guard log guard log'
  /-- `lease.state()` of the caller -/
  | read (guard : Option Guard) (log : List Action) :
      Handled T b o now guard log
        (guard.map fun (g : Guard) => { g with lease := g.lease.refresh now }) log
  | dropped (g : Guard) (log : List Action) :
      Handled T b o now (some g) log (some (g.next b o now .drop))
        ((g.sent now .drop).toList.map .guard ++ log)
  | event (g : Guard) (log : List Action) {e : GuardEvent} (hEn : g.enabled b now e = true)
      (hReply : ∀ start, e = .renewReply (some true) → g.renewal = .renewing start →
        .renewReply start (some true) ∈ log) :
      Handled T b o now (some g) log (some (g.next b o now e))
        ((g.sent now e).toList.map .guard ++ log)
  /-- a guard that nobody took is given up -/
  | yielded (g g' : Guard) (log : List Action) (h : g'.lease.state ≠ .active) :
      Handled T b o now (some g) log (some g') log
  | trans {guard₁ guard₂ guard₃ : Option Guard} {log₁ log₂ log₃ : List Action}
      (h : Handled T b o now guard₁ log₁ guard₂ log₂)
      (h' : Handled T b o now guard₂ log₂ guard₃ log₃) :
      Handled T b o now guard₁ log₁ guard₃ log₃

variable {T : Int → Prop} {guard' : Option Guard}

/-- A step neither makes a guard nor takes it away. -/
theorem Handled.none_iff (h : Handled T b o now guard log guard' log') :
    guard' = none ↔ guard = none := by
  induction h with
  | kept _ hExt => exact Iff.rfl
  | read _ log => exact Option.map_eq_none_iff
  | dropped g log | event g log hEn hReply | yielded g g' log h =>
    exact ⟨fun hNo => (nomatch hNo), fun hNo => (nomatch hNo)⟩
  | trans h h' ih ih' => exact ih'.trans ih

/-- Looking at the clock makes no lease active. -/
theorem inactive_refresh {l : Lease} (h : l.state ≠ .active) : (l.refresh now).state ≠ .active := by
  intro hActive
  rw [Lease.refresh_of_active hActive] at hActive
  exact h hActive

/-- A lease that is not active stays so. -/
theorem Handled.inactive (h : Handled T b o now guard log guard' log')
    (hOld : ∀ g, guard = some g → g.lease.state ≠ .active) :
    ∀ g, guard' = some g → g.lease.state ≠ .active := by
  induction h with
  | kept _ hExt => exact hOld
  | read _ log =>
    intro g' hMap
    obtain ⟨g, hGuard, rfl⟩ := Option.map_eq_some_iff.mp hMap
    exact inactive_refresh (hOld g hGuard)
  | dropped g log | event g log hEn hReply =>
    rintro g' ⟨⟩
    exact Guard.inactive_next _ (hOld g rfl)
  | yielded g g' log hInactive =>
    rintro g'' ⟨⟩
    exact hInactive
  | trans h h' ih ih' => exact ih' (ih hOld)

theorem Handled.mem {a : Action} (h : Handled T b o now guard log guard' log') (ha : a ∈ log) :
    a ∈ log' := by
  induction h with
  | kept _ hExt => exact hExt.mem_old ha
  | read _ log | yielded g g' log h => exact ha
  | dropped g log | event g log hEn hReply => exact List.mem_append_right _ ha
  | trans h h' ih ih' => exact ih' (ih ha)

/-- **A step keeps what the guard can prove.** -/
theorem Handled.claimed (h : Handled T b o now guard log guard' log')
    (hOld : Claimed o guard log) : Claimed o guard' log' := by
  induction h with
  | kept _ hExt => exact hOld.extends hExt fun x hNo => (nomatch hNo.notGuard)
  | read guard log =>
    cases guard with
    | none => exact hOld
    | some g =>
      by_cases hActive : (g.lease.refresh now).state = .active
      · have hSame : ({ g with lease := g.lease.refresh now } : Guard) = g := by
          rw [Lease.refresh_of_active hActive]
        rw [Option.map_some, hSame]
        exact hOld
      · exact claimed_of_inactive hActive
  | dropped g log =>
    exact hOld.event (hOld.ok g rfl).drop (fun _ hSent _ => Guard.drop_inactive hSent)
      fun _ hNo => (nomatch hNo)
  | event g log hEn hReply =>
    have hOk := hOld.ok g rfl
    refine hOld.event (hOk.next hEn) (fun x hSent hYields => ?_) hReply
    refine hOk.sent_inactive hEn ?_
    cases x with
    | renew start => cases hYields
    | release => exact Or.inl hSent
    | offer => exact Or.inr hSent
  | yielded g g' log hInactive => exact claimed_of_inactive hInactive
  | trans h h' ih ih' => exact ih' (ih hOld)

/-- What the guard sends is stamped with the time it is sent. -/
theorem stamped_sent (h : Stamped now log) (e : GuardEvent) :
    Stamped now ((g.sent now e).toList.map .guard ++ log) := by
  intro a ha cmd start hCmd hStart
  rcases List.mem_append.mp ha with hNew | hOld
  · obtain ⟨x, hx, rfl⟩ := List.mem_map.mp hNew
    cases x with
    | renew start' =>
      cases hCmd
      cases hStart
      exact (Guard.sent_renew (Option.mem_toList.mp hx)).le
    | release | offer =>
      cases hCmd
      cases hStart
  · exact h a hOld cmd start hCmd hStart

/-- **A step keeps the stamps in the past**, when those of its attempts are. -/
theorem Handled.stamped (h : Handled T b o now guard log guard' log')
    (hT : ∀ start, T start → start ≤ now)
    (hOld : Stamped now log) : Stamped now log' := by
  induction h with
  | kept _ hExt => exact hOld.extends le_rfl hExt (Foreign.stamp_le hT)
  | read _ log | yielded g g' log hInactive => exact hOld
  | dropped g log | event g log hEn hReply => exact stamped_sent hOld _
  | trans h h' ih ih' => exact ih' (ih hOld)

end RLock.Client
