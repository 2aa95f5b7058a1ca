import RLock.Client.Lease

/-!
# RLock — the guard and its renewal loop

`GuardData` of both backends: the renewal loop that runs beside the guard,
`release()`, and `Drop`. The two backends share one table of events; where
they differ the event looks at `Backend`.

The loop and the owner of the guard take turns in any order, and share the lease, the stop
flag and what is left of the sender. Each event is one step under the locks that the source
takes, so that between the check of the lease and the renewal that follows it anything may
happen: this is why a guard that was marked may still send one renewal.

`release()` sends its command from a task of its own in the async backend. When the caller
goes away before the command is sent, the task stays; such tasks are counted in `orphans`.
What is sent, and whether it goes to Redis or to the release queue, is given by `sent`.

* `Guard.inactive_next` — once the lease is marked, no event makes it active
  again.
* `Guard.Ok.next` — a guard that began to release, was released or dropped has
  marked its lease, so nothing it sends to give up the lock is sent while the
  lease is active.
* `Guard.isReleased_next`, `Guard.next_of_not_owner` — who changes the owner's fields.
-/

namespace RLock.Client

/-- The async or the sync half of the library. -/
inductive Backend
  | async | sync
  deriving DecidableEq, Repr

/-- Where the renewal loop stands. -/
inductive Renewal
  /-- renewal is disabled -/
  | off
  /-- in the `select!` (async) or `recv_timeout` (sync) -/
  | waiting (start : Int) (wait : Nat)
  /-- the wait is over, `lease.state()` is next -/
  | woken
  /-- the lease was active, `Instant::now()` and the command are next -/
  | cleared
  /-- `renew_lock` stamped with `start` is running -/
  | renewing (start : Int)
  | stopped
  deriving DecidableEq, Repr

/-- Where the owner of the guard stands. -/
inductive Owner
  | idle
  /-- in `release()`, the lease is marked, the command not sent yet -/
  | starting
  /-- in `release()`, waiting for the reply -/
  | awaiting
  | dropped
  deriving DecidableEq, Repr

/-- `GuardData` with the renewal loop it spawned. -/
structure Guard where
  lease : Lease
  renewal : Renewal
  /-- `stop_tx` was used or dropped. -/
  stop : Bool
  isReleased : Bool
  /-- `sender` (`release_tx`) is still there. -/
  hasSender : Bool
  owner : Owner
  /-- Release tasks whose caller was cancelled before they sent. -/
  orphans : Nat
  deriving DecidableEq, Repr

/-- What the guard sends to Redis or to the release queue. -/
inductive Sent
  | renew (start : Int)
  | release
  | offer
  deriving DecidableEq, Repr

/-- What may happen to a guard, on either side. -/
inductive GuardEvent
  | stopSeen | inactiveSeen | wake | check | sendRenew
  | renewReply (reply : Option Bool)
  | beginRelease | sendRelease
  | releaseReply (ok : Bool)
  | cancelRelease | sendOrphan | drop
  deriving DecidableEq, Repr

/-- Events that the owner of the guard makes. -/
def GuardEvent.byOwner : GuardEvent → Bool
  | .beginRelease => true
  | .sendRelease => true
  | .releaseReply _ => true
  | .cancelRelease => true
  | .drop => true
  | _ => false

namespace Guard

/-- `GuardData::new` -/
def new (o : AcquireOptions) (lease : Lease) (attemptStart : Int) : Guard where
  lease := lease
  renewal := match o.effectiveRenewInterval with
    | none => .off
    | some interval => .waiting attemptStart interval
  stop := false
  isReleased := false
  hasSender := true
  owner := .idle
  orphans := 0

/-- The guard that `?` drops when its renewal thread could not be spawned. -/
def unspawned (o : AcquireOptions) (lease : Lease) (attemptStart : Int) : Guard :=
  { new o lease attemptStart with renewal := .stopped }

/-- Which events may happen when the clock shows `now`. A reply `none` stands for an
`Err` of `renew_lock`. -/
def enabled (b : Backend) (now : Int) (g : Guard) : GuardEvent → Bool
  | .stopSeen => match g.renewal with
    | .waiting _ _ => g.stop
    | _ => false
  | .inactiveSeen => match g.renewal with
    | .waiting _ _ => b = .async && g.lease.stateAt now ≠ .active
    | _ => false
  | .wake => match g.renewal with
    -- the sync loop also wakes when nothing remains of the lease
    | .waiting start wait =>
      wait ≤ elapsed now start || (b = .sync && g.lease.remaining now = 0)
    | _ => false
  | .check => g.renewal = .woken
  | .sendRenew => g.renewal = .cleared
  | .renewReply _ => match g.renewal with
    | .renewing _ => true
    | _ => false
  | .beginRelease => g.owner = .idle && !g.isReleased
  | .sendRelease => g.owner = .starting
  | .releaseReply _ => g.owner = .awaiting
  | .cancelRelease => b = .async && (g.owner = .starting || g.owner = .awaiting)
  | .sendOrphan => 0 < g.orphans
  | .drop => g.owner = .idle

/-- The arms of `match renew_lock(..)`. -/
def afterReply (o : AcquireOptions) (now start : Int) (reply : Option Bool) (g : Guard) : Guard :=
  match reply with
  | some true =>
    let (renewed, lease) := g.lease.renew now start o.effectiveTtl
    if renewed then
      { g with lease := lease, renewal := .waiting start (o.effectiveRenewInterval.getD 0) }
    else { g with lease := lease.lose, renewal := .stopped }
  | some false => { g with lease := g.lease.lose, renewal := .stopped }
  | none =>
    { g with
      lease := g.lease.refresh now
      renewal := .waiting now (min o.retryInterval (g.lease.remaining now / 2)) }

/-- What an event does to the guard. -/
def next (b : Backend) (o : AcquireOptions) (now : Int) (g : Guard) : GuardEvent → Guard
  | .stopSeen => { g with renewal := .stopped }
  | .inactiveSeen => { g with lease := g.lease.refresh now, renewal := .stopped }
  | .wake => { g with renewal := .woken }
  | .check =>
    { g with
      lease := g.lease.refresh now
      renewal := if g.lease.stateAt now = .active then .cleared else .stopped }
  | .sendRenew => { g with renewal := .renewing now }
  | .renewReply reply => match g.renewal with
    | .renewing start => g.afterReply o now start reply
    | _ => g
  | .beginRelease => { g with lease := g.lease.lose, stop := true, owner := .starting }
  | .sendRelease => { g with owner := .awaiting }
  | .releaseReply true =>
    { g with isReleased := true, lease := g.lease.release, hasSender := false, owner := .idle }
  | .releaseReply false => { g with owner := .idle }
  -- the task that runs `release_lock` goes on without its caller
  | .cancelRelease =>
    { g with owner := .idle, orphans := if g.owner = .starting then g.orphans + 1 else g.orphans }
  | .sendOrphan => { g with orphans := g.orphans - 1 }
  | .drop =>
    if b = .async ∧ g.isReleased then { g with owner := .dropped }
    else { g with lease := g.lease.release, stop := true, hasSender := false, owner := .dropped }

/-- What an event sends. `Drop` offers a release to the queue. -/
def sent (now : Int) (g : Guard) : GuardEvent → Option Sent
  | .sendRenew => some (.renew now)
  | .sendRelease => some .release
  | .sendOrphan => some .release
  | .drop => if !g.isReleased && g.hasSender then some .offer else none
  | _ => none

/-- `drop(guard)` -/
def dropped (b : Backend) (o : AcquireOptions) (now : Int) (g : Guard) : Guard :=
  g.next b o now .drop

/-- A drop sends nothing to Redis itself. -/
theorem sent_drop {now : Int} {g : Guard} {x : Sent} (h : g.sent now .drop = some x) :
    x = .offer := by
  unfold sent at h
  dsimp only at h
  split at h
  · exact (Option.some.inj h).symm
  · cases h

section

variable {b : Backend} {o : AcquireOptions} {now : Int} {g : Guard}

/-- A reply that comes too late does not make the lease active again. -/
theorem afterReply_inactive {start : Int} {reply : Option Bool} (h : g.lease.state ≠ .active) :
    (g.afterReply o now start reply).lease.state ≠ .active := by
  have hRefresh : (g.lease.refresh now).state ≠ .active := by
    unfold Lease.refresh
    split
    · simp
    · exact h
  unfold afterReply
  cases reply with
  | none => exact hRefresh
  | some ok =>
    cases ok with
    | false => exact Lease.lose_ne_active _
    | true =>
      rcases Lease.renew_cases now start o.effectiveTtl g.lease with ⟨-, hActive⟩ | ⟨hNot, -⟩
      · exact absurd hActive hRefresh
      · dsimp only
        rw [hNot, if_neg Bool.false_ne_true]
        exact Lease.lose_ne_active _

/-- **No event makes a marked lease active again.** -/
theorem inactive_next (e : GuardEvent) (h : g.lease.state ≠ .active) :
    (g.next b o now e).lease.state ≠ .active := by
  have hRefresh : (g.lease.refresh now).state ≠ .active := by
    unfold Lease.refresh
    split
    · simp
    · exact h
  cases e with
  | stopSeen => exact h
  | inactiveSeen => exact hRefresh
  | wake => exact h
  | check => exact hRefresh
  | sendRenew => exact h
  | renewReply reply =>
    unfold next
    dsimp only
    split
    · exact afterReply_inactive h
    · exact h
  | beginRelease => exact Lease.lose_ne_active _
  | sendRelease => exact h
  | releaseReply ok =>
    cases ok with
    | true => exact Lease.release_ne_active _
    | false => exact h
  | cancelRelease => exact h
  | sendOrphan => exact h
  | drop =>
    unfold next
    dsimp only
    split
    · exact h
    · exact Lease.release_ne_active _

/-- Only the reply to `release()` marks the guard as released. -/
theorem isReleased_next {e : GuardEvent} (h : (g.next b o now e).isReleased = true) :
    g.isReleased = true ∨ e = .releaseReply true := by
  cases e with
  | renewReply reply =>
    refine Or.inl ?_
    unfold next afterReply at h
    dsimp only at h
    repeat' split at h
    all_goals exact h
  | releaseReply ok =>
    cases ok with
    | true => exact Or.inr rfl
    | false => exact Or.inl h
  | drop =>
    refine Or.inl ?_
    unfold next at h
    dsimp only at h
    split at h
    all_goals exact h
  | stopSeen | inactiveSeen | wake | check | sendRenew | beginRelease | sendRelease
  | cancelRelease | sendOrphan => exact Or.inl h

/-- What is not the owner's doing neither releases the guard nor takes its sender. -/
theorem next_of_not_owner (b : Backend) (o : AcquireOptions) (now : Int) (g : Guard)
    {e : GuardEvent} (h : e.byOwner = false) :
    (g.next b o now e).hasSender = g.hasSender ∧ (g.next b o now e).isReleased = g.isReleased := by
  cases e with
  | renewReply reply =>
    unfold next afterReply
    dsimp only
    repeat' split
    all_goals exact ⟨rfl, rfl⟩
  | beginRelease | sendRelease | releaseReply _ | cancelRelease | drop => cases h
  | stopSeen | inactiveSeen | wake | check | sendRenew | sendOrphan => exact ⟨rfl, rfl⟩

/-- The guard has begun to give up the lock. -/
def givingUp (g : Guard) : Prop :=
  g.owner ≠ .idle ∨ g.isReleased = true ∨ 0 < g.orphans

/-- A guard that gives up the lock has marked its lease. -/
def Ok (g : Guard) : Prop := g.givingUp → g.lease.state ≠ .active

/-- A guard that was just made has nothing to mark. -/
theorem ok_new {lease : Lease} {attemptStart : Int} : Ok (new o lease attemptStart) := by
  rintro (hOwner | hReleased | hOrphans)
  · exact absurd rfl hOwner
  · cases hReleased
  · exact absurd hOrphans (lt_irrefl 0)

/-- A guard begins to give up the lock when its owner releases or drops it. -/
theorem givingUp_next {e : GuardEvent} (hEn : g.enabled b now e = true)
    (h : (g.next b o now e).givingUp) :
    g.givingUp ∨ e = .beginRelease ∨ e = .drop := by
  by_contra hNot
  push Not at hNot
  obtain ⟨hIdle, hBegin, hDrop⟩ := hNot
  unfold givingUp at hIdle
  push Not at hIdle
  obtain ⟨hOwner, hReleased, hOrphans⟩ := hIdle
  cases e with
  | beginRelease => exact hBegin rfl
  | drop => exact hDrop rfl
  | sendRelease => simp [enabled, hOwner] at hEn
  | releaseReply ok => simp [enabled, hOwner] at hEn
  | cancelRelease => simp [enabled, hOwner] at hEn
  | sendOrphan =>
    have hPos : 0 < g.orphans := by simpa [enabled] using hEn
    exact absurd hPos (not_lt.mpr hOrphans)
  | renewReply reply =>
    have hSame : (g.next b o now (.renewReply reply)).owner = g.owner ∧
        (g.next b o now (.renewReply reply)).isReleased = g.isReleased ∧
        (g.next b o now (.renewReply reply)).orphans = g.orphans := by
      unfold next afterReply
      dsimp only
      repeat' split
      all_goals exact ⟨rfl, rfl, rfl⟩
    rw [givingUp, hSame.1, hSame.2.1, hSame.2.2] at h
    rcases h with h | h | h
    · exact h hOwner
    · exact hReleased h
    · exact absurd h (not_lt.mpr hOrphans)
  | stopSeen | inactiveSeen | wake | check | sendRenew =>
    rcases h with h | h | h
    · exact h hOwner
    · exact hReleased h
    · exact absurd h (not_lt.mpr hOrphans)

/-- **An event keeps it so**: whoever begins to give up the lock marks the lease first. -/
theorem Ok.next {e : GuardEvent} (h : g.Ok) (hEn : g.enabled b now e = true) :
    (g.next b o now e).Ok := by
  intro hGiving
  rcases givingUp_next hEn hGiving with hBefore | rfl | rfl
  · exact inactive_next e (h hBefore)
  · exact Lease.lose_ne_active _
  · -- dropping an async guard that was released leaves the lease released
    unfold Guard.next
    dsimp only
    split
    · rename_i hReleased
      exact h (Or.inr (Or.inl hReleased.2))
    · exact Lease.release_ne_active _

/-- What a guard sends to give up the lock, it sends with the lease marked. -/
theorem Ok.sent_inactive {e : GuardEvent} (h : g.Ok) (hEn : g.enabled b now e = true)
    (hSent : g.sent now e = some .release ∨ g.sent now e = some .offer) :
    (g.next b o now e).lease.state ≠ .active := by
  cases e with
  | sendRelease =>
    have hOwner : g.owner = .starting := by simpa [enabled] using hEn
    exact h (Or.inl (by simp [hOwner]))
  | sendOrphan =>
    have hOrphans : 0 < g.orphans := by simpa [enabled] using hEn
    exact h (Or.inr (Or.inr hOrphans))
  -- the drop marks the lease in the step that sends
  | drop =>
    have hNext := h.next (o := o) hEn
    refine hNext (Or.inl ?_)
    unfold Guard.next
    dsimp only
    split <;> simp
  | _ => simp [sent] at hSent

end

end Guard

end RLock.Client
