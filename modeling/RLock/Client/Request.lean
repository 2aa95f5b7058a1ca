import RLock.Client.Builder
import RLock.Scripts.Effects

/-!
# RLock — what a request sends to Redis

The target and token of a request (`lock_request.rs`) and the three operations
of `operations.rs`, which choose a command for them. Both backends have the same
operations; the TTL argument is the one the options give.

A single-key mutex is acquired by `SET … NX PX` and everything else by a script.
Renewals and releases always go through a script. The sections above this module
never ask which it was: they work with `Attempted`, the three outcomes of a
command, and with the deadline that the command grants.

## Results

* `LockRequest.call_touches` — every command names all keys of its target, its
  kind and its token.
* `LockRequest.attempted` — an acquire or renew has one of three outcomes.
* `LockRequest.deadline_of_exact` — in the exact range it has a deadline to
  grant, and `LockRequest.deadline_of_one` says which one a reply 1 granted.
-/

namespace RLock.Client

open RLock.Redis RLock.Scripts

/-- The keys of a lock and how it is held. -/
inductive LockTarget
  | single (key : Key)
  | multiple (keys : List Key)
  | read (key : Key)
  | write (key : Key)
  | multipleRead (keys : List Key)
  | multipleWrite (keys : List Key)
  deriving DecidableEq, Repr

namespace LockTarget

def keys : LockTarget → List Key
  | .single key => [key]
  | .multiple keys => keys
  | .read key => [key]
  | .write key => [key]
  | .multipleRead keys => keys
  | .multipleWrite keys => keys

/-- Which of the scripts `acquire_script`, `renew_script` and `release_script`
return. -/
def kind : LockTarget → Kind
  | .single _ => .mutex
  | .multiple _ => .mutex
  | .read _ => .read
  | .write _ => .write
  | .multipleRead _ => .read
  | .multipleWrite _ => .write

end LockTarget

/-- What all commands of one lock share: where it is and who asks. -/
structure LockRequest where
  target : LockTarget
  uuid : String
  deriving DecidableEq, Repr

/-- A command of a request, with the `Instant` taken before it. -/
inductive Command
  | acquire (start : Int)
  | renew (start : Int)
  | release
  deriving DecidableEq, Repr

namespace Command

/-- The `Instant` that a lease would run from. -/
def stamp : Command → Option Int
  | .acquire start => some start
  | .renew start => some start
  | .release => none

/-- What a command attempts, if it is no release. -/
def op : Command → Option Op
  | .acquire _ => some .acquire
  | .renew _ => some .renew
  | .release => none

/-- Every command but the release attempts something. -/
theorem exists_op {cmd : Command} (h : cmd ≠ .release) : ∃ op, cmd.op = some op := by
  cases cmd with
  | acquire start => exact ⟨.acquire, rfl⟩
  | renew start => exact ⟨.renew, rfl⟩
  | release => exact absurd rfl h

end Command

namespace LockRequest

/-- `acquire_lock`; a single-key mutex is acquired by `SET … NX PX`. -/
def acquireLock (r : LockRequest) (ttl : String) : Call :=
  match r.target with
  | .single key => .setNx key r.uuid ttl
  | target => .attempt .acquire target.kind target.keys r.uuid (some ttl)

/-- `renew_lock` -/
def renewLock (r : LockRequest) (ttl : String) : Call :=
  .attempt .renew r.target.kind r.target.keys r.uuid (some ttl)

/-- `release_lock` -/
def releaseLock (r : LockRequest) : Call := .release r.target.kind r.target.keys r.uuid

/-- The call to Redis that a command stands for. -/
def call (r : LockRequest) (ttl : String) : Command → Call
  | .acquire _ => r.acquireLock ttl
  | .renew _ => r.renewLock ttl
  | .release => r.releaseLock

section

variable (r : LockRequest) (ttl : String)

/-- Every command names all keys of the request, its kind and its token. -/
theorem call_touches (cmd : Command) :
    (r.call ttl cmd).keys = r.target.keys ∧ (r.call ttl cmd).kind = r.target.kind ∧
      (r.call ttl cmd).token = r.uuid := by
  cases cmd with
  | acquire start =>
    unfold call acquireLock
    cases r.target <;> exact ⟨rfl, rfl, rfl⟩
  | renew start => exact ⟨rfl, rfl, rfl⟩
  | release => exact ⟨rfl, rfl, rfl⟩

/-- A call releases exactly if its command does. -/
theorem call_isRelease (cmd : Command) :
    (r.call ttl cmd).isRelease = true ↔ cmd = .release := by
  cases cmd with
  | acquire start =>
    unfold call acquireLock
    cases r.target <;> exact ⟨fun hNo => (nomatch hNo), fun hNo => (nomatch hNo)⟩
  | renew start => exact ⟨fun hNo => (nomatch hNo), fun hNo => (nomatch hNo)⟩
  | release => exact ⟨fun _ => rfl, fun _ => rfl⟩

/-- **An acquire or renew** fails, is refused or is granted on all keys. -/
theorem attempted {cmd : Command} {op : Op} (h : cmd.op = some op) (c : Clock) (s : Keyspace) :
    Attempted op r.target.kind c.ms r.target.keys r.uuid ((r.call ttl cmd).deadline c) s
      (((r.call ttl cmd).exec c).run s) := by
  cases cmd with
  | acquire start =>
    cases h
    unfold call acquireLock
    cases r.target with
    | single key => exact setNx_effect c key r.uuid ttl s
    | multiple keys => exact attempt_effect .acquire .mutex c keys r.uuid (some ttl) s
    | read key => exact attempt_effect .acquire .read c [key] r.uuid (some ttl) s
    | write key => exact attempt_effect .acquire .write c [key] r.uuid (some ttl) s
    | multipleRead keys => exact attempt_effect .acquire .read c keys r.uuid (some ttl) s
    | multipleWrite keys => exact attempt_effect .acquire .write c keys r.uuid (some ttl) s
  | renew start =>
    cases h
    exact attempt_effect .renew r.target.kind c r.target.keys r.uuid (some ttl) s
  | release => cases h

variable {r}

/-- The deadline that a command with a validated TTL grants, if it grants one. -/
theorem deadline_eq {o : AcquireOptions} {cmd : Command} {c : Clock} {deadline : Int}
    (h : (r.call o.ttlArg cmd).deadline c = some deadline) : deadline = c.ms + o.ttlMillis := by
  have hTtl := ttlPreflight_ttlArg o
  have hGrant : ∀ kind, grantDeadline kind c (some o.ttlArg) = some deadline →
      deadline = c.ms + o.ttlMillis := by
    intro kind hSome
    obtain ⟨raw, ttl, ⟨hOk, -⟩, rfl⟩ := grantDeadline_eq_some.mp hSome
    rw [hTtl] at hOk
    cases hOk
    rfl
  cases cmd with
  | acquire start =>
    unfold call acquireLock at h
    cases hTarget : r.target with
    -- `SET … PX` has no preflight of its own, but reads the same number
    | single key =>
      rw [hTarget] at h
      change (deadlineOf c.ms o.ttlArg).toOption = some deadline at h
      rw [deadlineOf_of_ttlPreflight hTtl c] at h
      exact (Option.some.inj h).symm
    | multiple keys | read key | write key | multipleRead keys | multipleWrite keys =>
      rw [hTarget] at h
      exact hGrant _ h
  | renew start => exact hGrant _ h
  | release => cases h

/-- Within the exact range every acquire and renew has a deadline to grant. -/
theorem deadline_of_exact {o : AcquireOptions} {cmd : Command} (hCmd : cmd ≠ .release) {c : Clock}
    (hNow : 0 ≤ c.ms) (hLe : c.ms + o.ttlMillis ≤ Lua.maxSafe) :
    (r.call o.ttlArg cmd).deadline c = some (c.ms + o.ttlMillis) := by
  have hTtl := ttlPreflight_ttlArg o
  have hGrant : ∀ kind, grantDeadline kind c (some o.ttlArg) = some (c.ms + o.ttlMillis) :=
    fun _ => grantDeadline_eq_some.mpr ⟨_, _, ⟨hTtl, fun _ => ⟨hNow, hLe⟩⟩, rfl⟩
  cases cmd with
  | acquire start =>
    unfold call acquireLock
    cases hTarget : r.target with
    | single key =>
      show (deadlineOf c.ms o.ttlArg).toOption = _
      rw [deadlineOf_of_ttlPreflight hTtl c]
      rfl
    | multiple keys | read key | write key | multipleRead keys | multipleWrite keys =>
      exact hGrant _
  | renew start => exact hGrant _
  | release => exact absurd rfl hCmd

/-- What is granted by an acquire or renew that replies 1. -/
theorem deadline_of_one {o : AcquireOptions} {cmd : Command} (hCmd : cmd ≠ .release) {c : Clock}
    {s : Keyspace} (hOne : (((r.call o.ttlArg cmd).exec c).run s).1 = .ok 1) :
    (r.call o.ttlArg cmd).deadline c = some (c.ms + o.ttlMillis) := by
  obtain ⟨op, hOp⟩ := Command.exists_op hCmd
  obtain ⟨d, hDeadline, -, -⟩ := (r.attempted o.ttlArg hOp c s).of_one hOne
  rw [hDeadline, deadline_eq hDeadline]

end

end LockRequest

end RLock.Client
