import RLock.Redis.Lua

/-!
# RLock — durations and acquisition options

A `Duration` is a natural number of nanoseconds, an `Instant` an integer on the
same scale. Differences of instants go through `elapsed`, which is zero when the clock
shows less than the start, as `saturating` subtraction of instants does.

`AcquireOptions` is only ever built by `AcquireOptionsBuilder::build` or
`AcquireOptions::new`, so what `build` checks is carried by the type. The TTL is counted
in milliseconds on the wire and in nanoseconds in the client; the effective TTL is the
one both count with, cut down to full milliseconds.

* `AcquireOptions.effectiveTtl_eq`, `AcquireOptions.ttlMillis_eq` — the cast to 64 bits
  in between changes nothing.
-/

namespace RLock.Client

/-- `Duration::from_millis` -/
def fromMillis (ms : Nat) : Nat := ms * 1000000

/-- `Duration::as_millis` -/
def asMillis (d : Nat) : Nat := d / 1000000

/-- `n as u64` -/
def asU64 (n : Nat) : Nat := n % 2 ^ 64

theorem asMillis_fromMillis (ms : Nat) : asMillis (fromMillis ms) = ms := by
  unfold asMillis fromMillis
  omega

/-- `start.elapsed()` when the clock shows `now`; it never goes below zero. -/
def elapsed (now start : Int) : Nat := (now - start).toNat

/-- The renewal setting: `none` disables it, `some none` renews at half of the
TTL. -/
abbrev RenewInterval := Option (Option Nat)

/-- The interval that is used with a TTL. -/
def renewIntervalFor (ttl : Nat) (renew : RenewInterval) : Option Nat :=
  renew.map fun interval => interval.getD (ttl / 2)

/-- Validated options of an acquisition. -/
structure AcquireOptions where
  retryInterval : Nat
  lockTimeout : Option Nat
  ttl : Nat
  renewInterval : RenewInterval
  ttlPos : 1 ≤ asMillis ttl
  ttlLe : (asMillis ttl : Int) ≤ Lua.maxSafe
  retryPos : 0 < retryInterval
  renewOk : ∀ interval ∈ renewIntervalFor (fromMillis (asMillis ttl)) renewInterval,
    1 ≤ asMillis interval ∧ interval < fromMillis (asMillis ttl)

namespace AcquireOptions

/-- `AcquireOptions::new`, the defaults. -/
def new : AcquireOptions where
  retryInterval := fromMillis 100
  lockTimeout := none
  ttl := fromMillis 10000
  renewInterval := some none
  ttlPos := by decide
  ttlLe := by decide
  retryPos := by decide
  renewOk := by
    intro interval hMem
    cases hMem
    decide

/-- The TTL the client counts with, in full milliseconds. -/
def effectiveTtl (o : AcquireOptions) : Nat := fromMillis (asU64 (asMillis o.ttl))

/-- The TTL argument of every command, `ttl.as_millis()` of the effective TTL. -/
def ttlMillis (o : AcquireOptions) : Nat := asMillis o.effectiveTtl

/-- The interval between renewals, if they are enabled. -/
def effectiveRenewInterval (o : AcquireOptions) : Option Nat :=
  renewIntervalFor o.effectiveTtl o.renewInterval

/-- The cast keeps every TTL that was checked. -/
theorem asU64_ttl (o : AcquireOptions) : asU64 (asMillis o.ttl) = asMillis o.ttl := by
  have hLe := o.ttlLe
  unfold Lua.maxSafe at hLe
  unfold asU64
  omega

/-- The effective TTL is the TTL in full milliseconds. -/
theorem effectiveTtl_eq (o : AcquireOptions) : o.effectiveTtl = fromMillis (asMillis o.ttl) := by
  rw [effectiveTtl, asU64_ttl]

/-- The TTL that is sent is the one that was given, in full milliseconds. -/
theorem ttlMillis_eq (o : AcquireOptions) : o.ttlMillis = asMillis o.ttl := by
  rw [ttlMillis, effectiveTtl_eq, asMillis_fromMillis]

end AcquireOptions

/-- `deadline_elapsed`: a limit has passed since `start`. -/
def deadlineElapsed (now start : Int) (timeout : Option Nat) : Bool :=
  match timeout with
  | none => false
  | some limit => limit ≤ elapsed now start

/-- A deadline that was missed stays missed. -/
theorem deadlineElapsed_mono {now now' start : Int} {timeout : Option Nat} (h : now ≤ now')
    (hLate : deadlineElapsed now start timeout = true) :
    deadlineElapsed now' start timeout = true := by
  unfold deadlineElapsed elapsed at *
  cases timeout with
  | none => exact hLate
  | some limit =>
    rw [decide_eq_true_eq] at *
    omega

end RLock.Client
