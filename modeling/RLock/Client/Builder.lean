import RLock.Lib.Decimal
import RLock.Scripts.Preflight
import RLock.Client.Options

/-!
# RLock — the options builder and the script preflights

A TTL is checked twice: by `AcquireOptionsBuilder::build` in the client and by
the preflight of every script on the server. The two validators are written in
two languages; here they are shown to draw the same line, and the string one
of them sends to be read by the other as the number both sides use.

The client's check is on a `Duration` and the server's on a string. Between them stands
`to_string`, so the agreement rests on decimal numerals: the preflight accepts exactly
the strings that are the numeral of a number between 1 and `2 ^ 53 - 1`, and every TTL
that `build` accepted is sent as one of them. The bounds of the expiry preflight come
after that; within them every number a script goes on to compute with is exact.

The renewal interval has checks of its own. They look at an interval that `build`
computes from the effective TTL, and the guard later computes one again from the options:
the two are the same.

## Results

* `build_ok_iff` — what `build` accepts.
* `ttlPreflight_ok_iff` — what `TTL_PREFLIGHT` accepts, among all strings.
* `ttlPreflight_ttlArg` — the TTL of validated options passes the preflight and
  is read back.
* `builder_agrees` — the agreement, with the bounds of the expiry preflight.
-/

namespace RLock.Client

open RLock.Redis RLock.Scripts

/-- `MAX_TTL_MILLIS` -/
def maxTtlMillis : Nat := 2 ^ 53 - 1

/-- Errors for building acquisition options. -/
inductive AcquireOptionsBuildError
  | ttlTooShort
  | ttlTooLong
  | retryIntervalIsZero
  | renewIntervalTooShort
  | renewIntervalNotLessThanTtl
  deriving DecidableEq, Repr

/-- The text of the error. -/
def AcquireOptionsBuildError.message : AcquireOptionsBuildError → String
  | .ttlTooShort => "ttl must be at least 1 millisecond"
  | .ttlTooLong => "ttl exceeds the exact integer range of Lua"
  | .retryIntervalIsZero => "retry_interval must not be zero"
  | .renewIntervalTooShort => "renew_interval must be at least 1 millisecond"
  | .renewIntervalNotLessThanTtl => "renew_interval must be shorter than the effective ttl"

/-- Settings that were not checked yet. -/
structure AcquireOptionsBuilder where
  retryInterval : Nat
  lockTimeout : Option Nat
  ttl : Nat
  renewInterval : RenewInterval
  deriving DecidableEq, Repr

namespace AcquireOptionsBuilder

/-- `AcquireOptionsBuilder::new` -/
def new : AcquireOptionsBuilder where
  retryInterval := fromMillis 100
  lockTimeout := none
  ttl := fromMillis 10000
  renewInterval := some none

/-- The local `effective_ttl` of `build`. -/
def effectiveTtl (b : AcquireOptionsBuilder) : Nat := fromMillis (asU64 (asMillis b.ttl))

/-- The local `renew_interval` of `build`, the one its checks look at. -/
def checkedInterval (b : AcquireOptionsBuilder) : Option Nat :=
  renewIntervalFor b.effectiveTtl b.renewInterval

/-- The checks of `build`, in their order. -/
def check (b : AcquireOptionsBuilder) : Option AcquireOptionsBuildError :=
  if asMillis b.ttl = 0 then some .ttlTooShort
  else if asMillis b.ttl > maxTtlMillis then some .ttlTooLong
  else if b.retryInterval = 0 then some .retryIntervalIsZero
  else
    match b.checkedInterval with
    | none => none
    | some interval =>
      if asMillis interval = 0 then some .renewIntervalTooShort
      else if interval ≥ b.effectiveTtl then some .renewIntervalNotLessThanTtl
      else none

/-- What the checks of `build` come to. -/
structure Valid (b : AcquireOptionsBuilder) : Prop where
  ttlPos : 1 ≤ asMillis b.ttl
  ttlLe : asMillis b.ttl ≤ maxTtlMillis
  retryPos : 0 < b.retryInterval
  renewOk : ∀ interval ∈ renewIntervalFor (fromMillis (asMillis b.ttl)) b.renewInterval,
    fromMillis 1 ≤ interval ∧ interval < fromMillis (asMillis b.ttl)

/-- A number in range survives the cast. -/
theorem asU64_of_le {ms : Nat} (h : ms ≤ maxTtlMillis) : asU64 ms = ms := by
  unfold maxTtlMillis at h
  unfold asU64
  omega

/-- A duration has a full millisecond when it is as long as one. -/
theorem one_le_asMillis {d : Nat} : 1 ≤ asMillis d ↔ fromMillis 1 ≤ d := by
  unfold asMillis fromMillis
  omega

/-- The checks find nothing exactly in valid settings. -/
theorem check_eq_none_iff {b : AcquireOptionsBuilder} : b.check = none ↔ b.Valid := by
  unfold check
  by_cases hShort : asMillis b.ttl = 0
  · rw [if_pos hShort]
    refine iff_of_false (fun h => (nomatch h)) fun hValid => ?_
    have hPos := hValid.ttlPos
    omega
  by_cases hLong : asMillis b.ttl > maxTtlMillis
  · rw [if_neg hShort, if_pos hLong]
    exact iff_of_false (fun h => (nomatch h)) fun hValid => absurd hValid.ttlLe (not_le.mpr hLong)
  by_cases hRetry : b.retryInterval = 0
  · rw [if_neg hShort, if_neg hLong, if_pos hRetry]
    exact iff_of_false (fun h => (nomatch h)) fun hValid => absurd hRetry hValid.retryPos.ne'
  rw [if_neg hShort, if_neg hLong, if_neg hRetry]
  -- the cast of a TTL in range is the TTL
  have hTtl : b.effectiveTtl = fromMillis (asMillis b.ttl) := by
    rw [effectiveTtl, asU64_of_le (not_lt.mp hLong)]
  have hChecked : b.checkedInterval = renewIntervalFor (fromMillis (asMillis b.ttl))
      b.renewInterval := by
    rw [checkedInterval, hTtl]
  rw [hChecked, hTtl]
  constructor
  · intro hNone
    refine ⟨by omega, not_lt.mp hLong, Nat.pos_of_ne_zero hRetry, fun interval hMem => ?_⟩
    -- the checks of the interval, in their order
    rw [Option.mem_def.mp hMem] at hNone
    dsimp only at hNone
    split at hNone
    · cases hNone
    · rename_i hPos
      split at hNone
      · cases hNone
      · rename_i hLess
        exact ⟨one_le_asMillis.mp (by omega), not_le.mp hLess⟩
  · intro hValid
    cases hRenew : renewIntervalFor (fromMillis (asMillis b.ttl)) b.renewInterval with
    | none => rfl
    | some interval =>
      obtain ⟨hPos, hLess⟩ := hValid.renewOk interval hRenew
      have hMillis := one_le_asMillis.mpr hPos
      dsimp only
      rw [if_neg (by omega), if_neg (not_le.mpr hLess)]

/-- `AcquireOptionsBuilder::build` -/
def build (b : AcquireOptionsBuilder) : Except AcquireOptionsBuildError AcquireOptions :=
  match h : b.check with
  | some error => .error error
  | none => .ok {
      retryInterval := b.retryInterval
      lockTimeout := b.lockTimeout
      ttl := b.ttl
      renewInterval := b.renewInterval
      ttlPos := (check_eq_none_iff.mp h).ttlPos
      ttlLe := Int.ofNat_le.mpr (check_eq_none_iff.mp h).ttlLe
      retryPos := (check_eq_none_iff.mp h).retryPos
      renewOk := fun interval hMem =>
        ((check_eq_none_iff.mp h).renewOk interval hMem).imp_left one_le_asMillis.mpr }

/-- **What `build` accepts.** -/
theorem build_ok_iff {b : AcquireOptionsBuilder} : (∃ o, b.build = .ok o) ↔ b.Valid := by
  rw [← check_eq_none_iff]
  unfold build
  constructor
  · rintro ⟨o, hOk⟩
    split at hOk
    · cases hOk
    · assumption
  · intro hNone
    split
    · rename_i error hSome
      rw [hNone] at hSome
      cases hSome
    · exact ⟨_, rfl⟩

/-- `build` keeps what it was given. -/
theorem build_fields {b : AcquireOptionsBuilder} {o : AcquireOptions} (h : b.build = .ok o) :
    o.retryInterval = b.retryInterval ∧ o.lockTimeout = b.lockTimeout ∧ o.ttl = b.ttl ∧
      o.renewInterval = b.renewInterval := by
  unfold build at h
  split at h
  · cases h
  · cases h
    exact ⟨rfl, rfl, rfl, rfl⟩

/-- The default builder builds the default options. -/
theorem build_new : new.build = .ok AcquireOptions.new := rfl

end AcquireOptionsBuilder

-- ---------------------------------------------------------------------------
-- The TTL on the wire
-- ---------------------------------------------------------------------------

/-- The TTL argument as it is written into a command. -/
def AcquireOptions.ttlArg (o : AcquireOptions) : String := toString o.ttlMillis

/-- The bound of the client is the bound of the scripts. -/
theorem maxSafe_eq : Lua.maxSafe = (maxTtlMillis : Int) := rfl

/-- **What `TTL_PREFLIGHT` accepts**, among all strings: the canonical numerals
in range. -/
theorem ttlPreflight_ok_iff {raw : String} :
    (∃ ttl, ttlPreflight (some raw) = .ok (raw, ttl)) ↔
      ∃ n : Nat, 1 ≤ n ∧ n ≤ maxTtlMillis ∧ raw = toString n := by
  constructor
  · rintro ⟨ttl, hOk⟩
    obtain ⟨-, hMatch, hTtl, hPos, hLe⟩ := ttlPreflight_ok hOk
    obtain ⟨n, hn, rfl⟩ := Decimal.canonical_iff.mp hMatch
    have hValue : Lua.digitsValue (toString n) = n := Decimal.ofDigitChars_toString n
    rw [hTtl, hValue, maxSafe_eq] at hLe
    exact ⟨n, hn, Int.ofNat_le.mp hLe, rfl⟩
  · rintro ⟨n, hPos, hLe, rfl⟩
    have hValue : Lua.digitsValue (toString n) = n := Decimal.ofDigitChars_toString n
    refine ⟨_, ttlPreflight_of_matchPositive (Decimal.canonical_iff.mpr ⟨n, hPos, rfl⟩) ?_⟩
    rw [hValue, maxSafe_eq]
    exact Int.ofNat_le.mpr hLe

/-- The value `TTL_PREFLIGHT` goes on with is the number that was printed. -/
theorem ttlPreflight_toString {n : Nat} (hPos : 1 ≤ n) (hLe : n ≤ maxTtlMillis) :
    ttlPreflight (some (toString n)) = .ok (toString n, (n : Int)) := by
  have hValue : Lua.digitsValue (toString n) = n := Decimal.ofDigitChars_toString n
  have hOk := ttlPreflight_of_matchPositive (Decimal.canonical_iff.mpr ⟨n, hPos, rfl⟩)
    (by rw [hValue, maxSafe_eq]; exact Int.ofNat_le.mpr hLe)
  rw [hOk, hValue]

/-- The TTL of validated options passes the preflight and is read back. -/
theorem ttlPreflight_ttlArg (o : AcquireOptions) :
    ttlPreflight (some o.ttlArg) = .ok (o.ttlArg, (o.ttlMillis : Int)) := by
  have hMillis := o.ttlMillis_eq
  refine ttlPreflight_toString ?_ ?_
  · rw [hMillis]
    exact o.ttlPos
  · rw [hMillis]
    exact Int.ofNat_le.mp o.ttlLe

/-- Whatever the expiry preflight goes on to compute stays in the exact range. -/
theorem rwExpiryPreflight_bounds {c : Clock} {ttl now expiry : Int} (hPos : 1 ≤ ttl)
    (hLe : ttl ≤ Lua.maxSafe) (h : rwExpiryPreflight c ttl = .ok (now, expiry)) :
    now = c.ms ∧ expiry = c.ms + ttl ∧ ∀ z ∈ [now, expiry, -now, -expiry], |z| ≤ Lua.maxSafe := by
  obtain ⟨⟨hNow, hFit⟩, rfl, rfl⟩ := (rwExpiryPreflight_ok_iff hPos hLe).mp h
  refine ⟨rfl, rfl, fun z hz => ?_⟩
  rw [abs_le]
  simp only [List.mem_cons, List.not_mem_nil, or_false] at hz
  omega

/-- **The two validators agree.** -/
theorem builder_agrees :
    -- `build` accepts exactly the valid settings
    (∀ b : AcquireOptionsBuilder, (∃ o, b.build = .ok o) ↔ b.Valid) ∧
    -- the interval in use is the one that was checked
    (∀ (b : AcquireOptionsBuilder) (o : AcquireOptions), b.build = .ok o →
      o.effectiveRenewInterval = b.checkedInterval) ∧
    AcquireOptionsBuilder.new.build = .ok AcquireOptions.new ∧
    -- no cast truncates, and the server reads the TTL the client counts with
    (∀ o : AcquireOptions, asU64 (asMillis o.ttl) = asMillis o.ttl ∧
      ttlPreflight (some o.ttlArg) = .ok (o.ttlArg, (o.ttlMillis : Int)) ∧
      fromMillis o.ttlMillis = o.effectiveTtl) ∧
    (∀ raw : String, (∃ ttl, ttlPreflight (some raw) = .ok (raw, ttl)) ↔
      ∃ n : Nat, 1 ≤ n ∧ n ≤ maxTtlMillis ∧ raw = toString n) ∧
    (∀ (raw : String) (ttl : Int), ttlPreflight (some raw) = .ok (raw, ttl) → ∀ c : Clock,
      ((∃ now expiry, rwExpiryPreflight c ttl = .ok (now, expiry)) ↔
        0 ≤ c.ms ∧ c.ms + ttl ≤ Lua.maxSafe) ∧
      ∀ now expiry, rwExpiryPreflight c ttl = .ok (now, expiry) →
        now = c.ms ∧ expiry = c.ms + ttl ∧
          ∀ z ∈ [now, expiry, -now, -expiry], |z| ≤ Lua.maxSafe) := by
  refine ⟨fun b => AcquireOptionsBuilder.build_ok_iff, fun b o hOk => ?_,
    AcquireOptionsBuilder.build_new, fun o => ⟨o.asU64_ttl, ttlPreflight_ttlArg o, ?_⟩,
    fun raw => ttlPreflight_ok_iff, fun raw ttl hOk c => ?_⟩
  · obtain ⟨-, -, hTtl, hRenew⟩ := AcquireOptionsBuilder.build_fields hOk
    unfold AcquireOptions.effectiveRenewInterval AcquireOptions.effectiveTtl
    rw [hTtl, hRenew]
    rfl
  · rw [o.ttlMillis_eq, o.effectiveTtl_eq]
  · obtain ⟨-, -, -, hPos, hLe⟩ := ttlPreflight_ok hOk
    refine ⟨⟨fun ⟨now, expiry, hExp⟩ => ?_, fun hFit => ?_⟩, fun now expiry hExp => ?_⟩
    · exact ((rwExpiryPreflight_ok_iff hPos hLe).mp hExp).1
    · exact ⟨_, _, (rwExpiryPreflight_ok_iff hPos hLe).mpr ⟨hFit, rfl, rfl⟩⟩
    · exact rwExpiryPreflight_bounds hPos hLe hExp

end RLock.Client
