import RLock.Scripts.Scripts

/-!
# RLock — what the preflights accept

Exact characterisations of the TTL and expiry preflights, and their bridge to
the integer arguments of `SET … PX` and `PEXPIRE`: a TTL the preflight accepts
is read by Redis as the same integer, and the expiry it gives never overflows
on a 64-bit microsecond clock.

The difficulty is that the preflights compute with doubles what they check. The TTL is
compared after it was rounded, the clock is put together from two rounded numbers, and
the deadline is compared in the form `ttl > max - now`. In each case the rounded value
lies on the same side of the bound as the exact one; within the bound the two are the
same. Nothing has to be assumed of the clock, which may be negative or far beyond the
exact range: the preflight turns such clocks down.

* `ttlPreflight_ok` — acceptance pins the string, its value and its range.
* `ttlPreflight_of_matchPositive` — and every canonical numeral in range is accepted.
* `rwExpiryPreflight_ok_iff` — acceptance is exactly `0 ≤ now` and
  `now + ttl ≤ 2 ^ 53 - 1`, for the millisecond clock, and then `now` and
  `expiry` are exact.
* `deadlineOf_of_ttlPreflight` — the expiry Redis computes.
* `Accepts` — what the numeric preflights of a script of some kind ask for.
-/

namespace RLock.Scripts

open KeyedStore RLock.Redis

-- ---------------------------------------------------------------------------
-- TTL preflight
-- ---------------------------------------------------------------------------

/-- An accepted TTL is a numeral without leading zero, of exact value. -/
theorem ttlPreflight_ok {rawTtl : Option String} {raw : String} {ttl : Int}
    (h : ttlPreflight rawTtl = .ok (raw, ttl)) :
    rawTtl = some raw ∧ Lua.matchPositive raw = true ∧ ttl = Lua.digitsValue raw ∧
      1 ≤ ttl ∧ ttl ≤ Lua.maxSafe := by
  unfold ttlPreflight at h
  cases rawTtl with
  | none => cases h
  | some raw' =>
    dsimp only at h
    split at h
    · cases h
    · rename_i hMatch
      rw [Bool.not_eq_true, Bool.not_eq_false'] at hMatch
      rw [Lua.tonumber_of_matchPositive hMatch] at h
      split at h
      · rename_i n hNum
        split at hNum
        · cases hNum
        · split at h
          · cases h
          · rename_i hLe
            simp only [Option.some.injEq, Lua.Number.fin.injEq] at hNum
            simp only [Except.ok.injEq, Prod.mk.injEq] at h
            obtain ⟨rfl, rfl⟩ := h
            -- a rounded value within the exact range was not rounded at all
            have hLt : Lua.digitsValue raw' < 2 ^ Double.precision := by
              by_contra hge
              have := Double.le_roundNat (Nat.not_lt.mp hge)
              have := Lua.maxSafe_add_one
              omega
            rw [Double.roundNat_of_lt hLt] at hNum
            have := Lua.digitsValue_pos hMatch
            exact ⟨rfl, hMatch, hNum.symm, by omega, by omega⟩
      · cases h

/-- Conversely, every canonical numeral in range is accepted. -/
theorem ttlPreflight_of_matchPositive {raw : String} (hMatch : Lua.matchPositive raw = true)
    (hLe : (Lua.digitsValue raw : Int) ≤ Lua.maxSafe) :
    ttlPreflight (some raw) = .ok (raw, Lua.digitsValue raw) := by
  have hLt : Lua.digitsValue raw < 2 ^ Double.precision := by
    have := Lua.maxSafe_add_one
    omega
  unfold ttlPreflight
  simp only [hMatch, Bool.not_true, Bool.false_eq_true, if_false,
    Lua.tonumber_of_matchPositive hMatch, if_neg (Double.not_overflows_of_lt hLt),
    Double.roundNat_of_lt hLt]
  rw [if_neg (by omega)]

/-- Redis reads a TTL the preflight accepts as the same integer. -/
theorem string2ll_of_ttlPreflight {rawTtl : Option String} {raw : String} {ttl : Int}
    (h : ttlPreflight rawTtl = .ok (raw, ttl)) : string2ll raw = some ttl := by
  obtain ⟨-, hMatch, rfl, hPos, hLe⟩ := ttlPreflight_ok h
  have hZero : raw ≠ "0" := by
    rintro rfl
    revert hMatch
    decide
  have hMax : (Lua.digitsValue raw : Int) ≤ maxInt64 := by
    unfold Lua.maxSafe at hLe
    unfold maxInt64
    omega
  unfold string2ll
  rw [if_neg hZero, if_pos hMatch, if_pos hMax]

/-- On a 64-bit microsecond clock no accepted TTL overflows an expiry. -/
theorem le_maxInt64_sub (c : Clock) {ttl : Int} (h : ttl ≤ Lua.maxSafe) :
    ttl ≤ maxInt64 - c.ms := by
  have := c.upper
  unfold Clock.ms
  unfold Lua.maxSafe at h
  unfold maxInt64
  omega

/-- The expiry `SET … PX` computes from an accepted TTL. -/
theorem deadlineOf_of_ttlPreflight {rawTtl : Option String} {raw : String} {ttl : Int}
    (h : ttlPreflight rawTtl = .ok (raw, ttl)) (c : Clock) :
    deadlineOf c.ms raw = .ok (c.ms + ttl) := by
  obtain ⟨-, -, -, hPos, hLe⟩ := ttlPreflight_ok h
  have := le_maxInt64_sub c hLe
  unfold deadlineOf
  simp only [string2ll_of_ttlPreflight h]
  rw [if_neg (by omega)]

-- ---------------------------------------------------------------------------
-- Expiry preflight
-- ---------------------------------------------------------------------------

/-- `TIME`'s seconds are an exact double. -/
theorem sec_natAbs_le (c : Clock) : c.sec.natAbs ≤ Lua.maxSafe.natAbs := by
  have := c.lower
  have := c.upper
  unfold Clock.sec
  unfold Lua.maxSafe
  omega

/-- In the exact range the script's `now` is the millisecond clock. -/
theorem serverNow_eq {c : Clock} (hPos : 0 ≤ c.ms) (hLe : c.ms ≤ Lua.maxSafe) :
    serverNow c = c.ms := by
  have hEq := c.ms_eq
  have hQuot : 0 ≤ c.usec / 1000 ∧ c.usec / 1000 ≤ 999 := by
    unfold Clock.usec
    omega
  have hSafe : (0 : Int) ≤ Lua.maxSafe := by decide
  unfold serverNow Lua.add Lua.mul
  rw [Lua.roundInt_of_abs_le (sec_natAbs_le c), Lua.roundInt_of_abs_le (z := c.sec * 1000),
    ← hEq, Lua.roundInt_of_abs_le]
  · omega
  · omega

/-- Rounding never brings a negative clock back to zero. -/
theorem serverNow_neg {c : Clock} (h : c.ms < 0) : serverNow c < 0 := by
  have hEq := c.ms_eq
  have hQuot : 0 ≤ c.usec / 1000 ∧ c.usec / 1000 ≤ 999 := by
    unfold Clock.usec
    omega
  have hLow := c.lower
  have hSec : -9223372036855 ≤ c.sec := by
    unfold Clock.sec
    omega
  -- the seconds alone are negative enough that the milliseconds cannot make up for it
  have hMul : Double.roundInt (c.sec * 1000) ≤ -1000 := by
    by_cases hSmall : (c.sec * 1000).natAbs ≤ Lua.maxSafe.natAbs
    · rw [Lua.roundInt_of_abs_le hSmall]
      omega
    · have hBig : c.sec * 1000 ≤ -(2 ^ Double.precision) := by
        unfold Lua.maxSafe at hSmall
        unfold Double.precision
        omega
      have := Double.roundInt_le_neg hBig
      unfold Double.precision at this
      omega
  unfold serverNow Lua.add Lua.mul
  rw [Lua.roundInt_of_abs_le (sec_natAbs_le c)]
  exact Double.roundInt_neg (by omega)

theorem maxSafe_lt_serverNow {c : Clock} (h : Lua.maxSafe < c.ms) :
    Lua.maxSafe < serverNow c := by
  have hEq := c.ms_eq
  have hQuot : 0 ≤ c.usec / 1000 ∧ c.usec / 1000 ≤ 999 := by
    unfold Clock.usec
    omega
  unfold serverNow Lua.add Lua.mul
  rw [Lua.roundInt_of_abs_le (sec_natAbs_le c)]
  apply Lua.maxSafe_lt_roundInt
  by_cases hSmall : c.sec * 1000 ≤ Lua.maxSafe
  · have hAbs : (c.sec * 1000).natAbs ≤ Lua.maxSafe.natAbs := by
      have hSafe : Lua.maxSafe = 9007199254740991 := rfl
      omega
    rw [Lua.roundInt_of_abs_le hAbs]
    omega
  · have := Lua.maxSafe_lt_roundInt (Int.not_le.mp hSmall)
    omega

/-- **Expiry preflight.** It accepts exactly when the clock is not negative and
the expiry stays in the exact range; then `now` and `expiry` are exact. -/
theorem rwExpiryPreflight_ok_iff {c : Clock} {ttl now expiry : Int}
    (hPos : 1 ≤ ttl) (hLe : ttl ≤ Lua.maxSafe) :
    rwExpiryPreflight c ttl = .ok (now, expiry) ↔
      (0 ≤ c.ms ∧ c.ms + ttl ≤ Lua.maxSafe) ∧ now = c.ms ∧ expiry = c.ms + ttl := by
  have hSafe : Lua.maxSafe = 9007199254740991 := rfl
  unfold rwExpiryPreflight
  dsimp only
  -- the three ways to be turned down, in the order of the script
  by_cases hNeg : c.ms < 0
  · rw [if_pos (Or.inl (serverNow_neg hNeg))]
    exact ⟨(by intro h; cases h), (by intro h; omega)⟩
  by_cases hBig : Lua.maxSafe < c.ms
  · rw [if_pos (Or.inr (Or.inl (maxSafe_lt_serverNow hBig)))]
    exact ⟨(by intro h; cases h), (by intro h; omega)⟩
  rw [serverNow_eq (by omega) (by omega)]
  -- the clock is in the exact range, so nothing is rounded from here on
  have hSub : Lua.sub Lua.maxSafe c.ms = Lua.maxSafe - c.ms :=
    Lua.roundInt_of_abs_le (by omega)
  rw [hSub]
  by_cases hFit : c.ms + ttl ≤ Lua.maxSafe
  · have hAdd : Lua.add c.ms ttl = c.ms + ttl := Lua.roundInt_of_abs_le (by omega)
    rw [if_neg (by omega), hAdd, Except.ok.injEq, Prod.mk.injEq]
    constructor
    · rintro ⟨rfl, rfl⟩
      exact ⟨⟨by omega, hFit⟩, rfl, rfl⟩
    · rintro ⟨-, rfl, rfl⟩
      exact ⟨rfl, rfl⟩
  · rw [if_pos (by omega)]
    exact ⟨(by intro h; cases h), fun h => absurd h.1.2 hFit⟩

-- ---------------------------------------------------------------------------
-- Accepted calls
-- ---------------------------------------------------------------------------

/-- The numeric preflights of a script of this kind accept the TTL argument,
and its value is `ttl`. -/
def Accepts (kind : Kind) (c : Clock) (rawTtl : Option String) (raw : String) (ttl : Int) :
    Prop :=
  ttlPreflight rawTtl = .ok (raw, ttl) ∧
    (kind ≠ .mutex → 0 ≤ c.ms ∧ c.ms + ttl ≤ Lua.maxSafe)

/-- An accepted TTL is at least a millisecond. -/
theorem Accepts.ttl_pos {kind : Kind} {c : Clock} {rawTtl : Option String} {raw : String}
    {ttl : Int} (h : Accepts kind c rawTtl raw ttl) : 1 ≤ ttl :=
  (ttlPreflight_ok h.1).2.2.2.1

/-- The accepted value is a function of the argument. -/
theorem Accepts.unique {kind : Kind} {c : Clock} {rawTtl : Option String} {raw raw' : String}
    {ttl ttl' : Int} (h : Accepts kind c rawTtl raw ttl)
    (h' : Accepts kind c rawTtl raw' ttl') : raw = raw' ∧ ttl = ttl' := by
  have := h.1.symm.trans h'.1
  simpa using this

end RLock.Scripts
