import RLock.Redis.Commands

/-!
# RLock — the Lua scripts

The nine scripts of `scripts.rs` and their three preflights, statement by
statement. Every `redis.call` of a script addresses `KEYS[i]` inside a loop
over the keys, so a loop body is a program over the slot of `KEYS[i]`, and the
six acquire and renew scripts have one shape: a loop that may `return 0`, then
a loop that writes, then `return 1` (`checkThenWrite`).

A script argument list is the token (`ARGV[1]`) and, for acquire and renew,
the TTL string (`ARGV[2]`; `none` when it is missing). The clock `c` is frozen
for the whole script, for Redis and for the script's own `TIME` alike.

A mutex is a string at its key, with the expiry of the key for its deadline. Readers
and writers are members of a sorted set, and the score of a member is its deadline in
milliseconds, negative for a writer; the expiry of the key is only there to get rid of
the set in the end. So a member may outlive its deadline in the store, and the
read-write scripts first take out the members whose deadline has passed
(`dropExpired`).

The preflights check the arguments before anything is written: the TTL is a canonical
numeral in the exact range, the deadline is in that range as well, and every listed
key is absent or a sorted set. A script error does not undo what was written before
it, which is why the checks come first.
-/

namespace RLock.Scripts

open KeyedStore RLock.Redis

/-! ## Preflights -/

/-- `TTL_PREFLIGHT`: on success `raw_ttl` and `ttl`. -/
def ttlPreflight (rawTtl : Option String) : Except RedisError (String × Int) :=
  match rawTtl with
  | none => .error .ttlNotPositive
  | some raw =>
    if !Lua.matchPositive raw then .error .ttlNotPositive
    else
      match Lua.tonumber raw with
      | some (.fin ttl) => if ttl > Lua.maxSafe then .error .ttlTooLarge else .ok (raw, ttl)
      | _ => .error .ttlTooLarge

/-- `tonumber(time[1]) * 1000 + math.floor(tonumber(time[2]) / 1000)`. The
quotient is below 1000, where flooring the rounded quotient is exact. -/
def serverNow (c : Clock) : Int :=
  Lua.add (Lua.mul (Double.roundInt c.sec) 1000) (c.usec / 1000)

/-- `RW_EXPIRY_PREFLIGHT`: on success `now` and `expiry`. -/
def rwExpiryPreflight (c : Clock) (ttl : Int) : Except RedisError (Int × Int) :=
  let now := serverNow c
  if now < 0 ∨ now > Lua.maxSafe ∨ ttl > Lua.sub Lua.maxSafe now then
    .error .expiryOutOfRange
  else .ok (now, Lua.add now ttl)

/-- `RW_TYPE_PREFLIGHT` at one key. -/
def typeCheck (c : Clock) : SlotProg (Option Unit) := do
  let kind ← typeOf c.ms
  if kind ≠ .none ∧ kind ≠ .zset then raise .notSortedSet else pure none

/-- `RW_TYPE_PREFLIGHT` -/
def rwTypePreflight (c : Clock) (keys : List Key) : Script (Option Unit) :=
  forKeys (fun k => atKey k (typeCheck c)) keys

/-- `script_with_ttl_preflight` -/
def scriptWithTtlPreflight {α : Type} (rawTtl : Option String)
    (body : String → Int → Script α) : Script α :=
  match ttlPreflight rawTtl with
  | .error e => raise e
  | .ok (raw, ttl) => body raw ttl

/-- `rw_script_with_preflight`; the body gets `raw_ttl`, `ttl`, `now` and
`expiry`. -/
def rwScriptWithPreflight {α : Type} (c : Clock) (keys : List Key) (rawTtl : Option String)
    (body : String → Int → Int → Int → Script α) : Script α :=
  scriptWithTtlPreflight rawTtl fun raw ttl =>
    match rwExpiryPreflight c ttl with
    | .error e => raise e
    | .ok (now, expiry) => do
      let _ ← rwTypePreflight c keys
      body raw ttl now expiry

/-! ## Mutex scripts -/

/-- `redis.call("EXISTS", KEYS[i]) ~= 0` -/
def taken (c : Clock) : SlotProg Bool := do
  return (← existsKey c.ms) != 0

/-- `redis.call("GET", KEYS[i]) ~= ARGV[1]`; a missing key reads as `false`. -/
def notOwned (c : Clock) (token : String) : SlotProg Bool := do
  return (← get c.ms) != some token

/-- `redis.call("PEXPIRE", KEYS[i], raw_ttl)` -/
def prolong (c : Clock) (raw : String) : SlotProg Unit := do
  let _ ← pexpire c.ms raw

/-- `SCRIPT_ACQUIRE_LOCK` -/
def scriptAcquireLock (c : Clock) (keys : List Key) (token : String) (rawTtl : Option String) :
    Script Int :=
  scriptWithTtlPreflight rawTtl fun raw _ =>
    checkThenWrite (fun k => atKey k (taken c)) (fun k => atKey k (setPx c.ms token raw)) 0 1 keys

/-- `SCRIPT_RENEW_LOCK` -/
def scriptRenewLock (c : Clock) (keys : List Key) (token : String) (rawTtl : Option String) :
    Script Int :=
  scriptWithTtlPreflight rawTtl fun raw _ =>
    checkThenWrite (fun k => atKey k (notOwned c token)) (fun k => atKey k (prolong c raw)) 0 1
      keys

/-- The loop body of `SCRIPT_RELEASE_LOCK`: what it adds to `count`. -/
def releaseString (c : Clock) (token : String) : SlotProg Nat := do
  let kind ← typeOf c.ms
  if kind = .string then
    if (← get c.ms) = some token then del c.ms else pure 0
  else pure 0

/-- `if count == #KEYS then return 1 else return 0` -/
def allCounted (keys : List Key) (count : Nat) : Int :=
  if count = keys.length then 1 else 0

/-- `SCRIPT_RELEASE_LOCK` -/
def scriptReleaseLock (c : Clock) (keys : List Key) (token : String) : Script Int := do
  let count ← sumKeys (fun k => atKey k (releaseString c token)) keys
  return allCounted keys count

/-! ## Read-write scripts -/

/-- `"r:" .. ARGV[1]` -/
def readMember (token : String) : Member := "r:" ++ token

/-- `"w:" .. ARGV[1]` -/
def writeMember (token : String) : Member := "w:" ++ token

/-- `redis.call("ZREMRANGEBYSCORE", KEYS[i], -now, now)` -/
def dropExpired (c : Clock) (now : Int) : SlotProg Unit := do
  let _ ← zremrangebyscore c.ms (Score.ofInt (-now)) (Score.ofInt now)

/-- A live writer stops a reader: `ZCOUNT KEYS[i] -inf (0` is not zero. -/
def hasWriter (c : Clock) (now : Int) : SlotProg Bool := do
  dropExpired c now
  return (← zcount c.ms Score.negInf (Score.ofInt 0)) != 0

/-- Any live holder stops a writer: `ZCARD KEYS[i]` is not zero. -/
def hasHolder (c : Clock) (now : Int) : SlotProg Bool := do
  dropExpired c now
  return (← zcard c.ms) != 0

/-- `not score or tonumber(score) <= now` -/
def readLapsed (c : Clock) (now : Int) (member : Member) : SlotProg Bool := do
  dropExpired c now
  match ← zscore c.ms member with
  | none => return true
  | some score => return score ≤ Score.ofInt now

/-- `not score or tonumber(score) >= -now` -/
def writeLapsed (c : Clock) (now : Int) (member : Member) : SlotProg Bool := do
  dropExpired c now
  match ← zscore c.ms member with
  | none => return true
  | some score => return Score.ofInt (-now) ≤ score

/-- Add the reader; the key's expiry is only ever pushed back, since other
readers share it. -/
def grantRead (c : Clock) (raw : String) (ttl expiry : Int) (member : Member) :
    SlotProg Unit := do
  let _ ← zadd c.ms (Score.ofInt expiry) member
  if (← pttl c.ms) < ttl then
    let _ ← pexpire c.ms raw

/-- Add the writer; the key expires with it. -/
def grantWrite (c : Clock) (raw : String) (expiry : Int) (member : Member) : SlotProg Unit := do
  let _ ← zadd c.ms (Score.ofInt (-expiry)) member
  let _ ← pexpire c.ms raw

/-- `SCRIPT_ACQUIRE_READ_LOCK` -/
def scriptAcquireReadLock (c : Clock) (keys : List Key) (token : String)
    (rawTtl : Option String) : Script Int :=
  rwScriptWithPreflight c keys rawTtl fun raw ttl now expiry =>
    checkThenWrite (fun k => atKey k (hasWriter c now))
      (fun k => atKey k (grantRead c raw ttl expiry (readMember token))) 0 1 keys

/-- `SCRIPT_RENEW_READ_LOCK` -/
def scriptRenewReadLock (c : Clock) (keys : List Key) (token : String)
    (rawTtl : Option String) : Script Int :=
  rwScriptWithPreflight c keys rawTtl fun raw ttl now expiry =>
    checkThenWrite (fun k => atKey k (readLapsed c now (readMember token)))
      (fun k => atKey k (grantRead c raw ttl expiry (readMember token))) 0 1 keys

/-- `SCRIPT_ACQUIRE_WRITE_LOCK` -/
def scriptAcquireWriteLock (c : Clock) (keys : List Key) (token : String)
    (rawTtl : Option String) : Script Int :=
  rwScriptWithPreflight c keys rawTtl fun raw _ now expiry =>
    checkThenWrite (fun k => atKey k (hasHolder c now))
      (fun k => atKey k (grantWrite c raw expiry (writeMember token))) 0 1 keys

/-- `SCRIPT_RENEW_WRITE_LOCK` -/
def scriptRenewWriteLock (c : Clock) (keys : List Key) (token : String)
    (rawTtl : Option String) : Script Int :=
  rwScriptWithPreflight c keys rawTtl fun raw _ now expiry =>
    checkThenWrite (fun k => atKey k (writeLapsed c now (writeMember token)))
      (fun k => atKey k (grantWrite c raw expiry (writeMember token))) 0 1 keys

/-- The loop body of the read and write release scripts. -/
def releaseMember (c : Clock) (member : Member) : SlotProg Nat := do
  let kind ← typeOf c.ms
  if kind = .zset then zrem c.ms member else pure 0

/-- `SCRIPT_RELEASE_READ_LOCK` -/
def scriptReleaseReadLock (c : Clock) (keys : List Key) (token : String) : Script Int := do
  let count ← sumKeys (fun k => atKey k (releaseMember c (readMember token))) keys
  return allCounted keys count

/-- `SCRIPT_RELEASE_WRITE_LOCK` -/
def scriptReleaseWriteLock (c : Clock) (keys : List Key) (token : String) : Script Int := do
  let count ← sumKeys (fun k => atKey k (releaseMember c (writeMember token))) keys
  return allCounted keys count

/-! ## Choosing a script -/

/-- Which of the three families of holders a request belongs to. -/
inductive Kind
  | mutex | read | write
  deriving DecidableEq, Repr

/-- The scripts `LockTarget::acquire_script` chooses from. -/
def acquireScript : Kind → Clock → List Key → String → Option String → Script Int
  | .mutex => scriptAcquireLock
  | .read => scriptAcquireReadLock
  | .write => scriptAcquireWriteLock

/-- The scripts `LockTarget::renew_script` chooses from. -/
def renewScript : Kind → Clock → List Key → String → Option String → Script Int
  | .mutex => scriptRenewLock
  | .read => scriptRenewReadLock
  | .write => scriptRenewWriteLock

/-- The scripts `LockTarget::release_script` chooses from. -/
def releaseScript : Kind → Clock → List Key → String → Script Int
  | .mutex => scriptReleaseLock
  | .read => scriptReleaseReadLock
  | .write => scriptReleaseWriteLock

end RLock.Scripts
