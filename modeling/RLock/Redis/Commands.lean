import RLock.Redis.Keyspace
import RLock.Redis.Lua

/-!
# RLock — Redis commands at one key

Every command the library sends or a script calls, as a program over the slot
of its key (`KeyedStore.atKey` places it in the keyspace). `now` is the frozen
millisecond clock.

Almost every command looks its key up first, which deletes a key that has expired;
`command` puts that look-up in front once and for all. The exceptions are those that
check an argument before they look (`PEXPIRE`, `SET … NX`), whose error leaves even a
dead key where it is, and plain `SET`, which overwrites without looking.

Replies and errors are those of Redis: a command on a value of another type fails
with `WRONGTYPE`, an integer argument is a canonical numeral in the signed 64-bit
range (`string2ll`), and an expiry that would not fit the clock is refused. What a
command replies and leaves is said in the modules that use it, once for each script
body, so that no later proof unfolds a command.

* `string2ll`, `deadlineOf` — how arguments are read.
* `run_command`, `run_query` — running a command is answering on the slot that is
  left of the look-up.
-/

namespace RLock.Redis

open KeyedStore

/-! ## Errors -/

/-- Error replies: those of Redis itself and those a script returns with
`redis.error_reply`. -/
inductive RedisError
  | wrongType
  | notAnInteger
  | invalidExpire
  | ttlNotPositive
  | ttlTooLarge
  | expiryOutOfRange
  | notSortedSet
  deriving DecidableEq, Repr

/-- The text the client sees. -/
def RedisError.message : RedisError → String
  | .wrongType => "WRONGTYPE Operation against a key holding the wrong kind of value"
  | .notAnInteger => "ERR value is not an integer or out of range"
  | .invalidExpire => "ERR invalid expire time"
  | .ttlNotPositive => "ERR rlock TTL must be a positive integer in milliseconds"
  | .ttlTooLarge => "ERR rlock TTL exceeds the exact integer range"
  | .expiryOutOfRange => "ERR rlock expiry exceeds the exact integer range"
  | .notSortedSet => "WRONGTYPE rlock read-write locks require sorted set keys"

/-- A program over the slot of one key. -/
abbrev SlotProg := Prog Slot RedisError

/-- A program over the whole keyspace. -/
abbrev Script := Prog Keyspace RedisError

/-! ## Integer arguments -/

/-- Largest signed 64-bit integer. -/
def maxInt64 : Int := 2 ^ 63 - 1

/-- An integer argument: a canonical decimal numeral in the signed 64-bit
range. -/
def string2ll (s : String) : Option Int :=
  if s = "0" then some 0
  else if Lua.matchPositive s then
    if (Lua.digitsValue s : Int) ≤ maxInt64 then some (Lua.digitsValue s) else none
  else
    match s.toList with
    | '-' :: cs =>
      if Lua.matchPositive (String.ofList cs) ∧
          (Lua.digitsValue (String.ofList cs) : Int) ≤ maxInt64 + 1 then
        some (-(Lua.digitsValue (String.ofList cs)))
      else none
    | _ => none

/-- Expiry of a relative time-to-live argument. -/
def deadlineOf (now : Int) (raw : String) : Except RedisError Int :=
  match string2ll raw with
  | none => .error .notAnInteger
  | some ms => if ms ≤ 0 ∨ ms > maxInt64 - now then .error .invalidExpire else .ok (now + ms)

/-! ## Looking a key up -/

/-- Look the key up (which deletes it if it has expired), then answer and
rewrite the slot. -/
def command {α : Type} (now : Int) (f : Slot → Except RedisError α × Slot) : SlotProg α :=
  ⟨fun v => f (evict now v)⟩

/-- A command that only reads. -/
def query {α : Type} (now : Int) (f : Slot → Except RedisError α) : SlotProg α :=
  command now fun v => (f v, v)

/-- A command sees what the look-up left. -/
theorem run_command {α : Type} (now : Int) (f : Slot → Except RedisError α × Slot) (v : Slot) :
    (command now f).run v = f (evict now v) := rfl

/-- A query leaves what the look-up left. -/
theorem run_query {α : Type} (now : Int) (f : Slot → Except RedisError α) (v : Slot) :
    (query now f).run v = (f (evict now v), evict now v) := rfl

/-! ## Commands on any key -/

/-- `TYPE` -/
def typeOf (now : Int) : SlotProg KeyType :=
  query now fun v => .ok (match v with | none => .none | some e => e.value.type)

/-- `EXISTS` -/
def existsKey (now : Int) : SlotProg Nat :=
  query now fun v => .ok (if v.isSome then 1 else 0)

/-- `DEL` -/
def del (now : Int) : SlotProg Nat :=
  command now fun v => (.ok (if v.isSome then 1 else 0), none)

/-- `PTTL`: `-2` for an absent key, `-1` for a key without expiry. -/
def pttl (now : Int) : SlotProg Int :=
  query now fun v =>
    .ok (match v with
      | none => -2
      | some ⟨_, none⟩ => -1
      | some ⟨_, some deadline⟩ => max 0 (deadline - now))

/-- `PEXPIRE` -/
def pexpire (now : Int) (raw : String) : SlotProg Nat :=
  match string2ll raw with
  | none => raise .notAnInteger
  | some ms =>
    if ms > maxInt64 - now then raise .invalidExpire
    else command now fun v =>
      match v with
      | none => (.ok 0, none)
      | some e =>
        -- an expiry that is not in the future deletes the key at once
        if ms ≤ 0 then (.ok 1, none) else (.ok 1, some { e with expire := some (now + ms) })

/-! ## Strings -/

/-- `GET` -/
def get (now : Int) : SlotProg (Option String) :=
  query now fun v =>
    match v with
    | none => .ok none
    | some ⟨.string s, _⟩ => .ok (some s)
    | some _ => .error .wrongType

/-- `SET key value PX raw` -/
def setPx (now : Int) (value raw : String) : SlotProg Unit :=
  match deadlineOf now raw with
  | .error e => raise e
  | .ok deadline => ⟨fun _ => (.ok (), some ⟨.string value, some deadline⟩)⟩

/-- `SET key value NX PX raw`; `true` when the key was set. -/
def setNxPx (now : Int) (value raw : String) : SlotProg Bool :=
  match deadlineOf now raw with
  | .error e => raise e
  | .ok deadline => command now fun v =>
    match v with
    | none => (.ok true, some ⟨.string value, some deadline⟩)
    | some e => (.ok false, some e)

/-! ## Sorted sets -/

/-- The sorted set at a key, if there is one. -/
def zsetOf : Slot → Except RedisError (Option ZSet)
  | none => .ok none
  | some ⟨.zset z, _⟩ => .ok (some z)
  | some _ => .error .wrongType

/-- Put back what is left of a sorted set; an empty one is deleted. -/
def restore (z : Option ZSet) (expire : Option Int) : Slot :=
  z.map fun z => ⟨.zset z, expire⟩

/-- `ZREMRANGEBYSCORE key lo hi` -/
def zremrangebyscore (now : Int) (lo hi : Score) : SlotProg Nat :=
  command now fun v =>
    match v with
    | none => (.ok 0, none)
    | some ⟨.zset z, expire⟩ =>
      let kept := keepScores (fun s => !(lo ≤ s && s ≤ hi)) z.members
      (.ok (z.card - kept.entries.length), restore (ZSet.ofMembers kept) expire)
    | some e => (.error .wrongType, some e)

/-- `ZCOUNT key lo (hi`, the upper bound exclusive. -/
def zcount (now : Int) (lo hi : Score) : SlotProg Nat :=
  query now fun v =>
    (zsetOf v).map fun z => match z with
      | none => 0
      | some z => (keepScores (fun s => lo ≤ s && s < hi) z.members).entries.length

/-- `ZCARD` -/
def zcard (now : Int) : SlotProg Nat :=
  query now fun v => (zsetOf v).map fun z => match z with
    | none => 0
    | some z => z.card

/-- `ZSCORE` -/
def zscore (now : Int) (m : Member) : SlotProg (Option Score) :=
  query now fun v => (zsetOf v).map fun z => z.bind (·.score m)

/-- `ZADD key score member`: the reply counts a new member. -/
def zadd (now : Int) (s : Score) (m : Member) : SlotProg Nat :=
  command now fun v =>
    match v with
    | none => (.ok 1, some ⟨.zset (.single m s), none⟩)
    | some ⟨.zset z, expire⟩ =>
      (.ok (if (z.score m).isSome then 0 else 1), some ⟨.zset (z.add m s), expire⟩)
    | some e => (.error .wrongType, some e)

/-- `ZREM` -/
def zrem (now : Int) (m : Member) : SlotProg Nat :=
  command now fun v =>
    match v with
    | none => (.ok 0, none)
    | some ⟨.zset z, expire⟩ =>
      if (z.score m).isSome then (.ok 1, restore (ZSet.ofMembers (z.members.erase m)) expire)
      else (.ok 0, some ⟨.zset z, expire⟩)
    | some e => (.error .wrongType, some e)

end RLock.Redis
