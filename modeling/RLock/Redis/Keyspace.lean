import Mathlib.Data.List.AList
import Mathlib.Data.Rat.Defs
import Mathlib.Algebra.Order.Ring.Cast
import Mathlib.Algebra.Order.Field.Rat
import Mathlib.Order.WithBot
import RLock.Lib.KeyedStore

/-!
# RLock — the Redis keyspace

The part of Redis the scripts stand on: values, expiries, and the commands
they call, each as a program over the slot of one key. Two habits of Redis
carry the whole development and are modelled as they are:

* **Lazy expiry.** A key is gone once the millisecond clock *exceeds* its
  expiry; a command that looks the key up first deletes it (`evict`). While
  nothing looks, the dead key stays where it is.
* **No empty collections.** A sorted set that loses its last member is
  deleted with its key, so a `ZSet` carries a proof that it is not empty.

Scores are extended rationals, which cover every double Redis stores; the
library itself only writes integers (`Score.ofInt`). A value of another type is kept
as a name and a payload that nobody reads, since another program may store anything
under a key and the scripts only ask for its type.

The clock counts microseconds in 64 bits, and may go back. Milliseconds, and the two
numbers of a `TIME` reply, are computed from it, so that the two ways in which the
scripts and Redis itself get at the time are one.

* `evict_evict`, `evict_of_live`, `evict_of_passed` — the look-up.
* `lookup_keepScores`, `entries_eq_nil_iff` — sorted sets by their scores.
* `Clock.ms_eq`, `Clock.ms_mono` — the clock in milliseconds.
-/

namespace RLock.Redis

open KeyedStore

/-- The name of a key. -/
abbrev Key := String
/-- A member of a sorted set. -/
abbrev Member := String

/-! ## Scores -/

/-- A sorted-set score: a rational or an infinity (Redis stores no NaN). -/
abbrev Score := WithBot (WithTop ℚ)

/-- The score a script writes when it passes an integer. -/
def Score.ofInt (n : Int) : Score := (((n : ℚ) : WithTop ℚ) : WithBot (WithTop ℚ))

/-- Scores of integers are ordered as the integers. -/
@[simp] theorem Score.ofInt_le_ofInt {a b : Int} :
    Score.ofInt a ≤ Score.ofInt b ↔ a ≤ b := by
  simp [Score.ofInt, WithBot.coe_le_coe, WithTop.coe_le_coe]

@[simp] theorem Score.ofInt_lt_ofInt {a b : Int} :
    Score.ofInt a < Score.ofInt b ↔ a < b := by
  simp [Score.ofInt, WithBot.coe_lt_coe, WithTop.coe_lt_coe]

/-- A score tells which integer was written. -/
@[simp] theorem Score.ofInt_inj {a b : Int} : Score.ofInt a = Score.ofInt b ↔ a = b := by
  simp [Score.ofInt, WithBot.coe_inj, WithTop.coe_inj]

/-- `-∞`, the `"-inf"` of a range argument. -/
def Score.negInf : Score := ⊥

/-! ## Sorted sets -/

/-- A sorted set: members with their scores, never empty. -/
structure ZSet where
  members : AList (fun _ : Member => Score)
  nonempty : members.entries ≠ []

/-- What is left after members were taken away; nothing is left of an empty
sorted set. -/
def ZSet.ofMembers (m : AList (fun _ : Member => Score)) : Option ZSet :=
  if h : m.entries ≠ [] then some ⟨m, h⟩ else none

/-- The score of a member, if it is one. -/
def ZSet.score (z : ZSet) (m : Member) : Option Score := z.members.lookup m

/-- The number of members. -/
def ZSet.card (z : ZSet) : Nat := z.members.entries.length

/-- Add a member or move it to a new score. -/
def ZSet.add (z : ZSet) (m : Member) (s : Score) : ZSet :=
  ⟨z.members.insert m s, by simp [AList.entries_insert]⟩

/-- The sorted set with one member. -/
def ZSet.single (m : Member) (s : Score) : ZSet :=
  ⟨AList.singleton m s, by simp⟩

/-- The members whose score satisfies `p`. -/
def keepScores (p : Score → Bool) (m : AList (fun _ : Member => Score)) :
    AList (fun _ : Member => Score) :=
  ⟨m.entries.filter fun e => p e.2, m.nodupKeys.sublist List.filter_sublist⟩

@[ext] theorem ZSet.ext {z z' : ZSet} (h : z.members = z'.members) : z = z' := by
  cases z
  cases z'
  cases h
  rfl

/-- Filtering by score filters what a member looks up. -/
theorem lookup_keepScores (p : Score → Bool) (m : AList (fun _ : Member => Score))
    (a : Member) : (keepScores p m).lookup a = (m.lookup a).filter p := by
  ext s
  rw [← Option.mem_def, AList.mem_lookup_iff, Option.filter_eq_some_iff, ← Option.mem_def,
    AList.mem_lookup_iff]
  simp [keepScores]

/-- A sorted set is empty when it has no member. -/
theorem entries_eq_nil_iff {m : AList (fun _ : Member => Score)} :
    m.entries = [] ↔ ∀ a, m.lookup a = none := by
  constructor
  · intro h a
    rw [AList.lookup_eq_none, AList.mem_keys, AList.keys, h]
    simp
  · intro h
    cases hm : m.entries with
    | nil => rfl
    | cons e es =>
      have hMem : e.2 ∈ m.lookup e.1 := by
        rw [AList.mem_lookup_iff, hm]
        exact List.mem_cons_self ..
      rw [h] at hMem
      cases hMem

/-! ## Entries and slots -/

/-- Types of the values this development never looks into. -/
inductive OtherType
  | list | set | hash | stream | module
  deriving DecidableEq, Repr

/-- A stored value. -/
inductive Value
  | string (s : String)
  | zset (z : ZSet)
  | other (kind : OtherType) (payload : String)

/-- A present key: its value and, if it has one, its expiry in milliseconds. -/
structure Entry where
  value : Value
  expire : Option Int

/-- What is stored at a key. -/
abbrev Slot := Option Entry

/-- All keys; most of them are absent. -/
abbrev Keyspace := Key → Slot

/-- `TYPE`. -/
inductive KeyType
  | none | string | zset | other (kind : OtherType)
  deriving DecidableEq, Repr

/-- The type of a stored value. -/
def Value.type : Value → KeyType
  | .string _ => .string
  | .zset _ => .zset
  | .other kind _ => .other kind

/-- The clock has passed the key's expiry. -/
def Entry.expired (now : Int) (e : Entry) : Bool :=
  match e.expire with
  | none => false
  | some deadline => deadline < now

/-- Lazy expiry: looking a key up deletes it if it has expired. -/
def evict (now : Int) (v : Slot) : Slot := v.filter fun e => !e.expired now

/-- There is nothing to delete at an absent key. -/
@[simp] theorem evict_none (now : Int) : evict now none = none := rfl

/-- A key that is there is kept unless it has expired. -/
theorem evict_some (now : Int) (e : Entry) :
    evict now (some e) = if e.expired now then none else some e := by
  unfold evict
  cases h : e.expired now <;> simp [h]

/-- What a look-up finds was there, and had not expired. -/
theorem evict_eq_some {now : Int} {v : Slot} {e : Entry} :
    evict now v = some e ↔ v = some e ∧ e.expired now = false := by
  simp [evict, Option.filter_eq_some_iff]

/-- A second look at the same clock finds nothing more to delete. -/
@[simp] theorem evict_evict (now : Int) (v : Slot) : evict now (evict now v) = evict now v := by
  unfold evict
  rw [Option.filter_filter]
  simp

/-- A key without expiry, or with one the clock has not passed, stays. -/
theorem evict_of_live {now deadline : Int} {val : Value} (h : now ≤ deadline) :
    evict now (some ⟨val, some deadline⟩) = some ⟨val, some deadline⟩ := by
  rw [evict_some, if_neg]
  simpa [Entry.expired] using h

/-- A key whose expiry has passed is deleted by the look-up. -/
theorem evict_of_passed {now deadline : Int} {val : Value} (h : deadline < now) :
    evict now (some ⟨val, some deadline⟩) = none := by
  rw [evict_some, if_pos]
  simpa [Entry.expired] using h

/-- Score of `m` in whatever is stored, if a live sorted set is stored. -/
def scoreAt (now : Int) (v : Slot) (m : Member) : Option Score :=
  match evict now v with
  | some ⟨.zset z, _⟩ => z.score m
  | _ => none

/-! ## The clock -/

/-- The server clock: a signed 64-bit count of microseconds. A script sees it
frozen. -/
structure Clock where
  us : Int
  lower : -2 ^ 63 ≤ us
  upper : us < 2 ^ 63
  deriving DecidableEq

/-- The millisecond clock that expiries are compared with. -/
def Clock.ms (c : Clock) : Int := c.us / 1000

/-- Seconds, the first element of a `TIME` reply. -/
def Clock.sec (c : Clock) : Int := c.us / 1000000

/-- Microseconds within the second, the second element of a `TIME` reply. -/
def Clock.usec (c : Clock) : Int := c.us % 1000000

/-- The millisecond clock in terms of the two numbers of a `TIME` reply. -/
theorem Clock.ms_eq (c : Clock) : c.ms = c.sec * 1000 + c.usec / 1000 := by
  unfold Clock.ms Clock.sec Clock.usec
  omega

/-- Later in microseconds is not earlier in milliseconds. -/
theorem Clock.ms_mono {c c' : Clock} (h : c.us ≤ c'.us) : c.ms ≤ c'.ms := by
  unfold Clock.ms
  omega

end RLock.Redis
