import RLock.Scripts.Preflight

/-!
# RLock — what a loop body does to its slot

The scripts are loops over slot programs; this module says what each slot
program replies and leaves, once, in terms of three views of a slot:

* `evict now v` — the slot after lazy expiry, all a mutex script sees;
* `cleanup now v` — the slot after lazy expiry and the removal of the members
  whose deadline has come, all a read-write script sees;
* `scoreAt now v m` — the score of a member.

The range that the cleanup removes is `[-now, now]`, so it takes out readers with a
deadline up to now and writers alike, whose scores are negative. The checks of the
read-write scripts look at what is left, and so do not see that anything was removed;
`turnedDown` states their outcome on the slot before the cleanup.

`turnedDown` collects the conditions on which the check loops `return 0`,
`granted` the slots the write loops leave.

* `scoreAt_cleanup` — the cleanup hides the members in the range, and no others.
* `cleanup_cleanup`, `SortedSetSlot.cleanup` — a second cleanup has nothing to do.
* `run_taken`, `run_notOwned`, `run_hasWriter`, `run_hasHolder`, `run_readLapsed`,
  `run_writeLapsed` — the six checks.
-/

namespace RLock.Scripts

open KeyedStore RLock.Redis

-- ---------------------------------------------------------------------------
-- Kinds of slots
-- ---------------------------------------------------------------------------

/-- Absent, or a sorted set: what `RW_TYPE_PREFLIGHT` lets through. -/
def SortedSetSlot (now : Int) (v : Slot) : Prop :=
  evict now v = none ∨ ∃ z expire, evict now v = some ⟨.zset z, expire⟩

/-- Absent, or a string: where `GET` raises no error. -/
def StringSlot (now : Int) (v : Slot) : Prop :=
  evict now v = none ∨ ∃ s expire, evict now v = some ⟨.string s, expire⟩

/-- A score the cleanup range `[-now, now]` does not reach. -/
def outside (now : Int) (s : Score) : Bool :=
  !(Score.ofInt (-now) ≤ s && s ≤ Score.ofInt now)

/-- A score is kept if it is below the range or above it. -/
theorem outside_iff {now : Int} {s : Score} :
    outside now s = true ↔ s < Score.ofInt (-now) ∨ Score.ofInt now < s := by
  simp only [outside, Bool.not_eq_true', Bool.and_eq_false_iff, decide_eq_false_iff_not, not_le]

/-- The slot after lazy expiry and `ZREMRANGEBYSCORE KEYS[i] -now now`. -/
def cleanup (now : Int) (v : Slot) : Slot :=
  match evict now v with
  | some ⟨.zset z, expire⟩ =>
    restore (ZSet.ofMembers (keepScores (outside now) z.members)) expire
  | w => w

-- ---------------------------------------------------------------------------
-- Cleanup
-- ---------------------------------------------------------------------------

/-- There is nothing to clean up at an absent key. -/
theorem cleanup_of_none {now : Int} {v : Slot} (h : evict now v = none) :
    cleanup now v = none := by
  unfold cleanup
  rw [h]

/-- A sorted set loses the members in the range. -/
theorem cleanup_of_zset {now : Int} {v : Slot} {z : ZSet} {expire : Option Int}
    (h : evict now v = some ⟨.zset z, expire⟩) :
    cleanup now v = restore (ZSet.ofMembers (keepScores (outside now) z.members)) expire := by
  unfold cleanup
  rw [h]

/-- The cleanup looks the key up itself. -/
@[simp] theorem cleanup_evict (now : Int) (v : Slot) :
    cleanup now (evict now v) = cleanup now v := by
  unfold cleanup
  rw [evict_evict]

/-- Cleaning a sorted set either empties the slot or shrinks the set and keeps
its expiry. -/
theorem cleanup_cases {now : Int} {v : Slot} {z : ZSet} {expire : Option Int}
    (h : evict now v = some ⟨.zset z, expire⟩) :
    (cleanup now v = none ∧ (keepScores (outside now) z.members).entries = []) ∨
    ∃ z', cleanup now v = some ⟨.zset z', expire⟩ ∧
      z'.members = keepScores (outside now) z.members := by
  rw [cleanup_of_zset h]
  unfold ZSet.ofMembers
  split
  · exact Or.inr ⟨_, rfl, rfl⟩
  · rename_i hEmpty
    exact Or.inl ⟨rfl, not_not.mp hEmpty⟩

/-- What the cleanup leaves has not expired. -/
theorem evict_cleanup {now : Int} {v : Slot} (h : SortedSetSlot now v) :
    evict now (cleanup now v) = cleanup now v := by
  rcases h with hNone | ⟨z, expire, hz⟩
  · rw [cleanup_of_none hNone, evict_none]
  · rcases cleanup_cases hz with ⟨hEq, -⟩ | ⟨z', hEq, -⟩
    · rw [hEq, evict_none]
    · rw [hEq, evict_eq_some]
      exact ⟨rfl, (evict_eq_some.mp hz).2⟩

/-- The cleanup leaves an absent key or a sorted set. -/
theorem SortedSetSlot.cleanup {now : Int} {v : Slot} (h : SortedSetSlot now v) :
    SortedSetSlot now (cleanup now v) := by
  unfold SortedSetSlot
  rw [evict_cleanup h]
  rcases h with hNone | ⟨z, expire, hz⟩
  · exact Or.inl (cleanup_of_none hNone)
  · rcases cleanup_cases hz with ⟨hEq, -⟩ | ⟨z', hEq, -⟩
    · exact Or.inl hEq
    · exact Or.inr ⟨z', expire, hEq⟩

-- ---------------------------------------------------------------------------
-- Scores
-- ---------------------------------------------------------------------------

theorem scoreAt_of_none {now : Int} {v : Slot} (h : evict now v = none) (m : Member) :
    scoreAt now v m = none := by
  unfold scoreAt
  rw [h]

theorem scoreAt_of_zset {now : Int} {v : Slot} {z : ZSet} {expire : Option Int}
    (h : evict now v = some ⟨.zset z, expire⟩) (m : Member) :
    scoreAt now v m = z.score m := by
  unfold scoreAt
  rw [h]

/-- Cleanup hides exactly the members whose score lies in `[-now, now]`. -/
theorem scoreAt_cleanup {now : Int} {v : Slot} (h : SortedSetSlot now v) (m : Member) :
    scoreAt now (cleanup now v) m = (scoreAt now v m).filter (outside now) := by
  rcases h with hNone | ⟨z, expire, hz⟩
  · rw [cleanup_of_none hNone, scoreAt_of_none (evict_none _), scoreAt_of_none hNone]
    rfl
  · rw [scoreAt_of_zset hz, ZSet.score, ← lookup_keepScores]
    have hEvict := evict_cleanup (Or.inr ⟨z, expire, hz⟩)
    rcases cleanup_cases hz with ⟨hEq, hNil⟩ | ⟨z', hEq, hMem⟩
    · rw [hEq, scoreAt_of_none (evict_none _)]
      exact (entries_eq_nil_iff.mp hNil m).symm
    · rw [hEq] at hEvict ⊢
      rw [scoreAt_of_zset hEvict, ZSet.score, hMem]

/-- An absent slot is one without members. -/
theorem eq_none_iff_scoreAt {now : Int} {v : Slot} (h : SortedSetSlot now v) :
    evict now v = none ↔ ∀ m, scoreAt now v m = none := by
  constructor
  · exact fun hNone m => scoreAt_of_none hNone m
  · intro hAll
    rcases h with hNone | ⟨z, expire, hz⟩
    · exact hNone
    · refine absurd (entries_eq_nil_iff.mpr fun m => ?_) z.nonempty
      have := hAll m
      rwa [scoreAt_of_zset hz] at this

/-- Cleaning twice is cleaning once. -/
theorem cleanup_cleanup {now : Int} {v : Slot} (h : SortedSetSlot now v) :
    cleanup now (cleanup now v) = cleanup now v := by
  have hEvict := evict_cleanup h
  rcases h with hNone | ⟨z, expire, hz⟩
  · rw [cleanup_of_none hNone, cleanup_of_none (evict_none _)]
  · rcases cleanup_cases hz with ⟨hEq, -⟩ | ⟨z', hEq, hMem⟩
    · rw [hEq, cleanup_of_none (evict_none _)]
    · rw [hEq] at hEvict ⊢
      -- every score that is left lies outside the range
      have hKeep : keepScores (outside now) z'.members = z'.members := by
        apply AList.ext
        rw [hMem]
        simp [keepScores, List.filter_filter]
      rw [cleanup_of_zset hEvict, hKeep]
      simp [ZSet.ofMembers, z'.nonempty, restore]

-- ---------------------------------------------------------------------------
-- Checks
-- ---------------------------------------------------------------------------

/-- What a script with a TTL is for. -/
inductive Op
  | acquire | renew
  deriving DecidableEq, Repr

/-- The types a script of this kind works on at a listed key. -/
def SlotOk : Op → Kind → Int → Slot → Prop
  | .acquire, .mutex, _, _ => True
  | .renew, .mutex, now, v => StringSlot now v
  | _, _, now, v => SortedSetSlot now v

/-- When the check loop of a script turns a slot down. -/
def turnedDown (op : Op) (kind : Kind) (now : Int) (token : String) (v : Slot) : Prop :=
  match op, kind with
  | .acquire, .mutex => evict now v ≠ none
  | .acquire, .read =>
    ∃ m s, scoreAt now v m = some s ∧ outside now s = true ∧ s < Score.ofInt 0
  | .acquire, .write => ∃ m s, scoreAt now v m = some s ∧ outside now s = true
  | .renew, .mutex => ∀ expire, evict now v ≠ some ⟨.string token, expire⟩
  | .renew, .read =>
    ∀ s, scoreAt now v (readMember token) = some s → s ≤ Score.ofInt now
  | .renew, .write =>
    ∀ s, scoreAt now v (writeMember token) = some s → Score.ofInt (-now) ≤ s

/-- What the check loop leaves of a slot. -/
def checked (kind : Kind) (now : Int) (v : Slot) : Slot :=
  match kind with
  | .mutex => evict now v
  | _ => cleanup now v

/-- The cleanup of a script computes the function of that name. -/
theorem run_dropExpired {c : Clock} {v : Slot} (h : SortedSetSlot c.ms v) :
    (dropExpired c c.ms).run v = (.ok (), cleanup c.ms v) := by
  unfold dropExpired
  rcases h with hNone | ⟨z, expire, hz⟩
  · rw [cleanup_of_none hNone]
    simp [run_bind, zremrangebyscore, run_command, hNone]
  · rw [cleanup_of_zset hz]
    simp only [run_bind, zremrangebyscore, run_command, hz]
    rfl

/-- A command after the cleanup sees the cleaned slot. -/
theorem run_dropExpired_bind {α : Type} {c : Clock} {v : Slot} (h : SortedSetSlot c.ms v)
    (p : SlotProg α) :
    (do dropExpired c c.ms; p).run v = p.run (cleanup c.ms v) :=
  run_bind_ok (run_dropExpired h)

/-- A mutex acquisition is turned down by any key that is there. -/
theorem run_taken (c : Clock) (v : Slot) :
    (taken c).run v = (.ok (evict c.ms v).isSome, evict c.ms v) := by
  unfold taken existsKey
  rw [run_bind, run_query]
  cases evict c.ms v <;> rfl

/-- A mutex renewal is turned down by any other token, and by an absent key. -/
theorem run_notOwned {c : Clock} {token : String} {v : Slot} (h : StringSlot c.ms v) :
    ∃ b, (notOwned c token).run v = (.ok b, evict c.ms v) ∧
      (b = true ↔ turnedDown .renew .mutex c.ms token v) := by
  unfold notOwned Redis.get turnedDown
  rcases h with hNone | ⟨s, expire, hs⟩
  · exact ⟨true, by simp [run_bind, run_query, hNone], by simp [hNone]⟩
  · refine ⟨some s != some token, by simp [run_bind, run_query, hs], ?_⟩
    simp [hs]

/-- `GET` raises `WRONGTYPE` on anything but a string, and changes nothing. -/
theorem run_notOwned_error {c : Clock} {token : String} {v : Slot} (h : ¬ StringSlot c.ms v) :
    (notOwned c token).run v = (.error .wrongType, evict c.ms v) := by
  unfold notOwned Redis.get
  rcases hv : evict c.ms v with _ | ⟨val, expire⟩
  · exact absurd (Or.inl hv) h
  · cases val with
    | string s => exact absurd (Or.inr ⟨s, expire, hv⟩) h
    | zset z => simp [run_bind, run_query, hv]
    | other kind payload => simp [run_bind, run_query, hv]

/-- A reader is turned down by a member that survived the cleanup with a negative score. -/
theorem run_hasWriter {c : Clock} {v : Slot} {token : String} (h : SortedSetSlot c.ms v) :
    ∃ b, (hasWriter c c.ms).run v = (.ok b, cleanup c.ms v) ∧
      (b = true ↔ turnedDown .acquire .read c.ms token v) := by
  have hEvict := evict_cleanup h
  have hScores := scoreAt_cleanup h
  have hSlot := h.cleanup
  unfold hasWriter turnedDown
  rw [run_dropExpired_bind h]
  unfold zcount
  rw [run_bind, run_query, hEvict]
  rcases hSlot with hNone | ⟨z, expire, hz⟩
  · rw [hEvict] at hNone
    refine ⟨false, by simp [hNone, zsetOf, Except.map], ?_⟩
    simp only [Bool.false_eq_true, false_iff, not_exists, not_and]
    intro m s hs hOut
    have := hScores m
    rw [hs, hNone, scoreAt_of_none (evict_none _)] at this
    simp [Option.filter, hOut] at this
  · rw [hEvict] at hz
    have hz' : evict c.ms (cleanup c.ms v) = some ⟨.zset z, expire⟩ := by rw [hEvict, hz]
    refine ⟨_, by simp [hz, zsetOf, Except.map]; rfl, ?_⟩
    -- a count that is not zero is a member in the range that is counted
    rw [bne_iff_ne, Ne, List.length_eq_zero_iff, entries_eq_nil_iff, not_forall]
    refine exists_congr fun m => ?_
    rw [lookup_keepScores, ← ZSet.score, ← scoreAt_of_zset hz', hScores]
    rcases scoreAt c.ms v m with _ | s
    · simp
    · by_cases hOut : outside c.ms s = true <;>
        simp [Option.filter, hOut, Score.negInf]

/-- A writer is turned down by any member that survived the cleanup. -/
theorem run_hasHolder {c : Clock} {v : Slot} {token : String} (h : SortedSetSlot c.ms v) :
    ∃ b, (hasHolder c c.ms).run v = (.ok b, cleanup c.ms v) ∧
      (b = true ↔ turnedDown .acquire .write c.ms token v) := by
  have hEvict := evict_cleanup h
  have hScores := scoreAt_cleanup h
  have hSlot := h.cleanup
  -- the reply is nonzero exactly when the cleaned slot is present
  have hPresent : cleanup c.ms v ≠ none ↔ turnedDown .acquire .write c.ms token v := by
    rw [← hEvict, Ne, eq_none_iff_scoreAt hSlot, not_forall]
    refine exists_congr fun m => ?_
    rw [hScores]
    rcases scoreAt c.ms v m with _ | s
    · simp
    · by_cases hOut : outside c.ms s = true <;> simp [Option.filter, hOut]
  unfold hasHolder
  rw [run_dropExpired_bind h]
  unfold zcard
  rw [run_bind, run_query, hEvict]
  rcases hSlot with hNone | ⟨z, expire, hz⟩
  · rw [hEvict] at hNone
    refine ⟨false, by simp [hNone, zsetOf, Except.map], ?_⟩
    rw [← hPresent]
    simp [hNone]
  · rw [hEvict] at hz
    refine ⟨true, ?_, ?_⟩
    · simp [hz, zsetOf, Except.map, ZSet.card, z.nonempty]
    · rw [← hPresent]
      simp [hz]

/-- What `ZSCORE` replies after the cleanup. -/
theorem run_zscore_cleanup {c : Clock} {v : Slot} (h : SortedSetSlot c.ms v) (m : Member) :
    (zscore c.ms m).run (cleanup c.ms v) =
      (.ok ((scoreAt c.ms v m).filter (outside c.ms)), cleanup c.ms v) := by
  have hEvict := evict_cleanup h
  rw [← scoreAt_cleanup h]
  unfold zscore
  rw [run_query, hEvict]
  rcases h.cleanup with hNone | ⟨z, expire, hz⟩
  · rw [scoreAt_of_none hNone]
    rw [hEvict] at hNone
    simp [hNone, zsetOf, Except.map]
  · rw [scoreAt_of_zset hz]
    rw [hEvict] at hz
    simp [hz, zsetOf, Except.map]

/-- A reader is renewed if its own score has not been reached. -/
theorem run_readLapsed {c : Clock} {v : Slot} {token : String} (h : SortedSetSlot c.ms v) :
    ∃ b, (readLapsed c c.ms (readMember token)).run v = (.ok b, cleanup c.ms v) ∧
      (b = true ↔ turnedDown .renew .read c.ms token v) := by
  unfold readLapsed turnedDown
  rw [run_dropExpired_bind h, run_bind_ok (run_zscore_cleanup h _)]
  rcases hs : scoreAt c.ms v (readMember token) with _ | s
  · exact ⟨true, rfl, by simp⟩
  -- in the range the member is gone, and its deadline had passed as well
  · by_cases hOut : outside c.ms s = true
    · refine ⟨decide (s ≤ Score.ofInt c.ms), by simp [Option.filter, hOut], by simp⟩
    · refine ⟨true, by simp [Option.filter, hOut], ?_⟩
      rw [outside_iff, not_or, not_lt, not_lt] at hOut
      simp [hOut.2]

/-- A writer is renewed if its own score has not been reached, with its sign. -/
theorem run_writeLapsed {c : Clock} {v : Slot} {token : String} (h : SortedSetSlot c.ms v) :
    ∃ b, (writeLapsed c c.ms (writeMember token)).run v = (.ok b, cleanup c.ms v) ∧
      (b = true ↔ turnedDown .renew .write c.ms token v) := by
  unfold writeLapsed turnedDown
  rw [run_dropExpired_bind h, run_bind_ok (run_zscore_cleanup h _)]
  rcases hs : scoreAt c.ms v (writeMember token) with _ | s
  · exact ⟨true, rfl, by simp⟩
  -- as for a reader, on the other side of the range
  · by_cases hOut : outside c.ms s = true
    · refine ⟨decide (Score.ofInt (-c.ms) ≤ s), by simp [Option.filter, hOut], by simp⟩
    · refine ⟨true, by simp [Option.filter, hOut], ?_⟩
      rw [outside_iff, not_or, not_lt, not_lt] at hOut
      simp [hOut.1]

end RLock.Scripts
