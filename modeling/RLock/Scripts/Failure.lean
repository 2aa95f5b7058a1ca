import RLock.Scripts.Effects

/-!
# RLock — what a script that does not succeed leaves behind

For every call, every keyspace (keys of any type, foreign members, any
expiries), every argument and every clock:

* `call_intact` — an error leaves the keyspace as it was, a refused acquire or
  renew drops at most members whose deadline has come, and in every case keys
  that are not listed are untouched.

A key whose expiry has passed is absent: the only trace a look-up may leave of
it is that it is no longer stored. `Unchanged` is equality up to this, and it is what an
error leaves of every key, in the middle of a loop as well as before it.

`Purged` is what a refusal may do beyond that. It is stated of the whole slot: a key that
is no sorted set is unchanged; a sorted set remains one, with the expiry it had, or
disappears; the members whose score lies outside `[-now, now]` are the same, with their
scores; and no member comes in. Nothing is assumed of the scores, which need not be
deadlines, or of who wrote them.
-/

namespace RLock.Scripts

open KeyedStore RLock.Redis

/-- `|s| ≤ now`. -/
def Within (now : Int) (s : Score) : Prop := Score.ofInt (-now) ≤ s ∧ s ≤ Score.ofInt now

/-- The cleanup keeps the scores that are not in the range. -/
theorem outside_eq_true {now : Int} {s : Score} : outside now s = true ↔ ¬ Within now s := by
  rw [outside_iff, Within, not_and_or, not_le, not_le]

/-- The key is exactly as before: same value, same expiry, expired members
included. If anything was removed, it was a key that had already expired. -/
structure Unchanged (now : Int) (v v' : Slot) : Prop where
  visible : evict now v' = evict now v
  stored : v' = v ∨ (evict now v = none ∧ v' = none)

/-- The key is as before, except that a sorted set may have lost members with
`|score| ≤ now`, and the key itself if it had no others. -/
structure Purged (now : Int) (v v' : Slot) : Prop where
  /-- Whatever is not a sorted set is exactly as before. -/
  other : (∀ z expire, evict now v ≠ some ⟨.zset z, expire⟩) → Unchanged now v v'
  /-- A sorted set stays one, with its expiry, or disappears. -/
  zset : ∀ z expire, evict now v = some ⟨.zset z, expire⟩ →
    v' = none ∨ ∃ z', v' = some ⟨.zset z', expire⟩
  /-- Members outside the range are exactly as before. -/
  live : ∀ m s, ¬ Within now s → (scoreAt now v' m = some s ↔ scoreAt now v m = some s)
  /-- No member appears or changes its score. -/
  shrinks : ∀ m s, scoreAt now v' m = some s → scoreAt now v m = some s
  /-- A key that is still there has its expiry. -/
  expiry : ∀ e', evict now v' = some e' → ∃ e, evict now v = some e ∧ e.expire = e'.expire
  /-- A key that is gone had nothing else in it. -/
  gone : evict now v' = none → ∀ m s, scoreAt now v m = some s → Within now s

theorem unchanged_refl (now : Int) (v : Slot) : Unchanged now v v := ⟨rfl, Or.inl rfl⟩

theorem unchanged_evict (now : Int) (v : Slot) : Unchanged now v (evict now v) := by
  refine ⟨evict_evict now v, ?_⟩
  rcases h : evict now v with _ | e
  · exact Or.inr ⟨rfl, rfl⟩
  · exact Or.inl (evict_eq_some.mp h).1.symm

theorem Unchanged.purged {now : Int} {v v' : Slot} (h : Unchanged now v v') :
    Purged now v v' := by
  have hScore : ∀ m, scoreAt now v' m = scoreAt now v m := by
    intro m
    rw [scoreAt_eq, scoreAt_eq, h.visible]
  refine ⟨fun _ => h, fun z expire hz => ?_, fun m s _ => by rw [hScore],
    fun m s hs => by rwa [hScore] at hs, fun e' he' => ⟨e', by rwa [← h.visible], rfl⟩,
    fun hGone m s hs => ?_⟩
  · rw [← h.visible] at hz
    exact Or.inr ⟨z, (evict_eq_some.mp hz).1⟩
  · rw [scoreAt_of_none (by rw [← h.visible, hGone])] at hs
    cases hs

/-- The cleanup of a sorted set takes no more than it may. -/
theorem purged_cleanup {now : Int} {v : Slot} (h : SortedSetSlot now v) :
    Purged now v (cleanup now v) := by
  have hEvict := evict_cleanup h
  have hScore := scoreAt_cleanup h
  rcases h with hNone | ⟨z, expire, hz⟩
  · -- nothing there, nothing to clean
    have hSame : cleanup now v = evict now v := by
      rw [cleanup_of_none hNone, hNone]
    rw [hSame]
    exact (unchanged_evict now v).purged
  · refine ⟨fun hOther => absurd hz (hOther z expire), fun z₀ expire₀ hz₀ => ?_,
      fun m s hOut => ?_, fun m s hs => ?_, fun e' he' => ?_, fun hGone m s hs => ?_⟩
    · cases hz.symm.trans hz₀
      rcases cleanup_cases hz with ⟨hEq, -⟩ | ⟨z', hEq, -⟩
      · exact Or.inl hEq
      · exact Or.inr ⟨z', hEq⟩
    · rw [hScore, Option.filter_eq_some_iff, outside_eq_true]
      exact and_iff_left hOut
    · rw [hScore, Option.filter_eq_some_iff] at hs
      exact hs.1
    · rcases cleanup_cases hz with ⟨hEq, -⟩ | ⟨z', hEq, -⟩
      · rw [hEvict, hEq] at he'
        cases he'
      · rw [hEvict, hEq] at he'
        cases he'
        exact ⟨_, hz, rfl⟩
    · -- an empty set after the cleanup had only members in the range
      by_contra hOut
      have hKept : scoreAt now (cleanup now v) m = some s := by
        rw [hScore, Option.filter_eq_some_iff, outside_eq_true]
        exact ⟨hs, hOut⟩
      rw [scoreAt_of_none hGone] at hKept
      cases hKept

theorem Swept.purged {kind : Kind} {now : Int} {v v' : Slot} (h : Swept kind now v v') :
    Purged now v v' := by
  rcases h with rfl | rfl | ⟨-, hSlot, rfl⟩
  · exact (unchanged_refl now _).purged
  · exact (unchanged_evict now v).purged
  · exact purged_cleanup hSlot

/-- What the outcome `out` of a call at `now` guarantees about the keyspace
`s` it started from. -/
structure Intact (call : Call) (now : Int) (s : Keyspace)
    (out : Except RedisError Int × Keyspace) : Prop where
  error : ∀ e, out.1 = .error e → ∀ k, Unchanged now (s k) (out.2 k)
  zero : call.isRelease = false → out.1 = .ok 0 → ∀ k, Purged now (s k) (out.2 k)
  unlisted : ∀ k, k ∉ call.keys → out.2 k = s k

/-- An acquire or renew, whatever its outcome. -/
theorem attempted_intact {call : Call} {op : Op} {kind : Kind} {now : Int} {token : String}
    {deadline : Option Int} {s : Keyspace} {out : Except RedisError Int × Keyspace}
    (h : Attempted op kind now call.keys token deadline s out) : Intact call now s out := by
  cases h with
  | @failed _ s' hWhy hRew =>
    refine ⟨fun e _ k => ?_, fun _ hZero => (nomatch hZero), fun k hk => hRew.of_not_mem hk⟩
    show Unchanged now (s k) (s' k)
    rcases hRew k with hEq | ⟨-, hEq⟩
    · rw [hEq]
      exact unchanged_refl ..
    · rw [hEq]
      exact unchanged_evict ..
  | @refused s' hDeadline hOk hDown hOther hSwept =>
    refine ⟨fun e hErr => (nomatch hErr), fun _ _ k => ?_, hOther⟩
    show Purged now (s k) (s' k)
    by_cases hk : k ∈ call.keys
    · exact (hSwept k hk).purged
    · rw [hOther k hk]
      exact (unchanged_refl ..).purged
  | granted hDeadline hOk hUp =>
    refine ⟨fun e hErr => (nomatch hErr), fun _ hZero => ?_, fun k hk => mapOn_of_not_mem hk _ _⟩
    exact absurd (Except.ok.inj hZero) (by decide)

/-- **Failed scripts leave lock state intact.** For every call, at every server
time and from every keyspace. -/
theorem call_intact (call : Call) (c : Clock) (s : Keyspace) :
    Intact call c.ms s ((call.exec c).run s) := by
  cases call with
  | setNx key token raw => exact attempted_intact (setNx_effect c key token raw s)
  | attempt op kind keys token rawTtl =>
    have hEffect := attempt_effect op kind c keys token rawTtl s
    exact attempted_intact hEffect
  | release kind keys token =>
    have hRun := release_effect kind c keys token s
    show Intact _ _ _ ((releaseScript kind c keys token).run s)
    rw [hRun]
    exact ⟨fun e hErr => (nomatch hErr), fun hRel => (nomatch hRel),
      fun k hk => mapOn_of_not_mem hk _ _⟩

end RLock.Scripts
