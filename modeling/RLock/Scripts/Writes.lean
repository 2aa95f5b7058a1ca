import RLock.Scripts.Slots

/-!
# RLock — what the write and release loops leave

The second loop of the acquire and renew scripts writes each key, the release
scripts take the caller out of each key. Both are given here as functions on
slots, and each loop body is shown to compute its function.

The functions are about slots and not about commands. `granted` says what a key holds
after a successful attempt, and in it the TTL occurs only through the deadline, although
the scripts pass the TTL string on to Redis; the conditional `PEXPIRE` of the read
scripts comes out as a maximum. `released` says what is left of a slot when one token is
taken out. In both the members and scores of a sorted set are reached through
`storedScore`, and the proofs above this module use no more of it than that.

A write happens after the check of the same slot, so the write bodies are run on *clean*
slots only: looked up already, and of the right type.

* `granted` — the slot after a successful acquire or renew.
* `run_setPx`, `run_prolong`, `run_grantRead`, `run_grantWrite` — the four
  write bodies, each followed by the fact that a repeated key changes nothing.
* `released` / `holds` — the slot after a release, and whether the loop counts it.
* `storedScore_withoutMember`, `score_withMember` — what this means for each member.
* `holds_released`, `released_again` — a second release finds nothing.
-/

namespace RLock.Scripts

open KeyedStore RLock.Redis

-- ---------------------------------------------------------------------------
-- Holders
-- ---------------------------------------------------------------------------

/-- The sorted-set member of a token; a mutex stores the token itself. -/
def holder : Kind → String → Member
  | .mutex, token => token
  | .read, token => readMember token
  | .write, token => writeMember token

/-- The score that stands for a deadline: negative for a writer. -/
def signed : Kind → Int → Score
  | .write, deadline => Score.ofInt (-deadline)
  | _, deadline => Score.ofInt deadline

/-- The sorted set of a slot with one member added or moved. -/
def withMember (m : Member) (s : Score) : Slot → ZSet
  | some ⟨.zset z, _⟩ => z.add m s
  | _ => .single m s

/-- Expiry pushed back to `deadline`, never forward. -/
def pushedBack (deadline : Int) : Slot → Int
  | some ⟨_, some expire⟩ => max expire deadline
  | _ => deadline

/-- The slot after the write loop of a successful acquire or renew. -/
def granted (kind : Kind) (now deadline : Int) (token : String) (v : Slot) : Slot :=
  match kind with
  | .mutex => some ⟨.string token, some deadline⟩
  | .read =>
    some ⟨.zset (withMember (readMember token) (Score.ofInt deadline) (cleanup now v)),
      some (pushedBack deadline (cleanup now v))⟩
  | .write =>
    some ⟨.zset (withMember (writeMember token) (Score.ofInt (-deadline)) (cleanup now v)),
      some deadline⟩

/-- A cleaned slot: looked up, and a sorted set if present. -/
def Clean (now : Int) (v : Slot) : Prop := SortedSetSlot now v ∧ evict now v = v

/-- A slot of the right type is clean after the cleanup. -/
theorem clean_cleanup {now : Int} {v : Slot} (h : SortedSetSlot now v) :
    Clean now (cleanup now v) :=
  ⟨h.cleanup, evict_cleanup h⟩

/-- A clean slot is absent or a sorted set, and not only to a look-up. -/
theorem Clean.cases {now : Int} {v : Slot} (h : Clean now v) :
    v = none ∨ ∃ z expire, v = some ⟨.zset z, expire⟩ := by
  obtain ⟨hSlot, hEvict⟩ := h
  rwa [SortedSetSlot, hEvict] at hSlot

/-- A member that is moved twice is where it was moved last. -/
@[simp] theorem ZSet.add_add (z : ZSet) (m : Member) (s s' : Score) :
    (z.add m s).add m s' = z.add m s' := by
  ext1
  exact AList.insert_insert ..

@[simp] theorem ZSet.single_add (m : Member) (s s' : Score) :
    (ZSet.single m s).add m s' = .single m s' := by
  ext1
  exact AList.insert_singleton_eq

/-- Adding or moving a member leaves the others. -/
theorem ZSet.score_add (z : ZSet) (m m' : Member) (s : Score) :
    (z.add m s).score m' = if m' = m then some s else z.score m' := by
  unfold ZSet.score ZSet.add
  split
  · subst_vars
    exact AList.lookup_insert _
  · exact AList.lookup_insert_ne ‹_›

theorem ZSet.score_single (m m' : Member) (s : Score) :
    (ZSet.single m s).score m' = if m' = m then some s else none := by
  have hEmpty : ZSet.single m s = ⟨(∅ : AList _).insert m s, by simp⟩ := rfl
  rw [hEmpty]
  unfold ZSet.score
  split
  · subst_vars
    exact AList.lookup_insert _
  · rw [AList.lookup_insert_ne ‹_›, AList.lookup_empty]

-- ---------------------------------------------------------------------------
-- Write bodies
-- ---------------------------------------------------------------------------

/-- Plain `SET` writes the token, whatever was there. -/
theorem run_setPx {now deadline : Int} {token raw : String} (h : deadlineOf now raw = .ok deadline)
    (v : Slot) :
    (setPx now token raw).run v = (.ok (), some ⟨.string token, some deadline⟩) := by
  unfold setPx
  rw [h]

/-- `PEXPIRE` with an accepted TTL moves the expiry of a present key. -/
theorem run_pexpire {now ttl : Int} {raw : String} (hRaw : string2ll raw = some ttl)
    (hPos : 1 ≤ ttl) (hMax : ttl ≤ maxInt64 - now) {v : Slot} {e : Entry}
    (h : evict now v = some e) :
    (pexpire now raw).run v = (.ok 1, some { e with expire := some (now + ttl) }) := by
  unfold pexpire
  simp only [hRaw]
  rw [if_neg (by omega), run_command, h]
  dsimp only
  rw [if_neg (by omega)]

/-- ZADD at a clean slot adds or moves the member and leaves the expiry. -/
theorem run_zadd {now : Int} {v : Slot} (h : Clean now v) (s : Score) (m : Member) :
    ∃ n, (zadd now s m).run v =
      (.ok n, some ⟨.zset (withMember m s v), v.bind (·.expire)⟩) := by
  have hEvict := h.2
  unfold zadd
  rw [run_command, hEvict]
  rcases h.cases with rfl | ⟨z, expire, rfl⟩
  · exact ⟨1, rfl⟩
  · exact ⟨_, rfl⟩

section Accepted

variable {c : Clock} {raw token : String} {ttl : Int} {rawTtl : Option String}

/-- The renewal of a mutex moves the expiry and leaves the value. -/
theorem run_prolong (hTtl : ttlPreflight rawTtl = .ok (raw, ttl)) {v : Slot} {val : Value}
    {expire : Option Int} (h : evict c.ms v = some ⟨val, expire⟩) :
    (prolong c raw).run v = (.ok (), some ⟨val, some (c.ms + ttl)⟩) := by
  obtain ⟨-, -, -, hPos, hLe⟩ := ttlPreflight_ok hTtl
  unfold prolong
  rw [run_bind_ok (run_pexpire (string2ll_of_ttlPreflight hTtl) hPos (le_maxInt64_sub c hLe) h)]
  rfl

/-- Renewing an owned mutex key leaves what acquiring it leaves. -/
theorem run_prolong_owned (hTtl : ttlPreflight rawTtl = .ok (raw, ttl)) {v : Slot}
    (h : ∃ expire, evict c.ms v = some ⟨.string token, expire⟩) :
    (prolong c raw).run v = (.ok (), granted .mutex c.ms (c.ms + ttl) token v) := by
  obtain ⟨expire, hv⟩ := h
  exact run_prolong hTtl hv

theorem evict_granted {kind : Kind} {now deadline : Int} {token : String} {v : Slot}
    (h : now ≤ deadline) :
    evict now (granted kind now deadline token v) = granted kind now deadline token v := by
  cases kind with
  | mutex => exact evict_of_live h
  | read =>
    refine evict_of_live ?_
    unfold pushedBack
    split
    · exact h.trans (le_max_right ..)
    · exact h
  | write => exact evict_of_live h

/-- **Grant to a reader.** The member gets the deadline, and the key lives no shorter than before.
-/
theorem run_grantRead (hTtl : ttlPreflight rawTtl = .ok (raw, ttl)) {m : Member} {w : Slot}
    (h : Clean c.ms w) :
    (grantRead c raw ttl (c.ms + ttl) m).run w =
      (.ok (), some ⟨.zset (withMember m (Score.ofInt (c.ms + ttl)) w),
        some (pushedBack (c.ms + ttl) w)⟩) := by
  obtain ⟨-, -, -, hPos, hLe⟩ := ttlPreflight_ok hTtl
  obtain ⟨n, hAdd⟩ := run_zadd h (Score.ofInt (c.ms + ttl)) m
  have hMax := le_maxInt64_sub c hLe
  have hRaw := string2ll_of_ttlPreflight hTtl
  -- the key is alive between the two commands, since it was alive before them
  have hAlive : evict c.ms (some ⟨.zset (withMember m (Score.ofInt (c.ms + ttl)) w),
      w.bind (·.expire)⟩) = some ⟨.zset (withMember m (Score.ofInt (c.ms + ttl)) w),
      w.bind (·.expire)⟩ := by
    rw [evict_eq_some]
    refine ⟨rfl, ?_⟩
    rcases h.cases with rfl | ⟨z, expire, rfl⟩
    · rfl
    · exact (evict_eq_some.mp h.2).2
  unfold grantRead
  rw [run_bind_ok hAdd, run_bind, pttl, run_query, hAlive]
  -- a key without expiry gets one; otherwise the later of the two is kept
  rcases hExp : w.bind (·.expire) with _ | deadline
  · have hNone : pushedBack (c.ms + ttl) w = c.ms + ttl := by
      unfold pushedBack
      split
      · cases hExp
      · rfl
    rw [hExp] at hAlive
    dsimp only
    rw [if_pos (by omega), run_bind_ok (run_pexpire hRaw hPos hMax hAlive), hNone]
    rfl
  · have hSome : pushedBack (c.ms + ttl) w = max deadline (c.ms + ttl) := by
      rcases w with _ | ⟨val, expire⟩
      · cases hExp
      · cases hExp
        rfl
    have hNow : c.ms ≤ deadline := by
      rw [hExp] at hAlive
      simpa [Entry.expired] using (evict_eq_some.mp hAlive).2
    rw [hExp] at hAlive
    dsimp only
    rw [hSome, max_eq_right (by omega : (0 : Int) ≤ deadline - c.ms)]
    -- the conditional `PEXPIRE` computes the maximum
    by_cases hShort : deadline - c.ms < ttl
    · rw [if_pos hShort, run_bind_ok (run_pexpire hRaw hPos hMax hAlive),
        max_eq_right (by omega)]
      rfl
    · rw [if_neg hShort, max_eq_left (by omega)]
      rfl

/-- **Grant to a writer.** The member gets the deadline negated, and the key expires with it. -/
theorem run_grantWrite (hTtl : ttlPreflight rawTtl = .ok (raw, ttl)) {m : Member} {w : Slot}
    (h : Clean c.ms w) :
    (grantWrite c raw (c.ms + ttl) m).run w =
      (.ok (), some ⟨.zset (withMember m (Score.ofInt (-(c.ms + ttl))) w),
        some (c.ms + ttl)⟩) := by
  obtain ⟨-, -, -, hPos, hLe⟩ := ttlPreflight_ok hTtl
  obtain ⟨n, hAdd⟩ := run_zadd h (Score.ofInt (-(c.ms + ttl))) m
  have hAlive : evict c.ms (some ⟨.zset (withMember m (Score.ofInt (-(c.ms + ttl))) w),
      w.bind (·.expire)⟩) = some ⟨.zset (withMember m (Score.ofInt (-(c.ms + ttl))) w),
      w.bind (·.expire)⟩ := by
    rw [evict_eq_some]
    refine ⟨rfl, ?_⟩
    rcases h.cases with rfl | ⟨z, expire, rfl⟩
    · rfl
    · exact (evict_eq_some.mp h.2).2
  unfold grantWrite
  rw [run_bind_ok hAdd, run_bind_ok (run_pexpire (string2ll_of_ttlPreflight hTtl) hPos
    (le_maxInt64_sub c hLe) hAlive)]
  rfl

/-- A repeated key adds the member once. -/
theorem withMember_again (m : Member) (s : Score) (w : Slot) (expire : Option Int) :
    withMember m s (some ⟨.zset (withMember m s w), expire⟩) = withMember m s w := by
  show (withMember m s w).add m s = withMember m s w
  unfold withMember
  split
  · exact ZSet.add_add ..
  · exact ZSet.single_add ..

theorem pushedBack_again (deadline : Int) (z : ZSet) (w : Slot) :
    pushedBack deadline (some ⟨.zset z, some (pushedBack deadline w)⟩) =
      pushedBack deadline w := by
  show max (pushedBack deadline w) deadline = pushedBack deadline w
  refine max_eq_left ?_
  unfold pushedBack
  split
  · exact le_max_right ..
  · exact le_rfl

end Accepted

-- ---------------------------------------------------------------------------
-- Release bodies
-- ---------------------------------------------------------------------------

/-- The slot after `ZREM`. -/
def withoutMember (m : Member) : Slot → Slot
  | some ⟨.zset z, expire⟩ =>
    if (z.score m).isSome then restore (ZSet.ofMembers (z.members.erase m)) expire
    else some ⟨.zset z, expire⟩
  | w => w

/-- The slot after a release by this token. -/
def released (kind : Kind) (now : Int) (token : String) (v : Slot) : Slot :=
  match kind, evict now v with
  | .mutex, some ⟨.string s, expire⟩ => if s = token then none else some ⟨.string s, expire⟩
  | .mutex, w => w
  | kind, w => withoutMember (holder kind token) w

/-- The token holds the slot, so that its release counts it. -/
def holds (kind : Kind) (now : Int) (token : String) (v : Slot) : Bool :=
  match kind, evict now v with
  | .mutex, some ⟨.string s, _⟩ => s = token
  | .mutex, _ => false
  | kind, _ => (scoreAt now v (holder kind token)).isSome

/-- The loop body of the release script of each kind. -/
def releaseBody : Kind → Clock → String → SlotProg Nat
  | .mutex, c, token => releaseString c token
  | .read, c, token => releaseMember c (readMember token)
  | .write, c, token => releaseMember c (writeMember token)

/-- A mutex is deleted by its token only, and counted then. -/
theorem run_releaseString (c : Clock) (token : String) (v : Slot) :
    (releaseString c token).run v =
      (.ok (holds .mutex c.ms token v).toNat, released .mutex c.ms token v) := by
  unfold releaseString typeOf released holds
  rw [run_bind, run_query]
  rcases hv : evict c.ms v with _ | ⟨val, expire⟩
  · rfl
  · have hEvict : evict c.ms (some ⟨val, expire⟩) = some ⟨val, expire⟩ := by
      rw [← hv, evict_evict]
    cases val with
    | zset z => rfl
    | other kind payload => rfl
    | string s =>
      simp only [Value.type, if_true]
      unfold Redis.get del
      rw [run_bind, run_query, hEvict]
      -- another token is stored, or this one
      by_cases hs : s = token
      · subst hs
        simp [run_command, hEvict]
      · simp [hs]

/-- A member is taken out of a sorted set, and counted if it was in it. -/
theorem run_releaseMember (c : Clock) (m : Member) (v : Slot) :
    (releaseMember c m).run v =
      (.ok (scoreAt c.ms v m).isSome.toNat, withoutMember m (evict c.ms v)) := by
  unfold releaseMember typeOf scoreAt
  rw [run_bind, run_query]
  rcases hv : evict c.ms v with _ | ⟨val, expire⟩
  · rfl
  · have hEvict : evict c.ms (some ⟨val, expire⟩) = some ⟨val, expire⟩ := by
      rw [← hv, evict_evict]
    cases val with
    | string s => rfl
    | other kind payload => rfl
    | zset z =>
      simp only [Value.type, if_true]
      unfold zrem
      rw [run_command, hEvict]
      dsimp only [withoutMember]
      cases hm : (z.score m).isSome <;> simp

/-- **Release body.** It counts the slot if the token holds it, and takes the
token out. -/
theorem run_releaseBody (kind : Kind) (c : Clock) (token : String) (v : Slot) :
    (releaseBody kind c token).run v =
      (.ok (holds kind c.ms token v).toNat, released kind c.ms token v) := by
  cases kind with
  | mutex => exact run_releaseString c token v
  | read => exact run_releaseMember c (readMember token) v
  | write => exact run_releaseMember c (writeMember token) v

/-- Score of `m` in whatever is stored, expired or not. -/
def storedScore (v : Slot) (m : Member) : Option Score :=
  match v with
  | some ⟨.zset z, _⟩ => z.score m
  | _ => none

/-- A score that is seen is a stored one that the look-up left. -/
theorem scoreAt_eq (now : Int) (v : Slot) (m : Member) :
    scoreAt now v m = storedScore (evict now v) m := rfl

/-- Deleting an emptied sorted set loses no score. -/
theorem storedScore_restore (members : AList (fun _ : Member => Score)) (expire : Option Int)
    (m : Member) : storedScore (restore (ZSet.ofMembers members) expire) m = members.lookup m := by
  unfold ZSet.ofMembers
  split
  · rfl
  · rename_i hEmpty
    exact (entries_eq_nil_iff.mp (not_not.mp hEmpty) m).symm

/-- The scores after an addition, seen from the slot before it. -/
theorem score_withMember (m m' : Member) (s : Score) (w : Slot) :
    (withMember m s w).score m' = if m' = m then some s else storedScore w m' := by
  unfold withMember storedScore
  split
  · exact ZSet.score_add ..
  · exact ZSet.score_single ..

/-- `ZREM` takes out one member and keeps the others. -/
theorem storedScore_withoutMember (v : Slot) (m m' : Member) :
    storedScore (withoutMember m v) m' = if m' = m then none else storedScore v m' := by
  unfold withoutMember
  split
  · rename_i z expire
    split
    · rw [storedScore_restore]
      split
      · subst_vars
        exact AList.lookup_erase ..
      · exact AList.lookup_erase_ne ‹_›
    -- the member was not there, so nothing was taken out
    · rename_i hAbsent
      split
      · subst_vars
        simpa [storedScore] using hAbsent
      · rfl
  · rename_i hOther
    have hNone : ∀ m, storedScore v m = none := by
      intro m
      unfold storedScore
      split
      · exact absurd rfl (hOther _ _)
      · rfl
    simp [hNone]

/-- What a release leaves keeps its expiry. -/
theorem withoutMember_cases (m : Member) (v : Slot) :
    withoutMember m v = none ∨ withoutMember m v = v ∨
    ∃ z z' expire, v = some ⟨.zset z, expire⟩ ∧
      withoutMember m v = some ⟨.zset z', expire⟩ := by
  unfold withoutMember
  split
  · rename_i z expire
    split
    · unfold ZSet.ofMembers
      split
      · exact Or.inr (Or.inr ⟨_, _, _, rfl, rfl⟩)
      · exact Or.inl rfl
    · exact Or.inr (Or.inl rfl)
  · exact Or.inr (Or.inl rfl)

/-- A release leaves nothing that has expired. -/
theorem evict_withoutMember {now : Int} {v : Slot} (h : evict now v = v) (m : Member) :
    evict now (withoutMember m v) = withoutMember m v := by
  rcases withoutMember_cases m v with hNone | hSame | ⟨z, z', expire, hv, hw⟩
  · rw [hNone, evict_none]
  · rw [hSame, h]
  · rw [hw, evict_eq_some]
    rw [hv] at h
    exact ⟨rfl, (evict_eq_some.mp h).2⟩

/-- A member that is gone is not taken out again. -/
theorem withoutMember_again (m : Member) (v : Slot) :
    withoutMember m (withoutMember m v) = withoutMember m v := by
  have hScore : storedScore (withoutMember m v) m = none := by
    rw [storedScore_withoutMember, if_pos rfl]
  -- all that matters is that the member has no score any more
  generalize withoutMember m v = w at hScore
  unfold withoutMember
  split
  · rw [if_neg]
    simpa [storedScore] using hScore
  · rfl

theorem holds_evict (kind : Kind) (now : Int) (token : String) (v : Slot) :
    holds kind now token (evict now v) = holds kind now token v := by
  unfold holds scoreAt
  rw [evict_evict]

/-- A mutex is held by the token that is stored. -/
theorem holds_mutex_iff {now : Int} {token : String} {v : Slot} :
    holds .mutex now token v = true ↔ ∃ expire, evict now v = some ⟨.string token, expire⟩ := by
  unfold holds
  rcases evict now v with _ | ⟨val, expire⟩
  · simp
  · cases val <;> simp

/-- A mutex is deleted if the token holds it, and left alone if not. -/
theorem released_mutex_cases (now : Int) (token : String) (v : Slot) :
    (holds .mutex now token v = true ∧ released .mutex now token v = none) ∨
    (holds .mutex now token v = false ∧ released .mutex now token v = evict now v) := by
  unfold holds released
  rcases evict now v with _ | ⟨val, expire⟩
  · exact Or.inr ⟨rfl, rfl⟩
  · cases val with
    | zset z => exact Or.inr ⟨rfl, rfl⟩
    | other kind payload => exact Or.inr ⟨rfl, rfl⟩
    | string s =>
      by_cases hs : s = token
      · exact Or.inl ⟨by simp [hs], by simp [hs]⟩
      · exact Or.inr ⟨by simp [hs], by simp [hs]⟩

/-- Readers and writers are taken out of the sorted set. -/
theorem released_of_ne_mutex {kind : Kind} (h : kind ≠ .mutex) (now : Int) (token : String)
    (v : Slot) : released kind now token v = withoutMember (holder kind token) (evict now v) := by
  cases kind with
  | mutex => exact absurd rfl h
  | read => rfl
  | write => rfl

theorem holds_of_ne_mutex {kind : Kind} (h : kind ≠ .mutex) (now : Int) (token : String)
    (v : Slot) : holds kind now token v = (scoreAt now v (holder kind token)).isSome := by
  cases kind with
  | mutex => exact absurd rfl h
  | read => rfl
  | write => rfl

/-- A release leaves nothing that has expired. -/
theorem evict_released (kind : Kind) (now : Int) (token : String) (v : Slot) :
    evict now (released kind now token v) = released kind now token v := by
  have hEvict := evict_evict now v
  by_cases hKind : kind = .mutex
  · subst hKind
    rcases released_mutex_cases now token v with ⟨-, hEq⟩ | ⟨-, hEq⟩
    · rw [hEq, evict_none]
    · rw [hEq, hEvict]
  · rw [released_of_ne_mutex hKind]
    exact evict_withoutMember hEvict _

/-- A released slot is not held, so a repeated key counts once. -/
theorem holds_released (kind : Kind) (now : Int) (token : String) (v : Slot) :
    holds kind now token (released kind now token v) = false := by
  have hEvict := evict_released kind now token v
  by_cases hKind : kind = .mutex
  · subst hKind
    rcases released_mutex_cases now token v with ⟨-, hEq⟩ | ⟨hHolds, hEq⟩
    · rw [hEq]
      rfl
    · rw [hEq, holds_evict, hHolds]
  · rw [holds_of_ne_mutex hKind, scoreAt_eq, hEvict, released_of_ne_mutex hKind,
      storedScore_withoutMember, if_pos rfl]
    rfl

/-- A second release of the same slot changes nothing. -/
theorem released_again (kind : Kind) (now : Int) (token : String) (v : Slot) :
    released kind now token (released kind now token v) = released kind now token v := by
  have hEvict := evict_released kind now token v
  by_cases hKind : kind = .mutex
  · subst hKind
    rcases released_mutex_cases now token (released .mutex now token v) with ⟨hHolds, -⟩ | ⟨-, hEq⟩
    · rw [holds_released] at hHolds
      cases hHolds
    · rw [hEq, hEvict]
  · rw [released_of_ne_mutex hKind, hEvict, released_of_ne_mutex hKind, withoutMember_again]

end RLock.Scripts
