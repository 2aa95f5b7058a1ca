import RLock.Lib.LazyTable
import RLock.Scripts.Exclusion

/-!
# RLock — the abstract lease table

What the library is for, said without Redis: a table from (key, kind, token)
to a deadline. A successful acquire or renew writes the caller's entries, a
release erases them, nothing else changes it. An entry is live as long as
Redis would honour it: a mutex through its deadline, a reader or writer up to
it.

The keyspace is a lazy copy of this table (`LazyTable.Represents`): what it records was
written by the table, and what is live in the table is recorded. It may lag behind, since
Redis deletes an expired key only when somebody looks, and the read-write scripts clean
up a member only when somebody asks for its key. What is recorded beyond its deadline
does no harm, because every check ignores it.

One record is read off a slot in two ways (`keeps`): a mutex is the string with the expiry
of the key, a reader or a writer is a score. The three things that can happen to a slot,
a sweep, a grant and a release, are each followed through for the holder that is concerned
and for every other holder; together they are the refinement step.

* `Sound.le_expire` — a key outlives every deadline recorded at it.
* `keeps_of_swept`, `keeps_swept` — a sweep adds nothing and drops nothing live.
* `keeps_of_granted_other`, `keeps_granted_other` — nor does a grant, to others.
* `keeps_released_other` — a release takes out its own holder only.
* `represents_call` — every call, at a clock that does not run backwards,
  keeps the keyspace a lazy copy of the table.
-/

namespace RLock.Scripts

open KeyedStore LazyTable RLock.Redis

-- ---------------------------------------------------------------------------
-- The table
-- ---------------------------------------------------------------------------

/-- A holder of a key. -/
structure LeaseId where
  key : Key
  kind : Kind
  token : String
  deriving DecidableEq

/-- The deadlines of all holders; most have none. -/
abbrev LeaseTable := LeaseId → Option Int

/-- The server still honours the deadline. -/
def liveAt (now : Int) (i : LeaseId) (deadline : Int) : Prop :=
  match i.kind with
  | .mutex => now ≤ deadline
  | _ => now < deadline

/-- A live deadline is not behind the clock. -/
theorem liveAt.le {now deadline : Int} {i : LeaseId} (h : liveAt now i deadline) :
    now ≤ deadline := by
  unfold liveAt at h
  split at h
  · exact h
  · exact h.le

theorem liveAt_mono {now now' deadline : Int} {i : LeaseId} (hNow : now ≤ now')
    (h : liveAt now' i deadline) : liveAt now i deadline := by
  unfold liveAt at h ⊢
  split at h <;> omega

/-- The entries a call writes or erases. -/
def Call.touches (call : Call) (i : LeaseId) : Prop :=
  i.key ∈ call.keys ∧ i.kind = call.kind ∧ i.token = call.token

instance (call : Call) (i : LeaseId) : Decidable (call.touches i) :=
  inferInstanceAs (Decidable (_ ∧ _))

/-- The table after a call with this reply. -/
def LeaseTable.after (table : LeaseTable) (c : Clock) (call : Call)
    (reply : Except RedisError Int) : LeaseTable :=
  if call.isRelease = true ∨ reply = .ok 1 then
    fun i => if call.touches i then call.deadline c else table i
  else table

-- ---------------------------------------------------------------------------
-- The keyspace as a copy of the table
-- ---------------------------------------------------------------------------

/-- The slot records this deadline for the holder, expired or not. -/
def keeps (kind : Kind) (token : String) (v : Slot) (deadline : Int) : Prop :=
  match kind with
  | .mutex => v = some ⟨.string token, some deadline⟩
  | kind => storedScore v (holder kind token) = some (signed kind deadline)

/-- The keyspace records this deadline for the holder. -/
def stored (s : Keyspace) (i : LeaseId) (deadline : Int) : Prop :=
  keeps i.kind i.token (s i.key) deadline

/-- The slot is well formed for some history. -/
def Sound (v : Slot) : Prop := ∃ history, Held history v

/-- A score tells the deadline, once the kind is known. -/
theorem signed_inj {kind : Kind} {a b : Int} (h : signed kind a = signed kind b) : a = b := by
  cases kind <;> simpa [signed] using h

/-- A reader or writer is recorded as a score. -/
theorem keeps_of_ne_mutex {kind : Kind} (hKind : kind ≠ .mutex) {token : String} {v : Slot}
    {deadline : Int} :
    keeps kind token v deadline ↔
      storedScore v (holder kind token) = some (signed kind deadline) := by
  cases kind with
  | mutex => exact absurd rfl hKind
  | read => exact Iff.rfl
  | write => exact Iff.rfl

/-- The member tells the kind and the token: no reader is taken for a writer. -/
theorem holder_inj {kind kind' : Kind} {token token' : String} (hKind : kind ≠ .mutex)
    (hKind' : kind' ≠ .mutex) (h : holder kind token = holder kind' token') :
    kind = kind' ∧ token = token' := by
  cases kind with
  | mutex => exact absurd rfl hKind
  | read =>
    cases kind' with
    | mutex => exact absurd rfl hKind'
    | read => exact ⟨rfl, readMember_inj h⟩
    | write => exact absurd h (readMember_ne_writeMember _ _)
  | write =>
    cases kind' with
    | mutex => exact absurd rfl hKind'
    | read => exact absurd h.symm (readMember_ne_writeMember _ _)
    | write => exact ⟨rfl, writeMember_inj h⟩

theorem keeps_ne_none {kind : Kind} {token : String} {deadline : Int} :
    ¬ keeps kind token none deadline := by
  cases kind <;> simp [keeps, storedScore]

/-- A recorded deadline never exceeds the key's expiry. -/
theorem Sound.le_expire {v : Slot} (h : Sound v) {kind : Kind} {token : String} {deadline : Int}
    (hKeeps : keeps kind token v deadline) :
    ∃ val expire, v = some ⟨val, some expire⟩ ∧ deadline ≤ expire := by
  obtain ⟨history, hHeld⟩ := h
  cases hHeld with
  | absent => exact absurd hKeeps keeps_ne_none
  | @mutex owner d hLast =>
    refine ⟨_, _, rfl, ?_⟩
    cases kind with
    | mutex =>
      simp only [keeps, Option.some.injEq, Entry.mk.injEq] at hKeeps
      exact hKeeps.2.ge
    | read => cases hKeeps
    | write => cases hKeeps
  | @writer z owner d hOnly hPos hGrant =>
    refine ⟨_, _, rfl, ?_⟩
    cases kind with
    | mutex => cases hKeeps
    | read => exact absurd (hOnly _ _ hKeeps).1 (readMember_ne_writeMember _ _)
    | write =>
      have hScore := (hOnly _ _ hKeeps).2
      simp only [signed, Score.ofInt_inj] at hScore
      omega
  | @readers z expire hAll hGrant =>
    refine ⟨_, _, rfl, ?_⟩
    cases kind with
    | mutex => cases hKeeps
    | read =>
      obtain ⟨owner, d, -, hScore, -, hLe, -⟩ := hAll _ _ hKeeps
      simp only [signed, Score.ofInt_inj] at hScore
      omega
    | write =>
      obtain ⟨owner, d, hm, -⟩ := hAll _ _ hKeeps
      exact absurd hm.symm (readMember_ne_writeMember _ _)

/-- A recorded read-write deadline lies after the epoch. -/
theorem Sound.deadline_pos {v : Slot} (h : Sound v) {kind : Kind} (hKind : kind ≠ .mutex)
    {token : String} {deadline : Int} (hKeeps : keeps kind token v deadline) : 0 < deadline := by
  obtain ⟨history, hHeld⟩ := h
  rw [keeps_of_ne_mutex hKind] at hKeeps
  cases hHeld with
  | absent => cases hKeeps
  | mutex hLast => cases hKeeps
  | writer hOnly hPos hGrant =>
    obtain ⟨hm, hScore⟩ := hOnly _ _ hKeeps
    obtain ⟨rfl, -⟩ := holder_inj hKind (show Kind.write ≠ .mutex by decide) hm
    simp only [signed, Score.ofInt_inj] at hScore
    omega
  | readers hAll hGrant =>
    obtain ⟨owner, d, hm, hScore, hPos, -⟩ := hAll _ _ hKeeps
    obtain ⟨rfl, -⟩ := holder_inj hKind (show Kind.read ≠ .mutex by decide) hm
    simp only [signed, Score.ofInt_inj] at hScore
    omega

-- ---------------------------------------------------------------------------
-- What each effect does to a recorded deadline
-- ---------------------------------------------------------------------------

section Slots

variable {kind kind' : Kind} {token token' : String} {now d d' : Int} {v v' : Slot}

/-- What is recorded after a look-up was recorded before. -/
theorem keeps_of_evict (h : keeps kind token (evict now v) d) : keeps kind token v d := by
  rcases hv : evict now v with _ | e
  · rw [hv] at h
    exact absurd h keeps_ne_none
  · rw [hv] at h
    rwa [(evict_eq_some.mp hv).1]

/-- A key with a deadline that has not passed has not expired. -/
theorem Sound.evict_eq (hSound : Sound v) (h : keeps kind token v d) (hNow : now ≤ d) :
    evict now v = v := by
  obtain ⟨val, expire, rfl, hLe⟩ := hSound.le_expire h
  exact evict_of_live (hNow.trans hLe)

/-- The cleanup does not reach a deadline that is ahead. -/
theorem outside_signed (hKind : kind ≠ .mutex) (hNow : now < d) :
    outside now (signed kind d) = true := by
  rw [outside_iff]
  cases kind with
  | mutex => exact absurd rfl hKind
  | read => exact Or.inr (by simpa [signed] using hNow)
  | write => exact Or.inl (by simpa [signed] using hNow)

/-- What is recorded after a cleanup was recorded before. -/
theorem keeps_of_cleanup (hSlot : SortedSetSlot now v)
    (h : keeps kind token (cleanup now v) d) : keeps kind token v d := by
  by_cases hKind : kind = .mutex
  · -- what is left of a sorted set is no string
    subst hKind
    change cleanup now v = _ at h
    rcases hSlot with hNone | ⟨z, expire, hz⟩
    · rw [cleanup_of_none hNone] at h
      cases h
    · rcases cleanup_cases hz with ⟨hEq, -⟩ | ⟨z', hEq, -⟩ <;> rw [hEq] at h <;> cases h
  · rw [keeps_of_ne_mutex hKind, storedScore_cleanup hSlot, scoreAt_eq] at h
    exact keeps_of_evict ((keeps_of_ne_mutex hKind).mpr h.1)

/-- A live reader or writer survives the cleanup. -/
theorem keeps_cleanup (hSound : Sound v) (hSlot : SortedSetSlot now v)
    (h : keeps kind token v d) (hKind : kind ≠ .mutex) (hNow : now < d) :
    keeps kind token (cleanup now v) d := by
  have hEvict := hSound.evict_eq h hNow.le
  rw [keeps_of_ne_mutex hKind] at h ⊢
  rw [storedScore_cleanup hSlot, scoreAt_eq, hEvict]
  exact ⟨h, outside_signed hKind hNow⟩

/-- A mutex that still holds is not in a slot of a read-write lock. -/
theorem Sound.not_sortedSet (hSound : Sound v) (hSlot : SortedSetSlot now v)
    (h : keeps .mutex token v d) (hNow : now ≤ d) : False := by
  have hEvict := hSound.evict_eq h hNow
  change v = _ at h
  rcases hSlot with hNone | ⟨z, expire, hz⟩
  · rw [hEvict, h] at hNone
    cases hNone
  · rw [hEvict, h] at hz
    cases hz

/-- A sweep records nothing new. -/
theorem keeps_of_swept (hSwept : Swept kind' now v v') (h : keeps kind token v' d) :
    keeps kind token v d := by
  rcases hSwept with rfl | rfl | ⟨-, hSlot, rfl⟩
  · exact h
  · exact keeps_of_evict h
  · exact keeps_of_cleanup hSlot h

/-- A sweep drops nothing that is live. -/
theorem keeps_swept (hSound : Sound v) (hSwept : Swept kind' now v v')
    (h : keeps kind token v d) {key : Key} (hLive : liveAt now ⟨key, kind, token⟩ d) :
    keeps kind token v' d := by
  have hEvict := hSound.evict_eq h hLive.le
  rcases hSwept with rfl | rfl | ⟨-, hSlot, rfl⟩
  · exact h
  · rwa [hEvict]
  · by_cases hKind : kind = .mutex
    · subst hKind
      exact (hSound.not_sortedSet hSlot h hLive.le).elim
    · refine keeps_cleanup hSound hSlot h hKind ?_
      cases kind with
      | mutex => exact absurd rfl hKind
      | read => exact hLive
      | write => exact hLive

/-- A grant records its deadline, and no other, for its own holder. -/
theorem keeps_granted : keeps kind token (granted kind now d token v) d' ↔ d' = d := by
  cases kind with
  | mutex => simp [keeps, granted, eq_comm]
  | read =>
    show (withMember (readMember token) _ _).score (readMember token) = some _ ↔ _
    rw [score_withMember, if_pos rfl, Option.some.injEq]
    exact ⟨fun h => (signed_inj (show signed .read d = signed .read d' from h)).symm,
      fun h => by rw [h]; rfl⟩
  | write =>
    show (withMember (writeMember token) _ _).score (writeMember token) = some _ ↔ _
    rw [score_withMember, if_pos rfl, Option.some.injEq]
    exact ⟨fun h => (signed_inj (show signed .write d = signed .write d' from h)).symm,
      fun h => by rw [h]; rfl⟩

/-- What is granted to a reader or writer is a member of a sorted set. -/
theorem granted_of_ne_mutex (hKind : kind ≠ .mutex) (now d : Int) (token : String) (v : Slot) :
    ∃ expire, granted kind now d token v =
      some ⟨.zset (withMember (holder kind token) (signed kind d) (cleanup now v)), expire⟩ := by
  cases kind with
  | mutex => exact absurd rfl hKind
  | read => exact ⟨_, rfl⟩
  | write => exact ⟨_, rfl⟩

/-- Another holder's record after a grant was there before it. -/
theorem keeps_of_granted_other {op : Op} (hOk : SlotOk op kind now v)
    (hOther : ¬ (kind' = kind ∧ token' = token))
    (h : keeps kind' token' (granted kind now d token v) d') : keeps kind' token' v d' := by
  by_cases hKind : kind = .mutex
  · subst hKind
    cases kind' with
    | mutex =>
      simp only [keeps, granted, Option.some.injEq, Entry.mk.injEq, Value.string.injEq] at h
      exact absurd ⟨rfl, h.1.symm⟩ hOther
    | read => cases h
    | write => cases h
  · obtain ⟨expire, hEq⟩ := granted_of_ne_mutex hKind now d token v
    rw [hEq] at h
    by_cases hKind' : kind' = .mutex
    · subst hKind'
      cases h
    · have hSlot := (slotOk_of_ne_mutex hKind).mp hOk
      rw [keeps_of_ne_mutex hKind'] at h
      change (withMember _ _ _).score _ = _ at h
      rw [score_withMember, if_neg fun hm => hOther (holder_inj hKind' hKind hm)] at h
      exact keeps_of_cleanup hSlot ((keeps_of_ne_mutex hKind').mpr h)

/-- A grant drops no other holder that is still live. -/
theorem keeps_granted_other {op : Op} {history : List Grant} (hHeld : Held history v)
    (hOk : SlotOk op kind now v) (hUp : ¬ turnedDown op kind now token v)
    (hOther : ¬ (kind' = kind ∧ token' = token)) (h : keeps kind' token' v d') {key : Key}
    (hLive : liveAt now ⟨key, kind', token'⟩ d') :
    keeps kind' token' (granted kind now d token v) d' := by
  have hSound : Sound v := ⟨history, hHeld⟩
  have hEvict := hSound.evict_eq h hLive.le
  by_cases hKind : kind = .mutex
  · subst hKind
    exfalso
    cases op with
    | acquire =>
      -- the key was free, so nobody is live on it
      have hFree : evict now v = none := not_not.mp hUp
      rw [hEvict] at hFree
      rw [hFree] at h
      exact keeps_ne_none h
    | renew =>
      obtain ⟨expire, hOwned⟩ : ∃ expire, evict now v = some ⟨.string token, expire⟩ := by
        simpa [turnedDown] using hUp
      rw [hEvict] at hOwned
      rw [hOwned] at h
      cases kind' with
      | mutex =>
        simp only [keeps, Option.some.injEq, Entry.mk.injEq, Value.string.injEq] at h
        exact hOther ⟨rfl, h.1.symm⟩
      | read => cases h
      | write => cases h
  · have hSlot := (slotOk_of_ne_mutex hKind).mp hOk
    by_cases hKind' : kind' = .mutex
    · subst hKind'
      exact (hSound.not_sortedSet hSlot h hLive.le).elim
    -- both are in the sorted set, and the other one survives the cleanup before the grant
    · have hNow : now < d' := by
        cases kind' with
        | mutex => exact absurd rfl hKind'
        | read => exact hLive
        | write => exact hLive
      have hClean := keeps_cleanup hSound hSlot h hKind' hNow
      obtain ⟨expire, hEq⟩ := granted_of_ne_mutex hKind now d token v
      rw [keeps_of_ne_mutex hKind'] at hClean ⊢
      rw [hEq]
      show (withMember _ _ _).score _ = _
      rwa [score_withMember, if_neg fun hm => hOther (holder_inj hKind' hKind hm)]

theorem not_keeps_released : ¬ keeps kind token (released kind now token v) d := by
  by_cases hKind : kind = .mutex
  · subst hKind
    intro h
    rcases released_mutex_cases now token v with ⟨-, hEq⟩ | ⟨hNot, hEq⟩
    · rw [hEq] at h
      exact keeps_ne_none h
    · rw [hEq] at h
      rw [holds_mutex_iff.mpr ⟨_, h⟩] at hNot
      cases hNot
  · rw [keeps_of_ne_mutex hKind, released_of_ne_mutex hKind, storedScore_withoutMember,
      if_pos rfl]
    exact fun h => nomatch h

/-- Taking out a member leaves every mutex. -/
theorem withoutMember_mutex {m : Member} :
    keeps .mutex token (withoutMember m v) d ↔ keeps .mutex token v d := by
  show withoutMember m v = _ ↔ v = _
  rcases withoutMember_cases m v with hNone | hSame | ⟨z, z', expire, hv, hw⟩
  · rw [hNone]
    refine ⟨fun h => (nomatch h), fun h => ?_⟩
    rw [h] at hNone
    cases hNone
  · rw [hSame]
  · rw [hw, hv]
    exact ⟨fun h => (nomatch h), fun h => (nomatch h)⟩

/-- A release takes out its own holder only. -/
theorem keeps_released_other (hOther : ¬ (kind' = kind ∧ token' = token)) :
    keeps kind' token' (released kind now token v) d ↔ keeps kind' token' (evict now v) d := by
  by_cases hKind : kind = .mutex
  · subst hKind
    rcases released_mutex_cases now token v with ⟨hHolds, hEq⟩ | ⟨-, hEq⟩
    · obtain ⟨expire, hv⟩ := holds_mutex_iff.mp hHolds
      rw [hEq, hv]
      refine ⟨fun h => absurd h keeps_ne_none, fun h => ?_⟩
      cases kind' with
      | mutex =>
        simp only [keeps, Option.some.injEq, Entry.mk.injEq, Value.string.injEq] at h
        exact absurd ⟨rfl, h.1.symm⟩ hOther
      | read => cases h
      | write => cases h
    · rw [hEq]
  · rw [released_of_ne_mutex hKind]
    by_cases hKind' : kind' = .mutex
    · subst hKind'
      exact withoutMember_mutex
    · rw [keeps_of_ne_mutex hKind', keeps_of_ne_mutex hKind', storedScore_withoutMember,
        if_neg fun hm => hOther (holder_inj hKind' hKind hm)]

end Slots

-- ---------------------------------------------------------------------------
-- Every call
-- ---------------------------------------------------------------------------

theorem sound_call {s : Keyspace} (hSound : ∀ k, Sound (s k)) (c : Clock) (call : Call) (k : Key) :
    Sound (((call.exec c).run s).2 k) := by
  choose history hHeld using hSound
  have hStep := Server.Ok.step (S := ⟨s, history⟩) hHeld (.call c call)
  exact ⟨_, hStep k⟩

section ExpireCycle

variable {s : Keyspace} {table : LeaseTable} (now : Int) (key : Key)

theorem expireCycle_cases (s : Keyspace) (k : Key) :
    Function.update s key (evict now (s key)) k = s k ∨
      Function.update s key (evict now (s key)) k = evict now (s k) := by
  by_cases hk : k = key
  · subst hk
    exact Or.inr (Function.update_self ..)
  · exact Or.inl (Function.update_of_ne hk ..)

theorem sound_expireCycle (hSound : ∀ k, Sound (s k)) (k : Key) :
    Sound (Function.update s key (evict now (s key)) k) := by
  obtain ⟨history, hHeld⟩ := hSound k
  rcases expireCycle_cases now key s k with hEq | hEq <;> rw [hEq]
  · exact ⟨history, hHeld⟩
  · exact ⟨history, hHeld.evict now⟩

/-- The expiry cycle deletes what the table has given up. -/
theorem represents_expireCycle {now : Int} (hSound : ∀ k, Sound (s k))
    (h : Represents (liveAt now) (stored s) table) :
    Represents (liveAt now) (stored (Function.update s key (evict now (s key)))) table := by
  refine h.purge (fun i d hs => ?_) (fun i d hs hLive => ?_)
  · change keeps _ _ (Function.update s key (evict now (s key)) i.key) d at hs
    rcases expireCycle_cases now key s i.key with hEq | hEq <;> rw [hEq] at hs
    · exact hs
    · exact keeps_of_evict hs
  · show keeps _ _ (Function.update s key (evict now (s key)) i.key) d
    rcases expireCycle_cases now key s i.key with hEq | hEq <;> rw [hEq]
    · exact hs
    · rwa [(hSound _).evict_eq hs hLive.le]

end ExpireCycle

section Step

variable {now : Int} {s : Keyspace} {table : LeaseTable}

/-- An attempt keeps the keyspace a copy of the table. -/
theorem represents_attempted {c : Clock} {call : Call} {op : Op}
    {out : Except RedisError Int × Keyspace} (hSound : ∀ k, Sound (s k))
    (h : Represents (liveAt c.ms) (stored s) table)
    (hRel : call.isRelease = false)
    (hOut : Attempted op call.kind c.ms call.keys call.token (call.deadline c) s out) :
    Represents (liveAt c.ms) (stored out.2) (table.after c call out.1) := by
  unfold LeaseTable.after
  rw [hRel]
  generalize hDead : call.deadline c = deadline at hOut
  cases hOut with
  -- the table stays, and the keyspace has at most been swept
  | @failed e s' hWhy hRew =>
    rw [if_neg (by simp)]
    refine h.purge (fun i d hs => ?_) (fun i d hs hLive => ?_)
    · change keeps _ _ (s' i.key) d at hs
      rcases hRew i.key with hEq | ⟨-, hEq⟩
      · rwa [hEq] at hs
      · rw [hEq] at hs
        exact keeps_of_evict hs
    · show keeps _ _ (s' i.key) d
      rcases hRew i.key with hEq | ⟨-, hEq⟩
      · rwa [hEq]
      · rwa [hEq, (hSound i.key).evict_eq hs hLive.le]
  | @refused s' hDeadline hOk hDown hOther hSwept =>
    rw [if_neg (by simp)]
    refine h.purge (fun i d hs => ?_) (fun i d hs hLive => ?_)
    · change keeps _ _ (s' i.key) d at hs
      by_cases hk : i.key ∈ call.keys
      · exact keeps_of_swept (hSwept _ hk) hs
      · rwa [hOther _ hk] at hs
    · show keeps _ _ (s' i.key) d
      by_cases hk : i.key ∈ call.keys
      · exact keeps_swept (hSound _) (hSwept _ hk) hs hLive
      · rwa [hOther _ hk]
  -- both write the entries of the call; of the others the keyspace may drop dead ones
  | @granted deadline hDeadline hOk hUp =>
    subst hDeadline
    rw [if_pos (Or.inr rfl)]
    show Represents _ (stored (mapOn call.keys (granted call.kind c.ms deadline call.token) s)) _
    refine h.update call.touches (fun _ => some deadline) (fun i d hTouch => ?_)
      (fun i d hTouch hs => ?_) (fun i d hTouch hs hLive => ?_)
    · obtain ⟨hk, hKind, hToken⟩ := hTouch
      rw [stored, mapOn_of_mem hk, hKind, hToken, keeps_granted, Option.some.injEq, eq_comm]
    · by_cases hk : i.key ∈ call.keys
      · rw [stored, mapOn_of_mem hk] at hs
        exact keeps_of_granted_other (hOk _ hk) (fun hSame => hTouch ⟨hk, hSame⟩) hs
      · rwa [stored, mapOn_of_not_mem hk] at hs
    · by_cases hk : i.key ∈ call.keys
      · obtain ⟨history, hHeld⟩ := hSound i.key
        rw [stored, mapOn_of_mem hk]
        exact keeps_granted_other hHeld (hOk _ hk) (hUp _ hk) (fun hSame => hTouch ⟨hk, hSame⟩)
          hs hLive
      · rwa [stored, mapOn_of_not_mem hk]

/-- **Refinement step.** At a clock that does not run backwards, every call keeps
the keyspace a copy of the abstract table. -/
theorem represents_call (hSound : ∀ k, Sound (s k))
    (h : Represents (liveAt now) (stored s) table) {c : Clock} (hNow : now ≤ c.ms) (call : Call) :
    Represents (liveAt c.ms) (stored ((call.exec c).run s).2)
      (table.after c call ((call.exec c).run s).1) := by
  have h : Represents (liveAt c.ms) (stored s) table :=
    h.weaken fun i d hLive => liveAt_mono hNow hLive
  cases call with
  | setNx key token raw =>
    have hOut := setNx_effect c key token raw s
    exact represents_attempted hSound h rfl hOut
  | attempt op kind keys token rawTtl =>
    have hOut := attempt_effect op kind c keys token rawTtl s
    exact represents_attempted (c := c) hSound h rfl hOut
  -- the table erases these entries, whatever the reply says
  | release kind keys token =>
    have hRun := release_effect kind c keys token s
    show Represents _ (stored ((releaseScript kind c keys token).run s).2) _
    rw [hRun]
    have hAfter : table.after c (.release kind keys token)
        ((Call.exec c (.release kind keys token)).run s).1 =
        fun i => if (Call.release kind keys token).touches i then none else table i :=
      if_pos (Or.inl rfl)
    rw [hAfter]
    have hOther : ∀ i : LeaseId, ¬ (Call.release kind keys token).touches i → i.key ∈ keys →
        ¬ (i.kind = kind ∧ i.token = token) := fun i hTouch hk hSame => hTouch ⟨hk, hSame⟩
    refine h.update _ (fun _ => none) (fun i d hTouch => ?_) (fun i d hTouch hs => ?_)
      (fun i d hTouch hs hLive => ?_)
    · obtain ⟨hk, hKind, hToken⟩ := hTouch
      change i.key ∈ keys at hk
      show keeps _ _ (mapOn keys _ s i.key) d ↔ _
      rw [mapOn_of_mem hk, hKind, hToken]
      exact ⟨fun hs => absurd hs not_keeps_released, fun hs => nomatch hs⟩
    · change keeps _ _ (mapOn keys _ s i.key) d at hs
      by_cases hk : i.key ∈ keys
      · rw [mapOn_of_mem hk, keeps_released_other (hOther i hTouch hk)] at hs
        exact keeps_of_evict hs
      · rwa [mapOn_of_not_mem hk] at hs
    · show keeps _ _ (mapOn keys _ s i.key) d
      by_cases hk : i.key ∈ keys
      · rw [mapOn_of_mem hk, keeps_released_other (hOther i hTouch hk),
          (hSound i.key).evict_eq hs hLive.le]
        exact hs
      · rwa [mapOn_of_not_mem hk]

end Step

end RLock.Scripts
