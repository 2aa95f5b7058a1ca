import RLock.Scripts.Effects

/-!
# RLock — structural exclusion of the lock store

Any calls by any tokens, in any order, at any server times (also backwards),
with keys deleted by the expiry cycle at any moment. The server keeps, as a
ghost, every deadline it granted on each key.

What a key may hold is an invariant of the slot and its history of grants, `Held`, with
one case for each shape: nothing, a mutex, a writer, readers. Time does not occur in it.
So it cannot say that the deadlines are ahead, and need not; it says that whatever is
there was granted, and that the shapes are never mixed. Nothing is assumed of tokens
either: two clients with the same token count as one holder.

The heart of it is that a writer enters an empty set or its own (`Held.write_alone`), and
a reader enters a set without writers (`Held.read_no_writer`), both seen after the
cleanup. The rest is that the shapes survive a sweep, a release and an expiry.

* `Held` — what may be stored at a key with a given grant history: nothing, a
  string of one mutex owner, exactly one writer, or only readers; with a
  two-sided bound on the key's expiry.
* `Held.granted` — a grant leaves one of these shapes.
* `held_attempted` / `Held.released` — every call keeps it.
* `run_wellFormed` — it holds after every run from the empty keyspace.
-/

namespace RLock.Scripts

open KeyedStore RLock.Redis

-- ---------------------------------------------------------------------------
-- Server runs with their grant history
-- ---------------------------------------------------------------------------

/-- A successful acquire or renew on one key. -/
structure Grant where
  kind : Kind
  token : String
  deadline : Int
  deriving DecidableEq, Repr

/-- The keyspace and, for each key, what was granted on it, latest first. -/
structure Server where
  store : Keyspace
  grants : Key → List Grant

/-- A server on which nothing has been stored or granted. -/
def Server.empty : Server := ⟨fun _ => none, fun _ => []⟩

/-- The grant a call makes when it replies 1. -/
def Call.grant (c : Clock) (call : Call) : Option Grant :=
  (call.deadline c).map fun deadline => ⟨call.kind, call.token, deadline⟩

/-- Note the grant of a successful call on every listed key. -/
def record (grant : Option Grant) (keys : List Key) (grants : Key → List Grant) :
    Key → List Grant :=
  match grant with
  | none => grants
  | some g => mapOn keys (g :: ·) grants

/-- What happens to the server: a call, or the expiry cycle visiting a key. -/
inductive Event
  | call (c : Clock) (call : Call)
  | expireCycle (c : Clock) (key : Key)

/-- The next server: a call is executed and its grant noted, or a key is looked up. -/
def Server.step (S : Server) : Event → Server
  | .call c call =>
    let out := (call.exec c).run S.store
    { store := out.2
      grants := if out.1 = .ok 1 then record (call.grant c) call.keys S.grants else S.grants }
  | .expireCycle c key =>
    { S with store := Function.update S.store key (evict c.ms (S.store key)) }

/-- The server after a run. -/
def Server.run (events : List Event) : Server := events.foldl Server.step .empty

-- ---------------------------------------------------------------------------
-- What may be stored at a key
-- ---------------------------------------------------------------------------

/-- The deadline last granted to a mutex owner. -/
def lastMutex (history : List Grant) (token : String) : Option Int :=
  (history.find? fun g => g.kind = .mutex ∧ g.token = token).map (·.deadline)

/-- The invariant of one slot and its history. -/
inductive Held (history : List Grant) : Slot → Prop
  | absent : Held history none
  | mutex {token : String} {deadline : Int} (hLast : lastMutex history token = some deadline) :
      Held history (some ⟨.string token, some deadline⟩)
  | writer {z : ZSet} {token : String} {deadline : Int}
      (hOnly : ∀ m s, z.score m = some s → m = writeMember token ∧ s = Score.ofInt (-deadline))
      (hPos : 0 < deadline) (hGrant : ⟨.write, token, deadline⟩ ∈ history) :
      Held history (some ⟨.zset z, some deadline⟩)
  | readers {z : ZSet} {expire : Int}
      (hAll : ∀ m s, z.score m = some s → ∃ token deadline,
        m = readMember token ∧ s = Score.ofInt deadline ∧ 0 < deadline ∧ deadline ≤ expire ∧
          ⟨.read, token, deadline⟩ ∈ history)
      (hGrant : ∃ g ∈ history, expire ≤ g.deadline) :
      Held history (some ⟨.zset z, some expire⟩)

theorem readMember_ne_writeMember (token token' : String) :
    readMember token ≠ writeMember token' := by
  intro h
  have hChars := congrArg String.toList h
  simp [readMember, writeMember] at hChars

theorem writeMember_inj {token token' : String} (h : writeMember token = writeMember token') :
    token = token' := by
  have hChars := congrArg String.toList h
  exact String.toList_inj.mp (by simpa [writeMember] using hChars)

theorem readMember_inj {token token' : String} (h : readMember token = readMember token') :
    token = token' := by
  have hChars := congrArg String.toList h
  exact String.toList_inj.mp (by simpa [readMember] using hChars)

/-- Expiry takes a key away and changes nothing else. -/
theorem Held.evict {history : List Grant} {v : Slot} (h : Held history v) (now : Int) :
    Held history (evict now v) := by
  rcases hv : Redis.evict now v with _ | e
  · exact .absent
  · rw [(evict_eq_some.mp hv).1] at h
    exact h

/-- A smaller set of members is as good. -/
theorem Held.shrink {history : List Grant} {z z' : ZSet} {expire : Option Int}
    (h : Held history (some ⟨.zset z, expire⟩))
    (hSub : ∀ m s, z'.score m = some s → z.score m = some s) :
    Held history (some ⟨.zset z', expire⟩) := by
  cases h with
  | writer hOnly hPos hGrant => exact .writer (fun m s hs => hOnly m s (hSub m s hs)) hPos hGrant
  | readers hAll hGrant => exact .readers (fun m s hs => hAll m s (hSub m s hs)) hGrant

theorem Held.cleanup {history : List Grant} {now : Int} {v : Slot} (h : Held history v)
    (hSlot : SortedSetSlot now v) : Held history (cleanup now v) := by
  rcases hSlot with hNone | ⟨z, expire, hz⟩
  · rw [cleanup_of_none hNone]
    exact .absent
  · rcases cleanup_cases hz with ⟨hEq, -⟩ | ⟨z', hEq, hMem⟩
    · rw [hEq]
      exact .absent
    · rw [hEq]
      have hEvict := h.evict now
      rw [hz] at hEvict
      refine hEvict.shrink fun m s hs => ?_
      rw [ZSet.score, hMem, lookup_keepScores, Option.filter_eq_some_iff] at hs
      exact hs.1

theorem Held.swept {history : List Grant} {kind : Kind} {now : Int} {v v' : Slot}
    (h : Held history v) (hSwept : Swept kind now v v') : Held history v' := by
  rcases hSwept with rfl | rfl | ⟨-, hSlot, rfl⟩
  · exact h
  · exact h.evict now
  · exact h.cleanup hSlot

/-- Taking out one member keeps the shape. -/
theorem Held.withoutMember {history : List Grant} {v : Slot} (h : Held history v) (m : Member) :
    Held history (withoutMember m v) := by
  have hScore := storedScore_withoutMember v m
  rcases withoutMember_cases m v with hNone | hSame | ⟨z, z', expire, hv, hw⟩
  · rw [hNone]
    exact .absent
  · rwa [hSame]
  · rw [hv] at h
    rw [hw]
    refine h.shrink fun m' s hs => ?_
    -- a score that is left is one that was there, of another member
    have hEq := hScore m'
    rw [hw, hv] at hEq
    change z'.score m' = if m' = m then none else z.score m' at hEq
    rw [hs] at hEq
    split at hEq
    · cases hEq
    · exact hEq.symm

/-- A release keeps the shape. -/
theorem Held.released {history : List Grant} {v : Slot} (h : Held history v) (kind : Kind)
    (now : Int) (token : String) : Held history (released kind now token v) := by
  by_cases hKind : kind = .mutex
  · subst hKind
    rcases released_mutex_cases now token v with ⟨-, hEq⟩ | ⟨-, hEq⟩
    · rw [hEq]
      exact .absent
    · rw [hEq]
      exact h.evict now
  · rw [released_of_ne_mutex hKind]
    exact (h.evict now).withoutMember _

/-- Every present key has an expiry, and one some grant accounts for. -/
theorem Held.expiry {history : List Grant} {e : Entry} (h : Held history (some e)) :
    ∃ expire, e.expire = some expire ∧ ∃ g ∈ history, expire ≤ g.deadline := by
  cases h with
  | mutex hLast =>
    obtain ⟨g, hFind, hEq⟩ := Option.map_eq_some_iff.mp hLast
    exact ⟨_, rfl, g, List.mem_of_find?_eq_some hFind, hEq.ge⟩
  | writer hOnly hPos hGrant => exact ⟨_, rfl, _, hGrant, le_rfl⟩
  | readers hAll hGrant => exact ⟨_, rfl, hGrant⟩

/-- A member that survived the cleanup was there, outside the range. -/
theorem storedScore_cleanup {now : Int} {v : Slot} (h : SortedSetSlot now v) {m : Member}
    {s : Score} :
    storedScore (cleanup now v) m = some s ↔ scoreAt now v m = some s ∧ outside now s = true := by
  rw [← Option.filter_eq_some_iff, ← scoreAt_cleanup h, scoreAt_eq, evict_cleanup h]

/-- Where a write is granted, the caller is the only member left. -/
theorem Held.write_alone {history : List Grant} {op : Op} {now : Int} {token : String} {v : Slot}
    (h : Held history v) (hSlot : SortedSetSlot now v)
    (hUp : ¬ turnedDown op .write now token v) {m : Member} {s : Score}
    (hs : storedScore (Scripts.cleanup now v) m = some s) : m = writeMember token := by
  cases op with
  | acquire =>
    rw [storedScore_cleanup hSlot] at hs
    exact absurd ⟨m, s, hs⟩ hUp
  | renew =>
    -- the caller's own member is there, so the slot is the writer's
    obtain ⟨s₀, hOwn, hLive⟩ : ∃ s₀, scoreAt now v (writeMember token) = some s₀ ∧
        ¬ Score.ofInt (-now) ≤ s₀ := by
      by_contra hAll
      refine hUp fun s₀ hs₀ => ?_
      by_contra hLive
      exact hAll ⟨s₀, hs₀, hLive⟩
    have hOwn' : storedScore (Scripts.cleanup now v) (writeMember token) = some s₀ := by
      rw [storedScore_cleanup hSlot, outside_iff]
      exact ⟨hOwn, Or.inl (not_le.mp hLive)⟩
    have hClean := h.cleanup hSlot
    generalize Scripts.cleanup now v = w at hs hOwn' hClean
    cases hClean with
    | absent => cases hs
    | mutex hLast => cases hs
    | writer hOnly hPos hGrant => rw [(hOnly m s hs).1, (hOnly _ _ hOwn').1]
    | readers hAll hGrant =>
      obtain ⟨token', deadline, hEq, -⟩ := hAll _ _ hOwn'
      exact absurd hEq.symm (readMember_ne_writeMember _ _)

/-- Where a read is granted, no writer is left. -/
theorem Held.read_no_writer {history : List Grant} {op : Op} {now : Int} {token : String}
    {v : Slot} (h : Held history v) (token' : String) (deadline : Int)
    (hSlot : SortedSetSlot now v) (hUp : ¬ turnedDown op .read now token v)
    (hPos : 0 < deadline) :
    storedScore (Scripts.cleanup now v) (writeMember token') ≠ some (Score.ofInt (-deadline)) := by
  intro hs
  cases op with
  | acquire =>
    rw [storedScore_cleanup hSlot] at hs
    refine hUp ⟨_, _, hs.1, hs.2, ?_⟩
    simpa using hPos
  | renew =>
    -- the own reader is there, so the set has no writer
    obtain ⟨s₀, hOwn, hLive⟩ : ∃ s₀, scoreAt now v (readMember token) = some s₀ ∧
        ¬ s₀ ≤ Score.ofInt now := by
      by_contra hAll
      refine hUp fun s₀ hs₀ => ?_
      by_contra hLive
      exact hAll ⟨s₀, hs₀, hLive⟩
    have hOwn' : storedScore (Scripts.cleanup now v) (readMember token) = some s₀ := by
      rw [storedScore_cleanup hSlot, outside_iff]
      exact ⟨hOwn, Or.inr (not_le.mp hLive)⟩
    have hClean := h.cleanup hSlot
    generalize Scripts.cleanup now v = w at hs hOwn' hClean
    cases hClean with
    | absent => cases hs
    | mutex hLast => cases hs
    | writer hOnly hPos hGrant =>
      exact absurd (hOnly _ _ hOwn').1 (readMember_ne_writeMember _ _)
    | readers hAll hGrant =>
      obtain ⟨token'', deadline', hEq, -⟩ := hAll _ _ hs
      exact absurd hEq.symm (readMember_ne_writeMember _ _)

/-- **Grant step.** The slot a successful acquire or renew leaves is well
formed for the history with its grant. -/
theorem Held.granted {history : List Grant} {op : Op} {kind : Kind} {now deadline : Int}
    {token : String} {v : Slot} (h : Held history v) (hOk : SlotOk op kind now v)
    (hUp : ¬ turnedDown op kind now token v) (hPos : kind ≠ .mutex → 0 < deadline) :
    Held (⟨kind, token, deadline⟩ :: history) (granted kind now deadline token v) := by
  cases kind with
  | mutex =>
    refine .mutex ?_
    simp [lastMutex]
  | write =>
    have hSlot := (slotOk_of_ne_mutex (by decide)).mp hOk
    refine .writer (fun m s hs => ?_) (hPos (by decide)) (List.mem_cons_self ..)
    rw [score_withMember] at hs
    split at hs
    · rename_i hm
      exact ⟨hm, (Option.some.inj hs).symm⟩
    · rename_i hm
      exact absurd (h.write_alone hSlot hUp hs) hm
  | read =>
    have hSlot := (slotOk_of_ne_mutex (by decide)).mp hOk
    have hClean := h.cleanup hSlot
    have hWriter := fun token' deadline' => h.read_no_writer token' deadline' hSlot hUp
    show Held _ (some ⟨.zset (withMember _ _ (Scripts.cleanup now v)),
      some (pushedBack deadline (Scripts.cleanup now v))⟩)
    generalize Scripts.cleanup now v = w at hClean hWriter
    have hPush : deadline ≤ pushedBack deadline w := by
      unfold pushedBack
      split
      · exact le_max_right ..
      · exact le_rfl
    refine .readers (fun m s hs => ?_) ?_
    · rw [score_withMember] at hs
      split at hs
      · rename_i hm
        exact ⟨token, deadline, hm, (Option.some.inj hs).symm, hPos (by decide), hPush,
          List.mem_cons_self ..⟩
      -- the other members were readers before, since no writer is left
      · cases hClean with
        | absent => cases hs
        | mutex hLast => cases hs
        | writer hOnly hPosW hGrant =>
          obtain ⟨rfl, rfl⟩ := hOnly m s hs
          exact absurd hs (hWriter _ _ hPosW)
        | readers hAll hGrant =>
          obtain ⟨token', deadline', hm, hScore, hPos', hLe, hMem⟩ := hAll m s hs
          exact ⟨token', deadline', hm, hScore, hPos', hLe.trans (le_max_left ..),
            List.mem_cons_of_mem _ hMem⟩
    · -- the new expiry is this grant's deadline or the old expiry
      rcases w with _ | ⟨val, expire⟩
      · exact ⟨_, List.mem_cons_self .., le_rfl⟩
      · obtain ⟨E, hE, g, hg, hLe⟩ := hClean.expiry
        change expire = some E at hE
        subst hE
        show ∃ g : Grant, g ∈ _ ∧ max E deadline ≤ g.deadline
        rcases le_total E deadline with hMax | hMax
        · exact ⟨_, List.mem_cons_self .., by rw [max_eq_right hMax]⟩
        · exact ⟨g, List.mem_cons_of_mem _ hg, by rwa [max_eq_left hMax]⟩

-- ---------------------------------------------------------------------------
-- Every call, every run
-- ---------------------------------------------------------------------------

/-- What every step keeps. -/
def Server.Ok (S : Server) : Prop := ∀ k, Held (S.grants k) (S.store k)

/-- **Attempt step.** Whatever comes of an acquire or renew, every slot is well formed for the
history with its grant, if it made one. -/
theorem held_attempted {op : Op} {kind : Kind} {now : Int} {keys : List Key} {token : String}
    {deadline : Option Int} {s : Keyspace} {out : Except RedisError Int × Keyspace}
    {grants : Key → List Grant} (h : Attempted op kind now keys token deadline s out)
    (hPos : ∀ d, deadline = some d → kind ≠ .mutex → 0 < d)
    (hHeld : ∀ k, Held (grants k) (s k)) (k : Key) :
    Held ((if out.1 = .ok 1 then record (deadline.map (⟨kind, token, ·⟩)) keys grants
      else grants) k) (out.2 k) := by
  cases h with
  | @failed e s' hWhy hRew =>
    show Held ((if (Except.error e : Except RedisError Int) = .ok 1 then _ else grants) k) (s' k)
    rw [if_neg (by simp)]
    rcases hRew k with hEq | ⟨-, hEq⟩
    · rw [hEq]
      exact hHeld k
    · rw [hEq]
      exact (hHeld k).evict now
  | @refused s' hDeadline hOk hDown hOther hSwept =>
    show Held ((if (Except.ok 0 : Except RedisError Int) = .ok 1 then _ else grants) k) (s' k)
    rw [if_neg (by simp)]
    by_cases hk : k ∈ keys
    · exact (hHeld k).swept (hSwept k hk)
    · rw [hOther k hk]
      exact hHeld k
  | @granted d hDeadline hOk hUp =>
    subst hDeadline
    show Held ((if (Except.ok 1 : Except RedisError Int) = .ok 1 then
      mapOn keys (⟨kind, token, d⟩ :: ·) grants else grants) k)
      (mapOn keys (Scripts.granted kind now d token) s k)
    rw [if_pos rfl]
    by_cases hk : k ∈ keys
    · rw [mapOn_of_mem hk, mapOn_of_mem hk]
      exact (hHeld k).granted (hOk k hk) (hUp k hk) (hPos d rfl)
    · rw [mapOn_of_not_mem hk, mapOn_of_not_mem hk]
      exact hHeld k

/-- A read-write deadline lies after the epoch. -/
theorem grantDeadline_pos {kind : Kind} {c : Clock} {rawTtl : Option String} {d : Int}
    (h : grantDeadline kind c rawTtl = some d) (hKind : kind ≠ .mutex) : 0 < d := by
  obtain ⟨raw, ttl, hAcc, rfl⟩ := grantDeadline_eq_some.mp h
  have := hAcc.ttl_pos
  have := (hAcc.2 hKind).1
  omega

/-- Every event keeps every slot well formed. -/
theorem Server.Ok.step {S : Server} (h : S.Ok) (e : Event) : (S.step e).Ok := by
  cases e with
  | expireCycle c key =>
    intro k
    show Held (S.grants k) (Function.update S.store key (Redis.evict c.ms (S.store key)) k)
    by_cases hk : k = key
    · subst hk
      rw [Function.update_self]
      exact (h k).evict c.ms
    · rw [Function.update_of_ne hk]
      exact h k
  | call c call =>
    cases call with
    | setNx key token raw =>
      exact held_attempted (setNx_effect c key token raw S.store)
        (fun _ _ hKind => absurd rfl hKind) h
    | attempt op kind keys token rawTtl =>
      exact held_attempted (attempt_effect op kind c keys token rawTtl S.store)
        (fun _ hd hKind => grantDeadline_pos hd hKind) h
    | release kind keys token =>
      intro k
      have hRun := release_effect kind c keys token S.store
      show Held ((if ((releaseScript kind c keys token).run S.store).1 = .ok 1 then S.grants
        else S.grants) k) (((releaseScript kind c keys token).run S.store).2 k)
      rw [ite_self, hRun]
      show Held (S.grants k) (mapOn keys _ S.store k)
      by_cases hk : k ∈ keys
      · rw [mapOn_of_mem hk]
        exact (h k).released ..
      · rw [mapOn_of_not_mem hk]
        exact h k

/-- So a run from the empty keyspace does, by induction on its events. -/
theorem run_ok (events : List Event) : (Server.run events).Ok := by
  have hRun : ∀ (events : List Event) (S : Server), S.Ok → (events.foldl Server.step S).Ok := by
    intro events
    induction events with
    | nil => exact fun S h => h
    | cons e events ih => exact fun S h => ih _ (h.step e)
  exact hRun events _ fun _ => .absent

/-- What is said of a present key. -/
structure WellFormed (history : List Grant) (e : Entry) : Prop where
  /-- One mutex owner, or exactly one writer, or only readers; the expiry is not
  earlier than any deadline stored at the key. -/
  holders :
    (∃ token deadline, e = ⟨.string token, some deadline⟩ ∧
      lastMutex history token = some deadline) ∨
    ∃ z expire, e = ⟨.zset z, some expire⟩ ∧
      ((∃ token deadline, z.members.entries = [⟨writeMember token, Score.ofInt (-deadline)⟩] ∧
        0 < deadline ∧ deadline ≤ expire) ∨
       ∀ m s, z.score m = some s → ∃ token deadline,
        m = readMember token ∧ s = Score.ofInt deadline ∧ 0 < deadline ∧ deadline ≤ expire)
  /-- Nor later than the latest deadline granted on the key. -/
  expiry : ∃ expire, e.expire = some expire ∧ ∃ g ∈ history, expire ≤ g.deadline

/-- A sorted set all of whose members are one member has one member. -/
theorem ZSet.entries_eq_singleton {z : ZSet} {m₀ : Member} {s₀ : Score}
    (h : ∀ m s, z.score m = some s → m = m₀ ∧ s = s₀) : z.members.entries = [⟨m₀, s₀⟩] := by
  have hMem : ∀ e ∈ z.members.entries, e = ⟨m₀, s₀⟩ := by
    rintro ⟨m, s⟩ he
    obtain ⟨rfl, rfl⟩ := h m s (AList.mem_lookup_iff.mpr he)
    rfl
  have hNodup : z.members.entries.Nodup := List.NodupKeys.nodup z.members.nodupKeys
  rcases hEntries : z.members.entries with _ | ⟨e, rest⟩
  · exact absurd hEntries z.nonempty
  · rw [hEntries] at hMem hNodup
    have hHead := hMem e (List.mem_cons_self ..)
    rcases rest with _ | ⟨e', rest⟩
    · rw [hHead]
    · have hNext := hMem e' (by simp)
      rw [hHead, hNext] at hNodup
      simp at hNodup

/-- The invariant says what is claimed of a present key. -/
theorem Held.wellFormed {history : List Grant} {e : Entry} (h : Held history (some e)) :
    WellFormed history e := by
  refine ⟨?_, h.expiry⟩
  cases h with
  | mutex hLast => exact Or.inl ⟨_, _, rfl, hLast⟩
  | writer hOnly hPos hGrant =>
    exact Or.inr ⟨_, _, rfl, Or.inl ⟨_, _, ZSet.entries_eq_singleton hOnly, hPos, le_rfl⟩⟩
  | readers hAll hGrant =>
    refine Or.inr ⟨_, _, rfl, Or.inr fun m s hs => ?_⟩
    obtain ⟨token, deadline, hm, hScore, hPos, hLe, -⟩ := hAll m s hs
    exact ⟨token, deadline, hm, hScore, hPos, hLe⟩

/-- **Structural exclusion.** After any run from the empty keyspace every
present key is well formed for what was granted on it. -/
theorem run_wellFormed (events : List Event) (k : Key) (e : Entry)
    (hPresent : (Server.run events).store k = some e) :
    WellFormed ((Server.run events).grants k) e := by
  have hHeld := run_ok events k
  rw [hPresent] at hHeld
  exact hHeld.wellFormed

/-- A run with a writer. -/
def writerRun : List Event :=
  [.call ⟨5000, by decide, by decide⟩ (.attempt .acquire .write ["k", "k"] "t" (some "10"))]

/-- A key of the run that is present. -/
theorem run_wellFormed_writerRun :
    ∃ e, (Server.run writerRun).store "k" = some e ∧
      WellFormed ((Server.run writerRun).grants "k") e := by
  have hSome : ((Server.run writerRun).store "k").isSome = true := by decide +kernel
  obtain ⟨e, he⟩ := Option.isSome_iff_exists.mp hSome
  exact ⟨e, he, run_wellFormed writerRun "k" e he⟩

end RLock.Scripts
