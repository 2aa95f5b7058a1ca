import RLock.Scripts.Writes

/-!
# RLock — the effect of a whole command

`Call` lists what the library ever sends: the nine scripts and the single-key
`SET key token NX PX ttl`. This module says, once, what a call replies and
what it leaves in the keyspace; every later result is derived from it.

An acquire or renew has three outcomes. It may fail, because its numbers are not
accepted or some listed key has the wrong type; it may be refused, because some listed
slot turns it down; or it is granted, and then every listed slot is rewritten. What
distinguishes them is said in terms of the keyspace before the call (`SlotOk`,
`turnedDown`), so that the outcome can be read off without running the script.

A script that is refused or fails has written nothing, yet the keyspace may differ:
looking at a key deletes it if it has expired, and the read-write scripts clean up a
sorted set before they look at it. `Swept` is what may have happened to a slot then.

The three kinds and two operations are treated together. `checkBody` and `writeBody`
are the two loop bodies as functions of kind and operation, each with one lemma that
says what it does; the loops over the keys are those of the store library.

* `attempt_effect` — an acquire or renew fails, is refused or is granted
  (`Attempted`), and each case says why and what it leaves.
* `setNx_effect` — the single-key acquisition is an attempt on a one-element
  key list.
* `release_effect` — a release takes the token out of every listed key.
* `Attempted.one_iff`, `Attempted.of_one`, `Attempted.reply_iff` — the reply.
-/

namespace RLock.Scripts

open KeyedStore RLock.Redis

-- ---------------------------------------------------------------------------
-- Calls
-- ---------------------------------------------------------------------------

/-- The six acquire and renew scripts. -/
def attemptScript : Op → Kind → Clock → List Key → String → Option String → Script Int
  | .acquire => acquireScript
  | .renew => renewScript

/-- One command as the server executes it. -/
inductive Call
  | setNx (key : Key) (token raw : String)
  | attempt (op : Op) (kind : Kind) (keys : List Key) (token : String)
      (rawTtl : Option String)
  | release (kind : Kind) (keys : List Key) (token : String)
  deriving DecidableEq, Repr

/-- Execute a call at the frozen clock `c`; `SET … NX` replies 1 when it set
the key and nil, written 0 here, when it did not. -/
def Call.exec (c : Clock) : Call → Script Int
  | .setNx key token raw => atKey key do
      return if ← setNxPx c.ms token raw then 1 else 0
  | .attempt op kind keys token rawTtl => attemptScript op kind c keys token rawTtl
  | .release kind keys token => releaseScript kind c keys token

/-- The listed keys. -/
def Call.keys : Call → List Key
  | .setNx key _ _ => [key]
  | .attempt _ _ keys _ _ => keys
  | .release _ keys _ => keys

/-- The token the call is made with. -/
def Call.token : Call → String
  | .setNx _ token _ => token
  | .attempt _ _ _ token _ => token
  | .release _ _ token => token

/-- The family of holders it belongs to; the plain command takes a mutex. -/
def Call.kind : Call → Kind
  | .setNx _ _ _ => .mutex
  | .attempt _ kind _ _ _ => kind
  | .release kind _ _ => kind

/-- Whether the call gives something up. -/
def Call.isRelease : Call → Bool
  | .release _ _ _ => true
  | _ => false

/-- The deadline an attempt grants, if the numeric preflights of its script
accept the TTL argument. -/
def grantDeadline (kind : Kind) (c : Clock) (rawTtl : Option String) : Option Int :=
  match ttlPreflight rawTtl with
  | .error _ => none
  | .ok (_, ttl) =>
    if kind = .mutex ∨ (0 ≤ c.ms ∧ c.ms + ttl ≤ Lua.maxSafe) then some (c.ms + ttl) else none

/-- A deadline is granted for an accepted TTL, counted from the clock. -/
theorem grantDeadline_eq_some {kind : Kind} {c : Clock} {rawTtl : Option String}
    {deadline : Int} :
    grantDeadline kind c rawTtl = some deadline ↔
      ∃ raw ttl, Accepts kind c rawTtl raw ttl ∧ deadline = c.ms + ttl := by
  unfold grantDeadline Accepts
  rcases h : ttlPreflight rawTtl with e | ⟨raw, ttl⟩
  · simp
  · dsimp only
    by_cases hIf : kind = .mutex ∨ (0 ≤ c.ms ∧ c.ms + ttl ≤ Lua.maxSafe)
    · rw [if_pos hIf]
      constructor
      · intro hEq
        refine ⟨raw, ttl, ⟨rfl, fun hKind => hIf.resolve_left hKind⟩, ?_⟩
        simpa using hEq.symm
      · rintro ⟨raw', ttl', ⟨hOk, -⟩, rfl⟩
        cases hOk
        rfl
    · rw [if_neg hIf]
      refine ⟨(by intro hEq; cases hEq), ?_⟩
      rintro ⟨raw', ttl', ⟨hOk, hExp⟩, -⟩
      cases hOk
      exact absurd (Or.inr (hExp fun hKind => hIf (Or.inl hKind))) hIf

/-- The deadline a call grants if it succeeds; none when its arguments are
rejected, and none for a release. -/
def Call.deadline (c : Clock) : Call → Option Int
  | .setNx _ _ raw => (deadlineOf c.ms raw).toOption
  | .attempt _ kind _ _ rawTtl => grantDeadline kind c rawTtl
  | .release _ _ _ => none

-- ---------------------------------------------------------------------------
-- Attempts
-- ---------------------------------------------------------------------------

/-- What a refused attempt may have done to a listed slot: nothing, lazy
expiry, or the cleanup of a sorted set. -/
def Swept (kind : Kind) (now : Int) (v v' : Slot) : Prop :=
  v' = v ∨ v' = evict now v ∨
    (kind ≠ .mutex ∧ SortedSetSlot now v ∧ v' = cleanup now v)

/-- The three outcomes of an acquire or renew. -/
inductive Attempted (op : Op) (kind : Kind) (now : Int) (keys : List Key) (token : String)
    (deadline : Option Int) (s : Keyspace) : Except RedisError Int × Keyspace → Prop
  | failed {e : RedisError} {s' : Keyspace}
      (hWhy : deadline = none ∨ ∃ k ∈ keys, ¬ SlotOk op kind now (s k))
      (hRew : RewritesOn keys (evict now) s s') :
      Attempted op kind now keys token deadline s (.error e, s')
  | refused {s' : Keyspace}
      (hDeadline : deadline ≠ none)
      (hOk : kind ≠ .mutex → ∀ k ∈ keys, SlotOk op kind now (s k))
      (hDown : ∃ k ∈ keys, turnedDown op kind now token (s k))
      (hOther : ∀ k, k ∉ keys → s' k = s k)
      (hSwept : ∀ k ∈ keys, Swept kind now (s k) (s' k)) :
      Attempted op kind now keys token deadline s (.ok 0, s')
  | granted {d : Int}
      (hDeadline : deadline = some d)
      (hOk : ∀ k ∈ keys, SlotOk op kind now (s k))
      (hUp : ∀ k ∈ keys, ¬ turnedDown op kind now token (s k)) :
      Attempted op kind now keys token deadline s
        (.ok 1, mapOn keys (Scripts.granted kind now d token) s)

/-- The check of an acquire or renew script. -/
def checkBody : Op → Kind → Clock → String → SlotProg Bool
  | .acquire, .mutex, c, _ => taken c
  | .renew, .mutex, c, token => notOwned c token
  | .acquire, .read, c, _ => hasWriter c c.ms
  | .renew, .read, c, token => readLapsed c c.ms (readMember token)
  | .acquire, .write, c, _ => hasHolder c c.ms
  | .renew, .write, c, token => writeLapsed c c.ms (writeMember token)

/-- The write of an acquire or renew script. -/
def writeBody : Op → Kind → Clock → String → Int → String → SlotProg Unit
  | .acquire, .mutex, c, raw, _, token => setPx c.ms token raw
  | .renew, .mutex, c, raw, _, _ => prolong c raw
  | _, .read, c, raw, ttl, token => grantRead c raw ttl (c.ms + ttl) (readMember token)
  | _, .write, c, raw, ttl, token => grantWrite c raw (c.ms + ttl) (writeMember token)

/-- The check of a slot of the right type cleans it up and says whether it turns the call down. -/
theorem run_checkBody {op : Op} {kind : Kind} {c : Clock} (token : String) {v : Slot}
    (h : SlotOk op kind c.ms v) :
    ∃ b, (checkBody op kind c token).run v = (.ok b, checked kind c.ms v) ∧
      (b = true ↔ turnedDown op kind c.ms token v) := by
  cases op with
  | acquire =>
    cases kind with
    | mutex =>
      refine ⟨_, run_taken c v, ?_⟩
      rw [turnedDown, Ne, ← Option.not_isSome_iff_eq_none, not_not]
    | read => exact run_hasWriter h
    | write => exact run_hasHolder h
  | renew =>
    cases kind with
    | mutex => exact run_notOwned h
    | read => exact run_readLapsed h
    | write => exact run_writeLapsed h

/-- The read-write scripts ask for sorted sets. -/
theorem slotOk_of_ne_mutex {op : Op} {kind : Kind} (hKind : kind ≠ .mutex) {now : Int}
    {v : Slot} : SlotOk op kind now v ↔ SortedSetSlot now v := by
  cases kind with
  | mutex => exact absurd rfl hKind
  | read => cases op <;> exact Iff.rfl
  | write => cases op <;> exact Iff.rfl

/-- A check leaves a slot of the right type. -/
theorem slotOk_checked {op : Op} {kind : Kind} {now : Int} {v : Slot}
    (h : SlotOk op kind now v) : SlotOk op kind now (checked kind now v) := by
  by_cases hKind : kind = .mutex
  · subst hKind
    cases op with
    | acquire => trivial
    | renew =>
      show StringSlot now (evict now v)
      unfold StringSlot
      rw [evict_evict]
      exact h
  · rw [slotOk_of_ne_mutex hKind] at h ⊢
    cases kind with
    | mutex => exact absurd rfl hKind
    | read => exact h.cleanup
    | write => exact h.cleanup

theorem checked_checked {op : Op} {kind : Kind} {now : Int} {v : Slot}
    (h : SlotOk op kind now v) : checked kind now (checked kind now v) = checked kind now v := by
  cases kind with
  | mutex => exact evict_evict now v
  | read => exact cleanup_cleanup ((slotOk_of_ne_mutex (by decide)).mp h)
  | write => exact cleanup_cleanup ((slotOk_of_ne_mutex (by decide)).mp h)

/-- The cleanup hides nothing a check looks at. -/
theorem turnedDown_checked {op : Op} {kind : Kind} {now : Int} {token : String} {v : Slot}
    (h : SlotOk op kind now v) :
    turnedDown op kind now token (checked kind now v) ↔ turnedDown op kind now token v := by
  cases kind with
  | mutex => cases op <;> simp only [turnedDown, checked, evict_evict]
  | read =>
    -- the cleanup keeps the scores outside the expired range, which decide
    have hScores := scoreAt_cleanup ((slotOk_of_ne_mutex (by decide)).mp h)
    cases op with
    | acquire =>
      simp only [turnedDown, checked, hScores, Option.filter_eq_some_iff]
      refine exists_congr fun m => exists_congr fun s => ?_
      tauto
    | renew =>
      simp only [turnedDown, checked, hScores, Option.filter_eq_some_iff]
      refine forall_congr' fun s => ⟨fun hAll hs => ?_, fun hAll hs => hAll hs.1⟩
      by_cases hOut : outside now s = true
      · exact hAll ⟨hs, hOut⟩
      · rw [outside_iff, not_or, not_lt, not_lt] at hOut
        exact hOut.2
  | write =>
    have hScores := scoreAt_cleanup ((slotOk_of_ne_mutex (by decide)).mp h)
    cases op with
    | acquire =>
      simp only [turnedDown, checked, hScores, Option.filter_eq_some_iff]
      refine exists_congr fun m => exists_congr fun s => ?_
      tauto
    | renew =>
      simp only [turnedDown, checked, hScores, Option.filter_eq_some_iff]
      refine forall_congr' fun s => ⟨fun hAll hs => ?_, fun hAll hs => hAll hs.1⟩
      by_cases hOut : outside now s = true
      · exact hAll ⟨hs, hOut⟩
      · rw [outside_iff, not_or, not_lt, not_lt] at hOut
        exact hOut.1

/-- So a repeated key is checked twice with the same outcome. -/
theorem checkBody_stable {op : Op} {kind : Kind} {c : Clock} (token : String) {v : Slot}
    (h : SlotOk op kind c.ms v) : Stable (checkBody op kind c token) v := by
  obtain ⟨b, hRun, hb⟩ := run_checkBody token h
  obtain ⟨b', hRun', hb'⟩ := run_checkBody token (slotOk_checked h)
  unfold Stable
  rw [hRun]
  dsimp only
  rw [hRun', checked_checked h]
  -- the second check answers as the first, since it decides the same
  have hSame : b' = b := by
    rw [Bool.eq_iff_iff, hb', hb, turnedDown_checked h]
  rw [hSame]

/-- The write after a passed check leaves the granted slot. -/
theorem run_writeBody {op : Op} {kind : Kind} {c : Clock} {token raw : String} {ttl : Int}
    {rawTtl : Option String} {v : Slot} (hTtl : ttlPreflight rawTtl = .ok (raw, ttl))
    (hOk : SlotOk op kind c.ms v) (hUp : ¬ turnedDown op kind c.ms token v) :
    (writeBody op kind c raw ttl token).run (checked kind c.ms v) =
      (.ok (), granted kind c.ms (c.ms + ttl) token v) := by
  cases kind with
  | mutex =>
    cases op with
    | acquire => exact run_setPx (deadlineOf_of_ttlPreflight hTtl c) _
    | renew =>
      refine run_prolong_owned hTtl ?_
      rw [checked, evict_evict]
      simpa [turnedDown] using hUp
  | read =>
    have hClean := clean_cleanup ((slotOk_of_ne_mutex (by decide)).mp hOk)
    cases op <;> exact run_grantRead hTtl hClean
  | write =>
    have hClean := clean_cleanup ((slotOk_of_ne_mutex (by decide)).mp hOk)
    cases op <;> exact run_grantWrite hTtl hClean

/-- Writing a repeated key again changes nothing. -/
theorem run_writeBody_again {op : Op} {kind : Kind} {c : Clock} {token raw : String} {ttl : Int}
    {rawTtl : Option String} {v : Slot} (hTtl : ttlPreflight rawTtl = .ok (raw, ttl)) :
    (writeBody op kind c raw ttl token).run (granted kind c.ms (c.ms + ttl) token v) =
      (.ok (), granted kind c.ms (c.ms + ttl) token v) := by
  have hPos := (ttlPreflight_ok hTtl).2.2.2.1
  have hEvict : evict c.ms (granted kind c.ms (c.ms + ttl) token v) =
      granted kind c.ms (c.ms + ttl) token v := evict_granted (by omega)
  cases kind with
  | mutex =>
    cases op with
    | acquire => exact run_setPx (deadlineOf_of_ttlPreflight hTtl c) _
    | renew => exact run_prolong hTtl hEvict
  | read =>
    have hClean : Clean c.ms (granted .read c.ms (c.ms + ttl) token v) :=
      ⟨Or.inr ⟨_, _, hEvict⟩, hEvict⟩
    have hRun := run_grantRead hTtl (m := readMember token) hClean
    rw [granted, withMember_again, pushedBack_again] at hRun
    cases op <;> exact hRun
  | write =>
    have hClean : Clean c.ms (granted .write c.ms (c.ms + ttl) token v) :=
      ⟨Or.inr ⟨_, _, hEvict⟩, hEvict⟩
    have hRun := run_grantWrite hTtl (m := writeMember token) hClean
    rw [granted, withMember_again] at hRun
    cases op <;> exact hRun

/-- The checks of the mutex scripts are stable on every slot, also where they raise. -/
theorem checkBody_stable_mutex (op : Op) (c : Clock) (token : String) (v : Slot) :
    Stable (checkBody op .mutex c token) v := by
  cases op with
  | acquire => exact checkBody_stable token trivial
  | renew =>
    by_cases hOk : StringSlot c.ms v
    · exact checkBody_stable token hOk
    · have hOk' : ¬ StringSlot c.ms (evict c.ms v) := by
        unfold StringSlot at hOk ⊢
        rwa [evict_evict]
      show (notOwned c token).run ((notOwned c token).run v).2 = (notOwned c token).run v
      rw [run_notOwned_error hOk, run_notOwned_error hOk', evict_evict]

/-- A mutex check looks the key up and writes nothing. -/
theorem run_checkBody_mutex (op : Op) (c : Clock) (token : String) (v : Slot) :
    ((checkBody op .mutex c token).run v).2 = evict c.ms v := by
  by_cases hOk : SlotOk op .mutex c.ms v
  · obtain ⟨b, hRun, -⟩ := run_checkBody token hOk
    rw [hRun]
    rfl
  · cases op with
    | acquire => exact absurd trivial hOk
    | renew =>
      show ((notOwned c token).run v).2 = _
      rw [run_notOwned_error hOk]

-- ---------------------------------------------------------------------------
-- The two loops
-- ---------------------------------------------------------------------------

/-- The two loops of an acquire or renew script. -/
def loops (op : Op) (kind : Kind) (c : Clock) (keys : List Key) (token raw : String)
    (ttl : Int) : Script Int :=
  checkThenWrite (fun k => atKey k (checkBody op kind c token))
    (fun k => atKey k (writeBody op kind c raw ttl token)) 0 1 keys

section Loops

variable {op : Op} {kind : Kind} {c : Clock} {keys : List Key} {token raw : String} {ttl : Int}
variable {rawTtl : Option String} {s : Keyspace}

/-- Where every listed slot passes, every listed slot is written. -/
theorem run_loops_granted (hTtl : ttlPreflight rawTtl = .ok (raw, ttl))
    (hOk : ∀ k ∈ keys, SlotOk op kind c.ms (s k))
    (hUp : ∀ k ∈ keys, ¬ turnedDown op kind c.ms token (s k)) :
    (loops op kind c keys token raw ttl).run s =
      (.ok 1, mapOn keys (granted kind c.ms (c.ms + ttl) token) s) := by
  refine checkThenWrite_ok (fun k hk => checkBody_stable token (hOk k hk)) (fun k hk => ?_)
    (fun k hk => ?_) (fun k _ => run_writeBody_again hTtl)
  · obtain ⟨b, hRun, hb⟩ := run_checkBody token (hOk k hk)
    rw [hRun]
    cases b with
    | false => rfl
    | true => exact absurd (hb.mp rfl) (hUp k hk)
  · obtain ⟨b, hRun, -⟩ := run_checkBody token (hOk k hk)
    rw [hRun]
    exact run_writeBody hTtl (hOk k hk) (hUp k hk)

variable (raw ttl) in
/-- Where the slots have the right types, a refusal sweeps at most. -/
theorem run_loops_refused (hOk : ∀ k ∈ keys, SlotOk op kind c.ms (s k))
    (hDown : ∃ k ∈ keys, turnedDown op kind c.ms token (s k)) :
    ∃ s', (loops op kind c keys token raw ttl).run s = (.ok 0, s') ∧
      RewritesOn keys (checked kind c.ms) s s' := by
  have hStop : ∃ k ∈ keys, ((checkBody op kind c token).run (s k)).1 ≠ .ok false := by
    obtain ⟨k, hk, hTurned⟩ := hDown
    obtain ⟨b, hRun, hb⟩ := run_checkBody token (hOk k hk)
    refine ⟨k, hk, ?_⟩
    rw [hRun, hb.mpr hTurned]
    simp
  obtain ⟨⟨k, hk, hOut⟩, hRew⟩ := checkThenWrite_refused (writeBody op kind c raw ttl token)
    (0 : Int) 1 (fun k hk => checkBody_stable token (hOk k hk)) hStop
  refine ⟨_, ?_, fun k => (hRew k).imp_right fun ⟨hMem, hEq⟩ => ⟨hMem, ?_⟩⟩
  · obtain ⟨b, hRun, -⟩ := run_checkBody token (hOk k hk)
    rw [hRun] at hOut
    rcases hOut with ⟨-, hReply⟩ | ⟨e, hErr, -⟩
    · exact Prod.ext hReply rfl
    · cases hErr
  · obtain ⟨b, hRun, -⟩ := run_checkBody token (hOk k hMem)
    refine hEq.trans ?_
    show ((checkBody op kind c token).run (s k)).2 = _
    rw [hRun]

/-- The mutex loops, whatever the keys hold: the renewal's `GET` may raise in
the middle of the check loop, before any write. -/
theorem loops_effect_mutex (hTtl : ttlPreflight rawTtl = .ok (raw, ttl)) :
    Attempted op .mutex c.ms keys token (some (c.ms + ttl)) s
      ((loops op .mutex c keys token raw ttl).run s) := by
  by_cases hPass : ∀ k ∈ keys, SlotOk op .mutex c.ms (s k) ∧
      ¬ turnedDown op .mutex c.ms token (s k)
  · rw [run_loops_granted hTtl (fun k hk => (hPass k hk).1) (fun k hk => (hPass k hk).2)]
    exact .granted rfl (fun k hk => (hPass k hk).1) (fun k hk => (hPass k hk).2)
  · have hStop : ∃ k ∈ keys, ((checkBody op .mutex c token).run (s k)).1 ≠ .ok false := by
      by_contra hAll
      refine hPass fun k hk => ?_
      have hFalse : ((checkBody op .mutex c token).run (s k)).1 = .ok false := by
        by_contra hne
        exact hAll ⟨k, hk, hne⟩
      by_cases hOk : SlotOk op .mutex c.ms (s k)
      · obtain ⟨b, hRun, hb⟩ := run_checkBody token hOk
        rw [hRun, Except.ok.injEq] at hFalse
        refine ⟨hOk, fun hTurned => ?_⟩
        rw [hb.mpr hTurned] at hFalse
        cases hFalse
      · cases op with
        | acquire => exact absurd trivial hOk
        | renew =>
          rw [show checkBody .renew .mutex c token = notOwned c token from rfl,
            run_notOwned_error hOk] at hFalse
          cases hFalse
    obtain ⟨⟨k, hk, hOut⟩, hRew⟩ := checkThenWrite_refused
      (writeBody op .mutex c raw ttl token) (0 : Int) 1
      (fun k _ => checkBody_stable_mutex op c token (s k)) hStop
    have hEvict : RewritesOn keys (evict c.ms) s
        ((loops op .mutex c keys token raw ttl).run s).2 := fun k =>
      (hRew k).imp_right fun ⟨hMem, hEq⟩ =>
        ⟨hMem, hEq.trans (run_checkBody_mutex op c token (s k))⟩
    rcases hOut with ⟨hTrue, hReply⟩ | ⟨e, hErr, hReply⟩
    · -- some key is taken, or not the caller's
      have hPair : (loops op .mutex c keys token raw ttl).run s =
          (.ok 0, ((loops op .mutex c keys token raw ttl).run s).2) := Prod.ext hReply rfl
      rw [hPair]
      refine .refused (by simp) (fun hne => absurd rfl hne) ⟨k, hk, ?_⟩
        (fun k hk => hEvict.of_not_mem hk)
        (fun k _ => (hEvict k).imp_right fun h => Or.inl h.2)
      by_cases hOk : SlotOk op .mutex c.ms (s k)
      · obtain ⟨b, hRun, hb⟩ := run_checkBody token hOk
        rw [hRun, Except.ok.injEq] at hTrue
        exact hb.mp hTrue
      · cases op with
        | acquire => exact absurd trivial hOk
        | renew =>
          rw [show checkBody .renew .mutex c token = notOwned c token from rfl,
            run_notOwned_error hOk] at hTrue
          cases hTrue
    · -- some key is no string
      have hPair : (loops op .mutex c keys token raw ttl).run s =
          (.error e, ((loops op .mutex c keys token raw ttl).run s).2) := Prod.ext hReply rfl
      rw [hPair]
      refine .failed (Or.inr ⟨k, hk, fun hOk => ?_⟩) hEvict
      obtain ⟨b, hRun, -⟩ := run_checkBody token hOk
      rw [hRun] at hErr
      cases hErr

end Loops

-- ---------------------------------------------------------------------------
-- Whole commands
-- ---------------------------------------------------------------------------

/-- The type preflight at a key that is absent or a sorted set. -/
theorem run_typeCheck {c : Clock} {v : Slot} (h : SortedSetSlot c.ms v) :
    (typeCheck c).run v = (.ok none, evict c.ms v) := by
  unfold typeCheck typeOf
  rw [run_bind, run_query]
  rcases h with hv | ⟨z, expire, hv⟩
  · rw [hv]
    rfl
  · rw [hv]
    rfl

theorem run_typeCheck_error {c : Clock} {v : Slot} (h : ¬ SortedSetSlot c.ms v) :
    (typeCheck c).run v = (.error .notSortedSet, evict c.ms v) := by
  unfold typeCheck typeOf
  rw [run_bind, run_query]
  rcases hv : evict c.ms v with _ | ⟨val, expire⟩
  · exact absurd (Or.inl hv) h
  · cases val with
    | zset z => exact absurd (Or.inr ⟨z, expire, hv⟩) h
    | string s => rfl
    | other kind payload => rfl

/-- The look-up does not change the type of what is live. -/
theorem sortedSetSlot_evict {now : Int} {v : Slot} :
    SortedSetSlot now (evict now v) ↔ SortedSetSlot now v := by
  unfold SortedSetSlot
  rw [evict_evict]

/-- The type preflight finds the same at a repeated key. -/
theorem typeCheck_stable (c : Clock) (v : Slot) : Stable (typeCheck c) v := by
  unfold Stable
  by_cases h : SortedSetSlot c.ms v
  · rw [run_typeCheck h, run_typeCheck (sortedSetSlot_evict.mpr h), evict_evict]
  · rw [run_typeCheck_error h, run_typeCheck_error (mt sortedSetSlot_evict.mp h), evict_evict]

/-- It leaves what the look-up left, in both cases. -/
theorem run_typeCheck_snd (c : Clock) (v : Slot) : ((typeCheck c).run v).2 = evict c.ms v := by
  by_cases h : SortedSetSlot c.ms v
  · rw [run_typeCheck h]
  · rw [run_typeCheck_error h]

/-- The type preflight passes when every listed key is absent or a sorted set. -/
theorem run_rwTypePreflight {c : Clock} {keys : List Key} {s : Keyspace}
    (h : ∀ k ∈ keys, SortedSetSlot c.ms (s k)) :
    (rwTypePreflight c keys).run s = (.ok none, mapOn keys (evict c.ms) s) := by
  unfold rwTypePreflight
  rw [forKeys_all (fun k _ => typeCheck_stable c (s k))
    (fun k hk => by rw [run_typeCheck (h k hk)])]
  congr 1
  exact mapOn_congr fun k _ => run_typeCheck_snd c (s k)

/-- And raises, before any write, when one is not. -/
theorem run_rwTypePreflight_error {c : Clock} {keys : List Key} {s : Keyspace}
    (h : ∃ k ∈ keys, ¬ SortedSetSlot c.ms (s k)) :
    ∃ s', (rwTypePreflight c keys).run s = (.error .notSortedSet, s') ∧
      RewritesOn keys (evict c.ms) s s' := by
  have hStop : ∃ k ∈ keys, ((typeCheck c).run (s k)).1 ≠ .ok none := by
    obtain ⟨k, hk, hBad⟩ := h
    refine ⟨k, hk, ?_⟩
    rw [run_typeCheck_error hBad]
    simp
  obtain ⟨⟨k, hk, hne, hOut⟩, hRew⟩ :=
    forKeys_stop (fun k _ => typeCheck_stable c (s k)) hStop
  refine ⟨_, Prod.ext (hOut.trans ?_) rfl, fun k => (hRew k).imp_right fun ⟨hMem, hEq⟩ =>
    ⟨hMem, hEq.trans (run_typeCheck_snd c (s k))⟩⟩
  by_cases hSlot : SortedSetSlot c.ms (s k)
  · rw [run_typeCheck hSlot] at hne
    exact absurd rfl hne
  · rw [run_typeCheck_error hSlot]

/-- What is granted does not depend on whether the dead key was deleted before. -/
theorem granted_evict (kind : Kind) (now deadline : Int) (token : String) (v : Slot) :
    granted kind now deadline token (evict now v) = granted kind now deadline token v := by
  cases kind <;> simp [granted]

theorem slotOk_evict {op : Op} {kind : Kind} {now : Int} {v : Slot} (hKind : kind ≠ .mutex) :
    SlotOk op kind now (evict now v) ↔ SlotOk op kind now v := by
  rw [slotOk_of_ne_mutex hKind, slotOk_of_ne_mutex hKind, sortedSetSlot_evict]

theorem turnedDown_evict {op : Op} {kind : Kind} {now : Int} {token : String} {v : Slot} :
    turnedDown op kind now token (evict now v) ↔ turnedDown op kind now token v := by
  cases op <;> cases kind <;> simp only [turnedDown, scoreAt, evict_evict]

/-- The read-write loops after the three preflights. -/
theorem loops_effect_rw {op : Op} {kind : Kind} {c : Clock} {keys : List Key}
    {token raw : String} {ttl : Int} {rawTtl : Option String} {s : Keyspace}
    (hKind : kind ≠ .mutex) (hTtl : ttlPreflight rawTtl = .ok (raw, ttl)) :
    Attempted op kind c.ms keys token (some (c.ms + ttl)) s
      ((do let _ ← rwTypePreflight c keys; loops op kind c keys token raw ttl : Script Int).run
        s) := by
  by_cases hOk : ∀ k ∈ keys, SortedSetSlot c.ms (s k)
  -- the preflight has looked every key up; the loops see what it left
  · have hOk' : ∀ k ∈ keys, SlotOk op kind c.ms (mapOn keys (evict c.ms) s k) := by
      intro k hk
      rw [mapOn_of_mem hk, slotOk_evict hKind, slotOk_of_ne_mutex hKind]
      exact hOk k hk
    have hSlots : ∀ k ∈ keys, SlotOk op kind c.ms (s k) := fun k hk =>
      (slotOk_of_ne_mutex hKind).mpr (hOk k hk)
    rw [run_bind_ok (run_rwTypePreflight hOk)]
    by_cases hUp : ∀ k ∈ keys, ¬ turnedDown op kind c.ms token (s k)
    · rw [run_loops_granted hTtl hOk', mapOn_mapOn]
      · have hSame : mapOn keys (fun v => granted kind c.ms (c.ms + ttl) token (evict c.ms v)) s =
            mapOn keys (granted kind c.ms (c.ms + ttl) token) s :=
          mapOn_congr fun k _ => granted_evict ..
        rw [hSame]
        exact .granted rfl hSlots hUp
      · intro k hk
        rw [mapOn_of_mem hk, turnedDown_evict]
        exact hUp k hk
    · have hDown : ∃ k ∈ keys, turnedDown op kind c.ms token (s k) := by
        by_contra hAll
        exact hUp fun k hk hTurned => hAll ⟨k, hk, hTurned⟩
      have hDown' : ∃ k ∈ keys,
          turnedDown op kind c.ms token (mapOn keys (evict c.ms) s k) := by
        obtain ⟨k, hk, hTurned⟩ := hDown
        refine ⟨k, hk, ?_⟩
        rwa [mapOn_of_mem hk, turnedDown_evict]
      obtain ⟨s', hRun, hRew⟩ := run_loops_refused raw ttl hOk' hDown'
      rw [hRun]
      refine .refused (by simp) (fun _ => hSlots) hDown (fun k hk => ?_) (fun k hk => ?_)
      · rw [hRew.of_not_mem hk, mapOn_of_not_mem hk]
      -- swept by the preflight only, or by the check as well
      · rcases hRew k with hEq | ⟨-, hEq⟩
        · rw [mapOn_of_mem hk] at hEq
          exact Or.inr (Or.inl hEq)
        · rw [mapOn_of_mem hk] at hEq
          refine Or.inr (Or.inr ⟨hKind, hOk k hk, hEq.trans ?_⟩)
          cases kind with
          | mutex => exact absurd rfl hKind
          | read => exact cleanup_evict ..
          | write => exact cleanup_evict ..
  · have hBad : ∃ k ∈ keys, ¬ SortedSetSlot c.ms (s k) := by
      by_contra hAll
      refine hOk fun k hk => ?_
      by_contra hne
      exact hAll ⟨k, hk, hne⟩
    obtain ⟨s', hRun, hRew⟩ := run_rwTypePreflight_error hBad
    rw [run_bind_error hRun]
    obtain ⟨k, hk, hne⟩ := hBad
    exact .failed (Or.inr ⟨k, hk, fun hSlot => hne ((slotOk_of_ne_mutex hKind).mp hSlot)⟩) hRew

/-- The TTL preflight comes first, in all six scripts. -/
theorem attemptScript_of_ttl_error {op : Op} {kind : Kind} {c : Clock} {keys : List Key}
    {token : String} {rawTtl : Option String} {e : RedisError}
    (h : ttlPreflight rawTtl = .error e) :
    attemptScript op kind c keys token rawTtl = raise e := by
  cases op <;> cases kind <;>
    simp [attemptScript, acquireScript, renewScript, scriptAcquireLock, scriptRenewLock,
      scriptAcquireReadLock, scriptRenewReadLock, scriptAcquireWriteLock, scriptRenewWriteLock,
      rwScriptWithPreflight, scriptWithTtlPreflight, h]

/-- A mutex script past its preflight is its two loops. -/
theorem attemptScript_mutex {op : Op} {c : Clock} {keys : List Key} {token raw : String}
    {ttl : Int} {rawTtl : Option String} (h : ttlPreflight rawTtl = .ok (raw, ttl)) :
    attemptScript op .mutex c keys token rawTtl = loops op .mutex c keys token raw ttl := by
  cases op
  · simp only [attemptScript, acquireScript, scriptAcquireLock, scriptWithTtlPreflight, h]
    rfl
  · simp only [attemptScript, renewScript, scriptRenewLock, scriptWithTtlPreflight, h]
    rfl

/-- A read-write script past its numeric preflights. -/
theorem attemptScript_rw {op : Op} {kind : Kind} {c : Clock} {keys : List Key}
    {token raw : String} {ttl : Int} {rawTtl : Option String} (hKind : kind ≠ .mutex)
    (h : Accepts kind c rawTtl raw ttl) :
    attemptScript op kind c keys token rawTtl =
      (do let _ ← rwTypePreflight c keys; loops op kind c keys token raw ttl) := by
  obtain ⟨hTtl, hExp⟩ := h
  have hNow : rwExpiryPreflight c ttl = .ok (c.ms, c.ms + ttl) := by
    obtain ⟨-, -, -, hPos, hLe⟩ := ttlPreflight_ok hTtl
    exact (rwExpiryPreflight_ok_iff hPos hLe).mpr ⟨hExp hKind, rfl, rfl⟩
  cases op <;> cases kind <;> first
    | exact absurd rfl hKind
    | (simp only [attemptScript, acquireScript, renewScript, scriptAcquireReadLock,
        scriptRenewReadLock, scriptAcquireWriteLock, scriptRenewWriteLock,
        rwScriptWithPreflight, scriptWithTtlPreflight, hTtl, hNow]
       rfl)

/-- The expiry preflight comes before any key is looked at. -/
theorem attemptScript_of_expiry_error {op : Op} {kind : Kind} {c : Clock} {keys : List Key}
    {token raw : String} {ttl : Int} {rawTtl : Option String} {e : RedisError}
    (hKind : kind ≠ .mutex) (hTtl : ttlPreflight rawTtl = .ok (raw, ttl))
    (h : rwExpiryPreflight c ttl = .error e) :
    attemptScript op kind c keys token rawTtl = raise e := by
  cases op <;> cases kind <;> first
    | exact absurd rfl hKind
    | simp only [attemptScript, acquireScript, renewScript, scriptAcquireReadLock,
        scriptRenewReadLock, scriptAcquireWriteLock, scriptRenewWriteLock,
        rwScriptWithPreflight, scriptWithTtlPreflight, hTtl, h]

/-- **Acquire and renew.** Every run of one of the six scripts fails, is refused
or is granted. -/
theorem attempt_effect (op : Op) (kind : Kind) (c : Clock) (keys : List Key) (token : String)
    (rawTtl : Option String) (s : Keyspace) :
    Attempted op kind c.ms keys token (grantDeadline kind c rawTtl) s
      ((attemptScript op kind c keys token rawTtl).run s) := by
  -- the preflights in the order of the script, then its loops
  rcases hTtl : ttlPreflight rawTtl with e | ⟨raw, ttl⟩
  · rw [attemptScript_of_ttl_error hTtl, run_raise]
    refine .failed (Or.inl ?_) (RewritesOn.refl _ _ _)
    unfold grantDeadline
    rw [hTtl]
  · by_cases hKind : kind = .mutex
    · subst hKind
      have hDeadline : grantDeadline .mutex c rawTtl = some (c.ms + ttl) :=
        grantDeadline_eq_some.mpr ⟨raw, ttl, ⟨hTtl, fun h => absurd rfl h⟩, rfl⟩
      rw [attemptScript_mutex hTtl, hDeadline]
      exact loops_effect_mutex hTtl
    · obtain ⟨-, -, -, hPos, hLe⟩ := ttlPreflight_ok hTtl
      rcases hExp : rwExpiryPreflight c ttl with e | ⟨now, expiry⟩
      · rw [attemptScript_of_expiry_error hKind hTtl hExp, run_raise]
        refine .failed (Or.inl ?_) (RewritesOn.refl _ _ _)
        rw [Option.eq_none_iff_forall_ne_some]
        intro d hd
        obtain ⟨raw', ttl', hAcc, -⟩ := grantDeadline_eq_some.mp hd
        have hSame := hAcc.1.symm.trans hTtl
        simp only [Except.ok.injEq, Prod.mk.injEq] at hSame
        obtain ⟨rfl, rfl⟩ := hSame
        have hOk := (rwExpiryPreflight_ok_iff hPos hLe).mpr ⟨hAcc.2 hKind, rfl, rfl⟩
        rw [hExp] at hOk
        cases hOk
      · have hAcc : Accepts kind c rawTtl raw ttl :=
          ⟨hTtl, fun _ => ((rwExpiryPreflight_ok_iff hPos hLe).mp hExp).1⟩
        rw [attemptScript_rw hKind hAcc, grantDeadline_eq_some.mpr ⟨raw, ttl, hAcc, rfl⟩]
        exact loops_effect_rw hKind hTtl

/-- The plain command sets an absent key and leaves any other. -/
theorem run_setNxPx {now deadline : Int} (token : String) {raw : String}
    (h : deadlineOf now raw = .ok deadline) (v : Slot) :
    (setNxPx now token raw).run v =
      match evict now v with
      | none => (.ok true, some ⟨.string token, some deadline⟩)
      | some entry => (.ok false, some entry) := by
  unfold setNxPx
  rw [h]
  rfl

/-- An argument it cannot read leaves even a dead key where it is. -/
theorem run_setNxPx_error {now : Int} {token raw : String} {e : RedisError}
    (h : deadlineOf now raw = .error e) (v : Slot) :
    (setNxPx now token raw).run v = (.error e, v) := by
  unfold setNxPx
  rw [h]
  rfl

/-- **`SET key token NX PX ttl`** is an acquisition of the one-element list. -/
theorem setNx_effect (c : Clock) (key : Key) (token raw : String) (s : Keyspace) :
    Attempted .acquire .mutex c.ms [key] token (Call.deadline c (.setNx key token raw)) s
      ((Call.exec c (.setNx key token raw)).run s) := by
  show Attempted _ _ _ _ _ (deadlineOf c.ms raw).toOption s
    ((atKey key (setNxPx c.ms token raw >>= fun b => pure (if b then 1 else 0))).run s)
  rw [run_atKey]
  rcases hRaw : deadlineOf c.ms raw with e | deadline
  · rw [run_bind_error (run_setNxPx_error hRaw _), Function.update_eq_self]
    exact .failed (Or.inl rfl) (RewritesOn.refl _ _ _)
  · have hRun := run_setNxPx token hRaw (s key)
    -- the key is absent, or something live is at it
    rcases hv : evict c.ms (s key) with _ | entry
    · rw [hv] at hRun
      have hLeft : Function.update s key (some ⟨.string token, some deadline⟩) =
          mapOn [key] (granted .mutex c.ms deadline token) s := by
        funext k
        by_cases hk : k = key
        · subst hk
          rw [Function.update_self, mapOn_of_mem (List.mem_singleton.mpr rfl)]
          rfl
        · rw [Function.update_of_ne hk, mapOn_of_not_mem (by simpa using hk)]
      rw [run_bind_ok hRun, run_pure, hLeft]
      refine .granted rfl (fun _ _ => trivial) fun k hk hTurned => ?_
      rw [List.mem_singleton.mp hk] at hTurned
      exact hTurned hv
    · rw [hv] at hRun
      rw [run_bind_ok hRun, run_pure]
      refine .refused (by simp [Except.toOption]) (fun h => absurd rfl h)
        ⟨key, List.mem_singleton.mpr rfl, ?_⟩ (fun k hk => ?_) (fun k hk => Or.inr (Or.inl ?_))
      · show evict c.ms (s key) ≠ none
        simp [hv]
      · exact Function.update_of_ne (by simpa using hk) ..
      · rw [List.mem_singleton.mp hk, Function.update_self, hv]

/-- The three release scripts are one loop. -/
theorem releaseScript_eq (kind : Kind) (c : Clock) (keys : List Key) (token : String) :
    releaseScript kind c keys token = (do
      let count ← sumKeys (fun k => atKey k (releaseBody kind c token)) keys
      return allCounted keys count) := by
  cases kind <;> rfl

/-- **Release.** The token is taken out of every listed key; the reply is 1 when
every listed key held it and no key was listed twice. -/
theorem release_effect (kind : Kind) (c : Clock) (keys : List Key) (token : String)
    (s : Keyspace) :
    (releaseScript kind c keys token).run s =
      (.ok (allCounted keys (∑ k ∈ keys.toFinset, (holds kind c.ms token (s k)).toNat)),
        mapOn keys (released kind c.ms token) s) := by
  have hLoop := sumKeys_spec (run_releaseBody kind c token)
    (fun v => by rw [holds_released]; rfl) (released_again kind c.ms token) keys s
  rw [releaseScript_eq, run_bind_ok hLoop, run_pure]

/-- An attempt with accepted arguments on keys of the right types replies 1 or
0, and 1 exactly when no listed slot is turned down. -/
theorem Attempted.reply_iff {op : Op} {kind : Kind} {now : Int} {keys : List Key} {token : String}
    {deadline : Option Int} {s : Keyspace} {out : Except RedisError Int × Keyspace}
    (h : Attempted op kind now keys token deadline s out) (hDeadline : deadline ≠ none)
    (hOk : ∀ k ∈ keys, SlotOk op kind now (s k)) :
    (out.1 = .ok 0 ∨ out.1 = .ok 1) ∧
      (out.1 = .ok 1 ↔ ∀ k ∈ keys, ¬ turnedDown op kind now token (s k)) := by
  cases h with
  | failed hWhy hRew =>
    rcases hWhy with hNone | ⟨k, hk, hBad⟩
    · exact absurd hNone hDeadline
    · exact absurd (hOk k hk) hBad
  | refused hDeadline hOk hDown hOther hSwept =>
    obtain ⟨k, hk, hTurned⟩ := hDown
    exact ⟨Or.inl rfl, ⟨fun hOne => absurd (Except.ok.inj hOne) (by decide),
      fun hUp => absurd hTurned (hUp k hk)⟩⟩
  | granted hDeadline hOk hUp => exact ⟨Or.inr rfl, ⟨fun _ => hUp, fun _ => rfl⟩⟩

/-- An attempt that replies 1 passed all keys and wrote its grant to them. -/
theorem Attempted.of_one {op : Op} {kind : Kind} {now : Int} {keys : List Key} {token : String}
    {deadline : Option Int} {s : Keyspace} {out : Except RedisError Int × Keyspace}
    (h : Attempted op kind now keys token deadline s out) (hOne : out.1 = .ok 1) :
    ∃ d, deadline = some d ∧ out.2 = mapOn keys (Scripts.granted kind now d token) s ∧
      ∀ k ∈ keys, SlotOk op kind now (s k) ∧ ¬ turnedDown op kind now token (s k) := by
  cases h with
  | failed hWhy hRew => cases hOne
  | refused hDeadline hOk hDown hOther hSwept =>
    exact absurd (Except.ok.inj hOne) (by decide)
  | @granted d hDeadline hOk hUp => exact ⟨d, hDeadline, rfl, fun k hk => ⟨hOk k hk, hUp k hk⟩⟩

/-- An attempt replies 1 exactly when it has a deadline to grant and passes all its
keys. -/
theorem Attempted.one_iff {op : Op} {kind : Kind} {now : Int} {keys : List Key} {token : String}
    {deadline : Option Int} {s : Keyspace} {out : Except RedisError Int × Keyspace}
    (h : Attempted op kind now keys token deadline s out) :
    out.1 = .ok 1 ↔ deadline ≠ none ∧
      ∀ k ∈ keys, SlotOk op kind now (s k) ∧ ¬ turnedDown op kind now token (s k) := by
  constructor
  · intro hOne
    obtain ⟨d, hDeadline, -, hUp⟩ := h.of_one hOne
    rw [hDeadline]
    exact ⟨Option.some_ne_none d, hUp⟩
  · rintro ⟨hDeadline, hUp⟩
    exact (h.reply_iff hDeadline fun k hk => (hUp k hk).1).2.mpr fun k hk => (hUp k hk).2

end RLock.Scripts
