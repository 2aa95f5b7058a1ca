import RLock.Scripts.Tables

/-!
# RLock — the mutex operations refine an owner table

Runs of single-key acquisitions (`SET … NX PX`), multi-key acquisitions,
renewals and releases from the empty keyspace, at clocks that do not run
backwards, beside an abstract table from keys to owners.

A mutex is stored as one string, so the table has one owner for each key, with a deadline,
and nothing has to be read off a set. An owner is shown through its deadline, and not
only up to it, since a key is gone when the clock is past its expiry. An entry that has
run out may be overwritten by anybody, and it may be in the keyspace still, or no more.

* `attempted_single` — an acquisition of one key has one outcome, so that the plain
  command and the script cannot differ.
* `MutexInv.evict_eq` — what Redis shows of a key is its unexpired entry.
* `mutexRun_refines` — in every reachable state and at every later clock what
  Redis shows is the unexpired part of the table, and every call answers and
  changes it as the table says; the two acquisition paths are interchangeable.
-/

namespace RLock.Scripts

open KeyedStore LazyTable RLock.Redis

-- ---------------------------------------------------------------------------
-- The owner table
-- ---------------------------------------------------------------------------

/-- Who owns a key, and until when. -/
abbrev OwnerTable := Key → Option (String × Int)

/-- The table after a call with this reply: a successful acquisition or renewal
sets the listed keys, a release erases those the token owns. -/
def OwnerTable.after (table : OwnerTable) (c : Clock) (call : Call)
    (reply : Except RedisError Int) : OwnerTable :=
  if call.isRelease then
    fun k => if k ∈ call.keys ∧ (table k).map (·.1) = some call.token then none else table k
  else if reply = .ok 1 then
    fun k => if k ∈ call.keys then (call.deadline c).map (call.token, ·) else table k
  else table

/-- The unexpired entry of a key, as Redis shows it. -/
def shown (now : Int) (entry : Option (String × Int)) : Slot :=
  match entry with
  | some (token, deadline) =>
    if now ≤ deadline then some ⟨.string token, some deadline⟩ else none
  | none => none

/-- The keyspace holds this owner, with this deadline. -/
def ownerStored (s : Keyspace) (k : Key) (entry : String × Int) : Prop :=
  s k = some ⟨.string entry.1, some entry.2⟩

/-- The keyspace and the owner table after a run of mutex calls, the last one at
clock `c`. -/
inductive MutexRun : Clock → Keyspace → OwnerTable → Prop
  | start (c : Clock) : MutexRun c (fun _ => none) (fun _ => none)
  | call {c c' : Clock} {s : Keyspace} {table : OwnerTable} (hRun : MutexRun c s table)
      (hClock : c.us ≤ c'.us) (call : Call) (hKind : call.kind = .mutex) :
      MutexRun c' ((call.exec c').run s).2 (table.after c' call ((call.exec c').run s).1)
  | expireCycle {c c' : Clock} {s : Keyspace} {table : OwnerTable} (hRun : MutexRun c s table)
      (hClock : c.us ≤ c'.us) (key : Key) :
      MutexRun c' (Function.update s key (evict c'.ms (s key))) table

/-- What a run keeps. -/
structure MutexInv (now : Int) (s : Keyspace) (table : OwnerTable) : Prop where
  strings : ∀ k e, s k = some e → ∃ token deadline, e = ⟨.string token, some deadline⟩
  copy : Represents (fun _ entry => now ≤ entry.2) (ownerStored s) table

theorem MutexInv.later {now now' : Int} {s : Keyspace} {table : OwnerTable}
    (h : MutexInv now s table) (hNow : now ≤ now') : MutexInv now' s table :=
  ⟨h.strings, h.copy.weaken fun _ _ hLive => hNow.trans hLive⟩

/-- A slot of a run may be looked up at any moment. -/
theorem MutexInv.lookup {now : Int} {s s' : Keyspace} {table : OwnerTable}
    (h : MutexInv now s table) (hSlot : ∀ k, s' k = s k ∨ s' k = evict now (s k)) :
    MutexInv now s' table := by
  have hSub : ∀ k e, s' k = some e → s k = some e := by
    intro k e hs
    rcases hSlot k with hEq | hEq
    · rwa [← hEq]
    · rw [hEq] at hs
      exact (evict_eq_some.mp hs).1
  refine ⟨fun k e hs => h.strings k e (hSub k e hs), h.copy.purge
    (fun k entry hs => hSub k _ hs) fun k entry hs hLive => ?_⟩
  show s' k = _
  rcases hSlot k with hEq | hEq
  · rwa [hEq]
  · rw [hEq, hs]
    exact evict_of_live hLive

/-- An acquisition or renewal writes the same on both sides, or nothing. -/
theorem MutexInv.attempted {c : Clock} {s : Keyspace} {table : OwnerTable} {call : Call} {op : Op}
    {out : Except RedisError Int × Keyspace} (h : MutexInv c.ms s table)
    (hRel : call.isRelease = false)
    (hOut : Attempted op .mutex c.ms call.keys call.token (call.deadline c) s out) :
    MutexInv c.ms out.2 (table.after c call out.1) := by
  unfold OwnerTable.after
  rw [hRel, if_neg Bool.false_ne_true]
  generalize hDead : call.deadline c = deadline at hOut
  cases hOut with
  | failed hWhy hRew =>
    rw [if_neg (by simp)]
    exact h.lookup fun k => (hRew k).imp_right (·.2)
  | @refused s' hDeadline hOk hDown hOther hSwept =>
    rw [if_neg (by simp)]
    refine h.lookup fun k => ?_
    by_cases hk : k ∈ call.keys
    · rcases hSwept k hk with hEq | hEq | ⟨hne, -⟩
      · exact Or.inl hEq
      · exact Or.inr hEq
      · exact absurd rfl hne
    · exact Or.inl (hOther k hk)
  | @granted deadline hDeadline hOk hUp =>
    subst hDeadline
    rw [if_pos rfl]
    refine ⟨fun k e hs => ?_, h.copy.update (· ∈ call.keys) (fun _ => some (call.token, deadline))
      (fun k entry hk => ?_) (fun k entry hk hs => ?_) (fun k entry hk hs _ => ?_)⟩
    · change mapOn call.keys (granted .mutex c.ms deadline call.token) s k = some e at hs
      by_cases hk : k ∈ call.keys
      · rw [mapOn_of_mem hk] at hs
        exact ⟨_, _, (Option.some.inj hs).symm⟩
      · rw [mapOn_of_not_mem hk] at hs
        exact h.strings k e hs
    · show mapOn call.keys (granted .mutex c.ms deadline call.token) s k = _ ↔ _
      rw [mapOn_of_mem hk]
      obtain ⟨token, d⟩ := entry
      simp [granted]
    · change mapOn call.keys _ s k = _ at hs
      rwa [mapOn_of_not_mem hk] at hs
    · show mapOn call.keys _ s k = _
      rwa [mapOn_of_not_mem hk]

/-- A release erases the same on both sides. -/
theorem MutexInv.release {c : Clock} {s : Keyspace} {table : OwnerTable} {keys : List Key}
    {token : String} (h : MutexInv c.ms s table) :
    MutexInv c.ms (mapOn keys (released .mutex c.ms token) s) (fun k =>
      if k ∈ keys ∧ (table k).map (·.1) = some token then none else table k) := by
  have hSlot : ∀ k ∈ keys, ∀ e, released .mutex c.ms token (s k) = some e →
      holds .mutex c.ms token (s k) = false ∧ s k = some e := by
    intro k _ e hs
    rcases released_mutex_cases c.ms token (s k) with ⟨-, hEq⟩ | ⟨hNot, hEq⟩
    · rw [hEq] at hs
      cases hs
    · rw [hEq] at hs
      exact ⟨hNot, (evict_eq_some.mp hs).1⟩
  refine ⟨fun k e hs => ?_, h.copy.update _ (fun _ => none) (fun k entry hk => ?_)
    (fun k entry hk hs => ?_) (fun k entry hk hs hLive => ?_)⟩
  · by_cases hk : k ∈ keys
    · rw [mapOn_of_mem hk] at hs
      exact h.strings k e (hSlot k hk e hs).2
    · rw [mapOn_of_not_mem hk] at hs
      exact h.strings k e hs
  · -- an erased key holds nothing: what is left there is not the token's
    obtain ⟨hk, hOwner⟩ := hk
    refine ⟨fun hs => ?_, fun hNone => (nomatch hNone)⟩
    change mapOn keys _ s k = _ at hs
    rw [mapOn_of_mem hk] at hs
    obtain ⟨hNot, hRaw⟩ := hSlot k hk _ hs
    have hTable := h.copy.sound k entry hRaw
    rw [hTable] at hOwner
    have hToken : entry.1 = token := Option.some.inj hOwner
    have hEvict : evict c.ms (s k) = s k := by
      rcases released_mutex_cases c.ms token (s k) with ⟨-, hEq⟩ | ⟨-, hEq⟩
      · rw [hEq] at hs
        cases hs
      · rw [← hEq, hs, hRaw]
    rw [holds_mutex_iff.mpr ⟨some entry.2, by rw [hEvict, hRaw, hToken]⟩] at hNot
    cases hNot
  · change mapOn keys _ s k = _ at hs
    by_cases hMem : k ∈ keys
    · rw [mapOn_of_mem hMem] at hs
      exact (hSlot k hMem _ hs).2
    · rwa [mapOn_of_not_mem hMem] at hs
  · show mapOn keys _ s k = _
    by_cases hMem : k ∈ keys
    · have hTable := h.copy.sound k entry hs
      have hEvict : evict c.ms (s k) = some ⟨.string entry.1, some entry.2⟩ := by
        rw [hs]
        exact evict_of_live hLive
      rw [mapOn_of_mem hMem]
      rcases released_mutex_cases c.ms token (s k) with ⟨hHolds, -⟩ | ⟨-, hEq⟩
      · obtain ⟨expire, hOwn⟩ := holds_mutex_iff.mp hHolds
        rw [hEvict] at hOwn
        simp only [Option.some.injEq, Entry.mk.injEq, Value.string.injEq] at hOwn
        refine absurd ⟨hMem, ?_⟩ hk
        rw [hTable, ← hOwn.1]
        rfl
      · rw [hEq, hEvict]
    · rwa [mapOn_of_not_mem hMem]

/-- Every run keeps the invariant, by induction on its steps. -/
theorem mutexRun_inv {c : Clock} {s : Keyspace} {table : OwnerTable} (h : MutexRun c s table) :
    MutexInv c.ms s table := by
  induction h with
  | start c =>
    exact ⟨fun k e hs => (nomatch hs),
      ⟨fun k entry hs => (nomatch hs), fun k entry hs => (nomatch hs)⟩⟩
  | @call c c' s table hRun hClock call hKind ih =>
    have h := ih.later (Clock.ms_mono hClock)
    cases call with
    | setNx key token raw => exact h.attempted rfl (setNx_effect c' key token raw s)
    | attempt op kind keys token rawTtl =>
      change kind = .mutex at hKind
      subst hKind
      exact h.attempted rfl (attempt_effect op .mutex c' keys token rawTtl s)
    | release kind keys token =>
      change kind = .mutex at hKind
      subst hKind
      have hRun := release_effect .mutex c' keys token s
      show MutexInv c'.ms ((releaseScript .mutex c' keys token).run s).2 _
      rw [hRun]
      exact h.release
  | @expireCycle c c' s table hRun hClock key ih =>
    exact (ih.later (Clock.ms_mono hClock)).lookup (expireCycle_cases c'.ms key s)

-- ---------------------------------------------------------------------------
-- Observations
-- ---------------------------------------------------------------------------

/-- Acquisitions, on either path, and renewals. -/
def Call.mutexOp : Call → Option Op
  | .setNx _ _ _ => some .acquire
  | .attempt op .mutex _ _ _ => some op
  | _ => none

/-- On either path an acquisition is an attempt. -/
theorem mutexOp_attempted {call : Call} {op : Op} (h : call.mutexOp = some op) (c : Clock)
    (s : Keyspace) :
    Attempted op .mutex c.ms call.keys call.token (call.deadline c) s
      ((call.exec c).run s) := by
  cases call with
  | setNx key token raw =>
    cases h
    exact setNx_effect c key token raw s
  | attempt op' kind keys token rawTtl =>
    cases kind with
    | mutex =>
      cases h
      exact attempt_effect op .mutex c keys token rawTtl s
    | read => cases h
    | write => cases h
  | release kind keys token => cases h

/-- What the owner table says about the next reply. -/
def ownerAllows (op : Op) (now : Int) (keys : List Key) (token : String) (table : OwnerTable) :
    Prop :=
  match op with
  | .acquire => ∀ k ∈ keys, ∀ owner deadline, table k = some (owner, deadline) → deadline < now
  | .renew => ∀ k ∈ keys, ∃ deadline, table k = some (token, deadline) ∧ now ≤ deadline

/-- What Redis shows of a key is the unexpired part of its table entry. -/
theorem MutexInv.evict_eq {now : Int} {s : Keyspace} {table : OwnerTable}
    (h : MutexInv now s table) (k : Key) : evict now (s k) = shown now (table k) := by
  rcases hTable : table k with _ | ⟨owner, deadline⟩
  · rcases hv : evict now (s k) with _ | e
    · rfl
    · have hs := (evict_eq_some.mp hv).1
      obtain ⟨token, d, rfl⟩ := h.strings k e hs
      have hIn := h.copy.sound k (token, d) hs
      rw [hTable] at hIn
      cases hIn
  · by_cases hNow : now ≤ deadline
    · have hs := h.copy.complete k (owner, deadline) hTable hNow
      rw [shown, if_pos hNow, show s k = _ from hs]
      exact evict_of_live hNow
    · rw [shown, if_neg hNow]
      rcases hs : s k with _ | e
      · rfl
      · obtain ⟨token, d, rfl⟩ := h.strings k e hs
        have hIn := h.copy.sound k (token, d) hs
        rw [hTable, Option.some.injEq, Prod.mk.injEq] at hIn
        exact evict_of_passed (by omega)

/-- The check loop passes exactly when the table allows the call. -/
theorem MutexInv.turnedDown_iff {now : Int} {s : Keyspace} {table : OwnerTable}
    (h : MutexInv now s table) {op : Op} {token : String} {keys : List Key} :
    (∀ k ∈ keys, ¬ turnedDown op .mutex now token (s k)) ↔
      ownerAllows op now keys token table := by
  cases op with
  | acquire =>
    refine forall₂_congr fun k hk => ?_
    rw [turnedDown, h.evict_eq k, not_not]
    rcases table k with _ | ⟨owner, deadline⟩
    · simp [shown]
    · simp [shown]
  | renew =>
    refine forall₂_congr fun k hk => ?_
    rw [turnedDown, h.evict_eq k]
    rcases table k with _ | ⟨owner, deadline⟩
    · simp [shown]
    · by_cases hNow : now ≤ deadline
      · simp [shown, hNow]
      · simp [shown, hNow]

/-- One key, accepted arguments: the outcome of an acquisition is determined. -/
theorem attempted_single {now d : Int} {key : Key} {token : String} {s : Keyspace}
    {out : Except RedisError Int × Keyspace}
    (h : Attempted .acquire .mutex now [key] token (some d) s out) :
    out = if evict now (s key) = none then (.ok 1, mapOn [key] (granted .mutex now d token) s)
      else (.ok 0, s) := by
  cases h with
  | failed hWhy hRew =>
    rcases hWhy with hNone | ⟨k, hk, hBad⟩
    · cases hNone
    · exact absurd trivial hBad
  | @refused s' hDeadline hOk hDown hOther hSwept =>
    obtain ⟨k, hk, hTaken⟩ := hDown
    rw [List.mem_singleton.mp hk] at hTaken
    rw [if_neg hTaken]
    have hSame : s' = s := by
      funext k
      by_cases hk : k ∈ [key]
      · -- a key that is taken has not expired, so looking it up changes nothing
        have hEvict : evict now (s k) = s k := by
          rw [List.mem_singleton.mp hk]
          rcases hv : evict now (s key) with _ | e
          · exact absurd hv hTaken
          · exact (evict_eq_some.mp hv).1.symm
        rcases hSwept k hk with hEq | hEq | ⟨hne, -⟩
        · exact hEq
        · rw [hEq, hEvict]
        · exact absurd rfl hne
      · exact hOther k hk
    rw [hSame]
  | granted hDeadline hOk hUp =>
    cases hDeadline
    have hFree : evict now (s key) = none :=
      not_not.mp (hUp key (List.mem_singleton.mpr rfl))
    rw [if_pos hFree]

/-- What may be observed of the keyspace at clock `c` is what the table says. -/
structure RefinesOwners (c : Clock) (s : Keyspace) (table : OwnerTable) : Prop where
  /-- The stored strings with their expiries are exactly the unexpired table. -/
  stored : ∀ k, evict c.ms (s k) = shown c.ms (table k)
  /-- Acquisitions and renewals succeed exactly when the table allows it. -/
  replies : ∀ (call : Call) (op : Op), call.mutexOp = some op → call.deadline c ≠ none →
    (((call.exec c).run s).1 = .ok 0 ∨ ((call.exec c).run s).1 = .ok 1) ∧
    (((call.exec c).run s).1 = .ok 1 ↔ ownerAllows op c.ms call.keys call.token table)
  /-- A successful one gives every listed key the caller's token and deadline. -/
  success : ∀ (call : Call) (op : Op), call.mutexOp = some op → ((call.exec c).run s).1 = .ok 1 →
    ∃ deadline, call.deadline c = some deadline ∧ ∀ k ∈ call.keys,
      ((call.exec c).run s).2 k = some ⟨.string call.token, some deadline⟩
  /-- An unsuccessful one changes nothing. -/
  failure : ∀ (call : Call) (op : Op), call.mutexOp = some op → ((call.exec c).run s).1 ≠ .ok 1 →
    (∀ k, evict c.ms (((call.exec c).run s).2 k) = evict c.ms (s k)) ∧
    table.after c call ((call.exec c).run s).1 = table
  /-- `SET NX PX` and the script on the one-element list are interchangeable. -/
  fastPath : ∀ key token raw ttl, ttlPreflight (some raw) = .ok (raw, ttl) →
    ((Call.setNx key token raw).exec c).run s =
      ((Call.attempt .acquire .mutex [key] token (some raw)).exec c).run s

/-- **The mutex operations refine the owner table.** In every reachable state,
at every clock from then on. -/
theorem mutexRun_refines {c c' : Clock} {s : Keyspace} {table : OwnerTable}
    (hRun : MutexRun c s table) (hClock : c.us ≤ c'.us) : RefinesOwners c' s table := by
  have h : MutexInv c'.ms s table := (mutexRun_inv hRun).later (Clock.ms_mono hClock)
  have hStrings : ∀ op k, SlotOk op .mutex c'.ms (s k) := by
    intro op k
    cases op with
    | acquire => trivial
    | renew =>
      rcases hv : evict c'.ms (s k) with _ | e
      · exact Or.inl hv
      · obtain ⟨token, d, rfl⟩ := h.strings k e (evict_eq_some.mp hv).1
        exact Or.inr ⟨_, _, hv⟩
  refine ⟨h.evict_eq, fun call op hOp hDeadline => ?_, fun call op hOp hOne => ?_,
    fun call op hOp hNot => ⟨fun k => ?_, ?_⟩, fun key token raw ttl hTtl => ?_⟩
  · obtain ⟨hAnswer, hIff⟩ :=
      (mutexOp_attempted hOp c' s).reply_iff hDeadline fun k _ => hStrings op k
    exact ⟨hAnswer, hIff.trans h.turnedDown_iff⟩
  · have hOut := mutexOp_attempted hOp c' s
    generalize (call.exec c').run s = out at hOut hOne ⊢
    cases hOut with
    | failed hWhy hRew => cases hOne
    | refused hDeadline hOk hDown hOther hSwept =>
      exact absurd (Except.ok.inj hOne) (by decide)
    | @granted d hDeadline hOk hUp => exact ⟨d, hDeadline, fun k hk => mapOn_of_mem hk _ _⟩
  · have hOut := mutexOp_attempted hOp c' s
    generalize (call.exec c').run s = out at hOut hNot ⊢
    cases hOut with
    | failed hWhy hRew =>
      rcases hRew k with hEq | ⟨-, hEq⟩
      · exact congrArg _ hEq
      · exact (congrArg _ hEq).trans (evict_evict ..)
    | refused hDeadline hOk hDown hOther hSwept =>
      by_cases hk : k ∈ call.keys
      · rcases hSwept k hk with hEq | hEq | ⟨hne, -⟩
        · exact congrArg _ hEq
        · exact (congrArg _ hEq).trans (evict_evict ..)
        · exact absurd rfl hne
      · exact congrArg _ (hOther k hk)
    | granted hDeadline hOk hUp => exact absurd rfl hNot
  · unfold OwnerTable.after
    have hRel : call.isRelease = false := by
      cases call with
      | setNx key token raw => rfl
      | attempt op kind keys token rawTtl => rfl
      | release kind keys token => cases hOp
    rw [hRel, if_neg Bool.false_ne_true, if_neg hNot]
  -- both are attempts with the same deadline on the same key
  · have hSet := setNx_effect c' key token raw s
    have hScript := attempt_effect .acquire .mutex c' [key] token (some raw) s
    have hFirst : Call.deadline c' (.setNx key token raw) = some (c'.ms + ttl) := by
      show (deadlineOf c'.ms raw).toOption = _
      rw [deadlineOf_of_ttlPreflight hTtl]
      rfl
    have hSecond : grantDeadline .mutex c' (some raw) = some (c'.ms + ttl) :=
      grantDeadline_eq_some.mpr ⟨raw, ttl, ⟨hTtl, fun hne => absurd rfl hne⟩, rfl⟩
    rw [hFirst] at hSet
    rw [hSecond] at hScript
    exact (attempted_single hSet).trans (attempted_single hScript).symm

/-- A single-key acquisition at 5 ms for 10 ms. -/
def fastCall : Call := .setNx "k" "t" "10"

/-- The key is looked at in the last millisecond in which it is held. -/
theorem mutexRun_refines_fast :
    RefinesOwners ⟨15000, by decide, by decide⟩
      ((fastCall.exec ⟨5000, by decide, by decide⟩).run fun _ => none).2
      (OwnerTable.after (fun _ => none) ⟨5000, by decide, by decide⟩ fastCall
        ((fastCall.exec ⟨5000, by decide, by decide⟩).run fun _ => none).1) :=
  mutexRun_refines (.call (.start ⟨5000, by decide, by decide⟩) le_rfl fastCall rfl)
    (by decide)

end RLock.Scripts
