import RLock.Scripts.Tables

/-!
# RLock — the read-write scripts refine the lease table

Runs of the six read-write scripts from the empty keyspace, at clocks that do
not run backwards, beside the abstract table of deadlines.

The run keeps three things (`RwInv`): every slot is sound, the keyspace is a lazy copy of
the table, and there are no mutexes in it. From these an observation is computed and not
proved by induction: the members Redis counts at some clock are the holders whose
deadline is live then, and the checks of the scripts are statements about such members.
The clock of an observation may be any that is not earlier than the last call.

* `live_member_iff` — the members Redis would count are the holders with a
  live deadline.
* `turnedDown_read_iff`, `turnedDown_write_iff`, `turnedDown_renew_iff` — the checks, in
  terms of holders.
* `rwRun_refines` — in every reachable state and at every later clock the
  replies, and the live members of every key, are those of the table; so stale
  members, the key's own expiry and the leases of other readers show nowhere.
-/

namespace RLock.Scripts

open KeyedStore LazyTable RLock.Redis

-- ---------------------------------------------------------------------------
-- Live members
-- ---------------------------------------------------------------------------

/-- A member outside the cleanup range is a holder whose deadline is live. -/
theorem live_member_iff {now : Int} {v : Slot} (hSound : Sound v) {m : Member} {sc : Score} :
    (scoreAt now v m = some sc ∧ outside now sc = true) ↔
      ∃ kind token d, kind ≠ .mutex ∧ m = holder kind token ∧ sc = signed kind d ∧
        keeps kind token v d ∧ now < d := by
  constructor
  · rintro ⟨hs, hOut⟩
    rw [outside_iff] at hOut
    -- a member that is seen is stored in a key that has not expired
    have hStored : evict now v = v ∧ storedScore v m = some sc := by
      rw [scoreAt_eq] at hs
      rcases hv : evict now v with _ | e
      · rw [hv] at hs
        cases hs
      · rw [hv] at hs
        rw [(evict_eq_some.mp hv).1]
        exact ⟨rfl, hs⟩
    obtain ⟨hEvict, hs⟩ := hStored
    obtain ⟨history, hHeld⟩ := hSound
    cases hHeld with
    | absent => cases hs
    | mutex hLast => cases hs
    | @writer z token d hOnly hPos hGrant =>
      obtain ⟨rfl, rfl⟩ := hOnly _ _ hs
      simp only [Score.ofInt_lt_ofInt] at hOut
      exact ⟨.write, token, d, by decide, rfl, rfl, hs, by omega⟩
    | @readers z expire hAll hGrant =>
      obtain ⟨token, d, rfl, rfl, hPos, -⟩ := hAll _ _ hs
      simp only [Score.ofInt_lt_ofInt] at hOut
      exact ⟨.read, token, d, by decide, rfl, rfl, hs, by omega⟩
  · rintro ⟨kind, token, d, hKind, rfl, rfl, hKeeps, hNow⟩
    rw [scoreAt_eq, hSound.evict_eq hKeeps hNow.le]
    exact ⟨(keeps_of_ne_mutex hKind).mp hKeeps, outside_signed hKind hNow⟩

/-- A writer is turned down exactly when some reader or writer is live. -/
theorem turnedDown_write_iff {now : Int} {token : String} {v : Slot} (hSound : Sound v) :
    turnedDown .acquire .write now token v ↔
      ∃ kind owner d, kind ≠ .mutex ∧ keeps kind owner v d ∧ now < d := by
  constructor
  · rintro ⟨m, sc, hs⟩
    obtain ⟨kind, owner, d, hKind, -, -, hKeeps, hNow⟩ := (live_member_iff hSound).mp hs
    exact ⟨kind, owner, d, hKind, hKeeps, hNow⟩
  · rintro ⟨kind, owner, d, hKind, hKeeps, hNow⟩
    exact ⟨_, _, (live_member_iff hSound).mpr ⟨kind, owner, d, hKind, rfl, rfl, hKeeps, hNow⟩⟩

/-- A reader is turned down exactly when some writer is live. -/
theorem turnedDown_read_iff {now : Int} {token : String} {v : Slot} (hSound : Sound v) :
    turnedDown .acquire .read now token v ↔ ∃ owner d, keeps .write owner v d ∧ now < d := by
  constructor
  · rintro ⟨m, sc, hs, hOut, hNeg⟩
    obtain ⟨kind, owner, d, hKind, -, rfl, hKeeps, hNow⟩ :=
      (live_member_iff hSound).mp ⟨hs, hOut⟩
    -- the sign of the score tells the writer, since deadlines are positive
    have hPos := hSound.deadline_pos hKind hKeeps
    cases kind with
    | mutex => exact absurd rfl hKind
    | write => exact ⟨owner, d, hKeeps, hNow⟩
    | read =>
      simp only [signed, Score.ofInt_lt_ofInt] at hNeg
      omega
  · rintro ⟨owner, d, hKeeps, hNow⟩
    have hPos := hSound.deadline_pos (by decide) hKeeps
    obtain ⟨hs, hOut⟩ :=
      (live_member_iff hSound).mpr ⟨.write, owner, d, by decide, rfl, rfl, hKeeps, hNow⟩
    refine ⟨_, _, hs, hOut, ?_⟩
    simp only [signed, Score.ofInt_lt_ofInt]
    omega

/-- A renewal passes a slot exactly when its own deadline there is live. -/
theorem turnedDown_renew_iff {kind : Kind} (hKind : kind ≠ .mutex) {now : Int} {token : String}
    {v : Slot} (hSound : Sound v) :
    turnedDown .renew kind now token v ↔ ∀ d, keeps kind token v d → d ≤ now := by
  constructor
  · intro hDown d hKeeps
    by_contra hNow
    have hLive := (live_member_iff hSound).mpr
      ⟨kind, token, d, hKind, rfl, rfl, hKeeps, not_le.mp hNow⟩
    cases kind with
    | mutex => exact hKind rfl
    | read =>
      have hLe := hDown _ hLive.1
      simp only [signed, Score.ofInt_le_ofInt] at hLe
      exact hNow hLe
    | write =>
      have hLe := hDown _ hLive.1
      simp only [signed, Score.ofInt_le_ofInt] at hLe
      omega
  · intro hAll
    -- a surviving own member would be a live deadline of the caller
    have hNone : ∀ sc, scoreAt now v (holder kind token) = some sc → outside now sc = false := by
      intro sc hs
      by_contra hOut
      obtain ⟨kind', token', d, hKind', hm, -, hKeeps, hNow⟩ :=
        (live_member_iff hSound).mp ⟨hs, Bool.not_eq_false _ ▸ hOut⟩
      obtain ⟨rfl, rfl⟩ := holder_inj hKind hKind' hm
      exact absurd (hAll d hKeeps) (not_le.mpr hNow)
    cases kind with
    | mutex => exact absurd rfl hKind
    | read =>
      intro sc hs
      have hIn := hNone sc hs
      rw [← Bool.not_eq_true, outside_iff, not_or, not_lt, not_lt] at hIn
      exact hIn.2
    | write =>
      intro sc hs
      have hIn := hNone sc hs
      rw [← Bool.not_eq_true, outside_iff, not_or, not_lt, not_lt] at hIn
      exact hIn.1

-- ---------------------------------------------------------------------------
-- Runs
-- ---------------------------------------------------------------------------

/-- The keyspace and the table after a run of read-write scripts, the last one
at clock `c`; in between the expiry cycle may visit any key. -/
inductive RwRun : Clock → Keyspace → LeaseTable → Prop
  | start (c : Clock) : RwRun c (fun _ => none) (fun _ => none)
  | call {c c' : Clock} {s : Keyspace} {table : LeaseTable} (hRun : RwRun c s table)
      (hClock : c.us ≤ c'.us) (call : Call) (hKind : call.kind ≠ .mutex) :
      RwRun c' ((call.exec c').run s).2 (table.after c' call ((call.exec c').run s).1)
  | expireCycle {c c' : Clock} {s : Keyspace} {table : LeaseTable} (hRun : RwRun c s table)
      (hClock : c.us ≤ c'.us) (key : Key) :
      RwRun c' (Function.update s key (evict c'.ms (s key))) table

/-- What a run keeps. -/
structure RwInv (c : Clock) (s : Keyspace) (table : LeaseTable) : Prop where
  sound : ∀ k, Sound (s k)
  copy : Represents (liveAt c.ms) (stored s) table
  kinds : ∀ i d, table i = some d → i.kind ≠ .mutex

/-- A call of the read-write scripts enters no mutex into the table. -/
theorem after_kind {table : LeaseTable} (h : ∀ i d, table i = some d → i.kind ≠ .mutex) {c : Clock}
    {call : Call} (hKind : call.kind ≠ .mutex) (reply : Except RedisError Int) (i : LeaseId)
    (d : Int) (hAfter : table.after c call reply i = some d) : i.kind ≠ .mutex := by
  unfold LeaseTable.after at hAfter
  split at hAfter
  · dsimp only at hAfter
    split at hAfter
    · rename_i hTouch
      rwa [hTouch.2.1]
    · exact h i d hAfter
  · exact h i d hAfter

/-- Every run keeps the invariant, by induction on its steps. -/
theorem rwRun_inv {c : Clock} {s : Keyspace} {table : LeaseTable} (h : RwRun c s table) :
    RwInv c s table := by
  induction h with
  | start c =>
    refine ⟨fun _ => ⟨[], .absent⟩, ?_, fun _ _ hSome => nomatch hSome⟩
    exact represents_empty.purge (fun i d hs => (keeps_ne_none hs).elim) fun i d hs => hs.elim
  | call hRun hClock call hKind ih =>
    exact ⟨sound_call ih.sound _ call, represents_call ih.sound ih.copy (Clock.ms_mono hClock) call,
      after_kind ih.kinds hKind _⟩
  | @expireCycle c c' s table hRun hClock key ih =>
    have hCopy : Represents (liveAt c'.ms) (stored s) table :=
      ih.copy.weaken fun i d hLive => liveAt_mono (Clock.ms_mono hClock) hLive
    exact ⟨sound_expireCycle c'.ms key ih.sound, represents_expireCycle key ih.sound hCopy,
      ih.kinds⟩

-- ---------------------------------------------------------------------------
-- Observations
-- ---------------------------------------------------------------------------

/-- The reply of an acquire or renew script. -/
def reply (op : Op) (kind : Kind) (c : Clock) (keys : List Key) (token : String)
    (rawTtl : Option String) (s : Keyspace) : Except RedisError Int :=
  ((attemptScript op kind c keys token rawTtl).run s).1

theorem RwInv.sortedSetSlot {c : Clock} {s : Keyspace} {table : LeaseTable} (h : RwInv c s table)
    (now : Int) (k : Key) : SortedSetSlot now (s k) := by
  obtain ⟨history, hHeld⟩ := h.sound k
  have hNoString : ∀ token d, s k ≠ some ⟨.string token, some d⟩ := fun token d hs =>
    h.kinds ⟨k, .mutex, token⟩ d (h.copy.sound ⟨k, .mutex, token⟩ d hs) rfl
  rcases hv : evict now (s k) with _ | e
  · exact Or.inl hv
  · have hs := (evict_eq_some.mp hv).1
    rw [hs] at hHeld hNoString
    cases hHeld with
    | mutex hLast => exact absurd rfl (hNoString _ _)
    | writer hOnly hPos hGrant => exact Or.inr ⟨_, _, hv⟩
    | readers hAll hGrant => exact Or.inr ⟨_, _, hv⟩

/-- A read-write deadline that has not come is in the slot exactly when it is in
the table. -/
theorem RwInv.keeps_iff {c : Clock} {s : Keyspace} {table : LeaseTable} (h : RwInv c s table)
    {i : LeaseId} {d : Int} (hNow : c.ms < d) :
    keeps i.kind i.token (s i.key) d ↔ table i = some d := by
  refine h.copy.live_iff (?_ : liveAt c.ms i d)
  unfold liveAt
  split
  · exact hNow.le
  · exact hNow

/-- What the table says about the next reply. -/
def allows (op : Op) (kind : Kind) (now : Int) (keys : List Key) (token : String)
    (table : LeaseTable) : Prop :=
  match op, kind with
  | .acquire, .read => ∀ i d, i.key ∈ keys → i.kind = .write → table i = some d → d ≤ now
  | .acquire, _ => ∀ i d, i.key ∈ keys → table i = some d → d ≤ now
  | .renew, kind => ∀ k ∈ keys, ∃ d, table ⟨k, kind, token⟩ = some d ∧ now < d

/-- The check loop passes exactly when the table allows the call. -/
theorem RwInv.allows_iff {c : Clock} {s : Keyspace} {table : LeaseTable} (h : RwInv c s table)
    {op : Op} {kind : Kind} (hKind : kind ≠ .mutex) {keys : List Key} {token : String} :
    (∀ k ∈ keys, ¬ turnedDown op kind c.ms token (s k)) ↔
      allows op kind c.ms keys token table := by
  cases op with
  | renew =>
    refine forall₂_congr fun k hk => ?_
    rw [turnedDown_renew_iff hKind (h.sound k)]
    push Not
    refine exists_congr fun d => ⟨fun hd => ⟨?_, hd.2⟩, fun hd => ⟨?_, hd.2⟩⟩
    · exact (h.keeps_iff (i := ⟨k, kind, token⟩) hd.2).mp hd.1
    · exact (h.keeps_iff (i := ⟨k, kind, token⟩) hd.2).mpr hd.1
  | acquire =>
    cases kind with
    | mutex => exact absurd rfl hKind
    | read =>
      constructor
      · intro hUp i d hk hWrite hTable
        by_contra hNow
        refine hUp i.key hk ((turnedDown_read_iff (h.sound _)).mpr ⟨i.token, d, ?_,
          not_le.mp hNow⟩)
        rw [← hWrite]
        exact (h.keeps_iff (not_le.mp hNow)).mpr hTable
      · intro hAll k hk hTurned
        obtain ⟨owner, d, hKeeps, hNow⟩ := (turnedDown_read_iff (h.sound k)).mp hTurned
        have hTable := (h.keeps_iff (i := ⟨k, .write, owner⟩) hNow).mp hKeeps
        exact absurd (hAll ⟨k, .write, owner⟩ d hk rfl hTable) (not_le.mpr hNow)
    | write =>
      constructor
      · intro hUp i d hk hTable
        by_contra hNow
        have hRw := h.kinds i d hTable
        exact hUp i.key hk ((turnedDown_write_iff (h.sound _)).mpr ⟨i.kind, i.token, d, hRw,
          (h.keeps_iff (not_le.mp hNow)).mpr hTable, not_le.mp hNow⟩)
      · intro hAll k hk hTurned
        obtain ⟨kind, owner, d, hRw, hKeeps, hNow⟩ :=
          (turnedDown_write_iff (h.sound k)).mp hTurned
        have hTable := (h.keeps_iff (i := ⟨k, kind, owner⟩) hNow).mp hKeeps
        exact absurd (hAll ⟨k, kind, owner⟩ d hk hTable) (not_le.mpr hNow)

/-- What may be observed of the keyspace at clock `c` is what the table says. -/
structure RefinesTable (c : Clock) (s : Keyspace) (table : LeaseTable) : Prop where
  /-- Every reply is 0 or 1, and 1 exactly when the table allows it. -/
  replies : ∀ op kind keys token rawTtl, kind ≠ .mutex → grantDeadline kind c rawTtl ≠ none →
    (reply op kind c keys token rawTtl s = .ok 0 ∨ reply op kind c keys token rawTtl s = .ok 1) ∧
    (reply op kind c keys token rawTtl s = .ok 1 ↔ allows op kind c.ms keys token table)
  /-- The members Redis counts are the live entries. -/
  members : ∀ k m sc, (scoreAt c.ms (s k) m = some sc ∧ outside c.ms sc = true) ↔
    ∃ kind token d, m = holder kind token ∧ sc = signed kind d ∧
      table ⟨k, kind, token⟩ = some d ∧ c.ms < d

/-- **The read-write scripts refine the lease table.** In every reachable state,
at every clock from then on. -/
theorem rwRun_refines {c c' : Clock} {s : Keyspace} {table : LeaseTable}
    (hRun : RwRun c s table) (hClock : c.us ≤ c'.us) : RefinesTable c' s table := by
  have hStart := rwRun_inv hRun
  have h : RwInv c' s table :=
    ⟨hStart.sound, hStart.copy.weaken fun i d hLive => liveAt_mono (Clock.ms_mono hClock) hLive,
      hStart.kinds⟩
  refine ⟨fun op kind keys token rawTtl hKind hDeadline => ?_, fun k m sc => ?_⟩
  · obtain ⟨hAnswer, hIff⟩ := (attempt_effect op kind c' keys token rawTtl s).reply_iff hDeadline
      fun k _ => (slotOk_of_ne_mutex hKind).mpr (h.sortedSetSlot c'.ms k)
    exact ⟨hAnswer, hIff.trans (h.allows_iff hKind)⟩
  · rw [live_member_iff (h.sound k)]
    constructor
    · rintro ⟨kind, token, d, hKind, hm, hs, hKeeps, hNow⟩
      exact ⟨kind, token, d, hm, hs, (h.keeps_iff (i := ⟨k, kind, token⟩) hNow).mp hKeeps,
        hNow⟩
    · rintro ⟨kind, token, d, hm, hs, hTable, hNow⟩
      have hKind := h.kinds _ _ hTable
      exact ⟨kind, token, d, hKind, hm, hs,
        (h.keeps_iff (i := ⟨k, kind, token⟩) hNow).mpr hTable, hNow⟩

/-- A read at 5 ms for 10 ms, on a key listed twice. -/
def readerCall : Call := .attempt .acquire .read ["k", "k"] "t" (some "10")

/-- The key is looked at 4 ms after the call. -/
theorem rwRun_refines_reader :
    RefinesTable ⟨9000, by decide, by decide⟩
      ((readerCall.exec ⟨5000, by decide, by decide⟩).run fun _ => none).2
      (LeaseTable.after (fun _ => none) ⟨5000, by decide, by decide⟩ readerCall
        ((readerCall.exec ⟨5000, by decide, by decide⟩).run fun _ => none).1) :=
  rwRun_refines (.call (.start ⟨5000, by decide, by decide⟩) le_rfl readerCall (by decide))
    (by decide)

end RLock.Scripts
