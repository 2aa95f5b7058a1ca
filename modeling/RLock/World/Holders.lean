import RLock.Scripts.Passes
import RLock.World.Conservative

/-!
# RLock — who holds what

The table of leases, read off the history of the server: a request has its keys from its
last grant on until its release is executed. So the answer to every acquisition follows
from the grants that are in force, however many commands of clients that crashed, timed
out or were cancelled are executed late.

Managers and guards do not appear here. What is said is said of the network alone, with
whatever commands it was given, and holds in every world whose network it is; only the
last section speaks of active guards. A key that a request has in the table is in the
store as long as it is live, and the other way round (`honours_iff`), which is how what
the scripts look at becomes a statement about grants.

## Results

* `table_eq` — the lease table is made of the grants in force.
* `acquire_iff` — an acquisition succeeds exactly when no grant in force is in its way;
  nobody has to clean up after a client that is gone.
* `renew_iff` — a renewal succeeds exactly when the request still has all its keys.
* `never_partial` — it has all its keys or none.
* `release_final` — no renewal, however late, brings a released token back.
* `active_exclusive` — two active guards have no key in common, unless both read.
-/

namespace RLock.World

open KeyedStore RLock.Redis RLock.Scripts RLock.Client

variable {ι : Type} [DecidableEq ι] {setup : ι → Setup}

-- ---------------------------------------------------------------------------
-- Grants in force
-- ---------------------------------------------------------------------------

/-- The last grant of a client, unless its release was executed since. -/
def inForce (i : ι) : List (Record ι) → Option (Record ι)
  | [] => none
  | r :: rs =>
    if r.message.client ≠ i then inForce i rs
    else if r.message.command = .release then none
    else if r.reply = .ok 1 then some r
    else inForce i rs

/-- The deadline that a grant of this request gave to its keys. -/
def Setup.deadline (p : Setup) (r : Record ι) : Int := r.clock.ms + p.options.ttlMillis

/-- What the table says about a key of a request. -/
def entryOf (setup : ι → Setup) (rs : List (Record ι)) (i : ι) (k : Key) : Option Int :=
  if k ∈ (setup i).request.target.keys then (inForce i rs).map (setup i).deadline else none

section

variable {rs : List (Record ι)} {r : Record ι} {i : ι}

theorem inForce_other (h : r.message.client ≠ i) : inForce i (r :: rs) = inForce i rs :=
  if_pos h

/-- After its release a client has no grant. -/
theorem inForce_release (h : r.message.client = i) (hRelease : r.message.command = .release) :
    inForce i (r :: rs) = none := by
  unfold inForce
  rw [if_neg (not_not.mpr h), if_pos hRelease]

theorem inForce_attempt (h : r.message.client = i) (hCmd : r.message.command ≠ .release) :
    inForce i (r :: rs) = if r.reply = .ok 1 then some r else inForce i rs := by
  rw [inForce, if_neg (not_not.mpr h), if_neg hCmd]

end

/-- One executed command changes the entries of its own client only, as its last
grant does. -/
theorem entryOf_exec (hTokens : Function.Injective fun i => (setup i).request.uuid) {n : Net ι}
    (hTable : ∀ i k, tableOf setup n.executed ((setup i).entry k) = entryOf setup n.executed i k)
    (m : Message ι) (i : ι) (k : Key) :
    tableOf setup ((network setup).next n (.exec m)).executed ((setup i).entry k) =
      entryOf setup ((network setup).next n (.exec m)).executed i k := by
  show (tableOf setup n.executed).after n.clock ((setup m.client).call m.command)
      (n.run setup m).1 ((setup i).entry k) =
    entryOf setup (⟨m, n.clock, (n.run setup m).1⟩ :: n.executed) i k
  -- a command of its own client, or one that leaves its entries alone
  by_cases hClient : m.client = i
  · subst hClient
    have hOld := hTable m.client k
    by_cases hRelease : m.command = .release
    · have hForce : inForce m.client (⟨m, n.clock, (n.run setup m).1⟩ :: n.executed) = none :=
        inForce_release rfl hRelease
      unfold entryOf
      rw [hForce, hRelease, after_release, hOld]
      unfold entryOf
      split <;> rfl
    · have hForce : inForce m.client (⟨m, n.clock, (n.run setup m).1⟩ :: n.executed) =
          if (n.run setup m).1 = .ok 1 then some ⟨m, n.clock, (n.run setup m).1⟩
          else inForce m.client n.executed := inForce_attempt rfl hRelease
      unfold Net.run at hForce ⊢
      unfold entryOf
      rw [hForce, after_attempt hRelease, hOld]
      unfold entryOf
      by_cases hk : k ∈ (setup m.client).request.target.keys
      · rw [if_pos hk, if_pos hk]
        split
        · rename_i hGrant
          rw [if_pos hGrant.1]
          rfl
        · rename_i hGrant
          rw [if_neg fun hOne => hGrant ⟨hOne, hk⟩]
      · rw [if_neg hk, if_neg hk, if_neg fun hGrant => hk hGrant.2]
  · rw [after_other fun hToken => hClient (hTokens hToken).symm, hTable i k]
    have hForce : inForce i (⟨m, n.clock, (n.run setup m).1⟩ :: n.executed) =
        inForce i n.executed := inForce_other hClient
    unfold entryOf
    rw [hForce]

/-- **The lease table is made of the grants in force**, on the keys of the requests.
-/
theorem table_eq (hTokens : Function.Injective fun i => (setup i).request.uuid) {n : Net ι}
    (hn : (network setup).Reachable n) (i : ι) (k : Key) :
    tableOf setup n.executed ((setup i).entry k) = entryOf setup n.executed i k := by
  refine Machine.Reachable.invariant
    (I := fun n => ∀ i k, tableOf setup n.executed ((setup i).entry k) =
      entryOf setup n.executed i k) (fun n hInit i k => ?_) (fun n e hTable hEn => ?_) hn i k
  · obtain ⟨c, store, flight, executed⟩ := n
    obtain ⟨rfl, rfl, rfl⟩ := hInit
    show none = entryOf setup [] i k
    unfold entryOf inForce
    split <;> rfl
  · cases e with
    | pass c | send messages | expireCycle key => exact hTable
    | exec m => exact fun i k => entryOf_exec hTokens hTable m i k

-- ---------------------------------------------------------------------------
-- Who holds a key
-- ---------------------------------------------------------------------------

/-- The request has a grant in force on this key whose time is not up. -/
def Honours (setup : ι → Setup) (n : Net ι) (i : ι) (k : Key) : Prop :=
  k ∈ (setup i).request.target.keys ∧ ∃ r, inForce i n.executed = some r ∧
    liveAt n.clock.ms ((setup i).entry k) ((setup i).deadline r)

section

variable {n : Net ι} {i j : ι} {k : Key} {d : Int}

/-- Whoever holds a key is stored there, and the other way round. -/
theorem honours_iff (hTokens : Function.Injective fun i => (setup i).request.uuid)
    (hn : (network setup).Reachable n) :
    Honours setup n i k ↔ k ∈ (setup i).request.target.keys ∧
      ∃ d, keeps (setup i).request.target.kind (setup i).request.uuid (n.store k) d ∧
        liveAt n.clock.ms ((setup i).entry k) d := by
  have hCopy := (netInv_of_reachable hTokens hn).copy
  refine and_congr_right fun hk => ?_
  have hTable := table_eq hTokens hn i k
  unfold entryOf at hTable
  rw [if_pos hk] at hTable
  constructor
  · rintro ⟨r, hForce, hLive⟩
    rw [hForce] at hTable
    exact ⟨_, hCopy.complete _ _ hTable hLive, hLive⟩
  · rintro ⟨d, hKeeps, hLive⟩
    rw [hCopy.sound ((setup i).entry k) d hKeeps, eq_comm, Option.map_eq_some_iff] at hTable
    obtain ⟨r, hForce, rfl⟩ := hTable
    exact ⟨r, hForce, hLive⟩

/-- Whoever is stored at a key has it in his request. -/
theorem exists_holder (hTokens : Function.Injective fun i => (setup i).request.uuid)
    (hn : (network setup).Reachable n) {kind : Kind} {owner : String}
    (hKeeps : keeps kind owner (n.store k) d) :
    ∃ i, k ∈ (setup i).request.target.keys ∧ (setup i).request.target.kind = kind ∧
      (setup i).request.uuid = owner := by
  have hTable := (netInv_of_reachable hTokens hn).copy.sound ⟨k, kind, owner⟩ d hKeeps
  obtain ⟨i, hk, hEntry⟩ := tableOf_origin hTable
  exact ⟨i, hk, (congrArg LeaseId.kind hEntry).symm, (congrArg LeaseId.token hEntry).symm⟩

/-- **An acquisition succeeds** exactly when every holder of its keys reads as it
does. Nobody has to clean up after a client that is gone. -/
theorem acquire_iff (hTokens : Function.Injective fun i => (setup i).request.uuid)
    (hn : (network setup).Reachable n) (j : ι) (start : Int) (hNow : 0 ≤ n.clock.ms)
    (hLe : n.clock.ms + (setup j).options.ttlMillis ≤ Lua.maxSafe)
    (hUse : (setup j).request.target.kind = .mutex → ∀ k ∈ (setup j).request.target.keys,
      ∀ i, k ∈ (setup i).request.target.keys → (setup i).request.target.kind = .mutex) :
    (n.run setup ⟨j, .acquire start⟩).1 = .ok 1 ↔
      ∀ k ∈ (setup j).request.target.keys, ∀ i, Honours setup n i k →
        (setup j).request.target.kind = .read ∧ (setup i).request.target.kind = .read := by
  have hSound := (netInv_of_reachable hTokens hn).sound
  have hOp : (Command.acquire start).op = some .acquire := rfl
  rw [run_one_iff hOp hNow hLe]
  refine forall₂_congr fun k hk => ?_
  -- a mutex meets mutexes only, since others do not use its keys
  have hOnly : (setup j).request.target.kind = .mutex → ∀ kind' owner d,
      keeps kind' owner (n.store k) d → kind' = .mutex := by
    intro hMutex kind' owner d hKeeps
    obtain ⟨i, hk', rfl, -⟩ := exists_holder hTokens hn hKeeps
    exact hUse hMutex k hk i hk'
  rw [acquire_passes_iff k (hSound k) hOnly]
  constructor
  · intro hFree i hHonours
    obtain ⟨-, d, hKeeps, hLive⟩ := (honours_iff hTokens hn).mp hHonours
    by_contra hConflict
    exact hFree _ _ d hKeeps hConflict hLive
  · intro hAll kind' owner d hKeeps hConflict hLive
    obtain ⟨i, hk', rfl, rfl⟩ := exists_holder hTokens hn hKeeps
    exact hConflict (hAll i ((honours_iff hTokens hn).mpr ⟨hk', d, hKeeps, hLive⟩))

/-- The first of two writers for one key has it, just before its lease ends. -/
theorem writers_reachable :
    ((world (rivals (.write "k"))).restrict
        fun w e => ∀ i, Aligned (rivals (.write "k")) i w e).Reachable
      (leased (.write "k") early lastOfEarly) := by
  refine leased_reachable (fun _ _ _ => trivial) (fun _ _ => trivial) ?_ (by decide) (by decide)
    (by decide) smooth_early
  rintro w hClock i - op start - ⟨⟩ - -
  rw [hClock]
  decide

/-- The second writer, while the first has the key. -/
theorem acquire_iff_writers :
    (Net.run (rivals (.write "k")) (leased (.write "k") early lastOfEarly).1
        ⟨false, .acquire 0⟩).1 = .ok 1 ↔
      ∀ k ∈ ["k"], ∀ i,
        Honours (rivals (.write "k")) (leased (.write "k") early lastOfEarly).1 i k →
        Kind.write = .read ∧ Kind.write = .read :=
  acquire_iff (rivals_tokens _) (Machine.Reachable.shared writers_reachable.of_restrict) false 0
    (by decide) (by decide) (by rintro ⟨⟩)

/-- **A renewal succeeds** exactly when the request still holds all its keys. -/
theorem renew_iff (hTokens : Function.Injective fun i => (setup i).request.uuid)
    (hn : (network setup).Reachable n) (j : ι) (start : Int) (hNow : 0 ≤ n.clock.ms)
    (hLe : n.clock.ms + (setup j).options.ttlMillis ≤ Lua.maxSafe) :
    (n.run setup ⟨j, .renew start⟩).1 = .ok 1 ↔
      ∀ k ∈ (setup j).request.target.keys, Honours setup n j k := by
  have hSound := (netInv_of_reachable hTokens hn).sound
  have hOp : (Command.renew start).op = some .renew := rfl
  rw [run_one_iff hOp hNow hLe]
  refine forall₂_congr fun k hk => ?_
  rw [renew_passes_iff k (hSound k), honours_iff hTokens hn]
  exact ⟨fun h => ⟨hk, h⟩, fun h => h.2⟩

/-- The first one, which may still renew. -/
theorem renew_iff_writers :
    (Net.run (rivals (.write "k")) (leased (.write "k") early lastOfEarly).1
        ⟨true, .renew 0⟩).1 = .ok 1 ↔
      ∀ k ∈ ["k"], Honours (rivals (.write "k")) (leased (.write "k") early lastOfEarly).1 true k :=
  renew_iff (rivals_tokens _) (Machine.Reachable.shared writers_reachable.of_restrict) true 0
    (by decide) (by decide)

end

/-- What the server still honours on one key of the request it has on every key, with
the same deadline. -/
def Whole (setup : ι → Setup) (n : Net ι) (i : ι) : Prop :=
  ∀ k ∈ (setup i).request.target.keys, ∀ k' ∈ (setup i).request.target.keys, ∀ d,
    keeps (setup i).request.target.kind (setup i).request.uuid (n.store k) d →
    liveAt n.clock.ms ((setup i).entry k) d →
    keeps (setup i).request.target.kind (setup i).request.uuid (n.store k') d

/-- **A lock is never held in part.** -/
theorem never_partial (hTokens : Function.Injective fun i => (setup i).request.uuid)
    {n : Net ι} (hn : (network setup).Reachable n) (i : ι) : Whole setup n i := by
  intro k hk k' hk' d hKeeps hLive
  have hCopy := (netInv_of_reachable hTokens hn).copy
  have hTable := hCopy.sound ((setup i).entry k) d hKeeps
  rw [table_eq hTokens hn] at hTable
  -- both keys have the entry of the same grant
  have hSame : entryOf setup n.executed i k' = some d := by
    unfold entryOf at hTable ⊢
    rw [if_pos hk] at hTable
    rwa [if_pos hk']
  exact hCopy.complete ((setup i).entry k') d ((table_eq hTokens hn i k').trans hSame) hLive

/-- A writer of two keys. -/
theorem never_partial_writers :
    Whole (rivals (.multipleWrite ["k", "l"]))
      (leased (.multipleWrite ["k", "l"]) early lastOfEarly).1 true := by
  have hReach : ((world (rivals (.multipleWrite ["k", "l"]))).restrict fun _ _ => True).Reachable
      (leased (.multipleWrite ["k", "l"]) early lastOfEarly) :=
    leased_reachable (fun _ _ => trivial) (fun _ => trivial) (fun _ _ => trivial) (by decide)
      (by decide) (by decide) smooth_early
  exact never_partial (rivals_tokens _) (Machine.Reachable.shared hReach.of_restrict) true

-- ---------------------------------------------------------------------------
-- After the release
-- ---------------------------------------------------------------------------

/-- No acquire of the client is executed any more. -/
def Quits (i : ι) (_ : Net ι) : NetEvent ι → Prop
  | .exec m => m.client = i → ∀ start, m.command ≠ .acquire start
  | _ => True

/-- The request has no entry for its keys. -/
def Forgotten (setup : ι → Setup) (i : ι) (n : Net ι) : Prop :=
  ∀ k ∈ (setup i).request.target.keys, tableOf setup n.executed ((setup i).entry k) = none

/-- An executed release is forgotten at once. -/
theorem forgotten_release (n : Net ι) (i : ι) :
    Forgotten setup i ((network setup).next n (.exec ⟨i, .release⟩)) := by
  intro k hk
  show (tableOf setup n.executed).after n.clock ((setup i).call .release) _ _ = none
  rw [after_release, if_pos hk]

/-- A renewal of a forgotten request is refused, so it stays forgotten. -/
theorem Forgotten.step (hTokens : Function.Injective fun i => (setup i).request.uuid) {n : Net ι}
    {i : ι} (hn : (network setup).Reachable n) (h : Forgotten setup i n) {e : NetEvent ι}
    (hQuits : Quits i n e) : Forgotten setup i ((network setup).next n e) := by
  cases e with
  | pass c | send messages | expireCycle key => exact h
  | exec m =>
    intro k hk
    show (tableOf setup n.executed).after n.clock ((setup m.client).call m.command)
      (n.run setup m).1 ((setup i).entry k) = none
    by_cases hClient : m.client = i
    · obtain ⟨client, cmd⟩ := m
      change client = i at hClient
      subst hClient
      cases cmd with
      | acquire start => exact absurd rfl (hQuits rfl start)
      | release => rw [after_release, if_pos hk]
      | renew start =>
        -- a renewal finds no entry in the store, so it is refused
        have hRefused : (n.run setup ⟨client, .renew start⟩).1 ≠ .ok 1 := by
          intro hOne
          have hNet := netInv_of_reachable hTokens hn
          have hOp : (Command.renew start).op = some .renew := rfl
          obtain ⟨d, -, -, hUp⟩ := ((setup client).request.attempted
            (setup client).options.ttlArg hOp n.clock n.store).of_one hOne
          obtain ⟨d, hKeeps, -⟩ := (renew_passes_iff k (hNet.sound k)).mp (hUp k hk)
          have hTable := hNet.copy.sound ((setup client).entry k) d hKeeps
          rw [h k hk] at hTable
          cases hTable
        unfold Net.run at hRefused ⊢
        rw [after_attempt (fun hNo => by cases hNo), if_neg fun hGrant => hRefused hGrant.1]
        exact h k hk
    · rw [after_other fun hToken => hClient (hTokens hToken).symm]
      exact h k hk

/-- The server stores the request on none of its keys. -/
def Unstored (setup : ι → Setup) (i : ι) (n : Net ι) : Prop :=
  ∀ k ∈ (setup i).request.target.keys, ∀ d,
    ¬ keeps (setup i).request.target.kind (setup i).request.uuid (n.store k) d

/-- **A release is final**: once it was executed, the token comes back to no key
unless an acquire of the same client is executed after it; renewals do not bring it
back, however late they are executed. -/
theorem release_final (hTokens : Function.Injective fun i => (setup i).request.uuid)
    {n n' : Net ι} (hn : (network setup).Reachable n) {i : ι}
    (hFlight : ⟨i, .release⟩ ∈ n.flight)
    (hRun : ((network setup).restrict (Quits i)).Steps
      ((network setup).next n (.exec ⟨i, .release⟩)) n') : Unstored setup i n' := by
  -- the request is forgotten with the release, and stays so
  have hAfter : (network setup).Reachable n' ∧ Forgotten setup i n' := by
    refine hRun.invariant (I := fun n => (network setup).Reachable n ∧ Forgotten setup i n)
      ⟨hn.step _ hFlight, forgotten_release n i⟩ fun n e h hEn => ?_
    exact ⟨h.1.step e hEn.1, h.2.step hTokens h.1 hEn.2⟩
  intro k hk d hKeeps
  have hTable := (netInv_of_reachable hTokens hAfter.1).copy.sound ((setup i).entry k) d hKeeps
  rw [hAfter.2 k hk] at hTable
  cases hTable

/-- The first writer has sent a release and a renewal. -/
def leaving : Net Bool :=
  (network (rivals (.write "k"))).next (leased (.write "k") early lastOfEarly).1
    (.send [⟨true, .renew 0⟩, ⟨true, .release⟩])

/-- Its release was executed, and after it the renewal. -/
def left : Net Bool :=
  (network (rivals (.write "k"))).next
    ((network (rivals (.write "k"))).next leaving (.exec ⟨true, .release⟩))
    (.exec ⟨true, .renew 0⟩)

/-- The late renewal does not bring the writer back. -/
theorem release_final_leaving : Unstored (rivals (.write "k")) true left := by
  have hNet := Machine.Reachable.shared writers_reachable.of_restrict
  have hLeaving : (network (rivals (.write "k"))).Reachable leaving := hNet.step (.send _) trivial
  have hSent : (⟨true, .release⟩ : Message Bool) ∈ leaving.flight := by decide
  have hRenew : ((network (rivals (.write "k"))).restrict (Quits true)).enabled
      ((network (rivals (.write "k"))).next leaving (.exec ⟨true, .release⟩))
      (.exec ⟨true, .renew 0⟩) := by
    refine ⟨?_, ?_⟩
    · show (⟨true, .renew 0⟩ : Message Bool) ∈ leaving.flight.erase ⟨true, .release⟩
      decide
    · rintro - start ⟨⟩
  have hRun : ((network (rivals (.write "k"))).restrict (Quits true)).Steps
      ((network (rivals (.write "k"))).next leaving (.exec ⟨true, .release⟩)) left :=
    .step .refl _ hRenew
  exact release_final (rivals_tokens _) hLeaving hSent hRun

-- ---------------------------------------------------------------------------
-- Active guards
-- ---------------------------------------------------------------------------

section

variable {w : State ι}

/-- An active guard is stored at all its keys, if its own grants were aligned. -/
theorem keeps_of_active (hTokens : Function.Injective fun i => (setup i).request.uuid) {i : ι}
    (hw : ((world setup).restrict (Aligned setup i)).Reachable w) (hActive : Active w i)
    {k : Key} (hk : k ∈ (setup i).request.target.keys) :
    ∃ d, keeps (setup i).request.target.kind (setup i).request.uuid (w.1.store k) d := by
  obtain ⟨r, start, hConfirmed⟩ := confirmed hw.of_restrict hActive
  have hLive : liveAt w.1.clock.ms ((setup i).entry k)
      (r.clock.ms + (setup i).options.ttlMillis) := by
    -- a mutex is kept longer than a member
    by_cases hKind : (setup i).request.target.kind = .mutex
    · unfold liveAt Setup.entry
      rw [hKind]
      exact hConfirmed.ms_le
    · refine (liveAt_of_ne_mutex hKind).mpr (hConfirmed.ms_lt ?_)
      exact grantsAligned_of_reachable hw r hConfirmed.mem hConfirmed.client hConfirmed.granted
        hConfirmed.attempt hKind start hConfirmed.stamp
  obtain ⟨d, -, hKeeps⟩ := kept_of_active hTokens hw.of_restrict hConfirmed hk hLive
  exact ⟨d, hKeeps⟩

/-- Two active guards share a key only if both read. -/
def Exclusive (setup : ι → Setup) (w : State ι) : Prop :=
  ∀ i j, Active w i → Active w j → i ≠ j →
    ∀ k ∈ (setup i).request.target.keys, k ∈ (setup j).request.target.keys →
      (setup i).request.target.kind = .read ∧ (setup j).request.target.kind = .read

/-- **Active guards exclude each other**, mutexes, readers and writers alike, in every
run whose grants of read-write requests are aligned. -/
theorem active_exclusive (hTokens : Function.Injective fun i => (setup i).request.uuid)
    (hw : ((world setup).restrict fun w e => ∀ i, Aligned setup i w e).Reachable w) :
    Exclusive setup w := by
  have hOwn : ∀ i, ((world setup).restrict (Aligned setup i)).Reachable w := fun i =>
    hw.weaken fun _ _ hAll => hAll i
  intro i j hi hj hNe k hk hk'
  obtain ⟨d, hKeeps⟩ := keeps_of_active hTokens (hOwn i) hi hk
  obtain ⟨d', hKeeps'⟩ := keeps_of_active hTokens (hOwn j) hj hk'
  have hSound := (netInv_of_world hTokens hw.of_restrict).sound k
  -- both are stored at the key, and a sound slot holds both only if both read
  rcases hSound.compatible hKeeps hKeeps' with hSame | hRead
  · exact absurd (hTokens hSame) hNe
  · exact hRead

/-- The two writers of the key exclude each other. -/
theorem active_exclusive_writers :
    Exclusive (rivals (.write "k")) (leased (.write "k") early lastOfEarly) :=
  active_exclusive (rivals_tokens _) writers_reachable

end

end RLock.World
