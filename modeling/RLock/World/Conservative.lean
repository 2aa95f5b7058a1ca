import RLock.Scripts.Passes
import RLock.World.Clients

/-!
# RLock — conservative leases

What `Lease::state()` promises: while a guard that was handed out is active, the server
still counts its token on every key. For mutexes this holds in every run, since Redis
keeps a key through the millisecond of its expiry. A read-write script counts a member
only up to the millisecond of its deadline, and it floors the time it grants from; so a
guard may be active for up to a millisecond longer than the server counts it. That needs
a grant in the same millisecond as its stamp.

Everything is a comparison of two clocks. The lease began at its stamp, which was read
before the command was executed, and ends a TTL later; the server counts from the
millisecond of the execution, rounded down. So when the client still finds its lease
active, the server's millisecond is at most the deadline (`Confirmed.ms_le`), and less
than that if the millisecond of the grant began with or after the lease
(`Confirmed.ms_lt`). A grant that was stamped within the millisecond of its execution is
not `Aligned`, and the last section shows what comes of it.

## Results

* `Confirmed.ms_lt`, `kept_of_active` — the server keeps what backs an active guard, up
  to the deadline that its own clock gave.
* `mutex_conservative` — mutex guards are conservative and exclude each other.
* `rw_conservative` — so is a read-write guard in every run that grants its own requests
  `Aligned`; those of other clients do not matter.
* `rw_not_conservative` — a run with a grant that is not aligned, in which a second
  writer gets the key of an active one.
-/

namespace RLock.World

open KeyedStore RLock.Redis RLock.Scripts RLock.Client

variable {ι : Type} {setup : ι → Setup} {w : State ι} {i : ι}

-- ---------------------------------------------------------------------------
-- Deadlines
-- ---------------------------------------------------------------------------

section

variable {p : Setup} {r : Record ι} {start : Int}

/-- The millisecond clock has not passed the deadline of the grant. -/
theorem Confirmed.ms_le (h : Confirmed p w i r start) :
    w.1.clock.ms ≤ r.clock.ms + p.options.ttlMillis := by
  have hAfter := h.after
  have hInTime := h.inTime
  -- both clocks are microseconds in the end
  unfold instant fromMillis Clock.ms at *
  omega

/-- It has not even reached it, if the millisecond of the grant began with or after
the lease. -/
theorem Confirmed.ms_lt (h : Confirmed p w i r start) (hStart : start ≤ r.clock.ms * 1000000) :
    w.1.clock.ms < r.clock.ms + p.options.ttlMillis := by
  have hInTime := h.inTime
  -- the lease ends within its last millisecond, not after it
  unfold instant fromMillis Clock.ms at *
  omega

end

-- ---------------------------------------------------------------------------
-- What the server makes of a read-write lock
-- ---------------------------------------------------------------------------

/-- The check loop of an attempt with accepted numbers passes all its keys. -/
def Passes (p : Setup) (n : Net ι) (cmd : Command) (op : Op) : Prop :=
  (p.call cmd).deadline n.clock ≠ none ∧
    ∀ k ∈ p.request.target.keys, SlotOk op p.request.target.kind n.clock.ms (n.store k) ∧
      ¬ turnedDown op p.request.target.kind n.clock.ms p.request.uuid (n.store k)

/-- What the server granted had passed its check loop. -/
theorem passes_of_granted {p : Setup} {n : Net ι} {cmd : Command} {op : Op}
    (hOp : cmd.op = some op) (hOne : (((p.call cmd).exec n.clock).run n.store).1 = .ok 1) :
    Passes p n cmd op := by
  obtain ⟨d, hDeadline, -, hUp⟩ :=
    (p.request.attempted p.options.ttlArg hOp n.clock n.store).of_one hOne
  refine ⟨?_, hUp⟩
  show (p.request.call p.options.ttlArg cmd).deadline n.clock ≠ none
  rw [hDeadline]
  exact Option.some_ne_none d

/-- The server counts the token as a live holder of every key, so that no acquire
script it conflicts with can succeed now. -/
structure Counted (p : Setup) (n : Net ι) : Prop where
  holder : ∀ k ∈ p.request.target.keys, ∃ d,
    scoreAt n.clock.ms (n.store k) (holder p.request.target.kind p.request.uuid) =
      some (signed p.request.target.kind d) ∧ n.clock.ms < d
  excludes : ∀ kind keys token rawTtl, ¬ (kind = .read ∧ p.request.target.kind = .read) →
    (∃ k ∈ p.request.target.keys, k ∈ keys) →
      ((acquireScript kind n.clock keys token rawTtl).run n.store).1 ≠ .ok 1

/-- The server counts a holder whose deadlines have not come. -/
theorem counted_of_keeps {p : Setup} {n : Net ι} (hSound : ∀ k, Sound (n.store k))
    (hKind : p.request.target.kind ≠ .mutex)
    (hKeeps : ∀ k ∈ p.request.target.keys, ∃ d, n.clock.ms < d ∧
      keeps p.request.target.kind p.request.uuid (n.store k) d) : Counted p n where
  holder k hk := by
    obtain ⟨d, hNow, hKeeps⟩ := hKeeps k hk
    refine ⟨d, ?_, hNow⟩
    rw [scoreAt_eq, (hSound k).evict_eq hKeeps hNow.le]
    exact (keeps_of_ne_mutex hKind).mp hKeeps
  excludes kind keys token rawTtl hConflict hShared hOne := by
    obtain ⟨k, hk, hk'⟩ := hShared
    obtain ⟨d, hNow, hKeeps⟩ := hKeeps k hk
    -- a live holder it conflicts with turns it down
    have hDown : turnedDown .acquire kind n.clock.ms token (n.store k) :=
      turnedDown_of_live (hSound k) hKind hKeeps hNow hConflict
    obtain ⟨-, -, -, hUp⟩ :=
      (attempt_effect .acquire kind n.clock keys token rawTtl n.store).of_one hOne
    exact (hUp k hk').2 hDown

-- ---------------------------------------------------------------------------
-- What backs an active guard
-- ---------------------------------------------------------------------------

variable [DecidableEq ι]

/-- The network of a world is one that can be reached on its own. -/
theorem netInv_of_world (hTokens : Function.Injective fun i => (setup i).request.uuid)
    (hw : (world setup).Reachable w) : NetInv setup w.1 :=
  netInv_of_reachable hTokens (Machine.Reachable.shared hw)

/-- The server keeps what backs an active guard, if the deadline has not passed. -/
theorem kept_of_active {r : Record ι} {start : Int}
    (hTokens : Function.Injective fun i => (setup i).request.uuid)
    (hw : (world setup).Reachable w) (h : Confirmed (setup i) w i r start) {k : Key}
    (hk : k ∈ (setup i).request.target.keys)
    (hLive : liveAt w.1.clock.ms ((setup i).entry k)
      (r.clock.ms + (setup i).options.ttlMillis)) :
    ∃ d, r.clock.ms + (setup i).options.ttlMillis ≤ d ∧
      keeps (setup i).request.target.kind (setup i).request.uuid (w.1.store k) d := by
  have hNet := netInv_of_world hTokens hw
  obtain rfl := h.client
  exact hNet.kept h.mem h.granted h.attempt h.unreleased hk hLive

-- ---------------------------------------------------------------------------
-- A run of two rivals
-- ---------------------------------------------------------------------------

/-- A TTL of 10 ms and no renewal. -/
def brief : AcquireOptions where
  retryInterval := fromMillis 50
  lockTimeout := none
  ttl := fromMillis 10
  renewInterval := none
  ttlPos := by decide
  ttlLe := by decide
  retryPos := by decide
  renewOk := by
    intro interval hMem
    cases hMem

/-- Two requests for the same target. -/
def rivals (t : LockTarget) (i : Bool) : Setup := ⟨⟨t, if i then "a" else "b"⟩, brief, false⟩

theorem rivals_tokens (t : LockTarget) :
    Function.Injective fun i => (rivals t i).request.uuid := by
  intro i j h
  change (if i then "a" else "b") = if j then "a" else "b" at h
  cases i <;> cases j
  · rfl
  · exact absurd h (by decide)
  · exact absurd h (by decide)
  · rfl

/-- Steps of an async client at one moment, each of which finds what it waits for. -/
def moment (now : Int) (es : List Async.Event) : List ClientEvent :=
  es.map fun e => (⟨now, true, true⟩, .inl e)

/-- Each of them reads the same instant. -/
theorem moment_now {now : Int} {es : List Async.Event} : ∀ e ∈ moment now es, e.1.now = now := by
  intro e he
  obtain ⟨e', -, rfl⟩ := List.mem_map.mp he
  rfl

/-- From the call to the command. -/
def asks : List Async.Event := List.replicate 3 (.caller true) ++ List.replicate 5 (.task true)

/-- From the reply to the guard in the hands of the caller. -/
def gets : List Async.Event :=
  .acquireReply .acquired :: List.replicate 6 (.task true) ++ List.replicate 7 (.caller true)

/-- The first client has sent its command. -/
def asking (now : Int) : Acquisition :=
  ((acquisition (rivals (.write "") true)).exec (.inl .initial) (moment now asks)).getD
    (.inl .initial)

/-- It has its guard. -/
def getting (now : Int) : Acquisition :=
  ((acquisition (rivals (.write "") true)).exec (asking now) (moment now gets)).getD
    (.inl .initial)

/-- What the run below needs of the two states. -/
structure Smooth (now : Int) : Prop where
  asks : (acquisition (rivals (.write "") true)).exec (.inl .initial) (moment now asks) =
    some (asking now)
  asked : (asking now).log.filterMap Action.command = [.acquire now]
  unanswered : ∀ x ∈ (asking now).log, x.answer = none
  gets : (acquisition (rivals (.write "") true)).exec (asking now) (moment now gets) =
    some (getting now)
  got : (getting now).log.filterMap Action.command = [.acquire now]
  answered : ∀ x ∈ (getting now).log, x.answer = none ∨ x.answer = some (.acquire now, 1)

/-- Two clients that have not begun. -/
def idle : Bool → Acquisition := fun _ => .inl .initial

/-- The first client acquired its lock at `c`; now it is `c'`. -/
def leased (t : LockTarget) (c c' : Clock) : State Bool :=
  (⟨c', mapOn t.keys (granted t.kind c.ms (c.ms + brief.ttlMillis) "a") fun _ => none, [],
      [⟨⟨true, .acquire (instant c)⟩, c, .ok 1⟩]⟩,
    Function.update idle true (getting (instant c)))

/-- **The run of the first client**: it asks, is granted its lock, gets the reply, and time passes.
-/
theorem leased_reachable {t : LockTarget} {c c' : Clock}
    {P : State Bool → NetEvent Bool ⊕ Bool × ClientEvent → Prop}
    (hFree : ∀ w e, P w (.inr (true, e))) (hPass : ∀ w, P w (.inl (.pass c')))
    (hExec : ∀ w, w.1.clock = c → P w (.inl (.exec ⟨true, .acquire (instant c)⟩)))
    (hNow : 0 ≤ c.ms) (hLe : c.ms + brief.ttlMillis ≤ Lua.maxSafe) (hLater : c.us ≤ c'.us)
    (hSmooth : Smooth (instant c)) :
    ((world (rivals t)).restrict P).Reachable (leased t c c') := by
  have hStart : ((world (rivals t)).restrict P).Reachable
      (⟨c, fun _ => none, [], []⟩, idle) := .init ⟨⟨rfl, rfl, rfl⟩, fun _ => rfl⟩
  -- the command goes out
  obtain ⟨new, hNew, hAsked⟩ := drive hFree hStart moment_now hSmooth.asks
    fun x hx cmd reply hEq =>
      absurd (hEq.symm.trans (hSmooth.unanswered x hx)) (Option.some_ne_none _)
  have hSame : (asking (instant c)).log = new := hNew.trans (List.append_nil new)
  have hSent : messages true new = [⟨true, .acquire (instant c)⟩] := by
    unfold messages
    rw [← hSame, hSmooth.asked]
    rfl
  rw [hSent] at hAsked
  -- and is executed
  have hExecuted := hAsked.step (.inl (.exec ⟨true, .acquire (instant c)⟩))
    ⟨⟨trivial, List.mem_cons_self⟩, hExec _ rfl⟩
  have hRun : Net.run (rivals t) ⟨c, fun _ => none, [⟨true, .acquire (instant c)⟩], []⟩
      ⟨true, .acquire (instant c)⟩ =
        (.ok 1, mapOn t.keys (granted t.kind c.ms (c.ms + brief.ttlMillis) "a") fun _ => none) :=
    run_empty (p := rivals t true) (instant c) hNow hLe
  have hNext : (network (rivals t)).next ⟨c, fun _ => none, [⟨true, .acquire (instant c)⟩], []⟩
      (.exec ⟨true, .acquire (instant c)⟩) = (leased t c c).1 := by
    unfold network leased
    dsimp only
    rw [hRun, List.erase_cons_head]
  have hReach : ((world (rivals t)).restrict P).Reachable ((leased t c c).1,
      Function.update idle true (asking (instant c))) := hNext ▸ hExecuted
  -- the reply comes back
  have hGets : (acquisition (rivals t true)).exec (Function.update idle true
      (asking (instant c)) true) (moment (instant c) gets) = some (getting (instant c)) := by
    rw [Function.update_self]
    exact hSmooth.gets
  obtain ⟨rest, hRest, hGot⟩ := drive hFree hReach moment_now hGets fun x hx cmd reply hEq => by
    rcases hSmooth.answered x hx with hNone | hSome
    · rw [hNone] at hEq
      cases hEq
    · rw [hSome] at hEq
      cases hEq
      exact ⟨_, List.mem_cons_self, rfl, rfl⟩
  dsimp only at hRest hGot
  have hQuiet : messages true rest = [] := by
    have hAll := hSmooth.got
    rw [hRest, Function.update_self, List.filterMap_append, hSmooth.asked] at hAll
    unfold messages
    rw [List.append_left_eq_self.mp hAll]
    rfl
  rw [hQuiet, Function.update_idem] at hGot
  exact hGot.step (.inl (.pass c')) ⟨⟨trivial, hLater⟩, hPass _⟩

theorem leased_store {t : LockTarget} {c c' : Clock} {k : Key} (hk : k ∈ t.keys) :
    (leased t c c').1.store k = granted t.kind c.ms (c.ms + brief.ttlMillis) "a" none := by
  show mapOn t.keys _ (fun _ => none) k = _
  rw [mapOn_of_mem hk]

/-- It has an active guard, if its lease is not over by then. -/
theorem leased_active {t : LockTarget} {c c' : Clock}
    (h : ((getting (instant c)).handed.any fun g => g.lease.stateAt (instant c') = .active) =
      true) : Active (leased t c c') true := by
  obtain ⟨g, hHanded, hActive⟩ := (Option.any_eq_true _ _).mp h
  refine ⟨g, ?_, of_decide_eq_true hActive⟩
  show (Function.update idle true (getting (instant c)) true).handed = some g
  rw [Function.update_self]
  exact hHanded

/-- Everything takes place in the first microsecond. -/
def early : Clock := ⟨0, by decide, by decide⟩

/-- The last microsecond of the lease that began `early`. -/
def lastOfEarly : Clock := ⟨9999, by decide, by decide⟩

/-- It goes well at this time. -/
theorem smooth_early : Smooth (instant early) where
  asks := by decide +kernel
  asked := by decide +kernel
  unanswered := by decide +kernel
  gets := by decide +kernel
  got := by decide +kernel
  answered := by decide +kernel

-- ---------------------------------------------------------------------------
-- Mutexes
-- ---------------------------------------------------------------------------

theorem holds_of_active (hTokens : Function.Injective fun i => (setup i).request.uuid)
    (hw : (world setup).Reachable w) (hActive : Active w i)
    (hMutex : (setup i).request.target.kind = .mutex) {k : Key}
    (hk : k ∈ (setup i).request.target.keys) :
    holds .mutex w.1.clock.ms (setup i).request.uuid (w.1.store k) = true := by
  obtain ⟨r, start, hConfirmed⟩ := confirmed hw hActive
  have hLe := hConfirmed.ms_le
  -- a mutex is live through the millisecond of its deadline
  have hLive : liveAt w.1.clock.ms ((setup i).entry k)
      (r.clock.ms + (setup i).options.ttlMillis) := by
    unfold liveAt Setup.entry
    rw [hMutex]
    exact hLe
  obtain ⟨d, hd, hKeeps⟩ := kept_of_active hTokens hw hConfirmed hk hLive
  rw [hMutex] at hKeeps
  have hSlot : w.1.store k = some ⟨.string (setup i).request.uuid, some d⟩ := hKeeps
  rw [holds_mutex_iff, hSlot]
  exact ⟨some d, evict_of_live (hLe.trans hd)⟩

/-- **Mutex leases are conservative**: an active guard holds all its keys, so two
active guards have no key in common. -/
theorem mutex_conservative (hTokens : Function.Injective fun i => (setup i).request.uuid)
    (hw : (world setup).Reachable w) :
    (∀ i, Active w i → (setup i).request.target.kind = .mutex →
      ∀ k ∈ (setup i).request.target.keys,
        holds .mutex w.1.clock.ms (setup i).request.uuid (w.1.store k) = true) ∧
    ∀ i j, Active w i → Active w j → (setup i).request.target.kind = .mutex →
      (setup j).request.target.kind = .mutex → i ≠ j →
        ∀ k ∈ (setup i).request.target.keys, k ∉ (setup j).request.target.keys := by
  constructor
  · intro i hActive hMutex k hk
    exact holds_of_active hTokens hw hActive hMutex hk
  · intro i j hi hj hMutex hMutex' hNe k hk hk'
    -- the one string at the key would be both of their tokens
    obtain ⟨d, hOwn⟩ := holds_mutex_iff.mp (holds_of_active hTokens hw hi hMutex hk)
    obtain ⟨d', hOther⟩ := holds_mutex_iff.mp (holds_of_active hTokens hw hj hMutex' hk')
    rw [hOwn] at hOther
    simp only [Option.some.injEq, Entry.mk.injEq, Value.string.injEq] at hOther
    exact hNe (hTokens hOther.1)

/-- The first of two rivals for one key, just before its lease ends. -/
theorem mutex_conservative_rivals :
    holds .mutex lastOfEarly.ms "a" ((leased (.single "k") early lastOfEarly).1.store "k") =
      true := by
  have hReach : ((world (rivals (.single "k"))).restrict fun _ _ => True).Reachable
      (leased (.single "k") early lastOfEarly) :=
    leased_reachable (fun _ _ => trivial) (fun _ => trivial) (fun _ _ => trivial) (by decide)
      (by decide) (by decide) smooth_early
  have hActive : Active (leased (.single "k") early lastOfEarly) true :=
    leased_active (by decide +kernel)
  exact (mutex_conservative (rivals_tokens _) hReach.of_restrict).1 true hActive rfl "k"
    List.mem_cons_self

-- ---------------------------------------------------------------------------
-- Readers and writers
-- ---------------------------------------------------------------------------

/-- An attempt of this client that passes is not executed in a millisecond that began
before its stamp. For mutexes nothing is asked. -/
def Aligned (setup : ι → Setup) (i : ι) (w : State ι) : NetEvent ι ⊕ ι × ClientEvent → Prop
  | .inl (.exec m) => m.client = i → ∀ op start, m.command.op = some op →
      m.command.stamp = some start → (setup i).request.target.kind ≠ .mutex →
      Passes (setup i) w.1 m.command op → start ≤ w.1.clock.ms * 1000000
  | _ => True

/-- Every grant that a read-write request of this client got was aligned. -/
def GrantsAligned (setup : ι → Setup) (i : ι) (n : Net ι) : Prop :=
  ∀ r ∈ n.executed, r.message.client = i → r.reply = .ok 1 → r.message.command ≠ .release →
    (setup i).request.target.kind ≠ .mutex →
      ∀ start, r.message.command.stamp = some start → start ≤ r.clock.ms * 1000000

/-- The condition on the steps of a run shows in its history. -/
theorem grantsAligned_of_reachable
    (hw : ((world setup).restrict (Aligned setup i)).Reachable w) : GrantsAligned setup i w.1 := by
  refine Machine.Reachable.invariant (I := fun w => GrantsAligned setup i w.1)
    (fun w hInit => ?_) (fun w e hAligned hEn => ?_) hw
  · have hNone : w.1.executed = [] := hInit.1.2.2
    intro r hr
    rw [hNone] at hr
    cases hr
  · obtain ⟨-, hStep⟩ := hEn
    cases e with
    | inr e => exact hAligned
    | inl e =>
      cases e with
      | pass c | send messages | expireCycle key => exact hAligned
      | exec m =>
        intro r hr hClient hOne hCmd hKind start hStamp
        rcases List.mem_cons.mp hr with rfl | hOld
        · -- what the server granted had passed its check loop
          obtain ⟨op, hOp⟩ := Command.exists_op hCmd
          obtain rfl : m.client = i := hClient
          exact hStep rfl op start hOp hStamp hKind (passes_of_granted hOp hOne)
        · exact hAligned r hOld hClient hOne hCmd hKind start hStamp

/-- **Read-write leases are conservative** in every run that grants the requests of
this client aligned, whatever the others do. -/
theorem rw_conservative (hTokens : Function.Injective fun i => (setup i).request.uuid) (i : ι)
    (hw : ((world setup).restrict (Aligned setup i)).Reachable w) (hActive : Active w i)
    (hKind : (setup i).request.target.kind ≠ .mutex) : Counted (setup i) w.1 := by
  have hReach := hw.of_restrict
  obtain ⟨r, start, hConfirmed⟩ := confirmed hReach hActive
  have hStart : start ≤ r.clock.ms * 1000000 :=
    grantsAligned_of_reachable hw r hConfirmed.mem hConfirmed.client hConfirmed.granted
      hConfirmed.attempt hKind start hConfirmed.stamp
  have hLt := hConfirmed.ms_lt hStart
  refine counted_of_keeps (netInv_of_world hTokens hReach).sound hKind fun k hk => ?_
  -- the deadline of the grant is still to come
  have hLive : liveAt w.1.clock.ms ((setup i).entry k)
      (r.clock.ms + (setup i).options.ttlMillis) := by
    unfold liveAt
    split
    · exact hLt.le
    · exact hLt
  obtain ⟨d, hd, hKeeps⟩ := kept_of_active hTokens hReach hConfirmed hk hLive
  exact ⟨d, hLt.trans_le hd, hKeeps⟩

/-- The first of two writers for one key, whose grant is stamped at the start of a
millisecond. -/
theorem rw_conservative_rivals :
    Counted (rivals (.write "k") true) (leased (.write "k") early lastOfEarly).1 := by
  have hAligned : ∀ w, w.1.clock = early → Aligned (rivals (.write "k")) true w
      (.inl (.exec ⟨true, .acquire (instant early)⟩)) := by
    rintro w hClock - op start - ⟨⟩ - -
    rw [hClock]
    decide
  have hReach :
      ((world (rivals (.write "k"))).restrict (Aligned (rivals (.write "k")) true)).Reachable
        (leased (.write "k") early lastOfEarly) :=
    leased_reachable (fun _ _ => trivial) (fun _ => trivial) hAligned (by decide) (by decide)
      (by decide) smooth_early
  have hActive : Active (leased (.write "k") early lastOfEarly) true :=
    leased_active (by decide +kernel)
  exact rw_conservative (rivals_tokens _) true hReach hActive (by decide)

-- ---------------------------------------------------------------------------
-- A grant that is not aligned
-- ---------------------------------------------------------------------------

/-- A slot with one grant whose deadline has come turns no writer down. -/
theorem passes_lapsed {kind : Kind} (hKind : kind ≠ .mutex) {now now' d : Int}
    {token token' : String} (hSound : Sound (granted kind now d token none)) (hNow : d ≤ now') :
    ¬ turnedDown .acquire .write now' token' (granted kind now d token none) := by
  intro hDown
  obtain ⟨kind', owner, d', -, hKeeps, hLive⟩ := (turnedDown_write_iff hSound).mp hDown
  -- the one member is that of the grant, and its deadline has come
  by_cases hSame : kind' = kind ∧ owner = token
  · obtain ⟨rfl, rfl⟩ := hSame
    have hDeadline := keeps_granted.mp hKeeps
    omega
  · have hOk : SlotOk .acquire kind now none :=
      (slotOk_of_ne_mutex hKind).mpr (Or.inl (evict_none now))
    exact keeps_ne_none (keeps_of_granted_other hOk hSame hKeeps)

theorem run_lapsed {c : Clock} {keys : List Key} {token : String} {rawTtl : Option String}
    {s : Keyspace} (hDeadline : grantDeadline .write c rawTtl ≠ none)
    (hPass : ∀ k ∈ keys, SortedSetSlot c.ms (s k) ∧ ¬ turnedDown .acquire .write c.ms token (s k)) :
    ((acquireScript .write c keys token rawTtl).run s).1 = .ok 1 := by
  have hOut := attempt_effect .acquire .write c keys token rawTtl s
  exact (hOut.reply_iff hDeadline fun k hk => (hPass k hk).1).2.mpr fun k hk => (hPass k hk).2

/-- The last microsecond of the first millisecond. -/
def straddling : Clock := ⟨999, by decide, by decide⟩

/-- The last microsecond of the lease that began then. -/
def lastOfStraddling : Clock := ⟨10998, by decide, by decide⟩

theorem smooth_straddling : Smooth (instant straddling) where
  asks := by decide +kernel
  asked := by decide +kernel
  unanswered := by decide +kernel
  gets := by decide +kernel
  got := by decide +kernel
  answered := by decide +kernel

/-- **A writer that is active and not counted**: its lease began within the
millisecond that the server granted from, so for the rest of a millisecond the other
writer gets the key. -/
theorem rw_not_conservative :
    (Function.Injective fun i => (rivals (.write "k") i).request.uuid) ∧
    (world (rivals (.write "k"))).Reachable (leased (.write "k") straddling lastOfStraddling) ∧
    Active (leased (.write "k") straddling lastOfStraddling) true ∧
    (∀ d, scoreAt lastOfStraddling.ms
      ((leased (.write "k") straddling lastOfStraddling).1.store "k") (holder .write "a") =
        some (signed .write d) → d ≤ lastOfStraddling.ms) ∧
    ((acquireScript .write lastOfStraddling ["k"] "b" (some brief.ttlArg)).run
      (leased (.write "k") straddling lastOfStraddling).1.store).1 = .ok 1 := by
  have hReach : ((world (rivals (.write "k"))).restrict fun _ _ => True).Reachable
      (leased (.write "k") straddling lastOfStraddling) :=
    leased_reachable (fun _ _ => trivial) (fun _ => trivial) (fun _ _ => trivial) (by decide)
      (by decide) (by decide) smooth_straddling
  have hSound := (netInv_of_world (rivals_tokens _) hReach.of_restrict).sound "k"
  have hStore : (leased (.write "k") straddling lastOfStraddling).1.store "k" =
      granted .write straddling.ms (straddling.ms + brief.ttlMillis) "a" none :=
    leased_store (t := .write "k") List.mem_cons_self
  have hLapsed : straddling.ms + brief.ttlMillis ≤ lastOfStraddling.ms := by decide
  have hKept : lastOfStraddling.ms ≤ straddling.ms + brief.ttlMillis := by decide
  rw [hStore] at hSound
  -- the guard is active, its member has lapsed, and the other writer passes
  refine ⟨rivals_tokens _, hReach.of_restrict, leased_active (by decide +kernel),
    fun d hd => ?_, ?_⟩
  · rw [hStore, scoreAt_eq] at hd
    have hKeeps : keeps .write "a" (evict lastOfStraddling.ms
        (granted .write straddling.ms (straddling.ms + brief.ttlMillis) "a" none)) d := hd
    rw [keeps_granted.mp (keeps_of_evict hKeeps)]
    exact hLapsed
  · have hDeadline : grantDeadline .write lastOfStraddling (some brief.ttlArg) ≠ none := by
      have hTtl := ttlPreflight_ttlArg brief
      rw [grantDeadline_eq_some.mpr ⟨_, _, ⟨hTtl, fun _ => ⟨by decide, by decide⟩⟩, rfl⟩]
      exact Option.some_ne_none _
    refine run_lapsed hDeadline fun k hk => ?_
    obtain rfl := List.mem_singleton.mp hk
    rw [hStore]
    exact ⟨Or.inr ⟨_, _, evict_of_live hKept⟩, passes_lapsed (by decide) hSound hLapsed⟩

end RLock.World
