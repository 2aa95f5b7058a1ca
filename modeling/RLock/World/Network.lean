import RLock.Lib.Machine
import RLock.Client.Request
import RLock.Scripts.Tables

/-!
# RLock — the server and the commands on their way to it

The commands of any number of requests travel to one server, which executes each of them
at some later time or never. Server and clients share one clock; the server loses
nothing, and nobody else writes to it.

What a client does with its commands is not said here: the network may be given any
commands at any time. Commands in flight may overtake each other, and one that is never
executed is lost, so a timeout, a crash and a broken connection look alike. What was
executed is kept in a history, newest first, with the time and the reply.

The lease table of `Scripts.Tables` is read off this history (`tableOf`), and the store
agrees with it on everything that is still live. Since every request has a token of its
own, a command of another client cannot touch its entries (`after_other`). So a grant
that was followed by no release of the same client still backs it (`Backed`), and what
backs it is in the store until its deadline.

## Results

* `network` — time passes, commands are sent and executed, keys expire.
* `tableOf` — the lease table after the commands that were executed.
* `NetInv.exec` — what one executed command keeps; requests have tokens of their own.
* `NetInv.kept` — a grant that was never released is in the store until its deadline.
-/

namespace RLock.World

open KeyedStore LazyTable RLock.Redis RLock.Scripts RLock.Client

/-- One acquisition: its request, its options, and whether it is to be attempted
only once. -/
structure Setup where
  request : LockRequest
  options : AcquireOptions
  once : Bool

/-- The call of the script for a command of this request. -/
def Setup.call (p : Setup) (cmd : Command) : Call := p.request.call p.options.ttlArg cmd

/-- A command of a client. -/
structure Message (ι : Type) where
  client : ι
  command : Command
  deriving DecidableEq

/-- A command that the server executed, when, and with which reply. -/
structure Record (ι : Type) where
  message : Message ι
  clock : Clock
  reply : Except RedisError Int

/-- The server, the commands on their way, and the history. -/
structure Net (ι : Type) where
  clock : Clock
  store : Keyspace
  /-- commands that were sent and not executed -/
  flight : List (Message ι)
  /-- what was executed, the newest entry first -/
  executed : List (Record ι)

/-- What may happen to the server, or between it and the clients. -/
inductive NetEvent (ι : Type)
  | pass (c : Clock)
  | send (messages : List (Message ι))
  | exec (m : Message ι)
  | expireCycle (key : Key)

variable {ι : Type}

/-- A command as the server executes it now. -/
def Net.run (setup : ι → Setup) (n : Net ι) (m : Message ι) : Except RedisError Int × Keyspace :=
  (((setup m.client).call m.command).exec n.clock).run n.store

/-- The server and the commands in flight. Commands may overtake each other, and
one that is never executed is lost. -/
def network [DecidableEq ι] (setup : ι → Setup) : Machine (Net ι) (NetEvent ι) where
  init n := n.store = (fun _ => none) ∧ n.flight = [] ∧ n.executed = []
  enabled n
    | .pass c => n.clock.us ≤ c.us
    | .send _ => True
    | .exec m => m ∈ n.flight
    | .expireCycle _ => True
  next n
    | .pass c => { n with clock := c }
    | .send messages => { n with flight := messages ++ n.flight }
    | .exec m =>
      { n with
        store := (n.run setup m).2
        flight := n.flight.erase m
        executed := ⟨m, n.clock, (n.run setup m).1⟩ :: n.executed }
    | .expireCycle key =>
      { n with store := Function.update n.store key (evict n.clock.ms (n.store key)) }

-- ---------------------------------------------------------------------------
-- The lease table
-- ---------------------------------------------------------------------------

/-- The lease table after the commands that were executed. -/
def tableOf (setup : ι → Setup) : List (Record ι) → LeaseTable
  | [] => fun _ => none
  | r :: rs =>
    (tableOf setup rs).after r.clock ((setup r.message.client).call r.message.command) r.reply

/-- The entry of a request for one of its keys. -/
def Setup.entry (p : Setup) (k : Key) : LeaseId := ⟨k, p.request.target.kind, p.request.uuid⟩

/-- A command touches the entries of its own request, and no others. -/
theorem Setup.touches_iff {p : Setup} {cmd : Command} {i : LeaseId} :
    (p.call cmd).touches i ↔ i.key ∈ p.request.target.keys ∧ i = p.entry i.key := by
  obtain ⟨hKeys, hKind, hToken⟩ := p.request.call_touches p.options.ttlArg cmd
  unfold Call.touches Setup.call Setup.entry
  rw [hKeys, hKind, hToken]
  obtain ⟨key, kind, token⟩ := i
  simp only [LeaseId.mk.injEq, true_and]

theorem tableOf_origin {setup : ι → Setup} {rs : List (Record ι)} {id : LeaseId} {d : Int}
    (h : tableOf setup rs id = some d) :
    ∃ i, id.key ∈ (setup i).request.target.keys ∧ id = (setup i).entry id.key := by
  induction rs with
  | nil => cases h
  | cons r rs ih =>
    unfold tableOf LeaseTable.after at h
    split at h
    · dsimp only at h
      split at h
      · exact ⟨r.message.client, Setup.touches_iff.mp ‹_›⟩
      · exact ih h
    · exact ih h

/-- Every key of the request is leased for a TTL from `since` on, or longer. -/
def Backed (p : Setup) (table : LeaseTable) (since : Int) : Prop :=
  ∀ k ∈ p.request.target.keys, ∃ d, table (p.entry k) = some d ∧ since + p.options.ttlMillis ≤ d

/-- No release of the client was executed. -/
def Unreleased (executed : List (Record ι)) (i : ι) : Prop :=
  ∀ r ∈ executed, r.message.client = i → r.message.command ≠ .release

theorem Unreleased.of_cons {r : Record ι} {rs : List (Record ι)} {i : ι}
    (h : Unreleased (r :: rs) i) : Unreleased rs i :=
  fun r' hr' => h r' (List.mem_cons_of_mem _ hr')

section

variable {p : Setup} {table : LeaseTable} {c : Clock} {cmd : Command} {s : Keyspace}

/-- On a server without keys every acquisition is granted. -/
theorem run_empty (start : Int) (hNow : 0 ≤ c.ms)
    (hLe : c.ms + p.options.ttlMillis ≤ Lua.maxSafe) :
    ((p.call (.acquire start)).exec c).run (fun _ => none) =
      (.ok 1, mapOn p.request.target.keys
        (granted p.request.target.kind c.ms (c.ms + p.options.ttlMillis) p.request.uuid)
        fun _ => none) := by
  have hCmd : Command.acquire start ≠ .release := fun hNo => (nomatch hNo)
  have hDeadline : (p.request.call p.options.ttlArg (.acquire start)).deadline c =
      some (c.ms + p.options.ttlMillis) := LockRequest.deadline_of_exact hCmd hNow hLe
  have hOp : (Command.acquire start).op = some .acquire := rfl
  have hOut := p.request.attempted p.options.ttlArg hOp c fun _ => none
  rw [hDeadline] at hOut
  have hOk : SlotOk .acquire p.request.target.kind c.ms none := by
    cases p.request.target.kind with
    | mutex => trivial
    | read | write => exact Or.inl (evict_none _)
  -- nobody is there who could turn it down
  have hUp : ¬ turnedDown .acquire p.request.target.kind c.ms p.request.uuid none := by
    cases p.request.target.kind with
    | mutex => exact not_not.mpr (evict_none _)
    | read =>
      rintro ⟨m, score, hScore, -⟩
      cases hScore
    | write =>
      rintro ⟨m, score, hScore, -⟩
      cases hScore
  have hOne := ((hOut.reply_iff (Option.some_ne_none _) fun _ _ => hOk).2).mpr fun _ _ => hUp
  obtain ⟨d, hd, hStore, -⟩ := hOut.of_one hOne
  cases hd
  exact Prod.ext hOne hStore

/-- What an attempt of the request itself does to its entries. -/
theorem after_attempt (hCmd : cmd ≠ .release) (k : Key) :
    table.after c (p.call cmd) (((p.call cmd).exec c).run s).1 (p.entry k) =
      if (((p.call cmd).exec c).run s).1 = .ok 1 ∧ k ∈ p.request.target.keys then
        some (c.ms + p.options.ttlMillis)
      else table (p.entry k) := by
  -- it is no release, so it counts only if it was granted
  have hNot : (p.call cmd).isRelease ≠ true := fun hRelease =>
    hCmd ((p.request.call_isRelease _ cmd).mp hRelease)
  unfold LeaseTable.after
  by_cases hOne : (((p.call cmd).exec c).run s).1 = .ok 1
  · rw [if_pos (Or.inr hOne)]
    by_cases hk : k ∈ p.request.target.keys
    · rw [if_pos (Setup.touches_iff.mpr ⟨hk, rfl⟩), if_pos ⟨hOne, hk⟩]
      exact LockRequest.deadline_of_one hCmd hOne
    · rw [if_neg fun hTouch => hk (Setup.touches_iff.mp hTouch).1, if_neg fun h => hk h.2]
  · rw [if_neg fun h => h.elim hNot hOne, if_neg fun h => hOne h.1]

theorem after_release (reply : Except RedisError Int) (k : Key) :
    table.after c (p.call .release) reply (p.entry k) =
      if k ∈ p.request.target.keys then none else table (p.entry k) := by
  have hRelease : (p.call .release).isRelease = true := rfl
  unfold LeaseTable.after
  rw [if_pos (Or.inl hRelease)]
  by_cases hk : k ∈ p.request.target.keys
  · rw [if_pos (Setup.touches_iff.mpr ⟨hk, rfl⟩), if_pos hk]
    rfl
  · rw [if_neg fun hTouch => hk (Setup.touches_iff.mp hTouch).1, if_neg hk]

/-- A command with another token changes nothing. -/
theorem after_other {q : Setup} (hToken : p.request.uuid ≠ q.request.uuid)
    (reply : Except RedisError Int) (k : Key) :
    table.after c (q.call cmd) reply (p.entry k) = table (p.entry k) := by
  unfold LeaseTable.after
  split
  · dsimp only
    rw [if_neg]
    intro hTouch
    -- what it touches has its token
    obtain ⟨-, hEntry⟩ := Setup.touches_iff.mp hTouch
    exact hToken (congrArg LeaseId.token hEntry)
  · rfl

theorem backed_of_granted (hCmd : cmd ≠ .release)
    (hOne : (((p.call cmd).exec c).run s).1 = .ok 1) :
    Backed p (table.after c (p.call cmd) (((p.call cmd).exec c).run s).1) c.ms := by
  intro k hk
  exact ⟨_, (after_attempt hCmd k).trans (if_pos ⟨hOne, hk⟩), le_rfl⟩

/-- A later attempt of the request itself leaves it backed. -/
theorem Backed.again {since : Int} (h : Backed p table since) (hSince : since ≤ c.ms)
    (hCmd : cmd ≠ .release) :
    Backed p (table.after c (p.call cmd) (((p.call cmd).exec c).run s).1) since := by
  intro k hk
  obtain ⟨d, hTable, hLe⟩ := h k hk
  rw [after_attempt hCmd]
  -- granted again, the deadline is later; refused, it is as before
  split
  · exact ⟨_, rfl, by omega⟩
  · exact ⟨d, hTable, hLe⟩

theorem Backed.other {q : Setup} {since : Int} {reply : Except RedisError Int}
    (h : Backed p table since) (hToken : p.request.uuid ≠ q.request.uuid) :
    Backed p (table.after c (q.call cmd) reply) since := by
  intro k hk
  obtain ⟨d, hTable, hLe⟩ := h k hk
  exact ⟨d, (after_other hToken reply k).trans hTable, hLe⟩

end

-- ---------------------------------------------------------------------------
-- Runs
-- ---------------------------------------------------------------------------

/-- What a run keeps. -/
structure NetInv (setup : ι → Setup) (n : Net ι) : Prop where
  sound : ∀ k, Sound (n.store k)
  copy : Represents (liveAt n.clock.ms) (stored n.store) (tableOf setup n.executed)
  past : ∀ r ∈ n.executed, r.clock.us ≤ n.clock.us
  backed : ∀ r ∈ n.executed, r.reply = .ok 1 → r.message.command ≠ .release →
    Unreleased n.executed r.message.client →
      Backed (setup r.message.client) (tableOf setup n.executed) r.clock.ms

variable {setup : ι → Setup} {n : Net ι}

/-- An attempt within the exact range succeeds when it passes all its keys. -/
theorem run_one_iff {j : ι} {cmd : Command} {op : Op} (hOp : cmd.op = some op)
    (hNow : 0 ≤ n.clock.ms)
    (hLe : n.clock.ms + (setup j).options.ttlMillis ≤ Lua.maxSafe) :
    (n.run setup ⟨j, cmd⟩).1 = .ok 1 ↔ ∀ k ∈ (setup j).request.target.keys,
      SlotOk op (setup j).request.target.kind n.clock.ms (n.store k) ∧
        ¬ turnedDown op (setup j).request.target.kind n.clock.ms (setup j).request.uuid
          (n.store k) := by
  have hCmd : cmd ≠ .release := by
    rintro rfl
    cases hOp
  have hOut := (setup j).request.attempted (setup j).options.ttlArg hOp n.clock n.store
  have hDeadline := LockRequest.deadline_of_exact (r := (setup j).request) hCmd hNow hLe
  rw [hDeadline] at hOut
  exact hOut.one_iff.trans ⟨fun h => h.2, fun hUp => ⟨Option.some_ne_none _, hUp⟩⟩

/-- An empty server satisfies it, whatever is in flight. -/
theorem netInv_start (setup : ι → Setup) (c : Clock) (flight : List (Message ι)) :
    NetInv setup ⟨c, fun _ => none, flight, []⟩ where
  sound _ := ⟨[], .absent⟩
  copy := represents_empty.purge (fun _ _ hs => (keeps_ne_none hs).elim) fun _ _ hs => hs.elim
  past _ hNo := nomatch hNo
  backed _ hNo := nomatch hNo

/-- **One executed command.** What backs another client is not touched, since its
token differs; what backs this one only grows. -/
theorem NetInv.exec [DecidableEq ι] (hTokens : Function.Injective fun i => (setup i).request.uuid)
    (h : NetInv setup n) (m : Message ι) : NetInv setup ((network setup).next n (.exec m)) where
  sound := sound_call h.sound n.clock _
  copy := represents_call h.sound h.copy le_rfl _
  past r hr := by
    rcases List.mem_cons.mp hr with rfl | hOld
    · exact le_rfl
    · exact h.past r hOld
  backed r hr hOne hCmd hFree := by
    rcases List.mem_cons.mp hr with rfl | hOld
    -- the grant itself
    · exact backed_of_granted hCmd hOne
    · have hBacked := h.backed r hOld hOne hCmd hFree.of_cons
      by_cases hSame : m.client = r.message.client
      -- a command of the same client is no release
      · have hAgain : m.command ≠ .release := hFree _ List.mem_cons_self hSame
        rw [← hSame] at hBacked ⊢
        exact hBacked.again (Clock.ms_mono (h.past r hOld)) hAgain
      · exact hBacked.other fun hToken => hSame (hTokens hToken).symm

/-- **One event** keeps it: time only lets entries lapse, and an expired key was not live. -/
theorem NetInv.step [DecidableEq ι] (hTokens : Function.Injective fun i => (setup i).request.uuid)
    (h : NetInv setup n) {e : NetEvent ι} (hEn : (network setup).enabled n e) :
    NetInv setup ((network setup).next n e) := by
  cases e with
  | pass c =>
    have hPass : n.clock.us ≤ c.us := hEn
    exact ⟨h.sound, h.copy.weaken fun _ _ hLive => liveAt_mono (Clock.ms_mono hPass) hLive,
      fun r hr => (h.past r hr).trans hPass, h.backed⟩
  | send messages => exact ⟨h.sound, h.copy, h.past, h.backed⟩
  | exec m => exact h.exec hTokens m
  | expireCycle key =>
    exact ⟨sound_expireCycle _ key h.sound, represents_expireCycle key h.sound h.copy, h.past,
      h.backed⟩

theorem netInv_of_reachable [DecidableEq ι]
    (hTokens : Function.Injective fun i => (setup i).request.uuid)
    (h : (network setup).Reachable n) : NetInv setup n := by
  refine Machine.Reachable.invariant (fun n hInit => ?_) (fun n e hn hEn => hn.step hTokens hEn) h
  obtain ⟨c, store, flight, executed⟩ := n
  obtain ⟨rfl, rfl, rfl⟩ := hInit
  exact netInv_start setup c []

/-- **A grant that was never released** is in the store until its deadline. -/
theorem NetInv.kept (h : NetInv setup n) {r : Record ι} (hr : r ∈ n.executed)
    (hOne : r.reply = .ok 1) (hCmd : r.message.command ≠ .release)
    (hFree : Unreleased n.executed r.message.client) {k : Key}
    (hk : k ∈ (setup r.message.client).request.target.keys)
    (hLive : liveAt n.clock.ms ((setup r.message.client).entry k)
      (r.clock.ms + (setup r.message.client).options.ttlMillis)) :
    ∃ d, r.clock.ms + (setup r.message.client).options.ttlMillis ≤ d ∧
      keeps (setup r.message.client).request.target.kind (setup r.message.client).request.uuid
        (n.store k) d := by
  obtain ⟨d, hTable, hLe⟩ := h.backed r hr hOne hCmd hFree k hk
  -- what backs it is later than the grant, hence live as well
  refine ⟨d, hLe, h.copy.complete _ d hTable ?_⟩
  unfold liveAt at hLive ⊢
  split at hLive <;> omega

end RLock.World
