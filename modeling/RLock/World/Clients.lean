import RLock.Async.Claim
import RLock.Sync.Claim
import RLock.Lib.Fleet
import RLock.World.Network

/-!
# RLock — clients and server together

Any number of acquisitions, each in one of the two backends, over one network and one
clock. What a client enters in its history is what goes out: the commands it notes are
sent in that step, and a reply it notes was given by the server before; replies may be
lost or late, then the client notes an error or nothing.

The world is a fleet (`Lib.Fleet`) whose shared part is the network. A client's machine
knows nothing of the network: the link says that its events read the common clock and
that their replies were given, and which commands they send. That the histories of
clients and server agree is an invariant of every run (`Joint`). It turns what the
machine of one client promises (`Client.Earned`) into a fact about the server: behind an
active guard there is a success in the client's history, hence a reply of the server,
hence an executed command.

## Results

* `world` — the fleet of these acquisitions.
* `Joint.own`, `Joint.client` — the histories and the network agree.
* `drive` — a client may take any run of its own machine at one moment.
* `confirmed` — behind an active guard is a grant of the server, executed after the lease
  began, and no release.
-/

namespace RLock.World

open RLock.Redis RLock.Scripts RLock.Client

-- ---------------------------------------------------------------------------
-- One acquisition
-- ---------------------------------------------------------------------------

/-- An acquisition of either backend. -/
abbrev Acquisition := Async.State ⊕ Sync.State

/-- A step of either backend, with what it reads. -/
abbrev ClientEvent := View × (Async.Event ⊕ Sync.Event)

/-- The machine of one client. -/
def acquisition (p : Setup) : Machine Acquisition ClientEvent :=
  Machine.either (Async.acquisition p.options p.once) (Sync.acquisition p.options p.once)

instance (p : Setup) (a : Acquisition) (e : ClientEvent) :
    Decidable ((acquisition p).enabled a e) :=
  inferInstanceAs (Decidable ((Machine.either _ _).enabled a e))

namespace Acquisition

/-- What the client has entered in its history. -/
def log : Acquisition → List Action
  | .inl s => s.log
  | .inr s => s.log

/-- The guard that was handed to a caller. -/
def handed : Acquisition → Option Guard
  | .inl s => if s.caller = .returned (.ok true) then s.guard else none
  | .inr s => if s.caller = .returned (.ok true) then s.guard else none

/-- Every stamp lies in the past. -/
def Dated (now : Int) : Acquisition → Prop
  | .inl s => Async.Dated now s
  | .inr s => Sync.Dated now s

variable {p : Setup} {a : Acquisition} {e : ClientEvent} {now now' : Int}

theorem Dated.stamped (h : Dated now a) : Stamped now a.log := by
  cases a with
  | inl s => exact Async.Dated.log h
  | inr s => exact Sync.Dated.log h

theorem Dated.later (h : Dated now a) (hNow : now ≤ now') : Dated now' a := by
  cases a with
  | inl s => exact Async.Dated.later h hNow
  | inr s => exact Sync.Dated.later h hNow

/-- **One event** stamps with the time it reads. -/
theorem Dated.step (h : Dated e.1.now a) (ha : (acquisition p).Reachable a)
    (hEn : (acquisition p).enabled a e) : Dated e.1.now ((acquisition p).next a e) := by
  have hReach := ha.of_either
  obtain ⟨v, e⟩ := e
  cases a with
  | inl s =>
    cases e with
    | inl e => exact Async.Dated.step h hReach hEn
    | inr e => exact hEn.elim
  | inr s =>
    cases e with
    | inl e => exact hEn.elim
    | inr e => exact Sync.Dated.step h hEn

/-- Nothing is entered at the beginning. -/
theorem start (h : (acquisition p).init a) (now : Int) : a.log = [] ∧ Dated now a := by
  cases a with
  | inl s =>
    obtain rfl : s = .initial := h
    exact ⟨rfl, fun _ hNo => (nomatch hNo), fun _ hNo => (nomatch hNo)⟩
  | inr s =>
    obtain rfl : s = .initial := h
    exact ⟨rfl, fun _ hNo => (nomatch hNo), fun _ hNo => (nomatch hNo)⟩

theorem log_next (ha : (acquisition p).Reachable a) (hEn : (acquisition p).enabled a e) :
    ∃ new, log ((acquisition p).next a e) = new ++ a.log := by
  have hReach := ha.of_either
  obtain ⟨v, e⟩ := e
  cases a with
  | inl s =>
    cases e with
    | inl e =>
      obtain ⟨new, hLog, -⟩ := (Async.tracked p.options p.once).step s (v, e) hReach hEn
      exact ⟨new, hLog⟩
    | inr e => exact hEn.elim
  | inr s =>
    cases e with
    | inl e => exact hEn.elim
    | inr e =>
      obtain ⟨new, hLog, -⟩ := (Sync.tracked p.options p.once).step s (v, e) hReach hEn
      exact ⟨new, hLog⟩

theorem log_steps {b : Acquisition} (ha : (acquisition p).Reachable a)
    (h : (acquisition p).Steps a b) : ∃ new, log b = new ++ a.log := by
  induction h with
  | refl => exact ⟨[], rfl⟩
  | step h e hEn ih =>
    obtain ⟨new, hLog⟩ := log_next (ha.steps h) hEn
    obtain ⟨old, hOld⟩ := ih
    exact ⟨new ++ old, by rw [hLog, hOld, List.append_assoc]⟩

/-- An active guard that was handed out has its history behind it. -/
theorem earned {g : Guard} (ha : (acquisition p).Reachable a) (hHanded : a.handed = some g)
    (hActive : g.lease.state = .active) :
    Earned p.options g.lease a.log ∧ ∀ x ∈ a.log, x.command ≠ some .release := by
  have hReach := ha.of_either
  unfold handed at hHanded
  cases a with
  | inl s =>
    dsimp only at hHanded
    split at hHanded
    · exact Async.earned_of_returned hReach ‹_› hHanded hActive
    · cases hHanded
  | inr s =>
    dsimp only at hHanded
    split at hHanded
    · exact Sync.earned_of_returned hReach ‹_› hHanded hActive
    · cases hHanded

end Acquisition

/-- What a step enters in the history. -/
def entries (p : Setup) (a : Acquisition) (e : ClientEvent) : List Action :=
  let log := Acquisition.log ((acquisition p).next a e)
  log.take (log.length - a.log.length)

/-- The history after a step is what it enters, and what was there. -/
theorem log_eq {p : Setup} {a : Acquisition} {e : ClientEvent}
    (ha : (acquisition p).Reachable a) (hEn : (acquisition p).enabled a e) :
    Acquisition.log ((acquisition p).next a e) = entries p a e ++ a.log := by
  obtain ⟨new, hLog⟩ := Acquisition.log_next ha hEn
  unfold entries
  dsimp only
  rw [hLog, List.length_append, Nat.add_sub_cancel, List.take_left]

-- ---------------------------------------------------------------------------
-- The world
-- ---------------------------------------------------------------------------

/-- What `Instant::now()` shows a client. -/
def instant (c : Clock) : Int := c.us * 1000

/-- The server gave this reply to this command. -/
def Answered {ι : Type} (executed : List (Record ι)) (i : ι) (cmd : Command) (reply : Int) :
    Prop :=
  ∃ r ∈ executed, r.message = ⟨i, cmd⟩ ∧ r.reply = .ok reply

variable {ι : Type} {setup : ι → Setup}

/-- The commands that a client noted. -/
def messages (i : ι) (log : List Action) : List (Message ι) :=
  (log.filterMap Action.command).map (⟨i, ·⟩)

/-- How a client uses the network. -/
def link (setup : ι → Setup) : Link (Net ι) (NetEvent ι) ι Acquisition ClientEvent where
  own
    | .send _ => False
    | _ => True
  reads i n a e := e.1.now = instant n.clock ∧ ∀ x ∈ entries (setup i) a e, ∀ cmd reply,
    x.answer = some (cmd, reply) → Answered n.executed i cmd reply
  moves i a e := some (.send (messages i (entries (setup i) a e)))

/-- The network, and one acquisition for each client. -/
abbrev State (ι : Type) := Net ι × (ι → Acquisition)

variable [DecidableEq ι]

/-- All acquisitions over one network. -/
def world (setup : ι → Setup) : Machine (State ι) (NetEvent ι ⊕ ι × ClientEvent) :=
  Machine.fleet (network setup) (fun i => acquisition (setup i)) (link setup)

/-- A client noted that it sent the command. -/
def Issued (w : State ι) (m : Message ι) : Prop :=
  ∃ x ∈ (w.2 m.client).log, x.command = some m.command

/-- The histories and the network agree. -/
structure Joint (w : State ι) : Prop where
  dated : ∀ i, (w.2 i).Dated (instant w.1.clock)
  sent : ∀ m ∈ w.1.flight, Issued w m
  ran : ∀ r ∈ w.1.executed, Issued w r.message
  stamped : ∀ r ∈ w.1.executed, ∀ start, r.message.command.stamp = some start →
    start ≤ instant r.clock
  answered : ∀ i, ∀ x ∈ (w.2 i).log, ∀ cmd reply, x.answer = some (cmd, reply) →
    Answered w.1.executed i cmd reply

variable {w : State ι}

theorem joint_start (h : (world setup).init w) : Joint w := by
  obtain ⟨n, as⟩ := w
  obtain ⟨c, store, flight, executed⟩ := n
  obtain ⟨⟨rfl, rfl, rfl⟩, hClients⟩ := h
  have hStart := fun i => Acquisition.start (hClients i)
  refine ⟨fun i => (hStart i _).2, fun m hNo => (nomatch hNo), fun r hNo => (nomatch hNo),
    fun r hNo => (nomatch hNo), fun i x hx => ?_⟩
  have hLog : (as i).log = [] := (hStart i 0).1
  rw [show ((⟨c, fun _ => none, [], []⟩, as) : State ι).2 i = as i from rfl, hLog] at hx
  cases hx

/-- A step of the network alone. -/
theorem Joint.own {e : NetEvent ι} (h : Joint w) (hEn : (world setup).enabled w (.inl e)) :
    Joint ((world setup).next w (.inl e)) := by
  obtain ⟨hOwn, hEn⟩ := hEn
  cases e with
  | pass c =>
    -- stamps of the past remain so
    have hNow : instant w.1.clock ≤ instant c := by
      have hPass : w.1.clock.us ≤ c.us := hEn
      unfold instant
      omega
    exact ⟨fun i => (h.dated i).later hNow, h.sent, h.ran, h.stamped, h.answered⟩
  | send messages => exact hOwn.elim
  | exec m =>
    -- what is executed was in flight, so its client had sent it
    have hSent : Issued w m := h.sent m hEn
    refine ⟨h.dated, fun m' hm => h.sent m' (List.mem_of_mem_erase hm), fun r hr => ?_,
      fun r hr start hStart => ?_, fun i x hx cmd reply hAnswer => ?_⟩
    · rcases List.mem_cons.mp hr with rfl | hOld
      · exact hSent
      · exact h.ran r hOld
    · rcases List.mem_cons.mp hr with rfl | hOld
      · obtain ⟨x, hx, hCmd⟩ := hSent
        exact (h.dated _).stamped x hx _ start hCmd hStart
      · exact h.stamped r hOld start hStart
    · obtain ⟨r, hr, hEq⟩ := h.answered i x hx cmd reply hAnswer
      exact ⟨r, List.mem_cons_of_mem _ hr, hEq⟩
  | expireCycle key => exact ⟨h.dated, h.sent, h.ran, h.stamped, h.answered⟩

/-- A step of one client, which reads the clock and sends what it notes. -/
theorem Joint.client {i : ι} {e : ClientEvent} (h : Joint w)
    (ha : (acquisition (setup i)).Reachable (w.2 i))
    (hEn : (world setup).enabled w (.inr (i, e))) :
    Joint ((world setup).next w (.inr (i, e))) := by
  obtain ⟨⟨hNow, hReads⟩, hStep, -⟩ := hEn
  have hLog := log_eq ha hStep
  have hSelf : ((world setup).next w (.inr (i, e))).2 i = (acquisition (setup i)).next (w.2 i) e :=
    Function.update_self i _ w.2
  have hOther : ∀ j, j ≠ i → ((world setup).next w (.inr (i, e))).2 j = w.2 j :=
    fun j hj => Function.update_of_ne hj _ w.2
  -- what was noted before is still noted
  have hGrows : ∀ m, Issued w m → Issued ((world setup).next w (.inr (i, e))) m := by
    rintro m ⟨x, hx, hCmd⟩
    refine ⟨x, ?_, hCmd⟩
    by_cases hj : m.client = i
    · rw [hj] at hx ⊢
      rw [hSelf, hLog]
      exact List.mem_append_right _ hx
    · rwa [hOther _ hj]
  refine ⟨fun j => ?_, fun m hm => ?_, fun r hr => hGrows _ (h.ran r hr), h.stamped,
    fun j x hx cmd reply hAnswer => ?_⟩
  · show Acquisition.Dated (instant w.1.clock) _
    by_cases hj : j = i
    · subst hj
      rw [hSelf, ← hNow]
      exact Acquisition.Dated.step (hNow ▸ h.dated j) ha hStep
    · rw [hOther j hj]
      exact h.dated j
  · rcases List.mem_append.mp hm with hNew | hOld
    -- what goes out now is noted in this step
    · obtain ⟨cmd, hCmd, rfl⟩ := List.mem_map.mp hNew
      obtain ⟨x, hx, hEq⟩ := List.mem_filterMap.mp hCmd
      refine ⟨x, ?_, hEq⟩
      show x ∈ Acquisition.log (((world setup).next w (.inr (i, e))).2 i)
      rw [hSelf, hLog]
      exact List.mem_append_left _ hx
    · exact hGrows m (h.sent m hOld)
  · by_cases hj : j = i
    · subst hj
      rw [hSelf, hLog] at hx
      rcases List.mem_append.mp hx with hNew | hOld
      -- a reply that is noted now was given, as the link says
      · exact hReads x hNew cmd reply hAnswer
      · exact h.answered j x hOld cmd reply hAnswer
    · rw [hOther j hj] at hx
      exact h.answered j x hx cmd reply hAnswer

/-- **The histories and the network agree** in every reachable world. -/
theorem joint_of_reachable (hw : (world setup).Reachable w) : Joint w := by
  refine Machine.Reachable.invariant_of (J := (world setup).Reachable) (fun _ hw => hw)
    (fun w hInit => joint_start hInit) (fun w e hw hJoint hEn => ?_) hw
  cases e with
  | inl e => exact hJoint.own hEn
  | inr e =>
    obtain ⟨i, e⟩ := e
    exact hJoint.client (Machine.Reachable.client hw i) hEn

-- ---------------------------------------------------------------------------
-- Runs of one client
-- ---------------------------------------------------------------------------

/-- While time stands still, a client may take any steps of its own machine whose
replies were given. -/
theorem drive {P : State ι → NetEvent ι ⊕ ι × ClientEvent → Prop} {i : ι}
    (hFree : ∀ w e, P w (.inr (i, e))) :
    ∀ {es : List ClientEvent} {w : State ι} {a : Acquisition},
      ((world setup).restrict P).Reachable w → (∀ e ∈ es, e.1.now = instant w.1.clock) →
      (acquisition (setup i)).exec (w.2 i) es = some a →
      (∀ x ∈ a.log, ∀ cmd reply, x.answer = some (cmd, reply) →
        Answered w.1.executed i cmd reply) →
      ∃ new, a.log = new ++ (w.2 i).log ∧ ((world setup).restrict P).Reachable
        ((network setup).next w.1 (.send (messages i new)), Function.update w.2 i a) := by
  intro es
  induction es with
  | nil =>
    intro w a hw hNow hExec hAnswers
    cases hExec
    exact ⟨[], rfl, by rwa [Function.update_eq_self]⟩
  | cons e es ih =>
    intro w a hw hNow hExec hAnswers
    unfold Machine.exec at hExec
    split at hExec
    · rename_i hEn
      have ha := Machine.Reachable.client hw.of_restrict i
      have hLog := log_eq ha hEn
      have hSelf : (((world setup).restrict P).next w (.inr (i, e))).2 i =
          (acquisition (setup i)).next (w.2 i) e := Function.update_self i _ w.2
      -- what this step noted is still in the history at the end
      obtain ⟨later, hLater⟩ :=
        Acquisition.log_steps (.step ha e hEn) (Machine.steps_of_exec hExec)
      have hReads : (link setup).reads i w.1 (w.2 i) e := by
        refine ⟨hNow e List.mem_cons_self, fun x hx => hAnswers x ?_⟩
        rw [hLater, hLog]
        exact List.mem_append_right _ (List.mem_append_left _ hx)
      have hSends : ∀ e', (link setup).moves i (w.2 i) e = some e' →
          (network setup).enabled w.1 e' := by
        rintro _ ⟨⟩
        trivial
      have hStep := hw.step (.inr (i, e)) ⟨⟨hReads, hEn, hSends⟩, hFree w e⟩
      obtain ⟨new, hNew, hReach⟩ := ih hStep (fun e he => hNow e (List.mem_cons_of_mem _ he))
        (by rw [hSelf]; exact hExec) hAnswers
      refine ⟨new ++ entries (setup i) (w.2 i) e, ?_, ?_⟩
      · rw [hNew, hSelf, hLog, List.append_assoc]
      -- what was sent in the steps is what the history gained
      · have hFlight : messages i (new ++ entries (setup i) (w.2 i) e) ++ w.1.flight =
            messages i new ++ (messages i (entries (setup i) (w.2 i) e) ++ w.1.flight) := by
          unfold messages
          rw [List.filterMap_append, List.map_append, List.append_assoc]
        have hAgain :
            Function.update (Function.update w.2 i ((acquisition (setup i)).next (w.2 i) e)) i a =
              Function.update w.2 i a := Function.update_idem _ _ _
        show ((world setup).restrict P).Reachable (Net.mk _ _ (_ ++ _) _, _)
        rw [hFlight, ← hAgain]
        exact hReach
    · cases hExec

-- ---------------------------------------------------------------------------
-- What is behind an active guard
-- ---------------------------------------------------------------------------

/-- The client has a guard that was handed to its caller, and `Lease::state()` says
now that it is active. -/
def Active (w : State ι) (i : ι) : Prop :=
  ∃ g, (w.2 i).handed = some g ∧ g.lease.stateAt (instant w.1.clock) = .active

/-- The server granted the lease when or after it began, its time is not up, and no
release was executed. -/
structure Confirmed (p : Setup) (w : State ι) (i : ι) (r : Record ι) (start : Int) : Prop where
  mem : r ∈ w.1.executed
  client : r.message.client = i
  attempt : r.message.command ≠ .release
  stamp : r.message.command.stamp = some start
  granted : r.reply = .ok 1
  after : start ≤ instant r.clock
  inTime : instant w.1.clock < start + fromMillis p.options.ttlMillis
  unreleased : Unreleased w.1.executed i

/-- **Behind an active guard** is a grant of the server. -/
theorem confirmed {i : ι} (hw : (world setup).Reachable w) (h : Active w i) :
    ∃ r start, Confirmed (setup i) w i r start := by
  obtain ⟨g, hHanded, hActive⟩ := h
  obtain ⟨hState, hElapsed⟩ := Lease.stateAt_eq_active.mp hActive
  obtain ⟨hEarned, hQuiet⟩ := Acquisition.earned (Machine.Reachable.client hw i) hHanded hState
  have hJoint := joint_of_reachable hw
  -- the lease began with the stamp of an attempt that succeeded
  have hSuccess : ∃ cmd, cmd ≠ Command.release ∧ cmd.stamp = some g.lease.start ∧
      Answered w.1.executed i cmd 1 := by
    rcases hEarned.success with hMem | hMem
    · exact ⟨.acquire g.lease.start, fun hNo => (nomatch hNo), rfl,
        hJoint.answered i _ hMem _ _ rfl⟩
    · exact ⟨.renew g.lease.start, fun hNo => (nomatch hNo), rfl,
        hJoint.answered i _ hMem _ _ rfl⟩
  obtain ⟨cmd, hAttempt, hStamp, r, hr, hMessage, hOne⟩ := hSuccess
  have hTtl : fromMillis (setup i).options.ttlMillis = (setup i).options.effectiveTtl := by
    rw [AcquireOptions.ttlMillis_eq, AcquireOptions.effectiveTtl_eq]
  refine ⟨r, g.lease.start, hr, by rw [hMessage], by rwa [hMessage], by rwa [hMessage], hOne,
    hJoint.stamped r hr _ (by rwa [hMessage]), ?_, fun r' hr' hClient hRelease => ?_⟩
  · rw [hTtl, ← hEarned.ttl]
    unfold elapsed at hElapsed
    omega
  -- a release that was executed would be in the history of the client
  · obtain ⟨x, hx, hCmd⟩ := hJoint.ran r' hr'
    rw [hRelease] at hCmd
    exact hQuiet x (hClient ▸ hx) hCmd

end RLock.World
