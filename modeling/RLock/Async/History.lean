import RLock.Async.Handoff

/-!
# RLock — the history of an async acquisition

What one event writes into the history of the request, said once: the history
only grows, and each entry tells where the supervisor or the guard stood. An
attempt is noted by a supervisor at `sending`, a reply by one at `acquiring`, and
what a guard sends by an event of the guard. All other entries are `Internal`:
they are no commands and no replies.

`Async.Seal` reads off them what an acquisition may still do after the seal.

* `callerStep_log`, `taskStep_log` — what the two sides write.
* `next_log` — the entries that one event may write.
-/

namespace RLock.Async

open RLock.Client

section

variable {s : State} {o : AcquireOptions} {v : View}

/-- What the steps of the caller and of the supervisor write, apart from the
attempts and their replies. -/
def Internal (a : Action) : Prop :=
  (∃ side c p, a = .saw side c p) ∨ (∃ m, a = .result m) ∨ a = .release true ∨ a = .guard .offer

/-- Dropping the guard writes at most the release it offers. -/
theorem guardStep_drop_offers (o : AcquireOptions) (now : Int) (s : State) :
    Extends (· = .guard .offer) s.log (s.guardStep o now .drop).log := by
  unfold State.guardStep
  split
  · exact .refl _ _
  · rename_i g hGuard
    refine ⟨(g.sent now .drop).toList.map .guard, rfl, ?_⟩
    intro a ha
    obtain ⟨x, hx, rfl⟩ := List.mem_map.mp ha
    rw [Guard.sent_drop (Option.mem_toList.mp hx)]

/-- A caller that leaves notes the offer of the guard it drops, if anything. -/
theorem leave_offers (o : AcquireOptions) (now : Int) (c : Caller) (s : State) :
    Extends (· = .guard .offer) s.log (s.leave o now c).log := by
  unfold State.leave
  dsimp only
  split
  · exact guardStep_drop_offers o now s
  · exact .refl _ _

/-- An offer to the manager is no command. -/
theorem internal_offer {a : Action} (h : a = .guard .offer) : Internal a :=
  Or.inr (Or.inr (Or.inr h))

theorem guardStep_drop_log (o : AcquireOptions) (now : Int) (s : State) :
    Extends Internal s.log (s.guardStep o now .drop).log :=
  (guardStep_drop_offers o now s).mono fun _ => internal_offer

theorem leave_log (o : AcquireOptions) (now : Int) (c : Caller) (s : State) :
    Extends Internal s.log (s.leave o now c).log :=
  (leave_offers o now c s).mono fun _ => internal_offer

theorem say_log (m : Message) (t : Task) (s : State) : Extends Internal s.log (s.say m t).log := by
  unfold State.say
  split
  · exact (Extends.refl _ _).cons (Or.inr (Or.inl ⟨m, rfl⟩))
  · exact .refl _ _

theorem saw_log (side : Bool) (c : Check) (p : Bool) (s : State) :
    Extends Internal s.log (s.note (.saw side c p)).log :=
  (Extends.refl _ _).cons (Or.inl ⟨side, c, p, rfl⟩)

/-- **The caller** sends nothing to Redis. -/
theorem callerStep_log (o : AcquireOptions) (v : View) (ready : Bool) (s : State) :
    Extends Internal s.log (callerStep o v ready s).log := by
  have hSaw := fun c p => saw_log true c p s
  unfold callerStep
  cases s.caller with
  | begin | accept | parked | returned r | cancelled => exact .refl _ _
  | checkTimeout => exact hSaw _ _
  | admission =>
    dsimp only
    split <;> exact .refl _ _
  | pollShutdown =>
    dsimp only
    split
    · exact (hSaw _ _).trans (leave_log _ _ _ _)
    · exact .refl _ _
  | pollDeadline =>
    dsimp only
    split
    · exact (hSaw _ _).trans (leave_log _ _ _ _)
    · exact .refl _ _
  | pollResult =>
    dsimp only
    split
    · split
      · exact .refl _ _
      · exact .refl _ _
      · exact .refl _ _
      · split
        · exact .refl _ _
        · exact leave_log _ _ _ _
    · exact .refl _ _
  | checkDeadline got =>
    dsimp only
    split
    · exact (hSaw _ _).trans (leave_log _ _ _ _)
    · exact hSaw _ _
  | checkOpen got =>
    dsimp only
    split
    · exact hSaw _ _
    · exact (hSaw _ _).trans (leave_log _ _ _ _)
  | checkLease =>
    dsimp only
    split
    · exact hSaw _ _
    · exact (hSaw _ _).trans (leave_log _ _ _ _)

/-- Only a supervisor about to send writes an attempt. -/
theorem taskStep_log (o : AcquireOptions) (once : Bool) (v : View) (ready : Bool) (s : State) :
    Extends (fun a => Internal a ∨ ∃ start, s.task = .sending start ∧ a = .attempt start)
      s.log (taskStep o once v ready s).log := by
  -- one task sends the command; nothing else that the supervisor writes is one
  by_cases hSending : ∃ start, s.task = .sending start
  · obtain ⟨start, hTask⟩ := hSending
    simp only [taskStep, hTask]
    exact (Extends.refl _ _).cons (Or.inr ⟨start, rfl, rfl⟩)
  · refine Extends.mono (P := Internal) ?_ fun _ => Or.inl
    have hSaw := fun c p => saw_log false c p s
    unfold taskStep
    cases hTask : s.task with
    | sending start => exact absurd ⟨start, hTask⟩ hSending
    | unborn | stamp | acquiring start | locking start | cleaned | guardReleasing | done | panicked
    | retryParked start => exact .refl _ _
    | checkClosed | awaitAccepted | retryTimer start =>
      dsimp only
      repeat' split
      all_goals exact .refl _ _
    | checkOpen | checkDeadline =>
      dsimp only
      split
      · first
        | exact hSaw _ _
        | exact (hSaw _ _).trans (say_log _ _ _)
      · first
        | exact hSaw _ _
        | exact (hSaw _ _).trans (say_log _ _ _)
    | handOpen start | handDeadline start | handLease start => exact hSaw _ _
    | failing | reject e => exact say_log _ _ _
    | handSend start =>
      dsimp only
      split
      · have hResult : Extends Internal s.log (.result .acquisition :: s.log) :=
          (Extends.refl _ _).cons (Or.inr (Or.inl ⟨_, rfl⟩))
        split <;> exact hResult
      · exact .refl _ _
    | unlock h =>
      cases h <;> exact .refl _ _
    | cleaning | guardStarting =>
      exact (Extends.refl _ _).cons (Or.inr (Or.inr (Or.inl rfl)))
    | releaseGuard =>
      dsimp only
      split
      · exact .refl _ _
      · unfold State.guardStep
        split <;> exact .refl _ _
    | dropGuard => exact guardStep_drop_log _ _ _
    | contended =>
      dsimp only
      split
      · exact say_log _ _ _
      · exact .refl _ _
    | retryClosed start =>
      dsimp only
      repeat' split
      all_goals exact .refl _ _
    | retryShutdown start | retryDeadline start =>
      dsimp only
      split
      · exact (hSaw _ _).trans (say_log _ _ _)
      · exact .refl _ _

/-- The entries that one event may write. -/
def Writes (v : View) (s : State) (e : Event) (a : Action) : Prop :=
  Internal a ∨ (∃ start, s.task = .sending start ∧ a = .attempt start) ∨
    (∃ start r, s.task = .acquiring start ∧ e = .acquireReply r ∧ a = .reply start r) ∨
    ∃ ge, e = .guard ge ∧ ∃ g, s.guard = some g ∧
      ((∃ x, g.sent v.now ge = some x ∧ a = .guard x) ∨
        ∃ start r, ge = .renewReply r ∧ g.renewal = .renewing start ∧ a = .renewReply start r)

/-- **The history only grows, by entries of where the request stood.** -/
theorem next_log (o : AcquireOptions) (once : Bool) (v : View) (s : State) (e : Event) :
    Extends (Writes v s e) s.log (next o once v s e).log := by
  cases e with
  | caller ready => exact (callerStep_log o v ready s).mono fun _ => Or.inl
  | cancel => exact (leave_log o v.now .cancelled s).mono fun _ => Or.inl
  | task ready =>
    refine (taskStep_log o once v ready s).mono ?_
    rintro a (hInternal | hAttempt)
    · exact Or.inl hInternal
    · exact Or.inr (Or.inl hAttempt)
  | acquireReply r =>
    show Extends _ _ (acquireReplied r s).log
    unfold acquireReplied
    split
    · rename_i start hTask
      exact (Extends.refl _ _).cons (Or.inr (Or.inr (Or.inl ⟨start, r, hTask, rfl, rfl⟩)))
    · exact .refl _ _
  | releaseReply ok =>
    show Extends _ _ (releaseReplied o v ok s).log
    unfold releaseReplied
    split <;> exact .refl _ _
  | guard ge =>
    -- a guard writes what it sends, from the state in which the event finds it
    have hStep : ∀ t : State, t.guard = s.guard →
        Extends (Writes v s (.guard ge)) t.log (t.guardStep o v.now ge).log := by
      intro t hT
      unfold State.guardStep
      split
      · exact .refl _ _
      · rename_i g hGuard
        refine ⟨(g.sent v.now ge).toList.map .guard, rfl, ?_⟩
        intro a ha
        obtain ⟨x, hx, rfl⟩ := List.mem_map.mp ha
        exact Or.inr (Or.inr (Or.inr ⟨ge, rfl, g, hT ▸ hGuard,
          Or.inl ⟨x, Option.mem_toList.mp hx, rfl⟩⟩))
    simp only [next]
    split
    -- the reply to a renewal is noted with the stamp of its command
    · rename_i r start hRenewal
      obtain ⟨g, hGuard, hRenewing⟩ := Option.map_eq_some_iff.mp hRenewal
      refine Extends.trans ?_ (hStep _ rfl)
      exact (Extends.refl _ _).cons (Or.inr (Or.inr (Or.inr ⟨.renewReply r, rfl, g, hGuard,
        Or.inr ⟨start, r, rfl, hRenewing, rfl⟩⟩)))
    · exact hStep s rfl

end

end RLock.Async
