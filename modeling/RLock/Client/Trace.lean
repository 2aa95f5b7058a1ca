import RLock.Client.Lease

/-!
# RLock — traces of a lease

A lease is used by several tasks at once, each call under its mutex, so what
happens to it is a sequence of calls at nondecreasing clock times. `cover` says
what such a trace is worth without mentioning the lease: the deadline of the
last grant, if every renewal came before the deadline of the grant in force and
before its own.

The expiry of a lease is recorded only when some call happens to look.
`call_refresh` shows that this does not matter: no call tells a lease that has
recorded its expiry from one that has not.

It is what makes the induction go through. An observation may record the expiry, and then
the lease after it differs from the lease without it; but the two are one to every later
call, so an observation can be left out of a trace. The other calls either move the
deadline, which `cover` follows, or end the lease for good.

## Results

* `call_refresh` — lazy expiry is invisible.
* `results_eraseIdx` — an observation changes no other result.
* `state_mono` — the state never moves back.
* `Covered` — the state and the remaining time, read off the trace.
* `shows_after` — what the trace is worth is what the lease shows.
* `lease_trace` — the three together.
-/

namespace RLock.Client

/-- The methods of a lease. -/
inductive LeaseOp
  | state | remaining
  | renew (start : Int) (ttl : Nat)
  | lose | release
  deriving DecidableEq, Repr

/-- A call of a lease method when the clock shows `now`. -/
structure LeaseCall where
  now : Int
  op : LeaseOp
  deriving DecidableEq, Repr

/-- What they return. -/
inductive LeaseResult
  | state (state : LeaseState)
  | remaining (left : Nat)
  | renewed (ok : Bool)
  | done
  deriving DecidableEq, Repr

/-- The call only looks at the lease. -/
def LeaseCall.observes (c : LeaseCall) : Bool :=
  match c.op with
  | .state => true
  | .remaining => true
  | _ => false

/-- The call ends the lease, `lose` or `release`. -/
def LeaseCall.marks (c : LeaseCall) : Bool :=
  match c.op with
  | .lose => true
  | .release => true
  | _ => false

/-- The calls are made at nondecreasing times between `now` and `t`, and no
renewal starts later than it is recorded. -/
def Timely (now : Int) : List LeaseCall → Int → Prop
  | [], t => now ≤ t
  | c :: calls, t => now ≤ c.now ∧
    (match c.op with
      | .renew start _ => start ≤ c.now
      | _ => True) ∧ Timely c.now calls t

/-- The deadline of the last grant, when every renewal came strictly before the
deadline of the grant then in force and strictly before its own. -/
def cover (deadline : Int) : List LeaseCall → Option Int
  | [] => some deadline
  | c :: calls =>
    match c.op with
    | .renew start ttl =>
      if c.now < deadline ∧ c.now < start + ttl then cover (start + ttl) calls else none
    | _ => cover deadline calls

/-- Active, lost, released. -/
def LeaseState.rank : LeaseState → Nat
  | .active => 0
  | .lost => 1
  | .released => 2

namespace Lease

/-- What a call returns, and the lease it leaves. -/
def call (l : Lease) (c : LeaseCall) : LeaseResult × Lease :=
  match c.op with
  | .state => (.state (l.stateAt c.now), l.refresh c.now)
  | .remaining => (.remaining (l.remaining c.now), l.refresh c.now)
  | .renew start ttl => (.renewed (l.renew c.now start ttl).1, (l.renew c.now start ttl).2)
  | .lose => (.done, l.lose)
  | .release => (.done, l.release)

/-- The lease after a trace. -/
def after (l : Lease) : List LeaseCall → Lease
  | [] => l
  | c :: calls => (l.call c).2.after calls

/-- What the calls of a trace return. -/
def results (l : Lease) : List LeaseCall → List LeaseResult
  | [] => []
  | c :: calls => (l.call c).1 :: (l.call c).2.results calls

-- ---------------------------------------------------------------------------
-- Recording the expiry
-- ---------------------------------------------------------------------------

variable {l : Lease} {now t : Int}

theorem elapsed_mono {start : Int} (h : now ≤ t) : elapsed now start ≤ elapsed t start := by
  unfold elapsed
  omega

/-- A later look finds what an earlier one recorded. -/
theorem refresh_refresh (h : now ≤ t) : (l.refresh now).refresh t = l.refresh t := by
  -- the first look finds the lease out of time, and then the second does too
  by_cases hLapsed : l.state = .active ∧ l.ttl ≤ elapsed now l.start
  · have hLater : l.state = .active ∧ l.ttl ≤ elapsed t l.start :=
      ⟨hLapsed.1, hLapsed.2.trans (elapsed_mono h)⟩
    unfold refresh
    rw [if_pos hLapsed, if_pos hLater, if_neg]
    rintro ⟨hActive, -⟩
    cases hActive
  · have hSame : l.refresh now = l := if_neg hLapsed
    rw [hSame]

/-- Marking does not tell whether the expiry was recorded. -/
theorem lose_refresh : (l.refresh now).lose = l.lose := by
  unfold refresh
  split
  · rename_i hLapsed
    unfold lose
    rw [if_pos hLapsed.1, if_neg]
    intro hActive
    cases hActive
  · rfl

theorem release_refresh : (l.refresh now).release = l.release := by
  unfold refresh
  split <;> rfl

/-- **Lazy expiry is invisible.** A call does not tell whether the lease has
recorded that its time is up. -/
theorem call_refresh (c : LeaseCall) : (l.refresh c.now).call c = l.call c := by
  have hAgain : (l.refresh c.now).refresh c.now = l.refresh c.now := refresh_refresh (le_refl _)
  unfold call
  cases c.op with
  | state =>
    dsimp only
    rw [stateAt, hAgain]
    rfl
  | remaining =>
    dsimp only
    rw [remaining, hAgain]
    unfold remaining refresh
    split <;> rfl
  | renew start ttl =>
    dsimp only
    unfold renew
    rw [hAgain]
  | lose => rw [lose_refresh]
  | release => rw [release_refresh]

theorem call_refresh_of_le {c : LeaseCall} (h : now ≤ c.now) :
    (l.refresh now).call c = l.call c := by
  rw [← call_refresh, refresh_refresh h, call_refresh]

-- ---------------------------------------------------------------------------
-- Observations
-- ---------------------------------------------------------------------------

/-- An observation records the expiry and does nothing else. -/
theorem call_observes {c : LeaseCall} (h : c.observes = true) :
    (l.call c).2 = l.refresh c.now := by
  unfold LeaseCall.observes at h
  unfold call
  cases hOp : c.op with
  | state => rfl
  | remaining => rfl
  | renew start ttl =>
    rw [hOp] at h
    cases h
  | lose =>
    rw [hOp] at h
    cases h
  | release =>
    rw [hOp] at h
    cases h

/-- So what was recorded before a trace does not show in its results. -/
theorem results_refresh {calls : List LeaseCall} (h : Timely now calls t) :
    (l.refresh now).results calls = l.results calls := by
  cases calls with
  | nil => rfl
  | cons c calls =>
    unfold results
    rw [call_refresh_of_le h.1]

/-- Seen at the end of a trace, a look before it has left no trace. -/
theorem refresh_after_refresh {calls : List LeaseCall} (h : Timely now calls t) :
    ((l.refresh now).after calls).refresh t = (l.after calls).refresh t := by
  cases calls with
  | nil => exact refresh_refresh h
  | cons c calls =>
    unfold after
    rw [call_refresh_of_le h.1]

theorem after_append (l : Lease) (pre post : List LeaseCall) :
    l.after (pre ++ post) = (l.after pre).after post := by
  induction pre generalizing l with
  | nil => rfl
  | cons c pre ih => exact ih _

theorem results_append (l : Lease) (pre post : List LeaseCall) :
    l.results (pre ++ post) = l.results pre ++ (l.after pre).results post := by
  induction pre generalizing l with
  | nil => rfl
  | cons c pre ih => exact congrArg ((l.call c).1 :: ·) (ih _)

@[simp] theorem length_results (l : Lease) (calls : List LeaseCall) :
    (l.results calls).length = calls.length := by
  induction calls generalizing l with
  | nil => rfl
  | cons c calls ih => exact congrArg (· + 1) (ih _)

end Lease

/-- Both parts of a trace are timely, with a moment in between. -/
theorem Timely.append {pre post : List LeaseCall} : ∀ {now t : Int},
    Timely now (pre ++ post) t → ∃ mid, Timely now pre mid ∧ Timely mid post t := by
  induction pre with
  | nil => exact fun h => ⟨_, le_refl _, h⟩
  | cons c pre ih =>
    intro now t h
    obtain ⟨mid, hPre, hPost⟩ := ih h.2.2
    exact ⟨mid, ⟨h.1, h.2.1, hPre⟩, hPost⟩

theorem Timely.le {calls : List LeaseCall} : ∀ {now t : Int}, Timely now calls t → now ≤ t := by
  induction calls with
  | nil => exact id
  | cons c calls ih => exact fun h => h.1.trans (ih h.2.2)

namespace Lease

variable {l : Lease} {now t : Int}

/-- **Observations change nothing.** Without the call at position `pre.length`
every other call returns what it returned with it. -/
theorem results_eraseIdx {pre post : List LeaseCall} {c : LeaseCall}
    (h : Timely now (pre ++ c :: post) t) (hObs : c.observes = true) :
    (l.results (pre ++ c :: post)).eraseIdx pre.length = l.results (pre ++ post) := by
  obtain ⟨mid, -, hPost⟩ := h.append
  rw [results_append, results_append, List.eraseIdx_append_of_length_le (by simp)]
  simp only [length_results, Nat.sub_self]
  show _ ++ ((l.after pre).call c).2.results post = _
  rw [call_observes hObs, results_refresh hPost.2.2]

-- ---------------------------------------------------------------------------
-- The order of the states
-- ---------------------------------------------------------------------------

theorem stateAt_of_ne_active (h : l.state ≠ .active) : l.stateAt t = l.state := by
  unfold stateAt refresh
  rw [if_neg fun hLapsed => h hLapsed.1]

/-- A call does not bring back a lease that is not active any more. -/
theorem call_ne_active {c : LeaseCall} (h : l.state ≠ .active) :
    (l.call c).2.state = l.state ∨ (l.call c).2.state = .released := by
  have hRefresh : l.refresh c.now = l := if_neg fun hLapsed => h hLapsed.1
  unfold call
  cases c.op with
  | state =>
    dsimp only
    rw [hRefresh]
    exact Or.inl rfl
  | remaining =>
    dsimp only
    rw [hRefresh]
    exact Or.inl rfl
  | renew start ttl =>
    dsimp only
    unfold renew
    rw [hRefresh]
    dsimp only
    rw [if_pos h]
    exact Or.inl rfl
  | lose =>
    dsimp only
    unfold lose
    rw [if_neg h]
    exact Or.inl rfl
  | release => exact Or.inr rfl

theorem rank_le_released (s : LeaseState) : s.rank ≤ LeaseState.released.rank := by
  cases s <;> decide

theorem rank_after (calls : List LeaseCall) (h : l.state ≠ .active) :
    l.state.rank ≤ (l.after calls).state.rank ∧ (l.after calls).state ≠ .active := by
  induction calls generalizing l with
  | nil => exact ⟨le_refl _, h⟩
  | cons c calls ih =>
    have hStep : l.state.rank ≤ (l.call c).2.state.rank ∧ (l.call c).2.state ≠ .active := by
      rcases call_ne_active (c := c) h with hEq | hEq
      · rw [hEq]
        exact ⟨le_refl _, h⟩
      · rw [hEq]
        exact ⟨rank_le_released _, fun hActive => (nomatch hActive)⟩
    obtain ⟨hLe, hNot⟩ := ih hStep.2
    exact ⟨hStep.1.trans hLe, hNot⟩

/-- **The state never moves back.** -/
theorem state_mono {calls : List LeaseCall} (h : Timely now calls t) :
    (l.stateAt now).rank ≤ ((l.after calls).stateAt t).rank := by
  by_cases hActive : l.stateAt now = .active
  · rw [hActive]
    exact Nat.zero_le _
  · -- from now on the lease may as well have recorded that it is over
    have hSeen : (l.after calls).stateAt t = ((l.refresh now).after calls).stateAt t :=
      congrArg Lease.state (refresh_after_refresh h).symm
    obtain ⟨hLe, hNot⟩ := rank_after (l := l.refresh now) calls hActive
    rw [hSeen, stateAt_of_ne_active hNot]
    exact hLe

-- ---------------------------------------------------------------------------
-- The state, read off the trace
-- ---------------------------------------------------------------------------

/-- No call of the trace ended the lease. -/
def Unmarked (calls : List LeaseCall) : Prop := ∀ c ∈ calls, c.marks = false

theorem unmarked_cons {c : LeaseCall} {calls : List LeaseCall} :
    Unmarked (c :: calls) ↔ c.marks = false ∧ Unmarked calls := List.forall_mem_cons

/-- What the trace is worth at `t`: a deadline that is still ahead. -/
def Covered (deadline : Int) (calls : List LeaseCall) (t : Int) : Prop :=
  Unmarked calls ∧ ∃ d, cover deadline calls = some d ∧ t < d

/-- What `l` shows at `t` is what the trace `calls` is worth. -/
def Shows (l : Lease) (deadline : Int) (calls : List LeaseCall) (t : Int) : Prop :=
  (l.stateAt t = .active ↔ Covered deadline calls t) ∧
    (l.stateAt t = .active → cover deadline calls = some (l.start + l.ttl) ∧ l.start ≤ t)

/-- Less than the TTL has passed exactly before the deadline. -/
theorem elapsed_lt_iff {start : Int} {ttl : Nat} (h : start ≤ now) :
    elapsed now start < ttl ↔ now < start + ttl := by
  unfold elapsed
  omega

/-- A lease that is not active agrees with a trace that is worth nothing. -/
theorem shows_of_ne_active {deadline : Int} {calls : List LeaseCall} (h : l.stateAt t ≠ .active)
    (hNot : ¬ Covered deadline calls t) : l.Shows deadline calls t :=
  ⟨iff_of_false h hNot, fun hActive => absurd hActive h⟩

/-- An active lease renews exactly in time. -/
theorem renew_of_active {start : Int} (ttl : Nat) (hActive : l.state = .active)
    (hStart : l.start ≤ now) (hLate : start ≤ now) :
    if now < l.start + l.ttl ∧ now < start + ttl then
      l.renew now start ttl = (true, ⟨.active, start, ttl⟩)
    else (l.renew now start ttl).2.state ≠ .active := by
  have hInForce : l.stateAt now = .active ↔ now < l.start + l.ttl := by
    rw [stateAt_eq_active, elapsed_lt_iff hStart]
    exact and_iff_right hActive
  split
  · rename_i hTime
    have hSame := refresh_of_active (hInForce.mpr hTime.1)
    unfold renew
    rw [hSame]
    dsimp only
    rw [if_neg (not_not.mpr hActive), if_neg (not_le.mpr ((elapsed_lt_iff hLate).mpr hTime.2)),
      hActive]
  · rename_i hTime
    intro hStill
    rcases renew_cases now start ttl l with ⟨hTrue, hView⟩ | ⟨-, hNot⟩
    · refine hTime ⟨hInForce.mp hView, ?_⟩
      by_contra hOwn
      -- a renewal that comes after its own deadline answers false
      have hLapsed : ttl ≤ elapsed now start := by
        rw [← not_lt, elapsed_lt_iff hLate]
        exact hOwn
      unfold renew at hTrue
      rw [refresh_of_active hView] at hTrue
      dsimp only at hTrue
      rw [if_neg (not_not.mpr hActive), if_pos hLapsed] at hTrue
      cases hTrue
    · exact hNot hStill

/-- What a lease shows depends on what it is after a look. -/
theorem shows_congr {l' : Lease} {deadline : Int} {calls : List LeaseCall}
    (h : l.refresh t = l'.refresh t) (hShows : l'.Shows deadline calls t) :
    l.Shows deadline calls t := by
  have hState : l.stateAt t = l'.stateAt t := congrArg Lease.state h
  have hFields : ∀ l : Lease, (l.refresh t).start = l.start ∧ (l.refresh t).ttl = l.ttl := by
    intro l
    unfold refresh
    split <;> exact ⟨rfl, rfl⟩
  have hStart : l.start = l'.start := by rw [← (hFields l).1, h, (hFields l').1]
  have hTtl : l.ttl = l'.ttl := by rw [← (hFields l).2, h, (hFields l').2]
  unfold Shows
  rw [hState, hStart, hTtl]
  exact hShows

/-- A lease that ended early shows so at the end. -/
theorem shows_of_ended {deadline : Int} {calls rest : List LeaseCall} (h : l.state ≠ .active)
    (hNot : ¬ Covered deadline calls t) : (l.after rest).Shows deadline calls t := by
  refine shows_of_ne_active ?_ hNot
  have hEnded := (rank_after rest h).2
  rw [stateAt_of_ne_active hEnded]
  exact hEnded

/-- An observation is worth nothing by itself. -/
theorem covered_observes (deadline : Int) (calls : List LeaseCall) {c : LeaseCall}
    (h : c.observes = true) :
    cover deadline (c :: calls) = cover deadline calls ∧ c.marks = false := by
  unfold LeaseCall.observes at h
  cases hOp : c.op with
  | state => simp [cover, LeaseCall.marks, hOp]
  | remaining => simp [cover, LeaseCall.marks, hOp]
  | renew start ttl =>
    rw [hOp] at h
    cases h
  | lose =>
    rw [hOp] at h
    cases h
  | release =>
    rw [hOp] at h
    cases h

/-- **What the trace is worth is what the lease shows.** -/
theorem shows_after {calls : List LeaseCall} (hActive : l.state = .active)
    (hStart : l.start ≤ now) (h : Timely now calls t) :
    (l.after calls).Shows (l.start + l.ttl) calls t := by
  induction calls generalizing l now with
  | nil =>
    have hLe : l.start ≤ t := hStart.trans h
    refine ⟨?_, fun _ => ⟨rfl, hLe⟩⟩
    show l.stateAt t = .active ↔ _
    rw [stateAt_eq_active, elapsed_lt_iff hLe]
    simp [Covered, Unmarked, cover, hActive]
  | cons c calls ih =>
    obtain ⟨hNow, hOp, hRest⟩ := h
    have hLater := hStart.trans hNow
    by_cases hObs : c.observes = true
    · -- the rest of the trace does not see the observation
      obtain ⟨hCover, hMarks⟩ := covered_observes (l.start + l.ttl) calls hObs
      have hSeen : (l.after (c :: calls)).refresh t = (l.after calls).refresh t := by
        show (((l.call c).2).after calls).refresh t = _
        rw [call_observes hObs, refresh_after_refresh hRest]
      refine shows_congr hSeen ?_
      unfold Shows Covered
      rw [hCover, unmarked_cons]
      simp only [hMarks, true_and]
      exact ih hActive hLater hRest
    · show (((l.call c).2).after calls).Shows _ _ t
      unfold call
      cases hCall : c.op with
      | state => simp [LeaseCall.observes, hCall] at hObs
      | remaining => simp [LeaseCall.observes, hCall] at hObs
      | renew start ttl =>
        rw [hCall] at hOp
        have hUnmarked : c.marks = false := by simp [LeaseCall.marks, hCall]
        -- the renewal is in time and moves the deadline, or it ends the lease
        have hRenew := renew_of_active ttl hActive hLater hOp
        dsimp only
        split at hRenew
        · rename_i hTime
          have hCover : cover (l.start + l.ttl) (c :: calls) = cover (start + ttl) calls := by
            simp [cover, hCall, hTime]
          rw [hRenew]
          unfold Shows Covered
          rw [hCover, unmarked_cons]
          simp only [hUnmarked, true_and]
          exact ih (l := ⟨.active, start, ttl⟩) rfl hOp hRest
        · rename_i hTime
          refine shows_of_ended hRenew ?_
          rintro ⟨-, d, hCover, -⟩
          simp [cover, hCall, hTime] at hCover
      | lose =>
        refine shows_of_ended (lose_ne_active l) fun hCovered => ?_
        have hMarked := (unmarked_cons.mp hCovered.1).1
        simp [LeaseCall.marks, hCall] at hMarked
      | release =>
        refine shows_of_ended (release_ne_active l) fun hCovered => ?_
        have hMarked := (unmarked_cons.mp hCovered.1).1
        simp [LeaseCall.marks, hCall] at hMarked

/-- `remaining` is the time to the deadline. -/
theorem remaining_eq {deadline : Int} {calls : List LeaseCall} (h : l.Shows deadline calls t) :
    (∀ d, Covered deadline calls t → cover deadline calls = some d →
        (l.remaining t : Int) = d - t) ∧
      (¬ Covered deadline calls t → l.remaining t = 0) := by
  constructor
  · intro d hCovered hCover
    have hActive := h.1.mpr hCovered
    obtain ⟨hEq, hStart⟩ := h.2 hActive
    rw [hCover] at hEq
    have hDeadline : d = l.start + l.ttl := Option.some.inj hEq
    have hAhead : elapsed t l.start < l.ttl := (stateAt_eq_active.mp hActive).2
    unfold remaining
    rw [if_pos (show (l.refresh t).state = .active from hActive), hDeadline]
    unfold elapsed at hAhead ⊢
    omega
  · intro hNot
    unfold remaining
    exact if_neg fun hActive => hNot (h.1.mp hActive)

/-- **Lease traces.** For every trace of calls after `Lease::new`. -/
theorem lease_trace {start now : Int} (ttl : Nat) (hStart : start ≤ now) :
    (∀ calls t, Timely now calls t →
      (((new start ttl).after calls).stateAt t = .active ↔ Covered (start + ttl) calls t) ∧
      (∀ d, Covered (start + ttl) calls t → cover (start + ttl) calls = some d →
        (((new start ttl).after calls).remaining t : Int) = d - t) ∧
      (¬ Covered (start + ttl) calls t → ((new start ttl).after calls).remaining t = 0)) ∧
    (∀ pre t post t', Timely now pre t → Timely t post t' →
      (((new start ttl).after pre).stateAt t).rank ≤
        (((new start ttl).after (pre ++ post)).stateAt t').rank) ∧
    (∀ pre c post t, Timely now (pre ++ c :: post) t → c.observes = true →
      ((new start ttl).results (pre ++ c :: post)).eraseIdx pre.length =
        (new start ttl).results (pre ++ post)) := by
  refine ⟨fun calls t h => ?_, fun pre t post t' _ hPost => ?_, fun pre c post t h hObs => ?_⟩
  · have hShows := shows_after (l := new start ttl) rfl hStart h
    exact ⟨hShows.1, remaining_eq hShows⟩
  · rw [after_append]
    exact state_mono hPost
  · exact results_eraseIdx h hObs

/-- A lease of 8 from 0 that is renewed at 5, with the stamp 4 and a TTL of 10. -/
theorem lease_trace_renewed :
    ((new 0 8).after [⟨5, .renew 4 10⟩]).stateAt 9 = .active ∧
      (((new 0 8).after [⟨5, .renew 4 10⟩]).remaining 9 : Int) = 14 - 9 := by
  have hTrace := (@lease_trace 0 0 8 (le_refl 0)).1 [⟨5, .renew 4 10⟩] 9 (by simp [Timely])
  have hCovered : Covered (0 + (8 : Nat)) [⟨5, .renew 4 10⟩] 9 :=
    ⟨by simp [Unmarked, LeaseCall.marks], 14, rfl, by decide⟩
  exact ⟨hTrace.1.mpr hCovered, hTrace.2.1 14 hCovered rfl⟩

end Lease

end RLock.Client
