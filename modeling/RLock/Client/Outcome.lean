import RLock.Client.Acquisition
import RLock.Lib.Machine

/-!
# RLock — the outcome of an acquisition

What both backends do, step by step, to the attempts of a request, without the
channels and locks between the caller and the loop: a request is admitted, its
loop passes a check of the manager and one of the deadline, makes an attempt, and
the reply decides whether it starts over, checks what it won, or ends. The
machine of each backend makes only such moves (`Async.Outcome`, `Sync.Outcome`).

How far a request is is a `Progress`, and a step of a backend is one of the
`Moves` between two of them, with the entries it writes to the history. What the
moves do not depend on is left out: who runs them, and what the caller does in
the meantime. Its checks leave entries as well, and the rule for them is that a
missed deadline is only noted when the deadline has been missed (`Plain`).

Two kinds of facts follow. Those about one move (`Moves.ended`,
`Moves.armed_le`, `Moves.barred`) bound the attempts that are still to come. The
invariant `Paced` ties the progress to the history, so that what a caller is
told can be read back as something that Redis answered. Both are lifted to every
machine that is `Tracked`.

## Results

* `Moves.ended` — a success, an error or a missed deadline is the end of the
  attempts.
* `Moves.armed_le` — once a check cannot pass any more, at most the attempt that
  has passed it is made.
* `Paced.moves` — the history agrees with how far the request is.
* `Tracked.granted`, `Tracked.contended` — what is handed on comes from the
  reply that says so.
* `Tracked.ended_steps`, `Tracked.armed_steps`, `Tracked.barred_steps`,
  `Tracked.late_steps` — the same bounds over whole runs.
-/

namespace RLock.Client

namespace Action

/-- A reply of Redis to an attempt. -/
def isReply : Action → Bool
  | .reply _ _ => true
  | _ => false

/-- After these the request makes no attempt. -/
def ends : Action → Bool
  | .reply _ .acquired => true
  | .reply _ (.error _) => true
  | .saw false .deadline false => true
  | _ => false

end Action

/-- How far a request is. -/
inductive Progress
  /-- not admitted yet -/
  | apart
  /-- before an attempt; these checks of the loop have passed -/
  | ready (passed : List Check)
  | running (start : Int)
  | contended
  /-- after a success; these checks have passed since -/
  | won (passed : List Check)
  | over
  deriving DecidableEq

namespace Progress

/-- No attempt follows any more. -/
def ended : Progress → Bool
  | .won _ => true
  | .over => true
  | _ => false

/-- The attempts of a request that asks for a single one. -/
def unspent : Progress → Nat
  | .apart => 1
  | .ready _ => 1
  | _ => 0

/-- The attempt that `c` cannot stop any more. -/
def armed (c : Check) : Progress → Nat
  | .ready passed => if c ∈ passed then 1 else 0
  | _ => 0

/-- It can come to no success, or came to one that has not passed the check of
the manager. -/
def barred : Progress → Bool
  | .won passed => .manager ∉ passed
  | .over => true
  | _ => false

end Progress

/-- Which checks can pass in a request that began at `start`. -/
def View.may (o : AcquireOptions) (start : Int) (v : View) : Check → Bool
  | .manager => v.isOpen
  | .deadline => !deadlineElapsed v.now start o.lockTimeout
  | .lease => true

/-- Entries of a step that is not about attempts. -/
structure Plain (may : Check → Bool) (a : Action) : Prop where
  noAttempt : a.isAttempt = false
  noReply : a.isReply = false
  late : a = .saw true .deadline false → may .deadline = false

/-- What one step may do to a request, with the entries it writes. -/
inductive Moves (o : AcquireOptions) (once : Bool) (may : Check → Bool) :
    Progress → Progress → List Action → Prop
  | stay (p : Progress) {ext : List Action} (hPlain : ∀ a ∈ ext, Plain may a)
      (hIn : .saw false .deadline false ∉ ext) : Moves o once may p p ext
  | admitted (h : o.lockTimeout ≠ some 0) : Moves o once may .apart (.ready []) []
  | pass (c : Check) (passed : List Check) (h : may c = true) :
      Moves o once may (.ready passed) (.ready (c :: passed)) [.saw false c true]
  | attempt (start : Int) {passed : List Check} (hManager : .manager ∈ passed)
      (hDeadline : .deadline ∈ passed) :
      Moves o once may (.ready passed) (.running start) [.attempt start]
  | contended (start : Int) :
      Moves o once may (.running start) .contended [.reply start .contended]
  | won (start : Int) : Moves o once may (.running start) (.won []) [.reply start .acquired]
  | failed (start : Int) (io : Bool) :
      Moves o once may (.running start) .over [.reply start (.error io)]
  | again (h : once = false) : Moves o once may .contended (.ready []) []
  | keep (c : Check) (passed : List Check) (h : may c = true) :
      Moves o once may (.won passed) (.won (c :: passed)) [.saw false c true]
  | stop (p : Progress) {ext : List Action} (hPlain : ∀ a ∈ ext, Plain may a) :
      Moves o once may p .over ext

section

variable {o : AcquireOptions} {once : Bool} {may : Check → Bool} {p p' : Progress}
  {ext log log' : List Action}

theorem attempts_of_plain (h : ∀ a ∈ ext, Plain may a) : ext.countP Action.isAttempt = 0 := by
  rw [List.countP_eq_zero]
  intro a ha
  rw [(h a ha).noAttempt]
  exact Bool.false_ne_true

/-- An entry that ends the request's attempts is a reply or a missed deadline. -/
theorem ends_of_plain {a : Action} (h : Plain may a) (hEnds : a.ends = true) :
    a = .saw false .deadline false := by
  cases a with
  | saw side c passed =>
    cases side <;> cases c <;> cases passed <;> first | rfl | cases hEnds
  | reply start r => cases h.noReply
  | attempt _ | result _ | release _ | offer | guard _ | renewReply _ _ => cases hEnds

/-- Entries that change nothing for the request. -/
def Silent (may : Check → Bool) (a : Action) : Prop :=
  Plain may a ∧ a ≠ .saw false .deadline false

/-- A check of the caller is silent if it tells the truth about the deadline. -/
theorem Silent.of_caller {c : Check} {passed : Bool}
    (h : c = .deadline → passed = false → may .deadline = false) :
    Silent may (.saw true c passed) := by
  refine ⟨⟨rfl, rfl, fun hLate => ?_⟩, fun hNo => (nomatch hNo)⟩
  cases hLate
  exact h rfl rfl

theorem plain_saw (c : Check) (passed : Bool) : Plain may (.saw false c passed) :=
  ⟨rfl, rfl, fun hNo => (nomatch hNo)⟩

/-- A result on its way to the caller is silent. -/
theorem silent_result (m : Message) : Silent may (.result m) :=
  ⟨⟨rfl, rfl, fun hNo => (nomatch hNo)⟩, fun hNo => (nomatch hNo)⟩

theorem silent_guard (x : Sent) : Silent may (.guard x) :=
  ⟨⟨rfl, rfl, fun hNo => (nomatch hNo)⟩, fun hNo => (nomatch hNo)⟩

theorem silent_release (sent : Bool) : Silent may (.release sent) :=
  ⟨⟨rfl, rfl, fun hNo => (nomatch hNo)⟩, fun hNo => (nomatch hNo)⟩

theorem silent_renewReply (start : Int) (r : Option Bool) : Silent may (.renewReply start r) :=
  ⟨⟨rfl, rfl, fun hNo => (nomatch hNo)⟩, fun hNo => (nomatch hNo)⟩

/-- A step that writes only silent entries leaves the request where it is. -/
theorem Moves.of_silent (p : Progress) (h : Extends (Silent may) log log') :
    ∃ ext, log' = ext ++ log ∧ Moves o once may p p ext := by
  obtain ⟨ext, hEq, hExt⟩ := h
  exact ⟨ext, hEq, .stay p (fun a ha => (hExt a ha).1) fun hIn => (hExt _ hIn).2 rfl⟩

/-- The end of the loop is a move from anywhere. -/
theorem Moves.of_plain (p : Progress) (h : Extends (Plain may) log log') :
    ∃ ext, log' = ext ++ log ∧ Moves o once may p .over ext := by
  obtain ⟨ext, hEq, hExt⟩ := h
  exact ⟨ext, hEq, .stop p hExt⟩

/-- A check that is not the last thing the request does. -/
theorem Moves.of_check {c : Check} {b : Bool}
    (hPass : b = true → Moves o once may p p' [.saw false c true])
    (hFail : b = false → p' = .over) : Moves o once may p p' [.saw false c b] := by
  cases b with
  | true => exact hPass rfl
  | false =>
    rw [hFail rfl]
    refine .stop _ fun a ha => ?_
    rw [List.mem_singleton.mp ha]
    exact plain_saw c false

/-- **Once ended, a request makes no attempt.** -/
theorem Moves.ended (h : Moves o once may p p' ext) (hEnded : p.ended = true) :
    p'.ended = true ∧ ext.countP Action.isAttempt = 0 := by
  cases h with
  | stay _ hPlain hIn => exact ⟨hEnded, attempts_of_plain hPlain⟩
  | stop _ hPlain => exact ⟨rfl, attempts_of_plain hPlain⟩
  | keep c passed hMay => exact ⟨rfl, rfl⟩
  | admitted | pass | attempt | contended | won | failed | again => cases hEnded

theorem Moves.over (h : Moves o once may p p' ext) (hOver : p = .over) : p' = .over := by
  cases h with
  | stay _ hPlain hIn => exact hOver
  | stop _ hPlain => rfl
  | admitted _ | pass _ _ _ | attempt _ _ _ | contended _ | won _ | failed _ _ | again _
  | keep _ _ _ => cases hOver

/-- **Once a check cannot pass any more**, at most the attempt that has passed it
is made. -/
theorem Moves.armed_le {c : Check} (h : Moves o once may p p' ext) (hC : c ≠ .lease)
    (hNot : may c = false) : ext.countP Action.isAttempt + p'.armed c ≤ p.armed c := by
  cases h with
  | stay _ hPlain hIn =>
    rw [attempts_of_plain hPlain, Nat.zero_add]
  | stop _ hPlain =>
    rw [attempts_of_plain hPlain]
    exact Nat.zero_le _
  | pass c' passed hMay =>
    -- the check that passes is another one than `c`
    have hOther : c ≠ c' := by
      rintro rfl
      rw [hNot] at hMay
      cases hMay
    show 0 + (if c ∈ c' :: passed then 1 else 0) ≤ if c ∈ passed then 1 else 0
    rw [Nat.zero_add]
    simp only [List.mem_cons, hOther, false_or, le_refl]
  | attempt start hManager hDeadline =>
    rename_i passed
    -- the attempt has passed both checks before it, so it was counted
    have hIn : c ∈ passed := by
      cases c with
      | manager => exact hManager
      | deadline => exact hDeadline
      | lease => exact absurd rfl hC
    show 1 + 0 ≤ if c ∈ passed then 1 else 0
    rw [if_pos hIn]
  | admitted | contended | won | failed | again | keep => exact Nat.zero_le _

/-- **In a closed manager** no success passes the check any more. -/
theorem Moves.barred (h : Moves o once may p p' ext) (hNot : may .manager = false)
    (hBarred : p.barred = true) : p'.barred = true := by
  cases h with
  | stay => exact hBarred
  | stop => rfl
  | keep c passed hMay =>
    -- the manager is closed, so it is not its check that passes
    have hOther : Check.manager ≠ c := by
      rintro rfl
      rw [hNot] at hMay
      cases hMay
    have hOld : Check.manager ∉ passed := by simpa [Progress.barred] using hBarred
    show decide (Check.manager ∉ c :: passed) = true
    simp [hOther, hOld]
  | admitted | pass | attempt | contended | won | failed | again => cases hBarred

-- ---------------------------------------------------------------------------
-- What the history tells
-- ---------------------------------------------------------------------------

/-- The last attempt is the one stamped with `start`. -/
def LastAttempt (start : Int) (log : List Action) : Prop :=
  ∃ newer older, log = newer ++ .attempt start :: older ∧ newer.countP Action.isAttempt = 0

/-- The last attempt succeeded, and these checks have passed since its reply. -/
def Granted (passed : List Check) (log : List Action) : Prop :=
  ∃ newer start older, log = newer ++ .reply start .acquired :: older ∧
    newer.countP Action.isAttempt = 0 ∧ LastAttempt start older ∧
    ∀ c ∈ passed, .saw false c true ∈ newer

/-- Entries without an attempt leave the last attempt what it is. -/
theorem LastAttempt.append {start : Int} (h : LastAttempt start log)
    (hExt : ext.countP Action.isAttempt = 0) : LastAttempt start (ext ++ log) := by
  obtain ⟨newer, older, rfl, hNewer⟩ := h
  refine ⟨ext ++ newer, older, (List.append_assoc _ _ _).symm, ?_⟩
  rw [List.countP_append, hExt, hNewer]

theorem Granted.append {passed : List Check} (h : Granted passed log)
    (hExt : ext.countP Action.isAttempt = 0) : Granted passed (ext ++ log) := by
  obtain ⟨newer, start, older, rfl, hNewer, hLast, hPassed⟩ := h
  refine ⟨ext ++ newer, start, older, (List.append_assoc _ _ _).symm, ?_, hLast, fun c hc => ?_⟩
  · rw [List.countP_append, hExt, hNewer]
  · exact List.mem_append_right ext (hPassed c hc)

/-- A check that passes joins those that have passed since. -/
theorem Granted.pass {passed : List Check} (h : Granted passed log) (c : Check) :
    Granted (c :: passed) (.saw false c true :: log) := by
  obtain ⟨newer, start, older, rfl, hNewer, hLast, hPassed⟩ := h
  refine ⟨.saw false c true :: newer, start, older, rfl, ?_, hLast, fun c' hc' => ?_⟩
  · rw [List.countP_cons_of_neg (by simp [Action.isAttempt])]
    exact hNewer
  · rcases List.mem_cons.mp hc' with rfl | hc'
    · exact List.mem_cons_self
    · exact List.mem_cons_of_mem _ (hPassed c' hc')

/-- The history of a request agrees with how far it is. -/
structure Paced (o : AcquireOptions) (once : Bool) (p : Progress) (log : List Action) : Prop where
  zero : o.lockTimeout = some 0 → (p = .apart ∨ p = .over) ∧ log.countP Action.isAttempt = 0
  apart : p = .apart → log.countP Action.isAttempt = 0
  single : once = true → log.countP Action.isAttempt + p.unspent ≤ 1
  ended : ∀ a ∈ log, a.ends = true → p.ended = true
  running : ∀ start, p = .running start → LastAttempt start log
  contended : p = .contended → ∃ start, .reply start .contended ∈ log
  won : ∀ passed, p = .won passed → Granted passed log

theorem paced_initial : Paced o once .apart [] where
  zero _ := ⟨Or.inl rfl, rfl⟩
  apart _ := rfl
  single _ := le_refl 1
  ended _ ha := nomatch ha
  running _ h := nomatch h
  contended h := nomatch h
  won _ h := nomatch h

/-- Before the end there is no success in the history. -/
theorem Paced.not_granted {passed : List Check} (h : Paced o once p log)
    (hGoes : p.ended = false) : ¬ Granted passed log := by
  rintro ⟨newer, start, older, rfl, -⟩
  have hIn : .reply start .acquired ∈ newer ++ .reply start .acquired :: older :=
    List.mem_append_right newer List.mem_cons_self
  have hEnded := h.ended (.reply start .acquired) hIn rfl
  rw [hGoes] at hEnded
  cases hEnded

/-- Entries that do not end the request leave `ended` to the old ones. -/
theorem Paced.ended_append (h : Paced o once p log) (ext : List Action)
    (hExt : ∀ a ∈ ext, a.ends = false) :
    ∀ a ∈ ext ++ log, a.ends = true → p.ended = true := by
  intro a ha hEnds
  rcases List.mem_append.mp ha with ha | ha
  · rw [hExt a ha] at hEnds
    cases hEnds
  · exact h.ended a ha hEnds

/-- **A move keeps the history in step.** -/
theorem Paced.moves (h : Paced o once p log) (hMoves : Moves o once may p p' ext) :
    Paced o once p' (ext ++ log) := by
  have hSingle := h.single
  cases hMoves with
  | stay _ hPlain hIn =>
    have hNone := attempts_of_plain hPlain
    have hCount : (ext ++ log).countP Action.isAttempt = log.countP Action.isAttempt := by
      rw [List.countP_append, hNone, Nat.zero_add]
    refine ⟨fun hZero => ?_, fun hp => ?_, fun hOnce => ?_, h.ended_append ext fun a ha => ?_,
      fun start hp => (h.running start hp).append hNone, fun hp => ?_,
      fun passed hp => (h.won passed hp).append hNone⟩
    · rw [hCount]
      exact h.zero hZero
    · rw [hCount]
      exact h.apart hp
    · rw [hCount]
      exact hSingle hOnce
    · rw [← Bool.not_eq_true]
      intro hEnds
      exact hIn (ends_of_plain (hPlain a ha) hEnds ▸ ha)
    -- the reply that told of contention is still there
    · obtain ⟨start, hMem⟩ := h.contended hp
      exact ⟨start, List.mem_append_right ext hMem⟩
  | stop _ hPlain =>
    have hCount : (ext ++ log).countP Action.isAttempt = log.countP Action.isAttempt := by
      rw [List.countP_append, attempts_of_plain hPlain, Nat.zero_add]
    refine ⟨fun hZero => ⟨Or.inr rfl, ?_⟩, fun hNo => (nomatch hNo), fun hOnce => ?_,
      fun _ _ _ => rfl, fun _ hNo => (nomatch hNo), fun hNo => (nomatch hNo),
      fun _ hNo => (nomatch hNo)⟩
    · rw [hCount]
      exact (h.zero hZero).2
    · rw [hCount]
      exact (Nat.le_add_right _ _).trans (hSingle hOnce)
  | admitted hTimeout =>
    refine ⟨fun hZero => absurd hZero hTimeout, fun hNo => (nomatch hNo), hSingle, h.ended,
      fun _ hNo => (nomatch hNo), fun hNo => (nomatch hNo), fun _ hNo => (nomatch hNo)⟩
  | pass c passed hMay =>
    refine ⟨fun hZero => ?_, fun hNo => (nomatch hNo), hSingle, ?_, fun _ hNo => (nomatch hNo),
      fun hNo => (nomatch hNo), fun _ hNo => (nomatch hNo)⟩
    · rcases (h.zero hZero).1 with hNo | hNo <;> cases hNo
    · refine h.ended_append [.saw false c true] fun a ha => ?_
      rw [List.mem_singleton.mp ha]
      cases c <;> rfl
  | attempt start hManager hDeadline =>
    refine ⟨fun hZero => ?_, fun hNo => (nomatch hNo), fun hOnce => ?_, ?_, fun st hp => ?_,
      fun hNo => (nomatch hNo), fun _ hNo => (nomatch hNo)⟩
    · rcases (h.zero hZero).1 with hNo | hNo <;> cases hNo
    -- the only attempt that was left
    · have hLeft := hSingle hOnce
      show (Action.attempt start :: log).countP Action.isAttempt + 0 ≤ 1
      rw [List.countP_cons_of_pos rfl]
      exact hLeft
    · refine h.ended_append [.attempt start] fun a ha => ?_
      rw [List.mem_singleton.mp ha]
      rfl
    · cases hp
      exact ⟨[], log, rfl, rfl⟩
  | contended start =>
    refine ⟨fun hZero => ?_, fun hNo => (nomatch hNo), hSingle, ?_, fun _ hNo => (nomatch hNo),
      fun _ => ⟨start, List.mem_cons_self⟩, fun _ hNo => (nomatch hNo)⟩
    · rcases (h.zero hZero).1 with hNo | hNo <;> cases hNo
    · refine h.ended_append [.reply start .contended] fun a ha => ?_
      rw [List.mem_singleton.mp ha]
      rfl
  | won start =>
    refine ⟨fun hZero => ?_, fun hNo => (nomatch hNo), hSingle, fun _ _ _ => rfl,
      fun _ hNo => (nomatch hNo),
      fun hNo => (nomatch hNo), fun passed hp => ?_⟩
    · rcases (h.zero hZero).1 with hNo | hNo <;> cases hNo
    · cases hp
      -- no check has passed yet since this reply
      exact ⟨[], start, log, rfl, rfl, h.running start rfl, fun c hc => (nomatch hc)⟩
  | failed start io =>
    refine ⟨fun hZero => ?_, fun hNo => (nomatch hNo), hSingle, fun _ _ _ => rfl,
      fun _ hNo => (nomatch hNo),
      fun hNo => (nomatch hNo), fun _ hNo => (nomatch hNo)⟩
    rcases (h.zero hZero).1 with hNo | hNo <;> cases hNo
  | again hOnce =>
    refine ⟨fun hZero => ?_, fun hNo => (nomatch hNo), fun hNo => ?_, h.ended,
      fun _ hNo => (nomatch hNo), fun hNo => (nomatch hNo), fun _ hNo => (nomatch hNo)⟩
    · rcases (h.zero hZero).1 with hNo | hNo <;> cases hNo
    -- a request for a single attempt does not start over
    · rw [hOnce] at hNo
      cases hNo
  | keep c passed hMay =>
    refine ⟨fun hZero => ?_, fun hNo => (nomatch hNo), hSingle, fun _ _ _ => rfl,
      fun _ hNo => (nomatch hNo),
      fun hNo => (nomatch hNo), fun passed' hp => ?_⟩
    · rcases (h.zero hZero).1 with hNo | hNo <;> cases hNo
    · cases hp
      exact (h.won passed rfl).pass c

end

-- ---------------------------------------------------------------------------
-- Machines that make such moves
-- ---------------------------------------------------------------------------

/-- Every step of `M` is a move of the request. -/
structure Tracked {σ ε : Type} (o : AcquireOptions) (once : Bool) (M : Machine σ (View × ε))
    (log : σ → List Action) (start : σ → Int) (progress : σ → Progress) : Prop where
  init : ∀ s, M.init s → log s = [] ∧ progress s = .apart
  step : ∀ s e, M.Reachable s → M.enabled s e → ∃ ext, log (M.next s e) = ext ++ log s ∧
    Moves o once (e.1.may o (start s)) (progress s) (progress (M.next s e)) ext
  /-- The clock is read once, before anything else. -/
  start : ∀ s e, M.Reachable s → M.enabled s e →
    start (M.next s e) = start s ∨ log (M.next s e) = []

namespace Tracked

variable {σ ε : Type} {o : AcquireOptions} {once : Bool} {M : Machine σ (View × ε)}
  {log : σ → List Action} {start : σ → Int} {progress : σ → Progress} {s t : σ}

/-- **Over every run** the history agrees with how far the request is. -/
theorem paced (h : Tracked o once M log start progress) (hs : M.Reachable s) :
    Paced o once (progress s) (log s) := by
  induction hs with
  | init hInit =>
    obtain ⟨hLog, hProgress⟩ := h.init _ hInit
    rw [hLog, hProgress]
    exact paced_initial
  | step hr e hEn ih =>
    obtain ⟨ext, hLog, hMoves⟩ := h.step _ e hr hEn
    rw [hLog]
    exact ih.moves hMoves

/-- What comes from a success after which some checks have passed. -/
theorem granted {T : σ → Prop} {passed : List Check} (h : Tracked o once M log start progress)
    (hInit : ∀ s, M.init s → ¬ T s)
    (hStep : ∀ s e, T (M.next s e) → T s ∨ progress s = .won passed)
    (hs : M.Reachable s) (hT : T s) : Granted passed (log s) := by
  induction hs with
  | init hStart => exact absurd hT (hInit _ hStart)
  | step hr e hEn ih =>
    rename_i s
    have hPaced := h.paced hr
    obtain ⟨ext, hLog, hMoves⟩ := h.step s e hr hEn
    have hBefore : Granted passed (log s) := by
      rcases hStep s e hT with hOld | hWon
      · exact ih hOld
      · exact hPaced.won passed hWon
    -- after a success the request makes no attempt
    have hEnded : (progress s).ended = true := by
      obtain ⟨newer, start, older, hEq, -⟩ := hBefore
      refine hPaced.ended (.reply start .acquired) ?_ rfl
      rw [hEq]
      exact List.mem_append_right newer List.mem_cons_self
    rw [hLog]
    exact hBefore.append (hMoves.ended hEnded).2

theorem contended {T : σ → Prop} (h : Tracked o once M log start progress)
    (hInit : ∀ s, M.init s → ¬ T s)
    (hStep : ∀ s e, T (M.next s e) → T s ∨ progress s = .contended)
    (hs : M.Reachable s) (hT : T s) : ∃ start, .reply start .contended ∈ log s := by
  induction hs with
  | init hStart => exact absurd hT (hInit _ hStart)
  | step hr e hEn ih =>
    rename_i s
    obtain ⟨ext, hLog, -⟩ := h.step s e hr hEn
    have hBefore : ∃ start, .reply start .contended ∈ log s := by
      rcases hStep s e hT with hOld | hNow
      · exact ih hOld
      · exact (h.paced hr).contended hNow
    obtain ⟨start, hIn⟩ := hBefore
    refine ⟨start, ?_⟩
    rw [hLog]
    exact List.mem_append_right ext hIn

/-- After a success, an error or a missed deadline no attempt is made. -/
theorem ended_steps (h : Tracked o once M log start progress) (hs : M.Reachable s)
    (hEnded : ∃ a ∈ log s, a.ends = true) (hRun : M.Steps s t) :
    (log t).countP Action.isAttempt = (log s).countP Action.isAttempt := by
  obtain ⟨a, ha, hEnds⟩ := hEnded
  have hKeep : (progress t).ended = true ∧
      (log t).countP Action.isAttempt = (log s).countP Action.isAttempt := by
    induction hRun with
    | refl => exact ⟨(h.paced hs).ended a ha hEnds, rfl⟩
    | step hRun e hEn ih =>
      obtain ⟨ext, hLog, hMoves⟩ := h.step _ e (hs.steps hRun) hEn
      obtain ⟨hOver, hNone⟩ := hMoves.ended ih.1
      rw [hLog, List.countP_append, hNone, Nat.zero_add]
      exact ⟨hOver, ih.2⟩
  exact hKeep.2

/-- In a run in which a check cannot pass, at most the attempt that has passed it
is made. -/
theorem armed_steps {c : Check} {P : σ → View × ε → Prop} (h : Tracked o once M log start progress)
    (hC : c ≠ .lease) (hP : ∀ s e, P s e → e.1.may o (start s) c = false) (hs : M.Reachable s)
    (hRun : (M.restrict P).Steps s t) :
    (log t).countP Action.isAttempt + (progress t).armed c ≤
      (log s).countP Action.isAttempt + (progress s).armed c := by
  have hKeep : M.Reachable t ∧ (log t).countP Action.isAttempt + (progress t).armed c ≤
      (log s).countP Action.isAttempt + (progress s).armed c := by
    induction hRun with
    | refl => exact ⟨hs, le_refl _⟩
    | step hRun e hEn ih =>
      obtain ⟨hr, hLess⟩ := ih
      obtain ⟨ext, hLog, hMoves⟩ := h.step _ e hr hEn.1
      have hArmed := hMoves.armed_le hC (hP _ e hEn.2)
      refine ⟨hr.step e hEn.1, ?_⟩
      show (log (M.next _ e)).countP Action.isAttempt + (progress (M.next _ e)).armed c ≤ _
      rw [hLog, List.countP_append]
      omega
  exact hKeep.2

/-- What comes only from a success that passed every check comes of nothing in a
closed manager. -/
theorem barred_steps {T : σ → Prop} {P : σ → View × ε → Prop}
    (h : Tracked o once M log start progress)
    (hStep : ∀ s e, T (M.next s e) → T s ∨ progress s = .won [.lease, .deadline, .manager])
    (hP : ∀ s e, P s e → e.1.isOpen = false) (hs : M.Reachable s)
    (hBarred : (progress s).barred = true) (hNot : ¬ T s) (hRun : (M.restrict P).Steps s t) :
    ¬ T t := by
  have hKeep : M.Reachable t ∧ (progress t).barred = true ∧ ¬ T t := by
    induction hRun with
    | refl => exact ⟨hs, hBarred, hNot⟩
    | step hRun e hEn ih =>
      obtain ⟨hr, hStill, hNone⟩ := ih
      obtain ⟨ext, -, hMoves⟩ := h.step _ e hr hEn.1
      refine ⟨hr.step e hEn.1, hMoves.barred (hP _ e hEn.2) hStill, fun hT => ?_⟩
      rcases hStep _ e hT with hOld | hWon
      · exact hNone hOld
      · rw [hWon] at hStill
        cases hStill
  exact hKeep.2.2

end Tracked

/-- A caller that notes a missed deadline notes the truth. -/
theorem Moves.late_entry {o : AcquireOptions} {once : Bool} {may : Check → Bool} {p p' : Progress}
    {ext : List Action} (h : Moves o once may p p' ext) (hLate : .saw true .deadline false ∈ ext) :
    may .deadline = false := by
  cases h with
  | stay _ hPlain hIn => exact (hPlain _ hLate).late rfl
  | stop _ hPlain => exact (hPlain _ hLate).late rfl
  | admitted | again => cases hLate
  | pass | attempt | contended | won | failed | keep =>
    have hNo := List.mem_singleton.mp hLate
    cases hNo

/-- When a step reads the clock. -/
def clock {ε : Type} (e : View × ε) : Int := e.1.now

namespace Tracked

variable {σ ε : Type} {o : AcquireOptions} {once : Bool} {M : Machine σ (View × ε)}
  {log : σ → List Action} {start : σ → Int} {progress : σ → Progress}

/-- What a check of the caller has seen stays so. -/
theorem late_of_saw (h : Tracked o once M log start progress) {s : Int × σ}
    (hs : (M.timed clock).Reachable s) (hSaw : .saw true .deadline false ∈ log s.2) :
    deadlineElapsed s.1 (start s.2) o.lockTimeout = true := by
  induction hs with
  | init hInit =>
    rw [(h.init _ hInit).1] at hSaw
    cases hSaw
  | step hr e hEn ih =>
    rename_i s
    obtain ⟨hTime, hEnabled⟩ := hEn
    obtain ⟨ext, hLog, hMoves⟩ := h.step _ e hr.of_timed hEnabled
    -- the clock of the request is read before there is any entry
    have hStart : start (M.next s.2 e) = start s.2 := by
      rcases h.start _ e hr.of_timed hEnabled with hSame | hNone
      · exact hSame
      · have hIn : Action.saw true .deadline false ∈ log (M.next s.2 e) := hSaw
        rw [hNone] at hIn
        cases hIn
    have hIn : Action.saw true .deadline false ∈ ext ++ log s.2 := hLog ▸ hSaw
    show deadlineElapsed e.1.now (start (M.next s.2 e)) o.lockTimeout = true
    rw [hStart]
    rcases List.mem_append.mp hIn with hNew | hOld
    -- the entry was written now, by a check that saw the deadline elapsed
    · have hMay : (!deadlineElapsed e.1.now (start s.2) o.lockTimeout) = false :=
        hMoves.late_entry hNew
      simpa using hMay
    · exact deadlineElapsed_mono hTime (ih hOld)

/-- Once a check of the caller has seen the deadline elapsed, at most the attempt
is made that has passed its own check. -/
theorem late_steps (h : Tracked o once M log start progress) {s t : Int × σ}
    (hs : (M.timed clock).Reachable s) (hSaw : .saw true .deadline false ∈ log s.2)
    (hRun : (M.timed clock).Steps s t) :
    (log t.2).countP Action.isAttempt ≤
      (log s.2).countP Action.isAttempt + (progress s.2).armed .deadline := by
  have hKeep : .saw true .deadline false ∈ log t.2 ∧
      (log t.2).countP Action.isAttempt + (progress t.2).armed .deadline ≤
        (log s.2).countP Action.isAttempt + (progress s.2).armed .deadline := by
    induction hRun with
    | refl => exact ⟨hSaw, le_refl _⟩
    | step hRun e hEn ih =>
      rename_i t
      obtain ⟨hIn, hLess⟩ := ih
      obtain ⟨hTime, hEnabled⟩ := hEn
      have hr := hs.steps hRun
      obtain ⟨ext, hLog, hMoves⟩ := h.step _ e hr.of_timed hEnabled
      -- the deadline stays elapsed, so the check of it cannot pass
      have hLate := deadlineElapsed_mono hTime (h.late_of_saw hr hIn)
      have hMay : e.1.may o (start t.2) .deadline = false := by
        show (!deadlineElapsed (clock e) (start t.2) o.lockTimeout) = false
        rw [hLate]
        rfl
      have hArmed := hMoves.armed_le (c := .deadline) (fun hNo => (nomatch hNo)) hMay
      refine ⟨?_, ?_⟩
      · show Action.saw true .deadline false ∈ log (M.next t.2 e)
        rw [hLog]
        exact List.mem_append_right ext hIn
      · show (log (M.next t.2 e)).countP Action.isAttempt +
          (progress (M.next t.2 e)).armed .deadline ≤ _
        rw [hLog, List.countP_append]
        omega
  omega

end Tracked

end RLock.Client
