import Mathlib.Data.List.Basic

/-!
# Machines given by a table of events

A machine is a table: which events are enabled in a state, and what each of
them does. Nondeterminism is in the choice of the event, so a machine whose
guards are decidable can be run on a list of events (`exec`), and everything
proved of reachable states holds of such runs.

Three notions of a run are used. `Reachable` forgets the events, and is what an
invariant is about. `Steps` starts anywhere, and is what a statement about every
continuation of a state is about. `Path` keeps the list of its events, the newest
first, and is what is counted or searched for a cause. A condition on the events, such
as one on the time they happen at, is put into the machine with `restrict`, and a
clock that never goes back with `timed`.

## Results

* `Reachable.invariant` — the induction rule for invariants.
* `Reachable.invariant_of` — the same, on top of an invariant already proved.
* `Steps.project` — a run of a machine is a run of its components.
* `Path.bounded`, `Path.charged` — a rank bounds the steps of one process.
* `Path.cause` — what holds at the end of a run has its cause in one of the events.
* `Reachable.of_timed` — a run against a clock is a run.
* `reachable_of_exec` — an executed list of events reaches its final state.
* `Simulates.reachable` — what one machine's states are to another's is kept
  by runs when it is kept by steps.
-/

/-- A state machine with states `σ` and events `ε`. -/
structure Machine (σ ε : Type) where
  init : σ → Prop
  enabled : σ → ε → Prop
  next : σ → ε → σ

namespace Machine

variable {σ ε α δ : Type} {M : Machine σ ε}

/-- A state that some run of the machine gets to. -/
inductive Reachable (M : Machine σ ε) : σ → Prop
  | init {s : σ} (h : M.init s) : M.Reachable s
  | step {s : σ} (hr : M.Reachable s) (e : ε) (h : M.enabled s e) : M.Reachable (M.next s e)

/-- Every reachable state satisfies what holds initially and is kept by every
enabled event. -/
theorem Reachable.invariant {I : σ → Prop} (hInit : ∀ s, M.init s → I s)
    (hStep : ∀ s e, I s → M.enabled s e → I (M.next s e)) {s : σ} (h : M.Reachable s) : I s := by
  induction h with
  | init h => exact hInit _ h
  | step _ e h ih => exact hStep _ e ih h

/-- An invariant whose step may use one already known. -/
theorem Reachable.invariant_of {J I : σ → Prop} (hJ : ∀ s, M.Reachable s → J s)
    (hInit : ∀ s, M.init s → I s)
    (hStep : ∀ s e, J s → I s → M.enabled s e → I (M.next s e)) {s : σ} (h : M.Reachable s) :
    I s := by
  induction h with
  | init h => exact hInit _ h
  | step hr e h ih => exact hStep _ e (hJ _ hr) ih h

/-- The machine whose events must also satisfy `P`. -/
def restrict (M : Machine σ ε) (P : σ → ε → Prop) : Machine σ ε :=
  { M with enabled := fun s e => M.enabled s e ∧ P s e }

instance [∀ s e, Decidable (M.enabled s e)] {P : σ → ε → Prop} [∀ s e, Decidable (P s e)] (s : σ)
    (e : ε) : Decidable ((M.restrict P).enabled s e) :=
  inferInstanceAs (Decidable (M.enabled s e ∧ P s e))

theorem Reachable.of_restrict {P : σ → ε → Prop} {s : σ} (h : (M.restrict P).Reachable s) :
    M.Reachable s := by
  induction h with
  | init h => exact .init h
  | step _ e h ih => exact .step ih e h.1

/-- A run under a stronger condition is one under a weaker. -/
theorem Reachable.weaken {P Q : σ → ε → Prop} {s : σ} (hPQ : ∀ s e, P s e → Q s e)
    (h : (M.restrict P).Reachable s) : (M.restrict Q).Reachable s := by
  induction h with
  | init h => exact .init h
  | step _ e hEn ih => exact .step ih e ⟨hEn.1, hPQ _ e hEn.2⟩

/-- `M` can get from `s` to `t`. -/
inductive Steps (M : Machine σ ε) (s : σ) : σ → Prop
  | refl : M.Steps s s
  | step {t : σ} (h : M.Steps s t) (e : ε) (hEn : M.enabled t e) : M.Steps s (M.next t e)

/-- A run that goes on from a reachable state. -/
theorem Reachable.steps {s t : σ} (hr : M.Reachable s) (h : M.Steps s t) : M.Reachable t := by
  induction h with
  | refl => exact hr
  | step _ e hEn ih => exact .step ih e hEn

theorem Steps.trans {s t u : σ} (h : M.Steps s t) (h' : M.Steps t u) : M.Steps s u := by
  induction h' with
  | refl => exact h
  | step _ e hEn ih => exact .step ih e hEn

theorem Steps.weaken {P Q : σ → ε → Prop} {s t : σ} (hPQ : ∀ s e, P s e → Q s e)
    (h : (M.restrict P).Steps s t) : (M.restrict Q).Steps s t := by
  induction h with
  | refl => exact .refl
  | step _ e hEn ih => exact .step ih e ⟨hEn.1, hPQ _ e hEn.2⟩

/-- What holds at the start of a run and is kept by every event holds at its end. -/
theorem Steps.invariant {I : σ → Prop} {s t : σ} (h : M.Steps s t) (hStart : I s)
    (hStep : ∀ s e, I s → M.enabled s e → I (M.next s e)) : I t := by
  induction h with
  | refl => exact hStart
  | step _ e hEn ih => exact hStep _ e ih hEn

/-- A run with its events, the newest first. -/
inductive Path (M : Machine σ ε) (s : σ) : List ε → σ → Prop
  | nil : M.Path s [] s
  | cons {t : σ} {es : List ε} (h : M.Path s es t) (e : ε) (hEn : M.enabled t e) :
      M.Path s (e :: es) (M.next t e)

/-- The induction rule for a run with its events. -/
theorem Path.invariant {I : σ → Prop} {s t : σ} {es : List ε} (h : M.Path s es t) (hStart : I s)
    (hStep : ∀ s e, I s → M.enabled s e → I (M.next s e)) : I t := by
  induction h with
  | nil => exact hStart
  | cons _ e hEn ih => exact hStep _ e ih hEn

/-- A run with its events, from a reachable state, ends in one. -/
theorem Reachable.path {s t : σ} {es : List ε} (hr : M.Reachable s) (h : M.Path s es t) :
    M.Reachable t :=
  h.invariant hr fun _ e ht hEn => .step ht e hEn

/-- A process whose own steps lower a rank that nobody raises makes at most that many
steps. -/
theorem Path.bounded {I : σ → Prop} (rank : σ → Nat) (own : ε → Bool)
    (hKeep : ∀ s e, I s → M.enabled s e → I (M.next s e))
    (hOwn : ∀ s e, I s → M.enabled s e → own e = true → rank (M.next s e) < rank s)
    (hOther : ∀ s e, I s → M.enabled s e → own e = false → rank (M.next s e) ≤ rank s)
    {s t : σ} {es : List ε} (h : M.Path s es t) (hStart : I s) :
    es.countP own + rank t ≤ rank s := by
  induction h with
  | nil => simp
  | cons hPath e hEn ih =>
    have hI := hPath.invariant hStart hKeep
    -- the event is a step of the process, which the rank pays for, or it is not
    cases hSide : own e with
    | true =>
      rw [List.countP_cons_of_pos hSide]
      have := hOwn _ e hI hEn hSide
      omega
    | false =>
      rw [List.countP_cons_of_neg (by simp [hSide])]
      have := hOther _ e hI hEn hSide
      omega

/-- The same when some steps may set the process back, each by at most `c`. -/
theorem Path.charged {I : σ → Prop} (rank : σ → Nat) (own missed : ε → Bool) (c : Nat)
    (hKeep : ∀ s e, I s → M.enabled s e → I (M.next s e))
    (hStep : ∀ s e, I s → M.enabled s e →
      rank (M.next s e) + (own e).toNat ≤ rank s + c * (missed e).toNat)
    {s t : σ} {es : List ε} (h : M.Path s es t) (hStart : I s) :
    es.countP own + rank t ≤ rank s + c * es.countP missed := by
  induction h with
  | nil => simp
  | cons hPath e hEn ih =>
    have hNear := hStep _ e (hPath.invariant hStart hKeep) hEn
    have hCount : ∀ p : ε → Bool, ∀ es, (e :: es).countP p = es.countP p + (p e).toNat := by
      intro p es
      cases hp : p e <;> simp [hp]
    rw [hCount, hCount, Nat.mul_add]
    omega

/-- One of the events of a run happened in a state where `C` tells of it. -/
def Happened (M : Machine σ ε) (s : σ) (es : List ε) (C : σ → ε → Prop) : Prop :=
  ∃ newer e older u, es = newer ++ e :: older ∧ M.Path s older u ∧ M.enabled u e ∧ C u e

/-- What happened before one more event happened. -/
theorem Happened.cons {s : σ} {es : List ε} {C : σ → ε → Prop} (h : M.Happened s es C) (e : ε) :
    M.Happened s (e :: es) C := by
  obtain ⟨newer, d, older, u, rfl, hd⟩ := h
  exact ⟨e :: newer, d, older, u, rfl, hd⟩

/-- What no event brings about without a cause had one. -/
theorem Path.cause {J Q : σ → Prop} {C : σ → ε → Prop} {s t : σ} {es : List ε}
    (h : M.Path s es t) (hJ : J s) (hKeep : ∀ u e, J u → M.enabled u e → J (M.next u e))
    (hInit : ¬ Q s) (hStep : ∀ u e, J u → M.enabled u e → Q (M.next u e) → Q u ∨ C u e)
    (hQ : Q t) : M.Happened s es C := by
  induction h with
  | nil => exact absurd hQ hInit
  | cons hPath e hEn ih =>
    rename_i u older
    -- it was there before the event, or the event is the cause
    rcases hStep u e (hPath.invariant hJ hKeep) hEn hQ with hOld | hCause
    · exact (ih hOld).cons e
    · exact ⟨[], e, older, u, rfl, hPath, hEn, hCause⟩

/-- A run of a machine is a run of each of its components. -/
theorem Steps.project {τ : Type} {N : Machine τ δ} {π : σ → τ} {I : σ → Prop}
    (hKeep : ∀ s e, I s → M.enabled s e → I (M.next s e))
    (hStep : ∀ s e, I s → M.enabled s e →
      π (M.next s e) = π s ∨ ∃ d, N.enabled (π s) d ∧ π (M.next s e) = N.next (π s) d)
    {s t : σ} (h : M.Steps s t) (hStart : I s) : N.Steps (π s) (π t) := by
  induction h with
  | refl => exact .refl
  | step hRun e hEn ih =>
    have hI := hRun.invariant hStart hKeep
    rcases hStep _ e hI hEn with hSame | ⟨d, hd, hNext⟩
    · rw [hSame]
      exact ih
    · rw [hNext]
      exact .step ih d hd

/-- The machine with the time of its last event. Time does not go back. -/
def timed {τ : Type} [LE τ] (M : Machine σ ε) (time : ε → τ) : Machine (τ × σ) ε where
  init s := M.init s.2
  enabled s e := s.1 ≤ time e ∧ M.enabled s.2 e
  next s e := (time e, M.next s.2 e)

instance {τ : Type} [LE τ] [DecidableLE τ] {time : ε → τ} [∀ s e, Decidable (M.enabled s e)]
    (s : τ × σ) (e : ε) : Decidable ((M.timed time).enabled s e) :=
  inferInstanceAs (Decidable (_ ∧ _))

/-- A run against a clock is a run. -/
theorem Reachable.of_timed {τ : Type} [LE τ] {time : ε → τ} {s : τ × σ}
    (h : (M.timed time).Reachable s) : M.Reachable s.2 := by
  induction h with
  | init h => exact .init h
  | step _ e h ih => exact .step ih e h.2

/-- A reachable state of a machine has reachable components. -/
theorem Reachable.project {τ : Type} {N : Machine τ δ} {π : σ → τ}
    (hInit : ∀ s, M.init s → N.init (π s))
    (hStep : ∀ s e, M.enabled s e →
      π (M.next s e) = π s ∨ ∃ d, N.enabled (π s) d ∧ π (M.next s e) = N.next (π s) d)
    {s : σ} (h : M.Reachable s) : N.Reachable (π s) := by
  induction h with
  | init h => exact .init (hInit _ h)
  | step _ e hEn ih =>
    rcases hStep _ e hEn with hSame | ⟨d, hd, hNext⟩
    · rw [hSame]
      exact ih
    · rw [hNext]
      exact .step ih d hd

/-- Run a list of events; `none` when one of them is not enabled. -/
def exec (M : Machine σ ε) [∀ s e, Decidable (M.enabled s e)] : σ → List ε → Option σ
  | s, [] => some s
  | s, e :: es => if M.enabled s e then exec M (M.next s e) es else none

/-- An executed list of events is a run. -/
theorem steps_of_exec [∀ s e, Decidable (M.enabled s e)] :
    ∀ {es : List ε} {s s' : σ}, M.exec s es = some s' → M.Steps s s' := by
  intro es
  induction es with
  | nil =>
    intro s s' h
    cases h
    exact .refl
  | cons e es ih =>
    intro s s' h
    unfold exec at h
    split at h
    · have hStep : M.Steps s (M.next s e) := .step .refl e ‹_›
      exact hStep.trans (ih h)
    · cases h

/-- One run after another; the events of the later one come first. -/
theorem Path.trans {s t u : σ} {es ds : List ε} (h : M.Path s es t) (h' : M.Path t ds u) :
    M.Path s (ds ++ es) u := by
  induction h' with
  | nil => exact h
  | cons _ e hEn ih => exact .cons ih e hEn

/-- An executed list of events is a run, with its last event first. -/
theorem path_of_exec [∀ s e, Decidable (M.enabled s e)] {es : List ε} {s t : σ}
    (h : M.exec s es = some t) : M.Path s es.reverse t := by
  induction es generalizing s with
  | nil =>
    cases h
    exact .nil
  | cons e es ih =>
    unfold exec at h
    split at h
    · rw [List.reverse_cons]
      exact (Path.cons .nil e ‹_›).trans (ih h)
    · cases h

/-- An executed list of events ends in a reachable state. -/
theorem reachable_of_exec [∀ s e, Decidable (M.enabled s e)] {es : List ε} {s s' : σ}
    (hr : M.Reachable s) (h : M.exec s es = some s') : M.Reachable s' :=
  hr.steps (steps_of_exec h)

theorem reachable_getD [∀ s e, Decidable (M.enabled s e)] {es : List ε} {s : σ} (hInit : M.init s)
    (h : (M.exec s es).isSome = true) : M.Reachable ((M.exec s es).getD s) := by
  obtain ⟨s', hExec⟩ := Option.isSome_iff_exists.mp h
  rw [hExec]
  exact reachable_of_exec (.init hInit) hExec

/-- Every step of the concrete machine `C` is a step of the abstract machine `A`
or none of its business. -/
structure Simulates (A : Machine α δ) (C : Machine σ ε) (R : σ → α → Prop) : Prop where
  init : ∀ s, C.init s → ∃ a, A.init a ∧ R s a
  step : ∀ s a e, R s a → C.enabled s e →
    R (C.next s e) a ∨ ∃ d, A.enabled a d ∧ R (C.next s e) (A.next a d)

/-- A reachable concrete state stands for a reachable abstract one. -/
theorem Simulates.reachable {A : Machine α δ} {C : Machine σ ε} {R : σ → α → Prop}
    (h : A.Simulates C R) {s : σ} (hr : C.Reachable s) : ∃ a, A.Reachable a ∧ R s a := by
  induction hr with
  | init hInit =>
    obtain ⟨a, ha, hR⟩ := h.init _ hInit
    exact ⟨a, .init ha, hR⟩
  | step _ e hEn ih =>
    obtain ⟨a, ha, hR⟩ := ih
    rcases h.step _ _ e hR hEn with hSame | ⟨d, hd, hR'⟩
    · exact ⟨a, ha, hSame⟩
    · exact ⟨_, .step ha d hd, hR'⟩

end Machine
