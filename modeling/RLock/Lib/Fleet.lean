import RLock.Lib.Machine
import Mathlib.Logic.Function.Basic

/-!
# A shared machine with any number of clients

One machine that everybody reads, and a client for every index, which take their
steps in any order. A client's event carries what it reads of the shared machine
(`reads`), and a client may make an event of the shared machine in the same step
(`moves`), such as taking a lock.

The clients do not see each other: what one of them does reaches another only through
the shared machine. So a run of the fleet splits into a run of the shared machine and
one run for each client, and a fact about a single client, proved of the client's own
machine, is a fact about every client of every fleet. The set of indices is arbitrary
and no client has to take part.

## Results

* `fleet_shared`, `fleet_client` — what one step of the fleet is to either side.
* `Reachable.client`, `Reachable.shared` — both sides of a reachable fleet are
  reachable.
* `Steps.client` — once something holds of the shared machine for good, a run of
  the fleet is a run of every client that reads nothing else.
* `Steps.of_client` — a run of one client that leaves the shared machine alone is a
  run of the fleet.
* `either` — a client of one of two sorts.
-/

/-- How clients with events `δ` use a machine with states `σ` and events `ε`. -/
structure Link (σ ε ι α δ : Type) where
  /-- events that the shared machine makes without a client -/
  own : ε → Prop
  reads : ι → σ → α → δ → Prop
  moves : ι → α → δ → Option ε

namespace Machine

section

variable {σ τ ω ε δ : Type}

/-- A machine that is of the sort of `M` or of that of `N`; the events of both
carry an `ω`. -/
def either (M : Machine σ (ω × ε)) (N : Machine τ (ω × δ)) :
    Machine (σ ⊕ τ) (ω × (ε ⊕ δ)) where
  init s := s.elim M.init N.init
  enabled
    | .inl s, (v, .inl e) => M.enabled s (v, e)
    | .inr s, (v, .inr e) => N.enabled s (v, e)
    | _, _ => False
  next
    | .inl s, (v, .inl e) => .inl (M.next s (v, e))
    | .inr s, (v, .inr e) => .inr (N.next s (v, e))
    | s, _ => s

variable {M : Machine σ (ω × ε)} {N : Machine τ (ω × δ)}

instance [∀ s e, Decidable (M.enabled s e)] [∀ s e, Decidable (N.enabled s e)] (s : σ ⊕ τ)
    (e : ω × (ε ⊕ δ)) : Decidable ((either M N).enabled s e) :=
  match s, e with
  | .inl s, (v, .inl e) => inferInstanceAs (Decidable (M.enabled s (v, e)))
  | .inl _, (_, .inr _) => inferInstanceAs (Decidable False)
  | .inr _, (_, .inl _) => inferInstanceAs (Decidable False)
  | .inr s, (v, .inr e) => inferInstanceAs (Decidable (N.enabled s (v, e)))

/-- A client of one of two sorts keeps its sort, and its run is one of that sort. -/
theorem Reachable.of_either {s : σ ⊕ τ} (h : (either M N).Reachable s) :
    s.elim M.Reachable N.Reachable := by
  induction h with
  | @init s hInit =>
    cases s with
    | inl s => exact .init hInit
    | inr s => exact .init hInit
  | @step s _ e hEn ih =>
    obtain ⟨v, e⟩ := e
    cases s with
    | inl s =>
      cases e with
      | inl e => exact Reachable.step ih (v, e) hEn
      | inr e => exact hEn.elim
    | inr s =>
      cases e with
      | inl e => exact hEn.elim
      | inr e => exact Reachable.step ih (v, e) hEn

end

variable {σ ε ι α δ : Type} [DecidableEq ι]

/-- A shared machine `M` with the clients `N i`. -/
def fleet (M : Machine σ ε) (N : ι → Machine α δ) (L : Link σ ε ι α δ) :
    Machine (σ × (ι → α)) (ε ⊕ ι × δ) where
  init s := M.init s.1 ∧ ∀ i, (N i).init (s.2 i)
  enabled s
    | .inl e => L.own e ∧ M.enabled s.1 e
    | .inr (i, d) =>
      L.reads i s.1 (s.2 i) d ∧ (N i).enabled (s.2 i) d ∧
        ∀ e, L.moves i (s.2 i) d = some e → M.enabled s.1 e
  next s
    | .inl e => (M.next s.1 e, s.2)
    | .inr (i, d) =>
      ((L.moves i (s.2 i) d).elim s.1 (M.next s.1),
        Function.update s.2 i ((N i).next (s.2 i) d))

variable {M : Machine σ ε} {N : ι → Machine α δ} {L : Link σ ε ι α δ} {s t : σ × (ι → α)}

instance [∀ e, Decidable (L.own e)] [∀ i s a d, Decidable (L.reads i s a d)]
    [∀ s e, Decidable (M.enabled s e)] [∀ i a d, Decidable ((N i).enabled a d)]
    (s : σ × (ι → α)) (e : ε ⊕ ι × δ) : Decidable ((fleet M N L).enabled s e) :=
  match e with
  | .inl e => inferInstanceAs (Decidable (L.own e ∧ M.enabled s.1 e))
  | .inr (i, d) => inferInstanceAs (Decidable (L.reads i s.1 (s.2 i) d ∧
      (N i).enabled (s.2 i) d ∧ ∀ e ∈ L.moves i (s.2 i) d, M.enabled s.1 e))

/-- The shared machine makes one of its own steps or none. -/
theorem fleet_shared {e : ε ⊕ ι × δ} (hEn : (fleet M N L).enabled s e) :
    ((fleet M N L).next s e).1 = s.1 ∨
      ∃ e', M.enabled s.1 e' ∧ ((fleet M N L).next s e).1 = M.next s.1 e' := by
  cases e with
  | inl e => exact Or.inr ⟨e, hEn.2, rfl⟩
  | inr e =>
    obtain ⟨i, d⟩ := e
    obtain ⟨-, -, hMoves⟩ := hEn
    show (L.moves i (s.2 i) d).elim s.1 (M.next s.1) = s.1 ∨
      ∃ e', M.enabled s.1 e' ∧ (L.moves i (s.2 i) d).elim s.1 (M.next s.1) = M.next s.1 e'
    cases hMove : L.moves i (s.2 i) d with
    | none => exact Or.inl rfl
    | some e => exact Or.inr ⟨e, hMoves e hMove, rfl⟩

/-- A client makes one of its own steps, with what it read, or none. -/
theorem fleet_client {e : ε ⊕ ι × δ} (hEn : (fleet M N L).enabled s e) (i : ι) :
    ((fleet M N L).next s e).2 i = s.2 i ∨
      ∃ d, L.reads i s.1 (s.2 i) d ∧ (N i).enabled (s.2 i) d ∧
        ((fleet M N L).next s e).2 i = (N i).next (s.2 i) d := by
  cases e with
  | inl e => exact Or.inl rfl
  | inr e =>
    obtain ⟨j, d⟩ := e
    obtain ⟨hReads, hEnabled, -⟩ := hEn
    show Function.update s.2 j ((N j).next (s.2 j) d) i = s.2 i ∨ _
    -- it is the step of this client, or of another
    by_cases hSame : i = j
    · subst hSame
      refine Or.inr ⟨d, hReads, hEnabled, ?_⟩
      exact Function.update_self i _ s.2
    · exact Or.inl (Function.update_of_ne hSame _ s.2)

/-- The shared machine of a reachable fleet is reachable. -/
theorem Reachable.shared (h : (fleet M N L).Reachable s) : M.Reachable s.1 := by
  refine Reachable.project (M := fleet M N L) (π := Prod.fst) (fun s hInit => ?_)
    (fun s e hEn => ?_) h
  · exact hInit.1
  · exact fleet_shared hEn

/-- Each client of a reachable fleet is reachable, on its own. -/
theorem Reachable.client (h : (fleet M N L).Reachable s) (i : ι) : (N i).Reachable (s.2 i) := by
  refine Reachable.project (M := fleet M N L) (π := fun s => s.2 i) (fun s hInit => ?_)
    (fun s e hEn => ?_) h
  · exact hInit.2 i
  · rcases fleet_client hEn i with hSame | ⟨d, -, hEnabled, hNext⟩
    · exact Or.inl hSame
    · exact Or.inr ⟨d, hEnabled, hNext⟩

/-- **Once `C` holds of the shared machine for good**, a run of the fleet is a run
of every client in which it reads only such states. -/
theorem Steps.client {C : σ → Prop} (hC : ∀ s e, C s → M.enabled s e → C (M.next s e))
    (h : (fleet M N L).Steps s t) (hStart : C s.1) (i : ι) :
    ((N i).restrict fun a d => ∃ m, C m ∧ L.reads i m a d).Steps (s.2 i) (t.2 i) := by
  refine h.project (I := fun s => C s.1) (π := fun s => s.2 i) (fun s e hs hEn => ?_)
    (fun s e hs hEn => ?_) hStart
  · rcases fleet_shared hEn with hSame | ⟨e', hEn', hNext⟩
    · rw [hSame]
      exact hs
    · rw [hNext]
      exact hC _ _ hs hEn'
  · rcases fleet_client hEn i with hSame | ⟨d, hReads, hEnabled, hNext⟩
    · exact Or.inl hSame
    · exact Or.inr ⟨d, ⟨hEnabled, s.1, hs, hReads⟩, hNext⟩

/-- Steps of one client during which the shared machine stands still. -/
theorem Steps.of_client {m : σ} {f : ι → α} {i : ι} {P : α → δ → Prop}
    (hP : ∀ a d, P a d → L.reads i m a d ∧ L.moves i a d = none) {a : α}
    (h : ((N i).restrict P).Steps (f i) a) :
    (fleet M N L).Steps (m, f) (m, Function.update f i a) := by
  induction h with
  | refl =>
    rw [Function.update_eq_self]
    exact .refl
  | @step b hSteps d hEn ih =>
    obtain ⟨hReads, hMoves⟩ := hP b d hEn.2
    have hSelf : Function.update f i b i = b := Function.update_self i b f
    -- the client may take its step, and moves nothing that is shared
    have hEnabled : (fleet M N L).enabled (m, Function.update f i b) (.inr (i, d)) := by
      show L.reads i m (Function.update f i b i) d ∧ (N i).enabled (Function.update f i b i) d ∧
        ∀ e, L.moves i (Function.update f i b i) d = some e → M.enabled m e
      rw [hSelf, hMoves]
      exact ⟨hReads, hEn.1, fun e hNo => (nomatch hNo)⟩
    have hNext : (fleet M N L).next (m, Function.update f i b) (.inr (i, d)) =
        (m, Function.update f i ((N i).next b d)) := by
      show ((L.moves i (Function.update f i b i) d).elim m (M.next m),
        Function.update (Function.update f i b) i ((N i).next (Function.update f i b i) d)) = _
      rw [hSelf, hMoves, Function.update_idem]
      rfl
    exact hNext ▸ ih.step (.inr (i, d)) hEnabled

end Machine
