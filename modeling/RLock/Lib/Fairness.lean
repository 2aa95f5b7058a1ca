import RLock.Lib.Machine

/-!
# Fair runs and what they lead to

An infinite run of a machine, in which nothing may happen for a while or for
ever. What must not be put off is said of single events: an event is due in some
states, and a just run takes it when it stays due, a strict one when it is due
again and again.

The predicate `due` is a parameter and need not be the guard of the event. A thread
that sleeps is enabled to wake up at any moment, and is due only once it has been
notified; a fair run owes it no more than that.

What a fair run leads to is proved with three rules. An event that stays due until it
is taken is taken (`Leads.just`); one that comes to be due again and again, because
others get in the way, is taken when the run is strict (`Leads.strict`); and a rank
that each of these lowers comes to its end (`Leads.ranked`).

## Results

* `Run.stable` — what every event keeps holds from then on.
* `Leads.just`, `Leads.strict` — an event that is taken leads from what keeps it
  due to what it does.
* `Leads.ranked` — what a rank counts down comes to its end.
* `rest` — a list of events, and then nothing; it is fair to what is not due at its end.
-/

namespace Machine

variable {σ ε : Type} {M : Machine σ ε}

/-- An infinite run from a reachable state. -/
structure Run (M : Machine σ ε) where
  state : Nat → σ
  event : Nat → Option ε
  start : M.Reachable (state 0)
  step : ∀ n, event n = none ∧ state (n + 1) = state n ∨
    ∃ e, event n = some e ∧ M.enabled (state n) e ∧ state (n + 1) = M.next (state n) e

namespace Run

/-- An event that stays due is taken. -/
def Just (r : M.Run) (due : σ → Prop) (e : ε) : Prop :=
  ∀ n, (∀ m, n ≤ m → due (r.state m)) → ∃ m, n ≤ m ∧ r.event m = some e

/-- An event that is due again and again is taken. -/
def Strict (r : M.Run) (due : σ → Prop) (e : ε) : Prop :=
  ∀ n, (∀ m, n ≤ m → ∃ k, m ≤ k ∧ due (r.state k)) → ∃ m, n ≤ m ∧ r.event m = some e

/-- Whenever `P` holds, `Q` holds then or later. -/
def Leads (r : M.Run) (P Q : σ → Prop) : Prop :=
  ∀ n, P (r.state n) → ∃ m, n ≤ m ∧ Q (r.state m)

variable {r : M.Run} {P Q R : σ → Prop} {due : σ → Prop} {e : ε}

/-- Every state of an infinite run is reachable. -/
theorem reachable (r : M.Run) (n : Nat) : M.Reachable (r.state n) := by
  induction n with
  | zero => exact r.start
  | succ n ih =>
    rcases r.step n with ⟨-, hSame⟩ | ⟨e, -, hEn, hNext⟩
    · rw [hSame]
      exact ih
    · rw [hNext]
      exact ih.step e hEn

/-- An event that stays due is due again and again. -/
theorem Strict.just (h : r.Strict due e) : r.Just due e :=
  fun n hDue => h n fun m hm => ⟨m, Nat.le_refl m, hDue m hm⟩

/-- What every event keeps holds from then on. -/
theorem stable (hKeep : ∀ s d, M.Reachable s → P s → M.enabled s d → P (M.next s d)) {n : Nat}
    (hn : P (r.state n)) {m : Nat} (hm : n ≤ m) : P (r.state m) := by
  induction hm with
  | refl => exact hn
  | step _ ih =>
    rename_i m _
    rcases r.step m with ⟨-, hSame⟩ | ⟨d, -, hEn, hNext⟩
    · rw [hSame]
      exact ih
    · rw [hNext]
      exact hKeep _ d (r.reachable m) ih hEn

theorem Leads.of_imp (h : ∀ s, M.Reachable s → P s → Q s) : r.Leads P Q :=
  fun n hn => ⟨n, Nat.le_refl n, h _ (r.reachable n) hn⟩

theorem Leads.trans (h : r.Leads P Q) (h' : r.Leads Q R) : r.Leads P R := by
  intro n hn
  obtain ⟨m, hm, hQ⟩ := h n hn
  obtain ⟨k, hk, hR⟩ := h' m hQ
  exact ⟨k, Nat.le_trans hm hk, hR⟩

/-- **A rank that is counted down** comes to its end. -/
theorem Leads.ranked (rank : σ → Nat)
    (h : ∀ k, r.Leads (fun s => P s ∧ rank s = k) fun s => Q s ∨ P s ∧ rank s < k) :
    r.Leads P Q := by
  have hAll : ∀ k n, rank (r.state n) = k → P (r.state n) → ∃ m, n ≤ m ∧ Q (r.state m) := by
    intro k
    -- by strong induction on the rank: each time it falls, the rest is done already
    induction k using Nat.strongRecOn with
    | ind k ih =>
      intro n hRank hn
      obtain ⟨m, hm, hQ | ⟨hP, hLess⟩⟩ := h k n ⟨hn, hRank⟩
      · exact ⟨m, hm, hQ⟩
      · obtain ⟨j, hj, hQ⟩ := ih _ hLess m rfl hP
        exact ⟨j, Nat.le_trans hm hj, hQ⟩
  exact fun n hn => hAll _ n rfl hn

/-- Until `Q` comes `P` stays. -/
theorem stays (hStep : ∀ s d, M.Reachable s → P s → M.enabled s d → P (M.next s d) ∨ Q (M.next s d))
    {n : Nat} (hn : P (r.state n)) (hNever : ∀ m, n ≤ m → ¬ Q (r.state m)) {m : Nat} (hm : n ≤ m) :
    P (r.state m) := by
  induction hm with
  | refl => exact hn
  | step hm ih =>
    rename_i m
    rcases r.step m with ⟨-, hSame⟩ | ⟨d, -, hEn, hNext⟩
    · rw [hSame]
      exact ih
    · have hNot := hNever (m + 1) (Nat.le_succ_of_le hm)
      rw [hNext] at hNot ⊢
      exact (hStep _ d (r.reachable m) ih hEn).resolve_right hNot

/-- An event that is taken while `P` holds brings `Q`. -/
theorem taken (hStep : ∀ s d, M.Reachable s → P s → M.enabled s d → P (M.next s d) ∨ Q (M.next s d))
    (hAct : ∀ s, M.Reachable s → P s → M.enabled s e → Q (M.next s e)) {n : Nat}
    (hn : P (r.state n)) (hTaken : (∀ m, n ≤ m → P (r.state m) ∧ ¬ Q (r.state m)) →
      ∃ m, n ≤ m ∧ r.event m = some e) : ∃ m, n ≤ m ∧ Q (r.state m) := by
  by_contra hNo
  -- suppose `Q` never came: then `P` would stay, and the event would be taken
  have hNever : ∀ m, n ≤ m → ¬ Q (r.state m) := fun m hm hQ => hNo ⟨m, hm, hQ⟩
  have hStays : ∀ m, n ≤ m → P (r.state m) := fun m hm => stays hStep hn hNever hm
  obtain ⟨m, hm, hEvent⟩ := hTaken fun m hm => ⟨hStays m hm, hNever m hm⟩
  refine hNever (m + 1) (Nat.le_succ_of_le hm) ?_
  rcases r.step m with ⟨hNone, -⟩ | ⟨d, hSome, hEn, hNext⟩
  · rw [hEvent] at hNone
    cases hNone
  · rw [hEvent] at hSome
    cases hSome
    rw [hNext]
    exact hAct _ (r.reachable m) (hStays m hm) hEn

/-- **An event that stays due** until it is taken. -/
theorem Leads.just (hFair : r.Just due e)
    (hStep : ∀ s d, M.Reachable s → P s → M.enabled s d → P (M.next s d) ∨ Q (M.next s d))
    (hAct : ∀ s, M.Reachable s → P s → M.enabled s e → Q (M.next s e))
    (hDue : ∀ s, M.Reachable s → P s → due s ∨ Q s) : r.Leads P Q := by
  intro n hn
  refine taken hStep hAct hn fun hAlways => hFair n fun m hm => ?_
  exact (hDue _ (r.reachable m) (hAlways m hm).1).resolve_right (hAlways m hm).2

/-- **An event that comes to be due** again and again until it is taken. -/
theorem Leads.strict (hFair : r.Strict due e)
    (hStep : ∀ s d, M.Reachable s → P s → M.enabled s d → P (M.next s d) ∨ Q (M.next s d))
    (hAct : ∀ s, M.Reachable s → P s → M.enabled s e → Q (M.next s e))
    (hDue : r.Leads P fun s => due s ∨ Q s) : r.Leads P Q := by
  intro n hn
  refine taken hStep hAct hn fun hAlways => hFair n fun m hm => ?_
  obtain ⟨k, hk, hGood⟩ := hDue m (hAlways m hm).1
  exact ⟨k, hk, hGood.resolve_right (hAlways k (Nat.le_trans hm hk)).2⟩

end Run

-- ---------------------------------------------------------------------------
-- Runs that come to rest
-- ---------------------------------------------------------------------------

section

variable [∀ s e, Decidable (M.enabled s e)]

/-- A prefix of an executed list is executed, and the next event of the list is its next step. -/
theorem exec_take {s t : σ} {es : List ε} (h : M.exec s es = some t) :
    ∀ n, ∃ u, M.exec s (es.take n) = some u ∧ match es[n]? with
      | none => u = t
      | some e => M.enabled u e ∧ M.exec s (es.take (n + 1)) = some (M.next u e) := by
  induction es generalizing s with
  | nil =>
    intro n
    exact ⟨s, by simp [exec], by simpa [exec] using h⟩
  | cons e es ih =>
    unfold exec at h
    split at h
    · rename_i hEn
      intro n
      cases n with
      | zero => exact ⟨s, rfl, by simp [exec, hEn]⟩
      | succ n =>
        obtain ⟨u, hTake, hRest⟩ := ih h n
        refine ⟨u, by simp [exec, hEn, hTake], ?_⟩
        simpa [exec, hEn] using hRest
    · cases h

/-- An execution that succeeds ends in the state it is read off with a default. -/
theorem exec_getD {s t : σ} {es : List ε} (h : (M.exec s es).isSome = true) :
    M.exec s es = some ((M.exec s es).getD t) := by
  obtain ⟨u, hu⟩ := Option.isSome_iff_exists.mp h
  rw [hu]
  rfl

/-- What each of the events keeps holds at the end. -/
theorem exec_keeps {P : σ → Prop} {s t : σ} {es : List ε}
    (hKeep : ∀ e ∈ es, ∀ s, P s → M.enabled s e → P (M.next s e)) (h : M.exec s es = some t)
    (hs : P s) : P t := by
  induction es generalizing s with
  | nil =>
    cases h
    exact hs
  | cons e es ih =>
    unfold exec at h
    split at h
    · exact ih (fun e he => hKeep e (List.mem_cons_of_mem _ he)) h
        (hKeep e List.mem_cons_self s hs ‹_›)
    · cases h

/-- Run a list of events, and then rest. -/
def rest {s t : σ} {es : List ε} (hr : M.Reachable s) (h : M.exec s es = some t) : M.Run where
  state n := (M.exec s (es.take n)).getD t
  event n := es[n]?
  start := by simpa [exec] using hr
  step n := by
    obtain ⟨u, hTake, hNext⟩ := exec_take h n
    rw [hTake]
    cases hEvent : es[n]? with
    | none =>
      rw [hEvent] at hNext
      have hLen : es.length ≤ n := List.getElem?_eq_none_iff.mp hEvent
      rw [List.take_of_length_le (Nat.le_succ_of_le hLen), h]
      exact Or.inl ⟨rfl, hNext.symm⟩
    | some e =>
      rw [hEvent] at hNext
      rw [hNext.2]
      exact Or.inr ⟨e, rfl, hNext.1, rfl⟩

variable {s t : σ} {es : List ε} {hr : M.Reachable s} {h : M.exec s es = some t}

/-- After the last event of the list the run stays where it is. -/
theorem rest_state {n : Nat} (hn : es.length ≤ n) : (rest hr h).state n = t := by
  show (M.exec s (es.take n)).getD t = t
  rw [List.take_of_length_le hn, h]
  rfl

/-- What is not due at the end owes nothing. -/
theorem rest_strict {due : σ → Prop} {e : ε} (hNot : ¬ due t) : (rest hr h).Strict due e := by
  intro n hDue
  obtain ⟨k, hk, hAt⟩ := hDue (n + es.length) (Nat.le_add_right _ _)
  rw [rest_state (Nat.le_trans (Nat.le_add_left _ _) hk)] at hAt
  exact absurd hAt hNot

end

end Machine
