import Mathlib.Data.Finset.Basic
import Mathlib.Algebra.BigOperators.Group.Finset.Basic

/-!
# Programs over a keyed store

A small language of atomic programs over a state, with exceptions that do
*not* roll back: what a program wrote before it raised stays written. On top
of it, programs over a single slot of a store `κ → V`, lifted to the store at
one key, and the two loops over a list of keys that a script needs: a loop
whose body may return early, and a loop that sums.

The loop rules are stated for bodies that are *stable* on the slots they
meet: running the body again on the slot it left gives the same outcome and
leaves the slot alone. With a stable body a repeated key is harmless, so the
effect of a loop on the store is pointwise. Keys, slots, errors and results are
all parameters, and a list of keys may be empty or repeat itself.

A body that reads may also rewrite: a reader that first removes what has expired is a
program whose result is about the slot it leaves. This is why even the refusal of a
program is stated with `RewritesOn`, and not as an unchanged store.

Main results:

* `forKeys_all` / `forKeys_stop` — an early-return loop either passes every
  key and rewrites exactly the listed slots, or ends with the outcome of one
  listed slot and has rewritten nothing but listed slots.
* `sumKeys_spec` — a summing loop adds up the first outcome of each distinct
  listed key.
* `inTurn_spec` — a program for each of several distinct keys, one after the other.
* `checkThenWrite_ok` / `checkThenWrite_refused` — the two-loop program that
  first checks every key and then writes every key is all-or-nothing.
-/

namespace KeyedStore

/-- A program over states `σ`: it returns or raises, and the state it leaves
is kept in both cases. -/
@[ext] structure Prog (σ ε α : Type) where
  run : σ → Except ε α × σ

variable {σ ε α β ρ κ V : Type}

instance : Monad (Prog σ ε) where
  pure a := ⟨fun s => (.ok a, s)⟩
  bind p f := ⟨fun s =>
    match p.run s with
    | (.ok a, s') => (f a).run s'
    | (.error e, s') => (.error e, s')⟩

/-- Raise an error, leaving the state as it is. -/
def raise (e : ε) : Prog σ ε α := ⟨fun s => (.error e, s)⟩

@[simp] theorem run_pure (a : α) (s : σ) : (pure a : Prog σ ε α).run s = (.ok a, s) := rfl

@[simp] theorem run_raise (e : ε) (s : σ) : (raise e : Prog σ ε α).run s = (.error e, s) := rfl

/-- A program that raises skips what would come after it. -/
theorem run_bind (p : Prog σ ε α) (f : α → Prog σ ε β) (s : σ) :
    (p >>= f).run s =
      match p.run s with
      | (.ok a, s') => (f a).run s'
      | (.error e, s') => (.error e, s') := rfl

theorem run_bind_ok {p : Prog σ ε α} {f : α → Prog σ ε β} {s s' : σ} {a : α}
    (h : p.run s = (.ok a, s')) : (p >>= f).run s = (f a).run s' := by
  rw [run_bind, h]

/-- An error ends the whole; the state is the one it left. -/
theorem run_bind_error {p : Prog σ ε α} {f : α → Prog σ ε β} {s s' : σ} {e : ε}
    (h : p.run s = (.error e, s')) : (p >>= f).run s = (.error e, s') := by
  rw [run_bind, h]

/-! ## Rewriting listed slots -/

/-- Only listed slots were rewritten, each of them by `f` if at all. -/
def RewritesOn (keys : List κ) (f : V → V) (s s' : κ → V) : Prop :=
  ∀ k, s' k = s k ∨ k ∈ keys ∧ s' k = f (s k)

theorem RewritesOn.refl (keys : List κ) (f : V → V) (s : κ → V) : RewritesOn keys f s s :=
  fun _ => Or.inl rfl

/-- Slots that are not listed are as they were. -/
theorem RewritesOn.of_not_mem {keys : List κ} {f : V → V} {s s' : κ → V}
    (h : RewritesOn keys f s s') {k : κ} (hk : k ∉ keys) : s' k = s k :=
  (h k).resolve_right fun h => hk h.1

/-- Running the body again on the slot it left changes neither its outcome nor
the slot. -/
def Stable (body : Prog V ε α) (v : V) : Prop := body.run (body.run v).2 = body.run v

variable [DecidableEq κ]

/-- Rewrite exactly the listed slots by `f`. -/
def mapOn (keys : List κ) (f : V → V) (s : κ → V) : κ → V :=
  fun k => if k ∈ keys then f (s k) else s k

theorem mapOn_of_mem {keys : List κ} {k : κ} (h : k ∈ keys) (f : V → V) (s : κ → V) :
    mapOn keys f s k = f (s k) := if_pos h

theorem mapOn_of_not_mem {keys : List κ} {k : κ} (h : k ∉ keys) (f : V → V) (s : κ → V) :
    mapOn keys f s k = s k := if_neg h

@[simp] theorem mapOn_nil (f : V → V) (s : κ → V) : mapOn [] f s = s := by
  funext k
  simp [mapOn]

/-- Two rewritings of the same slots compose. -/
theorem mapOn_mapOn (keys : List κ) (f g : V → V) (s : κ → V) :
    mapOn keys g (mapOn keys f s) = mapOn keys (fun v => g (f v)) s := by
  funext k
  by_cases hk : k ∈ keys
  · rw [mapOn_of_mem hk, mapOn_of_mem hk, mapOn_of_mem hk]
  · rw [mapOn_of_not_mem hk, mapOn_of_not_mem hk, mapOn_of_not_mem hk]

/-- Only what the functions do to the listed slots matters. -/
theorem mapOn_congr {keys : List κ} {f g : V → V} {s : κ → V}
    (h : ∀ k ∈ keys, f (s k) = g (s k)) : mapOn keys f s = mapOn keys g s := by
  funext k
  by_cases hk : k ∈ keys
  · rw [mapOn_of_mem hk, mapOn_of_mem hk, h k hk]
  · rw [mapOn_of_not_mem hk, mapOn_of_not_mem hk]

/-- Only the set of the keys matters, not their order or number. -/
theorem mapOn_of_same {keys keys' : List κ} (h : ∀ k, k ∈ keys ↔ k ∈ keys') (f : V → V)
    (s : κ → V) : mapOn keys f s = mapOn keys' f s := by
  funext k
  exact if_congr (h k) rfl rfl

/-- Distinct keys can be rewritten one by one. -/
theorem mapOn_cons {keys : List κ} {k : κ} (hk : k ∉ keys) (f : V → V) (s : κ → V) :
    mapOn (k :: keys) f s = mapOn keys f (mapOn [k] f s) := by
  funext k'
  by_cases hSame : k' = k
  · subst hSame
    rw [mapOn_of_mem List.mem_cons_self, mapOn_of_not_mem hk, mapOn_of_mem List.mem_cons_self]
  · have hNot : k' ∉ [k] := fun hMem => hSame (List.mem_singleton.mp hMem)
    by_cases hk' : k' ∈ keys
    · rw [mapOn_of_mem (List.mem_cons_of_mem _ hk'), mapOn_of_mem hk', mapOn_of_not_mem hNot]
    · rw [mapOn_of_not_mem hk', mapOn_of_not_mem hNot, mapOn_of_not_mem]
      exact fun hMem => (List.mem_cons.mp hMem).elim hSame hk'

/-! ## Programs at one key -/

/-- Run a slot program at key `k` of a store. -/
def atKey (k : κ) (p : Prog V ε α) : Prog (κ → V) ε α := ⟨fun s =>
  ((p.run (s k)).1, Function.update s k (p.run (s k)).2)⟩

/-- A slot program reads and writes its own slot. -/
theorem run_atKey (k : κ) (p : Prog V ε α) (s : κ → V) :
    (atKey k p).run s = ((p.run (s k)).1, Function.update s k (p.run (s k)).2) := rfl

/-- Two slot programs run one after the other at the same key are one slot
program. -/
theorem atKey_bind (k : κ) (p : Prog V ε α) (f : α → Prog V ε β) :
    (atKey k p >>= fun a => atKey k (f a)) = atKey k (p >>= f) := by
  ext1
  funext s
  rw [run_bind, run_atKey, run_atKey, run_bind]
  rcases h : p.run (s k) with ⟨r, v⟩
  cases r with
  | error e => rfl
  | ok a => simp [run_atKey]

@[simp] theorem atKey_pure (k : κ) (a : α) :
    atKey k (pure a : Prog V ε α) = (pure a : Prog (κ → V) ε α) := by
  ext1
  funext s
  simp [run_atKey]

/-- After a turn at key `k` a stable body sees every slot as it saw it before:
a repeated key has its stable slot, the others are untouched. -/
theorem stable_after_turn {body : Prog V ε α} {s : κ → V} {k k' : κ}
    (h : Stable body (s k')) :
    body.run (Function.update s k (body.run (s k)).2 k') = body.run (s k') := by
  by_cases hk : k' = k
  · subst hk
    rw [Function.update_self]
    exact h
  · rw [Function.update_of_ne hk]

/-! ## Loops -/

/-- `for k in keys do body`, where the body returns early with `some r`. -/
def forKeys (body : κ → Prog σ ε (Option ρ)) : List κ → Prog σ ε (Option ρ)
  | [] => pure none
  | k :: keys => do
    match ← body k with
    | some r => pure (some r)
    | none => forKeys body keys

/-- `for k in keys do total := total + body k`. -/
def sumKeys (body : κ → Prog σ ε Nat) : List κ → Prog σ ε Nat
  | [] => pure 0
  | k :: keys => do
    let n ← body k
    let m ← sumKeys body keys
    pure (n + m)

/-- One turn of an early-return loop at a key that passes. -/
theorem forKeys_cons_next {body : Prog V ε (Option ρ)} {k : κ} {keys : List κ} {s : κ → V}
    (h : (body.run (s k)).1 = .ok none) :
    (forKeys (fun k => atKey k body) (k :: keys)).run s =
      (forKeys (fun k => atKey k body) keys).run
        (Function.update s k (body.run (s k)).2) := by
  have hTurn : (atKey k body).run s = (.ok none, Function.update s k (body.run (s k)).2) := by
    rw [run_atKey, h]
  rw [forKeys, run_bind_ok hTurn]

/-- One turn of an early-return loop at a key that does not pass. -/
theorem forKeys_cons_stop {body : Prog V ε (Option ρ)} {k : κ} {keys : List κ} {s : κ → V}
    (h : (body.run (s k)).1 ≠ .ok none) :
    (forKeys (fun k => atKey k body) (k :: keys)).run s =
      ((body.run (s k)).1, Function.update s k (body.run (s k)).2) := by
  rw [forKeys]
  rcases hb : body.run (s k) with ⟨r, v⟩
  rw [hb] at h
  cases r with
  | error e => exact run_bind_error (by rw [run_atKey, hb])
  | ok o =>
    cases o with
    | none => exact absurd rfl h
    | some r =>
      have hTurn : (atKey k body).run s = (.ok (some r), Function.update s k v) := by
        rw [run_atKey, hb]
      rw [run_bind_ok hTurn]
      rfl

/-- **Early-return loop, all keys pass.** The loop falls through and rewrites
exactly the listed slots. -/
theorem forKeys_all {body : Prog V ε (Option ρ)} :
    ∀ {keys : List κ} {s : κ → V},
      (∀ k ∈ keys, Stable body (s k)) → (∀ k ∈ keys, (body.run (s k)).1 = .ok none) →
      (forKeys (fun k => atKey k body) keys).run s =
        (.ok none, mapOn keys (fun v => (body.run v).2) s) := by
  intro keys
  induction keys with
  | nil =>
    intro s _ _
    rw [forKeys, run_pure, mapOn_nil]
  | cons k keys ih =>
    intro s hS hAll
    -- the later keys find their slots as they were, also where `k` comes again
    have hTurn : ∀ k' ∈ keys,
        body.run (Function.update s k (body.run (s k)).2 k') = body.run (s k') :=
      fun k' hk' => stable_after_turn (hS k' (List.mem_cons_of_mem _ hk'))
    rw [forKeys_cons_next (hAll k (List.mem_cons_self ..)), ih]
    · congr 1
      funext k'
      by_cases hk' : k' ∈ keys
      · rw [mapOn_of_mem hk', mapOn_of_mem (List.mem_cons_of_mem _ hk'), hTurn k' hk']
      · rw [mapOn_of_not_mem hk']
        by_cases hkk : k' = k
        · subst hkk
          rw [Function.update_self, mapOn_of_mem (List.mem_cons_self ..)]
        · rw [Function.update_of_ne hkk, mapOn_of_not_mem (by simp [hk', hkk])]
    · intro k' hk'
      unfold Stable
      rw [hTurn k' hk']
      exact hS k' (List.mem_cons_of_mem _ hk')
    · intro k' hk'
      rw [hTurn k' hk']
      exact hAll k' (List.mem_cons_of_mem _ hk')

/-- **Early-return loop, some key does not pass.** The loop ends with the
outcome of a listed slot, and only listed slots have been rewritten. -/
theorem forKeys_stop {body : Prog V ε (Option ρ)} :
    ∀ {keys : List κ} {s : κ → V},
      (∀ k ∈ keys, Stable body (s k)) → (∃ k ∈ keys, (body.run (s k)).1 ≠ .ok none) →
      (∃ k ∈ keys, (body.run (s k)).1 ≠ .ok none ∧
        ((forKeys (fun k => atKey k body) keys).run s).1 = (body.run (s k)).1) ∧
      RewritesOn keys (fun v => (body.run v).2) s
        ((forKeys (fun k => atKey k body) keys).run s).2 := by
  intro keys
  induction keys with
  | nil =>
    rintro s _ ⟨k, hk, -⟩
    exact absurd hk List.not_mem_nil
  | cons k keys ih =>
    intro s hS hEx
    -- the first key stops the loop, or the rest of the list does
    by_cases hPass : (body.run (s k)).1 = .ok none
    · have hTurn : ∀ k' ∈ keys,
          body.run (Function.update s k (body.run (s k)).2 k') = body.run (s k') :=
        fun k' hk' => stable_after_turn (hS k' (List.mem_cons_of_mem _ hk'))
      have hStop : ∃ k' ∈ keys,
          (body.run (Function.update s k (body.run (s k)).2 k')).1 ≠ .ok none := by
        obtain ⟨k', hk', hne⟩ := hEx
        rcases List.mem_cons.mp hk' with rfl | hmem
        · exact absurd hPass hne
        · exact ⟨k', hmem, by rwa [hTurn k' hmem]⟩
      have hStable : ∀ k' ∈ keys,
          Stable body (Function.update s k (body.run (s k)).2 k') := by
        intro k' hk'
        unfold Stable
        rw [hTurn k' hk']
        exact hS k' (List.mem_cons_of_mem _ hk')
      obtain ⟨⟨k', hk', hne, hOut⟩, hRew⟩ := ih hStable hStop
      rw [hTurn k' hk'] at hne hOut
      rw [forKeys_cons_next hPass]
      refine ⟨⟨k', List.mem_cons_of_mem _ hk', hne, hOut⟩, fun k'' => ?_⟩
      -- what the rest rewrote, seen from before the first turn
      rcases hRew k'' with heq | ⟨hmem, heq⟩
      · by_cases hkk : k'' = k
        · subst hkk
          rw [Function.update_self] at heq
          exact Or.inr ⟨List.mem_cons_self .., heq⟩
        · rw [Function.update_of_ne hkk] at heq
          exact Or.inl heq
      · simp only [hTurn k'' hmem] at heq
        exact Or.inr ⟨List.mem_cons_of_mem _ hmem, heq⟩
    · rw [forKeys_cons_stop hPass]
      refine ⟨⟨k, List.mem_cons_self .., hPass, rfl⟩, fun k'' => ?_⟩
      by_cases hkk : k'' = k
      · subst hkk
        exact Or.inr ⟨List.mem_cons_self .., Function.update_self ..⟩
      · exact Or.inl (Function.update_of_ne hkk ..)

/-- **Summing loop.** A repeated key adds nothing the second time, so the total
runs over the distinct listed keys, and exactly the listed slots are
rewritten. -/
theorem sumKeys_spec {body : Prog V ε Nat} {count : V → Nat} {f : V → V}
    (hBody : ∀ v, body.run v = (.ok (count v), f v))
    (hAgain : ∀ v, count (f v) = 0) (hIdem : ∀ v, f (f v) = f v) :
    ∀ (keys : List κ) (s : κ → V),
      (sumKeys (fun k => atKey k body) keys).run s =
        (.ok (∑ k ∈ keys.toFinset, count (s k)), mapOn keys f s) := by
  intro keys
  induction keys with
  | nil =>
    intro s
    rw [sumKeys, run_pure, mapOn_nil]
    rfl
  | cons k keys ih =>
    intro s
    have hHead : (atKey k body).run s =
        (.ok (count (s k)), Function.update s k (f (s k))) := by
      rw [run_atKey, hBody]
    rw [sumKeys, run_bind_ok hHead, run_bind_ok (ih _), run_pure, List.toFinset_cons]
    congr 1
    · congr 1
      by_cases hk : k ∈ keys.toFinset
      · -- the key comes again later: its slot counts now and not then
        rw [Finset.insert_eq_of_mem hk, ← Finset.add_sum_erase _ _ hk,
          ← Finset.add_sum_erase _ (fun k => count (s k)) hk, Function.update_self, hAgain,
          Nat.zero_add]
        congr 1
        refine Finset.sum_congr rfl fun k' hk' => ?_
        rw [Function.update_of_ne (Finset.ne_of_mem_erase hk')]
      · rw [Finset.sum_insert hk]
        congr 1
        refine Finset.sum_congr rfl fun k' hk' => ?_
        have hne : k' ≠ k := fun heq => hk (heq ▸ hk')
        rw [Function.update_of_ne hne]
    -- the second rewriting of a repeated slot does nothing
    · funext k'
      by_cases hkk : k' = k
      · subst hkk
        rw [mapOn_of_mem (List.mem_cons_self ..)]
        by_cases hk : k' ∈ keys
        · rw [mapOn_of_mem hk, Function.update_self, hIdem]
        · rw [mapOn_of_not_mem hk, Function.update_self]
      · by_cases hk : k' ∈ keys
        · rw [mapOn_of_mem hk, mapOn_of_mem (List.mem_cons_of_mem _ hk),
            Function.update_of_ne hkk]
        · rw [mapOn_of_not_mem hk, mapOn_of_not_mem (by simp [hk, hkk]),
            Function.update_of_ne hkk]

/-! ## One key after the other -/

/-- Run a program for each key in turn, up to the first that says no. -/
def inTurn (p : κ → Prog (κ → V) ε Bool) : List κ → Prog (κ → V) ε Bool
  | [] => pure true
  | k :: keys => do
    if ← p k then inTurn p keys else return false

/-- When a program looks at its own key only, and rewrites that one if it says yes,
then distinct keys do not see each other. -/
theorem inTurn_spec {p : κ → Prog (κ → V) ε Bool} {pass : V → Prop} {f : V → V}
    (hYes : ∀ k s, ((p k).run s).1 = .ok true ↔ pass (s k))
    (hStore : ∀ k s, pass (s k) → ((p k).run s).2 = mapOn [k] f s) :
    ∀ {keys : List κ}, keys.Nodup → ∀ s : κ → V,
      (((inTurn p keys).run s).1 = .ok true ↔ ∀ k ∈ keys, pass (s k)) ∧
        ((∀ k ∈ keys, pass (s k)) → ((inTurn p keys).run s).2 = mapOn keys f s) := by
  intro keys
  induction keys with
  | nil =>
    intro _ s
    rw [inTurn, run_pure, mapOn_nil]
    exact ⟨⟨fun _ _ hNo => (nomatch hNo), fun _ => rfl⟩, fun _ => rfl⟩
  | cons k keys ih =>
    intro hNodup s
    obtain ⟨hk, hNodup⟩ := List.nodup_cons.mp hNodup
    rw [List.forall_mem_cons]
    by_cases hPass : pass (s k)
    · have hFirst : (p k).run s = (.ok true, mapOn [k] f s) :=
        Prod.ext ((hYes k s).mpr hPass) (hStore k s hPass)
      -- a key that is not `k` does not see the first program
      have hOther : (∀ k' ∈ keys, pass (mapOn [k] f s k')) ↔ ∀ k' ∈ keys, pass (s k') := by
        refine forall₂_congr fun k' hk' => ?_
        have hNot : k' ∉ [k] := by
          rw [List.mem_singleton]
          rintro rfl
          exact hk hk'
        rw [mapOn_of_not_mem hNot]
      obtain ⟨hIff, hRest⟩ := ih hNodup (mapOn [k] f s)
      rw [inTurn, run_bind_ok hFirst, if_pos rfl, hIff, hOther, mapOn_cons hk]
      exact ⟨⟨fun h => ⟨hPass, h⟩, fun h => h.2⟩, fun h => hRest (hOther.mpr h.2)⟩
    · refine ⟨⟨fun hOk => absurd ?_ hPass, fun h => absurd h.1 hPass⟩, fun h => absurd h.1 hPass⟩
      -- the whole succeeds only if its first program does
      rcases hRun : (p k).run s with ⟨e | b, s'⟩
      · rw [inTurn, run_bind_error hRun] at hOk
        cases hOk
      · rw [inTurn, run_bind_ok hRun] at hOk
        cases b with
        | false => cases hOk
        | true =>
          refine (hYes k s).mp ?_
          rw [hRun]

/-! ## Check every key, then write every key -/

/-- Refuse with `no` at the first listed key that `check` turns down, else
write every listed key and return `yes`. -/
def checkThenWrite (check : κ → Prog σ ε Bool) (write : κ → Prog σ ε Unit) (no yes : ρ)
    (keys : List κ) : Prog σ ε ρ := do
  match ← forKeys (fun k => do if ← check k then pure (some no) else pure none) keys with
  | some r => pure r
  | none =>
    let _ ← forKeys (fun k => do write k; pure (none : Option ρ)) keys
    pure yes

section CheckThenWrite

variable {check : Prog V ε Bool} {write : Prog V ε Unit} {no yes : ρ}
variable {keys : List κ} {s : κ → V}

/-- The loop body that checks one slot. -/
private def checkBody (check : Prog V ε Bool) (no : ρ) : Prog V ε (Option ρ) := do
  if ← check then pure (some no) else pure none

/-- The loop body that writes one slot. -/
private def writeBody (write : Prog V ε Unit) : Prog V ε (Option ρ) := do
  write
  pure none

omit [DecidableEq κ] in
/-- The body of the first loop turns a refusal into an early return. -/
private theorem run_checkBody (v : V) :
    (checkBody check no).run v =
      (match (check.run v).1 with
        | .ok true => .ok (some no)
        | .ok false => .ok none
        | .error e => .error e, (check.run v).2) := by
  unfold checkBody
  rw [run_bind]
  rcases check.run v with ⟨r, v'⟩
  cases r with
  | error e => rfl
  | ok b => cases b <;> rfl

omit [DecidableEq κ] in
/-- The body of the second loop never returns early. -/
private theorem run_writeBody {v v' : V} (h : write.run v = (.ok (), v')) :
    (writeBody (ρ := ρ) write).run v = (.ok none, v') := by
  unfold writeBody
  rw [run_bind_ok h, run_pure]

/-- Both loops are loops over slot programs, to which the loop rules apply. -/
private theorem checkThenWrite_eq :
    checkThenWrite (fun k : κ => atKey k check) (fun k => atKey k write) no yes keys = (do
      match ← forKeys (fun k => atKey k (checkBody check no)) keys with
      | some r => pure r
      | none =>
        let _ ← forKeys (fun k => atKey k (writeBody (ρ := ρ) write)) keys
        pure yes) := by
  have hCheck : (fun k : κ => (do
      if ← atKey k check then pure (some no) else pure none : Prog (κ → V) ε (Option ρ))) =
      fun k => atKey k (checkBody check no) := by
    funext k
    rw [checkBody, ← atKey_bind]
    congr 1
    funext b
    cases b <;> simp
  have hWrite : (fun k : κ => (do
      atKey k write; pure none : Prog (κ → V) ε (Option ρ))) =
      fun k => atKey k (writeBody (ρ := ρ) write) := by
    funext k
    rw [writeBody, ← atKey_bind]
    congr 1
    funext _
    simp
  rw [checkThenWrite, hCheck, hWrite]

omit [DecidableEq κ] in
/-- A stable check makes a stable loop body. -/
private theorem checkBody_stable {v : V} (h : Stable check v) :
    Stable (checkBody check no) v := by
  unfold Stable at *
  simp only [run_checkBody, h]

/-- **All-or-nothing, success.** When no listed slot is turned down, every
listed slot is checked and then written, and no other slot changes. -/
theorem checkThenWrite_ok {f : V → V}
    (hStable : ∀ k ∈ keys, Stable check (s k))
    (hCheck : ∀ k ∈ keys, (check.run (s k)).1 = .ok false)
    (hWrite : ∀ k ∈ keys, write.run (check.run (s k)).2 = (.ok (), f (s k)))
    (hAgain : ∀ k ∈ keys, write.run (f (s k)) = (.ok (), f (s k))) :
    (checkThenWrite (fun k => atKey k check) (fun k => atKey k write) no yes keys).run s =
      (.ok yes, mapOn keys f s) := by
  -- the first loop falls through
  have hLoop : (forKeys (fun k => atKey k (checkBody check no)) keys).run s =
      (.ok none, mapOn keys (fun v => ((checkBody check no).run v).2) s) :=
    forKeys_all (fun k hk => checkBody_stable (hStable k hk))
      (fun k hk => by rw [run_checkBody, hCheck k hk])
  have hSlot : ∀ k ∈ keys,
      mapOn keys (fun v => ((checkBody check no).run v).2) s k = (check.run (s k)).2 := by
    intro k hk
    rw [mapOn_of_mem hk, run_checkBody]
  -- and the second one writes the slots the first one left
  have hWrites : (forKeys (fun k => atKey k (writeBody (ρ := ρ) write)) keys).run
      (mapOn keys (fun v => ((checkBody check no).run v).2) s) =
      (.ok none, mapOn keys (fun v => ((writeBody (ρ := ρ) write).run v).2)
        (mapOn keys (fun v => ((checkBody check no).run v).2) s)) := by
    refine forKeys_all (fun k hk => ?_) (fun k hk => ?_)
    · unfold Stable
      rw [hSlot k hk, run_writeBody (hWrite k hk), run_writeBody (hAgain k hk)]
    · rw [hSlot k hk, run_writeBody (hWrite k hk)]
  rw [checkThenWrite_eq, run_bind_ok hLoop]
  show (_ >>= _ : Prog (κ → V) ε ρ).run _ = _
  rw [run_bind_ok hWrites, run_pure, mapOn_mapOn]
  congr 1
  refine mapOn_congr fun k hk => ?_
  rw [run_checkBody, run_writeBody (hWrite k hk)]

variable (write no yes) in
/-- **All-or-nothing, refusal.** When some listed slot is turned down or raises,
the program ends with that slot's refusal or error before any write, and the
listed slots have at most been rewritten by the check. -/
theorem checkThenWrite_refused
    (hStable : ∀ k ∈ keys, Stable check (s k))
    (hCheck : ∃ k ∈ keys, (check.run (s k)).1 ≠ .ok false) :
    (∃ k ∈ keys,
      ((check.run (s k)).1 = .ok true ∧
        ((checkThenWrite (fun k => atKey k check) (fun k => atKey k write) no yes keys).run
          s).1 = .ok no) ∨
      (∃ e, (check.run (s k)).1 = .error e ∧
        ((checkThenWrite (fun k => atKey k check) (fun k => atKey k write) no yes keys).run
          s).1 = .error e)) ∧
    RewritesOn keys (fun v => (check.run v).2) s
      ((checkThenWrite (fun k => atKey k check) (fun k => atKey k write) no yes keys).run
        s).2 := by
  have hStop : ∃ k ∈ keys, ((checkBody check no).run (s k)).1 ≠ .ok none := by
    obtain ⟨k, hk, hne⟩ := hCheck
    refine ⟨k, hk, ?_⟩
    rw [run_checkBody]
    rcases h : (check.run (s k)).1 with e | b
    · simp
    · cases b with
      | false => exact absurd h hne
      | true => simp
  have hBody : ∀ k ∈ keys, Stable (checkBody check no) (s k) := fun k hk =>
    checkBody_stable (hStable k hk)
  obtain ⟨⟨k, hk, hne, hOut⟩, hRew⟩ := forKeys_stop hBody hStop
  simp only [run_checkBody] at hne hOut hRew
  rw [checkThenWrite_eq]
  rcases hLoop : (forKeys (fun k => atKey k (checkBody check no)) keys).run s with ⟨r, s'⟩
  rw [hLoop] at hOut hRew
  -- the slot that stopped the loop raised, or was turned down
  rcases hc : (check.run (s k)).1 with e | b
  · simp only [hc] at hOut
    subst hOut
    rw [run_bind_error hLoop]
    exact ⟨⟨k, hk, Or.inr ⟨e, hc, rfl⟩⟩, hRew⟩
  · cases b with
    | false => simp [hc] at hne
    | true =>
      simp only [hc] at hOut
      subst hOut
      rw [run_bind_ok hLoop]
      exact ⟨⟨k, hk, Or.inl ⟨hc, rfl⟩⟩, hRew⟩

end CheckThenWrite

end KeyedStore
