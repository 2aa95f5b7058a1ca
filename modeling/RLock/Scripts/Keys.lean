import RLock.Scripts.Effects

/-!
# RLock — many keys in one script

A script for several keys against the script for one key, run for each of them in
some order. It succeeds on the same keyspaces and leaves the same keyspace then. In
between nobody gets in, and when it does not succeed nothing was granted, which
cannot be said of one key after the other.

This says what the multi-key locks are for. A caller that takes its keys one by one
may end up with some of them; the single script takes all or none, and where the other
way would have got all of them, it gets the same.

The keys must be distinct here, as the caller of a script sees to: a repeated key is
harmless in one script, but its second turn in a row of scripts finds what the first
one left. And there must be a key at all, since with none the script for several keys
still checks its numbers.

* `attempt_inTurn` — the keys do not see each other, whatever the order.
-/

namespace RLock.Scripts

open KeyedStore RLock.Redis

variable (op : Op) (kind : Kind) (c : Clock) (token : String) (rawTtl : Option String)

/-- The script for one key, and whether it replied 1. -/
def attemptOne (k : Key) : Script Bool := do
  let reply ← attemptScript op kind c [k] token rawTtl
  return reply = 1

/-- The script for one key succeeds on this slot. -/
def Passed (v : Slot) : Prop :=
  grantDeadline kind c rawTtl ≠ none ∧ SlotOk op kind c.ms v ∧ ¬ turnedDown op kind c.ms token v

/-- What it then leaves of the slot. -/
def grant (v : Slot) : Slot := granted kind c.ms ((grantDeadline kind c rawTtl).getD 0) token v

/-- A script succeeds when its numbers are accepted and every listed slot passes. -/
theorem attempt_one_iff (keys : List Key) (s : Keyspace) :
    ((attemptScript op kind c keys token rawTtl).run s).1 = .ok 1 ↔
      grantDeadline kind c rawTtl ≠ none ∧ ∀ k ∈ keys, Passed op kind c token rawTtl (s k) := by
  rw [(attempt_effect op kind c keys token rawTtl s).one_iff]
  refine and_congr_right fun hDeadline => forall₂_congr fun k hk => ?_
  exact ⟨fun h => ⟨hDeadline, h⟩, fun h => h.2⟩

/-- A script that succeeds rewrites its keys, each by itself. -/
theorem attempt_store {keys : List Key} {s : Keyspace}
    (hOne : ((attemptScript op kind c keys token rawTtl).run s).1 = .ok 1) :
    ((attemptScript op kind c keys token rawTtl).run s).2 =
      mapOn keys (grant kind c token rawTtl) s := by
  obtain ⟨d, hDeadline, hStore, -⟩ :=
    (attempt_effect op kind c keys token rawTtl s).of_one hOne
  unfold grant
  rw [hStore, hDeadline, Option.getD_some]

/-- The program for one key is the script for the list of this key. -/
theorem run_attemptOne (k : Key) (s : Keyspace) :
    (((attemptOne op kind c token rawTtl k).run s).1 = .ok true ↔
      ((attemptScript op kind c [k] token rawTtl).run s).1 = .ok 1) ∧
    ((attemptOne op kind c token rawTtl k).run s).2 =
      ((attemptScript op kind c [k] token rawTtl).run s).2 := by
  unfold attemptOne
  rcases hRun : (attemptScript op kind c [k] token rawTtl).run s with ⟨e | reply, s'⟩
  · rw [run_bind_error hRun]
    exact ⟨⟨fun h => (nomatch h), fun h => (nomatch h)⟩, rfl⟩
  · rw [run_bind_ok hRun, run_pure]
    exact ⟨by simp, rfl⟩

/-- **Many keys in one script** are as many keys one after the other, in any order. -/
theorem attempt_inTurn {keys order : List Key} (hSome : keys ≠ []) (hNodup : keys.Nodup)
    (hOrder : order.Perm keys) (s : Keyspace) :
    (((attemptScript op kind c keys token rawTtl).run s).1 = .ok 1 ↔
      ((inTurn (attemptOne op kind c token rawTtl) order).run s).1 = .ok true) ∧
    (((attemptScript op kind c keys token rawTtl).run s).1 = .ok 1 →
      ((attemptScript op kind c keys token rawTtl).run s).2 =
        ((inTurn (attemptOne op kind c token rawTtl) order).run s).2) := by
  have hSame : ∀ k, k ∈ keys ↔ k ∈ order := fun k => (hOrder.mem_iff).symm
  have hYes : ∀ k s, ((attemptOne op kind c token rawTtl k).run s).1 = .ok true ↔
      Passed op kind c token rawTtl (s k) := by
    intro k s
    rw [(run_attemptOne op kind c token rawTtl k s).1, attempt_one_iff, List.forall_mem_singleton]
    exact ⟨fun h => h.2, fun h => ⟨h.1, h⟩⟩
  have hStore : ∀ k s, Passed op kind c token rawTtl (s k) →
      ((attemptOne op kind c token rawTtl k).run s).2 =
        mapOn [k] (grant kind c token rawTtl) s := by
    intro k s hPassed
    obtain ⟨hIff, hLeft⟩ := run_attemptOne op kind c token rawTtl k s
    rw [hLeft, attempt_store op kind c token rawTtl (hIff.mp ((hYes k s).mpr hPassed))]
  obtain ⟨hTurn, hLeft⟩ := inTurn_spec hYes hStore (hOrder.nodup_iff.mpr hNodup) s
  have hAll : (∀ k ∈ order, Passed op kind c token rawTtl (s k)) ↔
      ∀ k ∈ keys, Passed op kind c token rawTtl (s k) := by
    refine forall_congr' fun k => ?_
    rw [hSame k]
  -- some key checks the numbers, in one script and in many
  obtain ⟨k, hk⟩ := List.exists_mem_of_ne_nil keys hSome
  rw [hTurn, hAll, attempt_one_iff]
  refine ⟨⟨fun h => h.2, fun h => ⟨(h k hk).1, h⟩⟩, fun h => ?_⟩
  rw [hLeft (hAll.mpr h.2), ← mapOn_of_same hSame]
  exact attempt_store op kind c token rawTtl
    ((attempt_one_iff op kind c token rawTtl keys s).mpr h)

/-- Two keys for a writer, taken in the other order. -/
theorem attempt_inTurn_swapped :
    ((attemptScript .acquire .write ⟨5000, by decide, by decide⟩ ["k", "l"] "t" (some "10")).run
        fun _ => none).2 =
      ((inTurn (attemptOne .acquire .write ⟨5000, by decide, by decide⟩ "t" (some "10"))
        ["l", "k"]).run fun _ => none).2 :=
  (attempt_inTurn .acquire .write _ "t" (some "10") (List.cons_ne_nil _ _) (by decide)
    (List.Perm.swap _ _ _) fun _ => none).2 (by decide +kernel)

end RLock.Scripts
