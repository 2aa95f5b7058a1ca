import Mathlib.Logic.Function.Basic

/-!
# Tables kept lazily

An abstract table gives each index at most one entry. An entry is *live* or
not; once it is not, nobody may observe it. A store keeps the table lazily: it
may forget an entry that is no longer live at any moment, and it may go on
holding such an entry for as long as it likes.

`Represents` is the relation between the two, and the rules below say which
moves of the store and of the table keep it: time passing (`weaken`), the store
forgetting dead entries (`purge`), and both overwriting or erasing the same
entries (`update`). `live_iff` is what an observer gets out of it.

The store is a relation and not a function, so that one index may be stored in more
than one place and an entry of the store may be read off in any way. The table is the
specification: it has no clock and forgets nothing by itself.

## Results

* `represents_empty` — the empty store and the empty table.
* `Represents.live_iff` — what is live is stored exactly if it is in the table.
* `Represents.weaken`, `Represents.purge`, `Represents.update` — what keeps the
  relation.
-/

namespace LazyTable

variable {ι β : Type}

/-- The store holds no more than the table and no less than its live entries. -/
structure Represents (live : ι → β → Prop) (stored : ι → β → Prop) (table : ι → Option β) :
    Prop where
  sound : ∀ i b, stored i b → table i = some b
  complete : ∀ i b, table i = some b → live i b → stored i b

section

variable {live live' : ι → β → Prop} {stored stored' : ι → β → Prop} {table : ι → Option β}

/-- A live entry is stored exactly when it is in the table. -/
theorem Represents.live_iff (h : Represents live stored table) {i : ι} {b : β}
    (hLive : live i b) : stored i b ↔ table i = some b :=
  ⟨h.sound i b, fun hTable => h.complete i b hTable hLive⟩

/-- The empty store represents the empty table. -/
theorem represents_empty : Represents live (fun _ _ => False) (fun _ : ι => (none : Option β)) :=
  ⟨fun _ _ h => h.elim, fun _ _ h => nomatch h⟩

/-- Fewer entries are live. -/
theorem Represents.weaken (h : Represents live stored table)
    (hLive : ∀ i b, live' i b → live i b) : Represents live' stored table :=
  ⟨h.sound, fun i b hTable hl => h.complete i b hTable (hLive i b hl)⟩

/-- The store forgets entries that are not live. -/
theorem Represents.purge (h : Represents live stored table)
    (hSub : ∀ i b, stored' i b → stored i b)
    (hKept : ∀ i b, stored i b → live i b → stored' i b) : Represents live stored' table :=
  ⟨fun i b hs => h.sound i b (hSub i b hs),
    fun i b hTable hl => hKept i b (h.complete i b hTable hl) hl⟩

/-- Store and table overwrite the same entries; elsewhere the store may also
forget entries that are not live. -/
theorem Represents.update (h : Represents live stored table) (p : ι → Prop) [DecidablePred p]
    (new : ι → Option β)
    (hIn : ∀ i b, p i → (stored' i b ↔ new i = some b))
    (hSub : ∀ i b, ¬ p i → stored' i b → stored i b)
    (hKept : ∀ i b, ¬ p i → stored i b → live i b → stored' i b) :
    Represents live stored' (fun i => if p i then new i else table i) := by
  -- the new entries agree on both sides; elsewhere the old relation is left
  refine ⟨fun i b hs => ?_, fun i b hTable hl => ?_⟩
  · by_cases hp : p i
    · rw [if_pos hp]
      exact (hIn i b hp).mp hs
    · rw [if_neg hp]
      exact h.sound i b (hSub i b hp hs)
  · by_cases hp : p i
    · rw [if_pos hp] at hTable
      exact (hIn i b hp).mpr hTable
    · rw [if_neg hp] at hTable
      exact hKept i b hp (h.complete i b hTable hl) hl

end

end LazyTable
