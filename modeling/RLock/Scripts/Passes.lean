import RLock.Scripts.Leases

/-!
# RLock — what one slot decides

The check loops of acquire and renew, read as statements about holders: whoever
is stored at a key with a deadline that is live.

What a check reads is a string, a score or a number of members, and a reader has to
know that the slot is *sound* to read a holder off it: that its value and its deadlines
come from grants, that a sorted set has one writer or only readers, and that the key
lives as long as they do. All of that is in `Sound`; what is concluded is about holders
and their deadlines only.

* `acquire_passes_iff` — nobody in the way is live.
* `renew_passes_iff` — the own lease is live.
* `Sound.compatible` — two holders of a key are one, or both read.
-/

namespace RLock.Scripts

open KeyedStore RLock.Redis

/-- A live holder turns down whoever it conflicts with. -/
theorem turnedDown_of_live {kind kind' : Kind} {now d : Int} {token token' : String} {v : Slot}
    (hSound : Sound v) (hKind : kind ≠ .mutex) (hKeeps : keeps kind token v d) (hNow : now < d)
    (hConflict : ¬ (kind' = .read ∧ kind = .read)) :
    turnedDown .acquire kind' now token' v := by
  cases kind' with
  | mutex =>
    show evict now v ≠ none
    rw [hSound.evict_eq hKeeps hNow.le]
    rintro rfl
    exact keeps_ne_none hKeeps
  | write => exact (turnedDown_write_iff hSound).mpr ⟨kind, token, d, hKind, hKeeps, hNow⟩
  | read =>
    cases kind with
    | mutex => exact absurd rfl hKind
    | read => exact absurd ⟨rfl, rfl⟩ hConflict
    | write => exact (turnedDown_read_iff hSound).mpr ⟨token, d, hKeeps, hNow⟩

variable {kind : Kind} {now d : Int} {token : String} {v : Slot}

/-- Readers and writers are live before their deadline, a mutex also at it. -/
theorem liveAt_of_ne_mutex {i : LeaseId} (hKind : i.kind ≠ .mutex) :
    liveAt now i d ↔ now < d := by
  obtain ⟨key, kind, token⟩ := i
  cases kind with
  | mutex => exact absurd rfl hKind
  | read | write => exact Iff.rfl

/-- A sorted set in the store has a holder. -/
theorem Sound.exists_keeps (hSound : Sound v) {z : ZSet} {expire : Option Int}
    (hv : v = some ⟨.zset z, expire⟩) : ∃ kind token d, kind ≠ .mutex ∧ keeps kind token v d := by
  obtain ⟨m, sc, hs⟩ : ∃ m sc, z.score m = some sc := by
    by_contra hNone
    refine z.nonempty (entries_eq_nil_iff.mpr fun m => ?_)
    cases hs : z.score m with
    | none => exact hs
    | some sc => exact absurd ⟨m, sc, hs⟩ hNone
  obtain ⟨history, hHeld⟩ := hSound
  rw [hv] at hHeld ⊢
  cases hHeld with
  | @writer z token d hOnly hPos hGrant =>
    obtain ⟨rfl, rfl⟩ := hOnly m sc hs
    exact ⟨.write, token, d, by decide, hs⟩
  | readers hAll hGrant =>
    obtain ⟨token, d, rfl, rfl, -⟩ := hAll m sc hs
    exact ⟨.read, token, d, by decide, hs⟩

/-- **An acquire passes a slot** exactly when nobody it conflicts with is live there.
A mutex checks only whether the key exists, so its keys may not have readers or
writers, who stay there when their time is up. -/
theorem acquire_passes_iff (key : Key) (hSound : Sound v)
    (hUse : kind = .mutex → ∀ kind' owner d, keeps kind' owner v d → kind' = .mutex) :
    (SlotOk .acquire kind now v ∧ ¬ turnedDown .acquire kind now token v) ↔
      ∀ kind' owner d, keeps kind' owner v d → ¬ (kind = .read ∧ kind' = .read) →
        ¬ liveAt now ⟨key, kind', owner⟩ d := by
  constructor
  · rintro ⟨hOk, hUp⟩ kind' owner d hKeeps hConflict hLive
    refine hUp ?_
    -- a mutex is turned down by the key, the others by a score in it
    by_cases hKind : kind = .mutex
    · subst hKind
      show evict now v ≠ none
      rw [hSound.evict_eq hKeeps hLive.le]
      rintro rfl
      exact keeps_ne_none hKeeps
    · by_cases hKind' : kind' = .mutex
      · subst hKind'
        exact (hSound.not_sortedSet ((slotOk_of_ne_mutex hKind).mp hOk) hKeeps hLive.le).elim
      · exact turnedDown_of_live hSound hKind' hKeeps ((liveAt_of_ne_mutex hKind').mp hLive)
          hConflict
  · intro hFree
    -- a mutex at the key has expired, so its slot counts as absent
    have hGone : ∀ owner d, v = some ⟨.string owner, some d⟩ → evict now v = none := by
      rintro owner d rfl
      refine evict_of_passed (not_le.mp fun hLe => ?_)
      exact hFree .mutex owner d rfl (fun hNo => by cases hNo.2) hLe
    by_cases hKind : kind = .mutex
    · subst hKind
      refine ⟨trivial, not_not.mpr ?_⟩
      show evict now v = none
      obtain ⟨history, hHeld⟩ := hSound
      cases hHeld with
      | absent => exact evict_none now
      | mutex hLast => exact hGone _ _ rfl
      | writer hOnly hPos hGrant =>
        obtain ⟨kind', owner, d, hKind', hKeeps⟩ :=
          Sound.exists_keeps ⟨history, .writer hOnly hPos hGrant⟩ rfl
        exact absurd (hUse rfl _ _ _ hKeeps) hKind'
      | readers hAll hGrant =>
        obtain ⟨kind', owner, d, hKind', hKeeps⟩ :=
          Sound.exists_keeps ⟨history, .readers hAll hGrant⟩ rfl
        exact absurd (hUse rfl _ _ _ hKeeps) hKind'
    · refine ⟨(slotOk_of_ne_mutex hKind).mpr ?_, fun hDown => ?_⟩
      · rcases hv : evict now v with _ | e
        · exact Or.inl hv
        · have hEntry := (evict_eq_some.mp hv).1
          obtain ⟨history, hHeld⟩ := hSound
          rw [hEntry] at hHeld
          cases hHeld with
          | mutex hLast =>
            rw [hGone _ _ hEntry] at hv
            cases hv
          | writer hOnly hPos hGrant | readers hAll hGrant => exact Or.inr ⟨_, _, hv⟩
      · cases kind with
        | mutex => exact hKind rfl
        | read =>
          obtain ⟨owner, d, hKeeps, hNow⟩ := (turnedDown_read_iff hSound).mp hDown
          exact hFree .write owner d hKeeps (fun hNo => by cases hNo.2) hNow
        | write =>
          obtain ⟨kind', owner, d, hKind', hKeeps, hNow⟩ := (turnedDown_write_iff hSound).mp hDown
          exact hFree kind' owner d hKeeps (fun hNo => by cases hNo.1)
            ((liveAt_of_ne_mutex hKind').mpr hNow)

/-- **A renewal passes a slot** exactly when its own lease is live there. -/
theorem renew_passes_iff (key : Key) (hSound : Sound v) :
    (SlotOk .renew kind now v ∧ ¬ turnedDown .renew kind now token v) ↔
      ∃ d, keeps kind token v d ∧ liveAt now ⟨key, kind, token⟩ d := by
  by_cases hKind : kind = .mutex
  · subst hKind
    constructor
    · rintro ⟨-, hUp⟩
      obtain ⟨expire, hOwned⟩ : ∃ expire, evict now v = some ⟨.string token, expire⟩ := by
        simpa [turnedDown] using hUp
      obtain ⟨rfl, hLive⟩ := evict_eq_some.mp hOwned
      obtain ⟨history, hHeld⟩ := hSound
      cases hHeld with
      | @mutex token d hLast =>
        refine ⟨d, rfl, ?_⟩
        show now ≤ d
        simpa [Entry.expired] using hLive
    · rintro ⟨d, hKeeps, hLive⟩
      have hOwned : evict now v = some ⟨.string token, some d⟩ :=
        (hSound.evict_eq hKeeps hLive.le).trans hKeeps
      exact ⟨Or.inr ⟨_, _, hOwned⟩, fun hDown => hDown _ hOwned⟩
  · rw [turnedDown_renew_iff hKind hSound]
    constructor
    · rintro ⟨-, hUp⟩
      push Not at hUp
      obtain ⟨d, hKeeps, hNow⟩ := hUp
      exact ⟨d, hKeeps, (liveAt_of_ne_mutex hKind).mpr hNow⟩
    -- the own lease is live, so the key is there and of the right type
    · rintro ⟨d, hKeeps, hLive⟩
      have hNow := (liveAt_of_ne_mutex hKind).mp hLive
      refine ⟨?_, fun hAll => absurd (hAll d hKeeps) (not_le.mpr hNow)⟩
      have hEvict := hSound.evict_eq hKeeps hNow.le
      obtain ⟨history, hHeld⟩ := hSound
      cases hHeld with
      | absent => exact absurd hKeeps keeps_ne_none
      | mutex hLast =>
        rw [keeps_of_ne_mutex hKind] at hKeeps
        cases hKeeps
      | writer hOnly hPos hGrant | readers hAll hGrant =>
        exact (slotOk_of_ne_mutex hKind).mpr (Or.inr ⟨_, _, hEvict⟩)

/-- Two holders in one slot are the same or both read. -/
theorem Sound.compatible (hSound : Sound v) {kind' : Kind} {token' : String} {d' : Int}
    (h : keeps kind token v d) (h' : keeps kind' token' v d') :
    token = token' ∨ kind = .read ∧ kind' = .read := by
  by_cases hKind : kind = .mutex
  · subst hKind
    have hv : v = some ⟨.string token, some d⟩ := h
    subst hv
    cases kind' with
    | mutex =>
      simp only [keeps, Option.some.injEq, Entry.mk.injEq, Value.string.injEq] at h'
      exact Or.inl h'.1
    | read => cases h'
    | write => cases h'
  · by_cases hKind' : kind' = .mutex
    · subst hKind'
      have hv : v = some ⟨.string token', some d'⟩ := h'
      rw [keeps_of_ne_mutex hKind, hv] at h
      cases h
    · rw [keeps_of_ne_mutex hKind] at h
      rw [keeps_of_ne_mutex hKind'] at h'
      obtain ⟨history, hHeld⟩ := hSound
      cases hHeld with
      | absent => cases h
      | mutex hLast => cases h
      | writer hOnly hPos hGrant =>
        have hSame := (hOnly _ _ h).1.trans (hOnly _ _ h').1.symm
        exact Or.inl (holder_inj hKind hKind' hSame).2
      | readers hAll hGrant =>
        obtain ⟨owner, -, hm, -⟩ := hAll _ _ h
        obtain ⟨owner', -, hm', -⟩ := hAll _ _ h'
        have hRead : Kind.read ≠ .mutex := by decide
        exact Or.inr ⟨(holder_inj hKind hRead hm).1, (holder_inj hKind' hRead hm').1⟩

end RLock.Scripts
