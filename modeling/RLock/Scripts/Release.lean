import RLock.Scripts.Tables

/-!
# RLock — what a release takes away

`release_effect` gives the keyspace a release leaves slot by slot. Here it is
turned into laws about the whole command: what it takes, what it leaves alone,
that a second one finds nothing, and that the releases of two tokens do not
see each other.

The laws hold on any keyspace, also one that other programs write to: a key may be of any
type and a sorted set may have any members. The mutex script goes by the value, the
read-write scripts by the member; since the member names the kind and the token, neither
sees what belongs to another token, and two releases commute. That they commute is an
equality of keyspaces and not only of what is visible.

The list of keys may repeat itself or be empty except where the reply is concerned: a
repeated key is counted once and the length of the list twice, so on such a list the
reply is never 1.

## Results

* `validate_ok_iff` — the lists `LockKeys::new` accepts.
* `storedOnAll_iff` — on a list `LockKeys::new` accepts, the reply is 1 when
  every listed key stored the token.
* `released_comm` / `holds_released_other` — two tokens at one slot.
* `spared_released` — everything else at a listed key is left.
* `release_exact` — the laws of the three release scripts.
-/

namespace RLock.Scripts

open KeyedStore RLock.Redis

-- ---------------------------------------------------------------------------
-- Lock keys
-- ---------------------------------------------------------------------------

/-- Errors for building a collection of lock keys. -/
inductive LockKeysBuildError
  | empty
  | duplicateKey (key : Key)
  deriving DecidableEq, Repr

/-- The text of the error. -/
def LockKeysBuildError.message : LockKeysBuildError → String
  | .empty => "at least one lock key is required"
  | .duplicateKey key => "duplicate lock key: " ++ key

/-- The loop of `validate`: the first key that `unique` or an earlier turn has
seen. -/
def firstDuplicate (unique : List Key) : List Key → Option Key
  | [] => none
  | key :: keys => if key ∈ unique then some key else firstDuplicate (key :: unique) keys

/-- The check of `LockKeys::new`: a key, and none twice. -/
def validate (keys : List Key) : Except LockKeysBuildError Unit :=
  if keys = [] then .error .empty
  else
    match firstDuplicate [] keys with
    | some key => .error (.duplicateKey key)
    | none => .ok ()

/-- The loop finds nothing exactly when no key comes twice or was seen before. -/
theorem firstDuplicate_eq_none : ∀ {keys unique : List Key},
    firstDuplicate unique keys = none ↔ keys.Nodup ∧ ∀ key ∈ keys, key ∉ unique := by
  intro keys
  induction keys with
  | nil =>
    intro unique
    simp [firstDuplicate]
  | cons key keys ih =>
    intro unique
    unfold firstDuplicate
    -- a key that was seen stops the loop; any other is seen from then on
    by_cases hSeen : key ∈ unique
    · simp [hSeen]
    · rw [if_neg hSeen, ih, List.nodup_cons]
      constructor
      · rintro ⟨hNodup, hFresh⟩
        refine ⟨⟨fun hAgain => hFresh key hAgain (List.mem_cons_self ..), hNodup⟩, ?_⟩
        intro key' hMem
        rcases List.mem_cons.mp hMem with rfl | hMem
        · exact hSeen
        · exact fun hUnique => hFresh key' hMem (List.mem_cons_of_mem _ hUnique)
      · rintro ⟨⟨hHead, hNodup⟩, hFresh⟩
        refine ⟨hNodup, fun key' hMem hUnique => ?_⟩
        rcases List.mem_cons.mp hUnique with rfl | hUnique
        · exact hHead hMem
        · exact hFresh key' (List.mem_cons_of_mem _ hMem) hUnique

/-- `validate` accepts the lists without repetition that are not empty. -/
theorem validate_ok_iff {keys : List Key} : validate keys = .ok () ↔ keys ≠ [] ∧ keys.Nodup := by
  unfold validate
  by_cases hEmpty : keys = []
  · simp [hEmpty]
  · rw [if_neg hEmpty]
    rcases hDup : firstDuplicate [] keys with _ | key
    · have hNodup := (firstDuplicate_eq_none.mp hDup).1
      simp [hEmpty, hNodup]
    · have hNot : ¬ keys.Nodup := by
        intro hNodup
        rw [firstDuplicate_eq_none.mpr ⟨hNodup, fun _ _ => List.not_mem_nil⟩] at hDup
        cases hDup
      simp [hNot]

-- ---------------------------------------------------------------------------
-- The token in one slot
-- ---------------------------------------------------------------------------

/-- The server stores the token at the key as a holder of this kind. A key past
its expiry stores nothing. -/
def Holds (kind : Kind) (now : Int) (token : String) (v : Slot) : Prop :=
  match kind with
  | .mutex => ∃ expire, evict now v = some ⟨.string token, expire⟩
  | .read => ∃ score, scoreAt now v (readMember token) = some score
  | .write => ∃ score, scoreAt now v (writeMember token) = some score

/-- The flag the loop counts says that the token is stored. -/
theorem holds_iff {kind : Kind} {now : Int} {token : String} {v : Slot} :
    holds kind now token v = true ↔ Holds kind now token v := by
  cases kind with
  | mutex => exact holds_mutex_iff
  | read => exact Option.isSome_iff_exists
  | write => exact Option.isSome_iff_exists

section Slot

variable {kind kind₁ kind₂ : Kind} {now : Int} {token token₁ token₂ : String} {v : Slot}

/-- `ZREM` on a sorted set, whether or not the member is there. -/
theorem withoutMember_zset (m : Member) (z : ZSet) (expire : Option Int) :
    withoutMember m (some ⟨.zset z, expire⟩) =
      restore (ZSet.ofMembers (z.members.erase m)) expire := by
  unfold withoutMember
  dsimp only
  split
  · rfl
  · rename_i hAbsent
    have hKey : m ∉ z.members.keys := by
      rw [← AList.mem_keys, ← AList.lookup_isSome]
      exact hAbsent
    have hSame : z.members.erase m = z.members := by
      ext1
      exact List.kerase_of_notMem_keys hKey
    rw [hSame, ZSet.ofMembers, dif_pos z.nonempty]
    rfl

/-- Taking a member out of what is left takes it out of the set. -/
theorem withoutMember_restore (m : Member) (members : AList (fun _ : Member => Score))
    (expire : Option Int) :
    withoutMember m (restore (ZSet.ofMembers members) expire) =
      restore (ZSet.ofMembers (members.erase m)) expire := by
  by_cases hEmpty : members.entries = []
  · have hErase : (members.erase m).entries = [] := by
      show members.entries.kerase m = []
      rw [hEmpty]
      rfl
    rw [ZSet.ofMembers, ZSet.ofMembers, dif_neg (not_not.mpr hEmpty),
      dif_neg (not_not.mpr hErase)]
    rfl
  · rw [ZSet.ofMembers, dif_pos hEmpty]
    exact withoutMember_zset ..

/-- Two members are taken out in either order. -/
theorem withoutMember_comm (m m' : Member) (v : Slot) :
    withoutMember m (withoutMember m' v) = withoutMember m' (withoutMember m v) := by
  rcases v with _ | ⟨val, expire⟩
  · rfl
  · cases val with
    | string s => rfl
    | other kind payload => rfl
    | zset z =>
      rw [withoutMember_zset, withoutMember_zset, withoutMember_restore, withoutMember_restore,
        AList.erase_erase]

theorem string_ne_zset {s : String} (z : ZSet) : Value.string s ≠ .zset z :=
  fun h => (nomatch h)

theorem other_ne_zset {type : OtherType} {payload : String} (z : ZSet) :
    Value.other type payload ≠ .zset z := fun h => (nomatch h)

theorem released_evict : released kind now token (evict now v) = released kind now token v := by
  unfold released
  rw [evict_evict]

/-- What `ZREM` leaves at a key that is not a sorted set is what was there, and
at a sorted set nothing or a sorted set with the same expiry. -/
theorem withoutMember_eq_some {m : Member} {val : Value} {expire : Option Int} (w : Slot)
    (hVal : ∀ z, val ≠ .zset z) :
    withoutMember m w = some ⟨val, expire⟩ ↔ w = some ⟨val, expire⟩ := by
  rcases withoutMember_cases m w with hNone | hSame | ⟨z, z', expire', hw, hLeft⟩
  · refine ⟨fun h => ?_, fun h => ?_⟩
    · rw [hNone] at h
      cases h
    · -- `ZREM` never deletes a key of another type
      rw [h] at hNone ⊢
      cases val with
      | string s => rfl
      | other kind payload => rfl
      | zset z => exact absurd rfl (hVal z)
  · rw [hSame]
  · rw [hLeft, hw]
    simp only [Option.some.injEq, Entry.mk.injEq]
    exact ⟨fun h => absurd h.1.symm (hVal z'), fun h => absurd h.1.symm (hVal z)⟩

/-- The value at a key that is not a sorted set is left alone unless it is the
token of a mutex. -/
theorem released_eq_some {val : Value} {expire : Option Int} (hVal : ∀ z, val ≠ .zset z) :
    released kind now token v = some ⟨val, expire⟩ ↔
      evict now v = some ⟨val, expire⟩ ∧ ¬ (kind = .mutex ∧ val = .string token) := by
  by_cases hKind : kind = .mutex
  · subst hKind
    rcases released_mutex_cases now token v with ⟨hHolds, hEq⟩ | ⟨hNot, hEq⟩
    · obtain ⟨expire', hv⟩ := holds_mutex_iff.mp hHolds
      rw [hEq, hv]
      simp only [Option.some.injEq, Entry.mk.injEq]
      refine ⟨fun h => (nomatch h), fun h => absurd ⟨trivial, h.1.1.symm⟩ h.2⟩
    · rw [hEq]
      refine ⟨fun h => ⟨h, fun ⟨_, hStr⟩ => ?_⟩, fun h => h.1⟩
      rw [hStr] at h
      rw [holds_mutex_iff.mpr ⟨_, h⟩] at hNot
      cases hNot
  · rw [released_of_ne_mutex hKind, withoutMember_eq_some _ hVal]
    simp [hKind]

/-- A release takes at most one member, its own. -/
theorem storedScore_released (m : Member) :
    storedScore (released kind now token v) m =
      if kind ≠ .mutex ∧ m = holder kind token then none else scoreAt now v m := by
  by_cases hKind : kind = .mutex
  · subst hKind
    rw [if_neg fun h => h.1 rfl]
    rcases released_mutex_cases now token v with ⟨hHolds, hEq⟩ | ⟨-, hEq⟩
    · obtain ⟨expire, hv⟩ := holds_mutex_iff.mp hHolds
      rw [hEq, scoreAt_eq, hv]
      rfl
    · rw [hEq]
      rfl
  · rw [released_of_ne_mutex hKind, storedScore_withoutMember]
    simp only [hKind, not_false_eq_true, true_and, ne_eq]
    rfl

/-- A sorted set that is left has the expiry it had. -/
theorem released_zset {z : ZSet} {expire : Option Int}
    (h : released kind now token v = some ⟨.zset z, expire⟩) :
    ∃ z', evict now v = some ⟨.zset z', expire⟩ := by
  by_cases hKind : kind = .mutex
  · subst hKind
    rcases released_mutex_cases now token v with ⟨-, hEq⟩ | ⟨-, hEq⟩
    · rw [hEq] at h
      cases h
    · exact ⟨z, hEq ▸ h⟩
  · rw [released_of_ne_mutex hKind] at h
    rcases withoutMember_cases (holder kind token) (evict now v) with
      hNone | hSame | ⟨z₁, z₂, expire', hv, hLeft⟩
    · rw [hNone] at h
      cases h
    · exact ⟨z, hSame ▸ h⟩
    · rw [hLeft] at h
      cases h
      exact ⟨z₁, hv⟩

/-- A sorted set that keeps a member is left. -/
theorem exists_zset_of_storedScore {m : Member} {score : Score} (h : storedScore v m = some score) :
    ∃ z expire, v = some ⟨.zset z, expire⟩ ∧ z.score m = some score := by
  unfold storedScore at h
  split at h
  · exact ⟨_, _, rfl, h⟩
  · cases h

/-- A mutex and a member are not at the same key, so their releases commute. -/
theorem released_comm_mutex_rw (hKind : kind₂ ≠ .mutex) :
    released .mutex now token₁ (released kind₂ now token₂ v) =
      released kind₂ now token₂ (released .mutex now token₁ v) := by
  rcases released_mutex_cases now token₁ v with ⟨hHolds, hEq⟩ | ⟨hNot, hEq⟩
  · -- the key is the mutex of the first token, which the other release does not see
    obtain ⟨expire, hv⟩ := holds_mutex_iff.mp hHolds
    have hSame : released kind₂ now token₂ v = evict now v := by
      rw [hv, released_eq_some string_ne_zset]
      exact ⟨hv, fun h => hKind h.1⟩
    rw [hSame, released_evict, hEq, released_of_ne_mutex hKind]
    rfl
  · rw [hEq, released_evict]
    rcases released_mutex_cases now token₁ (released kind₂ now token₂ v) with
      ⟨hHolds, -⟩ | ⟨-, hEq'⟩
    · obtain ⟨expire, hv⟩ := holds_mutex_iff.mp hHolds
      rw [evict_released, released_eq_some string_ne_zset] at hv
      rw [holds_mutex_iff.mpr ⟨expire, hv.1⟩] at hNot
      cases hNot
    · rw [hEq', evict_released]

/-- **Two tokens at one slot.** Their releases commute. -/
theorem released_comm (hTokens : token₁ ≠ token₂) :
    released kind₁ now token₁ (released kind₂ now token₂ v) =
      released kind₂ now token₂ (released kind₁ now token₁ v) := by
  by_cases hKind₁ : kind₁ = .mutex
  · subst hKind₁
    by_cases hKind₂ : kind₂ = .mutex
    · subst hKind₂
      rcases released_mutex_cases now token₂ v with ⟨hHolds, hEq₂⟩ | ⟨-, hEq₂⟩
      · -- the string at the key is one of the two tokens only
        have hEq₁ : released .mutex now token₁ v = evict now v := by
          obtain ⟨expire, hv⟩ := holds_mutex_iff.mp hHolds
          rw [hv, released_eq_some string_ne_zset]
          exact ⟨hv, fun h => hTokens (Value.string.inj h.2).symm⟩
        rw [hEq₁, released_evict, hEq₂]
        rfl
      · rw [hEq₂, released_evict]
        rcases released_mutex_cases now token₁ v with ⟨-, hEq₁⟩ | ⟨-, hEq₁⟩
        · rw [hEq₁]
          rfl
        · rw [hEq₁, released_evict, hEq₂]
    · exact released_comm_mutex_rw hKind₂
  · by_cases hKind₂ : kind₂ = .mutex
    · subst hKind₂
      exact (released_comm_mutex_rw hKind₁).symm
    -- both take a member out of the set that the look-up left
    · have hEvict := evict_evict now v
      rw [released_of_ne_mutex hKind₁, released_of_ne_mutex hKind₂, released_of_ne_mutex hKind₁,
        released_of_ne_mutex hKind₂, evict_withoutMember hEvict, evict_withoutMember hEvict,
        withoutMember_comm]

/-- One token's hold is not seen by the release of another. -/
theorem holds_released_other (hTokens : token₁ ≠ token₂) :
    holds kind₁ now token₁ (released kind₂ now token₂ v) = holds kind₁ now token₁ v := by
  rw [Bool.eq_iff_iff]
  by_cases hKind₁ : kind₁ = .mutex
  · subst hKind₁
    rw [holds_mutex_iff, holds_mutex_iff, evict_released]
    refine exists_congr fun expire => ?_
    rw [released_eq_some string_ne_zset]
    refine and_iff_left fun h => hTokens ?_
    exact Value.string.inj h.2
  · rw [holds_of_ne_mutex hKind₁, holds_of_ne_mutex hKind₁, scoreAt_eq, evict_released,
      storedScore_released, if_neg]
    rintro ⟨hKind₂, hHolder⟩
    exact hTokens (holder_inj hKind₁ hKind₂ hHolder).2

end Slot

-- ---------------------------------------------------------------------------
-- The whole script
-- ---------------------------------------------------------------------------

/-- What the release of `token` leaves of `v`, a listed key, apart from the
token itself. A key past its expiry is deleted when it is looked up. -/
structure Spared (kind : Kind) (now : Int) (token : String) (v v' : Slot) : Prop where
  /-- A string of another owner, and for the read and write scripts any string. -/
  string : ∀ owner expire, evict now v = some ⟨.string owner, expire⟩ →
    (kind = .mutex → owner ≠ token) → v' = some ⟨.string owner, expire⟩
  /-- Every member but the token's own of this kind, with the expiry of the key. -/
  member : ∀ z expire m score, evict now v = some ⟨.zset z, expire⟩ → z.score m = some score →
    (kind ≠ .mutex → m ≠ holder kind token) →
    ∃ z', v' = some ⟨.zset z', expire⟩ ∧ z'.score m = some score
  other : ∀ type payload expire, evict now v = some ⟨.other type payload, expire⟩ →
    v' = some ⟨.other type payload, expire⟩
  /-- Nothing comes from elsewhere. -/
  fresh : ∀ val' expire, v' = some ⟨val', expire⟩ → ∃ val, evict now v = some ⟨val, expire⟩ ∧
    (val' = val ∨ ∃ z z', val = .zset z ∧ val' = .zset z' ∧
      ∀ m score, z'.score m = some score → z.score m = some score)

/-- Everything at a listed key but the token is left as it was. -/
theorem spared_released (kind : Kind) (now : Int) (token : String) (v : Slot) :
    Spared kind now token v (released kind now token v) where
  string := by
    intro owner expire hv hOwner
    rw [released_eq_some string_ne_zset]
    exact ⟨hv, fun h => hOwner h.1 (Value.string.inj h.2)⟩
  member := by
    intro z expire m score hv hScore hMember
    have hLeft : storedScore (released kind now token v) m = some score := by
      rw [storedScore_released, if_neg fun h => hMember h.1 h.2, scoreAt_eq, hv]
      exact hScore
    obtain ⟨z', expire', hEq, hScore'⟩ := exists_zset_of_storedScore hLeft
    obtain ⟨z'', hv'⟩ := released_zset hEq
    rw [hv] at hv'
    cases hv'
    exact ⟨z', hEq, hScore'⟩
  other := by
    intro type payload expire hv
    rw [released_eq_some other_ne_zset]
    exact ⟨hv, fun h => nomatch h.2⟩
  fresh := by
    intro val' expire hEq
    cases val' with
    | string s => exact ⟨_, ((released_eq_some string_ne_zset).mp hEq).1, Or.inl rfl⟩
    | other type payload => exact ⟨_, ((released_eq_some other_ne_zset).mp hEq).1, Or.inl rfl⟩
    | zset z' =>
      obtain ⟨z, hv⟩ := released_zset hEq
      refine ⟨_, hv, Or.inr ⟨z, z', rfl, rfl, fun m score hScore => ?_⟩⟩
      have hLeft : storedScore (released kind now token v) m = some score := by
        rw [hEq]
        exact hScore
      rw [storedScore_released] at hLeft
      split at hLeft
      · cases hLeft
      · rw [scoreAt_eq, hv] at hLeft
        exact hLeft

/-- After a release the token is not held, then or at any later time. -/
theorem not_holds_released (kind : Kind) (now now' : Int) (token : String) (v : Slot) :
    holds kind now' token (released kind now token v) = false := by
  rw [Bool.eq_false_iff, ne_eq]
  intro h
  -- a later look-up shows no more than is stored, and the token is not stored
  by_cases hKind : kind = .mutex
  · subst hKind
    obtain ⟨expire, hEq⟩ := holds_mutex_iff.mp h
    have hStored := ((released_eq_some string_ne_zset).mp (evict_eq_some.mp hEq).1).2
    exact hStored ⟨rfl, rfl⟩
  · rw [holds_of_ne_mutex hKind, scoreAt_eq, Option.isSome_iff_exists] at h
    obtain ⟨score, hScore⟩ := h
    obtain ⟨z, expire, hEq, hMember⟩ := exists_zset_of_storedScore hScore
    have hNone : storedScore (released kind now token v) (holder kind token) = none := by
      rw [storedScore_released, if_pos ⟨hKind, rfl⟩]
    rw [(evict_eq_some.mp hEq).1] at hNone
    rw [show z.score (holder kind token) = none from hNone] at hMember
    cases hMember

section Script

variable {kind kind' : Kind} {c c' : Clock} {keys keys' : List Key} {token token' : String}
variable {s : Keyspace}

/-- A release rewrites its keys, each by itself. -/
theorem release_left (kind : Kind) (c : Clock) (keys : List Key) (token : String) (s : Keyspace) :
    ((releaseScript kind c keys token).run s).2 = mapOn keys (released kind c.ms token) s := by
  rw [release_effect]

/-- A second release finds no hold and counts nothing. -/
theorem release_release (kind : Kind) (c c' : Clock) (keys : List Key) (token : String)
    (s : Keyspace) :
    (releaseScript kind c' keys token).run ((releaseScript kind c keys token).run s).2 =
      (.ok (allCounted keys 0),
        mapOn keys (fun v => released kind c'.ms token (released kind c.ms token v)) s) := by
  have hNone : ∑ k ∈ keys.toFinset,
      (holds kind c'.ms token (mapOn keys (released kind c.ms token) s k)).toNat = 0 := by
    refine Finset.sum_eq_zero fun k hk => ?_
    rw [mapOn_of_mem (List.mem_toFinset.mp hk), not_holds_released]
    rfl
  rw [release_effect, release_effect, hNone, mapOn_mapOn]

/-- The second release only looks the keys up. -/
theorem released_released (kind : Kind) (now now' : Int) (token : String) (v : Slot) :
    released kind now' token (released kind now token v) =
      evict now' (released kind now token v) := by
  by_cases hKind : kind = .mutex
  · subst hKind
    rcases released_mutex_cases now' token (released .mutex now token v) with
      ⟨hHolds, -⟩ | ⟨-, hEq⟩
    · rw [not_holds_released] at hHolds
      cases hHolds
    · exact hEq
  · rw [released_of_ne_mutex hKind]
    rcases hLeft : evict now' (released kind now token v) with _ | ⟨val, expire⟩
    · rfl
    · cases val with
      | string s => rfl
      | other type payload => rfl
      | zset z =>
        unfold withoutMember
        dsimp only
        rw [if_neg]
        have hHolds := not_holds_released kind now now' token v
        rw [holds_of_ne_mutex hKind, scoreAt_eq, hLeft] at hHolds
        simpa [storedScore] using hHolds

/-- Nor does what one release counts depend on the release of another token. -/
theorem release_reply_other (hTokens : token ≠ token') :
    ((releaseScript kind c keys token).run ((releaseScript kind' c keys' token').run s).2).1 =
      ((releaseScript kind c keys token).run s).1 := by
  rw [release_effect, release_effect, release_effect]
  dsimp only
  congr 2
  refine Finset.sum_congr rfl fun k _ => ?_
  by_cases hk : k ∈ keys'
  · rw [mapOn_of_mem hk, holds_released_other hTokens]
  · rw [mapOn_of_not_mem hk]

/-- The releases of two tokens leave the same keyspace in either order. -/
theorem release_comm (hTokens : token ≠ token') :
    ((releaseScript kind c keys token).run ((releaseScript kind' c keys' token').run s).2).2 =
      ((releaseScript kind' c keys' token').run ((releaseScript kind c keys token).run s).2).2 := by
  rw [release_left, release_left, release_left, release_left]
  -- only a key that both lists name sees both releases
  funext k
  by_cases hk : k ∈ keys
  · by_cases hk' : k ∈ keys'
    · rw [mapOn_of_mem hk, mapOn_of_mem hk', mapOn_of_mem hk', mapOn_of_mem hk,
        released_comm hTokens]
    · rw [mapOn_of_mem hk, mapOn_of_not_mem hk', mapOn_of_not_mem hk', mapOn_of_mem hk]
  · by_cases hk' : k ∈ keys'
    · rw [mapOn_of_not_mem hk, mapOn_of_mem hk', mapOn_of_mem hk', mapOn_of_not_mem hk]
    · rw [mapOn_of_not_mem hk, mapOn_of_not_mem hk', mapOn_of_not_mem hk', mapOn_of_not_mem hk]

/-- A sum of flags is the number of keys when every flag is set. -/
theorem sum_flags_eq_card {keys : Finset Key} {flag : Key → Bool} :
    ∑ k ∈ keys, (flag k).toNat = keys.card ↔ ∀ k ∈ keys, flag k = true := by
  rw [Finset.card_eq_sum_ones, Finset.sum_eq_sum_iff_of_le fun k _ => Bool.toNat_le (flag k)]
  refine forall₂_congr fun k _ => ?_
  cases flag k <;> decide

/-- **The reply.** On a list without repetition it is 1 when every listed key
stored the token. -/
theorem storedOnAll_iff (hNodup : keys.Nodup) :
    ((releaseScript kind c keys token).run s).1 = .ok 1 ↔
      ∀ k ∈ keys, Holds kind c.ms token (s k) := by
  rw [release_effect]
  dsimp only
  have hLength : keys.length = keys.toFinset.card := (List.toFinset_card_of_nodup hNodup).symm
  unfold allCounted
  rw [hLength, Except.ok.injEq, ite_eq_left_iff, sum_flags_eq_card]
  simp only [List.mem_toFinset, holds_iff]
  constructor
  · intro h
    by_contra hNot
    exact absurd (h hNot) (by decide)
  · exact fun hAll hNot => absurd hAll hNot

end Script

/-- What one release script does for its token, on any keyspace. -/
structure TakesExactly (kind : Kind) (c : Clock) (keys : List Key) (token : String)
    (s : Keyspace) : Prop where
  /-- Afterwards, whenever one looks, the token holds none of the listed keys. -/
  gone : ∀ k ∈ keys, ∀ now,
    ¬ Holds kind now token (((releaseScript kind c keys token).run s).2 k)
  spared : ∀ k ∈ keys,
    Spared kind c.ms token (s k) (((releaseScript kind c keys token).run s).2 k)
  unlisted : ∀ k, k ∉ keys → ((releaseScript kind c keys token).run s).2 k = s k
  /-- A second run, at any time, finds nothing and leaves what a lookup leaves. -/
  again : ∀ c' : Clock,
    (keys ≠ [] → ((releaseScript kind c' keys token).run
      ((releaseScript kind c keys token).run s).2).1 = .ok 0) ∧
    ∀ k, evict c'.ms (((releaseScript kind c' keys token).run
      ((releaseScript kind c keys token).run s).2).2 k) =
      evict c'.ms (((releaseScript kind c keys token).run s).2 k)
  /-- A second run at once leaves the very same keyspace. -/
  atOnce : ((releaseScript kind c keys token).run
    ((releaseScript kind c keys token).run s).2).2 = ((releaseScript kind c keys token).run s).2
  commutes : ∀ kind' keys' token', token ≠ token' →
    ((releaseScript kind c keys token).run ((releaseScript kind' c keys' token').run s).2).1 =
      ((releaseScript kind c keys token).run s).1 ∧
    ((releaseScript kind' c keys' token').run ((releaseScript kind c keys token).run s).2).1 =
      ((releaseScript kind' c keys' token').run s).1 ∧
    ((releaseScript kind c keys token).run ((releaseScript kind' c keys' token').run s).2).2 =
      ((releaseScript kind' c keys' token').run ((releaseScript kind c keys token).run s).2).2
  reply : validate keys = .ok () →
    (((releaseScript kind c keys token).run s).1 = .ok 1 ↔
      ∀ k ∈ keys, Holds kind c.ms token (s k))

/-- **Release removes exactly the caller's hold**, from any keyspace and with any
key list. -/
theorem release_exact (kind : Kind) (c : Clock) (keys : List Key) (token : String)
    (s : Keyspace) : TakesExactly kind c keys token s where
  gone := by
    intro k hk now hHolds
    rw [release_left, mapOn_of_mem hk, ← holds_iff, not_holds_released] at hHolds
    cases hHolds
  spared := by
    intro k hk
    rw [release_left, mapOn_of_mem hk]
    exact spared_released ..
  unlisted := by
    intro k hk
    rw [release_left, mapOn_of_not_mem hk]
  again := by
    intro c'
    rw [release_release]
    refine ⟨fun hKeys => ?_, fun k => ?_⟩
    · unfold allCounted
      rw [if_neg fun hZero => hKeys (List.length_eq_zero_iff.mp hZero.symm)]
    · rw [release_left]
      dsimp only
      by_cases hk : k ∈ keys
      · rw [mapOn_of_mem hk, mapOn_of_mem hk, released_released, evict_evict]
      · rw [mapOn_of_not_mem hk, mapOn_of_not_mem hk]
  atOnce := by
    rw [release_left, release_left, mapOn_mapOn]
    simp only [released_again]
  commutes := fun _ _ _ hTokens =>
    ⟨release_reply_other hTokens, release_reply_other hTokens.symm, release_comm hTokens⟩
  reply := fun hKeys => storedOnAll_iff (validate_ok_iff.mp hKeys).2

end RLock.Scripts
