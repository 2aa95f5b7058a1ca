import RLock.Client.Request
import RLock.Scripts.Release

/-!
# RLock — lock keys, and how they are built

A Redis key is built of parts with `:` between them, and nothing is escaped: what
the key still tells of its parts are the segments between the colons. `LockKeys`
holds keys that passed `validate`, so a request made of them has no key twice.

Two lists of parts build the same key exactly when their segments are the same, so a
caller whose parts may hold a colon can run into another's keys, and one whose parts never
do cannot. That a key is never built of no parts at all is the caller's business: the empty
list gives the empty key.

* `segments_build` — the segments of a key are those of its parts.
* `build_redis_keys` — which parts build the same key.
* `firstDuplicate_eq_some` — which key the loop of `validate` stops at.
* `new_validates` — which lists `LockKeys::new` accepts, and what it says of the others.
-/

namespace RLock.Client

open RLock.Redis RLock.Scripts

-- ---------------------------------------------------------------------------
-- Building keys
-- ---------------------------------------------------------------------------

/-- One turn of the loops over the parts. -/
def pushPart (s part : String) : String := s.push ':' ++ part

/-- A prefix and a key. -/
def buildRedisKeyWithPrefix (keyPrefix key : String) : Key := ("" ++ keyPrefix).push ':' ++ key

/-- Any number of parts. -/
def buildRedisKeyFromParts : List String → Key
  | [] => ""
  | firstPart :: keyParts => keyParts.foldl pushPart firstPart

/-- A prefix and any number of parts. -/
def buildRedisKeyFromPartsWithPrefix (keyPrefix : String) (keyParts : List String) : Key :=
  keyParts.foldl pushPart ("" ++ keyPrefix)

/-- What stands between the colons. -/
def segments (key : String) : List (List Char) := key.toList.splitOn ':'

theorem segments_inj {key key' : String} : segments key = segments key' ↔ key = key' := by
  constructor
  · intro hSame
    have hJoined := congrArg (List.intercalate [':']) hSame
    unfold segments at hJoined
    rw [List.intercalate_splitOn, List.intercalate_splitOn] at hJoined
    exact String.toList_inj.mp hJoined
  · rintro rfl
    rfl

/-- What has no colon is its only segment. -/
theorem segments_of_plain {part : String} (h : ':' ∉ part.toList) : segments part = [part.toList] :=
  List.splitOn_eq_singleton h

theorem segments_pushPart (s part : String) :
    segments (pushPart s part) = segments s ++ segments part := by
  unfold segments pushPart
  rw [String.toList_append, String.toList_push, List.append_assoc]
  exact List.splitOn_append_cons_self s.toList part.toList

theorem segments_foldl (parts : List String) (s : String) :
    segments (parts.foldl pushPart s) = segments s ++ parts.flatMap segments := by
  induction parts generalizing s with
  | nil => simp
  | cons part parts ih =>
    rw [List.foldl_cons, ih, segments_pushPart, List.flatMap_cons, List.append_assoc]

/-- The segments of a key are those of its parts. -/
theorem segments_build {parts : List String} (h : parts ≠ []) :
    segments (buildRedisKeyFromParts parts) = parts.flatMap segments := by
  cases parts with
  | nil => exact absurd rfl h
  | cons firstPart keyParts => exact segments_foldl keyParts firstPart

/-- The three builders are one. -/
theorem build_with_prefix (keyPrefix : String) (keyParts : List String) :
    buildRedisKeyFromPartsWithPrefix keyPrefix keyParts =
      buildRedisKeyFromParts (keyPrefix :: keyParts) := by
  show keyParts.foldl pushPart ("" ++ keyPrefix) = keyParts.foldl pushPart keyPrefix
  rw [String.empty_append]

theorem build_one (keyPrefix key : String) :
    buildRedisKeyWithPrefix keyPrefix key = buildRedisKeyFromParts [keyPrefix, key] := by
  show ("" ++ keyPrefix).push ':' ++ key = keyPrefix.push ':' ++ key
  rw [String.empty_append]

/-- Keys are the same when their segments are. -/
theorem build_inj {parts parts' : List String} (h : parts ≠ []) (h' : parts' ≠ []) :
    buildRedisKeyFromParts parts = buildRedisKeyFromParts parts' ↔
      parts.flatMap segments = parts'.flatMap segments := by
  rw [← segments_inj, segments_build h, segments_build h']

/-- Parts without a colon can be read back. -/
theorem parts_of_build {parts : List String} (h : parts ≠ [])
    (hPlain : ∀ part ∈ parts, ':' ∉ part.toList) :
    (segments (buildRedisKeyFromParts parts)).map String.ofList = parts := by
  rw [segments_build h, List.map_flatMap]
  have hOne : ∀ part ∈ parts, (segments part).map String.ofList = [part] := by
    intro part hPart
    rw [segments_of_plain (hPlain part hPart), List.map_singleton, String.ofList_toList]
  rw [List.flatMap_congr hOne]
  simp

/-- A key that is built of keys is built of all their parts. -/
theorem build_nested {lists : List (List String)} (h : lists ≠ []) (hLists : ∀ l ∈ lists, l ≠ []) :
    buildRedisKeyFromParts (lists.map buildRedisKeyFromParts) =
      buildRedisKeyFromParts lists.flatten := by
  obtain ⟨l, hl⟩ := List.exists_mem_of_ne_nil lists h
  have hSome : lists.flatten ≠ [] := fun hNo => hLists l hl (List.flatten_eq_nil_iff.mp hNo l hl)
  rw [← segments_inj, segments_build (by simpa using h), segments_build hSome, List.flatMap_map,
    ← List.flatMap_id, List.flatMap_assoc]
  exact List.flatMap_congr fun l hl => segments_build (hLists l hl)

/-- **Keys built of parts** collide only when their parts have the same segments, whatever
the parts hold; without colons in them they can be read back; and the three builders are
one. -/
theorem build_redis_keys :
    (∀ parts parts', parts ≠ [] → parts' ≠ [] →
      (buildRedisKeyFromParts parts = buildRedisKeyFromParts parts' ↔
        parts.flatMap segments = parts'.flatMap segments)) ∧
    (∀ parts, parts ≠ [] → (∀ part ∈ parts, ':' ∉ part.toList) →
      (segments (buildRedisKeyFromParts parts)).map String.ofList = parts) ∧
    (∀ lists, lists ≠ [] → (∀ l ∈ lists, l ≠ []) →
      buildRedisKeyFromParts (lists.map buildRedisKeyFromParts) =
        buildRedisKeyFromParts lists.flatten) ∧
    ∀ keyPrefix key keyParts,
      buildRedisKeyWithPrefix keyPrefix key = buildRedisKeyFromParts [keyPrefix, key] ∧
        buildRedisKeyFromPartsWithPrefix keyPrefix keyParts =
          buildRedisKeyFromParts (keyPrefix :: keyParts) :=
  ⟨fun _ _ => build_inj, fun _ => parts_of_build, fun _ => build_nested,
    fun keyPrefix key keyParts => ⟨build_one keyPrefix key, build_with_prefix keyPrefix keyParts⟩⟩

-- ---------------------------------------------------------------------------
-- Validated keys
-- ---------------------------------------------------------------------------

/-- A validated collection of unique lock keys. -/
structure LockKeys where
  keys : List Key
  nonempty : keys ≠ []
  unique : keys.Nodup
  deriving DecidableEq

namespace LockKeys

/-- Builds a collection from strings. -/
def new (keys : List Key) : Except LockKeysBuildError LockKeys :=
  match h : validate keys with
  | .ok () => .ok ⟨keys, (validate_ok_iff.mp h).1, (validate_ok_iff.mp h).2⟩
  | .error e => .error e

/-- The keys, in the order they were given in. -/
def asSlice (l : LockKeys) : List Key := l.keys

/-- What is accepted is kept as it was given. -/
theorem new_eq_ok {keys : List Key} {l : LockKeys} : new keys = .ok l ↔ l.asSlice = keys := by
  unfold new asSlice
  split
  · rename_i h
    constructor
    · rintro ⟨⟩
      rfl
    · rintro rfl
      rfl
  · rename_i e h
    refine ⟨fun hNo => (by cases hNo), ?_⟩
    rintro rfl
    rw [validate_ok_iff.mpr ⟨l.nonempty, l.unique⟩] at h
    cases h

/-- What is not accepted is told with the error of `validate`. -/
theorem new_eq_error {keys : List Key} {e : LockKeysBuildError} :
    new keys = .error e ↔ validate keys = .error e := by
  unfold new
  split
  · rename_i h
    simp [h]
  · rename_i e' h
    simp [h]

end LockKeys

/-- In debug builds keys that do not pass are a panic with this message. -/
def debugAssertLockKeys (debugAssertions : Bool) (keys : List Key) : Except String Unit :=
  match debugAssertions, validate keys with
  | true, .error e => .error ("invalid lock keys: " ++ e.message)
  | _, _ => .ok ()

/-- The keys of a target that is made of one key or of validated keys. -/
inductive LockTarget.Made : LockTarget → Prop
  | single (key : Key) : Made (.single key)
  | multiple (l : LockKeys) : Made (.multiple l.asSlice)
  | read (key : Key) : Made (.read key)
  | write (key : Key) : Made (.write key)
  | multipleRead (l : LockKeys) : Made (.multipleRead l.asSlice)
  | multipleWrite (l : LockKeys) : Made (.multipleWrite l.asSlice)

/-- The first key that an earlier turn or `unique` has seen. -/
theorem firstDuplicate_eq_some {keys unique : List Key} {key : Key} :
    firstDuplicate unique keys = some key ↔ ∃ older newer, keys = older ++ key :: newer ∧
      older.Nodup ∧ (∀ k ∈ older, k ∉ unique) ∧ (key ∈ older ∨ key ∈ unique) := by
  induction keys generalizing unique with
  | nil => simp [firstDuplicate]
  | cons first keys ih =>
    unfold firstDuplicate
    by_cases hSeen : first ∈ unique
    · rw [if_pos hSeen]
      constructor
      · rintro ⟨⟩
        exact ⟨[], keys, rfl, List.nodup_nil, by simp, Or.inr hSeen⟩
      · rintro ⟨older, newer, hEq, -, hFresh, -⟩
        cases older with
        | nil =>
          cases hEq
          rfl
        | cons k older =>
          cases hEq
          exact absurd hSeen (hFresh first List.mem_cons_self)
    -- the key is new, so the loop goes on with it among the seen ones
    · rw [if_neg hSeen, ih]
      constructor
      · rintro ⟨older, newer, rfl, hNodup, hFresh, hAgain⟩
        refine ⟨first :: older, newer, rfl, ?_, ?_, ?_⟩
        · exact List.nodup_cons.mpr
            ⟨fun hIn => hFresh first hIn List.mem_cons_self, hNodup⟩
        · intro k hk
          rcases List.mem_cons.mp hk with rfl | hk
          · exact hSeen
          · exact fun hIn => hFresh k hk (List.mem_cons_of_mem _ hIn)
        · rcases hAgain with hIn | hIn
          · exact Or.inl (List.mem_cons_of_mem _ hIn)
          · rcases List.mem_cons.mp hIn with rfl | hIn
            · exact Or.inl List.mem_cons_self
            · exact Or.inr hIn
      · rintro ⟨older, newer, hEq, hNodup, hFresh, hAgain⟩
        cases older with
        | nil =>
          -- the first key has been seen by nobody
          cases hEq
          rcases hAgain with hNo | hNo
          · cases hNo
          · exact absurd hNo hSeen
        | cons k older =>
          cases hEq
          obtain ⟨hOnce, hNodup⟩ := List.nodup_cons.mp hNodup
          refine ⟨older, newer, rfl, hNodup, fun k hk hIn => ?_, ?_⟩
          · rcases List.mem_cons.mp hIn with rfl | hIn
            · exact hOnce hk
            · exact hFresh k (List.mem_cons_of_mem _ hk) hIn
          · rcases hAgain with hIn | hIn
            · rcases List.mem_cons.mp hIn with rfl | hIn
              · exact Or.inr List.mem_cons_self
              · exact Or.inl hIn
            · exact Or.inr (List.mem_cons_of_mem _ hIn)

/-- `validate` names the first key that is there before. -/
theorem validate_eq_duplicate {keys : List Key} {key : Key} :
    validate keys = .error (.duplicateKey key) ↔
      ∃ older newer, keys = older ++ key :: newer ∧ older.Nodup ∧ key ∈ older := by
  have hFirst : firstDuplicate [] keys = some key ↔
      ∃ older newer, keys = older ++ key :: newer ∧ older.Nodup ∧ key ∈ older := by
    rw [firstDuplicate_eq_some]
    simp
  unfold validate
  by_cases hEmpty : keys = []
  · rw [if_pos hEmpty]
    simp [hEmpty]
  · rw [if_neg hEmpty, ← hFirst]
    cases firstDuplicate [] keys <;> simp

theorem validate_eq_empty {keys : List Key} : validate keys = .error .empty ↔ keys = [] := by
  unfold validate
  by_cases hEmpty : keys = []
  · simp [hEmpty]
  · rw [if_neg hEmpty]
    cases firstDuplicate [] keys <;> simp [hEmpty]

/-- Whoever is made of one key or of validated keys names each of its keys once. -/
theorem LockTarget.Made.validates {target : LockTarget} (h : target.Made) :
    validate target.keys = .ok () := by
  rw [validate_ok_iff]
  cases h with
  | single key | read key | write key =>
    exact ⟨by simp [LockTarget.keys], by simp [LockTarget.keys]⟩
  | multiple l | multipleRead l | multipleWrite l => exact ⟨l.nonempty, l.unique⟩

/-- **What `LockKeys::new` accepts**: it keeps a list without repetition, and says of any
other that it is empty or which key is the first to be there twice. Targets made of what
it accepted pass the assertion of every acquisition. -/
theorem new_validates (keys : List Key) :
    ((∃ l, LockKeys.new keys = .ok l) ↔ keys ≠ [] ∧ keys.Nodup) ∧
    (∀ l, LockKeys.new keys = .ok l ↔ l.asSlice = keys) ∧
    (LockKeys.new keys = .error .empty ↔ keys = []) ∧
    (∀ key, LockKeys.new keys = .error (.duplicateKey key) ↔
      ∃ older newer, keys = older ++ key :: newer ∧ older.Nodup ∧ key ∈ older) ∧
    ∀ target : LockTarget, target.Made → ∀ debugAssertions,
      debugAssertLockKeys debugAssertions target.keys = .ok () := by
  refine ⟨?_, fun _ => LockKeys.new_eq_ok, ?_, fun _ => ?_, fun target h debugAssertions => ?_⟩
  · constructor
    · rintro ⟨l, hNew⟩
      rw [← LockKeys.new_eq_ok.mp hNew]
      exact ⟨l.nonempty, l.unique⟩
    · rintro ⟨hSome, hNodup⟩
      exact ⟨⟨keys, hSome, hNodup⟩, LockKeys.new_eq_ok.mpr rfl⟩
  · rw [LockKeys.new_eq_error, validate_eq_empty]
  · rw [LockKeys.new_eq_error, validate_eq_duplicate]
  · unfold debugAssertLockKeys
    rw [h.validates]
    cases debugAssertions <;> rfl

end RLock.Client
