import RedGiant.Core.PostingIndex

/-!
# `FeatureCache::create_or_get_feature`

`model/feature_cache.cc` has the two overloads of `create_or_get_feature`.
The by-name overload looks the space up in `spaces_` and hands it to the
by-space overload, which asks the space for the key's `FeatureId`, returns
null for `FeatureSpace::kInvalidId`, and otherwise returns the `Feature`
stored under the id in `features_`, creating and storing one on first use.

`FeatureSpace` is not in this tree, so `calculate_feature_id` and
`kInvalidId` are parameters of every definition below: the results hold for
every space type, every id function and every reserved id.

The model keeps object identity.  `std::make_shared` allocates a new `Feature`
on `heap`, and a `shared_ptr` is its address there; null is `none`.  Two
calls return the identical object exactly when they return the same address.

* `createOrGetFeature_cases` says what one call can do: return null and
  change nothing, return the stored address, or allocate and store a new
  `Feature`.
* `Inv` is the invariant of `features_`: every entry points at a `Feature`
  whose id is its key, and no key is `kInvalidId`.
* `runCalls` runs a sequence of calls.  `runCalls_stored` gives each non-null
  result as the address stored under its id at the end of the run, and
  `heap_runCalls` gives the `Feature` there: the key of the first call that
  yielded the id.
-/

namespace RedGiant

variable {Space FeatureId : Type} [DecidableEq FeatureId]

/-- A `Feature` object: the key it was created with and its id. -/
structure Feature (FeatureId : Type) where
  key : String
  id : FeatureId
  deriving DecidableEq

/-- The state of a `FeatureCache`: `spaces_`, `features_` (from an id to the
address of its `Feature`), and the `Feature` objects allocated so far, by
address. -/
structure FeatureCache (Space FeatureId : Type) where
  spaces : List (String × Space)
  features : List (FeatureId × Nat)
  heap : List (Feature FeatureId)

namespace FeatureCache

variable (calculate_feature_id : Space → String → FeatureId) (kInvalidId : FeatureId)

/-- `create_or_get_feature(feature_key, space)`. -/
def createOrGetFeature (c : FeatureCache Space FeatureId) (feature_key : String) (space : Space) :
    Option Nat × FeatureCache Space FeatureId :=
  let id := calculate_feature_id space feature_key
  if id = kInvalidId then (none, c)
  else
    match c.features.lookup id with
    | some p => (some p, c)
    | none =>
      (some c.heap.length,
        { c with features := (id, c.heap.length) :: c.features,
                 heap := c.heap ++ [⟨feature_key, id⟩] })

/-- `create_or_get_feature(feature_key, space_name)`. -/
def createOrGetFeatureByName (c : FeatureCache Space FeatureId) (feature_key space_name : String) :
    Option Nat × FeatureCache Space FeatureId :=
  match c.spaces.lookup space_name with
  | none => (none, c)
  | some space => c.createOrGetFeature calculate_feature_id kInvalidId feature_key space

/-- The id the by-space overload asks the space for, unless the call returns
null on it. -/
def validId (space : Space) (feature_key : String) : Option FeatureId :=
  if calculate_feature_id space feature_key = kInvalidId then none
  else some (calculate_feature_id space feature_key)

/-- The invariant of `features_`: every entry points at a `Feature` whose id is
its key, and no key is `kInvalidId`. -/
def Inv (c : FeatureCache Space FeatureId) : Prop :=
  ∀ id p, c.features.lookup id = some p →
    id ≠ kInvalidId ∧ ∃ key, c.heap[p]? = some ⟨key, id⟩

theorem Inv.lt_length {c : FeatureCache Space FeatureId} (hinv : Inv kInvalidId c)
    {id : FeatureId} {p : Nat} (hp : c.features.lookup id = some p) : p < c.heap.length := by
  obtain ⟨-, key, hk⟩ := hinv id p hp
  exact (List.getElem?_eq_some_iff.1 hk).1

/-! ## One call -/

section OneCall

variable (c : FeatureCache Space FeatureId) (feature_key : String) (space : Space)

/-- What one call of the by-space overload can do: return null and change
nothing, return the address stored under the id, or allocate a `Feature` and
store its address. -/
theorem createOrGetFeature_cases :
    (validId calculate_feature_id kInvalidId space feature_key = none ∧
        c.createOrGetFeature calculate_feature_id kInvalidId feature_key space = (none, c)) ∨
      (∃ id p, validId calculate_feature_id kInvalidId space feature_key = some id ∧
        c.features.lookup id = some p ∧
        c.createOrGetFeature calculate_feature_id kInvalidId feature_key space = (some p, c)) ∨
      (∃ id, validId calculate_feature_id kInvalidId space feature_key = some id ∧
        c.features.lookup id = none ∧
        c.createOrGetFeature calculate_feature_id kInvalidId feature_key space =
          (some c.heap.length, { c with features := (id, c.heap.length) :: c.features,
                                        heap := c.heap ++ [⟨feature_key, id⟩] })) := by
  by_cases h : calculate_feature_id space feature_key = kInvalidId
  · exact .inl ⟨by simp [validId, h], by simp [createOrGetFeature, h]⟩
  cases hl : c.features.lookup (calculate_feature_id space feature_key) with
  | some p =>
    exact .inr (.inl ⟨_, p, by simp [validId, h], hl, by simp [createOrGetFeature, h, hl]⟩)
  | none => exact .inr (.inr ⟨_, by simp [validId, h], hl, by simp [createOrGetFeature, h, hl]⟩)

end OneCall

/-! ## Calls through either overload -/

/-- One call of `create_or_get_feature`, through either overload. -/
inductive Call (Space : Type)
  | byName (feature_key space_name : String)
  | bySpace (feature_key : String) (space : Space)

namespace Call

/-- The key a call asks for. -/
def key : Call Space → String
  | .byName k _ => k
  | .bySpace k _ => k

/-- The id a call yields: none when the space name is not registered or the
space answers `kInvalidId`. -/
def featureId (spaces : List (String × Space)) : Call Space → Option FeatureId
  | .byName k n =>
    (spaces.lookup n).bind fun space => validId calculate_feature_id kInvalidId space k
  | .bySpace k space => validId calculate_feature_id kInvalidId space k

/-- Run one call on a cache. -/
def run (c : FeatureCache Space FeatureId) :
    Call Space → Option Nat × FeatureCache Space FeatureId
  | .byName k n => c.createOrGetFeatureByName calculate_feature_id kInvalidId k n
  | .bySpace k space => c.createOrGetFeature calculate_feature_id kInvalidId k space

variable (c : FeatureCache Space FeatureId) (call : Call Space)

/-- What one call can do, through either overload. -/
theorem run_cases :
    (call.featureId calculate_feature_id kInvalidId c.spaces = none ∧
        call.run calculate_feature_id kInvalidId c = (none, c)) ∨
      (∃ id p, call.featureId calculate_feature_id kInvalidId c.spaces = some id ∧
        c.features.lookup id = some p ∧
        call.run calculate_feature_id kInvalidId c = (some p, c)) ∨
      (∃ id, call.featureId calculate_feature_id kInvalidId c.spaces = some id ∧
        c.features.lookup id = none ∧
        call.run calculate_feature_id kInvalidId c =
          (some c.heap.length, { c with features := (id, c.heap.length) :: c.features,
                                        heap := c.heap ++ [⟨call.key, id⟩] })) := by
  cases call with
  | bySpace k space => exact createOrGetFeature_cases calculate_feature_id kInvalidId c k space
  | byName k n =>
    cases hs : c.spaces.lookup n with
    | none => exact .inl ⟨by simp [featureId, hs], by simp [run, createOrGetFeatureByName, hs]⟩
    | some space =>
      simpa only [featureId, run, createOrGetFeatureByName, hs, Option.some_bind, key]
        using createOrGetFeature_cases calculate_feature_id kInvalidId c k space

theorem run_spaces : (call.run calculate_feature_id kInvalidId c).2.spaces = c.spaces := by
  rcases run_cases calculate_feature_id kInvalidId c call with
    ⟨-, h⟩ | ⟨_, _, -, -, h⟩ | ⟨_, -, -, h⟩ <;> rw [h]

/-- A call returns null exactly when it yields no id. -/
theorem run_fst_eq_none_iff :
    (call.run calculate_feature_id kInvalidId c).1 = none ↔
      call.featureId calculate_feature_id kInvalidId c.spaces = none := by
  rcases run_cases calculate_feature_id kInvalidId c call with
    ⟨h1, h⟩ | ⟨_, _, h1, -, h⟩ | ⟨_, h1, -, h⟩ <;> simp [h, h1]

/-- A call that returns null leaves the cache as it was. -/
theorem run_of_fst_eq_none (hn : (call.run calculate_feature_id kInvalidId c).1 = none) :
    (call.run calculate_feature_id kInvalidId c).2 = c := by
  rcases run_cases calculate_feature_id kInvalidId c call with
    ⟨-, h⟩ | ⟨_, _, -, -, h⟩ | ⟨_, -, -, h⟩ <;> simp_all

/-- A call that yields an id returns the address stored under it after the
call. -/
theorem run_stored {id : FeatureId}
    (hid : call.featureId calculate_feature_id kInvalidId c.spaces = some id) :
    ∃ p, (call.run calculate_feature_id kInvalidId c).1 = some p ∧
      (call.run calculate_feature_id kInvalidId c).2.features.lookup id = some p := by
  rcases run_cases calculate_feature_id kInvalidId c call with
    ⟨h1, h⟩ | ⟨_, p, h1, hp, h⟩ | ⟨_, h1, -, h⟩
  · simp [h1] at hid
  · rw [hid, Option.some_inj] at h1; subst h1; exact ⟨p, by rw [h], by rw [h]; exact hp⟩
  · rw [hid, Option.some_inj] at h1; subst h1; exact ⟨_, by rw [h], by rw [h]; simp⟩

/-- An id a call yields is never `kInvalidId`. -/
theorem featureId_ne_invalid {spaces : List (String × Space)} {id : FeatureId}
    (h : call.featureId calculate_feature_id kInvalidId spaces = some id) : id ≠ kInvalidId := by
  have hv : ∀ space k, validId calculate_feature_id kInvalidId space k = some id →
      id ≠ kInvalidId := fun space k hv => by
    unfold validId at hv
    split_ifs at hv with he
    exact Option.some_inj.1 hv ▸ he
  cases call with
  | byName k n =>
    cases hs : spaces.lookup n with
    | none => simp [featureId, hs] at h
    | some space => exact hv space k (by simpa [featureId, hs] using h)
  | bySpace k space => exact hv space k h

/-- No call replaces or removes an entry of `features_`, or changes the
`Feature` an entry points at. -/
theorem run_keeps (hinv : Inv kInvalidId c) {id : FeatureId} {p : Nat}
    (hp : c.features.lookup id = some p) :
    (call.run calculate_feature_id kInvalidId c).2.features.lookup id = some p ∧
      (call.run calculate_feature_id kInvalidId c).2.heap[p]? = c.heap[p]? := by
  rcases run_cases calculate_feature_id kInvalidId c call with
    ⟨-, h⟩ | ⟨_, _, -, -, h⟩ | ⟨id', -, hn, h⟩ <;> rw [h]
  · exact ⟨hp, rfl⟩
  · exact ⟨hp, rfl⟩
  · have hne : id ≠ id' := fun he => by rw [he, hn] at hp; cases hp
    exact ⟨by simpa [lookup_cons_eq_ite, hne] using hp,
      List.getElem?_append_left (Inv.lt_length kInvalidId hinv hp)⟩

/-- A call keeps the invariant. -/
theorem run_inv (hinv : Inv kInvalidId c) :
    Inv kInvalidId (call.run calculate_feature_id kInvalidId c).2 := by
  rcases run_cases calculate_feature_id kInvalidId c call with
    ⟨-, h⟩ | ⟨_, _, -, -, h⟩ | ⟨id', hid, -, h⟩ <;> rw [h]
  · exact hinv
  · exact hinv
  · intro g q hq
    by_cases hg : g = id'
    · subst hg
      simp only [lookup_cons_eq_ite, if_true, Option.some_inj] at hq
      subst hq
      exact ⟨featureId_ne_invalid calculate_feature_id kInvalidId call hid, call.key,
        List.getElem?_concat_length _ _⟩
    · simp only [lookup_cons_eq_ite, hg, if_false] at hq
      obtain ⟨hne, key, hk⟩ := hinv g q hq
      exact ⟨hne, key, by rw [List.getElem?_append_left (Inv.lt_length kInvalidId hinv hq), hk]⟩

/-- An entry a call adds is under the id the call yields, and points at a new
`Feature` with the call's key. -/
theorem run_new {id : FeatureId} {p : Nat} (hnone : c.features.lookup id = none)
    (hp : (call.run calculate_feature_id kInvalidId c).2.features.lookup id = some p) :
    call.featureId calculate_feature_id kInvalidId c.spaces = some id ∧
      (call.run calculate_feature_id kInvalidId c).2.heap[p]? = some ⟨call.key, id⟩ := by
  rcases run_cases calculate_feature_id kInvalidId c call with
    ⟨-, h⟩ | ⟨_, _, -, -, h⟩ | ⟨id', hid, -, h⟩ <;> rw [h] at hp ⊢
  · rw [hnone] at hp; cases hp
  · rw [hnone] at hp; cases hp
  · by_cases hg : id = id'
    · subst hg
      simp only [lookup_cons_eq_ite, if_true, Option.some_inj] at hp
      subst hp
      exact ⟨hid, List.getElem?_concat_length _ _⟩
    · simp only [lookup_cons_eq_ite, hg, if_false, hnone] at hp
      cases hp

end Call

/-! ## Runs -/

/-- Run a sequence of calls, collecting what each returns. -/
def runCalls (c : FeatureCache Space FeatureId) :
    List (Call Space) → List (Option Nat) × FeatureCache Space FeatureId
  | [] => ([], c)
  | call :: rest =>
    let r := call.run calculate_feature_id kInvalidId c
    let rs := runCalls r.2 rest
    (r.1 :: rs.1, rs.2)

/-- The key of the first call of `calls` that yields `id`. -/
def firstKey (spaces : List (String × Space)) (calls : List (Call Space)) (id : FeatureId) :
    Option String :=
  (calls.find? fun call => call.featureId calculate_feature_id kInvalidId spaces = some id).map
    Call.key

section Runs

variable (calls : List (Call Space))

@[simp] theorem runCalls_cons_snd (c : FeatureCache Space FeatureId) (call : Call Space) :
    (runCalls calculate_feature_id kInvalidId c (call :: calls)).2 =
      (runCalls calculate_feature_id kInvalidId
        (call.run calculate_feature_id kInvalidId c).2 calls).2 := rfl

theorem runCalls_spaces (c : FeatureCache Space FeatureId) :
    (runCalls calculate_feature_id kInvalidId c calls).2.spaces = c.spaces := by
  induction calls generalizing c with
  | nil => rfl
  | cons call rest ih => exact (ih _).trans (Call.run_spaces _ _ c call)

theorem runCalls_length (c : FeatureCache Space FeatureId) :
    (runCalls calculate_feature_id kInvalidId c calls).1.length = calls.length := by
  induction calls generalizing c with
  | nil => rfl
  | cons call rest ih => exact congrArg (· + 1) (ih _)

theorem runCalls_inv {c : FeatureCache Space FeatureId} (hinv : Inv kInvalidId c) :
    Inv kInvalidId (runCalls calculate_feature_id kInvalidId c calls).2 := by
  induction calls generalizing c with
  | nil => exact hinv
  | cons call rest ih => exact ih (Call.run_inv _ _ c call hinv)

/-- No run removes or replaces an entry of `features_`, or changes the
`Feature` an entry points at. -/
theorem runCalls_keeps {c : FeatureCache Space FeatureId} (hinv : Inv kInvalidId c)
    {id : FeatureId} {p : Nat} (hp : c.features.lookup id = some p) :
    (runCalls calculate_feature_id kInvalidId c calls).2.features.lookup id = some p ∧
      (runCalls calculate_feature_id kInvalidId c calls).2.heap[p]? = c.heap[p]? := by
  induction calls generalizing c with
  | nil => exact ⟨hp, rfl⟩
  | cons call rest ih =>
    obtain ⟨hp₁, hh₁⟩ := Call.run_keeps _ _ c call hinv hp
    obtain ⟨hp₂, hh₂⟩ := ih (Call.run_inv _ _ c call hinv) hp₁
    exact ⟨hp₂, hh₂.trans hh₁⟩

/-- Each call of a run returns null exactly when it yields no id. -/
theorem runCalls_null (c : FeatureCache Space FeatureId) :
    ∀ x ∈ calls.zip (runCalls calculate_feature_id kInvalidId c calls).1,
      x.2 = none ↔ x.1.featureId calculate_feature_id kInvalidId c.spaces = none := by
  induction calls generalizing c with
  | nil => simp [runCalls]
  | cons call rest ih =>
    intro x hx
    simp only [runCalls, List.zip_cons_cons, List.mem_cons] at hx
    rcases hx with rfl | hx
    · exact Call.run_fst_eq_none_iff _ _ c call
    · simpa [Call.run_spaces] using ih _ x hx

/-- Each call of a run that yields an id returns the address stored under the
id at the end of the run. -/
theorem runCalls_stored {c : FeatureCache Space FeatureId} (hinv : Inv kInvalidId c) :
    ∀ x ∈ calls.zip (runCalls calculate_feature_id kInvalidId c calls).1, ∀ id,
      x.1.featureId calculate_feature_id kInvalidId c.spaces = some id →
        ∃ p, x.2 = some p ∧
          (runCalls calculate_feature_id kInvalidId c calls).2.features.lookup id = some p := by
  induction calls generalizing c with
  | nil => simp [runCalls]
  | cons call rest ih =>
    intro x hx id hid
    simp only [runCalls, List.zip_cons_cons, List.mem_cons] at hx
    rcases hx with rfl | hx
    · obtain ⟨p, hr, hp⟩ := Call.run_stored _ _ c call hid
      exact ⟨p, hr, (runCalls_keeps _ _ rest (Call.run_inv _ _ c call hinv) hp).1⟩
    · exact ih (Call.run_inv _ _ c call hinv) x hx id (by rwa [Call.run_spaces])

/-- The `Feature` an entry added during a run points at has the key of the
first call that yielded its id. -/
theorem heap_runCalls {c : FeatureCache Space FeatureId} (hinv : Inv kInvalidId c)
    {id : FeatureId} {p : Nat} (hnone : c.features.lookup id = none)
    (hp : (runCalls calculate_feature_id kInvalidId c calls).2.features.lookup id = some p) :
    (runCalls calculate_feature_id kInvalidId c calls).2.heap[p]? =
      (firstKey calculate_feature_id kInvalidId c.spaces calls id).map fun k => ⟨k, id⟩ := by
  induction calls generalizing c with
  | nil => simp [runCalls, hnone] at hp
  | cons call rest ih =>
    have hinv₁ := Call.run_inv calculate_feature_id kInvalidId c call hinv
    cases hp₁ : (call.run calculate_feature_id kInvalidId c).2.features.lookup id with
    | none =>
      have hne : call.featureId calculate_feature_id kInvalidId c.spaces ≠ some id := fun h => by
        obtain ⟨_, -, h'⟩ := Call.run_stored _ _ c call h
        rw [hp₁] at h'; cases h'
      rw [firstKey, List.find?_cons_of_neg _ (by simpa using hne), ← firstKey,
        ← Call.run_spaces calculate_feature_id kInvalidId c call]
      exact ih hinv₁ hp₁ hp
    | some p₁ =>
      obtain ⟨hid, hheap⟩ := Call.run_new _ _ c call hnone hp₁
      obtain ⟨hp₂, hh₂⟩ := runCalls_keeps _ _ rest hinv₁ hp₁
      have hpp : p = p₁ := Option.some_inj.1 (hp.symm.trans hp₂)
      subst hpp
      rw [runCalls_cons_snd, hh₂, hheap, firstKey, List.find?_cons_of_pos _ (by simpa using hid)]
      rfl

end Runs

/-- The cache `create_space` leaves: registered spaces and no feature yet. -/
def withSpaces (spaces : List (String × Space)) : FeatureCache Space FeatureId :=
  ⟨spaces, [], []⟩

theorem inv_withSpaces (spaces : List (String × Space)) :
    Inv kInvalidId (withSpaces spaces : FeatureCache Space FeatureId) :=
  fun _ _ h => by cases h

/-- Any sequence of calls, through either overload, on a cache with a fixed
set of registered spaces: the spaces stay fixed and `features_` keeps its
invariant; no call replaces or removes an entry, and a null call changes
nothing; each call returns null exactly when its space name is not registered
or its id is `kInvalidId`; and calls that yield the same id return the
identical object, the one stored under the id, carrying the key of the first
call that yielded it. -/
theorem createOrGetFeature_run_spec (spaces : List (String × Space))
    (calls : List (Call Space)) :
    let r := runCalls calculate_feature_id kInvalidId (withSpaces spaces) calls
    r.2.spaces = spaces ∧ Inv kInvalidId r.2 ∧ r.1.length = calls.length ∧
      (∀ (c : FeatureCache Space FeatureId) (call : Call Space), Inv kInvalidId c →
        (∀ id p, c.features.lookup id = some p →
          (call.run calculate_feature_id kInvalidId c).2.features.lookup id = some p ∧
            (call.run calculate_feature_id kInvalidId c).2.heap[p]? = c.heap[p]?) ∧
        ((call.run calculate_feature_id kInvalidId c).1 = none →
          (call.run calculate_feature_id kInvalidId c).2 = c)) ∧
      (∀ x ∈ calls.zip r.1,
        x.2 = none ↔ x.1.featureId calculate_feature_id kInvalidId spaces = none) ∧
      (∀ x ∈ calls.zip r.1, ∀ y ∈ calls.zip r.1, ∀ id,
        x.1.featureId calculate_feature_id kInvalidId spaces = some id →
        y.1.featureId calculate_feature_id kInvalidId spaces = some id →
          x.2 = y.2 ∧ ∃ p, x.2 = some p ∧ r.2.features.lookup id = some p ∧
            r.2.heap[p]? = (firstKey calculate_feature_id kInvalidId spaces calls id).map
              fun k => ⟨k, id⟩) := by
  intro r
  have hinv : Inv kInvalidId (withSpaces spaces : FeatureCache Space FeatureId) :=
    inv_withSpaces kInvalidId spaces
  refine ⟨runCalls_spaces _ _ calls _, runCalls_inv _ _ calls hinv, runCalls_length _ _ calls _,
    fun c call hc => ⟨fun _ _ hp => Call.run_keeps _ _ c call hc hp,
      Call.run_of_fst_eq_none _ _ c call⟩,
    runCalls_null _ _ calls _, fun x hx y hy id hxid hyid => ?_⟩
  obtain ⟨p, hxp, hp⟩ := runCalls_stored _ _ calls hinv x hx id hxid
  obtain ⟨q, hyq, hq⟩ := runCalls_stored _ _ calls hinv y hy id hyid
  have hpq : p = q := Option.some_inj.1 (hp.symm.trans hq)
  exact ⟨by rw [hxp, hyq, hpq], p, hxp, hp, heap_runCalls _ _ calls hinv rfl hp⟩

end FeatureCache

end RedGiant
