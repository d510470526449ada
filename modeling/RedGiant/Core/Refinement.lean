import RedGiant.Core.BaseEventIndex

/-!
# `BaseEventIndex` refines an abstract map

The spec describes the event index as a map `A` from a `(term, doc)` key to
the weight and deadline of its most recent update, minus the keys that
expiry removed, with a reader view that moves only at `apply` (§4.3: "Between
`apply` calls, readers observe the state *as of* the previous apply").
`AbsIndex` is that description: `content` is `A` and `visible` is the weight
view readers get.

`Refines s a` relates a `BaseEventIndex` state to an abstract one:

* the expire table holds exactly `A`'s keys, each with `A`'s deadline;
* replaying the pending changeset over the published index gives `A`'s
  weights;
* the published index is the reader view.

The simulation is proved once, against `AbsStore`, which keeps a key's
deadline, its pending weight and its published weight apart (a restart
separates them, `RedGiant.Restart`): `Tracks` is the relation and
`Tracks.update`, `Tracks.batchUpdate` and `Tracks.apply` its step lemmas.
`AbsIndex.toStore` reads `A` as such a store and commutes with the three
operations, so `Refines s a` is `Tracks s a.toStore` (`refines_iff_tracks`).

`refineRun` runs the index and the abstract map side by side; an abstract
`apply` removes the keys the concrete `apply` pops.  It is the run on the
store read through `toStore` (`storeCalls_toStore`), so `refines_refineRun`,
the relation at every point of every run from an empty index, follows from
the store's run lemma.  The keys `expire_with_limit` pops come back as
`ExpireKey`s built `{term_id, doc_id}` and are read back through `.term_id`
and `.doc_id`; `mem_expiredKeys` is where the two views of a key meet.
-/

namespace RedGiant

variable {DocId TermId TermWeight ExpireTime : Type}

/-- The abstract index: `content` is the map `A` from a `(term, doc)` key to
the weight and deadline of its most recent update since it was last removed,
and `visible` is the weights readers see. -/
structure AbsIndex (TermId DocId TermWeight ExpireTime : Type) where
  content : TermId × DocId → Option (TermWeight × ExpireTime)
  visible : TermId × DocId → Option TermWeight

namespace AbsIndex

variable [DecidableEq TermId] [DecidableEq DocId]

/-- Nothing stored and nothing visible. -/
def empty : AbsIndex TermId DocId TermWeight ExpireTime := ⟨fun _ => none, fun _ => none⟩

/-- `update(doc, term, w, t)` sets `A[(term, doc)] := (w, t)`; readers see no
change. -/
def update (a : AbsIndex TermId DocId TermWeight ExpireTime) (doc : DocId) (term : TermId)
    (w : TermWeight) (e : ExpireTime) : AbsIndex TermId DocId TermWeight ExpireTime :=
  { a with content := Function.update a.content (term, doc) (some (w, e)) }

/-- `batch_update` is `update` on each tuple, in order. -/
def batchUpdate (a : AbsIndex TermId DocId TermWeight ExpireTime)
    (batch : List (EventTuple DocId TermId TermWeight ExpireTime)) :
    AbsIndex TermId DocId TermWeight ExpireTime :=
  batch.foldl (fun a tuple => a.update tuple.1 tuple.2.1 tuple.2.2.1 tuple.2.2.2) a

/-- `apply` deletes the `removed` keys from `A` and shows readers the weights
of what is left. -/
def apply (a : AbsIndex TermId DocId TermWeight ExpireTime) (removed : List (TermId × DocId)) :
    AbsIndex TermId DocId TermWeight ExpireTime :=
  let content := fun k => if k ∈ removed then none else a.content k
  ⟨content, fun k => (content k).map Prod.fst⟩

end AbsIndex

/-- The index as a store of three views per key: its deadline, the weight the
next `apply` publishes, and the weight readers see. -/
structure AbsStore (TermId DocId TermWeight ExpireTime : Type) where
  deadline : TermId × DocId → Option ExpireTime
  pending : TermId × DocId → Option TermWeight
  visible : TermId × DocId → Option TermWeight

namespace AbsStore

/-- The store of a fresh index. -/
def empty : AbsStore TermId DocId TermWeight ExpireTime :=
  ⟨fun _ => none, fun _ => none, fun _ => none⟩

variable [DecidableEq TermId] [DecidableEq DocId]

/-- `update`: the key gets its new deadline and its new pending weight. -/
def update (a : AbsStore TermId DocId TermWeight ExpireTime) (doc : DocId) (term : TermId)
    (w : TermWeight) (e : ExpireTime) : AbsStore TermId DocId TermWeight ExpireTime :=
  { a with deadline := Function.update a.deadline (term, doc) (some e)
           pending := Function.update a.pending (term, doc) (some w) }

/-- `batch_update`: the tuples' updates in order. -/
def batchUpdate (a : AbsStore TermId DocId TermWeight ExpireTime)
    (batch : List (EventTuple DocId TermId TermWeight ExpireTime)) :
    AbsStore TermId DocId TermWeight ExpireTime :=
  batch.foldl (fun a tuple => a.update tuple.1 tuple.2.1 tuple.2.2.1 tuple.2.2.2) a

/-- `apply`: the removed keys lose their deadline and their weight, and the
pending weights are published. -/
def apply (a : AbsStore TermId DocId TermWeight ExpireTime) (removed : List (TermId × DocId)) :
    AbsStore TermId DocId TermWeight ExpireTime :=
  let pending := fun k => if k ∈ removed then none else a.pending k
  ⟨fun k => if k ∈ removed then none else a.deadline k, pending, pending⟩

end AbsStore

namespace AbsIndex

/-- `A` read as a store: each entry split into its deadline and its weight. -/
def toStore (a : AbsIndex TermId DocId TermWeight ExpireTime) :
    AbsStore TermId DocId TermWeight ExpireTime :=
  ⟨fun k => (a.content k).map Prod.snd, fun k => (a.content k).map Prod.fst, a.visible⟩

variable [DecidableEq TermId] [DecidableEq DocId]

theorem toStore_update (a : AbsIndex TermId DocId TermWeight ExpireTime) (doc : DocId)
    (term : TermId) (w : TermWeight) (e : ExpireTime) :
    (a.update doc term w e).toStore = a.toStore.update doc term w e := by
  simp only [toStore, update, AbsStore.update, AbsStore.mk.injEq, and_true]
  constructor <;> funext k <;> simp only [Function.update_apply] <;> split_ifs <;> rfl

theorem toStore_batchUpdate (a : AbsIndex TermId DocId TermWeight ExpireTime)
    (batch : List (EventTuple DocId TermId TermWeight ExpireTime)) :
    (a.batchUpdate batch).toStore = a.toStore.batchUpdate batch := by
  induction batch generalizing a with
  | nil => rfl
  | cons tuple rest ih =>
    exact (ih _).trans (congrArg (AbsStore.batchUpdate · rest) (toStore_update ..))

theorem toStore_apply (a : AbsIndex TermId DocId TermWeight ExpireTime)
    (removed : List (TermId × DocId)) :
    (a.apply removed).toStore = a.toStore.apply removed := by
  simp only [toStore, apply, AbsStore.apply, AbsStore.mk.injEq]
  refine ⟨?_, ?_, ?_⟩ <;> funext k <;> split_ifs <;> rfl

end AbsIndex

section Refinement

variable [LinearOrder DocId] [DecidableEq TermId] [LinearOrder ExpireTime]

namespace BaseEventIndex

/-- The keys `apply(now)` pops from the expire table, as `(term, doc)` pairs. -/
def expiredKeys (s : BaseEventIndex DocId TermId TermWeight ExpireTime) (now : ExpireTime) :
    List (TermId × DocId) :=
  (s.expire.expireWithLimit now s.maxSize).1.map fun q => (q.1.termId, q.1.docId)

omit [DecidableEq TermId] in
theorem mem_expiredKeys (s : BaseEventIndex DocId TermId TermWeight ExpireTime)
    (now : ExpireTime) (t : TermId) (d : DocId) :
    (t, d) ∈ s.expiredKeys now ↔
      (⟨t, d⟩ : ExpireKey TermId DocId) ∈
        (s.expire.expireWithLimit now s.maxSize).1.map Prod.fst := by
  simp only [expiredKeys, List.mem_map, Prod.mk.injEq]
  constructor
  · rintro ⟨⟨⟨t', d'⟩, e⟩, hq, rfl, rfl⟩; exact ⟨_, hq, rfl⟩
  · rintro ⟨⟨⟨t', d'⟩, e⟩, hq, h⟩; cases h; exact ⟨_, hq, rfl, rfl⟩

omit [LinearOrder ExpireTime] in
/-- Publishing the deletes of the popped keys hides exactly those keys. -/
theorem find_replay_expireDeletes (idx : PostingIndex TermId DocId TermWeight)
    (results : List (ExpireKey TermId DocId × ExpireTime)) (t : TermId) (d : DocId) :
    (idx.replay (expireDeletes results)).find t d =
      if (⟨t, d⟩ : ExpireKey TermId DocId) ∈ results.map Prod.fst then none
      else idx.find t d := by
  induction results generalizing idx with
  | nil => simp [expireDeletes]
  | cons q rest ih =>
    obtain ⟨⟨t', d'⟩, e⟩ := q
    simp only [expireDeletes] at ih
    simp only [expireDeletes, List.map_cons, PostingIndex.replay_cons, ih,
      PostingIndex.applyEdit, PostingIndex.find_remove, List.mem_cons, ExpireKey.mk.injEq]
    by_cases h : t = t' ∧ d = d'
    · simp [h]
    · simp only [h, false_or, if_false]

end BaseEventIndex

open BaseEventIndex

/-- The simulation relation between a `BaseEventIndex` and the abstract store. -/
structure Tracks (s : BaseEventIndex DocId TermId TermWeight ExpireTime)
    (a : AbsStore TermId DocId TermWeight ExpireTime) : Prop where
  expire_lookup : ∀ t d, s.expire.lookup ⟨t, d⟩ = a.deadline (t, d)
  pending_find : ∀ t d, (s.index.replay s.changeset).find t d = a.pending (t, d)
  index_find : ∀ t d, s.index.find t d = a.visible (t, d)

namespace Tracks

variable {s : BaseEventIndex DocId TermId TermWeight ExpireTime}
  {a : AbsStore TermId DocId TermWeight ExpireTime}

theorem empty (max_size : Nat) :
    Tracks (BaseEventIndex.empty max_size : BaseEventIndex DocId TermId TermWeight ExpireTime)
      AbsStore.empty :=
  ⟨fun _ _ => rfl, fun _ _ => rfl, fun _ _ => rfl⟩

theorem update (h : Tracks s a) (d : DocId) (t : TermId) (w : TermWeight) (e : ExpireTime) :
    Tracks (s.update d t w e).2 (a.update d t w e) where
  expire_lookup t' d' := by
    simp [AbsStore.update, Function.update_apply, h.expire_lookup]
  pending_find t' d' := by
    simp [AbsStore.update, Function.update_apply, PostingIndex.applyEdit, h.pending_find]
  index_find := h.index_find

theorem batchUpdate (h : Tracks s a)
    (batch : List (EventTuple DocId TermId TermWeight ExpireTime)) :
    Tracks (s.batchUpdate batch).2 (a.batchUpdate batch) := by
  rw [batchUpdate_eq_foldl_update]
  induction batch generalizing s a with
  | nil => exact h
  | cons tuple rest ih => exact ih (h.update _ _ _ _)

theorem apply (h : Tracks s a) (now : ExpireTime) :
    Tracks (s.apply now).2 (a.apply (s.expiredKeys now)) where
  expire_lookup t d := by
    simp only [apply_expire, ExpireTable.lookup_expireWithLimit, AbsStore.apply,
      mem_expiredKeys, h.expire_lookup]
  pending_find t d := by
    simp only [apply_changeset, PostingIndex.replay_nil, apply_index, PostingIndex.replay_append,
      find_replay_expireDeletes, h.pending_find, AbsStore.apply, mem_expiredKeys]
  index_find t d := by
    simp only [apply_index, PostingIndex.replay_append, find_replay_expireDeletes,
      h.pending_find, AbsStore.apply, mem_expiredKeys]

end Tracks

/-- One writer call on both the index and the abstract store; the abstract
`apply` removes the keys the concrete one pops. -/
def storeCall (p : BaseEventIndex DocId TermId TermWeight ExpireTime ×
      AbsStore TermId DocId TermWeight ExpireTime) :
    Op DocId TermId TermWeight ExpireTime →
      BaseEventIndex DocId TermId TermWeight ExpireTime ×
        AbsStore TermId DocId TermWeight ExpireTime
  | .update d t w e => (p.1.step (.update d t w e), p.2.update d t w e)
  | .batchUpdate b => (p.1.step (.batchUpdate b), p.2.batchUpdate b)
  | .apply now => (p.1.step (.apply now), p.2.apply (p.1.expiredKeys now))

/-- Writer calls on both levels. -/
def storeCalls (p : BaseEventIndex DocId TermId TermWeight ExpireTime ×
      AbsStore TermId DocId TermWeight ExpireTime)
    (ops : List (Op DocId TermId TermWeight ExpireTime)) :
    BaseEventIndex DocId TermId TermWeight ExpireTime ×
      AbsStore TermId DocId TermWeight ExpireTime :=
  ops.foldl storeCall p

section StoreCalls

variable (p : BaseEventIndex DocId TermId TermWeight ExpireTime ×
  AbsStore TermId DocId TermWeight ExpireTime)

theorem storeCall_fst (op : Op DocId TermId TermWeight ExpireTime) :
    (storeCall p op).1 = p.1.step op := by
  cases op <;> rfl

theorem storeCalls_fst (ops : List (Op DocId TermId TermWeight ExpireTime)) :
    (storeCalls p ops).1 = p.1.run ops := by
  induction ops generalizing p with
  | nil => rfl
  | cons op rest ih => exact (ih _).trans (congrArg (run · rest) (storeCall_fst p op))

theorem Tracks.storeCall (h : Tracks p.1 p.2) (op : Op DocId TermId TermWeight ExpireTime) :
    Tracks (storeCall p op).1 (storeCall p op).2 := by
  cases op with
  | update d t w e => exact h.update d t w e
  | batchUpdate b => exact h.batchUpdate b
  | apply now => exact h.apply now

theorem Tracks.storeCalls (ops : List (Op DocId TermId TermWeight ExpireTime))
    (h : Tracks p.1 p.2) : Tracks (storeCalls p ops).1 (storeCalls p ops).2 := by
  induction ops generalizing p with
  | nil => exact h
  | cons op rest ih => exact ih _ (h.storeCall p op)

end StoreCalls

/-- The simulation relation between a `BaseEventIndex` and the abstract map. -/
structure Refines (s : BaseEventIndex DocId TermId TermWeight ExpireTime)
    (a : AbsIndex TermId DocId TermWeight ExpireTime) : Prop where
  /-- The expire table maps exactly `A`'s keys, each to `A`'s deadline. -/
  expire_lookup : ∀ t d, s.expire.lookup ⟨t, d⟩ = (a.content (t, d)).map Prod.snd
  /-- Replaying the changeset over the published index gives `A`'s weights. -/
  pending_find : ∀ t d, (s.index.replay s.changeset).find t d = (a.content (t, d)).map Prod.fst
  /-- The published index is what readers see. -/
  index_find : ∀ t d, s.index.find t d = a.visible (t, d)

theorem refines_iff_tracks {s : BaseEventIndex DocId TermId TermWeight ExpireTime}
    {a : AbsIndex TermId DocId TermWeight ExpireTime} : Refines s a ↔ Tracks s a.toStore :=
  ⟨fun ⟨h₁, h₂, h₃⟩ => ⟨h₁, h₂, h₃⟩, fun ⟨h₁, h₂, h₃⟩ => ⟨h₁, h₂, h₃⟩⟩

namespace Refines

variable {s : BaseEventIndex DocId TermId TermWeight ExpireTime}
  {a : AbsIndex TermId DocId TermWeight ExpireTime}

theorem apply (h : Refines s a) (now : ExpireTime) :
    Refines (s.apply now).2 (a.apply (s.expiredKeys now)) := by
  rw [refines_iff_tracks, AbsIndex.toStore_apply]
  exact (refines_iff_tracks.1 h).apply now

end Refines

/-- One call on both the index and the abstract map; the abstract `apply`
removes the keys the concrete one pops. -/
def refineStep (p : BaseEventIndex DocId TermId TermWeight ExpireTime ×
      AbsIndex TermId DocId TermWeight ExpireTime) :
    Op DocId TermId TermWeight ExpireTime →
      BaseEventIndex DocId TermId TermWeight ExpireTime ×
        AbsIndex TermId DocId TermWeight ExpireTime
  | .update d t w e => (p.1.step (.update d t w e), p.2.update d t w e)
  | .batchUpdate b => (p.1.step (.batchUpdate b), p.2.batchUpdate b)
  | .apply now => (p.1.step (.apply now), p.2.apply (p.1.expiredKeys now))

/-- A sequence of calls on both the index and the abstract map. -/
def refineRun (p : BaseEventIndex DocId TermId TermWeight ExpireTime ×
      AbsIndex TermId DocId TermWeight ExpireTime)
    (ops : List (Op DocId TermId TermWeight ExpireTime)) :
    BaseEventIndex DocId TermId TermWeight ExpireTime ×
      AbsIndex TermId DocId TermWeight ExpireTime :=
  ops.foldl refineStep p

/-- The index side of `refineRun` is the plain run. -/
@[simp] theorem refineRun_fst (p : BaseEventIndex DocId TermId TermWeight ExpireTime ×
      AbsIndex TermId DocId TermWeight ExpireTime)
    (ops : List (Op DocId TermId TermWeight ExpireTime)) : (refineRun p ops).1 = p.1.run ops := by
  induction ops generalizing p with
  | nil => rfl
  | cons op rest ih => cases op <;> exact ih _

/-- `refineRun` is the run on the store, read through `AbsIndex.toStore`. -/
theorem storeCalls_toStore (s : BaseEventIndex DocId TermId TermWeight ExpireTime)
    (a : AbsIndex TermId DocId TermWeight ExpireTime)
    (ops : List (Op DocId TermId TermWeight ExpireTime)) :
    storeCalls (s, a.toStore) ops =
      ((refineRun (s, a) ops).1, (refineRun (s, a) ops).2.toStore) := by
  induction ops generalizing s a with
  | nil => rfl
  | cons op rest ih =>
    refine (congrArg (storeCalls · rest) ?_).trans
      (ih (refineStep (s, a) op).1 (refineStep (s, a) op).2)
    cases op with
    | update d t w e => exact Prod.ext rfl (AbsIndex.toStore_update ..).symm
    | batchUpdate b => exact Prod.ext rfl (AbsIndex.toStore_batchUpdate ..).symm
    | apply now => exact Prod.ext rfl (AbsIndex.toStore_apply ..).symm

/-- The relation holds at every point of every run from an empty index. -/
theorem refines_refineRun (max_size : Nat) (ops : List (Op DocId TermId TermWeight ExpireTime)) :
    Refines (refineRun (BaseEventIndex.empty max_size, AbsIndex.empty) ops).1
      (refineRun (BaseEventIndex.empty max_size, AbsIndex.empty) ops).2 := by
  have h := Tracks.storeCalls (BaseEventIndex.empty max_size, AbsIndex.empty.toStore) ops
    (Tracks.empty max_size)
  rw [storeCalls_toStore] at h
  exact refines_iff_tracks.2 h

/-- Right after an `apply`, the published index and the expire table hold the
same keys. -/
theorem Refines.apply_find_isSome_iff {s : BaseEventIndex DocId TermId TermWeight ExpireTime}
    {a : AbsIndex TermId DocId TermWeight ExpireTime} (h : Refines s a) (now : ExpireTime)
    (t : TermId) (d : DocId) :
    ((s.apply now).2.index.find t d).isSome ↔
      ((s.apply now).2.expire.lookup ⟨t, d⟩).isSome := by
  have h' := h.apply now
  rw [h'.index_find, h'.expire_lookup]
  simp [AbsIndex.apply]

/-- `BaseEventIndex` refines the abstract map at every point of every run from
an empty index: the expire table maps `A`'s keys to `A`'s deadlines, the
changeset replayed over the published index gives `A`'s weights, and the
published index is `A`'s weights as of the last `apply`.  `update` and
`batch_update` never touch the published index, `apply` leaves the changeset
empty, and right after `apply` the published index and the expire table hold
the same keys. -/
theorem baseEventIndex_refines_absIndex (max_size : Nat)
    (ops : List (Op DocId TermId TermWeight ExpireTime)) :
    let p := refineRun (BaseEventIndex.empty max_size, AbsIndex.empty) ops
    Refines p.1 p.2 ∧
      (∀ d t w e, (p.1.update d t w e).2.index = p.1.index) ∧
      (∀ batch, (p.1.batchUpdate batch).2.index = p.1.index) ∧
      (∀ now, (p.1.apply now).2.changeset = [] ∧
        ∀ t d, ((p.1.apply now).2.index.find t d).isSome ↔
          ((p.1.apply now).2.expire.lookup ⟨t, d⟩).isSome) :=
  let h := refines_refineRun max_size ops
  ⟨h, fun _ _ _ _ => rfl, fun _ => batchUpdate_index _ _,
    fun now => ⟨rfl, h.apply_find_isSome_iff now⟩⟩

end Refinement

end RedGiant
