import RedGiant.Core.ExpireTable

/-!
# `BaseEventIndex`

The writer side of `core/impl/base_event_index-inl.h`: the posting index of
`Base`, `changeset_`, `max_size_` and `expire_`.  Every member but `dump` runs
under `changeset_mutex_`, so the model runs the calls one after another; `run`
folds a list of them, and a reachable state is `run (empty maxSize) ops`.  The
`int` counts the calls return are `BitVec 32`: `ret_expire += results.size()`
converts modulo `2 ^ 32`, and the sum of `batch_update` wraps where C++ leaves
signed overflow undefined.

`update_duplicate_apply`: an update delivered twice in a row publishes what it
publishes once (§7: duplicate upserts are tolerated).
-/

namespace RedGiant

variable {DocId TermId TermWeight ExpireTime : Type}

/-- The `EventTuple` of `batch_update`: `std::get<0>` is the `DocId`,
`std::get<1>` the `TermId`, `std::get<2>` the weight and `std::get<3>` the
deadline. -/
abbrev EventTuple (DocId TermId TermWeight ExpireTime : Type) :=
  DocId × TermId × TermWeight × ExpireTime

/-- The state of a `BaseEventIndex`: the posting index its `Base` publishes,
`changeset_`, `max_size_` and `expire_`. -/
structure BaseEventIndex (DocId TermId TermWeight ExpireTime : Type)
    [LinearOrder DocId] [LinearOrder ExpireTime] where
  index : PostingIndex TermId DocId TermWeight
  changeset : List (Edit TermId DocId TermWeight)
  maxSize : Nat
  expire : ExpireTable TermId DocId ExpireTime

namespace BaseEventIndex

variable [LinearOrder DocId] [DecidableEq TermId] [LinearOrder ExpireTime]

/-- Modelled from the spec: a new index with nothing in it (the constructor
without a loader is declared in `base_event_index.h`, which is not in this
tree).  `initial_buckets` only presizes the hash table and is left out. -/
def empty (max_size : Nat) : BaseEventIndex DocId TermId TermWeight ExpireTime :=
  ⟨.empty, [], max_size, .empty⟩

/-- `get_expire_table_size()`. -/
def getExpireTableSize (s : BaseEventIndex DocId TermId TermWeight ExpireTime) : Nat :=
  s.expire.size

/-- `update_expire_internal(doc_id, term_id, expire_time)`: the key is built as
`{term_id, doc_id}`. -/
def updateExpireInternal (s : BaseEventIndex DocId TermId TermWeight ExpireTime)
    (doc_id : DocId) (term_id : TermId) (expire_time : ExpireTime) :
    BaseEventIndex DocId TermId TermWeight ExpireTime :=
  { s with expire := s.expire.update ⟨term_id, doc_id⟩ expire_time }

/-- `update(doc_id, term_id, weights, expire_time)`. -/
def update (s : BaseEventIndex DocId TermId TermWeight ExpireTime) (doc_id : DocId)
    (term_id : TermId) (weights : TermWeight) (expire_time : ExpireTime) :
    BitVec 32 × BaseEventIndex DocId TermId TermWeight ExpireTime :=
  let s := s.updateExpireInternal doc_id term_id expire_time
  let r := createUpdateInternal doc_id term_id weights s.changeset
  (r.1, { s with changeset := r.2 })

/-- The body of the `for` loop of `batch_update` on one tuple; `acc.1` is
`ret`. -/
def batchUpdateStep (acc : BitVec 32 × BaseEventIndex DocId TermId TermWeight ExpireTime)
    (tuple : EventTuple DocId TermId TermWeight ExpireTime) :
    BitVec 32 × BaseEventIndex DocId TermId TermWeight ExpireTime :=
  let s := acc.2.updateExpireInternal tuple.1 tuple.2.1 tuple.2.2.2
  let r := createUpdateInternal tuple.1 tuple.2.1 tuple.2.2.1 s.changeset
  (acc.1 + r.1, { s with changeset := r.2 })

/-- `batch_update(batch)`: the loop body on each tuple in order, with `ret`
summing what `create_update_internal` returns. -/
def batchUpdate (s : BaseEventIndex DocId TermId TermWeight ExpireTime)
    (batch : List (EventTuple DocId TermId TermWeight ExpireTime)) :
    BitVec 32 × BaseEventIndex DocId TermId TermWeight ExpireTime :=
  batch.foldl batchUpdateStep (0, s)

/-- `apply(expire_time)`: pop the expired keys, stage a delete for each after
the pending edits, publish.  Returns `(ret, ret_expire)`: the edits
`apply_internal` applied and the number of keys popped. -/
def apply (s : BaseEventIndex DocId TermId TermWeight ExpireTime) (expire_time : ExpireTime) :
    (BitVec 32 × BitVec 32) × BaseEventIndex DocId TermId TermWeight ExpireTime :=
  let results := s.expire.expireWithLimit expire_time s.maxSize
  let changeset := results.1.foldl
    (fun cs expire_item => removeInternal expire_item.1.docId expire_item.1.termId cs) s.changeset
  let r := applyInternal s.index changeset
  ((r.1, BitVec.ofNat 32 results.1.length),
    { s with expire := results.2, index := r.2.1, changeset := r.2.2 })

/-! ## What each operation does to each field -/

section Fields

variable (s : BaseEventIndex DocId TermId TermWeight ExpireTime) (d : DocId) (t : TermId)
  (w : TermWeight) (e now : ExpireTime)

@[simp] theorem update_index : (s.update d t w e).2.index = s.index := rfl

@[simp] theorem update_maxSize : (s.update d t w e).2.maxSize = s.maxSize := rfl

@[simp] theorem update_changeset :
    (s.update d t w e).2.changeset = s.changeset ++ [.upsert t d w] := rfl

@[simp] theorem update_expire :
    (s.update d t w e).2.expire = s.expire.update ⟨t, d⟩ e := rfl

/-- The deletes `apply` stages, one per popped key, in the order popped. -/
def expireDeletes (results : List (ExpireKey TermId DocId × ExpireTime)) :
    List (Edit TermId DocId TermWeight) :=
  results.map fun q => .delete q.1.termId q.1.docId

omit [LinearOrder DocId] [DecidableEq TermId] [LinearOrder ExpireTime] in
theorem foldl_removeInternal (results : List (ExpireKey TermId DocId × ExpireTime))
    (cs : List (Edit TermId DocId TermWeight)) :
    results.foldl (fun cs q => removeInternal q.1.docId q.1.termId cs) cs =
      cs ++ expireDeletes results := by
  induction results generalizing cs with
  | nil => simp [expireDeletes]
  | cons q rest ih =>
    rw [List.foldl_cons, ih]
    simp [removeInternal, expireDeletes]

@[simp] theorem apply_changeset : (s.apply now).2.changeset = [] := rfl

@[simp] theorem apply_maxSize : (s.apply now).2.maxSize = s.maxSize := rfl

@[simp] theorem apply_expire :
    (s.apply now).2.expire = (s.expire.expireWithLimit now s.maxSize).2 := rfl

@[simp] theorem apply_index :
    (s.apply now).2.index = s.index.replay
      (s.changeset ++ expireDeletes (s.expire.expireWithLimit now s.maxSize).1) := by
  simp [apply, applyInternal, foldl_removeInternal]

end Fields

/-- The loop of `batch_update` leaves the state `update` would leave, tuple by
tuple. -/
theorem batchUpdate_eq_foldl_update (s : BaseEventIndex DocId TermId TermWeight ExpireTime)
    (batch : List (EventTuple DocId TermId TermWeight ExpireTime)) :
    (s.batchUpdate batch).2 =
      batch.foldl (fun s tuple => (s.update tuple.1 tuple.2.1 tuple.2.2.1 tuple.2.2.2).2) s := by
  suffices ∀ (n : BitVec 32) (s : BaseEventIndex DocId TermId TermWeight ExpireTime),
      (batch.foldl batchUpdateStep (n, s)).2 =
        batch.foldl (fun s tuple => (s.update tuple.1 tuple.2.1 tuple.2.2.1 tuple.2.2.2).2) s from
    this 0 s
  induction batch with
  | nil => intro n s; rfl
  | cons tuple rest ih => intro n s; exact ih _ _

@[simp] theorem batchUpdate_index (s : BaseEventIndex DocId TermId TermWeight ExpireTime)
    (batch : List (EventTuple DocId TermId TermWeight ExpireTime)) :
    (s.batchUpdate batch).2.index = s.index := by
  rw [batchUpdate_eq_foldl_update]
  induction batch generalizing s with
  | nil => rfl
  | cons tuple rest ih => exact (ih _).trans rfl

@[simp] theorem batchUpdate_maxSize (s : BaseEventIndex DocId TermId TermWeight ExpireTime)
    (batch : List (EventTuple DocId TermId TermWeight ExpireTime)) :
    (s.batchUpdate batch).2.maxSize = s.maxSize := by
  rw [batchUpdate_eq_foldl_update]
  induction batch generalizing s with
  | nil => rfl
  | cons tuple rest ih => exact (ih _).trans rfl

/-! ## Duplicate deliveries -/

/-- A duplicate delivery changes nothing the next `apply` publishes: after an
update received twice in a row, `apply` leaves the same expire table, the same
(empty) changeset and the same answer to every lookup as after the update
received once. -/
theorem update_duplicate_apply (s : BaseEventIndex DocId TermId TermWeight ExpireTime)
    (d : DocId) (t : TermId) (w : TermWeight) (e now : ExpireTime) :
    let once := ((s.update d t w e).2.apply now).2
    let twice := (((s.update d t w e).2.update d t w e).2.apply now).2
    twice.expire = once.expire ∧ twice.changeset = once.changeset ∧
      ∀ t' d', twice.index.find t' d' = once.index.find t' d' := by
  have hexp : ((s.update d t w e).2.update d t w e).2.expire = (s.update d t w e).2.expire := by
    simp only [update_expire, ExpireTable.update_update]
  refine ⟨by simp only [apply_expire, apply_maxSize, hexp, update_maxSize], rfl,
    fun t' d' => ?_⟩
  simp only [apply_index, hexp, update_maxSize, update_index, update_changeset,
    PostingIndex.replay_append, PostingIndex.replay_singleton]
  refine PostingIndex.find_replay_congr (fun t' d' => ?_) _ _ _
  simp only [PostingIndex.applyEdit, PostingIndex.find_upsert]
  split_ifs <;> rfl

/-! ## Runs -/

/-- One writer call on the index. -/
inductive Op (DocId TermId TermWeight ExpireTime : Type)
  | update (doc_id : DocId) (term_id : TermId) (weights : TermWeight) (expire_time : ExpireTime)
  | batchUpdate (batch : List (EventTuple DocId TermId TermWeight ExpireTime))
  | apply (expire_time : ExpireTime)

/-- The state after one call. -/
def step (s : BaseEventIndex DocId TermId TermWeight ExpireTime) :
    Op DocId TermId TermWeight ExpireTime → BaseEventIndex DocId TermId TermWeight ExpireTime
  | .update d t w e => (s.update d t w e).2
  | .batchUpdate b => (s.batchUpdate b).2
  | .apply e => (s.apply e).2

/-- The state after a sequence of calls. -/
def run (s : BaseEventIndex DocId TermId TermWeight ExpireTime)
    (ops : List (Op DocId TermId TermWeight ExpireTime)) :
    BaseEventIndex DocId TermId TermWeight ExpireTime :=
  ops.foldl step s

@[simp] theorem step_maxSize (s : BaseEventIndex DocId TermId TermWeight ExpireTime)
    (op : Op DocId TermId TermWeight ExpireTime) : (s.step op).maxSize = s.maxSize := by
  cases op <;> simp [step]

@[simp] theorem run_maxSize (s : BaseEventIndex DocId TermId TermWeight ExpireTime)
    (ops : List (Op DocId TermId TermWeight ExpireTime)) : (s.run ops).maxSize = s.maxSize := by
  induction ops generalizing s with
  | nil => rfl
  | cons op rest ih => exact (ih _).trans (step_maxSize s op)

end BaseEventIndex

end RedGiant
