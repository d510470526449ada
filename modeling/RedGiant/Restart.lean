import RedGiant.Main
import RedGiant.Core.Expiry

/-!
# The index across restarts

`server_main` dumps the index on exit (`feed_index_guard`, with `dump_on_exit`)
and the next one restores it (`restore_on_startup`): the dumped posting lists
and deadlines come back, the writes staged since the last `apply` do not.

The spec (§4.4) has the exit dump, `DocumentIndexManager::dump` (not in this
tree), hold the changeset mutex, so a restart is `SysOp.restart m []`.
`BaseEventIndex::dump` takes no lock itself, and the model widens a restart to
a dump that straddles the calls `during`; every result holds on the widened
runs, so on the spec's.

* `restartRun_refines_absStore`: every run refines `AbsStore`, whose `restart`
  keeps the published weights and the dumped deadlines; with no dump
  overlapping an `apply`, every published or pending key has a deadline.
* `restartRun_postings_tracked` and `restartRun_postings_bounded`: on those
  runs no posting escapes expiry, each `apply` within `max_size` publishes the
  pending weights of the keys not due, and leaves at most `max_size` postings.
-/

namespace RedGiant

variable {DocId TermId TermWeight ExpireTime : Type}

/-! ## Restarts of the abstract store -/

namespace AbsStore

/-- A restart: the next process reads the published weights of `a`, with
nothing pending, and the deadlines of `b`, the store when the dump's expiration
section was read. -/
def restart (a b : AbsStore TermId DocId TermWeight ExpireTime) :
    AbsStore TermId DocId TermWeight ExpireTime :=
  ⟨b.deadline, a.visible, a.visible⟩

variable [DecidableEq TermId] [DecidableEq DocId]

/-- Every key with a published or a pending weight has a deadline, so some
`apply` removes it. -/
structure Tracked (a : AbsStore TermId DocId TermWeight ExpireTime) : Prop where
  visible_tracked : ∀ k, (a.visible k).isSome → (a.deadline k).isSome
  pending_tracked : ∀ k, (a.pending k).isSome → (a.deadline k).isSome

variable {a : AbsStore TermId DocId TermWeight ExpireTime}

omit [DecidableEq TermId] [DecidableEq DocId] in
theorem tracked_empty : (empty : AbsStore TermId DocId TermWeight ExpireTime).Tracked :=
  ⟨fun _ h => h, fun _ h => h⟩

/-- An update only adds deadlines. -/
theorem deadline_isSome_update (h : (a.deadline k).isSome) (doc : DocId) (term : TermId)
    (w : TermWeight) (e : ExpireTime) : ((a.update doc term w e).deadline k).isSome := by
  by_cases hk : k = (term, doc) <;> simp [update, hk, h]

theorem deadline_isSome_batchUpdate (batch : List (EventTuple DocId TermId TermWeight ExpireTime))
    (h : (a.deadline k).isSome) : ((a.batchUpdate batch).deadline k).isSome := by
  induction batch generalizing a with
  | nil => exact h
  | cons tuple rest ih => exact ih (deadline_isSome_update h _ _ _ _)

theorem Tracked.update (h : a.Tracked) (doc : DocId) (term : TermId) (w : TermWeight)
    (e : ExpireTime) : (a.update doc term w e).Tracked where
  visible_tracked k hk := deadline_isSome_update (h.visible_tracked k hk) _ _ _ _
  pending_tracked k hk := by
    by_cases hkey : k = (term, doc)
    · simp [AbsStore.update, hkey]
    · simp only [AbsStore.update, Function.update_noteq hkey] at hk ⊢
      exact h.pending_tracked k hk

theorem Tracked.batchUpdate (h : a.Tracked)
    (batch : List (EventTuple DocId TermId TermWeight ExpireTime)) :
    (a.batchUpdate batch).Tracked := by
  induction batch generalizing a with
  | nil => exact h
  | cons tuple rest ih => exact ih (h.update _ _ _ _)

theorem Tracked.apply (h : a.Tracked) (removed : List (TermId × DocId)) :
    (a.apply removed).Tracked :=
  have hpending : ∀ k, ((a.apply removed).pending k).isSome →
      ((a.apply removed).deadline k).isSome := by
    intro k hk
    simp only [AbsStore.apply] at hk ⊢
    split_ifs at hk ⊢
    · simp at hk
    · exact h.pending_tracked k hk
  ⟨hpending, hpending⟩

omit [DecidableEq TermId] [DecidableEq DocId] in
/-- A restart stays tracked when the dumped deadlines cover the old process's. -/
theorem Tracked.restart (h : a.Tracked) {b : AbsStore TermId DocId TermWeight ExpireTime}
    (hb : ∀ k, (a.deadline k).isSome → (b.deadline k).isSome) : (a.restart b).Tracked :=
  ⟨fun k hk => hb k (h.visible_tracked k hk), fun k hk => hb k (h.visible_tracked k hk)⟩

end AbsStore

section Restarts

variable [LinearOrder DocId] [DecidableEq TermId] [LinearOrder ExpireTime]

/-! ## Restarts of the server -/

namespace BaseEventIndex

/-- Whether a call is an `apply`. -/
def Op.isApply : Op DocId TermId TermWeight ExpireTime → Bool
  | .apply _ => true
  | _ => false

/-- What `dump` writes when the calls `during` run between its two sections,
which `BaseEventIndex::dump` does not prevent; the spec's caller holds the
changeset mutex (§4.4), and then `during` is empty and this is `dump`. -/
def dumpAcross (s : BaseEventIndex DocId TermId TermWeight ExpireTime)
    (during : List (Op DocId TermId TermWeight ExpireTime)) :
    List (Item TermId DocId TermWeight ExpireTime) :=
  dumpInternal s.index ++ (s.run during).expire.dump

/-- A restore from a dump taken across `during` has the posting lists of `s`,
published and with nothing pending, and the deadlines after `during`. -/
theorem startIndex_dumpAcross (max_size : Nat)
    (s : BaseEventIndex DocId TermId TermWeight ExpireTime)
    (during : List (Op DocId TermId TermWeight ExpireTime)) :
    let s' := startIndex max_size true (s.dumpAcross during)
    (∀ t d, s'.index.find t d = s.index.find t d) ∧
      (∀ t d, (s'.index.replay s'.changeset).find t d = s.index.find t d) ∧
      (∀ k, s'.expire.lookup k = (s.run during).expire.lookup k) ∧ s'.maxSize = max_size := by
  obtain ⟨s', h, hidx, hexp, hcs, hmax⟩ := load_dump max_size
    (⟨s.index, [], s.maxSize, (s.run during).expire⟩ :
      BaseEventIndex DocId TermId TermWeight ExpireTime)
  have hload : load max_size (s.dumpAcross during) = .ok (s', []) := h.ok
  have hfind : ∀ t d, s'.index.find t d = s.index.find t d := fun t d => by
    simp only [PostingIndex.find, hidx]
  simp only [startIndex, hload, if_true, Option.getD_some, hcs, PostingIndex.replay_nil]
  exact ⟨hfind, hfind, hexp, hmax⟩

end BaseEventIndex

open BaseEventIndex

/-- A writer call, or a restart whose exit dump straddles the calls `during`
(`[]` in the spec's system, the model's widening otherwise) and which the next
`server_main` restores with its own `max_size`. -/
inductive SysOp (DocId TermId TermWeight ExpireTime : Type)
  | call (op : Op DocId TermId TermWeight ExpireTime)
  | restart (max_size : Nat) (during : List (Op DocId TermId TermWeight ExpireTime))

/-- Whether a restart's dump overlaps an `apply`. -/
def SysOp.overlapsApply : SysOp DocId TermId TermWeight ExpireTime → Bool
  | .call _ => false
  | .restart _ during => during.any Op.isApply

namespace BaseEventIndex

/-- The index after one event. -/
def sysStep (s : BaseEventIndex DocId TermId TermWeight ExpireTime) :
    SysOp DocId TermId TermWeight ExpireTime → BaseEventIndex DocId TermId TermWeight ExpireTime
  | .call op => s.step op
  | .restart m during => startIndex m true (s.dumpAcross during)

/-- The index after a sequence of events. -/
def sysRun (s : BaseEventIndex DocId TermId TermWeight ExpireTime)
    (ops : List (SysOp DocId TermId TermWeight ExpireTime)) :
    BaseEventIndex DocId TermId TermWeight ExpireTime :=
  ops.foldl sysStep s

end BaseEventIndex

/-! ## The refinement across restarts -/

namespace Tracks

variable {s : BaseEventIndex DocId TermId TermWeight ExpireTime}
  {a : AbsStore TermId DocId TermWeight ExpireTime}

/-- A restart from a dump taken across `during` refines `AbsStore.restart`, with
the deadlines of the store the old process reached after `during`. -/
theorem restart (h : Tracks s a) {during : List (Op DocId TermId TermWeight ExpireTime)}
    {b : AbsStore TermId DocId TermWeight ExpireTime} (hb : Tracks (s.run during) b)
    (max_size : Nat) : Tracks (startIndex max_size true (s.dumpAcross during)) (a.restart b) := by
  obtain ⟨hidx, hpend, hexp, -⟩ := startIndex_dumpAcross max_size s during
  exact ⟨fun t d => (hexp _).trans (hb.expire_lookup t d),
    fun t d => (hpend t d).trans (h.index_find t d),
    fun t d => (hidx t d).trans (h.index_find t d)⟩

end Tracks

/-- One event on both levels: a restart restores the abstract store from the
store the old process reached after the calls its dump overlapped. -/
def storeStep (p : BaseEventIndex DocId TermId TermWeight ExpireTime ×
      AbsStore TermId DocId TermWeight ExpireTime) :
    SysOp DocId TermId TermWeight ExpireTime →
      BaseEventIndex DocId TermId TermWeight ExpireTime ×
        AbsStore TermId DocId TermWeight ExpireTime
  | .call op => storeCall p op
  | .restart m during => (p.1.sysStep (.restart m during), p.2.restart (storeCalls p during).2)

/-- Events on both levels. -/
def storeRun (p : BaseEventIndex DocId TermId TermWeight ExpireTime ×
      AbsStore TermId DocId TermWeight ExpireTime)
    (ops : List (SysOp DocId TermId TermWeight ExpireTime)) :
    BaseEventIndex DocId TermId TermWeight ExpireTime ×
      AbsStore TermId DocId TermWeight ExpireTime :=
  ops.foldl storeStep p

section Runs

variable (p : BaseEventIndex DocId TermId TermWeight ExpireTime ×
  AbsStore TermId DocId TermWeight ExpireTime)

theorem storeRun_fst (ops : List (SysOp DocId TermId TermWeight ExpireTime)) :
    (storeRun p ops).1 = p.1.sysRun ops := by
  induction ops generalizing p with
  | nil => rfl
  | cons op rest ih =>
    refine (ih _).trans (congrArg (sysRun · rest) ?_)
    cases op with
    | call op => exact storeCall_fst p op
    | restart m during => rfl

theorem Tracks.storeStep (h : Tracks p.1 p.2) (op : SysOp DocId TermId TermWeight ExpireTime) :
    Tracks (storeStep p op).1 (storeStep p op).2 := by
  cases op with
  | call op => exact h.storeCall p op
  | restart m during =>
    have hb := h.storeCalls p during
    rw [storeCalls_fst] at hb
    exact h.restart hb m

/-- Calls that are not `apply` only add deadlines. -/
theorem deadline_isSome_storeCalls (ops : List (Op DocId TermId TermWeight ExpireTime))
    (hops : ops.any Op.isApply = false) (k : TermId × DocId) (h : (p.2.deadline k).isSome) :
    ((storeCalls p ops).2.deadline k).isSome := by
  induction ops generalizing p with
  | nil => exact h
  | cons op rest ih =>
    simp only [List.any_cons, Bool.or_eq_false_iff] at hops
    refine ih _ hops.2 ?_
    cases op with
    | update d t w e => exact AbsStore.deadline_isSome_update h d t w e
    | batchUpdate b => exact AbsStore.deadline_isSome_batchUpdate b h
    | apply now => simp [Op.isApply] at hops

theorem AbsStore.Tracked.storeStep (h : p.2.Tracked) (op : SysOp DocId TermId TermWeight ExpireTime)
    (hop : op.overlapsApply = false) : (storeStep p op).2.Tracked := by
  cases op with
  | call op =>
    cases op with
    | update d t w e => exact h.update d t w e
    | batchUpdate b => exact h.batchUpdate b
    | apply now => exact h.apply _
  | restart m during => exact h.restart (deadline_isSome_storeCalls p during hop)

/-- The run lemma: every run keeps the refinement, and a run in which no dump
overlaps an `apply` keeps the abstract store tracked. -/
theorem tracks_storeRun (ops : List (SysOp DocId TermId TermWeight ExpireTime))
    (h : Tracks p.1 p.2) :
    Tracks (storeRun p ops).1 (storeRun p ops).2 ∧
      ((∀ op ∈ ops, op.overlapsApply = false) → p.2.Tracked →
        (storeRun p ops).2.Tracked) := by
  induction ops generalizing p with
  | nil => exact ⟨h, fun _ ht => ht⟩
  | cons op rest ih =>
    refine ⟨(ih _ (h.storeStep p op)).1, fun hops ht => ?_⟩
    exact (ih _ (h.storeStep p op)).2 (fun o ho => hops o (List.mem_cons_of_mem _ ho))
      (ht.storeStep p op (hops op (List.mem_cons_self _ _)))

end Runs

/-- Every run of writer calls and restarts, from an empty index, refines the
abstract store: the expire table holds its deadlines, the changeset over the
published index its pending weights, and the published index its published
weights.  If no restart's dump overlapped an `apply`, every key with a
published or pending weight has a deadline. -/
theorem restartRun_refines_absStore (max_size : Nat)
    (ops : List (SysOp DocId TermId TermWeight ExpireTime)) :
    let p := storeRun (BaseEventIndex.empty max_size, AbsStore.empty) ops
    p.1 = (BaseEventIndex.empty max_size).sysRun ops ∧ Tracks p.1 p.2 ∧
      ((∀ op ∈ ops, op.overlapsApply = false) → p.2.Tracked) :=
  have h := tracks_storeRun _ ops (Tracks.empty max_size)
  ⟨storeRun_fst _ ops, h.1, fun hops => h.2 hops AbsStore.tracked_empty⟩

/-- Every index a run reaches, with no dump overlapping an `apply`, refines a
tracked store. -/
theorem exists_tracked_sysRun (max_size : Nat)
    (ops : List (SysOp DocId TermId TermWeight ExpireTime))
    (hops : ∀ op ∈ ops, op.overlapsApply = false) :
    ∃ a : AbsStore TermId DocId TermWeight ExpireTime,
      Tracks ((BaseEventIndex.empty max_size).sysRun ops) a ∧ a.Tracked := by
  obtain ⟨h, ha⟩ := tracks_storeRun (BaseEventIndex.empty max_size, AbsStore.empty) ops
    (Tracks.empty max_size)
  rw [storeRun_fst] at h
  exact ⟨_, h, ha hops AbsStore.tracked_empty⟩

section Tracked

variable {s : BaseEventIndex DocId TermId TermWeight ExpireTime}
  {a : AbsStore TermId DocId TermWeight ExpireTime}

theorem Tracks.index_tracked (h : Tracks s a) (ha : a.Tracked) (t : TermId) (d : DocId)
    (hv : (s.index.find t d).isSome) : (s.expire.lookup ⟨t, d⟩).isSome := by
  rw [h.expire_lookup]; exact ha.visible_tracked _ (h.index_find t d ▸ hv)

theorem Tracks.pending_tracked (h : Tracks s a) (ha : a.Tracked) (t : TermId) (d : DocId)
    (hp : ((s.index.replay s.changeset).find t d).isSome) :
    (s.expire.lookup ⟨t, d⟩).isSome := by
  rw [h.expire_lookup]; exact ha.pending_tracked _ (h.pending_find t d ▸ hp)

end Tracked

/-- `apply` on an index that refines a tracked store, within `max_size_`:
every key keeps its pending weight if its deadline is after `now`, and is gone
otherwise. -/
theorem Tracks.apply_find_of_size_le {s : BaseEventIndex DocId TermId TermWeight ExpireTime}
    {a : AbsStore TermId DocId TermWeight ExpireTime} (h : Tracks s a) (ha : a.Tracked)
    (hs : s.expire.size ≤ s.maxSize) (now : ExpireTime) (t : TermId) (d : DocId) :
    (s.apply now).2.index.find t d =
      ((s.index.replay s.changeset).find t d).filter fun _ =>
        (s.expire.lookup ⟨t, d⟩).any fun e => decide (now < e) := by
  rw [(h.apply now).index_find, h.pending_find, h.expire_lookup]
  simp only [AbsStore.apply, mem_expiredKeys,
    ExpireTable.mem_expireWithLimit_keys_of_size_le _ _ _ hs, h.expire_lookup]
  have htr := ha.pending_tracked (t, d)
  cases hdl : a.deadline (t, d) with
  | none =>
    cases hp : a.pending (t, d) with
    | none => rfl
    | some w => simp [hp, hdl] at htr
  | some e =>
    rcases le_or_lt e now with he | he <;> cases a.pending (t, d) <;>
      simp [Option.filter, he, not_lt.2, not_le.2]

/-- On every run of writer calls and restarts in which no dump overlaps an
`apply`, every published and every pending posting has a deadline in the
expire table, and an `apply` within `max_size_` publishes exactly the pending
weights of the keys whose deadline is after `now`. -/
theorem restartRun_postings_tracked (max_size : Nat)
    (ops : List (SysOp DocId TermId TermWeight ExpireTime))
    (hops : ∀ op ∈ ops, op.overlapsApply = false) :
    let s := (BaseEventIndex.empty max_size).sysRun ops
    (∀ t d, ((s.index.find t d).isSome → (s.expire.lookup ⟨t, d⟩).isSome) ∧
      (((s.index.replay s.changeset).find t d).isSome → (s.expire.lookup ⟨t, d⟩).isSome)) ∧
    ∀ now, s.expire.size ≤ s.maxSize → ∀ t d,
      (s.apply now).2.index.find t d =
        ((s.index.replay s.changeset).find t d).filter fun _ =>
          (s.expire.lookup ⟨t, d⟩).any fun e => decide (now < e) := by
  obtain ⟨a, h, ha⟩ := exists_tracked_sysRun max_size ops hops
  exact ⟨fun t d => ⟨h.index_tracked ha t d, h.pending_tracked ha t d⟩,
    fun now hs => h.apply_find_of_size_le ha hs now⟩

/-- A server that restarts once, with a write staged and an `update` running
across its dump. -/
theorem restartRun_postings_tracked_restart :
    let ops : List (SysOp Nat Nat Nat Int) :=
      [.call (.update 1 1 5 10), .call (.apply 0), .call (.update 2 2 7 30),
        .restart 4 [.update 3 3 1 40], .call (.apply 20)]
    (∀ op ∈ ops, op.overlapsApply = false) ∧
      let s := (BaseEventIndex.empty 4).sysRun ops
      (∀ t d, ((s.index.find t d).isSome → (s.expire.lookup ⟨t, d⟩).isSome) ∧
        (((s.index.replay s.changeset).find t d).isSome →
          (s.expire.lookup ⟨t, d⟩).isSome)) ∧
      ∀ now, s.expire.size ≤ s.maxSize → ∀ t d,
        (s.apply now).2.index.find t d =
          ((s.index.replay s.changeset).find t d).filter fun _ =>
            (s.expire.lookup ⟨t, d⟩).any fun e => decide (now < e) :=
  ⟨by decide, restartRun_postings_tracked 4 _ (by decide)⟩

/-- On every run of calls and restarts in which no dump overlaps an `apply`,
the published postings never outnumber the expire entries, and each `apply`
leaves at most the running process's `max_size_` of them. -/
theorem restartRun_postings_bounded (max_size : Nat)
    (ops : List (SysOp DocId TermId TermWeight ExpireTime))
    (hops : ∀ op ∈ ops, op.overlapsApply = false) (now : ExpireTime) :
    let s := (BaseEventIndex.empty max_size).sysRun ops
    s.index.postingCount ≤ s.expire.size ∧
      (s.apply now).2.index.postingCount ≤ s.maxSize := by
  intro s
  obtain ⟨a, h, ha⟩ := exists_tracked_sysRun max_size ops hops
  refine ⟨postingCount_le_size (h.index_tracked ha), ?_⟩
  calc (s.apply now).2.index.postingCount ≤ (s.apply now).2.expire.size :=
        postingCount_le_size ((h.apply now).index_tracked (ha.apply _))
    _ ≤ s.maxSize := ExpireTable.size_expireWithLimit_le _ _ _

/-- Two postings published under `max_size` 4, then a restart with `max_size`
1 whose dump an `update` overlaps: the next `apply` evicts both postings and
keeps the overlapping write's entry, whose weight the restart lost. -/
theorem restartRun_postings_bounded_shrink :
    let ops : List (SysOp Nat Nat Nat Int) :=
      [.call (.update 1 1 5 10), .call (.update 2 2 6 20), .call (.apply 0),
        .restart 1 [.update 3 3 1 40]]
    (∀ op ∈ ops, op.overlapsApply = false) ∧
      let s := (BaseEventIndex.empty 4).sysRun ops
      s.index.postingCount ≤ s.expire.size ∧ (s.apply 0).2.index.postingCount ≤ s.maxSize :=
  ⟨by decide, restartRun_postings_bounded 4 _ (by decide) 0⟩

end Restarts

end RedGiant
