import RedGiant.Core.PostingIndex

/-!
# The expire table

`BaseEventIndex` keeps one deadline per `(term, doc)` key in `expire_`, whose
class is not in this tree.  It is modelled from the spec (§4.2) as a list in
deadline order with one entry per key, both facts fields of `ExpireTable`.
`update` replaces a key's deadline (`lookup_update`, `update_update`).
`expireWithLimit now maxSize` pops the earliest entry while it is due or while
more than `maxSize` entries are left: the deadline cutoff with the spec's
capacity policy.  The popped entries and the rest split the table
(`popWithLimit_append`), and on a table within `maxSize` exactly the due keys
are popped (`mem_expireWithLimit_keys_of_size_le`).
-/

namespace RedGiant

variable {TermId DocId ExpireTime : Type}

/-- Modelled from the spec: the key `update_expire_internal` builds as
`{term_id, doc_id}` and `apply` reads back as `.term_id` and `.doc_id`.  Its
declaration is not in this tree; the fields follow the initializer's order,
which is the spec's `(TermId, DocId)`. -/
structure ExpireKey (TermId DocId : Type) where
  termId : TermId
  docId : DocId
  deriving DecidableEq

section ExpireTable

variable [LinearOrder ExpireTime]

/-- Entry `a` is due no later than entry `b`: the order of the expire queue. -/
def DueBefore (a b : ExpireKey TermId DocId × ExpireTime) : Prop := a.2 ≤ b.2

instance (a b : ExpireKey TermId DocId × ExpireTime) : Decidable (DueBefore a b) :=
  inferInstanceAs (Decidable (a.2 ≤ b.2))

instance : IsTotal (ExpireKey TermId DocId × ExpireTime) DueBefore :=
  ⟨fun a b => le_total a.2 b.2⟩

instance : IsTrans (ExpireKey TermId DocId × ExpireTime) DueBefore :=
  ⟨fun _ _ _ => le_trans⟩

/-- Modelled from the spec: the expire table (§4.2, §3 *ExpireEntry*).  The
entries are in deadline order and hold one deadline per key. -/
structure ExpireTable (TermId DocId ExpireTime : Type) [LinearOrder ExpireTime] where
  entries : List (ExpireKey TermId DocId × ExpireTime)
  sorted : entries.Sorted DueBefore
  nodup : (entries.map Prod.fst).Nodup

namespace ExpireTable

/-- The table a new index starts with. -/
def empty : ExpireTable TermId DocId ExpireTime := ⟨[], List.sorted_nil, List.nodup_nil⟩

/-- `size()`: the number of tracked keys. -/
def size (t : ExpireTable TermId DocId ExpireTime) : Nat := t.entries.length

/-! ### `expire_with_limit` -/

/-- The pop loop of `expire_with_limit` over the entries in deadline order:
pop the earliest entry while it is due or while more than `max_size` entries
are left.  Returns the popped entries, in order, and the entries left. -/
def popWithLimit (expire_time : ExpireTime) (max_size : Nat) :
    List (ExpireKey TermId DocId × ExpireTime) →
      List (ExpireKey TermId DocId × ExpireTime) × List (ExpireKey TermId DocId × ExpireTime)
  | [] => ([], [])
  | p :: rest =>
    if p.2 ≤ expire_time ∨ max_size < rest.length + 1 then
      let r := popWithLimit expire_time max_size rest
      (p :: r.1, r.2)
    else ([], p :: rest)

section popWithLimit

variable (expire_time : ExpireTime) (max_size : Nat)

/-- The popped entries and the rest split the table. -/
theorem popWithLimit_append : ∀ l : List (ExpireKey TermId DocId × ExpireTime),
    (popWithLimit expire_time max_size l).1 ++ (popWithLimit expire_time max_size l).2 = l
  | [] => rfl
  | p :: rest => by
    unfold popWithLimit
    split_ifs
    · simp [popWithLimit_append rest]
    · rfl

/-- At most `max_size` entries are left. -/
theorem length_popWithLimit_snd_le : ∀ l : List (ExpireKey TermId DocId × ExpireTime),
    (popWithLimit expire_time max_size l).2.length ≤ max_size
  | [] => Nat.zero_le _
  | p :: rest => by
    unfold popWithLimit
    split_ifs with h
    · exact length_popWithLimit_snd_le rest
    · simp only [not_or, not_lt] at h
      simpa using h.2

/-- On a sorted table no entry left is due. -/
theorem lt_of_mem_popWithLimit_snd : ∀ {l : List (ExpireKey TermId DocId × ExpireTime)},
    l.Sorted DueBefore → ∀ q ∈ (popWithLimit expire_time max_size l).2, expire_time < q.2
  | [], _, q, hq => by simp [popWithLimit] at hq
  | p :: rest, hs, q, hq => by
    rw [List.sorted_cons] at hs
    unfold popWithLimit at hq
    split_ifs at hq with h
    · exact lt_of_mem_popWithLimit_snd hs.2 q hq
    · have hp : expire_time < p.2 := lt_of_not_le fun h' => h (.inl h')
      rcases List.mem_cons.1 hq with rfl | hq
      exacts [hp, lt_of_lt_of_le hp (hs.1 q hq)]

/-- On a table of at most `max_size` entries only due entries are popped. -/
theorem le_of_mem_popWithLimit_fst : ∀ {l : List (ExpireKey TermId DocId × ExpireTime)},
    l.length ≤ max_size → ∀ q ∈ (popWithLimit expire_time max_size l).1, q.2 ≤ expire_time
  | [], _, q, hq => by simp [popWithLimit] at hq
  | p :: rest, hl, q, hq => by
    rw [List.length_cons] at hl
    unfold popWithLimit at hq
    split_ifs at hq with h
    · have hp : p.2 ≤ expire_time := h.resolve_right (by omega)
      rcases List.mem_cons.1 hq with rfl | hq
      exacts [hp, le_of_mem_popWithLimit_fst (by omega) q hq]
    · simp at hq

end popWithLimit

theorem sublist_popWithLimit_snd (expire_time : ExpireTime) (max_size : Nat)
    (l : List (ExpireKey TermId DocId × ExpireTime)) :
    (popWithLimit expire_time max_size l).2.Sublist l := by
  conv_rhs => rw [← popWithLimit_append expire_time max_size l]
  exact List.sublist_append_right _ _

/-- `expire_with_limit(expire_time, max_size)`: pop the due entries, and more
of the earliest ones while the table holds more than `max_size`.  Returns the
popped `(key, deadline)` pairs in deadline order, and the table after.  The
spec's cap of one call at `max_batch` pops is not modelled: `apply` passes
`max_size_` as the only limit, and the spec's capacity policy reads it as the
size to shrink the table to. -/
def expireWithLimit (t : ExpireTable TermId DocId ExpireTime) (expire_time : ExpireTime)
    (max_size : Nat) :
    List (ExpireKey TermId DocId × ExpireTime) × ExpireTable TermId DocId ExpireTime :=
  let r := popWithLimit expire_time max_size t.entries
  (r.1, ⟨r.2, t.sorted.sublist (sublist_popWithLimit_snd _ _ _),
    t.nodup.sublist ((sublist_popWithLimit_snd _ _ _).map _)⟩)

/-- The table after `expire_with_limit` holds at most `max_size` entries. -/
theorem size_expireWithLimit_le (t : ExpireTable TermId DocId ExpireTime)
    (expire_time : ExpireTime) (max_size : Nat) :
    (t.expireWithLimit expire_time max_size).2.size ≤ max_size :=
  length_popWithLimit_snd_le _ _ _

/-- Every popped entry is due no later than every entry left: eviction goes in
deadline order. -/
theorem le_of_mem_expireWithLimit (t : ExpireTable TermId DocId ExpireTime)
    (expire_time : ExpireTime) (max_size : Nat) {p q : ExpireKey TermId DocId × ExpireTime}
    (hp : p ∈ (t.expireWithLimit expire_time max_size).1)
    (hq : q ∈ (t.expireWithLimit expire_time max_size).2.entries) : p.2 ≤ q.2 := by
  have hs := t.sorted
  rw [← popWithLimit_append expire_time max_size t.entries, List.Sorted,
    List.pairwise_append] at hs
  exact hs.2.2 p hp q hq

variable [DecidableEq TermId] [DecidableEq DocId]

/-- The deadline of a key, if it is tracked. -/
def lookup (t : ExpireTable TermId DocId ExpireTime) (k : ExpireKey TermId DocId) :
    Option ExpireTime :=
  t.entries.lookup k

theorem nodup_update (entries : List (ExpireKey TermId DocId × ExpireTime))
    (h : (entries.map Prod.fst).Nodup) (k : ExpireKey TermId DocId) (e : ExpireTime) :
    (((entries.filter (fun p => p.1 ≠ k)).orderedInsert DueBefore (k, e)).map
      Prod.fst).Nodup := by
  rw [((List.perm_orderedInsert _ _ _).map Prod.fst).nodup_iff, List.map_cons, List.nodup_cons]
  refine ⟨?_, (h.sublist (List.filter_sublist _ |>.map _))⟩
  simp [List.mem_filter]

/-- `update(key, expire_time)`: drop the key's old entry, then insert the new
one at its place in deadline order. -/
def update (t : ExpireTable TermId DocId ExpireTime) (k : ExpireKey TermId DocId)
    (e : ExpireTime) : ExpireTable TermId DocId ExpireTime :=
  ⟨(t.entries.filter (fun p => p.1 ≠ k)).orderedInsert DueBefore (k, e),
    (t.sorted.filter _).orderedInsert _ _, nodup_update _ t.nodup k e⟩

theorem lookup_isSome_iff (t : ExpireTable TermId DocId ExpireTime)
    (k : ExpireKey TermId DocId) : (t.lookup k).isSome ↔ k ∈ t.entries.map Prod.fst := by
  simp [lookup, List.lookup_isSome_iff]

@[simp] theorem lookup_empty (k : ExpireKey TermId DocId) :
    (empty : ExpireTable TermId DocId ExpireTime).lookup k = none := rfl

/-- The spec lemma of `update`: the key gets the new deadline, every other key
keeps its own. -/
@[simp] theorem lookup_update (t : ExpireTable TermId DocId ExpireTime)
    (k k' : ExpireKey TermId DocId) (e : ExpireTime) :
    (t.update k e).lookup k' = if k' = k then some e else t.lookup k' := by
  simp only [lookup, update]
  rw [lookup_eq_of_perm (nodup_update _ t.nodup k e)
    (List.perm_orderedInsert _ _ _) k', lookup_cons_eq_ite, lookup_filter_fst_ne]
  by_cases h : k' = k <;> simp [h, lookup]

/-- A second `update` of a key replaces the first: the table is as if only
the second had happened. -/
theorem update_update (t : ExpireTable TermId DocId ExpireTime) (k : ExpireKey TermId DocId)
    (e e' : ExpireTime) : (t.update k e).update k e' = t.update k e' := by
  have hfilter : ∀ l : List (ExpireKey TermId DocId × ExpireTime),
      (l.orderedInsert DueBefore (k, e)).filter (fun p => p.1 ≠ k) =
        l.filter (fun p => p.1 ≠ k) := by
    intro l
    rw [List.orderedInsert_eq_take_drop, List.filter_append, List.filter_cons_of_neg (by simp),
      ← List.filter_append, List.takeWhile_append_dropWhile]
  simp only [update, mk.injEq, hfilter, List.filter_filter, Bool.and_self]

/-- The spec lemma of `expire_with_limit`, first half: the popped keys leave
the table, every other key keeps its deadline. -/
theorem lookup_expireWithLimit (t : ExpireTable TermId DocId ExpireTime)
    (expire_time : ExpireTime) (max_size : Nat) (k : ExpireKey TermId DocId) :
    (t.expireWithLimit expire_time max_size).2.lookup k =
      if k ∈ (t.expireWithLimit expire_time max_size).1.map Prod.fst then none
      else t.lookup k := by
  have hnd := t.nodup
  rw [← popWithLimit_append expire_time max_size t.entries] at hnd
  simp only [expireWithLimit, lookup]
  rw [lookup_append_right hnd, popWithLimit_append]

/-- The spec lemma of `expire_with_limit`, second half: on a table of at most
`max_size` entries the popped keys are exactly the due ones. -/
theorem mem_expireWithLimit_keys_of_size_le (t : ExpireTable TermId DocId ExpireTime)
    (expire_time : ExpireTime) (max_size : Nat) (h : t.size ≤ max_size)
    (k : ExpireKey TermId DocId) :
    k ∈ (t.expireWithLimit expire_time max_size).1.map Prod.fst ↔
      ∃ e, t.lookup k = some e ∧ e ≤ expire_time := by
  have hsplit := popWithLimit_append expire_time max_size t.entries
  simp only [expireWithLimit, List.mem_map, lookup]
  constructor
  · rintro ⟨p, hp, rfl⟩
    refine ⟨p.2, (lookup_eq_some_iff_mem t.nodup).2 ?_, le_of_mem_popWithLimit_fst _ _ h p hp⟩
    exact hsplit ▸ List.mem_append_left _ hp
  · rintro ⟨e, he, hle⟩
    have hmem := (lookup_eq_some_iff_mem t.nodup).1 he
    rw [← hsplit, List.mem_append] at hmem
    rcases hmem with hmem | hmem
    · exact ⟨_, hmem, rfl⟩
    · exact absurd hle (not_le.2 (lt_of_mem_popWithLimit_snd _ _ t.sorted _ hmem))

end ExpireTable

end ExpireTable

end RedGiant
