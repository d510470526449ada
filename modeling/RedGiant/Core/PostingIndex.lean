import Mathlib.Data.List.AList
import Mathlib.Data.List.Sort
import Mathlib.Data.List.Nodup

/-!
# The posting store and its changeset

`BaseEventIndex` derives from `BaseIndex` (`core/impl/base_index.h` and
`base_index-inl.h`), which owns the posting index and the changeset helpers
that `update`, `batch_update` and `apply` call: `create_update_internal`,
`remove_internal`, `apply_internal` and `dump_internal`.  Those files are not
in this tree, so everything in this module is modelled from the spec:

* a `PostingList` is the spec's sorted vector of `(DocId, TermWeight)` with no
  repeated `DocId` (§3, §4.1).  The order is a field of the structure, so no
  operation can build an unsorted list;
* a `PostingIndex` maps a `TermId` to its posting list.  It is an `AList`, so
  a term has one list;
* the changeset is the ordered log of `Edit`s (§3, §9), and
  `applyInternal` replays it in order over the published index and clears it.

The two lemmas every later proof cites are `PostingIndex.find_upsert` and
`PostingIndex.find_remove`: what one edit does to the weight stored under a
`(term, doc)` key; `find_replay_congr` lifts them to a whole changeset.
`PostingIndex.keys` is the list of keys that hold a posting, and
`postingCount_eq_length_keys` counts postings by it.
-/

namespace RedGiant

variable {DocId TermId TermWeight : Type}

/-! ## Association lists -/

section Lookup

variable {α β : Type} [DecidableEq α]

/-- `List.lookup` on a cons, as an `if` on the key. -/
theorem lookup_cons_eq_ite (a : α) (e : α × β) (es : List (α × β)) :
    (e :: es).lookup a = if a = e.1 then some e.2 else es.lookup a := by
  obtain ⟨k, b⟩ := e
  by_cases h : a = k
  · simp [List.lookup_cons, h]
  · simp [List.lookup_cons, h, beq_false_of_ne h]

/-- A key that no entry has is not found. -/
theorem lookup_eq_none_of_not_mem {l : List (α × β)} {a : α} (h : a ∉ l.map Prod.fst) :
    l.lookup a = none :=
  List.lookup_eq_none_iff.2 fun _ hp =>
    bne_iff_ne.2 fun he => h (he ▸ List.mem_map_of_mem Prod.fst hp)

/-- Dropping the entries of key `k` hides `k` and nothing else. -/
theorem lookup_filter_fst_ne (k a : α) :
    ∀ l : List (α × β),
      (l.filter (fun e => e.1 ≠ k)).lookup a = if a = k then none else l.lookup a
  | [] => by simp
  | e :: rest => by
    have ih := lookup_filter_fst_ne k a rest
    by_cases he : e.1 = k
    · rw [List.filter_cons_of_neg (by simpa using he), ih, lookup_cons_eq_ite]
      by_cases ha : a = k
      · simp [ha]
      · simp [ha, he]
    · rw [List.filter_cons_of_pos (by simpa using he), lookup_cons_eq_ite, ih, lookup_cons_eq_ite]
      by_cases ha : a = k
      · subst ha; simp [Ne.symm he]
      · simp [ha]

/-- With keys that do not repeat, `lookup` finds exactly the entries of the
list. -/
theorem lookup_eq_some_iff_mem : ∀ {l : List (α × β)}, (l.map Prod.fst).Nodup →
    ∀ {a : α} {b : β}, l.lookup a = some b ↔ (a, b) ∈ l
  | [], _, a, b => by simp
  | e :: rest, h, a, b => by
    rw [List.map_cons, List.nodup_cons] at h
    rw [lookup_cons_eq_ite, List.mem_cons, ← lookup_eq_some_iff_mem h.2]
    by_cases ha : a = e.1
    · subst ha
      obtain ⟨k, v⟩ := e
      simp [lookup_eq_none_of_not_mem h.1, eq_comm]
    · simp [ha, Prod.ext_iff]

/-- Permuting a list whose keys do not repeat changes no `lookup`. -/
theorem lookup_eq_of_perm {l₁ l₂ : List (α × β)} (h : (l₁.map Prod.fst).Nodup)
    (hp : l₁.Perm l₂) (a : α) : l₁.lookup a = l₂.lookup a := by
  have h₂ : (l₂.map Prod.fst).Nodup := (hp.map _).nodup_iff.1 h
  apply Option.ext
  intro b
  rw [Option.mem_def, Option.mem_def, lookup_eq_some_iff_mem h, lookup_eq_some_iff_mem h₂,
    hp.mem_iff]

/-- Split a list whose keys do not repeat: the second part holds a key exactly
when the first does not. -/
theorem lookup_append_right {l₁ l₂ : List (α × β)} (h : ((l₁ ++ l₂).map Prod.fst).Nodup)
    (a : α) :
    l₂.lookup a = if a ∈ l₁.map Prod.fst then none else (l₁ ++ l₂).lookup a := by
  rw [List.map_append, List.nodup_append] at h
  rw [List.lookup_append]
  split_ifs with ha
  · exact lookup_eq_none_of_not_mem (h.2.2 ha)
  · rw [lookup_eq_none_of_not_mem ha, Option.none_or]

end Lookup

/-! ## Posting lists -/

section PostingList

variable [LinearOrder DocId]

/-- Modelled from the spec: the posting list of one term (`BaseIndex`'s list
type is not in this tree).  Entries are sorted ascending by `DocId`, with no
`DocId` twice (§3, *PostingList*). -/
@[ext]
structure PostingList (DocId TermWeight : Type) [LinearOrder DocId] where
  entries : List (DocId × TermWeight)
  sorted : entries.Sorted (fun a b => a.1 < b.1)

namespace PostingList

/-- The empty list, which a term gets on its first upsert. -/
def empty : PostingList DocId TermWeight := ⟨[], List.sorted_nil⟩

/-- Insert `(doc, w)` at its place in a sorted entry list, replacing the
weight of an entry with the same `DocId` (§4.1: weights combine by
overwrite). -/
def upsertEntries (doc : DocId) (w : TermWeight) :
    List (DocId × TermWeight) → List (DocId × TermWeight)
  | [] => [(doc, w)]
  | e :: rest =>
    if doc < e.1 then (doc, w) :: e :: rest
    else if doc = e.1 then (doc, w) :: rest
    else e :: upsertEntries doc w rest

theorem mem_upsertEntries {doc : DocId} {w : TermWeight} :
    ∀ {l : List (DocId × TermWeight)} {e},
      e ∈ upsertEntries doc w l → e = (doc, w) ∨ e ∈ l
  | [], e, h => by simpa [upsertEntries] using h
  | x :: rest, e, h => by
    unfold upsertEntries at h
    split_ifs at h with h1 h2
    · simpa using h
    · simp only [List.mem_cons] at h ⊢; tauto
    · simp only [List.mem_cons] at h ⊢
      rcases h with rfl | h
      · exact .inr (.inl rfl)
      · rcases mem_upsertEntries h with h | h <;> simp [h]

theorem sorted_upsertEntries (doc : DocId) (w : TermWeight) :
    ∀ l : List (DocId × TermWeight), l.Sorted (fun a b => a.1 < b.1) →
      (upsertEntries doc w l).Sorted (fun a b => a.1 < b.1)
  | [], _ => List.sorted_singleton _
  | e :: rest, h => by
    rw [List.sorted_cons] at h
    unfold upsertEntries
    split_ifs with h1 h2
    · exact List.sorted_cons.2 ⟨fun b hb => by
        rcases List.mem_cons.1 hb with rfl | hb
        exacts [h1, h1.trans (h.1 b hb)], List.sorted_cons.2 h⟩
    · exact List.sorted_cons.2 ⟨fun b hb => h2 ▸ h.1 b hb, h.2⟩
    · refine List.sorted_cons.2 ⟨fun b hb => ?_, sorted_upsertEntries doc w rest h.2⟩
      rcases mem_upsertEntries hb with rfl | hb
      exacts [lt_of_le_of_ne (not_lt.1 h1) (Ne.symm h2), h.1 b hb]

/-- `upsert(term, doc, weight)` on one list: insert or replace. -/
def upsert (pl : PostingList DocId TermWeight) (doc : DocId) (w : TermWeight) :
    PostingList DocId TermWeight :=
  ⟨upsertEntries doc w pl.entries, sorted_upsertEntries doc w _ pl.sorted⟩

/-- `remove(term, doc)` on one list; a no-op when `doc` is absent. -/
def remove (pl : PostingList DocId TermWeight) (doc : DocId) :
    PostingList DocId TermWeight :=
  ⟨pl.entries.filter (fun e => e.1 ≠ doc), pl.sorted.filter _⟩

/-- The weight stored for `doc`. -/
def find (pl : PostingList DocId TermWeight) (doc : DocId) : Option TermWeight :=
  pl.entries.lookup doc

@[simp] theorem find_empty (doc : DocId) :
    (empty : PostingList DocId TermWeight).find doc = none := rfl

theorem lookup_upsertEntries (doc d : DocId) (w : TermWeight) :
    ∀ l : List (DocId × TermWeight),
      (upsertEntries doc w l).lookup d = if d = doc then some w else l.lookup d
  | [] => by simp [upsertEntries, lookup_cons_eq_ite]
  | e :: rest => by
    by_cases h1 : doc < e.1
    · rw [upsertEntries, if_pos h1, lookup_cons_eq_ite]
    by_cases h2 : doc = e.1
    · rw [upsertEntries, if_neg h1, if_pos h2]
      subst h2
      simp only [lookup_cons_eq_ite]
      split_ifs <;> rfl
    · have hlt : e.1 < doc := lt_of_le_of_ne (not_lt.1 h1) (Ne.symm h2)
      rw [upsertEntries, if_neg h1, if_neg h2, lookup_cons_eq_ite, lookup_cons_eq_ite,
        lookup_upsertEntries doc d w rest]
      by_cases hd : d = doc
      · subst hd; simp [hlt.ne']
      · simp [hd]

@[simp] theorem find_upsert (pl : PostingList DocId TermWeight) (doc d : DocId)
    (w : TermWeight) : (pl.upsert doc w).find d = if d = doc then some w else pl.find d :=
  lookup_upsertEntries doc d w pl.entries

@[simp] theorem find_remove (pl : PostingList DocId TermWeight) (doc d : DocId) :
    (pl.remove doc).find d = if d = doc then none else pl.find d :=
  lookup_filter_fst_ne doc d pl.entries

/-- An entry past every `DocId` of the list goes at its end. -/
theorem upsertEntries_of_lt {doc : DocId} {w : TermWeight} :
    ∀ {l : List (DocId × TermWeight)}, (∀ e ∈ l, e.1 < doc) →
      upsertEntries doc w l = l ++ [(doc, w)]
  | [], _ => rfl
  | e :: rest, h => by
    have he := h e (List.mem_cons_self _ _)
    rw [upsertEntries, if_neg (not_lt.2 he.le), if_neg (ne_of_gt he),
      upsertEntries_of_lt fun x hx => h x (List.mem_cons_of_mem _ hx)]
    rfl

/-- Upserting the entries of a sorted list, in order, rebuilds the list. -/
theorem foldl_upsert_entries :
    ∀ (l : List (DocId × TermWeight)) (pl : PostingList DocId TermWeight),
    (pl.entries ++ l).Sorted (fun a b => a.1 < b.1) →
      (l.foldl (fun pl e => pl.upsert e.1 e.2) pl).entries = pl.entries ++ l
  | [], pl, _ => by simp
  | e :: l, pl, h => by
    have hlt : ∀ x ∈ pl.entries, x.1 < e.1 :=
      fun x hx => (List.pairwise_append.1 h).2.2 x hx e (List.mem_cons_self _ _)
    have hup : (pl.upsert e.1 e.2).entries = pl.entries ++ [e] := upsertEntries_of_lt hlt
    rw [List.foldl_cons, foldl_upsert_entries l _ (by rwa [hup, List.append_assoc]), hup,
      List.append_assoc, List.singleton_append]

/-- The `DocId`s of a list do not repeat. -/
theorem nodup_docs (pl : PostingList DocId TermWeight) : (pl.entries.map Prod.fst).Nodup :=
  (List.pairwise_map.2 pl.sorted).imp ne_of_lt

theorem find_isSome_iff (pl : PostingList DocId TermWeight) (d : DocId) :
    (pl.find d).isSome ↔ d ∈ pl.entries.map Prod.fst := by
  simp [find, List.lookup_isSome_iff]

end PostingList

end PostingList

/-! ## The posting index -/

section PostingIndex

variable [LinearOrder DocId] [DecidableEq TermId]

/-- Modelled from the spec: the posting index of `BaseIndex`, one posting list
per term (§3, *PostingIndex*).  A list stays when its last posting goes: the
spec leaves empty lists to a compaction pass. -/
structure PostingIndex (TermId DocId TermWeight : Type) [LinearOrder DocId] where
  lists : AList (fun _ : TermId => PostingList DocId TermWeight)

namespace PostingIndex

/-- The index a new `BaseIndex` starts with. -/
def empty : PostingIndex TermId DocId TermWeight := ⟨∅⟩

/-- The weight stored under `(term, doc)`, if `doc` is on `term`'s list. -/
def find (idx : PostingIndex TermId DocId TermWeight) (term : TermId) (doc : DocId) :
    Option TermWeight :=
  (idx.lists.lookup term).bind (·.find doc)

/-- `upsert(term, doc, weight)`: a term's list is created on its first upsert. -/
def upsert (idx : PostingIndex TermId DocId TermWeight) (term : TermId) (doc : DocId)
    (w : TermWeight) : PostingIndex TermId DocId TermWeight :=
  ⟨idx.lists.insert term (((idx.lists.lookup term).getD .empty).upsert doc w)⟩

/-- `remove(term, doc)`: a no-op when the term has no list. -/
def remove (idx : PostingIndex TermId DocId TermWeight) (term : TermId) (doc : DocId) :
    PostingIndex TermId DocId TermWeight :=
  match idx.lists.lookup term with
  | none => idx
  | some pl => ⟨idx.lists.insert term (pl.remove doc)⟩

@[simp] theorem find_empty (term : TermId) (doc : DocId) :
    (empty : PostingIndex TermId DocId TermWeight).find term doc = none := rfl

@[simp] theorem find_upsert (idx : PostingIndex TermId DocId TermWeight) (t t' : TermId)
    (d d' : DocId) (w : TermWeight) :
    (idx.upsert t d w).find t' d' = if t' = t ∧ d' = d then some w else idx.find t' d' := by
  by_cases ht : t' = t
  · subst ht
    cases h : idx.lists.lookup t' <;> simp [find, upsert, h, AList.lookup_insert]
  · simp [find, upsert, ht, AList.lookup_insert_ne ht]

@[simp] theorem find_remove (idx : PostingIndex TermId DocId TermWeight) (t t' : TermId)
    (d d' : DocId) :
    (idx.remove t d).find t' d' = if t' = t ∧ d' = d then none else idx.find t' d' := by
  unfold remove
  cases h : idx.lists.lookup t with
  | none =>
    by_cases hk : t' = t ∧ d' = d
    · obtain ⟨rfl, rfl⟩ := hk; simp [find, h]
    · simp [hk]
  | some pl =>
    by_cases ht : t' = t
    · subst ht; simp [find, h, AList.lookup_insert]
    · simp [find, ht, AList.lookup_insert_ne ht]

/-- The `(term, doc)` keys that hold a posting, term by term. -/
def keys (idx : PostingIndex TermId DocId TermWeight) : List (TermId × DocId) :=
  idx.lists.entries.flatMap (fun s => s.2.entries.map (fun e => (s.1, e.1)))

/-- The number of postings: the lengths of all posting lists, empty ones
included. -/
def postingCount (idx : PostingIndex TermId DocId TermWeight) : Nat :=
  idx.lists.entries.foldr (fun s n => s.2.entries.length + n) 0

omit [DecidableEq TermId] in
theorem postingCount_eq_length_keys (idx : PostingIndex TermId DocId TermWeight) :
    idx.postingCount = idx.keys.length := by
  simp only [postingCount, keys]
  induction idx.lists.entries with
  | nil => rfl
  | cons s rest ih => simp [ih]

theorem mem_keys (idx : PostingIndex TermId DocId TermWeight) (t : TermId) (d : DocId) :
    (t, d) ∈ idx.keys ↔ (idx.find t d).isSome := by
  simp only [keys, List.mem_flatMap, List.mem_map, Prod.mk.injEq, find]
  constructor
  · rintro ⟨⟨t', pl⟩, hs, e, he, rfl, rfl⟩
    rw [AList.mem_lookup_iff.2 hs]
    exact (pl.find_isSome_iff _).2 (List.mem_map_of_mem _ he)
  · intro h
    cases hl : idx.lists.lookup t with
    | none => simp [hl] at h
    | some pl =>
      rw [hl, Option.some_bind, PostingList.find_isSome_iff, List.mem_map] at h
      obtain ⟨e, he, rfl⟩ := h
      exact ⟨⟨t, pl⟩, AList.mem_lookup_iff.1 hl, e, he, rfl, rfl⟩

omit [DecidableEq TermId] in
theorem nodup_keys (idx : PostingIndex TermId DocId TermWeight) : idx.keys.Nodup := by
  refine List.nodup_flatMap.2 ⟨fun s _ => ?_, ?_⟩
  · simpa [List.map_map, Function.comp_def] using s.2.nodup_docs.map (Prod.mk.inj_left s.1)
  · refine (List.pairwise_map.1 idx.lists.nodupKeys).imp fun hne => ?_
    simp only [List.disjoint_left, List.mem_map]
    rintro _ ⟨_, _, rfl⟩ ⟨_, _, h⟩
    exact hne (congrArg Prod.fst h).symm

end PostingIndex

/-! ## The changeset -/

/-- Modelled from the spec: one staged edit of the changeset, `UPSERT(term,
doc, weight)` or `DELETE(term, doc)` (§3, *Changeset*). -/
inductive Edit (TermId DocId TermWeight : Type)
  | upsert (term : TermId) (doc : DocId) (weight : TermWeight)
  | delete (term : TermId) (doc : DocId)

namespace PostingIndex

/-- Publish one edit. -/
def applyEdit (idx : PostingIndex TermId DocId TermWeight) :
    Edit TermId DocId TermWeight → PostingIndex TermId DocId TermWeight
  | .upsert t d w => idx.upsert t d w
  | .delete t d => idx.remove t d

/-- Replay a changeset, in order, over an index. -/
def replay (idx : PostingIndex TermId DocId TermWeight)
    (changeset : List (Edit TermId DocId TermWeight)) : PostingIndex TermId DocId TermWeight :=
  changeset.foldl applyEdit idx

@[simp] theorem replay_nil (idx : PostingIndex TermId DocId TermWeight) :
    idx.replay [] = idx := rfl

@[simp] theorem replay_append (idx : PostingIndex TermId DocId TermWeight)
    (cs cs' : List (Edit TermId DocId TermWeight)) :
    idx.replay (cs ++ cs') = (idx.replay cs).replay cs' :=
  List.foldl_append _ _ _ _

@[simp] theorem replay_cons (idx : PostingIndex TermId DocId TermWeight)
    (e : Edit TermId DocId TermWeight) (cs : List (Edit TermId DocId TermWeight)) :
    idx.replay (e :: cs) = (idx.applyEdit e).replay cs := rfl

@[simp] theorem replay_singleton (idx : PostingIndex TermId DocId TermWeight)
    (e : Edit TermId DocId TermWeight) : idx.replay [e] = idx.applyEdit e := rfl

/-- Replaying one changeset over two indexes that answer every lookup alike
gives two that still do. -/
theorem find_replay_congr {idx idx' : PostingIndex TermId DocId TermWeight}
    (h : ∀ t d, idx.find t d = idx'.find t d) (cs : List (Edit TermId DocId TermWeight))
    (t : TermId) (d : DocId) : (idx.replay cs).find t d = (idx'.replay cs).find t d := by
  induction cs generalizing idx idx' with
  | nil => exact h t d
  | cons e cs ih =>
    refine ih fun t d => ?_
    cases e <;> simp [applyEdit, h]

end PostingIndex

/-- Modelled from the spec: `create_update_internal(doc_id, term_id, weights,
changeset)` stages an upsert and counts it as one logical edit (§4.3), an
`int` as its callers read it. -/
def createUpdateInternal (doc_id : DocId) (term_id : TermId) (weights : TermWeight)
    (changeset : List (Edit TermId DocId TermWeight)) :
    BitVec 32 × List (Edit TermId DocId TermWeight) :=
  (1, changeset ++ [.upsert term_id doc_id weights])

/-- Modelled from the spec: `remove_internal(doc_id, term_id, changeset)`
stages a delete (§4.3, step 1 of `apply`). -/
def removeInternal (doc_id : DocId) (term_id : TermId)
    (changeset : List (Edit TermId DocId TermWeight)) : List (Edit TermId DocId TermWeight) :=
  changeset ++ [.delete term_id doc_id]

/-- Modelled from the spec: `apply_internal(changeset)` publishes the
changeset into the index and clears it (§4.3, steps 2 and 3 of `apply`).  It
counts the edits it applied, an `int` as `apply` adds it to `ret`. -/
def applyInternal (idx : PostingIndex TermId DocId TermWeight)
    (changeset : List (Edit TermId DocId TermWeight)) :
    BitVec 32 × PostingIndex TermId DocId TermWeight × List (Edit TermId DocId TermWeight) :=
  (BitVec.ofNat 32 changeset.length, idx.replay changeset, [])

end PostingIndex

end RedGiant
