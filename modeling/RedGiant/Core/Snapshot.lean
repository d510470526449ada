import RedGiant.Core.Refinement

/-!
# Dump and restore

`BaseEventIndex::dump(dumper)` writes the posting index (`dump_internal`) and
then the expire table (`expire_.dump`).  The constructor
`BaseEventIndex(initial_buckets, max_size, loader)` reads them back in the same
order: `Base(initial_buckets, loader)` first, then `expire_(loader)`.

`Dumper` and `Loader` are template parameters, and the sections they carry
belong to `BaseIndex` and to the expire table, neither of which is in this
tree.  The stream is modelled from the spec (§4.8) as the sequence of values
written, each tagged with its kind:

* the postings section is a term count, then for each term its `TermId`, its
  entry count and its `(DocId, TermWeight)` entries;
* the expiration section is an entry count, then `(TermId, DocId,
  ExpireTime)` for each entry.

The loader fails, as the C++ loader throws, when the stream ends early or holds
a value of the wrong kind.  A restored list is rebuilt by upserting its entries
and a restored table by `update`, so no load can build an unsorted list or a
key twice.

`ReadsExactly f c a` says that the loader `f` reads exactly the stream `c`,
giving `a`: followed by anything, `c` is read and what follows is left, and
every strict prefix of `c` runs out.  It is built up from one read
(`ReadsExactly.readWith`) by sequencing (`ReadsExactly.bind`), the way the
loaders are, and gives:

* `load_dump`: loading what `dump` wrote reads exactly that stream and gives
  back every posting list and every deadline, with an empty changeset;
* `load_truncated_dump`: a dump cut short anywhere is rejected;
* `load_dump_refineRun`: at any point of a run, a dump restores what readers
  see, as of the last `apply`, with the deadlines of every key, so the edits
  staged since the last `apply` are not in it.
-/

namespace RedGiant

variable {DocId TermId TermWeight ExpireTime : Type}

/-- Modelled from the spec: one value of a snapshot stream (§4.8). -/
inductive Item (TermId DocId TermWeight ExpireTime : Type)
  | count (n : Nat)
  | termId (t : TermId)
  | docId (d : DocId)
  | weight (w : TermWeight)
  | expireTime (e : ExpireTime)

namespace Item

/-- The count an item carries, if it is a count. -/
@[simp] def count? : Item TermId DocId TermWeight ExpireTime → Option Nat
  | .count n => some n
  | _ => none

/-- The `TermId` an item carries, if it is one. -/
@[simp] def termId? : Item TermId DocId TermWeight ExpireTime → Option TermId
  | .termId t => some t
  | _ => none

/-- The `DocId` an item carries, if it is one. -/
@[simp] def docId? : Item TermId DocId TermWeight ExpireTime → Option DocId
  | .docId d => some d
  | _ => none

/-- The weight an item carries, if it is one. -/
@[simp] def weight? : Item TermId DocId TermWeight ExpireTime → Option TermWeight
  | .weight w => some w
  | _ => none

/-- The deadline an item carries, if it is one. -/
@[simp] def expireTime? : Item TermId DocId TermWeight ExpireTime → Option ExpireTime
  | .expireTime e => some e
  | _ => none

end Item

/-- Modelled from the spec: the loader reads one value of the kind `get`
accepts off the front of the stream. -/
def readWith {α : Type} (get : Item TermId DocId TermWeight ExpireTime → Option α) :
    List (Item TermId DocId TermWeight ExpireTime) →
      Except String (α × List (Item TermId DocId TermWeight ExpireTime))
  | [] => .error "unexpected end of snapshot"
  | i :: rest =>
    match get i with
    | some a => .ok (a, rest)
    | none => .error "unexpected value in snapshot"

@[simp] theorem readWith_cons {α : Type}
    (get : Item TermId DocId TermWeight ExpireTime → Option α)
    (i : Item TermId DocId TermWeight ExpireTime)
    (rest : List (Item TermId DocId TermWeight ExpireTime)) :
    readWith get (i :: rest) =
      match get i with
      | some a => .ok (a, rest)
      | none => .error "unexpected value in snapshot" := rfl

@[simp] theorem ok_bind {ε α β : Type} (a : α) (f : α → Except ε β) :
    (Except.ok a >>= f) = f a := rfl

/-! ## Reading exactly a section -/

/-- `f` reads exactly `c`, giving `a`: on `c` followed by anything it gives `a`
and leaves what follows, and on every strict prefix of `c` the stream ends too
early.  Every loader below reads exactly what the matching dump wrote. -/
structure ReadsExactly {α : Type}
    (f : List (Item TermId DocId TermWeight ExpireTime) →
      Except String (α × List (Item TermId DocId TermWeight ExpireTime)))
    (c : List (Item TermId DocId TermWeight ExpireTime)) (a : α) : Prop where
  extend : ∀ rest, f (c ++ rest) = .ok (a, rest)
  truncate : ∀ p q, p ++ q = c → q ≠ [] → f p = .error "unexpected end of snapshot"

namespace ReadsExactly

variable {α β : Type}

/-- A loader that reads exactly `c` reads the whole of `c`. -/
theorem ok {f : List (Item TermId DocId TermWeight ExpireTime) →
      Except String (α × List (Item TermId DocId TermWeight ExpireTime))}
    {c : List (Item TermId DocId TermWeight ExpireTime)} {a : α} (h : ReadsExactly f c a) :
    f c = .ok (a, []) := by
  simpa using h.extend []

/-- Reading nothing. -/
theorem done (a : α) :
    ReadsExactly (fun s : List (Item TermId DocId TermWeight ExpireTime) => .ok (a, s)) [] a :=
  ⟨fun _ => rfl, fun _ _ h hq => absurd (List.append_eq_nil.1 h).2 hq⟩

/-- Reading one value of the right kind. -/
theorem readWith {get : Item TermId DocId TermWeight ExpireTime → Option α}
    {i : Item TermId DocId TermWeight ExpireTime} {a : α} (h : get i = some a) :
    ReadsExactly (RedGiant.readWith get) [i] a := by
  refine ⟨fun rest => by simp [RedGiant.readWith, h], fun p q hpq hq => ?_⟩
  cases p with
  | nil => rfl
  | cons j p => cases p <;> simp_all

/-- Reading `c` and then, with what it gave, `d`: the cut of a strict prefix of
`c ++ d` falls either inside `c` or inside `d`. -/
theorem bind {f : List (Item TermId DocId TermWeight ExpireTime) →
      Except String (α × List (Item TermId DocId TermWeight ExpireTime))}
    {g : α × List (Item TermId DocId TermWeight ExpireTime) →
      Except String (β × List (Item TermId DocId TermWeight ExpireTime))}
    {c d : List (Item TermId DocId TermWeight ExpireTime)} {a : α} {b : β}
    (hf : ReadsExactly f c a) (hg : ReadsExactly (fun s => g (a, s)) d b) :
    ReadsExactly (fun s => f s >>= g) (c ++ d) b := by
  refine ⟨fun rest => by simp only [List.append_assoc, hf.extend, ok_bind, hg.extend],
    fun p q hpq hq => ?_⟩
  rcases List.append_eq_append_iff.1 hpq with ⟨c', rfl, rfl⟩ | ⟨c', rfl, rfl⟩
  · by_cases hc' : c' = []
    · subst hc'
      rw [List.append_nil] at hf
      simp only [hf.ok, ok_bind]
      exact hg.truncate [] _ rfl (by simpa using hq)
    · simp only [hf.truncate p c' rfl hc']
      rfl
  · simp only [hf.extend, ok_bind]
    exact hg.truncate c' q rfl hq

/-- Reading one value of the right kind, then `d`. -/
theorem cons {get : Item TermId DocId TermWeight ExpireTime → Option α}
    {i : Item TermId DocId TermWeight ExpireTime} {a : α} (h : get i = some a)
    {g : α × List (Item TermId DocId TermWeight ExpireTime) →
      Except String (β × List (Item TermId DocId TermWeight ExpireTime))}
    {d : List (Item TermId DocId TermWeight ExpireTime)} {b : β}
    (hg : ReadsExactly (fun s => g (a, s)) d b) :
    ReadsExactly (fun s => RedGiant.readWith get s >>= g) (i :: d) b :=
  (readWith h).bind hg

/-- Reading `c` and then returning, reading nothing more. -/
theorem bind_ok {f : List (Item TermId DocId TermWeight ExpireTime) →
      Except String (α × List (Item TermId DocId TermWeight ExpireTime))}
    {g : α × List (Item TermId DocId TermWeight ExpireTime) →
      Except String (β × List (Item TermId DocId TermWeight ExpireTime))}
    {c : List (Item TermId DocId TermWeight ExpireTime)} {a : α} {b : β}
    (hf : ReadsExactly f c a) (hg : ∀ s, g (a, s) = .ok (b, s)) :
    ReadsExactly (fun s => f s >>= g) c b := by
  have h := hf.bind (show ReadsExactly (fun s => g (a, s)) [] b from
    ⟨hg, fun _ _ h hq => absurd (List.append_eq_nil.1 h).2 hq⟩)
  rwa [List.append_nil] at h

/-- A loader that reads exactly `c` rejects every strict prefix of it. -/
theorem error_of_prefix {f : List (Item TermId DocId TermWeight ExpireTime) →
      Except String (α × List (Item TermId DocId TermWeight ExpireTime))}
    {c p : List (Item TermId DocId TermWeight ExpireTime)} {a : α} (h : ReadsExactly f c a)
    (hp : p <+: c) (hlt : p.length < c.length) :
    f p = .error "unexpected end of snapshot" := by
  obtain ⟨q, rfl⟩ := hp
  exact h.truncate p q rfl fun hq => by simp [hq] at hlt

end ReadsExactly

/-! ## The postings section -/

section Postings

variable [LinearOrder DocId] [DecidableEq TermId]

/-- The entries of one posting list, `DocId` then weight. -/
def PostingList.dump (pl : PostingList DocId TermWeight) :
    List (Item TermId DocId TermWeight ExpireTime) :=
  pl.entries.flatMap fun e => [.docId e.1, .weight e.2]

/-- One term of the postings section: `TermId | count | entries`. -/
def dumpTerm (s : Σ _ : TermId, PostingList DocId TermWeight) :
    List (Item TermId DocId TermWeight ExpireTime) :=
  .termId s.1 :: .count s.2.entries.length :: s.2.dump

/-- Modelled from the spec: `dump_internal(dumper)` writes the postings
section, a term count and then every term. -/
def dumpInternal (idx : PostingIndex TermId DocId TermWeight) :
    List (Item TermId DocId TermWeight ExpireTime) :=
  .count idx.lists.entries.length :: idx.lists.entries.flatMap dumpTerm

/-- Read `n` entries of a posting list, upserting each into `pl`. -/
def loadEntries (pl : PostingList DocId TermWeight) :
    Nat → List (Item TermId DocId TermWeight ExpireTime) →
      Except String
        (PostingList DocId TermWeight × List (Item TermId DocId TermWeight ExpireTime))
  | 0, s => .ok (pl, s)
  | n + 1, s => do
    let (d, s) ← readWith Item.docId? s
    let (w, s) ← readWith Item.weight? s
    loadEntries (pl.upsert d w) n s

/-- Read `n` terms into `idx`; a term's entries go into its list. -/
def loadTerms (idx : PostingIndex TermId DocId TermWeight) :
    Nat → List (Item TermId DocId TermWeight ExpireTime) →
      Except String
        (PostingIndex TermId DocId TermWeight × List (Item TermId DocId TermWeight ExpireTime))
  | 0, s => .ok (idx, s)
  | n + 1, s => do
    let (t, s) ← readWith Item.termId? s
    let (c, s) ← readWith Item.count? s
    let (pl, s) ← loadEntries ((idx.lists.lookup t).getD .empty) c s
    loadTerms ⟨idx.lists.insert t pl⟩ n s

/-- Modelled from the spec: what `Base(initial_buckets, loader)` reads, the
postings section into an empty index. -/
def loadIndex (s : List (Item TermId DocId TermWeight ExpireTime)) :
    Except String
      (PostingIndex TermId DocId TermWeight × List (Item TermId DocId TermWeight ExpireTime)) := do
  let (n, s) ← readWith Item.count? s
  loadTerms .empty n s

omit [DecidableEq TermId] in
/-- The dumped entries `l` read back as `l` upserted one by one into `pl`. -/
theorem readsExactly_loadEntries :
    ∀ (l : List (DocId × TermWeight)) (pl : PostingList DocId TermWeight),
      ReadsExactly (loadEntries pl l.length)
        (l.flatMap fun e =>
          ([.docId e.1, .weight e.2] : List (Item TermId DocId TermWeight ExpireTime)))
        (l.foldl (fun pl e => pl.upsert e.1 e.2) pl)
  | [], pl => ReadsExactly.done pl
  | e :: l, pl => by
    refine ReadsExactly.cons ?_ (ReadsExactly.cons ?_ (readsExactly_loadEntries l _)) <;> rfl

omit [DecidableEq TermId] in
/-- A posting list loads back as itself. -/
theorem readsExactly_loadEntries_empty (pl : PostingList DocId TermWeight) :
    ReadsExactly (loadEntries .empty pl.entries.length)
      (pl.dump : List (Item TermId DocId TermWeight ExpireTime)) pl := by
  have h : ReadsExactly (loadEntries .empty pl.entries.length)
      (pl.dump : List (Item TermId DocId TermWeight ExpireTime))
      (pl.entries.foldl (fun pl e => pl.upsert e.1 e.2) .empty) :=
    readsExactly_loadEntries pl.entries .empty
  have hpl : pl.entries.foldl (fun pl e => pl.upsert e.1 e.2) .empty = pl :=
    PostingList.ext (PostingList.foldl_upsert_entries _ _ pl.sorted)
  rwa [hpl] at h

/-- Inserting one term of a list of distinct terms keeps the others fresh. -/
theorem fresh_insert {s : Σ _ : TermId, PostingList DocId TermWeight}
    {E : List (Σ _ : TermId, PostingList DocId TermWeight)}
    {a : AList fun _ : TermId => PostingList DocId TermWeight}
    (hnd : s.1 ∉ E.map Sigma.fst) (hfresh : ∀ s' ∈ s :: E, s'.1 ∉ a) :
    ∀ s' ∈ E, s'.1 ∉ a.insert s.1 s.2 := fun s' hs' => by
  rw [AList.mem_insert, not_or]
  exact ⟨fun h => hnd (h ▸ List.mem_map_of_mem _ hs'), hfresh s' (List.mem_cons_of_mem _ hs')⟩

/-- Inserting fresh terms one by one puts them in front, last first. -/
theorem foldl_insert_entries :
    ∀ (E : List (Σ _ : TermId, PostingList DocId TermWeight))
      (a : AList fun _ : TermId => PostingList DocId TermWeight),
      (E.map Sigma.fst).Nodup → (∀ s ∈ E, s.1 ∉ a) →
        (E.foldl (fun a s => a.insert s.1 s.2) a).entries = E.reverse ++ a.entries
  | [], _, _, _ => rfl
  | s :: E, a, hnd, hfresh => by
    rw [List.map_cons, List.nodup_cons] at hnd
    have hs : s.1 ∉ a := hfresh s (List.mem_cons_self _ _)
    rw [List.foldl_cons, foldl_insert_entries E _ hnd.2 (fresh_insert hnd.1 hfresh),
      AList.insert_entries_of_neg hs, List.reverse_cons, List.append_assoc]
    rfl

/-- The terms of a postings section load back, each into a list of its own. -/
theorem readsExactly_loadTerms :
    ∀ (E : List (Σ _ : TermId, PostingList DocId TermWeight))
      (idx : PostingIndex TermId DocId TermWeight),
      (E.map Sigma.fst).Nodup → (∀ s ∈ E, s.1 ∉ idx.lists) →
        ReadsExactly (loadTerms idx E.length)
          (E.flatMap dumpTerm : List (Item TermId DocId TermWeight ExpireTime))
          ⟨E.foldl (fun a s => a.insert s.1 s.2) idx.lists⟩
  | [], idx, _, _ => ReadsExactly.done idx
  | s :: E, idx, hnd, hfresh => by
    rw [List.map_cons, List.nodup_cons] at hnd
    have hs : idx.lists.lookup s.1 = none :=
      AList.lookup_eq_none.2 (hfresh s (List.mem_cons_self _ _))
    have hpl : ReadsExactly (loadEntries ((idx.lists.lookup s.1).getD .empty) s.2.entries.length)
        (s.2.dump : List (Item TermId DocId TermWeight ExpireTime)) s.2 := by
      rw [hs]
      exact readsExactly_loadEntries_empty s.2
    have hrest := readsExactly_loadTerms E ⟨idx.lists.insert s.1 s.2⟩ hnd.2
      (fresh_insert hnd.1 hfresh)
    refine ReadsExactly.cons ?_ (ReadsExactly.cons ?_ (hpl.bind hrest)) <;> rfl

/-- The postings section loads back as an index with the same list for every
term. -/
theorem loadIndex_dumpInternal (idx : PostingIndex TermId DocId TermWeight) :
    ∃ idx', ReadsExactly loadIndex
        (dumpInternal idx : List (Item TermId DocId TermWeight ExpireTime)) idx' ∧
      ∀ t, idx'.lists.lookup t = idx.lists.lookup t := by
  have hnd : (idx.lists.entries.map Sigma.fst).Nodup := idx.lists.nodupKeys
  refine ⟨⟨idx.lists.entries.foldl (fun a s => a.insert s.1 s.2) ∅⟩,
    ReadsExactly.cons (by rfl)
      (readsExactly_loadTerms _ PostingIndex.empty hnd fun _ _ => AList.not_mem_empty _),
    fun t => AList.perm_lookup ?_⟩
  rw [foldl_insert_entries _ _ hnd fun _ _ => AList.not_mem_empty _, AList.empty_entries,
    List.append_nil]
  exact List.reverse_perm _

end Postings

/-! ## The expiration section -/

section Expiration

variable [DecidableEq TermId] [DecidableEq DocId] [LinearOrder ExpireTime]

/-- One entry of the expiration section: `TermId | DocId | ExpireTime`. -/
def dumpExpireEntry (q : ExpireKey TermId DocId × ExpireTime) :
    List (Item TermId DocId TermWeight ExpireTime) :=
  [.termId q.1.termId, .docId q.1.docId, .expireTime q.2]

/-- Modelled from the spec: `expire_.dump(dumper)` writes the expiration
section, an entry count and then every entry in deadline order. -/
def ExpireTable.dump (t : ExpireTable TermId DocId ExpireTime) :
    List (Item TermId DocId TermWeight ExpireTime) :=
  .count t.entries.length :: t.entries.flatMap dumpExpireEntry

/-- Read `n` entries of the expiration section, `update`-ing each into `t`. -/
def loadExpireEntries (t : ExpireTable TermId DocId ExpireTime) :
    Nat → List (Item TermId DocId TermWeight ExpireTime) →
      Except String
        (ExpireTable TermId DocId ExpireTime × List (Item TermId DocId TermWeight ExpireTime))
  | 0, s => .ok (t, s)
  | n + 1, s => do
    let (term, s) ← readWith Item.termId? s
    let (doc, s) ← readWith Item.docId? s
    let (e, s) ← readWith Item.expireTime? s
    loadExpireEntries (t.update ⟨term, doc⟩ e) n s

/-- Modelled from the spec: what `expire_(loader)` reads, the expiration
section into an empty table. -/
def loadExpire (s : List (Item TermId DocId TermWeight ExpireTime)) :
    Except String
      (ExpireTable TermId DocId ExpireTime × List (Item TermId DocId TermWeight ExpireTime)) := do
  let (n, s) ← readWith Item.count? s
  loadExpireEntries .empty n s

/-- The dumped entries `l` read back as `l` `update`-d one by one into `t`. -/
theorem readsExactly_loadExpireEntries :
    ∀ (l : List (ExpireKey TermId DocId × ExpireTime)) (t : ExpireTable TermId DocId ExpireTime),
      ReadsExactly (loadExpireEntries t l.length)
        (l.flatMap dumpExpireEntry : List (Item TermId DocId TermWeight ExpireTime))
        (l.foldl (fun t q => t.update q.1 q.2) t)
  | [], t => ReadsExactly.done t
  | q :: l, t => by
    refine ReadsExactly.cons ?_ (ReadsExactly.cons ?_ (ReadsExactly.cons ?_
      (readsExactly_loadExpireEntries l _))) <;> rfl

/-- `update`-ing the entries of a list whose keys do not repeat: the list's
deadline wins where it has one. -/
theorem lookup_foldl_update :
    ∀ (l : List (ExpireKey TermId DocId × ExpireTime)) (t : ExpireTable TermId DocId ExpireTime),
      (l.map Prod.fst).Nodup → ∀ k,
        (l.foldl (fun t q => t.update q.1 q.2) t).lookup k = (l.lookup k).or (t.lookup k)
  | [], t, _, k => rfl
  | q :: l, t, hnd, k => by
    rw [List.map_cons, List.nodup_cons] at hnd
    rw [List.foldl_cons, lookup_foldl_update l _ hnd.2, ExpireTable.lookup_update,
      lookup_cons_eq_ite]
    by_cases hk : k = q.1
    · subst hk
      simp [lookup_eq_none_of_not_mem hnd.1]
    · simp [hk]

/-- The expiration section loads back as a table with the same deadline for
every key. -/
theorem loadExpire_dump (t : ExpireTable TermId DocId ExpireTime) :
    ∃ t', ReadsExactly loadExpire (t.dump : List (Item TermId DocId TermWeight ExpireTime)) t' ∧
      ∀ k, t'.lookup k = t.lookup k := by
  refine ⟨t.entries.foldl (fun t q => t.update q.1 q.2) .empty,
    ReadsExactly.cons (by rfl) (readsExactly_loadExpireEntries _ _), fun k => ?_⟩
  rw [lookup_foldl_update _ _ t.nodup, ExpireTable.lookup_empty, Option.or_none]
  rfl

end Expiration

/-! ## The whole index -/

section Index

variable [LinearOrder DocId] [DecidableEq TermId] [LinearOrder ExpireTime]

namespace BaseEventIndex

/-- `dump(dumper)`: `dump_internal(dumper)`, then `expire_.dump(dumper)`. -/
def dump (s : BaseEventIndex DocId TermId TermWeight ExpireTime) :
    List (Item TermId DocId TermWeight ExpireTime) :=
  dumpInternal s.index ++ s.expire.dump

/-- The constructor `BaseEventIndex(initial_buckets, max_size, loader)`:
`Base(initial_buckets, loader)` reads the postings section, then
`expire_(loader)` the expiration section, and the changeset starts empty.
Returns the index and what the loader has not read. -/
def load (max_size : Nat) (loader : List (Item TermId DocId TermWeight ExpireTime)) :
    Except String (BaseEventIndex DocId TermId TermWeight ExpireTime ×
      List (Item TermId DocId TermWeight ExpireTime)) := do
  let (idx, s) ← loadIndex loader
  let (tbl, s) ← loadExpire s
  pure (⟨idx, [], max_size, tbl⟩, s)

/-- Loading what `dump` wrote, with any `max_size`, reads exactly the dumped
stream and gives back every posting list and every deadline, with an empty
changeset: the edits still pending in a changeset are not in a dump. -/
theorem load_dump (max_size : Nat) (s : BaseEventIndex DocId TermId TermWeight ExpireTime) :
    ∃ s', ReadsExactly (load max_size) s.dump s' ∧
      (∀ t, s'.index.lists.lookup t = s.index.lists.lookup t) ∧
      (∀ k, s'.expire.lookup k = s.expire.lookup k) ∧ s'.changeset = [] ∧
      s'.maxSize = max_size := by
  obtain ⟨idx', hidx, hidx'⟩ := loadIndex_dumpInternal s.index
  obtain ⟨t', ht, ht'⟩ := loadExpire_dump s.expire
  exact ⟨⟨idx', [], max_size, t'⟩, hidx.bind (ht.bind_ok fun _ => rfl), hidx', ht',
    rfl, rfl⟩

/-- On a reachable, quiesced index, restoring what `dump` wrote, with the same
`max_size`, gives back the same posting list for every term, the same
deadline for every key, and the same (empty) changeset. -/
theorem load_dump_roundtrip (max_size : Nat)
    (ops : List (Op DocId TermId TermWeight ExpireTime)) :
    let s := (BaseEventIndex.empty max_size).run ops
    s.changeset = [] →
      ∃ s', load max_size s.dump = .ok (s', []) ∧
        (∀ t, s'.index.lists.lookup t = s.index.lists.lookup t) ∧
        (∀ k, s'.expire.lookup k = s.expire.lookup k) ∧ s'.changeset = s.changeset := by
  intro s hq
  obtain ⟨s', h, hidx, hexp, hcs, -⟩ := load_dump max_size s
  exact ⟨s', h.ok, hidx, hexp, hcs.trans hq.symm⟩

/-- An index that saw one update and then an `apply` is quiesced, and its dump
restores. -/
theorem load_dump_roundtrip_after_apply :
    let s := (BaseEventIndex.empty 4 : BaseEventIndex Nat Nat Nat Int).run
      [.update 1 1 5 10, .apply 0]
    s.changeset = [] ∧
      ∃ s', load 4 s.dump = .ok (s', []) ∧
        (∀ t, s'.index.lists.lookup t = s.index.lists.lookup t) ∧
        (∀ k, s'.expire.lookup k = s.expire.lookup k) ∧ s'.changeset = s.changeset :=
  ⟨rfl, load_dump_roundtrip 4 [.update 1 1 5 10, .apply 0] rfl⟩

/-- A snapshot cut short anywhere is rejected: on every strict prefix of what
`dump` wrote the loader runs out, so no load builds part of an index. -/
theorem load_truncated_dump (max_size : Nat) (s : BaseEventIndex DocId TermId TermWeight ExpireTime)
    (p : List (Item TermId DocId TermWeight ExpireTime)) (hp : p <+: s.dump)
    (hlt : p.length < s.dump.length) :
    load max_size p = .error "unexpected end of snapshot" := by
  obtain ⟨_, h, -⟩ := load_dump max_size s
  exact h.error_of_prefix hp hlt

/-- The dump of an index with one posting, cut inside its expiration section. -/
theorem load_truncated_dump_after_apply :
    let s := (BaseEventIndex.empty 4 : BaseEventIndex Nat Nat Nat Int).run
      [.update 1 1 5 10, .apply 0]
    s.dump.take 7 <+: s.dump ∧ (s.dump.take 7).length < s.dump.length ∧
      load 4 (s.dump.take 7) = .error "unexpected end of snapshot" :=
  ⟨⟨_, List.take_append_drop 7 _⟩, by decide,
    load_truncated_dump 4 _ _ ⟨_, List.take_append_drop 7 _⟩ (by decide)⟩

/-- What a dump taken at any point of a run restores, read against the
abstract map: the weights readers see, as of the last `apply`, and the
deadline of every key, including those whose upserts are still pending; the
pending upserts themselves are not restored. -/
theorem load_dump_refineRun (max_size : Nat)
    (ops : List (Op DocId TermId TermWeight ExpireTime)) :
    let p := refineRun (BaseEventIndex.empty max_size, AbsIndex.empty) ops
    ∃ s', load max_size p.1.dump = .ok (s', []) ∧
      (∀ t d, s'.index.find t d = p.2.visible (t, d)) ∧
      (∀ t d, s'.expire.lookup ⟨t, d⟩ = (p.2.content (t, d)).map Prod.snd) ∧
      s'.changeset = [] := by
  intro p
  have href := refines_refineRun max_size ops
  obtain ⟨s', h, hidx, hexp, hcs, -⟩ := load_dump max_size p.1
  refine ⟨s', h.ok, fun t d => ?_, fun t d => (hexp _).trans (href.expire_lookup t d), hcs⟩
  rw [← href.index_find, PostingIndex.find, PostingIndex.find, hidx]

end BaseEventIndex

end Index

end RedGiant
