import CertRelay.Relay.SyncPage

/-!
# Root closure of sync pages

A puller can verify a sub-handle only once it has the root of its space.

**Results.**
* `nodup_handles_syncPage`: no handle occurs twice in a page;
* `root_kept`: trimming loses no root that lies beyond the cursor;
* `sync_page_root_closed`: a sub-handle of a page has its root in the page, or the
  root was served before the cursor.
-/

namespace CertRelay

section RootClosure

variable {db : Tables}

/-- A handle has one stored row. -/
theorem row_eq_of_handle
    {r s : Row}
    (hr : r ∈ db.handles.rows)
    (hs : s ∈ db.handles.rows)
    (h : r.handle = s.handle) :
    r = s :=
  db.handles.eq_of_key_eq hr hs h

/-- A record that a sub-handle of the page needs ships with the page. -/
theorem mem_appendedOf
    {order : HashOrder SyncRecord}
    {cursor : Option SyncCursor}
    {limit maxBytes : UInt64}
    {m : SyncRecord × Nat}
    {rec : SyncRecord}
    (hm : m ∈ mainOf db cursor limit maxBytes)
    (hsub : m.1.IsSub)
    (hrec : rec ∈ (trimmed db (afterOf cursor) limit maxBytes).2.rows)
    (hhandle : rec.handle = m.1.spaceName) :
    rec ∈ appendedOf order db cursor limit maxBytes := by
  refine List.mem_filter.2 ⟨order.mem_arrange.2 hrec, ?_⟩
  simpa using mem_subSpaces.2 ⟨m, hm, hsub, hhandle.symm⟩

variable (hseq : SeqsDistinct db) {cursor : Option SyncCursor}
  (hcursor : positionOf cursor < 2 ^ 63) (limit maxBytes : UInt64)
include hseq hcursor

/-- Every record of a page is stored; those of sub-handles are among its rows. -/
theorem mem_mainOf_of_isSub
    {order : HashOrder SyncRecord}
    {rec : SyncRecord}
    (hrec : rec ∈ (syncPage order db cursor limit maxBytes).records)
    (hsub : rec.IsSub) :
    ∃ m ∈ mainOf db cursor limit maxBytes, m.1 = rec := by
  rw [syncPage_records, List.mem_append] at hrec
  rcases hrec with hmain | happended
  · exact List.mem_map.1 hmain
  · exact absurd hsub
      (beyondPage_of_mem_appendedOf hseq hcursor limit maxBytes happended).isRoot

/-- **Trimming loses no root.**  A root beyond the cursor that a sub-handle of the page
needs is a row of the page, or is among the roots kept for it. -/
theorem root_kept
    {m : SyncRecord × Nat}
    (hm : m ∈ mainOf db cursor limit maxBytes)
    (hsub : m.1.IsSub)
    {root : Row}
    (hroot : root ∈ db.handles.rows)
    (hhandle : root.handle = m.1.spaceName)
    (hisRoot : root.IsRoot)
    (hbeyond : positionOf cursor < root.syncSeq) :
    root.served ∈ mainOf db cursor limit maxBytes ∨
      root.record ∈ (trimmed db (afterOf cursor) limit maxBytes).2.rows := by
  obtain ⟨popped, hread, _, hroots⟩ := trimmed_cases db (afterOf cursor) limit maxBytes
  have hpre := readRows_prefix_served hseq hcursor limit maxBytes
  have hasc : Paging.Ascending Prod.snd
      (Paging.after Prod.snd (positionOf cursor) ((writeSequence db).map Row.served)) :=
    (ascending_served hseq).after _
  have hmread : m ∈ readRows db (afterOf cursor) limit maxBytes := by
    rw [hread]
    exact List.mem_append_left _ hm
  by_cases hrootRead : root.served ∈ readRows db (afterOf cursor) limit maxBytes
  · rw [hread, List.mem_append] at hrootRead
    rcases hrootRead with hmain | hpopped
    · exact Or.inl hmain
    · -- the root was popped, so it was put among the roots
      right
      have hnotSub : ¬ root.served.1.IsSub := by
        show ¬ root.handle ≠ spaceNameOf root.handle
        rw [hhandle]
        exact not_not.2 (spaceNameOf_idem _).symm
      obtain ⟨rec, hrec, hsame⟩ := rehomed
        (readRoots db (afterOf cursor) (readRows db (afterOf cursor) limit maxBytes))
        (List.mem_reverse.1 hpopped) hnotSub
      rw [← hroots] at hrec
      obtain ⟨r, hr, rfl, _⟩ :=
        (beyondPage_of_mem_trimmed hseq hcursor limit maxBytes hrec).stored
      rw [row_eq_of_handle hroot hr hsame.symm]
      exact hrec
  · -- the root was not read, so it lies beyond the last row read
    right
    rw [hroots]
    apply subset_foldl_rehome
    refine mem_readRoots.2 ⟨root, hroot, rfl, ?_, hisRoot, ?_⟩
    · exact mem_subSpaces.2 ⟨m, hmread, hsub, hhandle.symm⟩
    · have hserved : root.served ∈ Paging.after Prod.snd (positionOf cursor)
          ((writeSequence db).map Row.served) :=
        Paging.mem_after.2 ⟨List.mem_map_of_mem (mem_writeSequence.2 hroot), hbeyond⟩
      refine (lastSeq_lt_iff (hasc.of_isPrefix hpre) (List.ne_nil_of_mem hmread)).2 ?_
      intro x hx
      exact hasc.lt_of_not_mem_prefix hpre hx hserved hrootRead

/-- No handle occurs twice among the rows of a page. -/
theorem nodup_handles_mainOf :
    ((mainOf db cursor limit maxBytes).map (fun m => m.1.handle)).Nodup := by
  obtain ⟨popped, hread, _⟩ := trimmed_cases db (afterOf cursor) limit maxBytes
  have hpre : mainOf db cursor limit maxBytes <+:
      readRows db (afterOf cursor) limit maxBytes := by
    rw [hread]
    exact List.prefix_append _ _
  have hsub : (mainOf db cursor limit maxBytes).Sublist
      ((writeSequence db).map Row.served) :=
    (hpre.sublist.trans (readRows_prefix_served hseq hcursor limit maxBytes).sublist).trans
      List.filter_sublist
  have hall : (((writeSequence db).map Row.served).map (fun m => m.1.handle)).Nodup := by
    rw [List.map_map]
    exact ((perm_writeSequence db).map Row.handle).nodup_iff.2 db.handles.nodup
  exact (hsub.map _).nodup hall

/-- No handle occurs twice in a page. -/
theorem nodup_handles_syncPage
    (order : HashOrder SyncRecord) :
    ((syncPage order db cursor limit maxBytes).records.map SyncRecord.handle).Nodup := by
  rw [syncPage_records, List.map_append, List.nodup_append]
  refine ⟨?_, ?_, ?_⟩
  · rw [List.map_map]
    exact nodup_handles_mainOf hseq hcursor limit maxBytes
  · have hperm := order.perm (trimmed db (afterOf cursor) limit maxBytes).2.rows
    have hroots := (hperm.map SyncRecord.handle).nodup_iff.2
      (trimmed db (afterOf cursor) limit maxBytes).2.nodup
    exact (List.filter_sublist.map SyncRecord.handle).nodup hroots
  · -- a handle in both parts would be one stored row at two places of the sequence
    intro a ha b hb hab
    obtain ⟨rec, hrec, rfl⟩ := List.mem_map.1 ha
    obtain ⟨m, hm, rfl⟩ := List.mem_map.1 hrec
    obtain ⟨rec', hrec', rfl⟩ := List.mem_map.1 hb
    obtain ⟨r, hr, rfl⟩ := stored_of_mem_mainOf hm
    obtain ⟨s, hs, rfl, hbeyond⟩ :=
      (beyondPage_of_mem_appendedOf hseq hcursor limit maxBytes hrec').stored
    have hlt : r.syncSeq < s.syncSeq := hbeyond r.served hm
    rw [row_eq_of_handle hr hs hab] at hlt
    exact hlt.false

/-- The root of a sub-handle of a page was served before, or is in the page. -/
theorem root_of_mem_syncPage
    {order : HashOrder SyncRecord}
    {rec : SyncRecord}
    (hrec : rec ∈ (syncPage order db cursor limit maxBytes).records)
    (hsub : rec.IsSub)
    {root : Row}
    (hroot : root ∈ db.handles.rows)
    (hhandle : root.handle = rec.spaceName)
    (hisRoot : root.IsRoot) :
    root.syncSeq ≤ positionOf cursor ∨
      root.record ∈ (syncPage order db cursor limit maxBytes).records := by
  by_cases hserved : root.syncSeq ≤ positionOf cursor
  · exact Or.inl hserved
  · right
    obtain ⟨m, hm, rfl⟩ := mem_mainOf_of_isSub hseq hcursor limit maxBytes hrec hsub
    rw [syncPage_records, List.mem_append]
    rcases root_kept hseq hcursor limit maxBytes hm hsub hroot hhandle hisRoot
      (not_le.1 hserved) with hmain | hkept
    · exact Or.inl (List.mem_map_of_mem hmain)
    · exact Or.inr (mem_appendedOf hm hsub hkept hhandle)

end RootClosure

/-- **A page is closed under roots**, and no handle occurs twice in it. -/
theorem sync_page_root_closed
    {db : Tables}
    (hseq : SeqsDistinct db)
    (hrange : I64Range db)
    {cursor : Option SyncCursor}
    (hcursor : positionOf cursor ≤ db.syncCounter)
    (limit maxBytes : UInt64)
    (order : HashOrder SyncRecord) :
    (∀ rec ∈ (syncPage order db cursor limit maxBytes).records, rec.IsSub →
      ∀ root ∈ db.handles.rows, root.handle = rec.spaceName → root.IsRoot →
        root.syncSeq ≤ positionOf cursor ∨
          root.record ∈ (syncPage order db cursor limit maxBytes).records) ∧
    ((syncPage order db cursor limit maxBytes).records.map SyncRecord.handle).Nodup := by
  have hpos : positionOf cursor < 2 ^ 63 := hcursor.trans_lt hrange.counter
  refine ⟨?_, nodup_handles_syncPage hseq hpos limit maxBytes order⟩
  intro rec hrec hsub root hroot hhandle hisRoot
  exact root_of_mem_syncPage hseq hpos limit maxBytes hrec hsub hroot hhandle hisRoot

theorem sync_page_root_closed_sample :
    SyncRecord.mk "@bitcoin" 1 1 0 [1, 1] [2, 2] ∈
      (syncPage HashOrder.inserted sampleStore none 1 0).records := by
  have hcursor : positionOf none ≤ sampleStore.syncCounter := by
    decide
  have hclosed := (sync_page_root_closed sampleStore_seqsDistinct sampleStore_i64Range
    hcursor 1 0 HashOrder.inserted).1
  have hpage := hclosed ⟨"alice@bitcoin", 1, 1, 0, [1], [2]⟩ (by decide) (by decide)
    ⟨"@bitcoin", "@bitcoin", [1, 1], [2, 2], 1, 1, 0, 2, [0], 0, by decide⟩ (by decide)
    (by decide) (by decide)
  rcases hpage with hbefore | hmem
  · exact absurd hbefore (by decide)
  · exact hmem

end CertRelay
