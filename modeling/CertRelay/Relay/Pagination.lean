import CertRelay.Relay.SyncPage

/-!
# Pages neither skip nor repeat

A puller follows the cursors of the pages of an unchanging store.

**Results.**
* `sync_page_never_skips`: a page holds exactly the rows between its cursor and its
  next cursor, in order, besides appended roots; a page is empty only when nothing
  lies beyond the cursor; and following the cursors from the start stops and delivers
  every row once.
-/

namespace CertRelay

/-- Pull pages, each after the cursor of the one before, until a page has no cursor.
Hash tables may iterate differently in every call. -/
def pullAll (orders : ℕ → HashOrder SyncRecord) (db : Tables) (limit maxBytes : UInt64) :
    ℕ → Option SyncCursor → Option (List SyncPage)
  | 0, _ => none
  | n + 1, cursor =>
      let page := syncPage (orders n) db cursor limit maxBytes
      match page.nextCursor with
      | none => some []
      | some text =>
          match SyncCursor.fromStr text with
          | .ok next => (pullAll orders db limit maxBytes n (some next)).map (page :: ·)
          | .error _ => none

/-- A page ships some rows and, besides, roots from beyond them. -/
def Ships (db : Tables) (page : SyncPage) (main : List (SyncRecord × Nat)) : Prop :=
  ∃ roots, page.records = main.map Prod.fst ++ roots ∧
    ∀ rec ∈ roots, BeyondPage db main rec

/-- The rows that a page ships after a position. -/
def mainAt (db : Tables) (limit maxBytes : UInt64) (c : ℕ) : List (SyncRecord × Nat) :=
  mainOf db (some (SyncCursor.ofCounter c)) limit maxBytes

theorem mainAt_positionOf
    (db : Tables)
    (limit maxBytes : UInt64)
    (cursor : Option SyncCursor) :
    mainAt db limit maxBytes (positionOf cursor) = mainOf db cursor limit maxBytes := by
  unfold mainAt mainOf
  congr 2
  cases cursor with
  | none =>
      rfl
  | some c =>
      have hself : SyncCursor.ofCounter c.val = c :=
        SyncCursor.ext (SyncCursor.ofCounter_val c.val_lt)
      show afterOf (some (SyncCursor.ofCounter c.val)) = afterOf (some c)
      rw [hself]

section Pagination

variable {db : Tables} (hseq : SeqsDistinct db) (hrange : I64Range db)
include hseq

theorem ships_syncPage
    (order : HashOrder SyncRecord)
    {cursor : Option SyncCursor}
    (hcursor : positionOf cursor < 2 ^ 63)
    (limit maxBytes : UInt64) :
    Ships db (syncPage order db cursor limit maxBytes)
      (mainOf db cursor limit maxBytes) :=
  ⟨appendedOf order db cursor limit maxBytes, syncPage_records _ _ _ _ _,
    fun _ hrec => beyondPage_of_mem_appendedOf hseq hcursor limit maxBytes hrec⟩

/-- A page is empty when nothing lies beyond its cursor. -/
theorem syncPage_eq_empty
    (order : HashOrder SyncRecord)
    {cursor : Option SyncCursor}
    (hcursor : positionOf cursor < 2 ^ 63)
    {limit : UInt64}
    (hlimit : 1 ≤ limit)
    (maxBytes : UInt64)
    (hnone : ∀ r ∈ db.handles.rows, r.syncSeq ≤ positionOf cursor) :
    syncPage order db cursor limit maxBytes = ⟨[], none⟩ := by
  have hafter : Paging.after Prod.snd (positionOf cursor)
      ((writeSequence db).map Row.served) = [] := by
    rw [Paging.after_map Row.served_snd, List.map_eq_nil_iff, List.eq_nil_iff_forall_not_mem]
    intro r hr
    obtain ⟨hmem, hlt⟩ := Paging.mem_after.1 hr
    exact absurd hlt (not_lt.2 (hnone r (mem_writeSequence.1 hmem)))
  have hmain : mainOf db cursor limit maxBytes = [] :=
    (mainOf_isPage hseq hcursor limit maxBytes hlimit).eq_nil_iff.2 hafter
  have hrecords := syncPage_records order db cursor limit maxBytes
  have hnext := syncPage_nextCursor order db cursor limit maxBytes
  rw [hmain, appendedOf_of_mainOf_nil hmain] at hrecords
  rw [hmain] at hnext
  calc syncPage order db cursor limit maxBytes
      = ⟨(syncPage order db cursor limit maxBytes).records,
          (syncPage order db cursor limit maxBytes).nextCursor⟩ := rfl
    _ = ⟨[], none⟩ := by rw [hrecords, hnext]; rfl

include hrange

/-- The last row of a page fixes its next cursor and its extent. -/
theorem mainOf_last
    {cursor : Option SyncCursor}
    (hcursor : positionOf cursor < 2 ^ 63)
    {limit : UInt64}
    (hlimit : 1 ≤ limit)
    {maxBytes : UInt64}
    {x : SyncRecord × Nat}
    (hlast : (mainOf db cursor limit maxBytes).getLast? = some x) :
    positionOf cursor < x.2 ∧ x.2 < 2 ^ 63 ∧
      mainOf db cursor limit maxBytes =
        (Paging.between Row.syncSeq (positionOf cursor) x.2 (writeSequence db)).map
          Row.served := by
  have hpage := mainOf_isPage hseq hcursor limit maxBytes hlimit
  have hbetween := hpage.eq_between (ascending_served hseq) hlast
  rw [Paging.between_map Row.served_snd] at hbetween
  have hx := Paging.mem_of_getLast? hlast
  rw [hbetween] at hx
  obtain ⟨r, hr, rfl⟩ := List.mem_map.1 hx
  obtain ⟨hmem, hlt, _⟩ := Paging.mem_between.1 hr
  exact ⟨hlt, hrange.rows r (mem_writeSequence.1 hmem), hbetween⟩

/-- A page beyond whose cursor a row lies holds the rows up to its next cursor. -/
theorem syncPage_eq_between
    (order : HashOrder SyncRecord)
    {cursor : Option SyncCursor}
    (hcursor : positionOf cursor < 2 ^ 63)
    {limit : UInt64}
    (hlimit : 1 ≤ limit)
    (maxBytes : UInt64)
    (hsome : ∃ r ∈ db.handles.rows, positionOf cursor < r.syncSeq) :
    ∃ n : SyncCursor,
      positionOf cursor < n.val ∧
      (syncPage order db cursor limit maxBytes).nextCursor = some n.display ∧
      (syncPage order db cursor limit maxBytes).records ≠ [] ∧
      Ships db (syncPage order db cursor limit maxBytes)
        ((Paging.between Row.syncSeq (positionOf cursor) n.val (writeSequence db)).map
          Row.served) := by
  have hships := ships_syncPage hseq order hcursor limit maxBytes
  have hpage := mainOf_isPage hseq hcursor limit maxBytes hlimit
  have hne : mainOf db cursor limit maxBytes ≠ [] := by
    apply hpage.nonempty
    obtain ⟨r, hr, hlt⟩ := hsome
    rw [Paging.after_map Row.served_snd]
    exact List.ne_nil_of_mem (List.mem_map_of_mem
      (Paging.mem_after.2 ⟨mem_writeSequence.2 hr, hlt⟩))
  obtain ⟨x, hlast⟩ := Option.ne_none_iff_exists'.1
    (fun h => hne (List.getLast?_eq_none_iff.1 h))
  obtain ⟨hlt, hx, hbetween⟩ := mainOf_last hseq hrange hcursor hlimit hlast
  have hval : (SyncCursor.ofCounter x.2).val = x.2 :=
    SyncCursor.ofCounter_val_of_lt hx
  refine ⟨SyncCursor.ofCounter x.2, ?_, ?_, ?_, ?_⟩
  · rw [hval]
    exact hlt
  · rw [syncPage_nextCursor, hlast]
    rfl
  · rw [syncPage_records]
    simp [hne]
  · rw [hval, ← hbetween]
    exact hships

/-- Pulling follows the cursors of the rows that the pages ship. -/
theorem pullAll_of_collect
    (orders : ℕ → HashOrder SyncRecord)
    {limit : UInt64}
    (hlimit : 1 ≤ limit)
    (maxBytes : UInt64) :
    ∀ n cursor mains, positionOf cursor < 2 ^ 63 →
      Paging.collect Prod.snd (mainAt db limit maxBytes) n (positionOf cursor) =
        some mains →
      ∃ pages, pullAll orders db limit maxBytes n cursor = some pages ∧
        List.Forall₂ (Ships db) pages mains
  | 0, _, _, _, h => by
      cases h
  | n + 1, cursor, mains, hcursor, h => by
      have hships := ships_syncPage hseq (orders n) hcursor limit maxBytes
      have hnext := syncPage_nextCursor (orders n) db cursor limit maxBytes
      unfold Paging.collect at h
      unfold pullAll
      cases hlast : (mainOf db cursor limit maxBytes).getLast? with
      | none =>
          rw [mainAt_positionOf, hlast] at h
          cases h
          rw [hlast, Option.map_none] at hnext
          simp only [hnext]
          exact ⟨[], rfl, List.Forall₂.nil⟩
      | some x =>
          obtain ⟨_, hx, _⟩ := mainOf_last hseq hrange hcursor hlimit hlast
          have hval : positionOf (some (SyncCursor.ofCounter x.2)) = x.2 :=
            SyncCursor.ofCounter_val_of_lt hx
          rw [mainAt_positionOf, hlast] at h
          obtain ⟨rest, hrest, rfl⟩ := Option.map_eq_some_iff.1 h
          rw [← hval] at hrest
          obtain ⟨pages, hpages, hforall⟩ :=
            pullAll_of_collect orders hlimit maxBytes n _ rest (by rw [hval]; exact hx) hrest
          rw [hlast, Option.map_some] at hnext
          simp only [hnext, SyncCursor.fromStr_display, hpages, Option.map_some]
          exact ⟨_, rfl, List.Forall₂.cons hships hforall⟩

/-- Pulling from the start stops and delivers every row once, in order. -/
theorem pullAll_complete
    (orders : ℕ → HashOrder SyncRecord)
    {limit : UInt64}
    (hlimit : 1 ≤ limit)
    (maxBytes : UInt64)
    {fuel : ℕ}
    (hfuel : db.handles.rows.length < fuel) :
    ∃ pages mains, pullAll orders db limit maxBytes fuel none = some pages ∧
      List.Forall₂ (Ships db) pages mains ∧
      mains.flatten = (writeSequence db).map Row.served := by
  have hall : Paging.after Prod.snd 0 ((writeSequence db).map Row.served) =
      (writeSequence db).map Row.served := by
    rw [Paging.after_map Row.served_snd]
    congr 1
    unfold Paging.after
    rw [List.filter_eq_self]
    intro r _
    simpa using r.syncSeq_pos
  have hpager : ∀ c, c < 2 ^ 63 →
      Paging.IsPage Prod.snd ((writeSequence db).map Row.served) c
        (mainAt db limit maxBytes c) := by
    intro c hc
    have hval : positionOf (some (SyncCursor.ofCounter c)) = c :=
      SyncCursor.ofCounter_val_of_lt hc
    have hpage : Paging.IsPage Prod.snd ((writeSequence db).map Row.served)
        (positionOf (some (SyncCursor.ofCounter c))) (mainAt db limit maxBytes c) :=
      mainOf_isPage hseq (by rw [hval]; exact hc) limit maxBytes hlimit
    rw [hval] at hpage
    exact hpage
  have hrange' : ∀ m ∈ (writeSequence db).map Row.served, m.2 < 2 ^ 63 := by
    intro m hm
    obtain ⟨r, hr, rfl⟩ := List.mem_map.1 hm
    exact hrange.rows r (mem_writeSequence.1 hr)
  obtain ⟨mains, hmains, hflat⟩ :=
    Paging.collect_eq (ascending_served hseq) hrange' hpager fuel 0 (by decide)
      (by rw [hall, List.length_map, (perm_writeSequence db).length_eq]; exact hfuel)
  obtain ⟨pages, hpages, hforall⟩ :=
    pullAll_of_collect hseq hrange orders hlimit maxBytes fuel none mains (by decide) hmains
  exact ⟨pages, mains, hpages, hforall, hflat.trans hall⟩

end Pagination

/-- **Pages neither skip nor repeat a row.** -/
theorem sync_page_never_skips
    {db : Tables}
    (hseq : SeqsDistinct db)
    (hrange : I64Range db)
    {cursor : Option SyncCursor}
    (hcursor : positionOf cursor ≤ db.syncCounter)
    {limit : UInt64}
    (hlimit : 1 ≤ limit)
    (maxBytes : UInt64)
    (order : HashOrder SyncRecord)
    (orders : ℕ → HashOrder SyncRecord) :
    ((∃ r ∈ db.handles.rows, positionOf cursor < r.syncSeq) →
      ∃ n : SyncCursor,
        positionOf cursor < n.val ∧
        (syncPage order db cursor limit maxBytes).nextCursor = some n.display ∧
        (syncPage order db cursor limit maxBytes).records ≠ [] ∧
        Ships db (syncPage order db cursor limit maxBytes)
          ((Paging.between Row.syncSeq (positionOf cursor) n.val (writeSequence db)).map
            Row.served)) ∧
    ((∀ r ∈ db.handles.rows, r.syncSeq ≤ positionOf cursor) →
      syncPage order db cursor limit maxBytes = ⟨[], none⟩) ∧
    ∀ fuel, db.handles.rows.length < fuel →
      ∃ pages mains, pullAll orders db limit maxBytes fuel none = some pages ∧
        List.Forall₂ (Ships db) pages mains ∧
        mains.flatten = (writeSequence db).map Row.served := by
  have hpos : positionOf cursor < 2 ^ 63 := hcursor.trans_lt hrange.counter
  refine ⟨?_, ?_, ?_⟩
  · exact syncPage_eq_between hseq hrange order hpos hlimit maxBytes
  · exact syncPage_eq_empty hseq order hpos hlimit maxBytes
  · intro fuel hfuel
    exact pullAll_complete hseq hrange orders hlimit maxBytes hfuel

theorem sync_page_never_skips_sample :
    ∃ n : SyncCursor,
      0 < n.val ∧
      (syncPage HashOrder.inserted sampleStore none 1 0).nextCursor = some n.display := by
  have hcursor : positionOf none ≤ sampleStore.syncCounter := by
    decide
  have hlimit : (1 : UInt64) ≤ 1 := by
    decide
  have hall := sync_page_never_skips sampleStore_seqsDistinct sampleStore_i64Range
    hcursor hlimit 0 HashOrder.inserted (fun _ => HashOrder.inserted)
  obtain ⟨n, hlt, hnext, _⟩ := hall.1 (by decide)
  exact ⟨n, hlt, hnext⟩

end CertRelay
