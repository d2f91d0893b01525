import CertRelay.Relay.AddressIndex
import CertRelay.Relay.ReverseIndex

/-!
# Deleting handles

`delete_handles` drops the reverse rows that the zones of the deleted rows point at, then the
address rows and the handle rows.  It reads the reverse rows to drop from the zones, as they
were written, and passes over a zone that it cannot read.

Its statements bind one variable for each listed handle, repeated ones included, so SQLite
refuses a list of more than `maxVariables`: then nothing is deleted.

**Results.**
* `reverseOf_eq_some_iff`: what a zone points at;
* `mem_reverse_deleteHandles_iff`: which reverse rows are left;
* `deletesExactly_deleteHandles`: what is left, and what is not touched, where SQLite takes
  the statements;
* `afterDelete_eq_ite`: what a call leaves, refused or not;
* `deletesExactly_iff`: a call deletes what it lists exactly if the list is short enough, or
  has nothing that is stored.
-/

namespace CertRelay

section Deletion

variable (V : Crates)

/-- The zone of a row can be read, and its number id and primary Sig are those of a reverse
row. -/
def PointsAt (r : Row) (row : ReverseRow) : Prop :=
  ∃ z sig, V.zoneFromSlice r.zoneData = .ok z ∧ z.numId = some row.numId ∧
    V.recordsSig z.records = some sig ∧
    sig.flags &&& V.sigPrimaryZone = V.sigPrimaryZone ∧ sig.handle.text = row.name

/-- What is left of some tables once handles are deleted. -/
structure DeletesExactly (handles : List String) (db db' : Tables) : Prop where
  rows : ∀ r, r ∈ db'.handles.rows ↔ r ∈ db.handles.rows ∧ r.handle ∉ handles
  addrs : db'.addrs = db.addrs.filter (fun a => decide (a.handle ∉ handles))
  reverse : ∀ row, row ∈ db'.reverse.rows ↔ row ∈ db.reverse.rows ∧
    ¬ ∃ r ∈ db.handles.rows, r.handle ∈ handles ∧ PointsAt V r row
  syncWatermarks : db'.syncWatermarks = db.syncWatermarks
  syncCounter : db'.syncCounter = db.syncCounter

/-- Nothing stored belongs to the listed handles. -/
def NothingStored (handles : List String) (db : Tables) : Prop :=
  (∀ r ∈ db.handles.rows, r.handle ∉ handles) ∧ ∀ a ∈ db.addrs, a.handle ∉ handles

variable {V}

/-- **What a zone points at.** -/
theorem reverseOf_eq_some_iff
    {z : Zone}
    {numId name : String} :
    reverseOf V z = some (numId, name) ↔
      ∃ sig, z.numId = some numId ∧ V.recordsSig z.records = some sig ∧
        sig.flags &&& V.sigPrimaryZone = V.sigPrimaryZone ∧ sig.handle.text = name := by
  unfold reverseOf
  cases hsig : V.recordsSig z.records with
  | none =>
      simp
  | some sig =>
      cases hnum : z.numId with
      | none =>
          simp
      | some id =>
          dsimp only
          split_ifs with hprimary
          · simp [hprimary]
          · simp [hprimary]

theorem pointsAt_iff
    {r : Row}
    {row : ReverseRow} :
    PointsAt V r row ↔ ∃ z, V.zoneFromSlice r.zoneData = .ok z ∧
      reverseOf V z = some (row.numId, row.name) := by
  unfold PointsAt
  refine exists_congr (fun z => ?_)
  rw [reverseOf_eq_some_iff, exists_and_left]

/-- **Which reverse rows are left.** -/
theorem mem_reverse_deleteHandles_iff
    {db : Tables}
    {handles : List String}
    {row : ReverseRow} :
    row ∈ (deleteHandles V db handles).1.reverse.rows ↔ row ∈ db.reverse.rows ∧
      ¬ ∃ r ∈ db.handles.rows, r.handle ∈ handles ∧ PointsAt V r row := by
  unfold deleteHandles
  split_ifs with hempty
  · rw [List.isEmpty_iff.1 hempty]
    simp
  · rw [reverse_foldl_deleteRow]
    dsimp only
    rw [mem_reverse_foldl_dropReverse]
    refine and_congr_right (fun _ => ?_)
    constructor
    · rintro hother ⟨r, hr, hlisted, hpoints⟩
      obtain ⟨z, hz, hrev⟩ := pointsAt_iff.1 hpoints
      exact hother r (mem_victims.2 ⟨hr, hlisted⟩) z hz hrev
    · intro hnone r hr z hz hrev
      obtain ⟨hmem, hlisted⟩ := mem_victims.1 hr
      exact hnone ⟨r, hmem, hlisted, pointsAt_iff.2 ⟨z, hz, hrev⟩⟩

theorem syncCounter_deleteHandles
    (db : Tables)
    (handles : List String) :
    (deleteHandles V db handles).1.syncCounter = db.syncCounter := by
  obtain ⟨mid, hsame, heq⟩ := deleteHandles_cases V db handles
  rw [heq, syncCounter_foldl_deleteRow, hsame.syncCounter]

variable (V)

/-- **What is left, and what is not touched**, where SQLite takes the statements. -/
theorem deletesExactly_deleteHandles
    (db : Tables)
    (handles : List String) :
    DeletesExactly V handles db (deleteHandles V db handles).1 where
  rows _ := mem_deleteHandles V
  addrs := addrs_deleteHandles db handles
  reverse _ := mem_reverse_deleteHandles_iff
  syncWatermarks := syncWatermarks_deleteHandles V db handles
  syncCounter := syncCounter_deleteHandles db handles

/-- **What a call leaves.** -/
theorem afterDelete_eq_ite
    (db : Tables)
    (handles : List String) :
    afterDelete V db handles =
      if handles.length ≤ maxVariables then (deleteHandles V db handles).1 else db := by
  unfold afterDelete tryDeleteHandles
  split_ifs with hlength
  · rw [bindVariables_eq_ok.2 hlength]
    rfl
  · rw [bindVariables_of_lt (Nat.lt_of_not_le hlength)]
    rfl

/-- To delete nothing is exact if there is nothing to delete. -/
theorem deletesExactly_self_iff
    {db : Tables}
    {handles : List String} :
    DeletesExactly V handles db db ↔ NothingStored handles db := by
  constructor
  · intro h
    refine ⟨fun r hr => ((h.rows r).1 hr).2, fun a ha => ?_⟩
    rw [h.addrs] at ha
    exact of_decide_eq_true (List.mem_filter.1 ha).2
  · rintro ⟨hrows, haddrs⟩
    refine ⟨fun r => ⟨fun hr => ⟨hr, hrows r hr⟩, And.left⟩, ?_, fun row => ?_, rfl, rfl⟩
    · exact (List.filter_eq_self.2 (fun a ha => decide_eq_true (haddrs a ha))).symm
    · refine ⟨fun hrow => ⟨hrow, ?_⟩, And.left⟩
      rintro ⟨r, hr, hlisted, _⟩
      exact hrows r hr hlisted

/-- **A call deletes exactly what belongs to the listed handles** if and only if SQLite takes
its statements or nothing stored belongs to them. -/
theorem deletesExactly_iff
    (db : Tables)
    (handles : List String) :
    DeletesExactly V handles db (afterDelete V db handles) ↔
      handles.length ≤ maxVariables ∨ NothingStored handles db := by
  rw [afterDelete_eq_ite]
  split_ifs with hlength
  · exact iff_of_true (deletesExactly_deleteHandles V db handles) (Or.inl hlength)
  · rw [deletesExactly_self_iff, or_iff_right hlength]

/-- One handle, listed once too often: its row stays. -/
theorem refused_delete :
    let V := Crates.ofTables [sampleCert] [sampleZone 1 1 0 0]
    let db := deliver V 0 Tables.init [sampleRecord (sampleZone 1 1 0 0)]
    let handles := List.replicate 32767 "alice@bitcoin"
    ¬ DeletesExactly V handles db (afterDelete V db handles) := by
  intro V db handles h
  have hlength : ¬ handles.length ≤ maxVariables := by
    rw [List.length_replicate]
    decide
  rw [afterDelete_eq_ite, if_neg hlength, deletesExactly_self_iff] at h
  have hrow : ∃ r ∈ db.handles.rows, r.handle = "alice@bitcoin" := by
    decide +kernel
  obtain ⟨r, hr, hhandle⟩ := hrow
  exact h.1 r hr (List.mem_replicate.2 ⟨by decide, hhandle⟩)

end Deletion

end CertRelay
