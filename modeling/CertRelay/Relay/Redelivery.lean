import CertRelay.Relay.Deliveries

/-!
# Redelivery

After a merge the stored zone is neither the old one nor the incoming one, so a
redelivered record is compared with a third zone, on both acceptance paths: its anchor is
the stored one, so it is no fresher proof, and the stored records are its own or fresher
ones, so it is not better.

**Results.**
* `not_replaces_storedAs`: a zone does not replace what it was stored as;
* `updateHandles_rejected`: a call whose records are all rejected changes nothing;
* `redelivery_noop`: a batch that was stored is rejected as a whole when it comes again.
-/

namespace CertRelay

/--
What redelivery relies on: `is_better_than` is irreflexive, and a zone is not better than
itself with fresher non-empty records.
-/
structure Crates.KeepsFresher (V : Crates) : Prop where
  irrefl : ∀ z, V.better z z = false
  fresher : ∀ (z : Zone) (records : RecordSet),
    V.recordsRank z < V.recordsRank { z with records := records } →
      V.better z { z with records := records } = false

/-- The lexicographic comparison is such an order. -/
theorem Crates.ComparesLex.keepsFresher
    {V : Crates}
    {κ : Type}
    [LinearOrder κ]
    {commitmentRank : ProvableOption CommitmentInfo → κ}
    (h : V.ComparesLex commitmentRank) :
    V.KeepsFresher where
  irrefl z := by
    rw [Bool.eq_false_iff, Ne, h]
    exact lt_irrefl _
  fresher z records hrank := by
    rw [Bool.eq_false_iff, Ne, h, V.zoneRank_lt_iff]
    rintro (hlt | ⟨_, hlt | ⟨heq, _⟩⟩)
    · exact lt_irrefl _ hlt
    · exact absurd hlt (Nat.not_lt.2 hrank.le)
    · omega

section Rejection

variable {V : Crates}

/-- A zone does not replace itself. -/
theorem not_replaces_self
    (hirrefl : ∀ z, V.better z z = false)
    (z : Zone) :
    replaces V z z = false := by
  unfold replaces fresherProof
  rw [hirrefl]
  simp

/-- **A zone does not replace what it was stored as.** -/
theorem not_replaces_storedAs
    (hbetter : V.KeepsFresher)
    (existing : Option Zone)
    (update : Zone) :
    replaces V update (storedAs V existing update) = false := by
  cases existing with
  | none =>
      exact not_replaces_self hbetter.irrefl update
  | some z =>
      show replaces V update (mergedZone V update z) = false
      by_cases hkeep : keepsRecords V update z = true
      · obtain ⟨hkey, hrank⟩ := (keepsRecords_iff V).1 hkeep
        have hproof : fresherProof update { update with records := z.records } = false := by
          simp [fresherProof]
        rw [mergedZone_of_lt V hkey hrank]
        unfold replaces
        rw [hproof, Bool.false_or]
        apply hbetter.fresher
        rw [← V.recordsRank_congr (z := z) (e := { update with records := z.records }) rfl]
        exact hrank
      · unfold mergedZone
        rw [if_neg hkeep]
        exact not_replaces_self hbetter.irrefl update

theorem accepts_eq_false
    (now : Nat)
    {z : Zone}
    {u : HandleRecord}
    (h : replaces V u.zone z = false) :
    accepts V now (some z) u = false := by
  show (_ && replaces V u.zone z) = false
  rw [h, Bool.and_false]

/-- Where every record is rejected, nothing is written. -/
theorem toStore_rejected
    {now : Nat}
    {db : Tables}
    {updates : List HandleRecord}
    (h : ∀ u ∈ updates, accepts V now (storedZone V db u.handle) u = false) :
    toStore V now db updates = [] := by
  unfold toStore
  rw [List.filterMap_eq_nil_iff]
  intro u hu
  rw [Option.eq_none_iff_forall_ne_some]
  intro e he
  have haccepts := ((survivor_eq_some_iff V).1 he).1
  rw [h u hu] at haccepts
  cases haccepts

/-- **A call whose records are all rejected changes nothing.** -/
theorem updateHandles_rejected
    (hV : V.Lawful)
    {now : Nat}
    {db : Tables}
    (hdb : RowsEncoded V db)
    {updates : List HandleRecord}
    (hupdates : ∀ u ∈ updates, Serializable V u)
    (h : ∀ u ∈ updates, accepts V now (storedZone V db u.handle) u = false) :
    updateHandles V now db updates = .ok (db, { skipped := updates.length }) := by
  obtain ⟨rows, hrows, hok⟩ := updateHandles_eq hV now hdb hupdates
  rw [toStore_rejected h] at hrows hok
  cases hrows
  exact hok

end Rejection

section Twice

variable {V : Crates}

/-- Of a batch for distinct handles, a record is the last accepted one of its handle if
it is accepted at all. -/
theorem lastAccepted_of_nodup
    {now : Nat}
    {db : Tables}
    {updates : List HandleRecord}
    (hnodup : (updates.map HandleRecord.handle).Nodup)
    {u : HandleRecord}
    (hu : u ∈ updates) :
    lastAccepted V now db u.handle updates =
      if accepts V now (storedZone V db u.handle) u then some u else none := by
  cases hlast : lastAccepted V now db u.handle updates with
  | none =>
      have hno := Fallible.lastMatch_eq_none.1 hlast u hu
      rw [decide_eq_true rfl, Bool.true_and] at hno
      rw [hno]
      rfl
  | some w =>
      obtain ⟨hmem, hhandle, haccepts⟩ := lastAccepted_mem hlast
      have hw : w = u := List.inj_on_of_nodup_map hnodup hmem hu hhandle
      subst hw
      rw [if_pos haccepts]

/-- After a batch for distinct handles, each of its records is rejected. -/
theorem accepts_redelivered
    (hV : V.Lawful)
    (hbetter : V.KeepsFresher)
    {now : Nat}
    {db db' : Tables}
    (hdb : RowsEncoded V db)
    {updates : List HandleRecord}
    (hnodup : (updates.map HandleRecord.handle).Nodup)
    {res : BulkStoreResult}
    (h : updateHandles V now db updates = .ok (db', res))
    {u : HandleRecord}
    (hu : u ∈ updates) :
    accepts V now (storedZone V db' u.handle) u = false := by
  rw [storedZone_updateHandles hV hdb h, lastAccepted_of_nodup hnodup hu]
  cases haccepts : accepts V now (storedZone V db u.handle) u with
  | false =>
      exact haccepts
  | true =>
      exact accepts_eq_false now (not_replaces_storedAs hbetter _ _)

/-- **Redelivery is a no-op.**  A batch for distinct handles that comes again at the same
clock is skipped as a whole, and no table changes; a batch that failed changed nothing. -/
theorem redelivery_noop
    (hV : V.Lawful)
    (hbetter : V.KeepsFresher)
    {db : Tables}
    (hdb : RowsEncoded V db)
    (now : Nat)
    {updates : List HandleRecord}
    (hnodup : (updates.map HandleRecord.handle).Nodup) :
    (∀ db' res, updateHandles V now db updates = .ok (db', res) →
      updateHandles V now db' updates = .ok (db', { skipped := updates.length })) ∧
    deliver V now (deliver V now db updates) updates = deliver V now db updates := by
  have hagain : ∀ db' res, updateHandles V now db updates = .ok (db', res) →
      updateHandles V now db' updates = .ok (db', { skipped := updates.length }) := by
    intro db' res h
    exact updateHandles_rejected hV (rowsEncoded_updateHandles V hdb h)
      (updateHandles_cases V h).1 (fun u hu => accepts_redelivered hV hbetter hdb hnodup h hu)
  refine ⟨hagain, ?_⟩
  cases h : updateHandles V now db updates with
  | error e =>
      have hsame : deliver V now db updates = db := by
        unfold deliver
        rw [h]
      rw [hsame, hsame]
  | ok out =>
      obtain ⟨db', res⟩ := out
      rw [deliver_of_ok V h]
      exact deliver_of_ok V (hagain db' res h)

/-- A fresher proof with older records is merged, and rejected when it comes again. -/
theorem redelivery_noop_sample :
    let merged := sampleRecord (sampleZone 1 2 0 0)
    let V := Crates.ofTables [sampleCert] [sampleZone 2 1 0 0, merged.zone]
    let db := deliver V 0 Tables.init [sampleRecord (sampleZone 2 1 0 0)]
    storedZone V (deliver V 0 db [merged]) "alice@bitcoin" = some (sampleZone 2 2 0 0) ∧
      updateHandles V 0 (deliver V 0 db [merged]) [merged] =
        .ok (deliver V 0 db [merged], { skipped := 1 }) := by
  intro merged V db
  have hV : V.Lawful := Crates.ofTables_lawful (by decide) (by decide)
  have hdb : RowsEncoded V db := rowsEncoded_runCall V (rowsEncoded_init V)
    (.updateHandles 0 [sampleRecord (sampleZone 2 1 0 0)])
  have hbetter := (Crates.ofTables_comparesLex [sampleCert]
    [sampleZone 2 1 0 0, merged.zone]).keepsFresher
  have hnodup : ([merged].map HandleRecord.handle).Nodup := List.nodup_singleton _
  exact ⟨by decide +kernel, (redelivery_noop hV hbetter hdb 0 hnodup).1 _ _ rfl⟩

end Twice

end CertRelay
