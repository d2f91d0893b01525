import CertRelay.Relay.HandleMessage

/-!
# The metadata columns of a row

Hints, the duplicate filter and pagination read the columns of a row, not its blobs.
The columns of a new row come from the update, or, where the stored records are kept,
from the records kept; the six hours that a sequence may be ahead are checked for the
update only, so for kept records they follow from the row that they come from.

**Results.**
* `describes_entryFor`: an entry describes the zone that it stores, merged or not;
* `inStep_updateHandles`: one call keeps the rows in step with their blobs;
* `rows_match_blobs`: so does every run with a clock that does not go back.
-/

namespace CertRelay

section Entries

variable (V : Crates)

/-- Sequence columns describe a zone. -/
structure Describes (zone : Zone) (offchainSeq delegateOffchainSeq : Nat) : Prop where
  offchainSeq : offchainSeq = V.seqOr0 zone.records
  delegateOffchainSeq : delegateOffchainSeq = V.delegateSeqOr0 zone

variable {V}

/-- The merge leaves an entry alone, or gives it the stored records and their sequence. -/
theorem mergeRecords_cases
    (e : Prepared)
    (update existing : Zone) :
    mergeRecords V e update existing = e ∨
      ∃ bytes, V.zoneToVec { update with records := existing.records } = .ok bytes ∧
        mergeRecords V e update existing =
          { e with
            zoneData := bytes
            offchainSeq := V.seqOr0 existing.records } := by
  unfold mergeRecords
  split_ifs
  · cases V.zoneToVec { update with records := existing.records } with
    | ok bytes =>
        exact Or.inr ⟨bytes, rfl, rfl⟩
    | error _ =>
        exact Or.inl rfl
  · exact Or.inl rfl

/-- **An entry describes the zone that it stores**: the zone of the update, with its own
records or with the ones kept. -/
theorem describes_entryFor
    (existing : Option Zone)
    {e : Prepared}
    {u : HandleRecord}
    (he : prepare V u = .ok e)
    (hu : Derived V u) :
    ∃ zone, V.zoneToVec zone = .ok (entryFor V existing e u).zoneData ∧
      Describes V zone (entryFor V existing e u).offchainSeq
        (entryFor V existing e u).delegateOffchainSeq := by
  obtain ⟨space, certData, zoneData, _, _, hzone, rfl⟩ := (prepare_eq_ok_iff V).1 he
  have hplain : Describes V u.zone u.offchainSeq u.delegateOffchainSeq :=
    ⟨hu.offchainSeq, hu.delegateOffchainSeq⟩
  cases existing with
  | none =>
      exact ⟨u.zone, hzone, hplain⟩
  | some z =>
      simp only [entryFor]
      rcases mergeRecords_cases (V := V)
        ⟨u.handle, space, certData, zoneData, u.epochHeight, u.offchainSeq,
          u.delegateOffchainSeq, false⟩ u.zone z with hown | ⟨bytes, hbytes, hkept⟩
      · rw [hown]
        exact ⟨u.zone, hzone, hplain⟩
      · rw [hkept]
        exact ⟨_, hbytes, rfl, hu.delegateOffchainSeq⟩

/-- The owner sequence of an entry is the update's, or that of the stored records. -/
theorem offchainSeq_entryFor
    (existing : Option Zone)
    {e : Prepared}
    {u : HandleRecord}
    (he : prepare V u = .ok e) :
    (entryFor V existing e u).offchainSeq = u.offchainSeq ∨
      ∃ z, existing = some z ∧
        (entryFor V existing e u).offchainSeq = V.seqOr0 z.records := by
  obtain ⟨space, certData, zoneData, _, _, _, rfl⟩ := (prepare_eq_ok_iff V).1 he
  cases existing with
  | none =>
      exact Or.inl rfl
  | some z =>
      simp only [entryFor]
      rcases mergeRecords_cases (V := V)
        ⟨u.handle, space, certData, zoneData, u.epochHeight, u.offchainSeq,
          u.delegateOffchainSeq, false⟩ u.zone z with hown | ⟨bytes, _, hkept⟩
      · exact Or.inl (by rw [hown])
      · exact Or.inr ⟨z, rfl, by rw [hkept]⟩

theorem accepts_timely
    {now : Nat}
    {existing : Option Zone}
    {u : HandleRecord}
    (h : accepts V now existing u = true) :
    Timely now u := by
  unfold accepts at h
  simp only [Bool.and_eq_true, decide_eq_true_eq] at h
  exact ⟨h.1.1, h.1.2⟩

end Entries

section Rows

variable (V : Crates)

/-- The columns of a row agree with its blobs and with its write time. -/
structure Row.InStep (r : Row) : Prop where
  zone : ∃ z, V.zoneFromSlice r.zoneData = .ok z ∧
    Describes V z r.offchainSeq r.delegateOffchainSeq
  zoneHash : r.zoneHash = CertRelay.zoneHash V r.zoneData
  space : V.space ⟨r.handle⟩ = some r.space
  offchainSeq_le : r.offchainSeq ≤ maxSeq r.updatedAt
  delegateOffchainSeq_le : r.delegateOffchainSeq ≤ maxSeq r.updatedAt

/-- Every row is in step, and none is younger than the clock. -/
structure RowsInStep (now : Nat) (db : Tables) : Prop where
  encoded : RowsEncoded V db
  inStep : ∀ r ∈ db.handles.rows, r.InStep V
  updatedAt_le : ∀ r ∈ db.handles.rows, r.updatedAt ≤ now

variable {V}

theorem maxSeq_mono
    {a b : Nat}
    (h : a ≤ b) :
    maxSeq a ≤ maxSeq b :=
  Nat.add_le_add_right h _

theorem RowsInStep.mono
    {before now : Nat}
    {db : Tables}
    (h : RowsInStep V before db)
    (hclock : before ≤ now) :
    RowsInStep V now db :=
  ⟨h.encoded, h.inStep, fun r hr => (h.updatedAt_le r hr).trans hclock⟩

/-- The sequence of stored records is within six hours of any later clock. -/
theorem RowsInStep.storedSeq_le
    {now : Nat}
    {db : Tables}
    (h : RowsInStep V now db)
    {handle : String}
    {z : Zone}
    (hz : storedZone V db handle = some z) :
    V.seqOr0 z.records ≤ maxSeq now := by
  obtain ⟨r, hr, hdecode⟩ := (storedZone_eq_some_iff V).1 hz
  obtain ⟨hmem, _⟩ := KeyedTable.find?_eq_some_iff.1 hr
  have hrow := h.inStep r hmem
  obtain ⟨z', hdecode', hdescribes⟩ := hrow.zone
  rw [hdecode] at hdecode'
  cases hdecode'
  calc V.seqOr0 z.records
      = r.offchainSeq := hdescribes.offchainSeq.symm
    _ ≤ maxSeq r.updatedAt := hrow.offchainSeq_le
    _ ≤ maxSeq now := maxSeq_mono (h.updatedAt_le r hmem)

/-- A row written for an accepted record is in step. -/
theorem inStep_of_rowOf
    (hV : V.Lawful)
    {now : Nat}
    {db : Tables}
    (hdb : RowsInStep V now db)
    {u : HandleRecord}
    (hu : Derived V u)
    (haccepts : accepts V now (storedZone V db u.handle) u = true)
    {e : Prepared}
    (he : prepare V u = .ok e)
    {r : Row}
    (hr : RowOf V now db (entryFor V (storedZone V db u.handle) e u) r) :
    r.InStep V := by
  have htimely := accepts_timely haccepts
  have hdelegate : r.delegateOffchainSeq = u.delegateOffchainSeq := by
    obtain ⟨_, _, _, _, _, _, rfl⟩ := (prepare_eq_ok_iff V).1 he
    rw [hr.delegateOffchainSeq, entryFor_delegateOffchainSeq]
  constructor
  · obtain ⟨z, hz, hdescribes⟩ :=
      describes_entryFor (storedZone V db u.handle) he hu
    refine ⟨z, ?_, ?_⟩
    · rw [hr.zoneData]
      exact hV.zone_decode hz
    · rw [hr.offchainSeq, hr.delegateOffchainSeq]
      exact hdescribes
  · rw [hr.zoneHash, hr.zoneData]
  · obtain ⟨cert, _, hsubject, hspace⟩ := (encodes_of_rowOf V hdb.encoded he hr).cert
    have hname : cert.subject = ⟨r.handle⟩ := SName.ext hsubject
    rw [← hname]
    exact hspace
  · rw [hr.updatedAt, hr.offchainSeq]
    rcases offchainSeq_entryFor (storedZone V db u.handle) he with hown | ⟨z, hz, hkept⟩
    · rw [hown]
      exact htimely.1
    · rw [hkept]
      exact hdb.storedSeq_le hz
  · rw [hr.updatedAt, hdelegate]
    exact htimely.2

/-- **One call keeps the rows in step with their blobs.** -/
theorem inStep_updateHandles
    (hV : V.Lawful)
    {now : Nat}
    {db db' : Tables}
    (hdb : RowsInStep V now db)
    {updates : List HandleRecord}
    (hupdates : ∀ u ∈ updates, Derived V u)
    {res : BulkStoreResult}
    (h : updateHandles V now db updates = .ok (db', res)) :
    RowsInStep V now db' := by
  refine ⟨rowsEncoded_updateHandles V hdb.encoded h, ?_, ?_⟩
  · exact forall_rows_updateHandles V h hdb.inStep (fun u hu haccepts _ he _ hr =>
      inStep_of_rowOf hV hdb (hupdates u hu) haccepts he hr)
  · exact forall_rows_updateHandles V h hdb.updatedAt_le (fun _ _ _ _ _ _ hr =>
      hr.updatedAt.le)

end Rows

section Runs

variable {V : Crates}

/-- The clock that a call reads when it writes handles. -/
def StoreCall.writeTime : StoreCall → Option Nat
  | .updateHandles now _ => some now
  | _ => none

/-- The clock of the last write of a run, 0 before the first. -/
def lastWrite (calls : List StoreCall) : Nat :=
  ((calls.filterMap StoreCall.writeTime).getLast?).getD 0

/-- The clock does not go back. -/
def ClockAscends (calls : List StoreCall) : Prop :=
  (calls.filterMap StoreCall.writeTime).Pairwise (· ≤ ·)

theorem filterMap_writeTime_concat
    (calls : List StoreCall)
    (call : StoreCall) :
    (calls ++ [call]).filterMap StoreCall.writeTime =
      calls.filterMap StoreCall.writeTime ++ call.writeTime.toList :=
  filterMap_concat StoreCall.writeTime calls call

theorem lastWrite_le
    {calls : List StoreCall}
    {call : StoreCall}
    (h : ClockAscends (calls ++ [call])) :
    lastWrite calls ≤ lastWrite (calls ++ [call]) := by
  unfold ClockAscends at h
  unfold lastWrite
  rw [filterMap_writeTime_concat] at h ⊢
  cases htime : call.writeTime with
  | none =>
      simp
  | some now =>
      rw [htime] at h
      cases hlast : (calls.filterMap StoreCall.writeTime).getLast? with
      | none =>
          simp
      | some before =>
          have hle := (List.pairwise_append.1 h).2.2 before (List.mem_of_getLast? hlast) now
            (by simp)
          simpa using hle

/-- **In every state of a run the columns of a row match its blobs**, and neither of its
sequence numbers is more than six hours ahead of the clock of its write. -/
theorem rows_match_blobs
    (hV : V.Lawful)
    {calls : List StoreCall}
    (hbrings : ∀ c ∈ calls, c.Brings (Derived V))
    (hclock : ClockAscends calls) :
    ∀ r ∈ (runCalls V Tables.init calls).handles.rows,
      r.InStep V ∧ r.updatedAt ≤ lastWrite calls := by
  suffices h : RowsInStep V (lastWrite calls) (runCalls V Tables.init calls) from
    fun r hr => ⟨h.inStep r hr, h.updatedAt_le r hr⟩
  induction calls using List.reverseRecOn with
  | nil =>
      refine ⟨rowsEncoded_init V, ?_, ?_⟩
      · intro r hr
        cases hr
      · intro r hr
        cases hr
  | append_singleton calls call ih =>
      have hbefore := ih (fun c hc => hbrings c (List.mem_append_left _ hc))
        (hclock.sublist ((List.sublist_append_left calls [call]).filterMap _))
      have hmono := hbefore.mono (lastWrite_le hclock)
      rw [runCalls_append]
      show RowsInStep V _ (runCall V (runCalls V Tables.init calls) call)
      rcases runCall_cases V (runCalls V Tables.init calls) call with
        hsame | ⟨handles, mid, _, hsame, heq⟩ | ⟨now, updates, res, rfl, hok⟩
      · refine ⟨rowsEncoded_runCall V hbefore.encoded call, ?_, ?_⟩
        · rw [hsame.handles]
          exact hmono.inStep
        · rw [hsame.handles]
          exact hmono.updatedAt_le
      · have hsub : ∀ r ∈ (runCall V (runCalls V Tables.init calls) call).handles.rows,
            r ∈ (runCalls V Tables.init calls).handles.rows := by
          intro r hr
          rw [heq, mem_foldl_deleteRow, hsame.handles] at hr
          exact hr.1
        exact ⟨rowsEncoded_runCall V hbefore.encoded call,
          fun r hr => hmono.inStep r (hsub r hr),
          fun r hr => hmono.updatedAt_le r (hsub r hr)⟩
      · have hnow : lastWrite (calls ++ [.updateHandles now updates]) = now := by
          unfold lastWrite
          rw [filterMap_writeTime_concat]
          simp [StoreCall.writeTime]
        rw [hnow] at hmono ⊢
        exact inStep_updateHandles hV hmono
          (hbrings (.updateHandles now updates) (by simp)) hok

/-- A fresher proof with older records: the row has the new proof, the kept records and
their sequence. -/
theorem rows_match_blobs_sample :
    let V := Crates.ofTables [sampleCert] [sampleZone 5 1 0 0, sampleZone 3 2 0 0]
    let calls : List StoreCall :=
      [.updateHandles 0 [sampleRecord (sampleZone 5 1 0 0)],
        .updateHandles 1 [sampleRecord (sampleZone 3 2 0 0)]]
    (∃ r, (runCalls V Tables.init calls).handles.rows = [r] ∧ r.offchainSeq = 5 ∧
        V.zoneFromSlice r.zoneData = .ok (sampleZone 5 2 0 0)) ∧
      ∀ r ∈ (runCalls V Tables.init calls).handles.rows,
        r.InStep V ∧ r.updatedAt ≤ lastWrite calls := by
  intro V calls
  refine ⟨⟨_, rfl, by decide, by decide⟩, ?_⟩
  apply rows_match_blobs (Crates.ofTables_lawful (by decide) (by decide))
  · intro c hc
    rcases List.mem_cons.1 hc with rfl | hc
    · intro u hu
      rw [List.mem_singleton.1 hu]
      exact ⟨by decide, by decide⟩
    · rw [List.mem_singleton.1 hc]
      intro u hu
      rw [List.mem_singleton.1 hu]
      exact ⟨by decide, by decide⟩
  · unfold ClockAscends
    decide

end Runs

end CertRelay
