import CertRelay.Relay.UpdateHandles

/-!
# The calls that write the store, and runs of them

`deleteHandles` is the eviction path (`tryDeleteHandles` with SQLite's refusals);
`setRevs`, `setAddrs` and `setWatermark` write the side tables.  A `StoreCall` is
one call of any of these or of `updateHandles`, a run is a list of calls, and a
state is reachable when some run leads to it from the fresh schema.

**Results.**
* `runCall_cases`: a call leaves the handle rows and their accounting alone, or
  deletes rows, or is a successful `updateHandles`;
* `forall_rows_runCall`: what holds of every row stays so if it holds of the rows
  that a call inserts;
* `reachable_rowsEncoded`: in a reachable state every row holds encodings of a
  certificate of its handle and of a zone, so the store can read all it wrote;
* `updateHandles_withSideTables`: `updateHandles` does not read the side tables;
* `Reachable.tryDeliver`, `Reachable.afterDelete`: a call that SQLite refuses reaches
  no other state.
-/

namespace CertRelay

section Calls

variable (V : Crates)

/-- The reverse row that a zone claims: its number id and the name of its Sig. -/
def reverseOf (zone : Zone) : Option (String × String) :=
  match V.recordsSig zone.records, zone.numId with
  | some sig, some numId =>
      if sig.flags &&& V.sigPrimaryZone = V.sigPrimaryZone then
        some (numId, sig.handle.text)
      else none
  | _, _ => none

/-- Delete the reverse row of one victim, if its zone is readable and has one. -/
def dropReverse (db : Tables) (victim : Row) : Tables :=
  match V.zoneFromSlice victim.zoneData with
  | .error _ => db
  | .ok zone =>
      match reverseOf V zone with
      | none => db
      | some (numId, name) =>
          { db with
            reverse := db.reverse.filter
              (fun r => !(decide (r.numId = numId) && decide (r.name = name))) }

/-- The rows that `delete_handles` selects. -/
def victims (db : Tables) (handles : List String) : List Row :=
  db.handles.rows.filter (fun r => decide (r.handle ∈ handles))

/-- `SqliteStore::delete_handles`, with the number of deleted rows, where SQLite takes its
statements. -/
def deleteHandles (db : Tables) (handles : List String) : Tables × Nat :=
  if handles.isEmpty then (db, 0)
  else
    let rows := victims db handles
    let db := rows.foldl (dropReverse V) db
    let db := { db with addrs := db.addrs.filter (fun a => decide (a.handle ∉ handles)) }
    (rows.foldl Tables.deleteRow db, rows.length)

/-- `SqliteStore::delete_handles`: each statement binds one variable a listed handle. -/
def tryDeleteHandles (db : Tables) (handles : List String) : Except String (Tables × Nat) := do
  bindVariables handles.length
  .ok (deleteHandles V db handles)

/-- The tables after a call of `tryDeleteHandles`. -/
def afterDelete (db : Tables) (handles : List String) : Tables :=
  match tryDeleteHandles V db handles with
  | .ok (db', _) => db'
  | .error _ => db

/-- `SqliteStore::set_revs`. -/
def setRevs (now : Nat) (db : Tables) (entries : List (String × String)) : Tables :=
  { db with
    reverse := entries.foldl
      (fun t (numId, name) => t.insertOrReplace ⟨numId, name, now⟩) db.reverse }

/-- `SqliteStore::set_addrs`. -/
def setAddrs (now : Nat) (db : Tables) (handle rev : String)
    (entries : List (String × String)) : Tables :=
  { db with
    addrs := db.addrs.filter (fun a => decide (a.handle ≠ handle)) ++
      entries.map (fun (name, addr) => ⟨name, addr, handle, rev, now⟩) }

/-- `SqliteStore::get_watermark`. -/
def getWatermark (db : Tables) (peerUrl : String) : Option String :=
  (db.syncWatermarks.find? peerUrl).map WatermarkRow.cursor

/-- `SqliteStore::set_watermark`. -/
def setWatermark (now : Nat) (db : Tables) (peerUrl cursor : String) : Tables :=
  { db with syncWatermarks := db.syncWatermarks.insertOrReplace ⟨peerUrl, cursor, now⟩ }

theorem getWatermark_setWatermark
    (now : Nat)
    (db : Tables)
    (peerUrl cursor : String) :
    getWatermark (setWatermark now db peerUrl cursor) peerUrl = some cursor := by
  have hfind := db.syncWatermarks.find?_insertOrReplace_self ⟨peerUrl, cursor, now⟩
  unfold getWatermark setWatermark
  rw [hfind]
  rfl

/-- One call that writes the store; `now` is the clock it reads. -/
inductive StoreCall
  | updateHandles (now : Nat) (updates : List HandleRecord)
  | deleteHandles (handles : List String)
  | setRevs (now : Nat) (entries : List (String × String))
  | setAddrs (now : Nat) (handle rev : String) (entries : List (String × String))
  | setWatermark (now : Nat) (peerUrl cursor : String)

/-- The tables after a call. -/
def runCall (db : Tables) : StoreCall → Tables
  | .updateHandles now updates => deliver V now db updates
  | .deleteHandles handles => (deleteHandles V db handles).1
  | .setRevs now entries => setRevs now db entries
  | .setAddrs now handle rev entries => setAddrs now db handle rev entries
  | .setWatermark now peerUrl cursor => setWatermark now db peerUrl cursor

/-- The tables after a run. -/
def runCalls (db : Tables) (calls : List StoreCall) : Tables :=
  calls.foldl (runCall V) db

theorem runCalls_append
    (db : Tables)
    (calls more : List StoreCall) :
    runCalls V db (calls ++ more) = runCalls V (runCalls V db calls) more :=
  List.foldl_append

/-- The call does not delete the row of a handle. -/
def StoreCall.Spares (handle : String) : StoreCall → Prop
  | .deleteHandles handles => handle ∉ handles
  | _ => True

/-- The records a call brings all satisfy a condition. -/
def StoreCall.Brings (P : HandleRecord → Prop) : StoreCall → Prop
  | .updateHandles _ updates => ∀ u ∈ updates, P u
  | _ => True

/-- A state that some run reaches from the fresh schema. -/
def Reachable (db : Tables) : Prop :=
  ∃ calls, runCalls V Tables.init calls = db

/-- A call that SQLite refuses reaches no other state. -/
theorem Reachable.tryDeliver
    {db : Tables}
    (h : Reachable V db)
    (now : Nat)
    (updates : List HandleRecord) :
    Reachable V (tryDeliver V now db updates) := by
  rcases tryDeliver_eq_or V now db updates with heq | heq
  · obtain ⟨calls, rfl⟩ := h
    exact ⟨calls ++ [.updateHandles now updates], heq ▸ runCalls_append V _ _ _⟩
  · rw [heq]
    exact h

theorem Reachable.afterDelete
    {db : Tables}
    (h : Reachable V db)
    (handles : List String) :
    Reachable V (afterDelete V db handles) := by
  unfold CertRelay.afterDelete tryDeleteHandles
  cases bindVariables handles.length with
  | error e =>
      exact h
  | ok _ =>
      obtain ⟨calls, rfl⟩ := h
      exact ⟨calls ++ [.deleteHandles handles], runCalls_append V _ _ _⟩

/-- A state that a run reaches whose updates all satisfy a condition. -/
def ReachableBy (P : HandleRecord → Prop) (db : Tables) : Prop :=
  ∃ calls, (∀ c ∈ calls, c.Brings P) ∧ runCalls V Tables.init calls = db

theorem ReachableBy.reachable
    {P : HandleRecord → Prop}
    {db : Tables}
    (h : ReachableBy V P db) :
    Reachable V db := by
  obtain ⟨calls, _, hrun⟩ := h
  exact ⟨calls, hrun⟩

theorem Reachable.runCalls
    {db : Tables}
    (h : Reachable V db)
    (calls : List StoreCall) :
    Reachable V (runCalls V db calls) := by
  obtain ⟨before, rfl⟩ := h
  exact ⟨before ++ calls, runCalls_append V Tables.init before calls⟩

end Calls

section Effects

variable (V : Crates)

/-- The handle rows, the write counter and the accounting are the same. -/
structure SameHandles (db db' : Tables) : Prop where
  handles : db'.handles = db.handles
  syncCounter : db'.syncCounter = db.syncCounter
  spaceEpochCounts : db'.spaceEpochCounts = db.spaceEpochCounts
  storageTotals : db'.storageTotals = db.storageTotals

namespace SameHandles

theorem refl (db : Tables) : SameHandles db db :=
  ⟨rfl, rfl, rfl, rfl⟩

theorem symm
    {a b : Tables}
    (h : SameHandles a b) :
    SameHandles b a :=
  ⟨h.handles.symm, h.syncCounter.symm, h.spaceEpochCounts.symm, h.storageTotals.symm⟩

theorem trans
    {a b c : Tables}
    (h₁ : SameHandles a b)
    (h₂ : SameHandles b c) :
    SameHandles a c :=
  ⟨h₂.handles.trans h₁.handles,
    h₂.syncCounter.trans h₁.syncCounter,
    h₂.spaceEpochCounts.trans h₁.spaceEpochCounts,
    h₂.storageTotals.trans h₁.storageTotals⟩

end SameHandles

theorem sameHandles_dropReverse
    (db : Tables)
    (victim : Row) :
    SameHandles db (dropReverse V db victim) := by
  unfold dropReverse
  split
  · exact SameHandles.refl db
  · split
    · exact SameHandles.refl db
    · exact ⟨rfl, rfl, rfl, rfl⟩

theorem sameHandles_foldl_dropReverse
    (rows : List Row)
    (db : Tables) :
    SameHandles db (rows.foldl (dropReverse V) db) := by
  induction rows generalizing db with
  | nil =>
      exact SameHandles.refl db
  | cons r rows ih =>
      exact (sameHandles_dropReverse V db r).trans (ih _)

/-- Deleting rows one by one leaves the rows of other handles. -/
theorem mem_foldl_deleteRow
    {rows : List Row}
    {db : Tables}
    {r : Row} :
    r ∈ (rows.foldl Tables.deleteRow db).handles.rows ↔
      r ∈ db.handles.rows ∧ ∀ v ∈ rows, r.handle ≠ v.handle := by
  induction rows generalizing db with
  | nil =>
      simp
  | cons v rows ih =>
      rw [List.foldl_cons, ih, Tables.handles_deleteRow, KeyedTable.mem_erase]
      simp only [List.mem_cons, forall_eq_or_imp]
      tauto

theorem syncCounter_foldl_deleteRow
    (rows : List Row)
    (db : Tables) :
    (rows.foldl Tables.deleteRow db).syncCounter = db.syncCounter := by
  induction rows generalizing db with
  | nil =>
      rfl
  | cons r rows ih =>
      rw [List.foldl_cons, ih]
      exact (Tables.sameRest_deleteRow db r).syncCounter

/-- What `delete_handles` does to the handle rows: it deletes the selected ones. -/
theorem deleteHandles_cases
    (db : Tables)
    (handles : List String) :
    ∃ mid, SameHandles db mid ∧
      (deleteHandles V db handles).1 =
        (victims mid handles).foldl Tables.deleteRow mid := by
  unfold deleteHandles
  split_ifs with hempty
  · rw [List.isEmpty_iff] at hempty
    subst hempty
    exact ⟨db, SameHandles.refl db, by simp [victims]⟩
  · have hsame := sameHandles_foldl_dropReverse V (victims db handles) db
    let mid : Tables :=
      { (victims db handles).foldl (dropReverse V) db with
        addrs := ((victims db handles).foldl (dropReverse V) db).addrs.filter
          (fun a => decide (a.handle ∉ handles)) }
    have hmid : SameHandles db mid :=
      ⟨hsame.handles, hsame.syncCounter, hsame.spaceEpochCounts, hsame.storageTotals⟩
    have hvictims : victims mid handles = victims db handles := by
      unfold victims
      rw [hmid.handles]
    exact ⟨mid, hmid, by rw [hvictims]⟩

theorem mem_victims
    {db : Tables}
    {handles : List String}
    {r : Row} :
    r ∈ victims db handles ↔ r ∈ db.handles.rows ∧ r.handle ∈ handles := by
  simp [victims]

/-- After `delete_handles` exactly the rows of other handles remain. -/
theorem mem_deleteHandles
    {db : Tables}
    {handles : List String}
    {r : Row} :
    r ∈ (deleteHandles V db handles).1.handles.rows ↔
      r ∈ db.handles.rows ∧ r.handle ∉ handles := by
  obtain ⟨mid, hsame, heq⟩ := deleteHandles_cases V db handles
  rw [heq, mem_foldl_deleteRow, ← hsame.handles]
  constructor
  · rintro ⟨hr, hne⟩
    refine ⟨hr, fun hmem => ?_⟩
    exact hne r (mem_victims.2 ⟨hr, hmem⟩) rfl
  · rintro ⟨hr, hnot⟩
    refine ⟨hr, fun v hv he => ?_⟩
    exact hnot (he ▸ (mem_victims.1 hv).2)

theorem find?_deleteHandles
    (db : Tables)
    (handles : List String)
    (handle : String) :
    (deleteHandles V db handles).1.handles.find? handle =
      if handle ∈ handles then none else db.handles.find? handle := by
  split_ifs with hmem
  · rw [KeyedTable.find?_eq_none_iff]
    intro r hr he
    exact ((mem_deleteHandles V).1 hr).2 (he ▸ hmem)
  · apply KeyedTable.find?_congr
    intro r hr
    rw [mem_deleteHandles, hr]
    simp [hmem]

theorem syncWatermarks_foldl_dropReverse
    (rows : List Row)
    (db : Tables) :
    (rows.foldl (dropReverse V) db).syncWatermarks = db.syncWatermarks := by
  induction rows generalizing db with
  | nil =>
      rfl
  | cons r rows ih =>
      rw [List.foldl_cons, ih]
      unfold dropReverse
      split
      · rfl
      · split <;> rfl

theorem syncWatermarks_foldl_deleteRow
    (rows : List Row)
    (db : Tables) :
    (rows.foldl Tables.deleteRow db).syncWatermarks = db.syncWatermarks := by
  induction rows generalizing db with
  | nil =>
      rfl
  | cons r rows ih =>
      rw [List.foldl_cons, ih]
      exact (Tables.sameRest_deleteRow db r).syncWatermarks

/-- Eviction keeps the watermarks. -/
theorem syncWatermarks_deleteHandles
    (db : Tables)
    (handles : List String) :
    (deleteHandles V db handles).1.syncWatermarks = db.syncWatermarks := by
  unfold deleteHandles
  split_ifs
  · rfl
  · rw [syncWatermarks_foldl_deleteRow]
    exact syncWatermarks_foldl_dropReverse V _ db

/-- Storing handles keeps the watermarks. -/
theorem syncWatermarks_deliver
    (now : Nat)
    (db : Tables)
    (updates : List HandleRecord) :
    (deliver V now db updates).syncWatermarks = db.syncWatermarks := by
  unfold deliver
  cases h : updateHandles V now db updates with
  | error e =>
      rfl
  | ok out =>
      obtain ⟨db', res⟩ := out
      obtain ⟨_, _, rows, _, rfl⟩ := updateHandles_cases V h
      exact (Tables.sameRest_insertRows _ rows).syncWatermarks

/-- **What a call does to the handle rows and their accounting.** -/
theorem runCall_cases
    (db : Tables)
    (call : StoreCall) :
    SameHandles db (runCall V db call) ∨
    (∃ handles mid, call = .deleteHandles handles ∧ SameHandles db mid ∧
      runCall V db call = (victims mid handles).foldl Tables.deleteRow mid) ∨
    (∃ now updates res, call = .updateHandles now updates ∧
      updateHandles V now db updates = .ok (runCall V db call, res)) := by
  cases call with
  | updateHandles now updates =>
      show SameHandles db (deliver V now db updates) ∨ _
      cases h : updateHandles V now db updates with
      | error e =>
          left
          unfold deliver
          rw [h]
          exact SameHandles.refl db
      | ok out =>
          right
          right
          refine ⟨now, updates, out.2, rfl, ?_⟩
          show _ = Except.ok (deliver V now db updates, out.2)
          unfold deliver
          rw [h]
  | deleteHandles handles =>
      obtain ⟨mid, hsame, heq⟩ := deleteHandles_cases V db handles
      exact Or.inr (Or.inl ⟨handles, mid, rfl, hsame, heq⟩)
  | setRevs now entries =>
      exact Or.inl ⟨rfl, rfl, rfl, rfl⟩
  | setAddrs now handle rev entries =>
      exact Or.inl ⟨rfl, rfl, rfl, rfl⟩
  | setWatermark now peerUrl cursor =>
      exact Or.inl ⟨rfl, rfl, rfl, rfl⟩

end Effects

section Frame

variable (V : Crates)

/-- The handles of one store with the side tables of another. -/
def Tables.withSideTables (db rest : Tables) : Tables :=
  { db with
    syncWatermarks := rest.syncWatermarks
    reverse := rest.reverse
    addrs := rest.addrs }

theorem SameHandles.eq_withSideTables
    {db db' : Tables}
    (h : SameHandles db db') :
    db' = db.withSideTables db' := by
  unfold Tables.withSideTables
  rw [← h.handles, ← h.syncCounter, ← h.spaceEpochCounts, ← h.storageTotals]

theorem sameHandles_withSideTables
    (db rest : Tables) :
    SameHandles db (db.withSideTables rest) :=
  ⟨rfl, rfl, rfl, rfl⟩

theorem insertRows_withSideTables
    (rest : Tables)
    (rows : List Row)
    (db : Tables) :
    (db.withSideTables rest).insertRows rows = (db.insertRows rows).withSideTables rest := by
  induction rows generalizing db with
  | nil =>
      rfl
  | cons r rows ih =>
      have hstep : (db.withSideTables rest).insertOrReplaceRow r =
          (db.insertOrReplaceRow r).withSideTables rest := by
        have hfind : (db.withSideTables rest).handles.find? r.handle =
            db.handles.find? r.handle := rfl
        unfold Tables.insertOrReplaceRow Tables.displaceRow
        rw [hfind]
        cases db.handles.find? r.handle <;> rfl
      show ((db.withSideTables rest).insertOrReplaceRow r).insertRows rows = _
      rw [hstep]
      exact ih _

theorem valuesRows_withSideTables
    (now : Nat)
    (db rest : Tables)
    (base : Nat)
    (es : List Prepared) :
    valuesRows V now (db.withSideTables rest) base es = valuesRows V now db base es := by
  induction es generalizing base with
  | nil =>
      rfl
  | cons e es ih =>
      unfold valuesRows
      rw [ih (base + 1)]
      rfl

/-- **`update_handles` reads and writes no side table.** -/
theorem updateHandles_withSideTables
    (now : Nat)
    (db rest : Tables)
    (updates : List HandleRecord) :
    updateHandles V now (db.withSideTables rest) updates =
      (updateHandles V now db updates).map (fun out => (out.1.withSideTables rest, out.2)) := by
  have hzones : ∀ handles, getZonesInner V (db.withSideTables rest) handles =
      getZonesInner V db handles := fun _ => rfl
  have hcounter : (db.withSideTables rest).syncCounter = db.syncCounter := rfl
  unfold updateHandles
  split_ifs
  · rfl
  · simp only [hzones, hcounter, valuesRows_withSideTables]
    cases updates.mapM (prepare V) with
    | error e =>
        rfl
    | ok entries =>
        rw [Fallible.ok_bind, Fallible.ok_bind]
        cases getZonesInner V db (entries.map Prepared.handle) with
        | error e =>
            rfl
        | ok zones =>
            rw [Fallible.ok_bind, Fallible.ok_bind]
            split_ifs
            · rfl
            · cases valuesRows V now db db.syncCounter _ with
              | error e =>
                  rfl
              | ok rows =>
                  rw [Fallible.ok_bind, Fallible.ok_bind]
                  exact congrArg (fun db => Except.ok (db, _))
                    (insertRows_withSideTables rest rows
                      { db with syncCounter := db.syncCounter + _ })

end Frame

section RowsEncoded

variable (V : Crates)

/-- A row holds encodings of a certificate of its handle and of a zone. -/
structure Row.Encodes (r : Row) : Prop where
  cert : ∃ cert, V.certToVec cert = .ok r.certData ∧
    cert.subject.text = r.handle ∧ V.space cert.subject = some r.space
  zone : ∃ zone, V.zoneToVec zone = .ok r.zoneData

/-- Every row holds encodings. -/
def RowsEncoded (db : Tables) : Prop :=
  ∀ r ∈ db.handles.rows, r.Encodes V

/-- What holds of every row stays so if it holds of the rows of accepted records. -/
theorem forall_rows_updateHandles
    {P : Row → Prop}
    {now : Nat}
    {db db' : Tables}
    {updates : List HandleRecord}
    {res : BulkStoreResult}
    (h : updateHandles V now db updates = .ok (db', res))
    (hdb : ∀ r ∈ db.handles.rows, P r)
    (hnew : ∀ u ∈ updates, accepts V now (storedZone V db u.handle) u = true →
      ∀ e, prepare V u = .ok e →
        ∀ r, RowOf V now db (entryFor V (storedZone V db u.handle) e u) r → P r) :
    ∀ r ∈ db'.handles.rows, P r := by
  obtain ⟨_, _, rows, hrows, rfl⟩ := updateHandles_cases V h
  intro r hr
  rcases Tables.mem_insertRows_of hr with hold | hr
  · exact hdb r hold
  · obtain ⟨e', he', hrow⟩ :=
      Fallible.exists_of_forall₂_right (valuesRows_ok V hrows).1 hr
    obtain ⟨u, hu, hsurvivor⟩ := List.mem_filterMap.1 he'
    obtain ⟨haccepts, e, he, rfl⟩ := (survivor_eq_some_iff V).1 hsurvivor
    exact hnew u hu haccepts e he r hrow

/-- What holds of every row stays so over a call if it holds of the rows that it inserts. -/
theorem forall_rows_runCall
    {P : Row → Prop}
    {db : Tables}
    (hdb : ∀ r ∈ db.handles.rows, P r)
    (hnew : ∀ now u e, prepare V u = .ok e →
      ∀ r, RowOf V now db (entryFor V (storedZone V db u.handle) e u) r → P r)
    (call : StoreCall) :
    ∀ r ∈ (runCall V db call).handles.rows, P r := by
  rcases runCall_cases V db call with hsame | ⟨handles, mid, _, hsame, heq⟩ | ⟨now, _, _, _, hok⟩
  · intro r hr
    rw [hsame.handles] at hr
    exact hdb r hr
  · intro r hr
    rw [heq, mem_foldl_deleteRow, hsame.handles] at hr
    exact hdb r hr.1
  · exact forall_rows_updateHandles V hok hdb (fun u _ _ => hnew now u)

theorem mergeRecords_zoneData
    (e : Prepared)
    (update existing : Zone) :
    (mergeRecords V e update existing).zoneData = e.zoneData ∨
      V.zoneToVec (mergedZone V update existing) =
        .ok (mergeRecords V e update existing).zoneData := by
  unfold mergeRecords mergedZone
  split_ifs with h
  · cases hz : V.zoneToVec { update with records := existing.records } with
    | ok bytes =>
        exact Or.inr rfl
    | error _ =>
        exact Or.inl rfl
  · exact Or.inl rfl

/-- The zone blob of an entry encodes a zone. -/
theorem entryFor_zoneData
    (existing : Option Zone)
    {e : Prepared}
    {u : HandleRecord}
    (hzone : V.zoneToVec u.zone = .ok e.zoneData) :
    ∃ zone, V.zoneToVec zone = .ok (entryFor V existing e u).zoneData := by
  cases existing with
  | none =>
      exact ⟨u.zone, hzone⟩
  | some z =>
      rcases mergeRecords_zoneData V e u.zone z with h | h
      · exact ⟨u.zone, hzone.trans (congrArg Except.ok h.symm)⟩
      · exact ⟨_, h⟩

/-- A row inserted for an accepted record holds encodings. -/
theorem encodes_of_rowOf
    {now : Nat}
    {db : Tables}
    (hdb : RowsEncoded V db)
    {existing : Option Zone}
    {u : HandleRecord}
    {e : Prepared}
    (he : prepare V u = .ok e)
    {r : Row}
    (hr : RowOf V now db (entryFor V existing e u) r) :
    r.Encodes V := by
  have hhandle : r.handle = u.handle := by
    rw [hr.handle, entryFor_handle, prepare_handle V he]
  obtain ⟨space, certData, zoneData, hspace, hcert, hzone, rfl⟩ :=
    (prepare_eq_ok_iff V).1 he
  have hrspace : V.space u.cert.subject = some r.space := by
    rw [hr.space, entryFor_space, hspace]
  constructor
  · cases hkeep : (entryFor V existing _ u).preserveCert with
    | false =>
        refine ⟨u.cert, ?_, hhandle.symm, hrspace⟩
        rw [hr.freshCert hkeep, entryFor_certData, hcert]
    | true =>
        obtain ⟨old, hold, hdata⟩ := hr.keptCert hkeep
        rw [entryFor_handle] at hold
        obtain ⟨hmem, holdHandle⟩ := KeyedTable.find?_eq_some_iff.1 hold
        obtain ⟨cert, hc, hsubject, _⟩ := (hdb old hmem).cert
        -- names are determined by their text, so the kept subject is this one
        have hsame : cert.subject = u.cert.subject :=
          SName.ext (hsubject.trans holdHandle)
        exact ⟨cert, by rw [hdata, hc], by rw [hsame, hhandle]; rfl,
          by rw [hsame, hrspace]⟩
  · rw [hr.zoneData]
    exact entryFor_zoneData V existing hzone

theorem rowsEncoded_init : RowsEncoded V Tables.init := by
  intro r hr
  cases hr

theorem rowsEncoded_updateHandles
    {now : Nat}
    {db db' : Tables}
    {updates : List HandleRecord}
    {res : BulkStoreResult}
    (hdb : RowsEncoded V db)
    (h : updateHandles V now db updates = .ok (db', res)) :
    RowsEncoded V db' :=
  forall_rows_updateHandles V h hdb (fun _ _ _ _ he _ hr => encodes_of_rowOf V hdb he hr)

theorem rowsEncoded_runCall
    {db : Tables}
    (hdb : RowsEncoded V db)
    (call : StoreCall) :
    RowsEncoded V (runCall V db call) :=
  forall_rows_runCall V hdb (fun _ _ _ he _ hr => encodes_of_rowOf V hdb he hr) call

/-- Every reachable state can read back all it stored. -/
theorem reachable_rowsEncoded
    {db : Tables}
    (h : Reachable V db) :
    RowsEncoded V db := by
  obtain ⟨calls, rfl⟩ := h
  exact List.foldlRecOn calls (runCall V) (rowsEncoded_init V)
    (fun _ hdb call _ => rowsEncoded_runCall V hdb call)

end RowsEncoded

end CertRelay
