import CertRelay.Relay.Deliveries
import CertRelay.Lib.Runs

/-!
# Receipt preservation

A root certificate re-sent for a commitment often omits its ZK receipt.  The
store then keeps the certificate it has, by a subquery in the bulk insert, while
the zone of the row is replaced.

**Results.**
* `storedCert_updateHandles`: which certificate a call leaves under a handle;
* `receipts_preserved`: a stored root receipt survives calls and runs in which
  the commitment root of the zone does not change.
-/

namespace CertRelay

section StoredCert

variable (V : Crates)

/-- The certificate stored under a handle. -/
def storedCert (db : Tables) (handle : String) : Option Certificate :=
  (db.handles.find? handle).bind fun r => (V.certFromSlice r.certData).toOption

/-- The stored certificate is kept for this accepted update. -/
def certKept (existing : Option Zone) (u : HandleRecord) : Bool :=
  match existing with
  | none => false
  | some z => keepsCert u z

variable {V}

theorem preserveCert_entryFor
    {existing : Option Zone}
    {u : HandleRecord}
    {e : Prepared}
    (he : prepare V u = .ok e) :
    (entryFor V existing e u).preserveCert = certKept existing u := by
  obtain ⟨_, _, _, _, _, _, rfl⟩ := (prepare_eq_ok_iff V).1 he
  cases existing with
  | none =>
      rfl
  | some z =>
      rfl

theorem storedCert_of_row
    {db : Tables}
    {handle : String}
    {r : Row}
    (hfind : db.handles.find? handle = some r) :
    storedCert V db handle = (V.certFromSlice r.certData).toOption := by
  unfold storedCert
  rw [hfind, Option.bind_some]

/-- **Which certificate a call leaves under a handle.** -/
theorem storedCert_updateHandles
    (hV : V.Lawful)
    {now : Nat}
    {db db' : Tables}
    {updates : List HandleRecord}
    {res : BulkStoreResult}
    (h : updateHandles V now db updates = .ok (db', res))
    (handle : String) :
    storedCert V db' handle =
      match lastAccepted V now db handle updates with
      | none => storedCert V db handle
      | some u =>
          if certKept (storedZone V db handle) u then storedCert V db handle
          else some u.cert := by
  have hrow := updateHandles_find? V h handle
  cases hlast : lastAccepted V now db handle updates with
  | none =>
      rw [hlast] at hrow
      unfold storedCert
      rw [hrow]
  | some u =>
      rw [hlast] at hrow
      obtain ⟨r, hfind, ⟨e, he, hr⟩, _, _⟩ := hrow
      obtain ⟨_, rfl, _⟩ := lastAccepted_mem hlast
      have hkeep : (entryFor V (storedZone V db u.handle) e u).preserveCert =
          certKept (storedZone V db u.handle) u :=
        preserveCert_entryFor he
      rw [storedCert_of_row hfind]
      cases hk : certKept (storedZone V db u.handle) u with
      | true =>
          obtain ⟨old, hold, hdata⟩ := hr.keptCert (hkeep.trans hk)
          rw [entryFor_handle, prepare_handle V he] at hold
          rw [hdata, ← storedCert_of_row hold]
          exact (if_pos hk).symm
      | false =>
          obtain ⟨_, certData, _, _, hcert, _, rfl⟩ := (prepare_eq_ok_iff V).1 he
          rw [hr.freshCert (hkeep.trans hk), entryFor_certData, hV.cert_decode hcert]
          exact (if_neg (by rw [hk]; decide)).symm

end StoredCert

section Receipts

variable {V : Crates}

/-- The space column of a row is the space of its handle. -/
theorem Row.Encodes.space_eq
    {r : Row}
    (h : r.Encodes V) :
    V.space ⟨r.handle⟩ = some r.space := by
  obtain ⟨cert, _, hsubject, hspace⟩ := h.cert
  have hname : (⟨r.handle⟩ : SName) = cert.subject :=
    SName.ext hsubject.symm
  rw [hname, hspace]

/-- The certificate of a record for a root handle carries a root witness. -/
def RootWitnessed (V : Crates) (u : HandleRecord) : Prop :=
  V.space u.cert.subject = some u.handle → ∃ receipt, u.cert.witness = .root receipt

/-- The root handle's certificate is stored and holds a receipt. -/
def HoldsReceipt (V : Crates) (root : String) (db : Tables) : Prop :=
  ∃ c, storedCert V db root = some c ∧ c.hasReceipt = true

/-- A certificate that is not kept although the roots agree brings its own
receipt, since the update carries a root witness. -/
theorem hasReceipt_of_not_kept
    {u : HandleRecord}
    {z : Zone}
    (hwitness : ∃ receipt, u.cert.witness = .root receipt)
    (hroot : sameCommitmentRoot u.zone z = true)
    (hkeep : keepsCert u z = false) :
    u.cert.hasReceipt = true := by
  obtain ⟨receipt, hw⟩ := hwitness
  unfold keepsCert at hkeep
  rw [hroot, Bool.and_true, hw] at hkeep
  unfold Certificate.hasReceipt
  rw [hw]
  cases receipt with
  | none =>
      simp at hkeep
  | some _ =>
      rfl

theorem sameCommitmentRoot_storedAs
    (existing : Option Zone)
    (update z : Zone) :
    sameCommitmentRoot (storedAs V existing update) z = sameCommitmentRoot update z := by
  unfold sameCommitmentRoot
  rw [storedAs_commitment]

theorem holdsReceipt_updateHandles
    (hV : V.Lawful)
    {now : Nat}
    {db db' : Tables}
    (hdb : RowsEncoded V db)
    {updates : List HandleRecord}
    (hupdates : ∀ u ∈ updates, RootWitnessed V u)
    {res : BulkStoreResult}
    (h : updateHandles V now db updates = .ok (db', res))
    {root : String}
    (hname : V.space ⟨root⟩ = some root)
    (hreceipt : HoldsReceipt V root db)
    (hsame : ∀ z z', storedZone V db root = some z → storedZone V db' root = some z' →
      sameCommitmentRoot z' z = true) :
    HoldsReceipt V root db' := by
  obtain ⟨c, hc, hhas⟩ := hreceipt
  have hcert := storedCert_updateHandles hV h root
  have hzone := storedZone_updateHandles hV hdb h root
  cases hlast : lastAccepted V now db root updates with
  | none =>
      rw [hlast] at hcert
      exact ⟨c, hcert.trans hc, hhas⟩
  | some u =>
      rw [hlast] at hcert hzone
      obtain ⟨hmem, rfl, _⟩ := lastAccepted_mem hlast
      -- the certificate was stored with a row, and the row has a zone
      obtain ⟨r, hfind, _⟩ := Option.bind_eq_some_iff.1 hc
      obtain ⟨z, hz⟩ := storedZone_isSome hV hdb hfind
      have hroot := hsame z _ hz hzone
      rw [sameCommitmentRoot_storedAs] at hroot
      rw [hz] at hcert
      cases hkeep : keepsCert u z with
      | true =>
          refine ⟨c, ?_, hhas⟩
          rw [hcert, ← hc]
          exact if_pos hkeep
      | false =>
          refine ⟨u.cert, ?_, hasReceipt_of_not_kept (hupdates u hmem hname) hroot hkeep⟩
          rw [hcert]
          simp [certKept, hkeep]

/-- A step that does not delete a root, brings root witnesses for roots, and
leaves the commitment root of the stored zone. -/
structure KeepsCommitmentRoot (V : Crates) (root : String) (db : Tables) (call : StoreCall) :
    Prop where
  spares : call.Spares root
  brings : call.Brings (RootWitnessed V)
  sameRoot : ∀ z z', storedZone V db root = some z →
    storedZone V (runCall V db call) root = some z' → sameCommitmentRoot z' z = true

theorem holdsReceipt_runCall
    (hV : V.Lawful)
    {root : String}
    (hname : V.space ⟨root⟩ = some root)
    (db : Tables)
    (call : StoreCall)
    (hdb : RowsEncoded V db ∧ HoldsReceipt V root db)
    (hcall : KeepsCommitmentRoot V root db call) :
    RowsEncoded V (runCall V db call) ∧ HoldsReceipt V root (runCall V db call) := by
  refine ⟨rowsEncoded_runCall V hdb.1 call, ?_⟩
  rcases runCall_cases V db call with hsame | ⟨handles, _, rfl, _, _⟩ |
    ⟨now, updates, res, rfl, hok⟩
  · obtain ⟨c, hc, hhas⟩ := hdb.2
    refine ⟨c, ?_, hhas⟩
    unfold storedCert at hc ⊢
    rw [hsame.handles, hc]
  · obtain ⟨c, hc, hhas⟩ := hdb.2
    have hfind := find?_deleteHandles V db handles root
    rw [if_neg hcall.spares] at hfind
    refine ⟨c, ?_, hhas⟩
    unfold storedCert at hc ⊢
    show ((deleteHandles V db handles).1.handles.find? root).bind _ = _
    rw [hfind, hc]
  · exact holdsReceipt_updateHandles hV hdb.1 hcall.brings hok hname hdb.2 hcall.sameRoot

/-- **Receipts are preserved.**  A root receipt survives every call after which
the zone has the same commitment root, and every run without deletion of the
root in which the commitment root does not change. -/
theorem receipts_preserved
    (hV : V.Lawful)
    {db : Tables}
    (hdb : Reachable V db)
    {root : String}
    {r : Row}
    (hr : db.handles.find? root = some r)
    (hroot : r.IsRoot)
    (hreceipt : HoldsReceipt V root db) :
    (∀ now updates db' res, (∀ u ∈ updates, RootWitnessed V u) →
      updateHandles V now db updates = .ok (db', res) →
      (∀ z z', storedZone V db root = some z → storedZone V db' root = some z' →
        sameCommitmentRoot z' z = true) →
      HoldsReceipt V root db') ∧
    (∀ calls, Runs.StepsMeet (runCall V) (KeepsCommitmentRoot V root) db calls →
      HoldsReceipt V root (runCalls V db calls)) := by
  have henc := reachable_rowsEncoded V hdb
  have hname : V.space ⟨root⟩ = some root := by
    obtain ⟨hmem, rfl⟩ := KeyedTable.find?_eq_some_iff.1 hr
    rw [(henc r hmem).space_eq, ← hroot]
  constructor
  · intro now updates db' res hupdates hok hsame
    exact holdsReceipt_updateHandles hV henc hupdates hok hname hreceipt hsame
  · intro calls hcalls
    exact (hcalls.invariant (holdsReceipt_runCall hV hname) ⟨henc, hreceipt⟩).2

/-- A root record re-sent without its receipt leaves the stored receipt. -/
theorem receipts_preserved_sample :
    let root : SName := ⟨"@bitcoin"⟩
    let full : HandleRecord :=
      ⟨⟨0, root, .root (some [7])⟩, { sampleZone 1 1 1 0 with canonical := root }, 1, 1, 0⟩
    let resent : HandleRecord :=
      ⟨⟨0, root, .root none⟩, { sampleZone 1 2 1 0 with canonical := root }, 1, 1, 0⟩
    let V := Crates.ofTables [full.cert, resent.cert] [full.zone, resent.zone]
    let db := runCalls V Tables.init [.updateHandles 0 [full]]
    HoldsReceipt V "@bitcoin" (deliver V 0 db [resent]) := by
  intro root full resent V db
  have hV : V.Lawful := Crates.ofTables_lawful (by decide) (by decide)
  have hdb : Reachable V db := ⟨_, rfl⟩
  have hr : db.handles.find? "@bitcoin" =
      some ⟨"@bitcoin", "@bitcoin", [0], [0], 1, 1, 0, 1, [0], 0, by decide⟩ := by
    decide
  have hreceipt : HoldsReceipt V "@bitcoin" db := ⟨full.cert, by decide, rfl⟩
  refine (receipts_preserved hV hdb hr (by decide) hreceipt).1 0 [resent] _ _ ?_ rfl ?_
  · intro u hu _
    rw [List.mem_singleton.1 hu]
    exact ⟨none, rfl⟩
  · intro z z' hz hz'
    have hstored : storedZone V db "@bitcoin" = some full.zone := by
      decide
    have hstored' : storedZone V (deliver V 0 db [resent]) "@bitcoin" = some resent.zone := by
      decide
    rw [hstored] at hz
    cases hz
    have hz'' := hstored'.symm.trans hz'
    cases hz''
    rfl

end Receipts

end CertRelay
