import CertRelay.Relay.RowMetadata
import CertRelay.Relay.PullRound
import CertRelay.Relay.ReverseIndex
import CertRelay.Relay.AddressIndex

/-!
# Where rows come from

Nothing that a peer or a publisher sends is stored for what it says.  In every run, whatever
messages arrive and whatever pages are pulled, each row of the store goes back to messages
that the relay's own verification accepted: a zone up to the owner records, the owner records
to a zone of the same handle and the same key, the certificate to a message with the same
commitment, and the rows of the two indexes to the zone of a certified handle.

**Results.**
* `verified_of_rowOf`: what one accepted update leaves in its row;
* `traced_runEvent`: an event keeps the store traced;
* `ingest_is_events`: a pulled page, whatever is in it, does what some messages do;
* `stored_rows_verified`: so every run leaves a store that is traced.
-/

namespace CertRelay

section Traces

variable (V : Crates)

/-- A verified message has a certificate and a zone for a handle, within the size limit. -/
structure Certifies (res : VerifiedMessage) (handle : String) (cert : Certificate)
    (zone : Zone) : Prop where
  mem : cert ∈ res.certificates
  subject : cert.subject.text = handle
  zoneFor : CertRelay.zoneFor res.zones handle = some zone

/-- The epoch of a space is 0, or the height of its commitment in a root zone. -/
def EpochIn (res : VerifiedMessage) (space : String) (epoch : Nat) : Prop :=
  epoch = 0 ∨ ∃ root ∈ res.zones, root.canonical.text = space ∧
    ∃ c, root.commitment = .exist c ∧ c.onchain.blockHeight = epoch

variable (Vouched : VerifiedMessage → Prop)

/-- A certificate of a handle, verified with a zone of this commitment; where it is not from
the message of the zone itself, the certificate there omits the receipt. -/
def CertVerified (handle : String) (zone : Zone) (issued cert : Certificate) : Prop :=
  issued = cert ∨ issued.witness = .root none ∧ ∃ res zone', Vouched res ∧
    Certifies res handle cert zone' ∧ sameCommitmentRoot zone zone' = true

/-- Owner records of a handle, verified with a zone of this key. -/
def RecordsVerified (handle : String) (zone : Zone) (records : RecordSet) : Prop :=
  ∃ res cert owner, Vouched res ∧ Certifies res handle cert owner ∧
    owner.scriptPubkey = zone.scriptPubkey ∧ owner.records = records

/-- What a row holds was verified. -/
structure Row.Verified (r : Row) : Prop where
  intro ::
  blobs : ∃ res issued zone cert records, Vouched res ∧ Certifies res r.handle issued zone ∧
    EpochIn res r.space r.epochHeight ∧
    CertVerified Vouched r.handle zone issued cert ∧ V.certToVec cert = .ok r.certData ∧
    RecordsVerified Vouched r.handle zone records ∧
    V.zoneToVec { zone with records := records } = .ok r.zoneData

/-- Every row of the three tables goes back to verified messages. -/
structure Traced (db : Tables) : Prop where
  handles : ∀ r ∈ db.handles.rows, r.Verified V Vouched
  reverse : ∀ r ∈ db.reverse.rows, ∃ res handle cert zone, Vouched res ∧
    Certifies res handle cert zone ∧ reverseOf V zone = some (r.numId, r.name)
  addrs : ∀ a ∈ db.addrs, ∃ res cert zone, Vouched res ∧ Certifies res a.handle cert zone ∧
    ∃ entries, addrEntry V zone = some (a.rev, entries) ∧ (a.name, a.addr) ∈ entries

variable {V Vouched} {Vouched' : VerifiedMessage → Prop}

theorem Row.Verified.mono
    {r : Row}
    (h : r.Verified V Vouched)
    (hmono : ∀ res, Vouched res → Vouched' res) :
    r.Verified V Vouched' := by
  obtain ⟨res, issued, zone, cert, records, hres, hcertifies, hepoch, hcert, hcertData,
    ⟨res', cert', owner, hres', howner⟩, hzoneData⟩ := h
  refine ⟨res, issued, zone, cert, records, hmono res hres, hcertifies, hepoch, ?_, hcertData,
    ⟨res', cert', owner, hmono res' hres', howner⟩, hzoneData⟩
  rcases hcert with hown | ⟨homits, res'', zone'', hres'', hkept⟩
  · exact .inl hown
  · exact .inr ⟨homits, res'', zone'', hmono res'' hres'', hkept⟩

theorem Traced.mono
    {db : Tables}
    (h : Traced V Vouched db)
    (hmono : ∀ res, Vouched res → Vouched' res) :
    Traced V Vouched' db := by
  constructor
  · exact fun r hr => (h.handles r hr).mono hmono
  · intro r hr
    obtain ⟨res, handle, cert, zone, hres, hrest⟩ := h.reverse r hr
    exact ⟨res, handle, cert, zone, hmono res hres, hrest⟩
  · intro a ha
    obtain ⟨res, cert, zone, hres, hrest⟩ := h.addrs a ha
    exact ⟨res, cert, zone, hmono res hres, hrest⟩

theorem traced_init : Traced V Vouched Tables.init := by
  constructor
  · intro r hr
    cases hr
  · intro r hr
    cases hr
  · intro a ha
    cases ha

/-- Having the same commitment root is transitive. -/
theorem sameCommitmentRoot_trans
    {a b c : Zone}
    (hab : sameCommitmentRoot a b = true)
    (hbc : sameCommitmentRoot b c = true) :
    sameCommitmentRoot a c = true := by
  unfold sameCommitmentRoot at hab hbc ⊢
  cases ha : a.commitment <;> cases hb : b.commitment <;> cases hc : c.commitment <;>
    simp_all

end Traces

section Rows

variable {V : Crates} {Vouched : VerifiedMessage → Prop}

/-- The zone of a verified row, as it is read back. -/
theorem Row.Verified.storedZone
    (hV : V.Lawful)
    {r : Row}
    (h : r.Verified V Vouched)
    {db : Tables}
    {handle : String}
    (hfind : db.handles.find? handle = some r) :
    ∃ res issued zone cert records, Vouched res ∧ Certifies res handle issued zone ∧
      CertVerified Vouched handle zone issued cert ∧ V.certToVec cert = .ok r.certData ∧
      RecordsVerified Vouched handle zone records ∧
      CertRelay.storedZone V db handle = some { zone with records := records } := by
  obtain ⟨hmem, rfl⟩ := KeyedTable.find?_eq_some_iff.1 hfind
  obtain ⟨res, issued, zone, cert, records, hres, hcertifies, _, hcert, hcertData, hrecords,
    hzoneData⟩ := h
  exact ⟨res, issued, zone, cert, records, hres, hcertifies, hcert, hcertData, hrecords,
    storedZone_eq_some_of_encodes hV (KeyedTable.find?_key hmem) hzoneData⟩

/-- The records that an entry stores were verified for its key. -/
theorem recordsVerified_entryFor
    {res : VerifiedMessage}
    (hres : Vouched res)
    {u : HandleRecord}
    (hu : Certifies res u.handle u.cert u.zone)
    {existing : Option Zone}
    (hexisting : ∀ z, existing = some z → RecordsVerified Vouched u.handle z z.records)
    {e : Prepared}
    (he : V.zoneToVec u.zone = .ok e.zoneData) :
    ∃ records, RecordsVerified Vouched u.handle u.zone records ∧
      V.zoneToVec { u.zone with records := records } = .ok (entryFor V existing e u).zoneData := by
  have hown : RecordsVerified Vouched u.handle u.zone u.zone.records :=
    ⟨res, u.cert, u.zone, hres, hu, rfl, rfl⟩
  cases existing with
  | none =>
      exact ⟨u.zone.records, hown, he⟩
  | some z =>
      by_cases hkeep : keepsRecords V u.zone z = true
      · rcases mergeRecords_zoneData V e u.zone z with hsame | hmerged
        · exact ⟨u.zone.records, hown, he.trans (congrArg Except.ok hsame.symm)⟩
        · obtain ⟨res', cert, owner, hres', hcertifies, hkey, hrecords⟩ := hexisting z rfl
          have hkey' := ((keepsRecords_iff V).1 hkeep).1
          rw [mergedZone, if_pos hkeep] at hmerged
          exact ⟨z.records,
            ⟨res', cert, owner, hres', hcertifies, hkey.trans hkey'.symm, hrecords⟩, hmerged⟩
      · refine ⟨u.zone.records, hown, ?_⟩
        show V.zoneToVec u.zone = .ok (mergeRecords V e u.zone z).zoneData
        rw [mergeRecords, if_neg hkeep]
        exact he

/-- **What one accepted update leaves in its row** was verified, if it comes from a verified
message and the rows before it were. -/
theorem verified_of_rowOf
    (hV : V.Lawful)
    {db : Tables}
    (hdb : ∀ r ∈ db.handles.rows, r.Verified V Vouched)
    {res : VerifiedMessage}
    (hres : Vouched res)
    {u : HandleRecord}
    (hu : Certifies res u.handle u.cert u.zone)
    (hepoch : ∀ space, V.space u.cert.subject = some space → EpochIn res space u.epochHeight)
    {now : Nat}
    {e : Prepared}
    (he : prepare V u = .ok e)
    {r : Row}
    (hr : RowOf V now db (entryFor V (storedZone V db u.handle) e u) r) :
    r.Verified V Vouched := by
  have hhandle : r.handle = u.handle := by
    rw [hr.handle, entryFor_handle, prepare_handle V he]
  obtain ⟨space, certData, zoneData, hspace, hcert, hzone, rfl⟩ := (prepare_eq_ok_iff V).1 he
  have hrspace : r.space = space := by
    rw [hr.space, entryFor_space]
  have hrepoch : r.epochHeight = u.epochHeight := by
    rw [hr.epochHeight]
    obtain ⟨_, _, _, hentry⟩ := entryFor_eq V (storedZone V db u.handle) _ u
    rw [hentry]
  have hstored : ∀ z, storedZone V db u.handle = some z →
      RecordsVerified Vouched u.handle z z.records := by
    intro z hz
    obtain ⟨old, hfind, _⟩ := (storedZone_eq_some_iff V).1 hz
    obtain ⟨_, _, zone, _, records, _, _, _, _, hrecords, hold⟩ :=
      (hdb old (KeyedTable.find?_eq_some_iff.1 hfind).1).storedZone hV hfind
    rw [hz, Option.some.injEq] at hold
    rw [hold]
    exact hrecords
  obtain ⟨records, hrecords, hzoneData⟩ := recordsVerified_entryFor (e := ⟨u.handle, space,
    certData, zoneData, u.epochHeight, u.offchainSeq, u.delegateOffchainSeq, false⟩) hres hu
    hstored hzone
  rw [← hr.zoneData] at hzoneData
  rw [← hhandle] at hrecords hu
  have hfresh : ∀ cert, CertVerified Vouched r.handle u.zone u.cert cert →
      V.certToVec cert = .ok r.certData → r.Verified V Vouched := by
    intro cert hverified hcertData
    refine ⟨res, u.cert, u.zone, cert, records, hres, hu, ?_, hverified, hcertData, hrecords,
      hzoneData⟩
    rw [hrspace, hrepoch]
    exact hepoch space hspace
  cases hkeep : (entryFor V (storedZone V db u.handle)
      ⟨u.handle, space, certData, zoneData, u.epochHeight, u.offchainSeq, u.delegateOffchainSeq,
        false⟩ u).preserveCert with
  | false =>
      refine hfresh u.cert (.inl rfl) ?_
      rw [hr.freshCert hkeep, entryFor_certData, hcert]
  | true =>
      -- the certificate of the old row stays, with the zone that it was verified with
      obtain ⟨old, hfind, hcertData⟩ := hr.keptCert hkeep
      rw [entryFor_handle] at hfind
      obtain ⟨res', issued, zone, cert, records', hres', hcertifies, hverified, hold, _, hz⟩ :=
        (hdb old (KeyedTable.find?_eq_some_iff.1 hfind).1).storedZone hV hfind
      dsimp only at hcertifies hverified hz
      rw [hz] at hkeep
      have hkeeps : keepsCert u { zone with records := records' } = true := hkeep
      unfold keepsCert at hkeeps
      rw [Bool.and_eq_true, decide_eq_true_eq] at hkeeps
      obtain ⟨homits, hroot⟩ := hkeeps
      have hroot' : sameCommitmentRoot u.zone zone = true := hroot
      rw [← hhandle] at hcertifies hverified
      refine hfresh cert (.inr ⟨homits, ?_⟩) (by rw [hcertData, hold])
      rcases hverified with rfl | ⟨_, res'', zone', hres'', hcertifies', hsame⟩
      · exact ⟨res', zone, hres', hcertifies, hroot'⟩
      · exact ⟨res'', zone', hres'', hcertifies', sameCommitmentRoot_trans hroot' hsame⟩

end Rows

section Messages

variable {V : Crates} {Vouched : VerifiedMessage → Prop} {σ Msg : Type} {H : Handler σ Msg}
  {res : VerifiedMessage} {acc : Collected}

theorem epochIn_epochOf
    (isSingleLabel : SName → Bool)
    (res : VerifiedMessage)
    (space : String) :
    EpochIn res space (epochOf isSingleLabel res.zones space) := by
  unfold epochOf
  cases hlast : Fallible.lastMatch
      (fun z => isSingleLabel z.canonical && decide (z.canonical.text = space)) res.zones with
  | none =>
      exact .inl rfl
  | some root =>
      obtain ⟨hmem, hp⟩ := Fallible.lastMatch_mem hlast
      rw [Bool.and_eq_true, decide_eq_true_eq] at hp
      dsimp only
      split
      · next c hc =>
        exact .inr ⟨root, hmem, hp.2, c, hc, rfl⟩
      · exact .inl rfl

/-- The updates of a message are certified by it. -/
theorem Collects.certifies
    (h : Collects V H res.zones res.certificates acc)
    {u : HandleRecord}
    (hu : u ∈ acc.updates) :
    Certifies res u.handle u.cert u.zone ∧
      ∀ space, V.space u.cert.subject = some space → EpochIn res space u.epochHeight := by
  obtain ⟨cert, hcert, zone, space, hzone, hspace, rfl⟩ := h.updates u hu
  refine ⟨⟨hcert, rfl, hzone⟩, fun space' hspace' => ?_⟩
  have hsame : space = space' := Option.some.inj (hspace.symm.trans hspace')
  rw [← hsame]
  exact epochIn_epochOf H.isSingleLabel res space

/-- The addresses of a message come from its certified zones. -/
theorem Collects.certifies_addrsFor
    (h : Collects V H res.zones res.certificates acc)
    {handle : String}
    {entry : String × List (String × String)}
    (hentry : acc.addrsFor handle = some entry) :
    ∃ cert zone, Certifies res handle cert zone ∧ addrEntry V zone = some entry := by
  obtain ⟨e, hlast, rfl⟩ := Option.map_eq_some_iff.1 hentry
  obtain ⟨hmem, hhandle⟩ := Fallible.lastMatch_mem hlast
  rw [h.addrIndex] at hmem
  obtain ⟨cert, hcert, haddrs⟩ := List.mem_filterMap.1 hmem
  obtain ⟨entry, hbind, rfl⟩ := Option.map_eq_some_iff.1 haddrs
  obtain ⟨zone, hzone, hentry'⟩ := Option.bind_eq_some_iff.1 hbind
  have hsubject : cert.subject.text = handle := of_decide_eq_true hhandle
  exact ⟨cert, zone, ⟨hcert, hsubject, hsubject ▸ hzone⟩, hentry'⟩

/-- Updates from vouched results keep the store traced. -/
theorem traced_updateHandles
    (hV : V.Lawful)
    {db db' : Tables}
    (hdb : Traced V Vouched db)
    {updates : List HandleRecord}
    (hupdates : ∀ u ∈ updates, ∃ res, Vouched res ∧ Certifies res u.handle u.cert u.zone ∧
      ∀ space, V.space u.cert.subject = some space → EpochIn res space u.epochHeight)
    {now : Nat}
    {out : BulkStoreResult}
    (h : updateHandles V now db updates = .ok (db', out)) :
    Traced V Vouched db' := by
  constructor
  · refine forall_rows_updateHandles V h hdb.handles (fun u hu _ e he r hr => ?_)
    obtain ⟨res, hres, hcertifies, hepoch⟩ := hupdates u hu
    exact verified_of_rowOf hV hdb.handles hres hcertifies hepoch he hr
  · rw [reverse_updateHandles h]
    exact hdb.reverse
  · rw [addrs_updateHandles h]
    exact hdb.addrs

/-- Reverse rows that vouched zones claim keep the store traced. -/
theorem traced_setRevs
    {db : Tables}
    (hdb : Traced V Vouched db)
    {entries : List (String × String)}
    (hentries : ∀ p ∈ entries, ∃ res handle cert zone, Vouched res ∧
      Certifies res handle cert zone ∧ reverseOf V zone = some p)
    (now : Nat) :
    Traced V Vouched (setRevs now db entries) := by
  refine ⟨hdb.handles, fun r hr => ?_, hdb.addrs⟩
  rcases mem_reverse_setRevs hr with hnew | ⟨hold, _⟩
  · exact hentries _ hnew
  · exact hdb.reverse r hold

/-- Addresses of a vouched zone keep the store traced. -/
theorem traced_setAddrs
    {db : Tables}
    (hdb : Traced V Vouched db)
    (hres : Vouched res)
    {handle : String}
    {cert : Certificate}
    {zone : Zone}
    (hcertifies : Certifies res handle cert zone)
    {entry : String × List (String × String)}
    (hentry : addrEntry V zone = some entry)
    (now : Nat) :
    Traced V Vouched (setAddrs now db handle entry.1 entry.2) := by
  refine ⟨hdb.handles, hdb.reverse, fun a ha => ?_⟩
  rcases List.mem_append.1 ha with hold | hnew
  · exact hdb.addrs a (List.mem_filter.1 hold).1
  · obtain ⟨p, hp, rfl⟩ := List.mem_map.1 hnew
    exact ⟨res, cert, zone, hres, hcertifies, entry.2, hentry, hp⟩

/-- The updates of a message are from its result. -/
theorem Collects.vouched_updates
    (h : Collects V H res.zones res.certificates acc)
    (hres : Vouched res) :
    ∀ u ∈ acc.updates, ∃ res, Vouched res ∧ Certifies res u.handle u.cert u.zone ∧
      ∀ space, V.space u.cert.subject = some space → EpochIn res space u.epochHeight :=
  fun _ hu => ⟨res, hres, h.certifies hu⟩

/-- The reverse rows of a message are from its result. -/
theorem Collects.vouched_revs
    (h : Collects V H res.zones res.certificates acc)
    (hres : Vouched res) :
    ∀ p ∈ acc.revs, ∃ res handle cert zone, Vouched res ∧
      Certifies res handle cert zone ∧ reverseOf V zone = some p := by
  intro p hp
  rw [h.revs] at hp
  obtain ⟨cert, hcert, hrev⟩ := List.mem_filterMap.1 hp
  obtain ⟨zone, hzone, hrev⟩ := Option.bind_eq_some_iff.1 hrev
  exact ⟨res, cert.subject.text, cert, zone, hres, ⟨hcert, rfl, hzone⟩, hrev⟩

theorem traced_writeAddrs
    (h : Collects V H res.zones res.certificates acc)
    (hres : Vouched res)
    (stored : List (String × Nat))
    {db : Tables}
    (hdb : Traced V Vouched db) :
    Traced V Vouched (writeAddrs acc stored db) := by
  induction stored generalizing db with
  | nil =>
      exact hdb
  | cons head rest ih =>
      obtain ⟨handle, now⟩ := head
      unfold writeAddrs
      cases hentry : acc.addrsFor handle with
      | none =>
          exact ih hdb
      | some entry =>
          obtain ⟨cert, zone, hcertifies, hzone⟩ := h.certifies_addrsFor hentry
          exact ih (traced_setAddrs hdb hres hcertifies hzone now)

/-- **A message that is written keeps the store traced**, if its result is vouched for. -/
theorem traced_of_written
    (hV : V.Lawful)
    {db db' : Tables}
    (hdb : Traced V Vouched db)
    (hres : Vouched res)
    (hcollects : Collects V H res.zones res.certificates acc)
    {clock : Nat → Nat}
    (hwritten : Written V clock db db' acc) :
    Traced V Vouched db' := by
  obtain ⟨mid, out, stored, hupdate, _, rfl⟩ := hwritten
  have hmid := traced_updateHandles hV hdb (hcollects.vouched_updates hres) hupdate
  exact traced_writeAddrs hcollects hres stored
    (traced_setRevs hmid (hcollects.vouched_revs hres) (clock 1))

/-- Evictions keep the store traced. -/
theorem traced_deleteHandles
    {db : Tables}
    (hdb : Traced V Vouched db)
    (handles : List String) :
    Traced V Vouched (deleteHandles V db handles).1 := by
  constructor
  · exact fun r hr => hdb.handles r ((mem_deleteHandles V).1 hr).1
  · exact fun r hr => hdb.reverse r (mem_reverse_deleteHandles hr).1
  · intro a ha
    rw [addrs_deleteHandles] at ha
    exact hdb.addrs a (List.mem_filter.1 ha).1

/-- What a call writes comes from vouched results. -/
def StoreCall.VouchedBy (V : Crates) (Vouched : VerifiedMessage → Prop) : StoreCall → Prop
  | .updateHandles _ updates => ∀ u ∈ updates, ∃ res, Vouched res ∧
      Certifies res u.handle u.cert u.zone ∧
      ∀ space, V.space u.cert.subject = some space → EpochIn res space u.epochHeight
  | .setRevs _ entries => ∀ p ∈ entries, ∃ res handle cert zone, Vouched res ∧
      Certifies res handle cert zone ∧ reverseOf V zone = some p
  | .setAddrs _ handle rev entries => ∃ res cert zone, Vouched res ∧
      Certifies res handle cert zone ∧ addrEntry V zone = some (rev, entries)
  | _ => True

/-- **A call keeps the store traced**, if what it writes is vouched for. -/
theorem traced_runCall
    (hV : V.Lawful)
    {db : Tables}
    (hdb : Traced V Vouched db)
    {call : StoreCall}
    (hcall : call.VouchedBy V Vouched) :
    Traced V Vouched (runCall V db call) := by
  cases call with
  | updateHandles now updates =>
      show Traced V Vouched (deliver V now db updates)
      cases hupdate : updateHandles V now db updates with
      | error e =>
          unfold deliver
          rw [hupdate]
          exact hdb
      | ok out =>
          rw [deliver_of_ok V hupdate]
          exact traced_updateHandles hV hdb hcall hupdate
  | deleteHandles handles =>
      exact traced_deleteHandles hdb handles
  | setRevs now entries =>
      exact traced_setRevs hdb hcall now
  | setAddrs now handle rev entries =>
      obtain ⟨res, cert, zone, hres, hcertifies, hentry⟩ := hcall
      exact traced_setAddrs hdb hres hcertifies hentry now
  | setWatermark now peerUrl cursor =>
      exact ⟨hdb.handles, hdb.reverse, hdb.addrs⟩

/-- The message of an event is verified, with this result. -/
def VerifiesTo (V : Crates) (s : HandlerState σ) (res : VerifiedMessage) :
    RelayEvent σ Msg → Prop
  | .message H _ _ _ msg => verifyMessage V H msg s.db = .ok res
  | .deleteHandles _ => False

/-- **An event keeps the store traced**, if its result is vouched for. -/
theorem traced_runEvent
    (hV : V.Lawful)
    {s : HandlerState σ}
    (hs : Traced V Vouched s.db)
    {event : RelayEvent σ Msg}
    (hevent : ∀ res, VerifiesTo V s res event → Vouched res) :
    Traced V Vouched (runEvent V s event).db := by
  cases event with
  | deleteHandles handles =>
      exact traced_deleteHandles hs handles
  | message H clock gatedSpaces charge msg =>
      rcases handleMessageOpts_cases (V := V) (H := H) clock gatedSpaces charge msg s with
        ⟨hdb, _⟩ | ⟨acc, hacc, hwritten⟩
      · show Traced V Vouched (handleMessageOpts V H clock gatedSpaces charge msg s).2.db
        rw [hdb]
        exact hs
      · obtain ⟨res, hverify, hcollects⟩ := collectedFrom_collects hacc
        exact traced_of_written hV hs (hevent res hverify) hcollects hwritten

end Messages

section Pulls

variable (V : Crates) {σ Proof Msg : Type}

/-- What a relay does to its store: it handles a message, evicts, or ingests the records of a
page that some peer has served, whatever they are. -/
inductive NodeEvent (σ Proof Msg : Type)
  | relay (event : RelayEvent σ Msg)
  | page (build : MessageBuilder → Proof → Except String Msg) (env : ℕ → Instant σ Proof Msg)
      (order : HashOrder (String × List (Certificate × Zone))) (records : List SyncRecord)
      (maxFailedSpaces : Nat)

/-- The state after an event. -/
def runNode (s : HandlerState σ) : NodeEvent σ Proof Msg → HandlerState σ
  | .relay event => runEvent V s event
  | .page build env order records maxFailedSpaces =>
      (ingestSyncRecords (pullerOps V build env) V order records maxFailedSpaces ⟨s, 0⟩).2.state

/-- Messages that are built here, and handled without content limits. -/
def BuiltHere (build : MessageBuilder → Proof → Except String Msg)
    (env : ℕ → Instant σ Proof Msg) (messages : List (RelayEvent σ Msg)) : Prop :=
  ∀ event ∈ messages, ∃ k builder proof msg, (env k).prove builder = .ok proof ∧
    build builder proof = .ok msg ∧
    event = .message (env k).handler (env k).clock [] false msg

/-- The messages of an event: a page acts through messages that are built here. -/
def MessagesOf : NodeEvent σ Proof Msg → List (RelayEvent σ Msg) → Prop
  | .relay event, messages => messages = [event]
  | .page build env _ _ _, messages => BuiltHere build env messages

/-- The state of a puller changes as by messages that are built here. -/
def PullSteps (build : MessageBuilder → Proof → Except String Msg)
    (env : ℕ → Instant σ Proof Msg) (s s' : Puller σ) : Prop :=
  ∃ messages, BuiltHere build env messages ∧ s'.state = messages.foldl (runEvent V) s.state

variable {V} {build : MessageBuilder → Proof → Except String Msg} {env : ℕ → Instant σ Proof Msg}

theorem PullSteps.refl (s : Puller σ) : PullSteps V build env s s :=
  ⟨[], List.forall_mem_nil _, rfl⟩

theorem PullSteps.trans
    (a b c : Puller σ)
    (hab : PullSteps V build env a b)
    (hbc : PullSteps V build env b c) :
    PullSteps V build env a c := by
  obtain ⟨first, hfirst, hb⟩ := hab
  obtain ⟨second, hsecond, hc⟩ := hbc
  refine ⟨first ++ second, ?_, ?_⟩
  · intro event h
    exact (List.mem_append.1 h).elim (hfirst event) (hsecond event)
  · rw [hc, hb, List.foldl_append]

open Fallible

/-- A submitted group is at most one message. -/
theorem submit_steps
    (group : List (Certificate × Zone)) :
    Task.Steps (PullSteps V build env) (submit (pullerOps V build env) group) := by
  intro s
  unfold submit
  have hacquire : (pullerOps V build env).acquireProof s = (.ok (), s) := rfl
  rw [Task.bind_of_ok hacquire]
  cases hprove : (env s.elapsed).prove (builderOf group) with
  | error e =>
      have hfail : ExceptT.adapt (fun e => s!"chain proof failed (infra): {e}")
          ((pullerOps V build env).prove (builderOf group)) s =
            (.error s!"chain proof failed (infra): {e}", s) := by
        show (((env s.elapsed).prove (builderOf group)).mapError _, s) = _
        rw [hprove]
        rfl
      rw [Task.bind_apply, hfail]
      exact PullSteps.refl s
  | ok proof =>
      have hok : (pullerOps V build env).prove (builderOf group) s = (.ok proof, s) := by
        show ((env s.elapsed).prove (builderOf group), s) = _
        rw [hprove]
      rw [Task.bind_of_ok (Task.adapt_of_ok hok _)]
      cases hbuild : build (builderOf group) proof with
      | error e =>
          have hbuild' : (pullerOps V build env).build (builderOf group) proof = .error e := hbuild
          rw [hbuild']
          exact PullSteps.refl s
      | ok msg =>
          have hbuild' : (pullerOps V build env).build (builderOf group) proof = .ok msg := hbuild
          rw [hbuild']
          refine ⟨[.message (env s.elapsed).handler (env s.elapsed).clock [] false msg], ?_, rfl⟩
          intro event hevent
          rw [List.mem_singleton.1 hevent]
          exact ⟨s.elapsed, builderOf group, proof, msg, hprove, hbuild, rfl⟩

/-- Looking for the root of a group leaves the store alone. -/
theorem findRoot_steps
    (space : String)
    (group : List (Certificate × Zone)) :
    Task.Steps (PullSteps V build env) (findRoot (pullerOps V build env) space group) := by
  unfold findRoot
  split
  · exact Task.Steps.unchanged PullSteps.refl _
  · refine Task.Steps.bind PullSteps.trans ?_ (fun found => ?_)
    · exact Task.Steps.bind PullSteps.trans (Task.Steps.always PullSteps.refl)
        (fun record => Task.Steps.lift PullSteps.refl _)
    · cases found with
      | none =>
          exact Task.Steps.unchanged PullSteps.refl _
      | some record =>
          exact Task.Steps.unchanged PullSteps.refl _

theorem ingestSpace_steps
    (existing : List HandleHintRow)
    (space : String)
    (group : List (Certificate × Zone))
    (out : SyncIngest) :
    Task.Steps (PullSteps V build env)
      (ingestSpace (pullerOps V build env) existing space group out) := by
  refine Task.Steps.bind PullSteps.trans (Task.Steps.always PullSteps.refl) (fun gate => ?_)
  dsimp only
  split_ifs
  · exact Task.Steps.unchanged PullSteps.refl _
  · refine Task.Steps.bind PullSteps.trans (findRoot_steps space _) (fun found => ?_)
    cases found with
    | none =>
        exact Task.Steps.unchanged PullSteps.refl _
    | some message =>
        refine Task.Steps.bind PullSteps.trans (submit_steps message) (fun result => ?_)
        cases result with
        | error e =>
            exact Task.Steps.unchanged PullSteps.refl _
        | ok res =>
            exact Task.Steps.unchanged PullSteps.refl _

theorem ingestSpaces_steps
    (existing : List HandleHintRow)
    (maxFailedSpaces : Nat)
    (groups : List (String × List (Certificate × Zone)))
    (out : SyncIngest) :
    Task.Steps (PullSteps V build env)
      (ingestSpaces (pullerOps V build env) existing maxFailedSpaces groups out) := by
  induction groups generalizing out with
  | nil =>
      exact Task.Steps.unchanged PullSteps.refl _
  | cons first rest ih =>
      unfold ingestSpaces
      split_ifs
      · exact Task.Steps.unchanged PullSteps.refl _
      · exact Task.Steps.bind PullSteps.trans (ingestSpace_steps existing first.1 first.2 out) ih

/-- **A pulled page does what some messages do** that are built here, whatever its records
are, and also where it fails on the way. -/
theorem ingest_is_events
    (order : HashOrder (String × List (Certificate × Zone)))
    (records : List SyncRecord)
    (maxFailedSpaces : Nat) :
    Task.Steps (PullSteps V build env)
      (ingestSyncRecords (pullerOps V build env) V order records maxFailedSpaces) := by
  refine Task.Steps.bind PullSteps.trans (Task.Steps.always PullSteps.refl) (fun existing => ?_)
  refine Task.Steps.bind PullSteps.trans (Task.Steps.lift PullSteps.refl _) (fun decoded => ?_)
  exact ingestSpaces_steps existing maxFailedSpaces _ _

/-- What an event does is what its messages do. -/
theorem runNode_messages
    (s : HandlerState σ)
    (event : NodeEvent σ Proof Msg) :
    ∃ messages, MessagesOf event messages ∧ runNode V s event = messages.foldl (runEvent V) s := by
  cases event with
  | relay event =>
      exact ⟨[event], rfl, rfl⟩
  | page build env order records maxFailedSpaces =>
      exact ingest_is_events order records maxFailedSpaces ⟨s, 0⟩

end Pulls

section Runs

variable (V : Crates) {σ Proof Msg : Type}

/-- A result that a run of messages has verified, against the roots stored by then. -/
def VerifiedIn (limits : σ) (messages : List (RelayEvent σ Msg)) (res : VerifiedMessage) : Prop :=
  ∃ before event after, messages = before ++ event :: after ∧
    VerifiesTo V (before.foldl (runEvent V) (HandlerState.fresh limits)) res event

variable {V}

/-- The store is traced to the messages of the run. -/
theorem traced_run
    (hV : V.Lawful)
    (limits : σ)
    (messages : List (RelayEvent σ Msg)) :
    Traced V (VerifiedIn V limits messages)
      (messages.foldl (runEvent V) (HandlerState.fresh limits)).db := by
  induction messages using List.reverseRecOn with
  | nil =>
      exact traced_init
  | append_singleton messages event ih =>
      rw [List.foldl_append, List.foldl_cons, List.foldl_nil]
      refine traced_runEvent hV (ih.mono ?_) ?_
      · rintro res ⟨before, event', after, rfl, hverifies⟩
        exact ⟨before, event', after ++ [event], by simp, hverifies⟩
      · intro res hverifies
        exact ⟨messages, event, [], rfl, hverifies⟩

/-- **Every stored row was verified.**  Whatever messages arrive, whatever pages peers serve,
and whatever is evicted between them: the run does what a run of messages does, in which a
page has only messages that the relay has built itself, and every row of the store goes back
to results of this run's verification. -/
theorem stored_rows_verified
    (hV : V.Lawful)
    (limits : σ)
    (events : List (NodeEvent σ Proof Msg)) :
    ∃ blocks, List.Forall₂ MessagesOf events blocks ∧
      events.foldl (runNode V) (HandlerState.fresh limits) =
        blocks.flatten.foldl (runEvent V) (HandlerState.fresh limits) ∧
      Traced V (VerifiedIn V limits blocks.flatten)
        (events.foldl (runNode V) (HandlerState.fresh limits)).db := by
  have hblocks : ∃ blocks, List.Forall₂ MessagesOf events blocks ∧
      events.foldl (runNode V) (HandlerState.fresh limits) =
        blocks.flatten.foldl (runEvent V) (HandlerState.fresh limits) := by
    induction events using List.reverseRecOn with
    | nil =>
        exact ⟨[], .nil, rfl⟩
    | append_singleton events event ih =>
        obtain ⟨blocks, hblocks, hrun⟩ := ih
        obtain ⟨messages, hmessages, hevent⟩ :=
          runNode_messages (V := V) (events.foldl (runNode V) (HandlerState.fresh limits)) event
        refine ⟨blocks ++ [messages], List.rel_append hblocks (.cons hmessages .nil), ?_⟩
        rw [List.foldl_append, List.foldl_cons, List.foldl_nil, hevent, hrun,
          List.flatten_append, List.foldl_append, List.flatten_singleton]
  obtain ⟨blocks, hmessages, hrun⟩ := hblocks
  refine ⟨blocks, hmessages, hrun, ?_⟩
  rw [hrun]
  exact traced_run hV limits blocks.flatten

end Runs

section Sample

/-- Crates that encode two zones of the sample handle, and the root of its space. -/
def sampleVault : Crates :=
  Crates.ofSigned [sampleCert, ⟨0, ⟨"@bitcoin"⟩, .other []⟩]
    [signedZone [5, 0], signedZone [6, 0], { sampleZone 1 1 1 0 with canonical := ⟨"@bitcoin"⟩ }]

/-- A record of a page, with numbers that are not those of its zone. -/
def pulledRecord (cert : Certificate) (zone : Zone) : SyncRecord :=
  ⟨cert.subject.text, 7, 7, 7, (sampleVault.certToVec cert).toOption.getD [],
    (sampleVault.zoneToVec zone).toOption.getD []⟩

/-- A message, and a page with newer records of its handle and with the root. -/
def sampleNodeEvents : List (NodeEvent Unit Unit VerifiedMessage) :=
  let root : Certificate := ⟨0, ⟨"@bitcoin"⟩, .other []⟩
  let rootZone : Zone := { sampleZone 1 1 1 0 with canonical := ⟨"@bitcoin"⟩ }
  [.relay (sampleMessage (signedZone [5, 0])),
    .page (fun builder _ => .ok ⟨[rootZone, signedZone [6, 0]], builder.certs⟩)
      (fun _ => ⟨.inserted, .inserted, 0, fun _ => 0, fun _ => false, fun _ => .ok (),
        sampleHandler⟩) .inserted
      [pulledRecord sampleCert (signedZone [6, 0]), pulledRecord root rootZone] 1]

/-- The page brings the newer records and the root, both as this relay has verified them. -/
theorem stored_rows_verified_sample :
    let db := (sampleNodeEvents.foldl (runNode sampleVault) (HandlerState.fresh ())).db
    db.handles.rows.map (fun r => (r.handle, r.offchainSeq, r.epochHeight)) =
        [("@bitcoin", 1, 1), ("alice@bitcoin", 6, 1)] ∧
      db.reverse.rows.length = 1 ∧
      ∃ messages : List (RelayEvent Unit VerifiedMessage),
        Traced sampleVault (VerifiedIn sampleVault () messages) db := by
  intro db
  have hV : sampleVault.Lawful := Crates.ofSigned_lawful (by decide) (by decide)
  obtain ⟨blocks, _, _, htraced⟩ := stored_rows_verified hV () sampleNodeEvents
  exact ⟨by decide +kernel, by decide +kernel, blocks.flatten, htraced⟩

end Sample

end CertRelay
