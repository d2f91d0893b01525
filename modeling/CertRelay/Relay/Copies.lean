import CertRelay.Relay.PullRound

/-!
# Copies of the rows of a peer

A relay that pulls stores what its own verification finds, so its rows are copies only up
to what is verified: the certificate and the record sets are the peer's, the anchor and
the commitment need not be.  A message that is built from such copies is the message that
would be built from the rows of the peer.

**Results.**
* `builderOf_congr`: a message is built from certificates and records only;
* `copied_updateHandles`: storing copies leaves copies, merged or not;
* `stores_updateHandles`: a handle is lost by no call, and stored if the clock lets it;
* `handleMessageOpts_copies`: a verified message of the peer's pairs is stored in full.
-/

namespace CertRelay

/-- There is a row for a handle. -/
def Tables.Stores (db : Tables) (handle : String) : Prop :=
  ∃ r ∈ db.handles.rows, r.handle = handle

theorem Tables.stores_congr
    {db db' : Tables}
    (h : db'.handles = db.handles)
    {handle : String} :
    db'.Stores handle ↔ db.Stores handle := by
  unfold Tables.Stores
  rw [h]

/-- No handle is lost, and no watermark moves. -/
structure Extends (db db' : Tables) : Prop where
  stores : ∀ handle, db.Stores handle → db'.Stores handle
  syncWatermarks : db'.syncWatermarks = db.syncWatermarks

theorem Extends.refl (db : Tables) : Extends db db :=
  ⟨fun _ h => h, rfl⟩

theorem Extends.trans
    {a b c : Tables}
    (h₁ : Extends a b)
    (h₂ : Extends b c) :
    Extends a c :=
  ⟨fun handle h => h₂.stores handle (h₁.stores handle h),
    h₂.syncWatermarks.trans h₁.syncWatermarks⟩

section Records

/-- Messages built from two zones ask for the same records. -/
def SameRecords (z z' : Zone) : Prop :=
  ∀ cert, updateRequest cert z' = updateRequest cert z

theorem SameRecords.records
    {z z' : Zone}
    (h : SameRecords z z') :
    z'.records = z.records :=
  Option.some.inj (congrArg DataUpdateRequest.records (h sampleCert))

theorem SameRecords.delegateSeq
    {z z' : Zone}
    (h : SameRecords z z')
    (V : Crates) :
    V.delegateSeqOr0 z' = V.delegateSeqOr0 z := by
  have hseq : ∀ z : Zone, V.delegateSeqOr0 z =
      ((updateRequest sampleCert z).delegateRecords.map V.seqOr0).getD 0 := by
    intro z
    unfold Crates.delegateSeqOr0 updateRequest
    cases z.delegate <;> rfl
  rw [hseq, hseq, h sampleCert]

/-- **A message is built from certificates and records only.** -/
theorem builderOf_congr
    (cert : Certificate)
    {z z' : Zone}
    (h : SameRecords z z')
    (group : List (Certificate × Zone)) :
    builderOf ((cert, z') :: group) = builderOf ((cert, z) :: group) := by
  simp only [builderOf, List.map_cons, h cert]

end Records

section Pairs

variable (V : Crates)

/-- The certificate and the zone that a row encodes. -/
structure Row.Holds (r : Row) (cz : Certificate × Zone) : Prop where
  cert : V.certToVec cz.1 = .ok r.certData
  zone : V.zoneToVec cz.2 = .ok r.zoneData

/-- A relay stores a certificate and a zone under a handle. -/
def StoresPair (db : Tables) (handle : String) (cz : Certificate × Zone) : Prop :=
  ∃ r ∈ db.handles.rows, r.handle = handle ∧ r.Holds V cz

/-- Every row encodes a copy of a pair of the peer. -/
structure Copied (peer db : Tables) : Prop where
  encoded : RowsEncoded V db
  pair : ∀ r ∈ db.handles.rows, ∃ cz zone, StoresPair V peer r.handle cz ∧
    r.Holds V (cz.1, zone) ∧ SameRecords cz.2 zone

/-- No sequence that the peer stores is more than six hours ahead of a clock. -/
def SeqsWithin (peer : Tables) (now : Nat) : Prop :=
  ∀ handle cz, StoresPair V peer handle cz →
    V.seqOr0 cz.2.records ≤ maxSeq now ∧ V.delegateSeqOr0 cz.2 ≤ maxSeq now

variable {V}

theorem StoresPair.unique
    (hV : V.Lawful)
    {db : Tables}
    {handle : String}
    {cz cz' : Certificate × Zone}
    (h : StoresPair V db handle cz)
    (h' : StoresPair V db handle cz') :
    cz = cz' := by
  obtain ⟨r, hr, rfl, hholds⟩ := h
  obtain ⟨r', hr', hhandle, hholds'⟩ := h'
  cases db.handles.eq_of_key_eq hr' hr hhandle
  have hcert := (hV.cert_decode hholds.cert).symm.trans (hV.cert_decode hholds'.cert)
  have hzone := (hV.zone_decode hholds.zone).symm.trans (hV.zone_decode hholds'.zone)
  exact Prod.ext (Except.ok.inj hcert) (Except.ok.inj hzone)

/-- Only the handle rows matter. -/
theorem Copied.congr
    {peer db db' : Tables}
    (h : Copied V peer db)
    (hhandles : db'.handles = db.handles) :
    Copied V peer db' := by
  constructor
  · intro r hr
    rw [hhandles] at hr
    exact h.encoded r hr
  · intro r hr
    rw [hhandles] at hr
    exact h.pair r hr

theorem StoresPair.storedZone
    (hV : V.Lawful)
    {db : Tables}
    {handle : String}
    {cz : Certificate × Zone}
    (h : StoresPair V db handle cz) :
    CertRelay.storedZone V db handle = some cz.2 := by
  obtain ⟨r, hr, rfl, hholds⟩ := h
  exact storedZone_eq_some_of_encodes hV (KeyedTable.find?_key hr) hholds.zone

theorem copied_init (peer : Tables) : Copied V peer Tables.init := by
  refine ⟨rowsEncoded_init V, fun r hr => ?_⟩
  cases hr

end Pairs

section Updates

variable (V : Crates)

/-- An update carries a copy of a pair of the peer, with the metadata of its zone. -/
structure CopiesPair (peer : Tables) (u : HandleRecord) : Prop where
  serializable : Serializable V u
  derived : Derived V u
  pair : ∃ cz, StoresPair V peer u.handle cz ∧ u.cert = cz.1 ∧ SameRecords cz.2 u.zone

variable {V}

/-- The sequences of a copy are those of the pair. -/
theorem CopiesPair.timely
    {peer : Tables}
    {u : HandleRecord}
    (h : CopiesPair V peer u)
    {now : Nat}
    (hclock : SeqsWithin V peer now) :
    Timely now u := by
  obtain ⟨cz, hpair, _, hsame⟩ := h.pair
  obtain ⟨howner, hdelegate⟩ := hclock u.handle cz hpair
  constructor
  · rw [h.derived.offchainSeq, hsame.records]
    exact howner
  · rw [h.derived.delegateOffchainSeq, hsame.delegateSeq]
    exact hdelegate

/-- Merging with a zone of the same records changes nothing. -/
theorem storedAs_of_records_eq
    {existing : Option Zone}
    {update : Zone}
    (h : ∀ z, existing = some z → z.records = update.records) :
    storedAs V existing update = update := by
  cases existing with
  | none =>
      rfl
  | some z =>
      show mergedZone V update z = update
      unfold mergedZone
      rw [h z rfl, ite_self]

/-- A row that an update of a copy writes holds the copy. -/
theorem holds_of_rowOf
    (hV : V.Lawful)
    {peer db : Tables}
    (hdb : Copied V peer db)
    {u : HandleRecord}
    {cz : Certificate × Zone}
    (hpair : StoresPair V peer u.handle cz)
    (hcert : u.cert = cz.1)
    (hsame : SameRecords cz.2 u.zone)
    {now : Nat}
    {e : Prepared}
    (he : prepare V u = .ok e)
    {r : Row}
    (hr : RowOf V now db (entryFor V (storedZone V db u.handle) e u) r) :
    r.Holds V (cz.1, u.zone) := by
  have hstored : ∀ old, db.handles.find? u.handle = some old →
      ∃ zone, old.Holds V (cz.1, zone) ∧ SameRecords cz.2 zone := by
    intro old hold
    obtain ⟨hmem, hhandle⟩ := KeyedTable.find?_eq_some_iff.1 hold
    obtain ⟨cz', zone, hpair', hholds, hzone⟩ := hdb.pair old hmem
    rw [hhandle] at hpair'
    cases hpair.unique hV hpair'
    exact ⟨zone, hholds, hzone⟩
  constructor
  · cases hkeep : (entryFor V (storedZone V db u.handle) e u).preserveCert with
    | false =>
        obtain ⟨_, certData, _, _, hdata, _, rfl⟩ := (prepare_eq_ok_iff V).1 he
        rw [hr.freshCert hkeep, entryFor_certData, ← hcert]
        exact hdata
    | true =>
        obtain ⟨old, hold, hdata⟩ := hr.keptCert hkeep
        rw [entryFor_handle, prepare_handle V he] at hold
        obtain ⟨zone, hholds, _⟩ := hstored old hold
        rw [hdata]
        exact hholds.cert
  · have hmerge : storedAs V (storedZone V db u.handle) u.zone = u.zone := by
      apply storedAs_of_records_eq
      intro z hz
      obtain ⟨old, hold, hdecode⟩ := (storedZone_eq_some_iff V).1 hz
      obtain ⟨zone, hholds, hzone⟩ := hstored old hold
      have hsame' : z = zone :=
        Except.ok.inj (hdecode.symm.trans (hV.zone_decode hholds.zone))
      rw [hsame', hzone.records, hsame.records]
    have hencoded : ∀ z, storedZone V db u.handle = some z → ∃ b, V.zoneToVec z = .ok b := by
      intro z hz
      obtain ⟨old, _, hold⟩ := storedZone_encoded hV hdb.encoded hz
      exact ⟨_, hold⟩
    rw [hr.zoneData, ← zoneToVec_entryFor hV hencoded he, hmerge]

/-- **Storing copies leaves copies**, merged or not. -/
theorem copied_updateHandles
    (hV : V.Lawful)
    {peer db db' : Tables}
    (hdb : Copied V peer db)
    {now : Nat}
    {updates : List HandleRecord}
    (hupdates : ∀ u ∈ updates, CopiesPair V peer u)
    {res : BulkStoreResult}
    (h : updateHandles V now db updates = .ok (db', res)) :
    Copied V peer db' := by
  refine ⟨rowsEncoded_updateHandles V hdb.encoded h, fun r hr => ?_⟩
  have hfind := KeyedTable.find?_key hr
  have hhandle := updateHandles_find? V h r.handle
  cases hlast : lastAccepted V now db r.handle updates with
  | none =>
      rw [hlast] at hhandle
      rw [hfind] at hhandle
      exact hdb.pair r (KeyedTable.find?_eq_some_iff.1 hhandle.symm).1
  | some u =>
      rw [hlast] at hhandle
      obtain ⟨r', hr', hwritten⟩ := hhandle
      rw [hfind] at hr'
      cases hr'
      obtain ⟨e, he, hrow⟩ := hwritten.prepared
      obtain ⟨cz, hpair, hcert, hsame⟩ := (hupdates u (Fallible.lastMatch_mem hlast).1).pair
      refine ⟨cz, u.zone, ?_, holds_of_rowOf hV hdb hpair hcert hsame he hrow, hsame⟩
      rw [hwritten.handle]
      exact hpair

/-- **A handle is lost by no call**, and a new one is stored if the clock lets it. -/
theorem stores_updateHandles
    {db db' : Tables}
    {now : Nat}
    {updates : List HandleRecord}
    {res : BulkStoreResult}
    (h : updateHandles V now db updates = .ok (db', res))
    {handle : String}
    (hstored : db.Stores handle ∨ ∃ u ∈ updates, u.handle = handle ∧ Timely now u) :
    db'.Stores handle := by
  have hhandle := updateHandles_find? V h handle
  cases hlast : lastAccepted V now db handle updates with
  | none =>
      rw [hlast] at hhandle
      have hold : db.Stores handle := by
        rcases hstored with hold | ⟨u, hu, rfl, htime⟩
        · exact hold
        · -- a new handle would have been accepted
          by_contra hnew
          have hnone : db.handles.find? u.handle = none := by
            rw [KeyedTable.find?_eq_none_iff]
            intro r hr he
            exact hnew ⟨r, hr, he⟩
          have hzone : storedZone V db u.handle = none := by
            unfold storedZone
            rw [hnone]
            rfl
          have hrejected := Fallible.lastMatch_eq_none.1 hlast u hu
          simp [hzone, accepts, htime.1, htime.2] at hrejected
      obtain ⟨r, hr, he⟩ := hold
      have hfind := KeyedTable.find?_key hr
      rw [he, ← hhandle] at hfind
      obtain ⟨hmem, hhandle'⟩ := KeyedTable.find?_eq_some_iff.1 hfind
      exact ⟨r, hmem, hhandle'⟩
  | some u =>
      rw [hlast] at hhandle
      obtain ⟨r, hr, _⟩ := hhandle
      obtain ⟨hmem, hhandle'⟩ := KeyedTable.find?_eq_some_iff.1 hr
      exact ⟨r, hmem, hhandle'⟩

end Updates

section Messages

variable {V : Crates} {σ Msg : Type} {H : Handler σ Msg}

/-- Collecting keeps the updates it has. -/
theorem updates_subset_collectCert
    (batch : Batch)
    (s : Collected × σ)
    (cert : Certificate) :
    s.1.updates ⊆ (collectCert V H batch s cert).1.updates := by
  rcases (collectCert_adds (V := V) (H := H) batch s cert).updates with h | ⟨_, _, _, _, h⟩
  · rw [h]
    exact List.Subset.refl _
  · rw [h]
    exact List.subset_append_left _ _

/-- Without gate and limits a certificate with a zone is known already, or collected. -/
theorem mem_updates_collectCert
    {batch : Batch}
    (hgate : batch.gatedSpaces = [])
    (hcharge : batch.chargeContentLimits = false)
    (s : Collected × σ)
    {cert : Certificate}
    {zone : Zone}
    (hzone : zoneFor batch.zones cert.subject.text = some zone)
    {space : String}
    (hspace : V.space cert.subject = some space) :
    (hintOf batch.existing cert.subject.text).isSome = true ∨
      bundle V H batch.zones cert zone space ∈ (collectCert V H batch s cert).1.updates := by
  obtain ⟨hzone, hsize⟩ := Option.filter_eq_some_iff.1 hzone
  have hsmall : ¬ maxRecordsSize < zone.records.slice.length := by
    simpa using hsize
  cases hstored : hintOf batch.existing cert.subject.text with
  | some row =>
      exact Or.inl rfl
  | none =>
      right
      have hnone : hintOf batch.existing
          (bundle V H batch.zones cert zone space).handle = none := hstored
      unfold collectCert
      simp only [hzone, if_neg hsmall, hspace]
      unfold collectUpdate withinLimits
      simp [hnone, isRedelivery, hgate, hcharge]

/-- **Without gate and limits everything new is collected.** -/
theorem mem_updates_collect
    (batch : Batch)
    (hgate : batch.gatedSpaces = [])
    (hcharge : batch.chargeContentLimits = false)
    {certs : List Certificate}
    (limits : σ)
    {cert : Certificate}
    (hcert : cert ∈ certs)
    {zone : Zone}
    (hzone : zoneFor batch.zones cert.subject.text = some zone)
    {space : String}
    (hspace : V.space cert.subject = some space) :
    (hintOf batch.existing cert.subject.text).isSome = true ∨
      bundle V H batch.zones cert zone space ∈
        (collect V H batch certs limits).1.updates := by
  induction certs using List.reverseRecOn with
  | nil =>
      cases hcert
  | append_singleton certs last ih =>
      have hfold : collect V H batch (certs ++ [last]) limits =
          collectCert V H batch (collect V H batch certs limits) last :=
        List.foldl_concat _ _ _ _
      rw [hfold]
      rcases List.mem_append.1 hcert with hbefore | hlast
      · rcases ih hbefore with hknown | hmem
        · exact Or.inl hknown
        · exact Or.inr (updates_subset_collectCert batch _ last hmem)
      · cases List.mem_singleton.1 hlast
        exact mem_updates_collectCert hgate hcharge _ hzone hspace

/-- A handle with a hint is stored. -/
theorem stores_of_hintOf
    {db : Tables}
    {handles : List String}
    {handle : String}
    (h : (hintOf (getHandleHints db handles) handle).isSome = true) :
    db.Stores handle := by
  obtain ⟨hint, hhint⟩ := Option.isSome_iff_exists.1 h
  obtain ⟨hmem, hhandle⟩ := Fallible.lastMatch_mem hhint
  obtain ⟨r, hr, rfl⟩ := List.mem_map.1 hmem
  exact ⟨r, (List.mem_filter.1 hr).1, of_decide_eq_true hhandle⟩

/-- Verification returns the certificates of a group, and zones with its records. -/
structure Returns (V : Crates) (group : List (Certificate × Zone)) (res : VerifiedMessage) :
    Prop where
  certs : ∀ cert, cert ∈ res.certificates ↔ cert ∈ group.map Prod.fst
  zones : ∀ cz ∈ group, ∃ zone bytes, zoneOf res.zones cz.1.subject.text = some zone ∧
    V.zoneToVec zone = .ok bytes ∧ SameRecords cz.2 zone

/-- What a peer serves: encoded pairs whose records are within the size limit. -/
structure Serves (V : Crates) (peer : Tables) : Prop where
  encoded : RowsEncoded V peer
  small : ∀ handle zone, storedZone V peer handle = some zone →
    zone.records.slice.length ≤ maxRecordsSize

/-- A stored certificate is one of its handle, in some space. -/
theorem StoresPair.subject
    (hV : V.Lawful)
    {peer : Tables}
    (hpeer : RowsEncoded V peer)
    {handle : String}
    {cz : Certificate × Zone}
    (h : StoresPair V peer handle cz) :
    cz.1.subject.text = handle ∧
      ∃ r ∈ peer.handles.rows, r.handle = handle ∧ V.space cz.1.subject = some r.space := by
  obtain ⟨r, hr, rfl, hholds⟩ := h
  obtain ⟨cert, hcert, hsubject, hspace⟩ := (hpeer r hr).cert
  have hsame : cert = cz.1 :=
    Except.ok.inj ((hV.cert_decode hcert).symm.trans (hV.cert_decode hholds.cert))
  subst hsame
  exact ⟨hsubject, r, hr, rfl, hspace⟩

variable {peer : Tables} {group : List (Certificate × Zone)} {res : VerifiedMessage}

/-- The zone that verification found for a pair of the group passes the size filter. -/
theorem Returns.zoneFor_eq
    (hV : V.Lawful)
    (hpeer : Serves V peer)
    (hres : Returns V group res)
    {cz : Certificate × Zone}
    (hcz : cz ∈ group)
    (hpair : StoresPair V peer cz.1.subject.text cz) :
    ∃ zone bytes, zoneFor res.zones cz.1.subject.text = some zone ∧
      V.zoneToVec zone = .ok bytes ∧ SameRecords cz.2 zone := by
  obtain ⟨zone, bytes, hzone, hbytes, hsame⟩ := hres.zones cz hcz
  refine ⟨zone, bytes, ?_, hbytes, hsame⟩
  have hsmall := hpeer.small cz.1.subject.text cz.2 (hpair.storedZone hV)
  rw [zoneFor, hzone, Option.filter_some_pos]
  rw [hsame.records]
  exact decide_eq_true hsmall

/-- What is collected from a verified group of the peer's pairs are copies of them. -/
theorem copiesPair_of_mem_updates
    (hV : V.Lawful)
    (hpeer : Serves V peer)
    (hgroup : ∀ cz ∈ group, StoresPair V peer cz.1.subject.text cz)
    (hres : Returns V group res)
    {acc : Collected}
    (hacc : Collects V H res.zones res.certificates acc)
    {u : HandleRecord}
    (hu : u ∈ acc.updates) :
    CopiesPair V peer u := by
  obtain ⟨cert, hcert, zone, space, hzone, hspace, rfl⟩ := hacc.updates u hu
  obtain ⟨cz, hcz, rfl⟩ := List.mem_map.1 ((hres.certs cert).1 hcert)
  have hpair := hgroup cz hcz
  obtain ⟨zone', bytes, hzone', hbytes, hsame⟩ := hres.zoneFor_eq hV hpeer hcz hpair
  rw [hzone] at hzone'
  cases hzone'
  obtain ⟨r, hr, _, hholds⟩ := id hpair
  refine ⟨⟨_, (prepare_eq_ok_iff V).2 ⟨space, r.certData, bytes, hspace, hholds.cert, hbytes,
    rfl⟩⟩, ⟨rfl, rfl⟩, cz, hpair, rfl, hsame⟩

/-- What a message writes after its updates touches neither handles nor watermarks. -/
theorem applyCollected_of_ok
    {clock : Nat → Nat}
    {db mid : Tables}
    {acc : Collected}
    {result : BulkStoreResult}
    (h : updateHandles V (clock 0) db acc.updates = .ok (mid, result)) :
    ∃ db' result', applyCollected V clock db acc = .ok (db', result') ∧
      db'.handles = mid.handles ∧ db'.syncWatermarks = db.syncWatermarks := by
  let stored := result.storedHandles.zipIdx.map (fun p => (p.1, clock (2 + p.2)))
  obtain ⟨addrs, haddrs⟩ := writeAddrs_cases acc stored (setRevs (clock 1) mid acc.revs)
  have hmarks : mid.syncWatermarks = db.syncWatermarks := by
    rw [← deliver_of_ok V h]
    exact syncWatermarks_deliver V (clock 0) db acc.updates
  have happly : applyCollected V clock db acc =
      .ok (writeAddrs acc stored (setRevs (clock 1) mid acc.revs),
        { result with
          skipped := result.skipped + acc.preskipped
          gated := result.gated + acc.gated }) := by
    unfold applyCollected
    rw [h]
    rfl
  refine ⟨_, _, happly, ?_, ?_⟩
  · rw [haddrs]
    rfl
  · rw [haddrs]
    exact hmarks

/-- **A verified message of the peer's pairs is stored in full.** -/
theorem handleMessageOpts_copies
    (hV : V.Lawful)
    (hpeer : Serves V peer)
    (hgroup : ∀ cz ∈ group, StoresPair V peer cz.1.subject.text cz)
    {clock : Nat → Nat}
    (hclock : SeqsWithin V peer (clock 0))
    {msg : Msg}
    {s : HandlerState σ}
    (hdb : Copied V peer s.db)
    (hverify : verifyMessage V H msg s.db = .ok res)
    (hres : Returns V group res) :
    ∃ result s', handleMessageOpts V H clock [] false msg s = (.ok result, s') ∧
      Copied V peer s'.db ∧ Extends s.db s'.db ∧
      ∀ cz ∈ group, s'.db.Stores cz.1.subject.text := by
  let batch : Batch := ⟨res.zones,
    getHandleHints s.db (res.certificates.map (fun c => c.subject.text)), [], false⟩
  let limits := (tick H s).limits
  let acc := (collect V H batch res.certificates limits).1
  have hcollect : collectMessage V H [] false msg s.db limits =
      .ok (collect V H batch res.certificates limits) := by
    unfold collectMessage
    rw [hverify]
    rfl
  have hcollects : Collects V H res.zones res.certificates acc :=
    collect_collects batch res.certificates limits
  have hcopies : ∀ u ∈ acc.updates, CopiesPair V peer u :=
    fun u hu => copiesPair_of_mem_updates hV hpeer hgroup hres hcollects hu
  obtain ⟨⟨mid, result⟩, hupdate⟩ := updateHandles_total hV (clock 0) hdb.encoded
    (fun u hu => (hcopies u hu).serializable)
  obtain ⟨db', result', happly, hhandles, hmarks⟩ := applyCollected_of_ok hupdate
  have hstores : ∀ handle, mid.Stores handle → db'.Stores handle :=
    fun handle hstored => (Tables.stores_congr hhandles).2 hstored
  have hmid := copied_updateHandles hV hdb hcopies hupdate
  refine ⟨result', ⟨db', (tick H s).msgCount,
    (collect V H batch res.certificates limits).2⟩, ?_, ?_, ?_, ?_⟩
  · have hdb' : (tick H s).db = s.db := rfl
    have happly' : applyCollected V clock s.db
        (collect V H batch res.certificates limits).1 = .ok (db', result') := happly
    unfold handleMessageOpts
    simp only [hdb']
    rw [hcollect]
    simp only
    rw [happly']
  · exact hmid.congr hhandles
  · exact ⟨fun handle h => hstores handle (stores_updateHandles hupdate (Or.inl h)), hmarks⟩
  · intro cz hcz
    apply hstores
    apply stores_updateHandles hupdate
    have hpair := hgroup cz hcz
    obtain ⟨_, _, _, _, hspace⟩ := hpair.subject hV hpeer.encoded
    obtain ⟨zone, _, hzone, _, _⟩ := hres.zoneFor_eq hV hpeer hcz hpair
    rcases mem_updates_collect (H := H) batch rfl rfl limits
      ((hres.certs cz.1).2 (List.mem_map_of_mem hcz)) hzone hspace with hknown | hmem
    · exact Or.inl (stores_of_hintOf hknown)
    · exact Or.inr ⟨_, hmem, rfl, (hcopies _ hmem).timely hclock⟩

end Messages

end CertRelay
