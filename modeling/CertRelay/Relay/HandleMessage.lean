import CertRelay.Relay.Ingest
import CertRelay.Relay.Records

/-!
# Handling a message

`handle_message_opts` verifies a message against the stored root zones, turns the
certificates into updates of the store, and afterwards writes the two indexes: the
reverse rows of all primary claims it met, and the address rows of the handles that
were stored.

Verification and the rate limiters are not part of the repository's code; they are
the fields of `Handler`.  Every message brings its own `Handler`, since the anchors
behind verification change while the relay runs.

**Results.**
* `collectedFrom_collects`: what a message is turned into, and of that
  `mem_updates`: an update carries the zone of its handle, and metadata derived
  from it, and `addrsFor_eq`: the address index is a function of the zones;
* `handleMessageOpts_cases`: what a message does to the tables.
-/

namespace CertRelay

/-- A verified message. -/
structure VerifiedMessage where
  zones : List Zone
  certificates : List Certificate
deriving DecidableEq

/-- The keyed rate limiters of the handler.  `true` is within the limit. -/
structure Limiters (σ : Type) where
  /-- `space_rate.check_key`. -/
  checkSpace : String → σ → Bool × σ
  /-- `handle_rate.check_key`. -/
  checkHandle : String → σ → Bool × σ
  /-- `retain_recent` and `shrink_to_fit` of both. -/
  retainRecent : σ → σ

/-- What the handler calls while it handles one message. -/
structure Handler (σ Msg : Type) where
  devMode : Bool
  limiters : Limiters σ
  /-- The subjects of `msg.spaces`, as text. -/
  spaces : Msg → List String
  /-- `verify_with_options` of the current `Veritas` on a context of zones. -/
  verify : Bool → List Zone → Msg → Except String VerifiedMessage
  /-- `SName::is_single_label`. -/
  isSingleLabel : SName → Bool

/-- The state of the handler: the store, the message count, the limiters. -/
structure HandlerState (σ : Type) where
  db : Tables
  msgCount : Nat
  limits : σ

/-- `MAX_RECORDS_SIZE`. -/
def maxRecordsSize : Nat := 1024

section Lookups

variable (V : Crates)

/-- `SqliteStore::get_zones`. -/
def getZones (db : Tables) (spaces : List String) : Except String (List Zone) :=
  (spaces.filterMap db.handles.find?).mapM fun r =>
    (V.zoneFromSlice r.zoneData).mapError ("failed to deserialize zone: " ++ ·)

/-- The hint columns of a row. -/
def Row.hint (r : Row) : HandleHintRow :=
  ⟨r.handle, r.epochHeight, r.offchainSeq, r.delegateOffchainSeq, r.zoneHash⟩

/-- `SqliteStore::get_handle_hints`. -/
def getHandleHints (db : Tables) (handles : List String) : List HandleHintRow :=
  (db.handles.rows.filter (fun r => decide (r.handle ∈ handles))).map Row.hint

/-- `zone_map.get`: of two zones of one name the map keeps the last. -/
def zoneOf (zones : List Zone) (handle : String) : Option Zone :=
  Fallible.lastMatch (fun z => decide (z.canonical.text = handle)) zones

/-- `epoch_map.get(..).unwrap_or(0)`. -/
def epochOf (isSingleLabel : SName → Bool) (zones : List Zone) (space : String) : Nat :=
  match Fallible.lastMatch
      (fun z => isSingleLabel z.canonical && decide (z.canonical.text = space)) zones with
  | some z =>
      match z.commitment with
      | .exist c => c.onchain.blockHeight
      | _ => 0
  | none => 0

/-- The first values of the address records of a record set. -/
def addrRecords (records : RecordSet) : List (String × String) :=
  match V.recordsIter records with
  | .ok rrs => rrs.filterMap fun r =>
      match r with
      | .addr key value => value.head?.map (fun v => (key, v))
      | .other => none
  | .error _ => []

/-- `charges_churn`. -/
def chargesChurn (storedEpoch : Option Nat) (incomingEpoch : Nat) : Bool :=
  match storedEpoch with
  | some e => decide (incomingEpoch ≤ e)
  | none => false

end Lookups

section Collecting

/-- What the loop over certificates collects. -/
structure Collected where
  preskipped : Nat := 0
  gated : Nat := 0
  revs : List (String × String) := []
  /-- Canonical handle, reverse name and addresses, in insertion order. -/
  addrIndex : List (String × String × List (String × String)) := []
  updates : List HandleRecord := []
deriving DecidableEq

/-- `addr_index.get`: a later insertion replaces an earlier one. -/
def Collected.addrsFor (acc : Collected) (handle : String) :
    Option (String × List (String × String)) :=
  (Fallible.lastMatch (fun e => decide (e.1 = handle)) acc.addrIndex).map Prod.snd

variable (V : Crates)

/-- The entries that the zone of a handle adds to the two indexes. -/
def collectClaims (acc : Collected) (handle : String) (zone : Zone) : Collected :=
  match V.recordsSig zone.records with
  | none => acc
  | some sig =>
      let acc :=
        match reverseOf V zone with
        | some rev => { acc with revs := acc.revs ++ [rev] }
        | none => acc
      let addrs := addrRecords V zone.records
      if addrs.isEmpty then acc
      else { acc with addrIndex := acc.addrIndex ++ [(handle, sig.handle.text, addrs)] }

/-- What the loop reads besides the certificates. -/
structure Batch where
  zones : List Zone
  existing : List HandleHintRow
  gatedSpaces : List String
  chargeContentLimits : Bool

variable {σ Msg : Type} (H : Handler σ Msg)

/-- A certificate with its zone and the metadata of the zone. -/
def bundle (zones : List Zone) (cert : Certificate) (zone : Zone) (space : String) :
    HandleRecord where
  cert := cert
  zone := zone
  epochHeight := epochOf H.isSingleLabel zones space
  offchainSeq := V.seqOr0 zone.records
  delegateOffchainSeq := V.delegateSeqOr0 zone

/-- Identical metadata and identical zone bytes: a redelivery. -/
def isRedelivery (stored : Option HandleHintRow) (record : HandleRecord) : Bool :=
  match stored with
  | some row =>
      decide ((row.epochHeight, row.offchainSeq, row.delegateOffchainSeq) =
        (record.epochHeight, record.offchainSeq, record.delegateOffchainSeq)) &&
        match V.zoneToVec record.zone with
        | .ok z => decide (zoneHash V z = row.zoneHash)
        | .error _ => false
  | none => false

/-- The limits per space and per handle, for churn only. -/
def withinLimits (charge : Bool) (stored : Option HandleHintRow) (record : HandleRecord)
    (space : String) (limits : σ) : Bool × σ :=
  if charge && !H.devMode &&
      chargesChurn (stored.map HandleHintRow.epochHeight) record.epochHeight then
    let (ok, limits) := H.limiters.checkSpace space limits
    if ok then H.limiters.checkHandle record.handle limits else (false, limits)
  else (true, limits)

/-- The filters on a bundled certificate. -/
def collectUpdate (batch : Batch) (space : String) (record : HandleRecord)
    (acc : Collected) (limits : σ) : Collected × σ :=
  let stored := hintOf batch.existing record.handle
  if isRedelivery V stored record then
    ({ acc with preskipped := acc.preskipped + 1 }, limits)
  else if stored.isNone && batch.gatedSpaces.contains space then
    ({ acc with gated := acc.gated + 1 }, limits)
  else
    let (ok, limits) :=
      withinLimits H batch.chargeContentLimits stored record space limits
    if ok then ({ acc with updates := acc.updates ++ [record] }, limits)
    else (acc, limits)

/-- The body of the loop over certificates. -/
def collectCert (batch : Batch) (s : Collected × σ) (cert : Certificate) : Collected × σ :=
  match zoneOf batch.zones cert.subject.text with
  | none => s
  | some zone =>
      if maxRecordsSize < zone.records.slice.length then s
      else
        let acc := collectClaims V s.1 cert.subject.text zone
        match V.space cert.subject with
        | none => (acc, s.2)
        | some space =>
            collectUpdate V H batch space (bundle V H batch.zones cert zone space) acc s.2

/-- The loop over certificates. -/
def collect (batch : Batch) (certs : List Certificate) (limits : σ) : Collected × σ :=
  certs.foldl (collectCert V H batch) ({}, limits)

/-- The loop over stored handles, each written with its own clock reading. -/
def writeAddrs (acc : Collected) : List (String × Nat) → Tables → Tables
  | [], db => db
  | (handle, now) :: rest, db =>
      match acc.addrsFor handle with
      | some (rev, addrs) => writeAddrs acc rest (setAddrs now db handle rev addrs)
      | none => writeAddrs acc rest db

/-- The writes of one message.  The clock is read by `update_handles`, by
`set_revs` and by each `set_addrs` in turn. -/
def applyCollected (clock : Nat → Nat) (db : Tables) (acc : Collected) :
    Except String (Tables × BulkStoreResult) := do
  let (db, result) ← updateHandles V (clock 0) db acc.updates
  let result :=
    { result with
      skipped := result.skipped + acc.preskipped
      gated := result.gated + acc.gated }
  let db := setRevs (clock 1) db acc.revs
  let stored := result.storedHandles.zipIdx.map (fun (handle, i) => (handle, clock (2 + i)))
  .ok (writeAddrs acc stored db, result)

/-- Verification against the stored root zones of the message's spaces. -/
def verifyMessage (msg : Msg) (db : Tables) : Except String VerifiedMessage := do
  let ctx ← getZones V db (H.spaces msg)
  H.verify H.devMode ctx msg

/-- What is collected from a message: its zones against the stored hints. -/
def collectMessage (gatedSpaces : List String) (charge : Bool) (msg : Msg) (db : Tables)
    (limits : σ) : Except String (Collected × σ) := do
  let res ← verifyMessage V H msg db
  let batch : Batch :=
    { zones := res.zones
      existing := getHandleHints db (res.certificates.map (fun c => c.subject.text))
      gatedSpaces := gatedSpaces
      chargeContentLimits := charge }
  .ok (collect V H batch res.certificates limits)

/-- The periodic cleanup of the rate limiters. -/
def tick (s : HandlerState σ) : HandlerState σ :=
  { s with
    msgCount := (s.msgCount + 1) % 2 ^ 64
    limits := if s.msgCount % 10000 = 0 then H.limiters.retainRecent s.limits else s.limits }

/-- `Handler::handle_message_opts`. -/
def handleMessageOpts (clock : Nat → Nat) (gatedSpaces : List String) (charge : Bool)
    (msg : Msg) (s : HandlerState σ) : Except String BulkStoreResult × HandlerState σ :=
  let s := tick H s
  match collectMessage V H gatedSpaces charge msg s.db s.limits with
  | .error e => (.error e, s)
  | .ok (acc, limits) =>
      match applyCollected V clock s.db acc with
      | .error e => (.error e, { s with limits := limits })
      | .ok (db, result) => (.ok result, { s with db := db, limits := limits })

end Collecting

section Spec

variable (V : Crates)

/-- The zone with which a message can change the row and the indexes of a handle. -/
def zoneFor (zones : List Zone) (handle : String) : Option Zone :=
  (zoneOf zones handle).filter (fun z => decide (z.records.slice.length ≤ maxRecordsSize))

/-- The reverse name and the addresses that a zone is indexed under. -/
def addrEntry (zone : Zone) : Option (String × List (String × String)) :=
  match V.recordsSig zone.records with
  | some sig =>
      if (addrRecords V zone.records).isEmpty then none
      else some (sig.handle.text, addrRecords V zone.records)
  | none => none

/-- The reverse row that a certificate adds. -/
def certRev (zones : List Zone) (cert : Certificate) : Option (String × String) :=
  (zoneFor zones cert.subject.text).bind (reverseOf V)

/-- The entry of the address index that a certificate adds. -/
def certAddrs (zones : List Zone) (cert : Certificate) :
    Option (String × String × List (String × String)) :=
  ((zoneFor zones cert.subject.text).bind (addrEntry V)).map
    (fun e => (cert.subject.text, e))

theorem collectClaims_eq
    (acc : Collected)
    (handle : String)
    (zone : Zone) :
    collectClaims V acc handle zone =
      { acc with
        revs := acc.revs ++ (reverseOf V zone).toList
        addrIndex := acc.addrIndex ++ ((addrEntry V zone).map (fun e => (handle, e))).toList } := by
  unfold collectClaims addrEntry
  cases hsig : V.recordsSig zone.records with
  | none =>
      simp [reverseOf, hsig]
  | some sig =>
      cases reverseOf V zone <;>
        cases hempty : (addrRecords V zone.records).isEmpty <;>
        simp [hempty]

variable {V} {σ Msg : Type} {H : Handler σ Msg}

/-- The filters add at most the record itself, and leave the indexes alone. -/
theorem collectUpdate_cases
    (batch : Batch)
    (space : String)
    (record : HandleRecord)
    (acc : Collected)
    (limits : σ) :
    let out := (collectUpdate V H batch space record acc limits).1
    out.revs = acc.revs ∧ out.addrIndex = acc.addrIndex ∧
      (out.updates = acc.updates ∨ out.updates = acc.updates ++ [record]) := by
  unfold collectUpdate
  dsimp only
  split_ifs
  · exact ⟨rfl, rfl, Or.inl rfl⟩
  · exact ⟨rfl, rfl, Or.inl rfl⟩
  · exact ⟨rfl, rfl, Or.inr rfl⟩
  · exact ⟨rfl, rfl, Or.inl rfl⟩

/-- What one certificate adds to what was collected. -/
structure CertAdds (V : Crates) (H : Handler σ Msg) (zones : List Zone) (cert : Certificate)
    (acc acc' : Collected) : Prop where
  revs : acc'.revs = acc.revs ++ (certRev V zones cert).toList
  addrIndex : acc'.addrIndex = acc.addrIndex ++ (certAddrs V zones cert).toList
  updates : acc'.updates = acc.updates ∨
    ∃ zone space, zoneFor zones cert.subject.text = some zone ∧
      V.space cert.subject = some space ∧
      acc'.updates = acc.updates ++ [bundle V H zones cert zone space]

/-- A certificate without an acceptable zone adds nothing. -/
theorem CertAdds.of_none
    {zones : List Zone}
    {cert : Certificate}
    (h : zoneFor zones cert.subject.text = none)
    (acc : Collected) :
    CertAdds V H zones cert acc acc := by
  refine ⟨?_, ?_, Or.inl rfl⟩
  · simp [certRev, h]
  · simp [certAddrs, h]

theorem collectCert_adds
    (batch : Batch)
    (s : Collected × σ)
    (cert : Certificate) :
    CertAdds V H batch.zones cert s.1 (collectCert V H batch s cert).1 := by
  unfold collectCert
  cases hzone : zoneOf batch.zones cert.subject.text with
  | none =>
      apply CertAdds.of_none
      rw [zoneFor, hzone, Option.filter_none]
  | some zone =>
      dsimp only
      split_ifs with hsize
      · apply CertAdds.of_none
        rw [zoneFor, hzone, Option.filter_some_neg]
        simpa using hsize
      · have hfor : zoneFor batch.zones cert.subject.text = some zone := by
          rw [zoneFor, hzone, Option.filter_some_pos]
          simpa using hsize
        have hrev : certRev V batch.zones cert = reverseOf V zone := by
          rw [certRev, hfor, Option.bind_some]
        have haddr : certAddrs V batch.zones cert =
            (addrEntry V zone).map (fun e => (cert.subject.text, e)) := by
          rw [certAddrs, hfor, Option.bind_some]
        rw [collectClaims_eq, ← hrev, ← haddr]
        cases hspace : V.space cert.subject with
        | none =>
            exact ⟨rfl, rfl, Or.inl rfl⟩
        | some space =>
            obtain ⟨hrevs, haddrs, hupdates⟩ := collectUpdate_cases (V := V) (H := H) batch space
              (bundle V H batch.zones cert zone space)
              { s.1 with
                revs := s.1.revs ++ (certRev V batch.zones cert).toList
                addrIndex := s.1.addrIndex ++ (certAddrs V batch.zones cert).toList } s.2
            refine ⟨hrevs, haddrs, ?_⟩
            rcases hupdates with h | h
            · exact Or.inl h
            · exact Or.inr ⟨zone, space, hfor, hspace, h⟩

/-- The indexes and the updates of a message, from its certificates and zones. -/
structure Collects (V : Crates) (H : Handler σ Msg) (zones : List Zone)
    (certs : List Certificate) (acc : Collected) : Prop where
  revs : acc.revs = certs.filterMap (certRev V zones)
  addrIndex : acc.addrIndex = certs.filterMap (certAddrs V zones)
  updates : ∀ u ∈ acc.updates, ∃ cert ∈ certs, ∃ zone space,
    zoneFor zones cert.subject.text = some zone ∧ V.space cert.subject = some space ∧
      u = bundle V H zones cert zone space

theorem filterMap_concat
    {α β : Type}
    (f : α → Option β)
    (l : List α)
    (a : α) :
    (l ++ [a]).filterMap f = l.filterMap f ++ (f a).toList := by
  rw [List.filterMap_append]
  cases h : f a <;> simp [h]

theorem collect_collects
    (batch : Batch)
    (certs : List Certificate)
    (limits : σ) :
    Collects V H batch.zones certs (collect V H batch certs limits).1 := by
  induction certs using List.reverseRecOn with
  | nil =>
      exact ⟨rfl, rfl, fun u hu => by cases hu⟩
  | append_singleton certs cert ih =>
      have hstep := collectCert_adds (V := V) (H := H) batch (collect V H batch certs limits) cert
      have hfold : collect V H batch (certs ++ [cert]) limits =
          collectCert V H batch (collect V H batch certs limits) cert :=
        List.foldl_concat _ _ _ _
      rw [hfold]
      constructor
      · rw [hstep.revs, ih.revs, filterMap_concat]
      · rw [hstep.addrIndex, ih.addrIndex, filterMap_concat]
      · have hold : ∀ u ∈ (collect V H batch certs limits).1.updates, ∃ c ∈ certs ++ [cert],
            ∃ zone space, zoneFor batch.zones c.subject.text = some zone ∧
              V.space c.subject = some space ∧ u = bundle V H batch.zones c zone space := by
          intro u hu
          obtain ⟨c, hc, hrest⟩ := ih.updates u hu
          exact ⟨c, List.mem_append_left _ hc, hrest⟩
        rcases hstep.updates with h | ⟨zone, space, hzone, hspace, h⟩
        · rw [h]
          exact hold
        · intro u hu
          rw [h] at hu
          rcases List.mem_append.1 hu with hu | hu
          · exact hold u hu
          · exact ⟨cert, by simp, zone, space, hzone, hspace, List.mem_singleton.1 hu⟩

namespace Collects

variable {zones : List Zone} {certs : List Certificate} {acc : Collected}

/-- **An update carries the zone of its handle, and metadata derived from it.** -/
theorem mem_updates
    (h : Collects V H zones certs acc)
    {u : HandleRecord}
    (hu : u ∈ acc.updates) :
    u.cert ∈ certs ∧ zoneFor zones u.handle = some u.zone ∧ Derived V u := by
  obtain ⟨cert, hcert, zone, space, hzone, _, rfl⟩ := h.updates u hu
  exact ⟨hcert, hzone, rfl, rfl⟩

/-- **The address index is a function of the zones** of the certified handles. -/
theorem addrsFor_eq
    (h : Collects V H zones certs acc)
    {cert : Certificate}
    (hcert : cert ∈ certs) :
    acc.addrsFor cert.subject.text = (zoneFor zones cert.subject.text).bind (addrEntry V) := by
  have hhandle : ∀ (c : Certificate) e, certAddrs V zones c = some e →
      decide (c.subject.text = cert.subject.text) =
        decide (e.1 = cert.subject.text) := by
    intro c e he
    obtain ⟨_, _, rfl⟩ := Option.map_eq_some_iff.1 he
    rfl
  unfold Collected.addrsFor
  rw [h.addrIndex, Fallible.lastMatch_filterMap hhandle]
  cases hlast : Fallible.lastMatch (fun c => decide (c.subject.text = cert.subject.text) &&
      (certAddrs V zones c).isSome) certs with
  | none =>
      -- then the certificate itself has no entry
      have hself := Fallible.lastMatch_eq_none.1 hlast cert hcert
      cases hentry : (zoneFor zones cert.subject.text).bind (addrEntry V) with
      | none =>
          rfl
      | some entry =>
          simp [certAddrs, hentry] at hself
  | some c =>
      obtain ⟨_, hp⟩ := Fallible.lastMatch_mem hlast
      rw [Bool.and_eq_true, decide_eq_true_eq] at hp
      rw [Option.bind_some, certAddrs, hp.1, Option.map_map]
      exact congrFun Option.map_id _

end Collects

end Spec

section Effects

variable {V : Crates} {σ Msg : Type} {H : Handler σ Msg}

/-- The addresses that the index holds for a handle. -/
def addrsIn (db : Tables) (handle : String) : List (String × String) :=
  (db.addrs.filter (fun a => decide (a.handle = handle))).map (fun a => (a.name, a.addr))

theorem addrsIn_setAddrs
    (now : Nat)
    (db : Tables)
    (handle rev : String)
    (entries : List (String × String))
    (other : String) :
    addrsIn (setAddrs now db handle rev entries) other =
      if handle = other then entries else addrsIn db other := by
  unfold addrsIn setAddrs
  rw [List.filter_append, List.map_append, List.filter_filter, List.filter_map]
  split_ifs with h
  · subst h
    have hold : db.addrs.filter
        (fun a => decide (a.handle = handle) && decide (a.handle ≠ handle)) = [] := by
      simp
    have hnew : entries.filter ((fun a : AddrRow => decide (a.handle = handle)) ∘
        fun p => ⟨p.1, p.2, handle, rev, now⟩) = entries := by
      simp
    rw [hold, hnew, List.map_nil, List.nil_append, List.map_map]
    exact List.map_id entries
  · have hold : db.addrs.filter
        (fun a => decide (a.handle = other) && decide (a.handle ≠ handle)) =
        db.addrs.filter (fun a => decide (a.handle = other)) := by
      apply List.filter_congr
      intro a _
      by_cases ha : a.handle = other
      · simp [ha, Ne.symm h]
      · simp [ha]
    have hnew : entries.filter ((fun a : AddrRow => decide (a.handle = other)) ∘
        fun p => ⟨p.1, p.2, handle, rev, now⟩) = [] := by
      simp [h]
    rw [hold, hnew, List.map_nil, List.map_nil, List.append_nil]

/-- Writing the addresses of stored handles changes no other table. -/
theorem writeAddrs_cases
    (acc : Collected)
    (stored : List (String × Nat))
    (db : Tables) :
    ∃ addrs, writeAddrs acc stored db = { db with addrs := addrs } := by
  induction stored generalizing db with
  | nil =>
      exact ⟨db.addrs, rfl⟩
  | cons head rest ih =>
      obtain ⟨handle, now⟩ := head
      unfold writeAddrs
      cases acc.addrsFor handle with
      | some entry =>
          exact ih (setAddrs now db handle entry.1 entry.2)
      | none =>
          exact ih db

/-- Writing the two indexes leaves the handles alone. -/
theorem sameHandles_writes
    (acc : Collected)
    (stored : List (String × Nat))
    (now : Nat)
    (revs : List (String × String))
    (db : Tables) :
    SameHandles db (writeAddrs acc stored (setRevs now db revs)) := by
  obtain ⟨addrs, haddrs⟩ := writeAddrs_cases acc stored (setRevs now db revs)
  rw [haddrs]
  exact ⟨rfl, rfl, rfl, rfl⟩

/-- Exactly the stored handles with an entry get their addresses rewritten. -/
theorem addrsIn_writeAddrs
    (acc : Collected)
    (stored : List (String × Nat))
    (db : Tables)
    (handle : String) :
    addrsIn (writeAddrs acc stored db) handle =
      match acc.addrsFor handle with
      | some (_, addrs) =>
          if handle ∈ stored.map Prod.fst then addrs else addrsIn db handle
      | none => addrsIn db handle := by
  induction stored generalizing db with
  | nil =>
      cases acc.addrsFor handle <;> simp [writeAddrs]
  | cons head rest ih =>
      obtain ⟨first, now⟩ := head
      unfold writeAddrs
      by_cases hfirst : first = handle
      · subst hfirst
        cases hentry : acc.addrsFor first with
        | none =>
            have hrest := ih db
            rw [hentry] at hrest
            exact hrest
        | some entry =>
            have hrest := ih (setAddrs now db first entry.1 entry.2)
            rw [hentry] at hrest
            simpa [addrsIn_setAddrs] using hrest
      · have hmem : handle ∈ List.map Prod.fst ((first, now) :: rest) ↔
            handle ∈ List.map Prod.fst rest := by
          simp [Ne.symm hfirst]
        simp only [hmem]
        cases acc.addrsFor first with
        | none =>
            exact ih db
        | some entry =>
            have hrest := ih (setAddrs now db first entry.1 entry.2)
            rw [addrsIn_setAddrs, if_neg hfirst] at hrest
            exact hrest

/-- What a message whose updates were stored wrote. -/
structure Written (V : Crates) (clock : Nat → Nat) (db db' : Tables) (acc : Collected) :
    Prop where
  intro ::
  writes : ∃ mid res stored,
    updateHandles V (clock 0) db acc.updates = .ok (mid, res) ∧
    stored.map Prod.fst = res.storedHandles ∧
    db' = writeAddrs acc stored (setRevs (clock 1) mid acc.revs)

/-- What the updates of a message are stored from. -/
def collectedFrom (V : Crates) (H : Handler σ Msg) (gatedSpaces : List String)
    (charge : Bool) (msg : Msg) (s : HandlerState σ) : Option Collected :=
  match collectMessage V H gatedSpaces charge msg s.db (tick H s).limits with
  | .ok (acc, _) => some acc
  | .error _ => none

theorem collectMessage_collects
    {gatedSpaces : List String}
    {charge : Bool}
    {msg : Msg}
    {db : Tables}
    {limits limits' : σ}
    {acc : Collected}
    (h : collectMessage V H gatedSpaces charge msg db limits = .ok (acc, limits')) :
    ∃ res, verifyMessage V H msg db = .ok res ∧
      Collects V H res.zones res.certificates acc := by
  obtain ⟨res, hres, h⟩ := Fallible.bind_eq_ok.1 h
  have hacc := congrArg Prod.fst (Except.ok.inj h)
  refine ⟨res, hres, ?_⟩
  show Collects V H res.zones res.certificates (acc, limits').1
  rw [← hacc]
  exact collect_collects (Batch.mk res.zones _ _ _) _ _

theorem collectedFrom_collects
    {gatedSpaces : List String}
    {charge : Bool}
    {msg : Msg}
    {s : HandlerState σ}
    {acc : Collected}
    (h : collectedFrom V H gatedSpaces charge msg s = some acc) :
    ∃ res, verifyMessage V H msg s.db = .ok res ∧
      Collects V H res.zones res.certificates acc := by
  unfold collectedFrom at h
  cases hcollect : collectMessage V H gatedSpaces charge msg s.db (tick H s).limits with
  | error e =>
      rw [hcollect] at h
      cases h
  | ok out =>
      rw [hcollect] at h
      cases h
      exact collectMessage_collects hcollect

/-- **What a message does to the tables**: nothing, or it stores what it collected. -/
theorem handleMessageOpts_cases
    (clock : Nat → Nat)
    (gatedSpaces : List String)
    (charge : Bool)
    (msg : Msg)
    (s : HandlerState σ) :
    let s' := (handleMessageOpts V H clock gatedSpaces charge msg s).2
    (s'.db = s.db ∧ ∀ acc, collectedFrom V H gatedSpaces charge msg s = some acc →
        ∀ mid res, updateHandles V (clock 0) s.db acc.updates ≠ .ok (mid, res)) ∨
      ∃ acc, collectedFrom V H gatedSpaces charge msg s = some acc ∧
        Written V clock s.db s'.db acc := by
  dsimp only
  unfold handleMessageOpts collectedFrom
  have hdb : (tick H s).db = s.db := rfl
  dsimp only
  rw [hdb]
  cases hcollect : collectMessage V H gatedSpaces charge msg s.db (tick H s).limits with
  | error e =>
      exact Or.inl ⟨rfl, fun acc h => by cases h⟩
  | ok out =>
      obtain ⟨acc, limits⟩ := out
      dsimp only
      cases happly : applyCollected V clock s.db acc with
      | error e =>
          refine Or.inl ⟨rfl, ?_⟩
          intro acc' hacc mid res hok
          cases hacc
          unfold applyCollected at happly
          rw [hok] at happly
          cases happly
      | ok written =>
          right
          refine ⟨acc, rfl, ?_⟩
          obtain ⟨⟨mid, res⟩, hupdate, happly⟩ := Fallible.bind_eq_ok.1 happly
          have hdb' := congrArg Prod.fst (Except.ok.inj happly)
          refine ⟨⟨mid, res, _, hupdate, ?_, hdb'.symm⟩⟩
          rw [List.map_map]
          exact List.zipIdx_map_fst 0 res.storedHandles

end Effects

section Events

variable (V : Crates) {σ Msg : Type}

/-- What changes the handles of a relay: a handled message, or an eviction. -/
inductive RelayEvent (σ Msg : Type)
  | message (H : Handler σ Msg) (clock : Nat → Nat) (gatedSpaces : List String)
      (charge : Bool) (msg : Msg)
  | deleteHandles (handles : List String)

/-- The state after an event. -/
def runEvent (s : HandlerState σ) : RelayEvent σ Msg → HandlerState σ
  | .message H clock gatedSpaces charge msg =>
      (handleMessageOpts V H clock gatedSpaces charge msg s).2
  | .deleteHandles handles => { s with db := (deleteHandles V s.db handles).1 }

/-- The state before the first event. -/
def HandlerState.fresh (limits : σ) : HandlerState σ :=
  ⟨Tables.init, 0, limits⟩

theorem Written.sameHandles
    {V : Crates}
    {clock : Nat → Nat}
    {db db' : Tables}
    {acc : Collected}
    (h : Written V clock db db' acc) :
    ∃ mid res, updateHandles V (clock 0) db acc.updates = .ok (mid, res) ∧
      SameHandles mid db' := by
  obtain ⟨mid, res, stored, hupdate, _, rfl⟩ := h
  exact ⟨mid, res, hupdate, sameHandles_writes acc stored _ _ mid⟩

/-- Every event leaves rows that hold encodings. -/
theorem rowsEncoded_runEvent
    {s : HandlerState σ}
    (hs : RowsEncoded V s.db)
    (event : RelayEvent σ Msg) :
    RowsEncoded V (runEvent V s event).db := by
  cases event with
  | message H clock gatedSpaces charge msg =>
      rcases handleMessageOpts_cases (V := V) (H := H) clock gatedSpaces charge msg s with
        ⟨hdb, _⟩ | ⟨acc, _, hwritten⟩
      · show RowsEncoded V (handleMessageOpts V H clock gatedSpaces charge msg s).2.db
        rw [hdb]
        exact hs
      · obtain ⟨mid, res, hupdate, hsame⟩ := hwritten.sameHandles
        intro r hr
        have hr' : r ∈ mid.handles.rows := by
          rw [← hsame.handles]
          exact hr
        exact rowsEncoded_updateHandles V hs hupdate r hr'
  | deleteHandles handles =>
      exact rowsEncoded_runCall V hs (.deleteHandles handles)

theorem storedZone_congr
    {db db' : Tables}
    (h : SameHandles db db')
    (handle : String) :
    storedZone V db' handle = storedZone V db handle := by
  unfold storedZone
  rw [h.handles]

/-- A message leaves under a handle what its updates leave there. -/
theorem storedZone_of_written
    {V : Crates}
    (hV : V.Lawful)
    {clock : Nat → Nat}
    {db db' : Tables}
    (hdb : RowsEncoded V db)
    {acc : Collected}
    (h : Written V clock db db' acc)
    (handle : String) :
    storedZone V db' handle =
      match lastAccepted V (clock 0) db handle acc.updates with
      | none => storedZone V db handle
      | some u => some (storedAs V (storedZone V db handle) u.zone) := by
  obtain ⟨mid, res, hupdate, hsame⟩ := h.sameHandles
  have hmid := storedZone_updateHandles hV hdb hupdate handle
  rw [storedZone_congr V hsame]
  exact hmid

theorem storedZone_deleteHandles
    (db : Tables)
    (handles : List String)
    (handle : String) :
    storedZone V (deleteHandles V db handles).1 handle =
      if handle ∈ handles then none else storedZone V db handle := by
  unfold storedZone
  rw [find?_deleteHandles]
  split_ifs <;> rfl

end Events

section Sample

/--
Crates over record sets of up to three bytes: the sequence number, then the name of a
primary Sig record, then an address.
-/
def Crates.ofSigned (certs : List Certificate) (zones : List Zone) : Crates :=
  { Crates.ofTables certs zones with
    recordsSig := fun r =>
      match r.slice with
      | _ :: name :: _ => some ⟨⟨if name = 0 then "alice" else "bob"⟩, 1⟩
      | _ => none
    recordsIter := fun r =>
      match r.slice with
      | _ :: _ :: addr :: _ => .ok [.addr "btc" [if addr = 0 then "bc1qold" else "bc1qnew"]]
      | _ => .ok [] }

theorem Crates.ofSigned_lawful
    {certs : List Certificate}
    {zones : List Zone}
    (hcerts : certs.length ≤ 256)
    (hzones : zones.length ≤ 16) :
    (Crates.ofSigned certs zones).Lawful :=
  have h := Crates.ofTables_lawful hcerts hzones
  ⟨h.cert_decode, h.zone_decode, h.zone_withRecords, h.seq_empty⟩

/-- A zone of a numbered handle with given records. -/
def signedZone (records : Bytes) : Zone :=
  { sampleZone 0 1 0 0 with
    records := ⟨records⟩
    numId := some "num1" }

/-- Verification that accepts a message for what it says. -/
def sampleHandler : Handler Unit VerifiedMessage where
  devMode := false
  limiters := ⟨fun _ s => (true, s), fun _ s => (true, s), id⟩
  spaces _ := []
  verify _ _ msg := .ok msg
  isSingleLabel n := n.text.toList.head? = some '@'

/-- A message that brings one zone of the sample handle. -/
def sampleMessage (zone : Zone) : RelayEvent Unit VerifiedMessage :=
  .message sampleHandler (fun _ => 0) [] true ⟨[zone], [sampleCert]⟩

end Sample

end CertRelay
