import CertRelay.Relay.Schema

/-!
# `SqliteStore::update_handles`

The bulk write of the store.  Each incoming record is serialized, compared with
the zone stored for its handle, possibly merged with the stored owner records,
and the survivors are written by one `INSERT OR REPLACE` under consecutive
numbers of the write counter.  Every record of a batch is compared with the
zone stored *before* the call, also when the batch names a handle twice, and
the values of the insert (the subquery that keeps a stored certificate
included) are computed before the first row is displaced.

`updateHandles` is what the two statements of a call do once SQLite takes them.
Each binds all its values at once, and SQLite refuses a statement with more than
`maxVariables` of them: `tryUpdateHandles` is the call with its refusals.

**Results.**  `updateHandles_cases` says what a successful call does to the
tables.  `updateHandles_find?` says it for one handle: the row of a handle
changes only if the batch has an accepted record for it, and then it is the row
of the last one.  `tryDeliver_eq_or` says that a refused call changes nothing.
-/

namespace CertRelay

/-- A certificate with its zone. -/
structure HandleRecord where
  cert : Certificate
  zone : Zone
  epochHeight : Nat
  offchainSeq : Nat
  delegateOffchainSeq : Nat
deriving DecidableEq

/-- The handle a record is stored under. -/
def HandleRecord.handle (u : HandleRecord) : String :=
  u.cert.subject.text

/-- The record of a sample zone, its metadata derived as the handler does. -/
def sampleRecord (z : Zone) : HandleRecord where
  cert := sampleCert
  zone := z
  epochHeight := 1
  offchainSeq := (z.records.slice.head?.map UInt8.toNat).getD 0
  delegateOffchainSeq :=
    match z.delegate with
    | .exist d => (d.records.slice.head?.map UInt8.toNat).getD 0
    | _ => 0

/-- Result of a bulk store operation. -/
structure BulkStoreResult where
  stored : Nat := 0
  skipped : Nat := 0
  gated : Nat := 0
  storedHandles : List String := []
deriving DecidableEq

/-- A record ready to be inserted. -/
structure Prepared where
  handle : String
  space : String
  certData : Bytes
  zoneData : Bytes
  epochHeight : Nat
  offchainSeq : Nat
  delegateOffchainSeq : Nat
  preserveCert : Bool
deriving DecidableEq

/-- Finality ordering for comparing zones; higher is more final. -/
def sovereigntyRank : SovereigntyState → Nat
  | .sovereign => 2
  | .pending => 1
  | .dependent => 0

/-- Both zones have an on-chain commitment, with equal state roots. -/
def sameCommitmentRoot (a b : Zone) : Bool :=
  match a.commitment, b.commitment with
  | .exist x, .exist y => decide (x.onchain.stateRoot = y.onchain.stateRoot)
  | _, _ => false

/-- Sequences are unix seconds; a record may claim at most six hours ahead. -/
def maxSeq (now : Nat) : Nat :=
  now + 6 * 3600

/-- `SQLITE_MAX_VARIABLE_NUMBER` of the bundled SQLite. -/
def maxVariables : ℕ := 32766

/-- What SQLite says of a statement with so many bound variables. -/
def refusal (count : ℕ) : Option String :=
  if maxVariables < count then some "too many SQL variables" else none

/-- A statement with so many bound variables is prepared. -/
def bindVariables (count : ℕ) : Except String Unit :=
  match refusal count with
  | some e => .error e
  | none => .ok ()

theorem bindVariables_eq_ok
    {count : ℕ} :
    bindVariables count = .ok () ↔ count ≤ maxVariables := by
  unfold bindVariables refusal
  split_ifs with h
  · exact iff_of_false (fun heq => by cases heq) (Nat.not_le_of_lt h)
  · exact iff_of_true rfl (Nat.le_of_not_lt h)

theorem bindVariables_of_lt
    {count : ℕ}
    (h : maxVariables < count) :
    bindVariables count = .error "too many SQL variables" := by
  unfold bindVariables refusal
  rw [if_pos h]

section UpdateHandles

variable (V : Crates)

def zoneHash (zoneData : Bytes) : Bytes :=
  V.sha256 zoneData

/-- The loop body that serializes one update. -/
def prepare (update : HandleRecord) : Except String Prepared := do
  let space ←
    match V.space update.cert.subject with
    | some space => .ok space
    | none => .error "certificate subject missing space"
  let certData ←
    (V.certToVec update.cert).mapError ("failed to serialize certificate: " ++ ·)
  let zoneData ←
    (V.zoneToVec update.zone).mapError ("failed to serialize zone: " ++ ·)
  .ok
    { handle := update.handle
      space := space
      certData := certData
      zoneData := zoneData
      epochHeight := update.epochHeight
      offchainSeq := update.offchainSeq
      delegateOffchainSeq := update.delegateOffchainSeq
      preserveCert := false }

/-- `get_zones_inner`: the zones stored under the given handles. -/
def getZonesInner (db : Tables) (handles : List String) :
    Except String (List (String × Zone)) :=
  (db.handles.rows.filter (fun r => decide (r.handle ∈ handles))).mapM fun r => do
    let zone ←
      (V.zoneFromSlice r.zoneData).mapError ("failed to deserialize zone: " ++ ·)
    .ok (r.handle, zone)

/-- Lookup in the map that `get_zones_inner` returns. -/
def lookupZone (zones : List (String × Zone)) (handle : String) : Option Zone :=
  (zones.find? (fun p => decide (p.1 = handle))).map Prod.snd

/-- A strictly fresher proof from the same key that does not lose finality. -/
def fresherProof (update existing : Zone) : Bool :=
  decide (update.scriptPubkey = existing.scriptPubkey) &&
    decide (existing.anchor < update.anchor) &&
    decide (sovereigntyRank existing.sovereignty ≤ sovereigntyRank update.sovereignty)

/-- The stored owner records are to be kept: same key, and they are fresher. -/
def keepsRecords (update existing : Zone) : Bool :=
  decide (existing.scriptPubkey = update.scriptPubkey) &&
    !existing.records.isEmpty &&
    (update.records.isEmpty ||
      decide (V.seqOr0 update.records < V.seqOr0 existing.records))

/-- The incoming zone with the owner records that survive the merge. -/
def mergedZone (update existing : Zone) : Zone :=
  if keepsRecords V update existing then
    { update with records := existing.records }
  else update

/-- Put the stored owner records into the entry when they are to be kept. -/
def mergeRecords (e : Prepared) (update existing : Zone) : Prepared :=
  if keepsRecords V update existing then
    match V.zoneToVec { update with records := existing.records } with
    | .ok bytes =>
        { e with
          zoneData := bytes
          offchainSeq := V.seqOr0 existing.records }
    -- the incoming zone is stored unmerged rather than dropped
    | .error _ => e
  else e

/-- The stored certificate is to be kept: this one omits the receipt. -/
def keepsCert (update : HandleRecord) (existing : Zone) : Bool :=
  decide (update.cert.witness = .root none) &&
    sameCommitmentRoot update.zone existing

/-- The stored zone is neither as good nor better. -/
def replaces (update existing : Zone) : Bool :=
  fresherProof update existing || V.better update existing

/-- The filter of `update_handles` at one entry. -/
def admitUpdate (now : Nat) (existing : Option Zone) (e : Prepared)
    (update : HandleRecord) : Option Prepared :=
  if maxSeq now < e.offchainSeq ∨ maxSeq now < e.delegateOffchainSeq then none
  else
    match existing with
    | none => some e
    | some existing =>
        if replaces V update.zone existing then
          some
            { mergeRecords V e update.zone existing with
              preserveCert := keepsCert update existing }
        else none

/-- The `cert_data` value: `SELECT cert_data` of the old row, or the bound bytes. -/
def certColumn (db : Tables) (e : Prepared) : Except String Bytes :=
  if e.preserveCert then
    match db.handles.find? e.handle with
    | some old => .ok old.certData
    | none => .error "NOT NULL constraint failed: handles.cert_data"
  else .ok e.certData

/-- The values of one inserted row, read from the tables before the insert. -/
def valuesRow (now : Nat) (db : Tables) (seq : Nat) (e : Prepared) :
    Except String Row := do
  let certData ← certColumn db e
  .ok
    { handle := e.handle
      space := e.space
      certData := certData
      zoneData := e.zoneData
      epochHeight := e.epochHeight
      offchainSeq := e.offchainSeq
      delegateOffchainSeq := e.delegateOffchainSeq
      syncSeq := seq + 1
      zoneHash := zoneHash V e.zoneData
      updatedAt := now
      syncSeq_pos := Nat.succ_pos seq }

/-- The values of the bulk insert, numbered from `base + 1`. -/
def valuesRows (now : Nat) (db : Tables) :
    Nat → List Prepared → Except String (List Row)
  | _, [] => .ok []
  | base, e :: es => do
      let r ← valuesRow V now db base e
      let rows ← valuesRows now db (base + 1) es
      .ok (r :: rows)

/-- `SqliteStore::update_handles` at clock `now`, where SQLite takes its statements. -/
def updateHandles (now : Nat) (db : Tables) (updates : List HandleRecord) :
    Except String (Tables × BulkStoreResult) :=
  if updates.isEmpty then .ok (db, {})
  else do
    let entries ← updates.mapM (prepare V)
    let existingZones ← getZonesInner V db (entries.map Prepared.handle)
    let toStore := (entries.zip updates).filterMap fun (e, update) =>
      admitUpdate V now (lookupZone existingZones e.handle) e update
    let skipped := updates.length - toStore.length
    if toStore.isEmpty then .ok (db, { skipped := skipped })
    else do
      let seqBase := db.syncCounter
      let rows ← valuesRows V now db seqBase toStore
      let db := { db with syncCounter := seqBase + toStore.length }
      .ok
        (db.insertRows rows,
          { stored := toStore.length
            skipped := skipped
            gated := 0
            storedHandles := toStore.map Prepared.handle })

/-- A call that fails commits nothing. -/
def deliver (now : Nat) (db : Tables) (updates : List HandleRecord) : Tables :=
  match updateHandles V now db updates with
  | .ok (db', _) => db'
  | .error _ => db

/-- `SqliteStore::update_handles`: the lookup of the stored zones binds one variable a
record, the insert ten a row. -/
def tryUpdateHandles (now : Nat) (db : Tables) (updates : List HandleRecord) :
    Except String (Tables × BulkStoreResult) := do
  let entries ← updates.mapM (prepare V)
  bindVariables entries.length
  let (db', res) ← updateHandles V now db updates
  bindVariables (10 * res.stored)
  .ok (db', res)

/-- What a call of `tryUpdateHandles` commits. -/
def tryDeliver (now : Nat) (db : Tables) (updates : List HandleRecord) : Tables :=
  match tryUpdateHandles V now db updates with
  | .ok (db', _) => db'
  | .error _ => db

/-- A successful call is what `deliver` commits. -/
theorem deliver_of_ok
    {now : Nat}
    {db db' : Tables}
    {updates : List HandleRecord}
    {res : BulkStoreResult}
    (h : updateHandles V now db updates = .ok (db', res)) :
    deliver V now db updates = db' := by
  unfold deliver
  rw [h]

/-- **A refused call changes nothing.** -/
theorem tryDeliver_eq_or
    (now : Nat)
    (db : Tables)
    (updates : List HandleRecord) :
    tryDeliver V now db updates = deliver V now db updates ∨
      tryDeliver V now db updates = db := by
  unfold tryDeliver
  cases htry : tryUpdateHandles V now db updates with
  | error e =>
      exact Or.inr rfl
  | ok out =>
      obtain ⟨_, _, h⟩ := Fallible.bind_eq_ok.1 htry
      obtain ⟨_, _, h⟩ := Fallible.bind_eq_ok.1 h
      obtain ⟨_, hout, h⟩ := Fallible.bind_eq_ok.1 h
      obtain ⟨_, _, h⟩ := Fallible.bind_eq_ok.1 h
      cases h
      exact Or.inl (deliver_of_ok V hout).symm

end UpdateHandles

section StoredZone

variable (V : Crates)

/-- The zone stored under a handle. -/
def storedZone (db : Tables) (handle : String) : Option Zone :=
  (db.handles.find? handle).bind fun r => (V.zoneFromSlice r.zoneData).toOption

theorem storedZone_eq_some_iff
    {db : Tables}
    {handle : String}
    {z : Zone} :
    storedZone V db handle = some z ↔
      ∃ r, db.handles.find? handle = some r ∧
        V.zoneFromSlice r.zoneData = .ok z := by
  unfold storedZone
  rw [Option.bind_eq_some_iff]
  simp only [Fallible.toOption_eq_some]

/-- On its handles `get_zones_inner` finds the stored zones, all decodable. -/
theorem getZonesInner_spec
    {db : Tables}
    {handles : List String}
    {zones : List (String × Zone)}
    (h : getZonesInner V db handles = .ok zones)
    {handle : String}
    (hmem : handle ∈ handles) :
    lookupZone zones handle = storedZone V db handle ∧
      ∀ r, db.handles.find? handle = some r →
        ∃ z, V.zoneFromSlice r.zoneData = .ok z := by
  have hrel := Fallible.mapM_eq_ok_iff.1 h
  have hsel :
      (db.handles.rows.filter (fun r => decide (r.handle ∈ handles))).find?
          (fun r => decide (r.handle = handle)) =
        db.handles.find? handle := by
    rw [List.find?_filter]
    unfold KeyedTable.find?
    congr 1
    funext r
    by_cases hr : r.handle = handle
    · simp [hr, hmem]
    · simp [hr]
  unfold storedZone lookupZone
  rw [← hsel]
  clear hsel h
  generalize db.handles.rows.filter (fun r => decide (r.handle ∈ handles)) = rows at hrel ⊢
  induction hrel with
  | nil =>
      exact ⟨rfl, by simp⟩
  | @cons r p rows zones hp _ ih =>
      obtain ⟨z, hz, hpair⟩ := Fallible.bind_eq_ok.1 hp
      rw [Fallible.mapError_eq_ok] at hz
      cases hpair
      rw [List.find?_cons, List.find?_cons]
      by_cases hr : r.handle = handle
      · simp [hr, hz, Except.toOption]
      · simpa [hr] using ih

end StoredZone

section Outcome

variable (V : Crates)

theorem prepare_eq_ok_iff
    {u : HandleRecord}
    {e : Prepared} :
    prepare V u = .ok e ↔
      ∃ space certData zoneData,
        V.space u.cert.subject = some space ∧
        V.certToVec u.cert = .ok certData ∧
        V.zoneToVec u.zone = .ok zoneData ∧
        e = ⟨u.handle, space, certData, zoneData, u.epochHeight, u.offchainSeq,
          u.delegateOffchainSeq, false⟩ := by
  unfold prepare
  cases hs : V.space u.cert.subject with
  | none =>
      constructor
      · intro h
        cases h
      · rintro ⟨space, _, _, h, _⟩
        cases h
  | some space =>
      rw [Fallible.bind_eq_ok]
      constructor
      · rintro ⟨space', hspace, h⟩
        cases hspace
        obtain ⟨certData, hc, h⟩ := Fallible.bind_eq_ok.1 h
        obtain ⟨zoneData, hz, h⟩ := Fallible.bind_eq_ok.1 h
        cases h
        exact ⟨space, certData, zoneData, rfl,
          Fallible.mapError_eq_ok.1 hc, Fallible.mapError_eq_ok.1 hz, rfl⟩
      · rintro ⟨space', certData, zoneData, hspace, hc, hz, rfl⟩
        cases hspace
        refine ⟨space, rfl, Fallible.bind_eq_ok.2 ⟨certData, ?_, ?_⟩⟩
        · exact Fallible.mapError_eq_ok.2 hc
        · exact Fallible.bind_eq_ok.2 ⟨zoneData, Fallible.mapError_eq_ok.2 hz, rfl⟩

theorem prepare_handle
    {u : HandleRecord}
    {e : Prepared}
    (h : prepare V u = .ok e) :
    e.handle = u.handle := by
  obtain ⟨_, _, _, _, _, _, rfl⟩ := (prepare_eq_ok_iff V).1 h
  rfl

/-- A record passes the filter against the zone stored for its handle. -/
def accepts (now : Nat) (existing : Option Zone) (u : HandleRecord) : Bool :=
  decide (u.offchainSeq ≤ maxSeq now) &&
    decide (u.delegateOffchainSeq ≤ maxSeq now) &&
    match existing with
    | none => true
    | some z => replaces V u.zone z

/-- The entry that an accepted record is stored as. -/
def entryFor (existing : Option Zone) (e : Prepared) (u : HandleRecord) : Prepared :=
  match existing with
  | none => e
  | some z => { mergeRecords V e u.zone z with preserveCert := keepsCert u z }

theorem admit_eq
    (now : Nat)
    (existing : Option Zone)
    {u : HandleRecord}
    {e : Prepared}
    (h : prepare V u = .ok e) :
    admitUpdate V now existing e u =
      if accepts V now existing u then some (entryFor V existing e u) else none := by
  obtain ⟨_, _, _, _, _, _, rfl⟩ := (prepare_eq_ok_iff V).1 h
  unfold admitUpdate accepts entryFor
  by_cases hseq : maxSeq now < u.offchainSeq ∨ maxSeq now < u.delegateOffchainSeq
  · rw [if_pos hseq]
    rcases hseq with hseq | hseq <;> simp [Nat.not_le.2 hseq]
  · rw [if_neg hseq]
    obtain ⟨h₁, h₂⟩ := not_or.1 hseq
    cases existing <;> simp [Nat.not_lt.1 h₁, Nat.not_lt.1 h₂]

/-- The merge touches the zone blob and the owner sequence only. -/
theorem mergeRecords_eq
    (e : Prepared)
    (update existing : Zone) :
    ∃ zoneData offchainSeq,
      mergeRecords V e update existing =
        { e with zoneData := zoneData, offchainSeq := offchainSeq } := by
  unfold mergeRecords
  split_ifs
  · split
    · exact ⟨_, _, rfl⟩
    · exact ⟨_, _, rfl⟩
  · exact ⟨_, _, rfl⟩

theorem entryFor_eq
    (existing : Option Zone)
    (e : Prepared)
    (u : HandleRecord) :
    ∃ zoneData offchainSeq preserveCert,
      entryFor V existing e u =
        { e with
          zoneData := zoneData
          offchainSeq := offchainSeq
          preserveCert := preserveCert } := by
  cases existing with
  | none =>
      exact ⟨_, _, _, rfl⟩
  | some z =>
      obtain ⟨zoneData, offchainSeq, h⟩ := mergeRecords_eq V e u.zone z
      exact ⟨zoneData, offchainSeq, keepsCert u z, by simp only [entryFor, h]⟩

@[simp] theorem entryFor_handle
    (existing : Option Zone)
    (e : Prepared)
    (u : HandleRecord) :
    (entryFor V existing e u).handle = e.handle := by
  obtain ⟨_, _, _, h⟩ := entryFor_eq V existing e u
  rw [h]

@[simp] theorem entryFor_space
    (existing : Option Zone)
    (e : Prepared)
    (u : HandleRecord) :
    (entryFor V existing e u).space = e.space := by
  obtain ⟨_, _, _, h⟩ := entryFor_eq V existing e u
  rw [h]

@[simp] theorem entryFor_certData
    (existing : Option Zone)
    (e : Prepared)
    (u : HandleRecord) :
    (entryFor V existing e u).certData = e.certData := by
  obtain ⟨_, _, _, h⟩ := entryFor_eq V existing e u
  rw [h]

@[simp] theorem entryFor_delegateOffchainSeq
    (existing : Option Zone)
    (e : Prepared)
    (u : HandleRecord) :
    (entryFor V existing e u).delegateOffchainSeq = e.delegateOffchainSeq := by
  obtain ⟨_, _, _, h⟩ := entryFor_eq V existing e u
  rw [h]

/-- What is stored of one record, given the zones stored before the call. -/
def survivor (now : Nat) (existing : String → Option Zone) (u : HandleRecord) :
    Option Prepared :=
  match prepare V u with
  | .ok e => admitUpdate V now (existing u.handle) e u
  | .error _ => none

theorem survivor_eq_some_iff
    {now : Nat}
    {existing : String → Option Zone}
    {u : HandleRecord}
    {e' : Prepared} :
    survivor V now existing u = some e' ↔
      accepts V now (existing u.handle) u = true ∧
        ∃ e, prepare V u = .ok e ∧ e' = entryFor V (existing u.handle) e u := by
  unfold survivor
  cases hp : prepare V u with
  | error err =>
      simp
  | ok e =>
      simp only [admit_eq V now _ hp]
      split_ifs with ha
      · simp [ha, eq_comm]
      · simp [ha]

theorem survivor_handle
    {now : Nat}
    {existing : String → Option Zone}
    {u : HandleRecord}
    {e' : Prepared}
    (h : survivor V now existing u = some e') :
    e'.handle = u.handle := by
  obtain ⟨_, e, he, rfl⟩ := (survivor_eq_some_iff V).1 h
  rw [entryFor_handle, prepare_handle V he]

/-- The records of a batch that are written, in order. -/
def toStore (now : Nat) (db : Tables) (updates : List HandleRecord) : List Prepared :=
  updates.filterMap (survivor V now (storedZone V db))

/-- The filter of a call is record by record, against the zones stored before. -/
theorem filtered_eq_toStore
    {now : Nat}
    {db : Tables}
    {updates : List HandleRecord}
    {entries : List Prepared}
    {zones : List (String × Zone)}
    (hentries : updates.mapM (prepare V) = .ok entries)
    (hzones : getZonesInner V db (entries.map Prepared.handle) = .ok zones) :
    ((entries.zip updates).filterMap fun (e, u) =>
        admitUpdate V now (lookupZone zones e.handle) e u) =
      toStore V now db updates := by
  have hrel := Fallible.mapM_eq_ok_iff.1 hentries
  have hlookup : ∀ e ∈ entries, lookupZone zones e.handle = storedZone V db e.handle :=
    fun e he => (getZonesInner_spec V hzones (List.mem_map_of_mem he)).1
  clear hentries hzones
  induction hrel with
  | nil =>
      rfl
  | @cons u e updates entries hp _ ih =>
      have hhead :
          survivor V now (storedZone V db) u =
            admitUpdate V now (lookupZone zones e.handle) e u := by
        unfold survivor
        rw [hp, hlookup e (by simp), prepare_handle V hp]
      have htail := ih (fun e' he' => hlookup e' (List.mem_cons_of_mem _ he'))
      unfold toStore at htail ⊢
      simp only [List.zip_cons_cons, List.filterMap_cons, hhead, htail]

/-- A row inserted for an entry, given the tables before the insert. -/
structure RowOf (now : Nat) (db : Tables) (e : Prepared) (r : Row) : Prop where
  handle : r.handle = e.handle
  space : r.space = e.space
  freshCert : e.preserveCert = false → r.certData = e.certData
  keptCert : e.preserveCert = true →
    ∃ old, db.handles.find? e.handle = some old ∧ r.certData = old.certData
  zoneData : r.zoneData = e.zoneData
  epochHeight : r.epochHeight = e.epochHeight
  offchainSeq : r.offchainSeq = e.offchainSeq
  delegateOffchainSeq : r.delegateOffchainSeq = e.delegateOffchainSeq
  zoneHash : r.zoneHash = zoneHash V e.zoneData
  updatedAt : r.updatedAt = now

theorem valuesRow_ok
    {now : Nat}
    {db : Tables}
    {seq : Nat}
    {e : Prepared}
    {r : Row}
    (h : valuesRow V now db seq e = .ok r) :
    RowOf V now db e r ∧ r.syncSeq = seq + 1 := by
  obtain ⟨certData, hcert, hrow⟩ := Fallible.bind_eq_ok.1 h
  unfold certColumn at hcert
  cases hrow
  refine ⟨⟨rfl, rfl, ?_, ?_, rfl, rfl, rfl, rfl, rfl, rfl⟩, rfl⟩
  · intro hkeep
    rw [hkeep] at hcert
    cases hcert
    rfl
  · intro hkeep
    rw [if_pos hkeep] at hcert
    cases hfind : db.handles.find? e.handle with
    | none =>
        rw [hfind] at hcert
        cases hcert
    | some old =>
        rw [hfind] at hcert
        cases hcert
        exact ⟨old, rfl, rfl⟩

/-- The rows of the bulk insert, in order and numbered without gaps. -/
theorem valuesRows_ok
    {now : Nat}
    {db : Tables}
    {base : Nat}
    {es : List Prepared}
    {rows : List Row}
    (h : valuesRows V now db base es = .ok rows) :
    List.Forall₂ (RowOf V now db) es rows ∧
      rows.map Row.syncSeq = List.range' (base + 1) es.length := by
  induction es generalizing base rows with
  | nil =>
      cases h
      exact ⟨.nil, rfl⟩
  | cons e es ih =>
      obtain ⟨r, hr, h⟩ := Fallible.bind_eq_ok.1 h
      obtain ⟨rest, hrest, h⟩ := Fallible.bind_eq_ok.1 h
      cases h
      obtain ⟨hrow, hseq⟩ := valuesRow_ok V hr
      obtain ⟨hrows, hseqs⟩ := ih hrest
      refine ⟨.cons hrow hrows, ?_⟩
      rw [List.map_cons, hseq, hseqs, List.length_cons, List.range'_succ]

theorem map_handle_of_rowOf
    {now : Nat}
    {db : Tables}
    {es : List Prepared}
    {rows : List Row}
    (h : List.Forall₂ (RowOf V now db) es rows) :
    rows.map Row.handle = es.map Prepared.handle := by
  induction h with
  | nil =>
      rfl
  | cons hrow _ ih =>
      rw [List.map_cons, List.map_cons, hrow.handle, ih]

/-- The insert finds every certificate it is told to keep. -/
theorem valuesRows_total
    (now : Nat)
    (db : Tables)
    (base : Nat)
    {es : List Prepared}
    (h : ∀ e ∈ es, e.preserveCert = true → (db.handles.find? e.handle).isSome) :
    ∃ rows, valuesRows V now db base es = .ok rows := by
  induction es generalizing base with
  | nil =>
      exact ⟨[], rfl⟩
  | cons e es ih =>
      obtain ⟨rest, hrest⟩ := ih (base + 1) (fun e' he' => h e' (List.mem_cons_of_mem _ he'))
      have hrow : ∃ r, valuesRow V now db base e = .ok r := by
        unfold valuesRow certColumn
        cases hkeep : e.preserveCert with
        | false =>
            exact ⟨_, rfl⟩
        | true =>
            obtain ⟨old, hold⟩ := Option.isSome_iff_exists.1 (h e (by simp) hkeep)
            exact ⟨_, by rw [hold]; rfl⟩
      obtain ⟨r, hr⟩ := hrow
      exact ⟨r :: rest, Fallible.bind_eq_ok.2 ⟨r, hr, Fallible.bind_eq_ok.2 ⟨rest, hrest, rfl⟩⟩⟩

/-- **What a successful call does.**  The counter moves past the written rows,
and these are inserted one after the other. -/
theorem updateHandles_cases
    {now : Nat}
    {db db' : Tables}
    {updates : List HandleRecord}
    {res : BulkStoreResult}
    (h : updateHandles V now db updates = .ok (db', res)) :
    (∀ u ∈ updates, ∃ e, prepare V u = .ok e) ∧
      res.storedHandles = (toStore V now db updates).map Prepared.handle ∧
      ∃ rows,
        valuesRows V now db db.syncCounter (toStore V now db updates) = .ok rows ∧
        db' = ({ db with
          syncCounter := db.syncCounter + (toStore V now db updates).length }
            : Tables).insertRows rows := by
  unfold updateHandles at h
  split_ifs at h with hempty
  · cases h
    rw [List.isEmpty_iff] at hempty
    subst hempty
    exact ⟨by simp, rfl, [], rfl, rfl⟩
  · obtain ⟨entries, hentries, h⟩ := Fallible.bind_eq_ok.1 h
    obtain ⟨zones, hzones, h⟩ := Fallible.bind_eq_ok.1 h
    have hrel := Fallible.mapM_eq_ok_iff.1 hentries
    have hprepared : ∀ u ∈ updates, ∃ e, prepare V u = .ok e := by
      intro u hu
      obtain ⟨e, _, he⟩ := Fallible.exists_of_forall₂_left hrel hu
      exact ⟨e, he⟩
    simp only [filtered_eq_toStore V hentries hzones] at h
    refine ⟨hprepared, ?_⟩
    split_ifs at h with hnone
    · cases h
      rw [List.isEmpty_iff] at hnone
      rw [hnone]
      exact ⟨rfl, [], rfl, rfl⟩
    · obtain ⟨rows, hrows, h⟩ := Fallible.bind_eq_ok.1 h
      cases h
      exact ⟨rfl, rows, hrows, rfl⟩

/-- The last record of the batch that is accepted for a handle. -/
def lastAccepted (now : Nat) (db : Tables) (handle : String)
    (updates : List HandleRecord) : Option HandleRecord :=
  Fallible.lastMatch
    (fun u => decide (u.handle = handle) && accepts V now (storedZone V db handle) u)
    updates

/-- A record that can be prepared is written exactly if it is accepted. -/
theorem isSome_survivor
    {now : Nat}
    {existing : String → Option Zone}
    {u : HandleRecord}
    {e : Prepared}
    (he : prepare V u = .ok e) :
    (survivor V now existing u).isSome = accepts V now (existing u.handle) u := by
  rw [Bool.eq_iff_iff, Option.isSome_iff_exists]
  constructor
  · rintro ⟨e', he'⟩
    exact ((survivor_eq_some_iff V).1 he').1
  · intro ha
    exact ⟨_, (survivor_eq_some_iff V).2 ⟨ha, e, he, rfl⟩⟩

/-- The last record written for a handle is the last one accepted. -/
theorem lastMatch_survivor
    {now : Nat}
    {db : Tables}
    {updates : List HandleRecord}
    (hprepared : ∀ u ∈ updates, ∃ e, prepare V u = .ok e)
    (handle : String) :
    Fallible.lastMatch
        (fun u => decide (u.handle = handle) && (survivor V now (storedZone V db) u).isSome)
        updates =
      lastAccepted V now db handle updates := by
  apply Fallible.lastMatch_congr
  intro u hu
  obtain ⟨e, he⟩ := hprepared u hu
  by_cases hhandle : u.handle = handle
  · subst hhandle
    rw [isSome_survivor V he]
  · simp [hhandle]

/-- The row of a handle is the one written for its last accepted record. -/
structure WrittenFor (now : Nat) (db : Tables) (u : HandleRecord) (r : Row) : Prop where
  intro ::
  prepared : ∃ e, prepare V u = .ok e ∧
    RowOf V now db (entryFor V (storedZone V db u.handle) e u) r
  handle : r.handle = u.handle
  syncSeq : db.syncCounter < r.syncSeq

/-- **What a successful call does to one handle.** -/
theorem updateHandles_find?
    {now : Nat}
    {db db' : Tables}
    {updates : List HandleRecord}
    {res : BulkStoreResult}
    (h : updateHandles V now db updates = .ok (db', res))
    (handle : String) :
    match lastAccepted V now db handle updates with
    | none => db'.handles.find? handle = db.handles.find? handle
    | some u => ∃ r, db'.handles.find? handle = some r ∧ WrittenFor V now db u r := by
  obtain ⟨hprepared, _, rows, hrows, rfl⟩ := updateHandles_cases V h
  obtain ⟨hrel, hseqs⟩ := valuesRows_ok V hrows
  rw [Tables.find?_insertRows]
  have hlast := Fallible.lastMatch_rel
    (p := fun e => decide (e.handle = handle)) (q := fun r => decide (r.handle = handle))
    (fun e r (her : RowOf V now db e r) => by rw [her.handle]) hrel
  rw [toStore, Fallible.lastMatch_filterMap (p := fun u => decide (u.handle = handle))
    (fun u e hu => by rw [survivor_handle V hu])] at hlast
  rw [lastMatch_survivor V hprepared] at hlast
  cases hu : lastAccepted V now db handle updates with
  | none =>
      rw [hu] at hlast
      have hnone :
          Fallible.lastMatch (fun r => decide (r.handle = handle)) rows = none := by
        generalize Fallible.lastMatch (fun r => decide (r.handle = handle)) rows = x at hlast
        cases hlast
        rfl
      rw [hnone]
      rfl
  | some u =>
      obtain ⟨hmem, hp⟩ := Fallible.lastMatch_mem hu
      rw [Bool.and_eq_true, decide_eq_true_eq] at hp
      obtain ⟨rfl, ha⟩ := hp
      obtain ⟨e, he⟩ := hprepared u hmem
      have hsurv :
          survivor V now (storedZone V db) u =
            some (entryFor V (storedZone V db u.handle) e u) :=
        (survivor_eq_some_iff V).2 ⟨ha, e, he, rfl⟩
      rw [hu, Option.bind_some, hsurv] at hlast
      cases hr : Fallible.lastMatch (fun r => decide (r.handle = u.handle)) rows with
      | none =>
          rw [hr] at hlast
          cases hlast
      | some r =>
          rw [hr] at hlast
          cases hlast with
          | some hrow =>
              obtain ⟨hrmem, hrhandle⟩ := Fallible.lastMatch_mem hr
              have hseq : r.syncSeq ∈ rows.map Row.syncSeq :=
                List.mem_map_of_mem hrmem
              rw [hseqs, List.mem_range'_1] at hseq
              refine ⟨r, by rw [Option.some_or], ⟨e, he, hrow⟩, ?_, by omega⟩
              simpa using hrhandle

end Outcome

end CertRelay
