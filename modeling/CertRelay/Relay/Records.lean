import CertRelay.Relay.Deliveries
import CertRelay.Lib.Runs

/-!
# Owner records and delegate records over runs

The merge of `updateHandles` keeps the stored owner records when they are
fresher.  Nothing does the same for the delegate: the delegate of the accepted
update is stored as it is.

**Results.**
* `owner_records_never_regress`: under one key neither a call nor a run that
  spares the handle takes owner records back;
* `delegate_seq_kept_iff`: a call keeps the stored delegate sequence exactly
  when its last accepted record does not carry an older one.
-/

namespace CertRelay

section Owner

variable (V : Crates)

/-- The owner records of `z'` are no step back from those of `z`. -/
structure RecordsKept (z z' : Zone) : Prop where
  nonempty : z.records.isEmpty = false → z'.records.isEmpty = false
  seq : V.seqOr0 z.records ≤ V.seqOr0 z'.records

variable {V}

theorem RecordsKept.of_rank_le
    (hV : V.Lawful)
    {z z' : Zone}
    (h : V.recordsRank z ≤ V.recordsRank z') :
    RecordsKept V z z' where
  nonempty hz := by
    rw [← V.recordsRank_pos_iff] at hz ⊢
    omega
  seq := V.seqOr0_le_of_recordsRank_le hV h

/-- What is stored for an update under the same key has no smaller rank. -/
theorem recordsRank_le_storedAs
    {z update : Zone}
    (hkey : update.scriptPubkey = z.scriptPubkey) :
    V.recordsRank z ≤ V.recordsRank (storedAs V (some z) update) := by
  show V.recordsRank z ≤ V.recordsRank (mergedZone V update z)
  rw [recordsRank_mergedZone V hkey]
  exact Nat.le_max_left _ _

/-- A step that does not delete a handle and does not change its key. -/
def KeepsKey (V : Crates) (handle : String) (key : Bytes) (db : Tables) (call : StoreCall) :
    Prop :=
  call.Spares handle ∧
    ∀ z, storedZone V (runCall V db call) handle = some z → z.scriptPubkey = key

/-- The handle holds a zone under `key` whose owner records rank at least `rank`. -/
def HoldsRecords (V : Crates) (handle : String) (key : Bytes) (rank : Nat) (db : Tables) :
    Prop :=
  RowsEncoded V db ∧ ∃ z, storedZone V db handle = some z ∧
    z.scriptPubkey = key ∧ rank ≤ V.recordsRank z

theorem holdsRecords_step
    (hV : V.Lawful)
    {handle : String}
    {key : Bytes}
    {rank : Nat}
    (db : Tables)
    (call : StoreCall)
    (hholds : HoldsRecords V handle key rank db)
    (hcall : KeepsKey V handle key db call) :
    HoldsRecords V handle key rank (runCall V db call) := by
  obtain ⟨hdb, z, hz, hkey, hrank⟩ := hholds
  refine ⟨rowsEncoded_runCall V hdb call, ?_⟩
  rcases storedZone_runCall hV hdb hcall.1 with hsame | ⟨_, _, u, _, _, hstored⟩
  · exact ⟨z, hsame.trans hz, hkey, hrank⟩
  · have hkey' := hcall.2 _ hstored
    rw [storedAs_scriptPubkey] at hkey'
    refine ⟨_, hstored, by rw [storedAs_scriptPubkey]; exact hkey', ?_⟩
    rw [hz]
    exact hrank.trans (recordsRank_le_storedAs (hkey'.trans hkey.symm))

/-- **Owner records never regress**, in a call and over a run. -/
theorem owner_records_never_regress
    (hV : V.Lawful)
    {db : Tables}
    (hdb : Reachable V db)
    {handle : String}
    {z : Zone}
    (hz : storedZone V db handle = some z) :
    (∀ now updates db' res, updateHandles V now db updates = .ok (db', res) →
      ∀ z', storedZone V db' handle = some z' →
        z'.scriptPubkey = z.scriptPubkey → RecordsKept V z z') ∧
    (∀ calls, Runs.StepsMeet (runCall V) (KeepsKey V handle z.scriptPubkey) db calls →
      ∃ z', storedZone V (runCalls V db calls) handle = some z' ∧
        z'.scriptPubkey = z.scriptPubkey ∧ RecordsKept V z z') := by
  have henc := reachable_rowsEncoded V hdb
  constructor
  · intro now updates db' res hok z' hz' hkey
    rw [storedZone_updateHandles hV henc hok, hz] at hz'
    cases hlast : lastAccepted V now db handle updates with
    | none =>
        rw [hlast] at hz'
        cases hz'
        exact RecordsKept.of_rank_le hV le_rfl
    | some u =>
        rw [hlast] at hz'
        cases hz'
        rw [storedAs_scriptPubkey] at hkey
        exact RecordsKept.of_rank_le hV (recordsRank_le_storedAs hkey)
  · intro calls hcalls
    have hholds : HoldsRecords V handle z.scriptPubkey (V.recordsRank z) db :=
      ⟨henc, z, hz, rfl, le_rfl⟩
    obtain ⟨_, z', hz', hkey, hrank⟩ :=
      hcalls.invariant (holdsRecords_step hV) hholds
    exact ⟨z', hz', hkey, RecordsKept.of_rank_le hV hrank⟩

/-- A fresher proof with older owner records leaves the newer ones in place. -/
theorem owner_records_never_regress_sample :
    let V := Crates.ofTables [sampleCert] [sampleZone 2 1 0 0, sampleZone 1 2 0 0]
    let db := runCalls V Tables.init [.updateHandles 0 [sampleRecord (sampleZone 2 1 0 0)]]
    ∃ z', storedZone V
        (runCalls V db [.updateHandles 0 [sampleRecord (sampleZone 1 2 0 0)]])
          "alice@bitcoin" = some z' ∧
      z'.scriptPubkey = [1] ∧ RecordsKept V (sampleZone 2 1 0 0) z' := by
  intro V db
  have hV : V.Lawful := Crates.ofTables_lawful (by decide) (by decide)
  have hdb : Reachable V db := ⟨_, rfl⟩
  have hz : storedZone V db "alice@bitcoin" = some (sampleZone 2 1 0 0) := by
    decide
  refine (owner_records_never_regress hV hdb hz).2 _ (And.intro ⟨trivial, ?_⟩ trivial)
  intro z hz
  have hstored :
      storedZone V (runCall V db (.updateHandles 0 [sampleRecord (sampleZone 1 2 0 0)]))
        "alice@bitcoin" = some (sampleZone 2 2 0 0) := by
    decide
  rw [hstored] at hz
  cases hz
  rfl

end Owner

section Delegate

variable {V : Crates}

/-- The metadata of a record is derived from its zone, as the handler does. -/
structure Derived (V : Crates) (u : HandleRecord) : Prop where
  offchainSeq : u.offchainSeq = V.seqOr0 u.zone.records
  delegateOffchainSeq : u.delegateOffchainSeq = V.delegateSeqOr0 u.zone

/-- The delegate sequence of a row, read from the column. -/
def storedDelegateSeq (db : Tables) (handle : String) : Option Nat :=
  (db.handles.find? handle).map Row.delegateOffchainSeq

/-- The delegate column of each handle agrees with its stored zone. -/
def DelegateColumns (V : Crates) (db : Tables) : Prop :=
  ∀ handle z, storedZone V db handle = some z →
    storedDelegateSeq db handle = some (V.delegateSeqOr0 z)

theorem delegateSeqOr0_storedAs
    (existing : Option Zone)
    (update : Zone) :
    V.delegateSeqOr0 (storedAs V existing update) = V.delegateSeqOr0 update := by
  unfold Crates.delegateSeqOr0
  rw [storedAs_delegate]

/-- The delegate column after a call is the one of the last accepted record. -/
theorem storedDelegateSeq_updateHandles
    {now : Nat}
    {db db' : Tables}
    {updates : List HandleRecord}
    {res : BulkStoreResult}
    (h : updateHandles V now db updates = .ok (db', res))
    (handle : String) :
    storedDelegateSeq db' handle =
      match lastAccepted V now db handle updates with
      | none => storedDelegateSeq db handle
      | some u => some u.delegateOffchainSeq := by
  have hrow := updateHandles_find? V h handle
  cases hlast : lastAccepted V now db handle updates with
  | none =>
      rw [hlast] at hrow
      unfold storedDelegateSeq
      rw [hrow]
  | some u =>
      rw [hlast] at hrow
      obtain ⟨r, hfind, ⟨e, he, hr⟩, _, _⟩ := hrow
      obtain ⟨_, _, _, _, _, _, rfl⟩ := (prepare_eq_ok_iff V).1 he
      unfold storedDelegateSeq
      rw [hfind, Option.map_some, hr.delegateOffchainSeq, entryFor_delegateOffchainSeq]

theorem delegateColumns_runCall
    (hV : V.Lawful)
    {db : Tables}
    (hdb : RowsEncoded V db)
    (hcols : DelegateColumns V db)
    {call : StoreCall}
    (hcall : call.Brings (Derived V)) :
    DelegateColumns V (runCall V db call) := by
  intro handle z hz
  rcases runCall_cases V db call with hsame | ⟨handles, _, rfl, _, _⟩ |
    ⟨now, updates, res, rfl, hok⟩
  · unfold storedZone at hz
    unfold storedDelegateSeq
    rw [hsame.handles] at hz ⊢
    exact hcols handle z hz
  · have hfind := find?_deleteHandles V db handles handle
    have hrun : runCall V db (.deleteHandles handles) = (deleteHandles V db handles).1 := rfl
    rw [hrun] at hz ⊢
    unfold storedZone at hz
    unfold storedDelegateSeq
    rw [hfind] at hz ⊢
    split_ifs at hz ⊢ with hmem
    · cases hz
    · exact hcols handle z hz
  · rw [storedZone_updateHandles hV hdb hok] at hz
    rw [storedDelegateSeq_updateHandles hok]
    cases hlast : lastAccepted V now db handle updates with
    | none =>
        rw [hlast] at hz
        exact hcols handle z hz
    | some u =>
        rw [hlast] at hz
        cases hz
        have hderived := hcall u (lastAccepted_mem hlast).1
        show some u.delegateOffchainSeq = _
        rw [hderived.delegateOffchainSeq, delegateSeqOr0_storedAs]

theorem reachableBy_delegateColumns
    (hV : V.Lawful)
    {db : Tables}
    (h : ReachableBy V (Derived V) db) :
    DelegateColumns V db := by
  obtain ⟨calls, hbrings, rfl⟩ := h
  have hinv : RowsEncoded V (runCalls V Tables.init calls) ∧
      DelegateColumns V (runCalls V Tables.init calls) := by
    apply List.foldlRecOn calls (runCall V)
      (motive := fun db => RowsEncoded V db ∧ DelegateColumns V db)
    · refine ⟨rowsEncoded_init V, ?_⟩
      intro handle z hz
      cases hz
    · intro db hdb call hcall
      exact ⟨rowsEncoded_runCall V hdb.1 call,
        delegateColumns_runCall hV hdb.1 hdb.2 (hbrings call hcall)⟩
  exact hinv.2

/-- The last accepted record for a handle takes its delegate sequence back. -/
def RollsDelegateBack (V : Crates) (now : Nat) (db : Tables) (handle : String)
    (updates : List HandleRecord) : Prop :=
  ∃ z u, storedZone V db handle = some z ∧
    lastAccepted V now db handle updates = some u ∧
    u.zone.scriptPubkey = z.scriptPubkey ∧
    u.delegateOffchainSeq < V.delegateSeqOr0 z

/-- Under one key the stored delegate sequence is not taken back. -/
def DelegateKept (V : Crates) (handle : String) (db db' : Tables) : Prop :=
  ∀ z z', storedZone V db handle = some z → storedZone V db' handle = some z' →
    z'.scriptPubkey = z.scriptPubkey →
    ∃ d, storedDelegateSeq db' handle = some d ∧ V.delegateSeqOr0 z ≤ d

/-- One call keeps the delegate sequence unless it rolls it back. -/
theorem delegateKept_updateHandles_iff
    (hV : V.Lawful)
    {db db' : Tables}
    (hdb : RowsEncoded V db)
    (hcols : DelegateColumns V db)
    {now : Nat}
    {updates : List HandleRecord}
    {res : BulkStoreResult}
    (h : updateHandles V now db updates = .ok (db', res))
    (handle : String) :
    DelegateKept V handle db db' ↔ ¬ RollsDelegateBack V now db handle updates := by
  have hzone := storedZone_updateHandles hV hdb h handle
  have hseq := storedDelegateSeq_updateHandles h handle
  constructor
  · rintro hkept ⟨z, u, hz, hlast, hkey, hlt⟩
    rw [hlast] at hzone hseq
    obtain ⟨d, hd, hle⟩ := hkept z _ hz hzone (by rw [storedAs_scriptPubkey]; exact hkey)
    rw [hseq] at hd
    cases hd
    omega
  · intro hno z z' hz hz' hkey
    rw [hzone] at hz'
    rw [hseq]
    cases hlast : lastAccepted V now db handle updates with
    | none =>
        exact ⟨_, hcols handle z hz, le_rfl⟩
    | some u =>
        rw [hlast] at hz'
        cases hz'
        rw [storedAs_scriptPubkey] at hkey
        refine ⟨u.delegateOffchainSeq, rfl, ?_⟩
        by_contra hlt
        exact hno ⟨z, u, hz, hlast, hkey, Nat.lt_of_not_le hlt⟩

/-- A step of a run in which no delegate record of a handle is rolled back. -/
structure KeepsDelegate (V : Crates) (handle : String) (key : Bytes) (db : Tables)
    (call : StoreCall) : Prop where
  brings : call.Brings (Derived V)
  keepsKey : KeepsKey V handle key db call
  noRollback : ∀ now updates, call = .updateHandles now updates →
    ¬ RollsDelegateBack V now db handle updates

/-- The handle holds a zone under `key` with a delegate sequence of at least `d`. -/
structure HoldsDelegate (V : Crates) (handle : String) (key : Bytes) (d : Nat)
    (db : Tables) : Prop where
  rowsEncoded : RowsEncoded V db
  columns : DelegateColumns V db
  holds : ∃ z, storedZone V db handle = some z ∧ z.scriptPubkey = key ∧
    d ≤ V.delegateSeqOr0 z

theorem holdsDelegate_step
    (hV : V.Lawful)
    {handle : String}
    {key : Bytes}
    {d : Nat}
    (db : Tables)
    (call : StoreCall)
    (hdb : HoldsDelegate V handle key d db)
    (hcall : KeepsDelegate V handle key db call) :
    HoldsDelegate V handle key d (runCall V db call) := by
  refine ⟨rowsEncoded_runCall V hdb.rowsEncoded call,
    delegateColumns_runCall hV hdb.rowsEncoded hdb.columns hcall.brings, ?_⟩
  obtain ⟨z, hz, hkey, hd⟩ := hdb.holds
  rcases storedZone_runCall hV hdb.rowsEncoded hcall.keepsKey.1 with
    hsame | ⟨now, updates, u, rfl, hlast, hstored⟩
  · exact ⟨z, hsame.trans hz, hkey, hd⟩
  · have hkey' := hcall.keepsKey.2 _ hstored
    refine ⟨_, hstored, hkey', ?_⟩
    rw [delegateSeqOr0_storedAs]
    rw [storedAs_scriptPubkey] at hkey'
    have hderived := hcall.brings u (lastAccepted_mem hlast).1
    by_contra hlt
    refine hcall.noRollback now updates rfl ⟨z, u, hz, hlast, hkey'.trans hkey.symm, ?_⟩
    rw [hderived.delegateOffchainSeq]
    omega

/-- **When delegate records do not regress**: in a call exactly when the last
accepted record of the handle does not carry an older delegate sequence, and
hence in every run whose steps all meet this. -/
theorem delegate_seq_kept_iff
    (hV : V.Lawful)
    {db : Tables}
    (hdb : ReachableBy V (Derived V) db)
    (handle : String) :
    (∀ now updates db' res, updateHandles V now db updates = .ok (db', res) →
      (DelegateKept V handle db db' ↔ ¬ RollsDelegateBack V now db handle updates)) ∧
    (∀ z, storedZone V db handle = some z →
      ∀ calls, Runs.StepsMeet (runCall V) (KeepsDelegate V handle z.scriptPubkey) db calls →
        DelegateKept V handle db (runCalls V db calls) ∧
          (storedZone V (runCalls V db calls) handle).isSome) := by
  have henc := reachable_rowsEncoded V hdb.reachable
  have hcols := reachableBy_delegateColumns hV hdb
  constructor
  · intro now updates db' res hok
    exact delegateKept_updateHandles_iff hV henc hcols hok handle
  · intro z hz calls hcalls
    have hholds : HoldsDelegate V handle z.scriptPubkey (V.delegateSeqOr0 z) db :=
      ⟨henc, hcols, z, hz, rfl, le_rfl⟩
    have hend := hcalls.invariant (holdsDelegate_step hV) hholds
    obtain ⟨z₁, hz₁, _, hd⟩ := hend.holds
    refine ⟨?_, Option.isSome_iff_exists.2 ⟨z₁, hz₁⟩⟩
    intro z₀ z' hz₀ hz' _
    rw [hz] at hz₀
    cases hz₀
    exact ⟨_, hend.columns handle z₁ hz₁, hd⟩

/-- A redelivery of the stored record keeps its delegate sequence. -/
theorem delegate_seq_kept_iff_sample :
    let V := Crates.ofTables [sampleCert] [sampleZone 1 1 0 5]
    let db := runCalls V Tables.init [.updateHandles 0 [sampleRecord (sampleZone 1 1 0 5)]]
    DelegateKept V "alice@bitcoin" db
      (deliver V 0 db [sampleRecord (sampleZone 1 1 0 5)]) := by
  intro V db
  have hV : V.Lawful := Crates.ofTables_lawful (by decide) (by decide)
  have hdb : ReachableBy V (Derived V) db := by
    refine ⟨_, ?_, rfl⟩
    intro c hc
    rw [List.mem_singleton.1 hc]
    intro u hu
    rw [List.mem_singleton.1 hu]
    exact ⟨by decide, by decide⟩
  refine ((delegate_seq_kept_iff hV hdb "alice@bitcoin").1 0
    [sampleRecord (sampleZone 1 1 0 5)] _ _ rfl).2 ?_
  rintro ⟨_, u, _, hlast, _, _⟩
  have hnone :
      lastAccepted V 0 db "alice@bitcoin" [sampleRecord (sampleZone 1 1 0 5)] = none := by
    decide
  rw [hnone] at hlast
  cases hlast

/-- A fresher proof with an older delegate set is stored and takes it back. -/
theorem delegate_seq_regresses :
    let V := Crates.ofTables [sampleCert] [sampleZone 1 1 0 5, sampleZone 1 2 0 3]
    let db := runCalls V Tables.init [.updateHandles 0 [sampleRecord (sampleZone 1 1 0 5)]]
    let db' := deliver V 0 db [sampleRecord (sampleZone 1 2 0 3)]
    V.Lawful ∧ ReachableBy V (Derived V) db ∧ Derived V (sampleRecord (sampleZone 1 2 0 3)) ∧
      (∃ res, updateHandles V 0 db [sampleRecord (sampleZone 1 2 0 3)] = .ok (db', res)) ∧
      storedDelegateSeq db' "alice@bitcoin" = some 3 ∧
      ¬ DelegateKept V "alice@bitcoin" db db' := by
  intro V db db'
  have hz : storedZone V db "alice@bitcoin" = some (sampleZone 1 1 0 5) := by
    decide
  have hz' : storedZone V db' "alice@bitcoin" = some (sampleZone 1 2 0 3) := by
    decide
  have hseq : storedDelegateSeq db' "alice@bitcoin" = some 3 := by
    decide
  refine ⟨Crates.ofTables_lawful (by decide) (by decide), ⟨_, ?_, rfl⟩, ⟨by decide, by decide⟩,
    ⟨_, rfl⟩, hseq, ?_⟩
  · intro c hc
    rw [List.mem_singleton.1 hc]
    intro u hu
    rw [List.mem_singleton.1 hu]
    exact ⟨by decide, by decide⟩
  · intro hkept
    obtain ⟨d, hd, hle⟩ := hkept _ _ hz hz' rfl
    rw [hseq] at hd
    cases hd
    exact absurd hle (by decide)

end Delegate

end CertRelay
