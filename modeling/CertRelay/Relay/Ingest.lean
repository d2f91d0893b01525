import CertRelay.Relay.UpdateHandles
import CertRelay.Relay.SyncPage
import Mathlib.Data.List.Dedup

/-!
# Ingesting a pulled page

`ingest_sync_records` drops duplicates of stored rows, decodes the rest, groups it by
space, and sends each group through proving and verification.  A failed space counts
against a budget; when the budget is spent the rest of the page stays unattempted and
the outcome is incomplete.

The store, the chain client, the message builder's `build` and the message handler are
the operations `IngestOps`.  They act on `σ`, everything around the batch that changes
while it runs, other tasks included, so nothing is assumed about them.

**Results.**
* `ingestSpaces_attempts`: a batch that is complete has attempted every group;
* `ingestSpace_settles`: an attempted group is gated, rootless, or submitted;
* `ingest_settles`: a complete batch has settled each of its records.
-/

namespace CertRelay

open Fallible

/-- Outcome of ingesting one batch of pulled sync records. -/
structure SyncIngest where
  stored : Nat := 0
  prefiltered : Nat := 0
  failedSpaces : Nat := 0
  gated : Nat := 0
  incomplete : Bool := false
deriving DecidableEq

/-- Lightweight row for hints queries. -/
structure HandleHintRow where
  handle : String
  epochHeight : Nat
  offchainSeq : Nat
  delegateOffchainSeq : Nat
  zoneHash : Bytes
deriving DecidableEq

structure DataUpdateRequest where
  handle : SName
  records : Option RecordSet
  delegateRecords : Option RecordSet
deriving DecidableEq

/-- What was added to a `MessageBuilder`. -/
structure MessageBuilder where
  updates : List DataUpdateRequest := []
  certs : List Certificate := []
deriving DecidableEq

/-- The parts of the relay that a batch goes through. -/
structure IngestOps (σ Proof Msg : Type) where
  /-- `SqliteStore::get_handle_hints`. -/
  getHandleHints : List String → Task String σ (List HandleHintRow)
  /-- `first_insert_gated(..).unwrap_or(false)`. -/
  firstInsertGated : String → σ → Bool × σ
  /-- `SqliteStore::get_handle`. -/
  getHandle : String → Task String σ (Option HandleRecord)
  /-- `proof_sem.acquire`. -/
  acquireProof : Task String σ Unit
  /-- `chain.prove` of the builder's request. -/
  prove : MessageBuilder → Task String σ Proof
  /-- `MessageBuilder::build`. -/
  build : MessageBuilder → Proof → Except String Msg
  /-- `verify_sem.acquire`. -/
  acquireVerify : Task String σ Unit
  /-- `handle_message_opts` on the blocking pool; the task itself may fail. -/
  handleMessage : Msg → Task String σ (Except String BulkStoreResult)

section Prefilter

variable (V : Crates)

/-- The hint of a handle; of two rows of one handle a map keeps the last. -/
def hintOf (existing : List HandleHintRow) (handle : String) : Option HandleHintRow :=
  lastMatch (fun r => decide (r.handle = handle)) existing

/-- The claimed metadata and the zone bytes match the stored row. -/
def isDuplicate (existing : List HandleHintRow) (r : SyncRecord) : Bool :=
  match hintOf existing r.handle with
  | some row =>
      decide ((row.epochHeight, row.offchainSeq, row.delegateOffchainSeq) =
        (r.epochHeight, r.seq, r.delegateSeq)) &&
        decide (zoneHash V r.zone = row.zoneHash)
  | none => false

/-- Decode the blobs of a record and check that they are its own. -/
def decodeRecord (r : SyncRecord) : Except String (Certificate × Zone) := do
  let cert ← (V.certFromSlice r.cert).mapError
    (fun e => s!"undecodable cert for {r.handle}: {e}")
  let zone ← (V.zoneFromSlice r.zone).mapError
    (fun e => s!"undecodable zone for {r.handle}: {e}")
  if cert.subject.text = r.handle then .ok (cert, zone)
  else .error s!"record handle {r.handle} does not match cert subject"

/-- The decoded records by space; a certificate without a space is dropped. -/
def bySpace (decoded : List (Certificate × Zone)) :
    List (String × List (Certificate × Zone)) :=
  let spaces := (decoded.filterMap (fun cz => V.space cz.1.subject)).dedup
  spaces.map (fun space =>
    (space, decoded.filter (fun cz => decide (V.space cz.1.subject = some space))))

end Prefilter

section Spaces

variable {σ Proof Msg : Type} (ops : IngestOps σ Proof Msg)

def updateRequest (cert : Certificate) (zone : Zone) : DataUpdateRequest where
  handle := cert.subject
  records := some zone.records
  delegateRecords :=
    match zone.delegate with
    | .exist value => some value.records
    | _ => none

/-- The builder after `add_update` and `add_cert` of each pair. -/
def builderOf (group : List (Certificate × Zone)) : MessageBuilder where
  updates := group.map (fun cz => updateRequest cz.1 cz.2)
  certs := group.map Prod.fst

/-- `position` of the root in a group, and `remove`. -/
def takeRoot (space : String) :
    List (Certificate × Zone) → Option ((Certificate × Zone) × List (Certificate × Zone))
  | [] => none
  | cz :: rest =>
      if cz.1.subject.text = space then some (cz, rest)
      else (takeRoot space rest).map (fun found => (found.1, cz :: found.2))

/-- The root of a group: from the group, or else the stored copy. -/
def findRoot (space : String) (group : List (Certificate × Zone)) :
    Task String σ (Option (List (Certificate × Zone))) :=
  match takeRoot space group with
  | some (root, rest) => pure (some (root :: rest))
  | none => do
      match ← ops.getHandle space with
      | some record => pure (some ((record.cert, record.zone) :: group))
      | none => pure none

/-- Prove, build and verify one message.  Only the last two may reject it; what fails
before, or around them, fails the batch. -/
def submit (group : List (Certificate × Zone)) :
    Task String σ (Except String BulkStoreResult) := do
  ops.acquireProof
  let proof ← ExceptT.adapt (fun e => s!"chain proof failed (infra): {e}")
    (ops.prove (builderOf group))
  match ops.build (builderOf group) proof with
  | .ok msg => do
      ops.acquireVerify
      ExceptT.adapt (fun e => s!"verify task failed (infra): {e}") (ops.handleMessage msg)
  | .error e => pure (.error e)

/-- What the admission gate leaves of a group. -/
def admitted (existing : List HandleHintRow) (gate : Bool)
    (group : List (Certificate × Zone)) : List (Certificate × Zone) :=
  if gate then group.filter (fun cz => (hintOf existing cz.1.subject.text).isSome)
  else group

/-- One round of the loop over spaces. -/
def ingestSpace (existing : List HandleHintRow) (space : String)
    (group : List (Certificate × Zone)) (out : SyncIngest) : Task String σ SyncIngest := do
  let gate ← Task.always (ops.firstInsertGated space)
  let kept := admitted existing gate group
  let out := { out with gated := out.gated + (group.length - kept.length) }
  if gate && kept.isEmpty then pure out
  else do
    match ← findRoot ops space kept with
    | none => pure { out with failedSpaces := out.failedSpaces + 1 }
    | some message => do
        match ← submit ops message with
        | .ok res => pure { out with stored := out.stored + res.stored }
        | .error _ => pure { out with failedSpaces := out.failedSpaces + 1 }

/-- The loop over spaces, with its budget of failed ones. -/
def ingestSpaces (existing : List HandleHintRow) (maxFailedSpaces : Nat) :
    List (String × List (Certificate × Zone)) → SyncIngest → Task String σ SyncIngest
  | [], out => pure out
  | (space, group) :: rest, out =>
      if maxFailedSpaces ≤ out.failedSpaces then pure { out with incomplete := true }
      else do
        let out ← ingestSpace ops existing space group out
        ingestSpaces existing maxFailedSpaces rest out

/-- `ingest_sync_records`. -/
def ingestSyncRecords (V : Crates)
    (order : HashOrder (String × List (Certificate × Zone)))
    (records : List SyncRecord) (maxFailedSpaces : Nat) : Task String σ SyncIngest := do
  let existing ← ops.getHandleHints (records.map SyncRecord.handle)
  let survivors := records.filter (fun r => !isDuplicate V existing r)
  let decoded ← ExceptT.mk (pure (survivors.mapM (decodeRecord V)))
  ingestSpaces ops existing maxFailedSpaces (order.arrange (bySpace V decoded))
    { prefiltered := records.length - survivors.length }

/-- The groups that the loop attempts, each with the state in which its turn comes. -/
def attempts (existing : List HandleHintRow) (maxFailedSpaces : Nat) :
    List (String × List (Certificate × Zone)) → SyncIngest → σ →
      List ((String × List (Certificate × Zone)) × σ)
  | [], _, _ => []
  | g :: rest, out, s =>
      if maxFailedSpaces ≤ out.failedSpaces then []
      else
        match ingestSpace ops existing g.1 g.2 out s with
        | (.ok out, s') => (g, s) :: attempts existing maxFailedSpaces rest out s'
        | (.error _, _) => [(g, s)]

theorem mem_of_takeRoot
    {space : String}
    {group : List (Certificate × Zone)}
    {root : Certificate × Zone}
    {rest : List (Certificate × Zone)}
    (h : takeRoot space group = some (root, rest))
    {cz : Certificate × Zone}
    (hcz : cz ∈ group) :
    cz ∈ root :: rest := by
  induction group generalizing rest with
  | nil =>
      cases hcz
  | cons c group ih =>
      unfold takeRoot at h
      split_ifs at h with hroot
      · cases h
        exact hcz
      · obtain ⟨found, hfound, heq⟩ := Option.map_eq_some_iff.1 h
        cases heq
        rcases List.mem_cons.1 hcz with rfl | hmem
        · simp
        · rcases List.mem_cons.1 (ih hfound hmem) with rfl | hrest
          · exact List.mem_cons_self
          · exact List.mem_cons_of_mem _ (List.mem_cons_of_mem _ hrest)

/-- Whatever root is found, the message holds the whole group. -/
theorem findRoot_ok
    {space : String}
    {group : List (Certificate × Zone)}
    {found : Option (List (Certificate × Zone))}
    {s s' : σ}
    (h : findRoot ops space group s = (.ok found, s')) :
    (∃ message, found = some message ∧ group ⊆ message) ∨
      (found = none ∧ ops.getHandle space s = (.ok none, s')) := by
  unfold findRoot at h
  cases htake : takeRoot space group with
  | some split =>
      obtain ⟨root, rest⟩ := split
      rw [htake] at h
      obtain ⟨rfl, _⟩ := Task.pure_eq_ok.1 h
      exact Or.inl ⟨root :: rest, rfl, fun _ hcz => mem_of_takeRoot htake hcz⟩
  | none =>
      rw [htake] at h
      obtain ⟨stored, s₁, hget, h⟩ := Task.bind_eq_ok.1 h
      cases stored with
      | some record =>
          obtain ⟨rfl, _⟩ := Task.pure_eq_ok.1 h
          exact Or.inl ⟨_, rfl, List.subset_cons_self _ _⟩
      | none =>
          obtain ⟨rfl, rfl⟩ := Task.pure_eq_ok.1 h
          exact Or.inr ⟨rfl, hget⟩

/-- How the turn of a space, from a state on, settles one of the records of its group. -/
inductive SpaceSettled (existing : List HandleHintRow) (space : String)
    (group : List (Certificate × Zone)) (cz : Certificate × Zone) (s : σ) : Prop
  /-- The admission gate holds back the first insert of its handle. -/
  | gated
      (hgate : (ops.firstInsertGated space s).1 = true)
      (hnew : hintOf existing cz.1.subject.text = none)
  /-- There is no root for it. -/
  | rootless
      {s' : σ}
      (hroot : ops.getHandle space (ops.firstInsertGated space s).2 = (.ok none, s'))
  /-- The message handler took the message that holds it. -/
  | handled
      {message : List (Certificate × Zone)}
      {res : BulkStoreResult}
      {s₁ s₂ : σ}
      (hfind : findRoot ops space (admitted existing (ops.firstInsertGated space s).1 group)
        (ops.firstInsertGated space s).2 = (.ok (some message), s₁))
      (hmem : cz ∈ message)
      (hsubmit : submit ops message s₁ = (.ok (.ok res), s₂))
  /-- The message that holds it was rejected. -/
  | rejected
      {message : List (Certificate × Zone)}
      {e : String}
      {s₁ s₂ : σ}
      (hfind : findRoot ops space (admitted existing (ops.firstInsertGated space s).1 group)
        (ops.firstInsertGated space s).2 = (.ok (some message), s₁))
      (hmem : cz ∈ message)
      (hsubmit : submit ops message s₁ = (.ok (.error e), s₂))

/-- **An attempted space settles all its records.** -/
theorem ingestSpace_settles
    {existing : List HandleHintRow}
    {space : String}
    {group : List (Certificate × Zone)}
    {out out' : SyncIngest}
    {s s' : σ}
    (h : ingestSpace ops existing space group out s = (.ok out', s'))
    {cz : Certificate × Zone}
    (hcz : cz ∈ group) :
    SpaceSettled ops existing space group cz s := by
  obtain ⟨gate, s₁, hgate, h⟩ := Task.bind_eq_ok.1 h
  have hop : ops.firstInsertGated space s = (gate, s₁) := by
    cases hgate
    rfl
  have hfirst : (ops.firstInsertGated space s).1 = gate := congrArg Prod.fst hop
  have hsecond : (ops.firstInsertGated space s).2 = s₁ := congrArg Prod.snd hop
  by_cases hkept : cz ∈ admitted existing gate group
  · simp only at h
    split_ifs at h with hnone
    · -- an empty remainder has no record in it
      rw [Bool.and_eq_true, List.isEmpty_iff] at hnone
      rw [hnone.2] at hkept
      cases hkept
    · obtain ⟨found, s₂, hfind, h⟩ := Task.bind_eq_ok.1 h
      rcases findRoot_ok ops hfind with ⟨message, rfl, hsub⟩ | ⟨rfl, hroot⟩
      · obtain ⟨result, s₃, hsubmit, _⟩ := Task.bind_eq_ok.1 h
        rw [← hfirst, ← hsecond] at hfind
        cases result with
        | ok res =>
            exact .handled hfind (hsub hkept) hsubmit
        | error e =>
            exact .rejected hfind (hsub hkept) hsubmit
      · rw [← hsecond] at hroot
        exact .rootless hroot
  · unfold admitted at hkept
    split_ifs at hkept with hon
    · subst hon
      refine .gated hfirst ?_
      simpa [hcz] using hkept
    · exact absurd hcz hkept

/-- **A batch that is complete has attempted every group**, and each attempt has come to its
end. -/
theorem ingestSpaces_attempts
    {existing : List HandleHintRow}
    {maxFailedSpaces : Nat}
    {groups : List (String × List (Certificate × Zone))}
    {out out' : SyncIngest}
    {s s' : σ}
    (h : ingestSpaces ops existing maxFailedSpaces groups out s = (.ok out', s'))
    (hcomplete : out'.incomplete = false) :
    ∀ g ∈ groups, ∃ out₁ s₁ out₂ s₂,
      (g, s₁) ∈ attempts ops existing maxFailedSpaces groups out s ∧
      ingestSpace ops existing g.1 g.2 out₁ s₁ = (.ok out₂, s₂) := by
  induction groups generalizing out s with
  | nil =>
      intro g hg
      cases hg
  | cons first rest ih =>
      unfold ingestSpaces at h
      unfold attempts
      split_ifs at h ⊢ with hspent
      · obtain ⟨rfl, _⟩ := Task.pure_eq_ok.1 h
        cases hcomplete
      · obtain ⟨out₁, s₁, hfirst, hrest⟩ := Task.bind_eq_ok.1 h
        rw [hfirst]
        intro g hg
        rcases List.mem_cons.1 hg with rfl | hg
        · exact ⟨out, s, out₁, s₁, List.mem_cons_self, hfirst⟩
        · obtain ⟨out₂, s₂, out₃, s₃, hmem, hattempt⟩ := ih hrest g hg
          exact ⟨out₂, s₂, out₃, s₃, List.mem_cons_of_mem _ hmem, hattempt⟩

end Spaces

section Batch

variable (V : Crates) {σ Proof Msg : Type} (ops : IngestOps σ Proof Msg)

theorem mem_bySpace
    {decoded : List (Certificate × Zone)}
    {cz : Certificate × Zone}
    (hcz : cz ∈ decoded)
    {space : String}
    (hspace : V.space cz.1.subject = some space) :
    ∃ g ∈ bySpace V decoded, g.1 = space ∧ cz ∈ g.2 := by
  refine ⟨(space, decoded.filter (fun cz => decide (V.space cz.1.subject = some space))),
    ?_, rfl, ?_⟩
  · apply List.mem_map_of_mem
    rw [List.mem_dedup, List.mem_filterMap]
    exact ⟨cz, hcz, hspace⟩
  · simpa using ⟨hcz, hspace⟩

/-- The records that are no duplicates. -/
def survivorsOf (existing : List HandleHintRow) (records : List SyncRecord) :
    List SyncRecord :=
  records.filter (fun r => !isDuplicate V existing r)

/-- The attempts of a batch that has read the hints of its records and decoded the rest. -/
def batchAttempts (order : HashOrder (String × List (Certificate × Zone)))
    (records : List SyncRecord) (maxFailedSpaces : Nat) (existing : List HandleHintRow)
    (decoded : List (Certificate × Zone)) (s : σ) :
    List ((String × List (Certificate × Zone)) × σ) :=
  attempts ops existing maxFailedSpaces (order.arrange (bySpace V decoded))
    { prefiltered := records.length - (survivorsOf V existing records).length } s

/-- How a batch that starts in a state settles one of its records: as a duplicate by the hints
that it reads there, or at the turn of its space. -/
def Settled (order : HashOrder (String × List (Certificate × Zone)))
    (records : List SyncRecord) (maxFailedSpaces : Nat) (s : σ) (r : SyncRecord) : Prop :=
  ∃ existing s₁,
    ops.getHandleHints (records.map SyncRecord.handle) s = (.ok existing, s₁) ∧
    (isDuplicate V existing r = true ∨
      ∃ decoded cz, (survivorsOf V existing records).mapM (decodeRecord V) = .ok decoded ∧
        decodeRecord V r = .ok cz ∧
        ∀ space, V.space cz.1.subject = some space →
          ∃ group s₂, cz ∈ group ∧
            ((space, group), s₂) ∈
              batchAttempts V ops order records maxFailedSpaces existing decoded s₁ ∧
            SpaceSettled ops existing space group cz s₂)

/-- **A complete batch has settled each of its records.** -/
theorem ingest_settles
    {order : HashOrder (String × List (Certificate × Zone))}
    {records : List SyncRecord}
    {maxFailedSpaces : Nat}
    {out : SyncIngest}
    {s s' : σ}
    (h : ingestSyncRecords ops V order records maxFailedSpaces s = (.ok out, s'))
    (hcomplete : out.incomplete = false)
    {r : SyncRecord}
    (hr : r ∈ records) :
    Settled V ops order records maxFailedSpaces s r := by
  obtain ⟨existing, s₁, hhints, h⟩ := Task.bind_eq_ok.1 h
  refine ⟨existing, s₁, hhints, ?_⟩
  by_cases hdup : isDuplicate V existing r = true
  · exact Or.inl hdup
  · right
    obtain ⟨decoded, s₂, hdecoded, h⟩ := Task.bind_eq_ok.1 h
    obtain ⟨hmap, rfl⟩ :
        (survivorsOf V existing records).mapM (decodeRecord V) = .ok decoded ∧ s₁ = s₂ := by
      unfold survivorsOf
      cases hm : (records.filter (fun r => !isDuplicate V existing r)).mapM (decodeRecord V) with
      | ok d =>
          rw [hm] at hdecoded
          cases hdecoded
          exact ⟨rfl, rfl⟩
      | error e =>
          rw [hm] at hdecoded
          cases hdecoded
    have hsurvivor : r ∈ survivorsOf V existing records := by
      simp [survivorsOf, hr, hdup]
    obtain ⟨cz, hcz, hdecode⟩ := exists_of_forall₂_left (mapM_eq_ok_iff.1 hmap) hsurvivor
    refine ⟨decoded, cz, hmap, hdecode, fun space hspace => ?_⟩
    obtain ⟨⟨_, group⟩, hg, rfl, hmem⟩ := mem_bySpace V hcz hspace
    obtain ⟨out₁, s₃, out₂, s₄, hturn, hattempt⟩ :=
      ingestSpaces_attempts ops h hcomplete _ (order.mem_arrange.2 hg)
    exact ⟨group, s₃, hmem, hturn, ingestSpace_settles ops hattempt hmem⟩

end Batch

end CertRelay
