import CertRelay.Relay.Redelivery
import CertRelay.Relay.RowMetadata

/-!
# The duplicate pre-skip

The handler skips a certificate whose metadata and zone hash are those of the stored row,
before the store is asked.  `handleMessageWithoutPreSkip` is the handler without this
test.  With the content limits off the two are the same function on a store whose rows
are in step with their blobs: equal hashes are equal blobs, and a zone does not replace
itself.

**Results.**
* `rejected_of_isRedelivery`: what is pre-skipped, `update_handles` would reject;
* `updateHandles_filter`: rejected records can be left out of a batch;
* `preskip_pure_optimisation`: the two handlers return the same result and the same state.
-/

namespace CertRelay

section Variant

variable (V : Crates) {σ Msg : Type} (H : Handler σ Msg)
variable (skip : Option HandleHintRow → HandleRecord → Bool)

/-- `collectUpdate` with `skip` in place of the duplicate test. -/
def collectUpdateWith (batch : Batch) (space : String) (record : HandleRecord)
    (acc : Collected) (limits : σ) : Collected × σ :=
  let stored := hintOf batch.existing record.handle
  if skip stored record then
    ({ acc with preskipped := acc.preskipped + 1 }, limits)
  else if stored.isNone && batch.gatedSpaces.contains space then
    ({ acc with gated := acc.gated + 1 }, limits)
  else
    let (ok, limits) :=
      withinLimits H batch.chargeContentLimits stored record space limits
    if ok then ({ acc with updates := acc.updates ++ [record] }, limits)
    else (acc, limits)

/-- `collectCert` with `skip` in place of the duplicate test. -/
def collectCertWith (batch : Batch) (s : Collected × σ) (cert : Certificate) :
    Collected × σ :=
  match zoneOf batch.zones cert.subject.text with
  | none => s
  | some zone =>
      if maxRecordsSize < zone.records.slice.length then s
      else
        let acc := collectClaims V s.1 cert.subject.text zone
        match V.space cert.subject with
        | none => (acc, s.2)
        | some space =>
            collectUpdateWith H skip batch space (bundle V H batch.zones cert zone space)
              acc s.2

/-- `collectMessage` with `skip` in place of the duplicate test. -/
def collectMessageWith (gatedSpaces : List String) (charge : Bool) (msg : Msg)
    (db : Tables) (limits : σ) : Except String (Collected × σ) := do
  let res ← verifyMessage V H msg db
  let batch : Batch :=
    { zones := res.zones
      existing := getHandleHints db (res.certificates.map (fun c => c.subject.text))
      gatedSpaces := gatedSpaces
      chargeContentLimits := charge }
  .ok (res.certificates.foldl (collectCertWith V H skip batch) ({}, limits))

/-- `handleMessageOpts` with `skip` in place of the duplicate test. -/
def handleMessageOptsWith (clock : Nat → Nat) (gatedSpaces : List String) (charge : Bool)
    (msg : Msg) (s : HandlerState σ) : Except String BulkStoreResult × HandlerState σ :=
  let s := tick H s
  match collectMessageWith V H skip gatedSpaces charge msg s.db s.limits with
  | .error e => (.error e, s)
  | .ok (acc, limits) =>
      match applyCollected V clock s.db acc with
      | .error e => (.error e, { s with limits := limits })
      | .ok (db, result) => (.ok result, { s with db := db, limits := limits })

/-- The handler without the duplicate pre-skip. -/
def handleMessageWithoutPreSkip (clock : Nat → Nat) (gatedSpaces : List String)
    (charge : Bool) (msg : Msg) (s : HandlerState σ) :
    Except String BulkStoreResult × HandlerState σ :=
  handleMessageOptsWith V H (fun _ _ => false) clock gatedSpaces charge msg s

/-- With the duplicate test the variant is the handler. -/
theorem handleMessageOptsWith_isRedelivery :
    handleMessageOptsWith V H (isRedelivery V) = handleMessageOpts V H := by
  rfl

end Variant

section Duplicates

variable {V : Crates}

/-- A hint names a stored row. -/
theorem hintOf_getHandleHints
    {db : Tables}
    {handles : List String}
    {handle : String}
    {row : HandleHintRow}
    (h : hintOf (getHandleHints db handles) handle = some row) :
    ∃ r, db.handles.find? handle = some r ∧ row = r.hint := by
  obtain ⟨hmem, hhandle⟩ := Fallible.lastMatch_mem h
  obtain ⟨r, hr, rfl⟩ := List.mem_map.1 hmem
  rw [decide_eq_true_eq] at hhandle
  have hstored : db.handles.find? r.handle = some r :=
    KeyedTable.find?_key (List.mem_filter.1 hr).1
  rw [← hhandle]
  exact ⟨r, hstored, rfl⟩

/-- **What is pre-skipped is the zone that is stored.** -/
theorem storedZone_of_isRedelivery
    (hV : V.Lawful)
    (hsha : Function.Injective V.sha256)
    {now : Nat}
    {db : Tables}
    (hdb : RowsInStep V now db)
    {handles : List String}
    {record : HandleRecord}
    (h : isRedelivery V (hintOf (getHandleHints db handles) record.handle) record = true) :
    storedZone V db record.handle = some record.zone ∧
      ∃ b, V.zoneToVec record.zone = .ok b := by
  cases hhint : hintOf (getHandleHints db handles) record.handle with
  | none =>
      rw [hhint] at h
      cases h
  | some row =>
      obtain ⟨r, hr, rfl⟩ := hintOf_getHandleHints hhint
      rw [hhint] at h
      unfold isRedelivery at h
      cases hvec : V.zoneToVec record.zone with
      | error e =>
          rw [hvec] at h
          simp at h
      | ok z =>
          rw [hvec] at h
          simp only [Bool.and_eq_true, decide_eq_true_eq] at h
          have hrow := hdb.inStep r (KeyedTable.find?_eq_some_iff.1 hr).1
          have hblob : z = r.zoneData := hsha (h.2.trans hrow.zoneHash)
          exact ⟨storedZone_eq_some_of_encodes hV hr (hblob ▸ hvec), z, rfl⟩

/-- **What is pre-skipped, `update_handles` would reject.** -/
theorem rejected_of_isRedelivery
    (hV : V.Lawful)
    (hsha : Function.Injective V.sha256)
    (hirrefl : ∀ z, V.better z z = false)
    {now : Nat}
    {db : Tables}
    (hdb : RowsInStep V now db)
    {handles : List String}
    {record : HandleRecord}
    (h : isRedelivery V (hintOf (getHandleHints db handles) record.handle) record = true)
    (clock : Nat) :
    accepts V clock (storedZone V db record.handle) record = false := by
  rw [(storedZone_of_isRedelivery hV hsha hdb h).1]
  exact accepts_eq_false clock (not_replaces_self hirrefl record.zone)

end Duplicates

section Filtering

variable {V : Crates}

/-- A record that cannot be serialized fails the call. -/
theorem updateHandles_error
    {now : Nat}
    {db : Tables}
    {updates : List HandleRecord}
    {e : String}
    (h : updates.mapM (prepare V) = .error e) :
    updateHandles V now db updates = .error e := by
  unfold updateHandles
  split_ifs with hempty
  · rw [List.isEmpty_iff] at hempty
    subst hempty
    cases h
  · rw [h]
    rfl

/-- Records that would be rejected can be left out of what is written. -/
theorem toStore_filter
    {now : Nat}
    {db : Tables}
    {updates : List HandleRecord}
    {keep : HandleRecord → Bool}
    (hdrop : ∀ u ∈ updates, keep u = false →
      accepts V now (storedZone V db u.handle) u = false) :
    toStore V now db (updates.filter keep) = toStore V now db updates := by
  induction updates with
  | nil =>
      rfl
  | cons u updates ih =>
      have hrest := ih (fun v hv => hdrop v (List.mem_cons_of_mem u hv))
      by_cases hkeep : keep u = true
      · rw [List.filter_cons_of_pos hkeep]
        unfold toStore at hrest ⊢
        rw [List.filterMap_cons, List.filterMap_cons, hrest]
      · rw [List.filter_cons_of_neg hkeep, hrest]
        have hnone : toStore V now db [u] = [] := toStore_rejected (by
          intro v hv
          rw [List.mem_singleton.1 hv]
          exact hdrop u (by simp) (Bool.eq_false_iff.2 hkeep))
        have hsplit : toStore V now db (u :: updates) =
            toStore V now db [u] ++ toStore V now db updates :=
          List.filterMap_append (l := [u])
        rw [hsplit, hnone, List.nil_append]

/-- The result of a call, with more records skipped. -/
def countSkipped (skipped : Nat) (out : Tables × BulkStoreResult) :
    Tables × BulkStoreResult :=
  (out.1, { out.2 with skipped := out.2.skipped + skipped })

/-- **Records that would be rejected can be left out of a batch**; they are only counted
as skipped. -/
theorem updateHandles_filter
    (hV : V.Lawful)
    {now : Nat}
    {db : Tables}
    (hdb : RowsEncoded V db)
    {updates : List HandleRecord}
    {keep : HandleRecord → Bool}
    (hdrop : ∀ u ∈ updates, keep u = false →
      Serializable V u ∧ accepts V now (storedZone V db u.handle) u = false) :
    updateHandles V now db updates =
      (updateHandles V now db (updates.filter keep)).map
        (countSkipped (updates.length - (updates.filter keep).length)) := by
  by_cases hall : ∀ u ∈ updates, Serializable V u
  · have hkept : ∀ u ∈ updates.filter keep, Serializable V u :=
      fun u hu => hall u (List.mem_filter.1 hu).1
    obtain ⟨rows, hrows, hok⟩ := updateHandles_eq hV now hdb hall
    obtain ⟨rows', hrows', hok'⟩ := updateHandles_eq hV now hdb hkept
    have hstore : toStore V now db (updates.filter keep) = toStore V now db updates :=
      toStore_filter (fun u hu hno => (hdrop u hu hno).2)
    rw [hstore] at hrows' hok'
    cases hrows.symm.trans hrows'
    have hle : (toStore V now db updates).length ≤ (updates.filter keep).length := by
      rw [← hstore]
      exact List.length_filterMap_le _ _
    have hlen : (updates.filter keep).length ≤ updates.length :=
      List.length_filter_le keep updates
    have hcount : updates.length - (toStore V now db updates).length =
        (updates.filter keep).length - (toStore V now db updates).length +
          (updates.length - (updates.filter keep).length) := by
      omega
    rw [hok, hok', hcount]
    rfl
  · have herror : ∃ e, updates.mapM (prepare V) = .error e := by
      cases h : updates.mapM (prepare V) with
      | error e =>
          exact ⟨e, rfl⟩
      | ok entries =>
          refine absurd (fun u hu => ?_) hall
          obtain ⟨e, _, he⟩ :=
            Fallible.exists_of_forall₂_left (Fallible.mapM_eq_ok_iff.1 h) hu
          exact ⟨e, he⟩
    obtain ⟨e, he⟩ := herror
    have he' : (updates.filter keep).mapM (prepare V) = .error e :=
      Fallible.mapM_filter_eq_error (fun u hu hno => (hdrop u hu hno).1) he
    rw [updateHandles_error he, updateHandles_error he']
    rfl

end Filtering

section Lockstep

variable {V : Crates} {σ Msg : Type} {H : Handler σ Msg}

/-- The record is not a redelivery of what the hints say is stored. -/
def isNews (V : Crates) (existing : List HandleHintRow) (u : HandleRecord) : Bool :=
  !isRedelivery V (hintOf existing u.handle) u

/-- What the pre-skip leaves of what is collected without it. -/
structure Skims (V : Crates) (existing : List HandleHintRow) (certs : List Certificate)
    (acc acc' : Collected) : Prop where
  gated : acc.gated = acc'.gated
  revs : acc.revs = acc'.revs
  addrIndex : acc.addrIndex = acc'.addrIndex
  updates : acc.updates = acc'.updates.filter (isNews V existing)
  skipped : acc.preskipped + acc.updates.length = acc'.updates.length
  preskipped : acc'.preskipped = 0
  brought : ∀ u ∈ acc'.updates, u.cert ∈ certs ∧ ∃ space, V.space u.cert.subject = some space

theorem Skims.mono
    {existing : List HandleHintRow}
    {certs more : List Certificate}
    {acc acc' : Collected}
    (h : Skims V existing certs acc acc')
    (hsub : certs ⊆ more) :
    Skims V existing more acc acc' :=
  { h with brought := fun u hu => ⟨hsub (h.brought u hu).1, (h.brought u hu).2⟩ }

/-- A redelivery is counted on one side and collected on the other. -/
theorem Skims.redelivered
    {existing : List HandleHintRow}
    {certs : List Certificate}
    {acc acc' : Collected}
    (h : Skims V existing certs acc acc')
    {record : HandleRecord}
    (hdup : isRedelivery V (hintOf existing record.handle) record = true)
    (hbrought : record.cert ∈ certs ∧ ∃ space, V.space record.cert.subject = some space) :
    Skims V existing certs { acc with preskipped := acc.preskipped + 1 }
      { acc' with updates := acc'.updates ++ [record] } where
  gated := h.gated
  revs := h.revs
  addrIndex := h.addrIndex
  updates := by
    have hold : [record].filter (isNews V existing) = [] := by
      simp [isNews, hdup]
    rw [List.filter_append, hold, List.append_nil]
    exact h.updates
  skipped := by
    have hcount := h.skipped
    simp only [List.length_append, List.length_singleton]
    omega
  preskipped := h.preskipped
  brought := List.forall_mem_append.2 ⟨h.brought, List.forall_mem_singleton.2 hbrought⟩

/-- Every other record is collected on both sides. -/
theorem Skims.news
    {existing : List HandleHintRow}
    {certs : List Certificate}
    {acc acc' : Collected}
    (h : Skims V existing certs acc acc')
    {record : HandleRecord}
    (hdup : isRedelivery V (hintOf existing record.handle) record = false)
    (hbrought : record.cert ∈ certs ∧ ∃ space, V.space record.cert.subject = some space) :
    Skims V existing certs { acc with updates := acc.updates ++ [record] }
      { acc' with updates := acc'.updates ++ [record] } where
  gated := h.gated
  revs := h.revs
  addrIndex := h.addrIndex
  updates := by
    have hnew : [record].filter (isNews V existing) = [record] := by
      simp [isNews, hdup]
    rw [List.filter_append, hnew, ← h.updates]
  skipped := by
    have hcount := h.skipped
    simp only [List.length_append, List.length_singleton]
    omega
  preskipped := h.preskipped
  brought := List.forall_mem_append.2 ⟨h.brought, List.forall_mem_singleton.2 hbrought⟩

/-- The filters in lockstep. -/
theorem skims_collectUpdate
    {batch : Batch}
    (hfree : batch.chargeContentLimits = false)
    {certs : List Certificate}
    {space : String}
    {record : HandleRecord}
    (hcert : record.cert ∈ certs)
    (hspace : V.space record.cert.subject = some space)
    {acc acc' : Collected}
    (h : Skims V batch.existing certs acc acc')
    (limits : σ) :
    (collectUpdate V H batch space record acc limits).2 = limits ∧
      (collectUpdateWith H (fun _ _ => false) batch space record acc' limits).2 = limits ∧
      Skims V batch.existing certs (collectUpdate V H batch space record acc limits).1
        (collectUpdateWith H (fun _ _ => false) batch space record acc' limits).1 := by
  have hoff : ∀ stored, withinLimits H batch.chargeContentLimits stored record space limits =
      (true, limits) := by
    intro stored
    rw [hfree]
    rfl
  unfold collectUpdate collectUpdateWith
  simp only [hoff, Bool.false_eq_true, if_false, if_true]
  cases hdup : isRedelivery V (hintOf batch.existing record.handle) record with
  | true =>
      -- a redelivery has a stored row, so the gate lets it pass
      have hstored : (hintOf batch.existing record.handle).isNone = false := by
        cases hhint : hintOf batch.existing record.handle with
        | none =>
            rw [hhint] at hdup
            cases hdup
        | some row =>
            rfl
      simp only [hstored, Bool.false_and, Bool.false_eq_true, if_false, if_true]
      exact ⟨trivial, trivial, h.redelivered hdup ⟨hcert, space, hspace⟩⟩
  | false =>
      simp only [Bool.false_eq_true, if_false]
      split_ifs
      · exact ⟨rfl, rfl, congrArg (· + 1) h.gated, h.revs, h.addrIndex, h.updates, h.skipped,
          h.preskipped, h.brought⟩
      · exact ⟨rfl, rfl, h.news hdup ⟨hcert, space, hspace⟩⟩

/-- One certificate in lockstep. -/
theorem skims_collectCert
    {batch : Batch}
    (hfree : batch.chargeContentLimits = false)
    {certs : List Certificate}
    {cert : Certificate}
    (hcert : cert ∈ certs)
    {acc acc' : Collected}
    (h : Skims V batch.existing certs acc acc')
    (limits : σ) :
    (collectCert V H batch (acc, limits) cert).2 = limits ∧
      (collectCertWith V H (fun _ _ => false) batch (acc', limits) cert).2 = limits ∧
      Skims V batch.existing certs (collectCert V H batch (acc, limits) cert).1
        (collectCertWith V H (fun _ _ => false) batch (acc', limits) cert).1 := by
  unfold collectCert collectCertWith
  cases zoneOf batch.zones cert.subject.text with
  | none =>
      exact ⟨rfl, rfl, h⟩
  | some zone =>
      dsimp only
      split_ifs
      · exact ⟨rfl, rfl, h⟩
      · have hclaims : Skims V batch.existing certs
            (collectClaims V acc cert.subject.text zone)
            (collectClaims V acc' cert.subject.text zone) := by
          rw [collectClaims_eq, collectClaims_eq]
          exact ⟨h.gated, congrArg (· ++ _) h.revs, congrArg (· ++ _) h.addrIndex, h.updates,
            h.skipped, h.preskipped, h.brought⟩
        cases hspace : V.space cert.subject with
        | none =>
            exact ⟨rfl, rfl, hclaims⟩
        | some space =>
            exact skims_collectUpdate hfree hcert hspace hclaims limits

/-- **The loop in lockstep.** -/
theorem skims_collect
    {batch : Batch}
    (hfree : batch.chargeContentLimits = false)
    (certs : List Certificate)
    (limits : σ) :
    (collect V H batch certs limits).2 = limits ∧
      (certs.foldl (collectCertWith V H (fun _ _ => false) batch) ({}, limits)).2 = limits ∧
      Skims V batch.existing certs (collect V H batch certs limits).1
        (certs.foldl (collectCertWith V H (fun _ _ => false) batch) ({}, limits)).1 := by
  unfold collect
  induction certs using List.reverseRecOn with
  | nil =>
      exact ⟨rfl, rfl, rfl, rfl, rfl, rfl, rfl, rfl, List.forall_mem_nil _⟩
  | append_singleton certs cert ih =>
      rw [List.foldl_concat, List.foldl_concat]
      generalize certs.foldl (collectCert V H batch) ({}, limits) = s at ih ⊢
      generalize certs.foldl (collectCertWith V H (fun _ _ => false) batch) ({}, limits) = s'
        at ih ⊢
      obtain ⟨acc, l⟩ := s
      obtain ⟨acc', l'⟩ := s'
      obtain ⟨rfl, rfl, hskims⟩ := ih
      exact skims_collectCert hfree (List.mem_append_right certs (List.mem_singleton_self cert))
        (hskims.mono (List.subset_append_left certs [cert])) _

end Lockstep

section Optimisation

variable {V : Crates} {σ Msg : Type} {H : Handler σ Msg}

theorem writeAddrs_congr
    {acc acc' : Collected}
    (h : acc.addrIndex = acc'.addrIndex)
    (stored : List (String × Nat))
    (db : Tables) :
    writeAddrs acc stored db = writeAddrs acc' stored db := by
  have hfor : ∀ handle, acc.addrsFor handle = acc'.addrsFor handle := by
    intro handle
    unfold Collected.addrsFor
    rw [h]
  induction stored generalizing db with
  | nil =>
      rfl
  | cons head rest ih =>
      unfold writeAddrs
      rw [hfor head.1]
      cases acc'.addrsFor head.1 with
      | none =>
          exact ih db
      | some entry =>
          exact ih _

/-- What is written for a message does not depend on the pre-skip. -/
theorem applyCollected_skims
    (hV : V.Lawful)
    {clock : Nat → Nat}
    {db : Tables}
    (hdb : RowsEncoded V db)
    {existing : List HandleHintRow}
    {certs : List Certificate}
    {acc acc' : Collected}
    (h : Skims V existing certs acc acc')
    (hdrop : ∀ u ∈ acc'.updates, isNews V existing u = false →
      Serializable V u ∧ accepts V (clock 0) (storedZone V db u.handle) u = false) :
    applyCollected V clock db acc = applyCollected V clock db acc' := by
  have hcount : acc'.updates.length - acc.updates.length = acc.preskipped := by
    have hskipped := h.skipped
    omega
  have hupdate := updateHandles_filter hV hdb hdrop
  rw [← h.updates, hcount] at hupdate
  unfold applyCollected
  rw [hupdate]
  cases updateHandles V (clock 0) db acc.updates with
  | error e =>
      rfl
  | ok out =>
      simp only [Except.map, Fallible.ok_bind, countSkipped, h.gated, h.revs, h.preskipped,
        writeAddrs_congr h.addrIndex, Nat.add_zero]

/-- **A message in lockstep**: both loops fail, or each collects without a charge and one
skims the other. -/
theorem collectMessage_skims
    (gatedSpaces : List String)
    (msg : Msg)
    (db : Tables)
    (limits : σ) :
    (∃ e, collectMessage V H gatedSpaces false msg db limits = .error e ∧
        collectMessageWith V H (fun _ _ => false) gatedSpaces false msg db limits = .error e) ∨
      ∃ res acc acc', verifyMessage V H msg db = .ok res ∧
        collectMessage V H gatedSpaces false msg db limits = .ok (acc, limits) ∧
        collectMessageWith V H (fun _ _ => false) gatedSpaces false msg db limits =
          .ok (acc', limits) ∧
        Skims V (getHandleHints db (res.certificates.map (fun c => c.subject.text)))
          res.certificates acc acc' := by
  unfold collectMessage collectMessageWith
  cases verifyMessage V H msg db with
  | error e =>
      exact Or.inl ⟨e, rfl, rfl⟩
  | ok res =>
      right
      have hfree : (Batch.mk res.zones
          (getHandleHints db (res.certificates.map (fun c => c.subject.text)))
          gatedSpaces false).chargeContentLimits = false := rfl
      obtain ⟨hlimits, hlimits', hskims⟩ :=
        skims_collect (V := V) (H := H) hfree res.certificates limits
      refine ⟨res, _, _, rfl, ?_, ?_, hskims⟩
      · exact congrArg Except.ok (Prod.ext rfl hlimits)
      · exact congrArg Except.ok (Prod.ext rfl hlimits')

/-- A collected redelivery can be serialized, and `update_handles` would reject it. -/
theorem Skims.dropped
    (hV : V.Lawful)
    (hsha : Function.Injective V.sha256)
    (hirrefl : ∀ z, V.better z z = false)
    {now : Nat}
    {db : Tables}
    (hdb : RowsInStep V now db)
    {handles : List String}
    {certs : List Certificate}
    {acc acc' : Collected}
    (h : Skims V (getHandleHints db handles) certs acc acc')
    (hcerts : ∀ c ∈ certs, ∃ b, V.certToVec c = .ok b)
    (clock : Nat)
    {u : HandleRecord}
    (hu : u ∈ acc'.updates)
    (hold : isNews V (getHandleHints db handles) u = false) :
    Serializable V u ∧ accepts V clock (storedZone V db u.handle) u = false := by
  have hdup : isRedelivery V (hintOf (getHandleHints db handles) u.handle) u = true := by
    unfold isNews at hold
    rwa [Bool.not_eq_false'] at hold
  obtain ⟨hcert, space, hspace⟩ := h.brought u hu
  obtain ⟨certData, hcertData⟩ := hcerts u.cert hcert
  obtain ⟨_, zoneData, hzoneData⟩ := storedZone_of_isRedelivery hV hsha hdb hdup
  have hprepared := (prepare_eq_ok_iff V).2
    ⟨space, certData, zoneData, hspace, hcertData, hzoneData, rfl⟩
  exact ⟨⟨_, hprepared⟩, rejected_of_isRedelivery hV hsha hirrefl hdb hdup clock⟩

/-- **The duplicate pre-skip is a pure optimisation.**  With the content limits off the
handler and the handler without it return the same result and leave the same state, and
whatever the test skips `update_handles` would reject. -/
theorem preskip_pure_optimisation
    (hV : V.Lawful)
    (hsha : Function.Injective V.sha256)
    (hirrefl : ∀ z, V.better z z = false)
    {now : Nat}
    {s : HandlerState σ}
    (hdb : RowsInStep V now s.db)
    {msg : Msg}
    (hcerts : ∀ res, verifyMessage V H msg s.db = .ok res →
      ∀ c ∈ res.certificates, ∃ b, V.certToVec c = .ok b)
    (clock : Nat → Nat)
    (gatedSpaces : List String) :
    handleMessageOpts V H clock gatedSpaces false msg s =
      handleMessageWithoutPreSkip V H clock gatedSpaces false msg s ∧
    ∀ handles record,
      isRedelivery V (hintOf (getHandleHints s.db handles) record.handle) record = true →
      accepts V (clock 0) (storedZone V s.db record.handle) record = false := by
  have hrejected : ∀ handles record,
      isRedelivery V (hintOf (getHandleHints s.db handles) record.handle) record = true →
      accepts V (clock 0) (storedZone V s.db record.handle) record = false :=
    fun _ _ h => rejected_of_isRedelivery hV hsha hirrefl hdb h (clock 0)
  refine ⟨?_, hrejected⟩
  unfold handleMessageOpts handleMessageWithoutPreSkip handleMessageOptsWith
  dsimp only
  rcases collectMessage_skims (V := V) (H := H) gatedSpaces msg (tick H s).db
    (tick H s).limits with
    ⟨e, hfail, hfail'⟩ | ⟨res, acc, acc', hverify, hcollect, hcollect', hskims⟩
  · rw [hfail, hfail']
  · have hwrite : applyCollected V clock (tick H s).db acc =
        applyCollected V clock (tick H s).db acc' :=
      applyCollected_skims hV hdb.encoded hskims (fun u hu hold =>
        hskims.dropped hV hsha hirrefl hdb (hcerts res hverify) (clock 0) hu hold)
    rw [hcollect, hcollect']
    dsimp only
    generalize applyCollected V clock (tick H s).db acc = written at hwrite ⊢
    subst hwrite
    cases applyCollected V clock (tick H s).db acc' with
    | error e =>
        rfl
    | ok written =>
        rfl

/-- A zone that is brought twice: the second time it is skipped, by the test or by the
store. -/
theorem preskip_pure_optimisation_sample :
    let zone := sampleZone 1 1 0 0
    let V := Crates.ofTables [sampleCert] [zone]
    let s : HandlerState Unit := ⟨deliver V 0 Tables.init
      [{ sampleRecord zone with epochHeight := 0 }], 0, ()⟩
    let msg : VerifiedMessage := ⟨[zone], [sampleCert]⟩
    handleMessageOpts V sampleHandler (fun _ => 0) [] false msg s =
        handleMessageWithoutPreSkip V sampleHandler (fun _ => 0) [] false msg s ∧
      (handleMessageOpts V sampleHandler (fun _ => 0) [] false msg s).1.toOption =
        some { skipped := 1 } := by
  intro zone V s msg
  have hV : V.Lawful := Crates.ofTables_lawful (by decide) (by decide)
  have hbetter := (Crates.ofTables_comparesLex [sampleCert] [zone]).keepsFresher
  have hdb : RowsInStep V 0 s.db := by
    have hinit : RowsInStep V 0 Tables.init :=
      ⟨rowsEncoded_init V, List.forall_mem_nil _, List.forall_mem_nil _⟩
    have hderived : ∀ u ∈ [{ sampleRecord zone with epochHeight := 0 }], Derived V u :=
      List.forall_mem_singleton.2 ⟨rfl, rfl⟩
    exact inStep_updateHandles hV hinit hderived rfl
  refine ⟨(preskip_pure_optimisation hV Function.injective_id hbetter.irrefl hdb ?_ _ _).1,
    by decide +kernel⟩
  intro res hres
  cases hres
  exact List.forall_mem_singleton.2 ⟨_, rfl⟩

end Optimisation

end CertRelay
