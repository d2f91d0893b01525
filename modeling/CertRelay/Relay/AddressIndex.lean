import CertRelay.Relay.HandleMessage

/-!
# The address index

After a message the relay rewrites the address rows of a stored handle from the zone
that came with the message, and only if that zone names an address.  The zone that is
stored may carry the records stored before instead, and a stored zone without
addresses leaves the rows of its predecessor behind.

**Results.**
* `addrsIn_written`: the address rows after a message;
* `addrsAgree_runEvent_iff`: one event keeps index and zones in agreement exactly
  if `KeepsAddrs` holds before it;
* `addrs_agree_iff`: so does a run, throughout, exactly if all its events do.
-/

namespace CertRelay

section Agreement

variable (V : Crates)

/-- The addresses that a record set is to be indexed under. -/
def indexedAddrs (records : RecordSet) : List (String × String) :=
  match V.recordsSig records with
  | some _ => addrRecords V records
  | none => []

/-- The index holds for each handle the addresses of its stored zone. -/
def AddrsAgree (db : Tables) : Prop :=
  ∀ handle, addrsIn db handle =
    match storedZone V db handle with
    | some z => indexedAddrs V z.records
    | none => []

/-- Replacing a zone leaves the right addresses in the index. -/
def IndexFollows (update existing : Zone) : Prop :=
  if keepsRecords V update existing then
    -- the stored records stay; an incoming address would overwrite theirs
    indexedAddrs V update.records = [] ∨
      indexedAddrs V update.records = indexedAddrs V existing.records
  else
    -- the incoming records are stored; without addresses they do not clear the old ones
    indexedAddrs V update.records ≠ [] ∨ indexedAddrs V existing.records = []

variable {σ Msg : Type}

/-- Every stored zone that an event replaces is followed by the index. -/
def KeepsAddrs (s : HandlerState σ) : RelayEvent σ Msg → Prop
  | .message H clock gatedSpaces charge msg =>
      ∀ acc, collectedFrom V H gatedSpaces charge msg s = some acc →
        (∀ u ∈ acc.updates, Serializable V u) →
        ∀ handle u e, lastAccepted V (clock 0) s.db handle acc.updates = some u →
          storedZone V s.db handle = some e → IndexFollows V u.zone e
  | .deleteHandles _ => True

variable {V}

/-- An entry of the index is the indexed addresses of the zone, if there are any. -/
theorem addrEntry_cases
    (zone : Zone) :
    (addrEntry V zone = none ∧ indexedAddrs V zone.records = []) ∨
      ∃ rev, addrEntry V zone = some (rev, indexedAddrs V zone.records) ∧
        indexedAddrs V zone.records ≠ [] := by
  unfold addrEntry indexedAddrs
  cases V.recordsSig zone.records with
  | none =>
      exact Or.inl ⟨rfl, rfl⟩
  | some sig =>
      dsimp only
      split_ifs with hempty
      · exact Or.inl ⟨rfl, List.isEmpty_iff.1 hempty⟩
      · exact Or.inr ⟨_, rfl, fun h => hempty (List.isEmpty_iff.2 h)⟩

theorem addrs_updateHandles
    {now : Nat}
    {db db' : Tables}
    {updates : List HandleRecord}
    {res : BulkStoreResult}
    (h : updateHandles V now db updates = .ok (db', res)) :
    db'.addrs = db.addrs := by
  obtain ⟨_, _, rows, _, rfl⟩ := updateHandles_cases V h
  exact (Tables.sameRest_insertRows _ rows).addrs

theorem addrs_foldl_dropReverse
    (rows : List Row)
    (db : Tables) :
    (rows.foldl (dropReverse V) db).addrs = db.addrs := by
  induction rows generalizing db with
  | nil =>
      rfl
  | cons r rows ih =>
      rw [List.foldl_cons, ih]
      unfold dropReverse
      split
      · rfl
      · split <;> rfl

theorem addrs_foldl_deleteRow
    (rows : List Row)
    (db : Tables) :
    (rows.foldl Tables.deleteRow db).addrs = db.addrs := by
  induction rows generalizing db with
  | nil =>
      rfl
  | cons r rows ih =>
      rw [List.foldl_cons, ih]
      exact (Tables.sameRest_deleteRow db r).addrs

theorem addrs_deleteHandles
    (db : Tables)
    (handles : List String) :
    (deleteHandles V db handles).1.addrs =
      db.addrs.filter (fun a => decide (a.handle ∉ handles)) := by
  unfold deleteHandles
  split_ifs with hempty
  · rw [List.isEmpty_iff.1 hempty]
    simp
  · rw [addrs_foldl_deleteRow, addrs_foldl_dropReverse]

/-- Eviction clears the addresses of the evicted handles. -/
theorem addrsIn_deleteHandles
    (db : Tables)
    (handles : List String)
    (handle : String) :
    addrsIn (deleteHandles V db handles).1 handle =
      if handle ∈ handles then [] else addrsIn db handle := by
  unfold addrsIn
  rw [addrs_deleteHandles, List.filter_filter]
  split_ifs with hmem
  · have hnone : db.addrs.filter
        (fun a => decide (a.handle = handle) && decide (a.handle ∉ handles)) = [] := by
      rw [List.filter_eq_nil_iff]
      intro a _
      by_cases ha : a.handle = handle
      · simp [ha, hmem]
      · simp [ha]
    rw [hnone, List.map_nil]
  · congr 1
    apply List.filter_congr
    intro a _
    by_cases ha : a.handle = handle
    · simp [ha, hmem]
    · simp [ha]

/-- **The address rows after a message**: those of the incoming zone of a stored
handle, if it has any, and else the old ones. -/
theorem addrsIn_written
    {H : Handler σ Msg}
    {clock : Nat → Nat}
    {db db' : Tables}
    {res : VerifiedMessage}
    {acc : Collected}
    (hcollects : Collects V H res.zones res.certificates acc)
    (h : Written V clock db db' acc)
    (handle : String) :
    addrsIn db' handle =
      match lastAccepted V (clock 0) db handle acc.updates with
      | none => addrsIn db handle
      | some u =>
          if indexedAddrs V u.zone.records = [] then addrsIn db handle
          else indexedAddrs V u.zone.records := by
  obtain ⟨mid, res, stored, hupdate, hstored, rfl⟩ := h
  have hmid : addrsIn (setRevs (clock 1) mid acc.revs) handle = addrsIn db handle := by
    unfold addrsIn setRevs
    rw [addrs_updateHandles hupdate]
  rw [addrsIn_writeAddrs, hmid, hstored]
  have hmem : handle ∈ res.storedHandles ↔ _ := mem_storedHandles_iff hupdate
  cases hlast : lastAccepted V (clock 0) db handle acc.updates with
  | none =>
      rw [hlast] at hmem
      have hout : handle ∉ res.storedHandles := fun h => by
        obtain ⟨u, hu⟩ := hmem.1 h
        cases hu
      cases acc.addrsFor handle with
      | none =>
          rfl
      | some entry =>
          exact if_neg hout
  | some u =>
      have hin : handle ∈ res.storedHandles := hmem.2 ⟨u, hlast⟩
      obtain ⟨humem, rfl, _⟩ := lastAccepted_mem hlast
      obtain ⟨hcert, hzone, _⟩ := hcollects.mem_updates humem
      have hentry : acc.addrsFor u.handle = addrEntry V u.zone := by
        have hfor := hcollects.addrsFor_eq hcert
        rw [show u.cert.subject.text = u.handle from rfl, hzone, Option.bind_some] at hfor
        exact hfor
      rcases addrEntry_cases (V := V) u.zone with ⟨hnone, hempty⟩ | ⟨rev, hsome, hne⟩
      · simp only [hentry, hnone, hempty, if_true]
      · simp only [hentry, hsome, if_pos hin, if_neg hne]

/-- After the merge a zone has the stored records, or those of the update. -/
theorem records_mergedZone
    (update existing : Zone) :
    (mergedZone V update existing).records =
      if keepsRecords V update existing then existing.records else update.records := by
  unfold mergedZone
  split_ifs <;> rfl

theorem indexFollows_iff
    (update existing : Zone) :
    IndexFollows V update existing ↔
      (if indexedAddrs V update.records = [] then indexedAddrs V existing.records
        else indexedAddrs V update.records) =
        indexedAddrs V (mergedZone V update existing).records := by
  unfold IndexFollows
  rw [records_mergedZone]
  split_ifs with hkeep hempty hempty
  · simp [hempty]
  · simp [hempty]
  · rw [hempty]
    simp
  · simp [hempty]

/-- Eviction keeps index and zones in agreement. -/
theorem addrsAgree_deleteHandles
    {db : Tables}
    (hagree : AddrsAgree V db)
    (handles : List String) :
    AddrsAgree V (deleteHandles V db handles).1 := by
  intro handle
  rw [storedZone_deleteHandles, addrsIn_deleteHandles, hagree handle]
  split_ifs <;> rfl

/-- A message that is written keeps them in agreement exactly if the index follows every
zone that is replaced. -/
theorem addrsAgree_written_iff
    (hV : V.Lawful)
    {db db' : Tables}
    (hdb : RowsEncoded V db)
    (hagree : AddrsAgree V db)
    {H : Handler σ Msg}
    {clock : Nat → Nat}
    {res : VerifiedMessage}
    {acc : Collected}
    (hcollects : Collects V H res.zones res.certificates acc)
    (h : Written V clock db db' acc) :
    AddrsAgree V db' ↔
      ∀ handle u e, lastAccepted V (clock 0) db handle acc.updates = some u →
        storedZone V db handle = some e → IndexFollows V u.zone e := by
  apply forall_congr'
  intro handle
  have hold := hagree handle
  rw [addrsIn_written hcollects h, storedZone_of_written hV hdb h]
  cases lastAccepted V (clock 0) db handle acc.updates with
  | none =>
      simpa using hold
  | some u =>
      cases hzone : storedZone V db handle with
      | none =>
          rw [hzone] at hold
          simp only [hold, storedAs]
          by_cases hempty : indexedAddrs V u.zone.records = [] <;> simp [hempty]
      | some e =>
          rw [hzone] at hold
          simp only [hold, storedAs, ← indexFollows_iff, Option.some.injEq]
          exact ⟨fun h _ _ hu he => hu ▸ he ▸ h, fun h => h u e rfl rfl⟩

/-- **One event keeps index and zones in agreement exactly if it follows the zones.** -/
theorem addrsAgree_runEvent_iff
    (hV : V.Lawful)
    {s : HandlerState σ}
    (hs : RowsEncoded V s.db)
    (hagree : AddrsAgree V s.db)
    (event : RelayEvent σ Msg) :
    AddrsAgree V (runEvent V s event).db ↔ KeepsAddrs V s event := by
  cases event with
  | deleteHandles handles =>
      exact iff_of_true (addrsAgree_deleteHandles hagree handles) trivial
  | message H clock gatedSpaces charge msg =>
      show AddrsAgree V (handleMessageOpts V H clock gatedSpaces charge msg s).2.db ↔ _
      rcases handleMessageOpts_cases (V := V) (H := H) clock gatedSpaces charge msg s with
        ⟨hdb, hfails⟩ | ⟨acc, hacc, hwritten⟩
      · rw [hdb]
        refine iff_of_true hagree ?_
        intro acc hacc hserializable
        obtain ⟨out, hout⟩ := updateHandles_total hV (clock 0) hs hserializable
        exact absurd hout (hfails acc hacc out.1 out.2)
      · obtain ⟨res, _, hcollects⟩ := collectedFrom_collects hacc
        have hserializable : ∀ u ∈ acc.updates, Serializable V u := by
          obtain ⟨mid, res, hupdate, _⟩ := hwritten.sameHandles
          exact (updateHandles_cases V hupdate).1
        rw [addrsAgree_written_iff hV hs hagree hcollects hwritten]
        constructor
        · intro h acc' hacc'
          rw [hacc] at hacc'
          cases hacc'
          exact fun _ => h
        · intro h
          exact h acc hacc hserializable

end Agreement

section Runs

variable {V : Crates} {σ Msg : Type}

theorem addrsAgree_init : AddrsAgree V Tables.init := by
  intro handle
  rfl

/-- **Index and zones agree after every event exactly if every event follows the
zones it replaces.** -/
theorem addrs_agree_iff
    (hV : V.Lawful)
    (limits : σ)
    (events : List (RelayEvent σ Msg)) :
    (∀ i, AddrsAgree V
        ((events.take i).foldl (runEvent V) (HandlerState.fresh limits)).db) ↔
      Runs.StepsMeet (runEvent V) (KeepsAddrs V) (HandlerState.fresh limits) events := by
  have hgood : ∀ s : HandlerState σ, RowsEncoded V s.db ∧ AddrsAgree V s.db →
      AddrsAgree V s.db := fun _ h => h.2
  apply Runs.good_iff hgood
  · intro s event hs hagree
    exact (addrsAgree_runEvent_iff hV hs.1 hs.2 event).1 hagree
  · intro s event hs hkeeps
    exact ⟨rowsEncoded_runEvent V hs.1 event,
      (addrsAgree_runEvent_iff hV hs.1 hs.2 event).2 hkeeps⟩
  · exact ⟨rowsEncoded_init V, addrsAgree_init⟩

/-- A handle with an address, newer records with another one, and their redelivery: the index
follows. -/
theorem addrs_agree_iff_sample :
    let V := Crates.ofSigned [sampleCert] [signedZone [1, 0, 0], signedZone [2, 0, 1]]
    let first := sampleMessage (signedZone [1, 0, 0])
    let newer := sampleMessage (signedZone [2, 0, 1])
    addrsIn ([first, newer, newer].foldl (runEvent V) (HandlerState.fresh ())).db
        "alice@bitcoin" = [("btc", "bc1qnew")] ∧
      ∀ i, AddrsAgree V (([first, newer, newer].take i).foldl (runEvent V)
        (HandlerState.fresh ())).db := by
  intro V first newer
  refine ⟨by decide, (addrs_agree_iff (Crates.ofSigned_lawful (by decide) (by decide)) ()
    [first, newer, newer]).2 ⟨?_, ?_, ?_, trivial⟩⟩
  · intro acc _ _ handle u e _ hzone
    cases hzone
  · -- the newer records come with their address
    intro acc hacc _ handle u e hlast hzone
    have hcollected : ∀ acc ∈ collectedFrom V sampleHandler [] true
        ⟨[signedZone [2, 0, 1]], [sampleCert]⟩ (runEvent V (HandlerState.fresh ()) first),
        ∀ u ∈ acc.updates, u.handle = "alice@bitcoin" ∧ u.zone = signedZone [2, 0, 1] := by
      decide
    obtain ⟨hmem, rfl, _⟩ := lastAccepted_mem hlast
    obtain ⟨hhandle, hupdate⟩ := hcollected acc hacc u hmem
    have hstored : storedZone V (runEvent V (HandlerState.fresh ()) first).db "alice@bitcoin" =
        some (signedZone [1, 0, 0]) := by
      decide
    rw [hhandle, hstored, Option.some.injEq] at hzone
    rw [hupdate, ← hzone]
    unfold IndexFollows
    rw [if_neg (by decide)]
    exact .inl (by decide)
  · -- the redelivery is skipped, so nothing is stored
    intro acc hacc _ handle u e hlast _
    have hskipped : ∀ acc ∈ collectedFrom V sampleHandler [] true
        ⟨[signedZone [2, 0, 1]], [sampleCert]⟩
        (runEvent V (runEvent V (HandlerState.fresh ()) first) newer), acc.updates = [] := by
      decide
    rw [hskipped acc hacc] at hlast
    cases hlast

/-- Newer records without an address leave the address of the older ones behind. -/
theorem stale_address :
    let V := Crates.ofSigned [sampleCert] [signedZone [1, 0, 0], signedZone [2, 0]]
    let s := [sampleMessage (signedZone [1, 0, 0]), sampleMessage (signedZone [2, 0])].foldl
      (runEvent V) (HandlerState.fresh ())
    V.Lawful ∧ storedZone V s.db "alice@bitcoin" = some (signedZone [2, 0]) ∧
      addrsIn s.db "alice@bitcoin" = [("btc", "bc1qold")] ∧ ¬ AddrsAgree V s.db := by
  intro V s
  have hzone : storedZone V s.db "alice@bitcoin" = some (signedZone [2, 0]) := by
    decide
  have haddrs : addrsIn s.db "alice@bitcoin" = [("btc", "bc1qold")] := by
    decide
  refine ⟨Crates.ofSigned_lawful (by decide) (by decide), hzone, haddrs, ?_⟩
  intro hagree
  have h := hagree "alice@bitcoin"
  rw [hzone, haddrs] at h
  exact absurd h (by decide)

end Runs

end CertRelay
