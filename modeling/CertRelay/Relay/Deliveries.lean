import CertRelay.Relay.StoreCalls
import Mathlib.Order.Basic

/-!
# Deliveries to one handle

The view of `updateHandles` from one handle.  `offer` is the abstract model: a
zone is offered to the zone held for the handle, which it replaces, with the
merged owner records, or leaves alone.

**Results.**
* `keepsRecords_iff`: the merge compares owner records by `recordsRank`, and
  under one key the merged zone has the larger rank of the two;
* `storedZone_updateHandles`: after a call the handle holds the zone stored for
  its last accepted record, computed from the zone held before the call;
* `storedZone_deliver`: delivering one record is one `offer`;
* `storedZone_oneByOne`: delivering a schedule of records is a sequence of offers.
-/

namespace CertRelay

section Merge

variable (V : Crates)

/-- The stored records are kept exactly when they have the larger rank. -/
theorem keepsRecords_iff
    {update existing : Zone} :
    keepsRecords V update existing = true ↔
      update.scriptPubkey = existing.scriptPubkey ∧
        V.recordsRank update < V.recordsRank existing := by
  rw [eq_comm (a := update.scriptPubkey)]
  unfold keepsRecords Crates.recordsRank
  cases existing.records.isEmpty <;> cases update.records.isEmpty <;> simp

theorem mergedZone_eq
    (update existing : Zone) :
    ∃ records, mergedZone V update existing = { update with records := records } := by
  unfold mergedZone
  split_ifs
  · exact ⟨_, rfl⟩
  · exact ⟨_, rfl⟩

@[simp] theorem mergedZone_anchor
    (update existing : Zone) :
    (mergedZone V update existing).anchor = update.anchor := by
  obtain ⟨_, h⟩ := mergedZone_eq V update existing
  rw [h]

@[simp] theorem mergedZone_scriptPubkey
    (update existing : Zone) :
    (mergedZone V update existing).scriptPubkey = update.scriptPubkey := by
  obtain ⟨_, h⟩ := mergedZone_eq V update existing
  rw [h]

@[simp] theorem mergedZone_sovereignty
    (update existing : Zone) :
    (mergedZone V update existing).sovereignty = update.sovereignty := by
  obtain ⟨_, h⟩ := mergedZone_eq V update existing
  rw [h]

@[simp] theorem mergedZone_commitment
    (update existing : Zone) :
    (mergedZone V update existing).commitment = update.commitment := by
  obtain ⟨_, h⟩ := mergedZone_eq V update existing
  rw [h]

@[simp] theorem mergedZone_delegate
    (update existing : Zone) :
    (mergedZone V update existing).delegate = update.delegate := by
  obtain ⟨_, h⟩ := mergedZone_eq V update existing
  rw [h]

/-- Stored records of a larger rank survive the merge. -/
theorem mergedZone_of_lt
    {update existing : Zone}
    (hkey : update.scriptPubkey = existing.scriptPubkey)
    (h : V.recordsRank update < V.recordsRank existing) :
    mergedZone V update existing = { update with records := existing.records } := by
  unfold mergedZone
  rw [if_pos ((keepsRecords_iff V).2 ⟨hkey, h⟩)]

/-- Records of an equal or larger rank replace the stored ones. -/
theorem mergedZone_of_le
    {update existing : Zone}
    (h : V.recordsRank existing ≤ V.recordsRank update) :
    mergedZone V update existing = update := by
  unfold mergedZone
  rw [if_neg]
  intro hkeep
  exact absurd ((keepsRecords_iff V).1 hkeep).2 (Nat.not_lt.2 h)

/-- Stored records of another key do not survive. -/
theorem mergedZone_of_key_ne
    {update existing : Zone}
    (h : update.scriptPubkey ≠ existing.scriptPubkey) :
    mergedZone V update existing = update := by
  unfold mergedZone
  rw [if_neg]
  intro hkeep
  exact h ((keepsRecords_iff V).1 hkeep).1

/-- The merged records are the stored ones of the same key, or the update's. -/
theorem mergedZone_records
    (update existing : Zone) :
    (update.scriptPubkey = existing.scriptPubkey ∧
        (mergedZone V update existing).records = existing.records) ∨
      (mergedZone V update existing).records = update.records := by
  by_cases hkey : update.scriptPubkey = existing.scriptPubkey
  · rcases Nat.lt_or_ge (V.recordsRank update) (V.recordsRank existing) with hlt | hge
    · rw [mergedZone_of_lt V hkey hlt]
      exact Or.inl ⟨hkey, rfl⟩
    · rw [mergedZone_of_le V hge]
      exact Or.inr rfl
  · rw [mergedZone_of_key_ne V hkey]
    exact Or.inr rfl

/-- Under one key the merge keeps the larger rank. -/
theorem recordsRank_mergedZone
    {update existing : Zone}
    (hkey : update.scriptPubkey = existing.scriptPubkey) :
    V.recordsRank (mergedZone V update existing) =
      max (V.recordsRank existing) (V.recordsRank update) := by
  rcases Nat.lt_or_ge (V.recordsRank update) (V.recordsRank existing) with h | h
  · rw [mergedZone_of_lt V hkey h, Nat.max_eq_left h.le]
    exact V.recordsRank_congr rfl
  · rw [mergedZone_of_le V h, Nat.max_eq_right h]

/-- The zone stored for an accepted update. -/
def storedAs (existing : Option Zone) (update : Zone) : Zone :=
  match existing with
  | none => update
  | some z => mergedZone V update z

/-- An update is offered to the zone held for its handle. -/
def offer (existing : Option Zone) (update : Zone) : Option Zone :=
  match existing with
  | none => some update
  | some z => if replaces V update z then some (mergedZone V update z) else some z

@[simp] theorem storedAs_anchor
    (existing : Option Zone)
    (update : Zone) :
    (storedAs V existing update).anchor = update.anchor := by
  cases existing with
  | none =>
      rfl
  | some z =>
      exact mergedZone_anchor V update z

@[simp] theorem storedAs_scriptPubkey
    (existing : Option Zone)
    (update : Zone) :
    (storedAs V existing update).scriptPubkey = update.scriptPubkey := by
  cases existing with
  | none =>
      rfl
  | some z =>
      exact mergedZone_scriptPubkey V update z

@[simp] theorem storedAs_commitment
    (existing : Option Zone)
    (update : Zone) :
    (storedAs V existing update).commitment = update.commitment := by
  cases existing with
  | none =>
      rfl
  | some z =>
      exact mergedZone_commitment V update z

@[simp] theorem storedAs_delegate
    (existing : Option Zone)
    (update : Zone) :
    (storedAs V existing update).delegate = update.delegate := by
  cases existing with
  | none =>
      rfl
  | some z =>
      exact mergedZone_delegate V update z

end Merge

section Decoding

variable {V : Crates}

/-- In a readable store the zone of a handle is the one its row encodes. -/
theorem storedZone_eq_some_of_encodes
    (hV : V.Lawful)
    {db : Tables}
    {handle : String}
    {r : Row}
    (hfind : db.handles.find? handle = some r)
    {z : Zone}
    (hz : V.zoneToVec z = .ok r.zoneData) :
    storedZone V db handle = some z :=
  (storedZone_eq_some_iff V).2 ⟨r, hfind, hV.zone_decode hz⟩

theorem storedZone_encoded
    (hV : V.Lawful)
    {db : Tables}
    (hdb : RowsEncoded V db)
    {handle : String}
    {z : Zone}
    (h : storedZone V db handle = some z) :
    ∃ r, db.handles.find? handle = some r ∧ V.zoneToVec z = .ok r.zoneData := by
  obtain ⟨r, hfind, hdecode⟩ := (storedZone_eq_some_iff V).1 h
  obtain ⟨z', hz'⟩ := (hdb r (KeyedTable.find?_eq_some_iff.1 hfind).1).zone
  have hsame : z' = z := by
    have hz := hV.zone_decode hz'
    rw [hdecode] at hz
    cases hz
    rfl
  exact ⟨r, hfind, hsame ▸ hz'⟩

theorem storedZone_isSome
    (hV : V.Lawful)
    {db : Tables}
    (hdb : RowsEncoded V db)
    {handle : String}
    {r : Row}
    (h : db.handles.find? handle = some r) :
    ∃ z, storedZone V db handle = some z := by
  obtain ⟨z, hz⟩ := (hdb r (KeyedTable.find?_eq_some_iff.1 h).1).zone
  exact ⟨z, storedZone_eq_some_of_encodes hV h hz⟩

/-- The zone blob written for an accepted record encodes the merged zone. -/
theorem zoneToVec_entryFor
    (hV : V.Lawful)
    {existing : Option Zone}
    (hexisting : ∀ z, existing = some z → ∃ b, V.zoneToVec z = .ok b)
    {u : HandleRecord}
    {e : Prepared}
    (he : prepare V u = .ok e) :
    V.zoneToVec (storedAs V existing u.zone) = .ok (entryFor V existing e u).zoneData := by
  obtain ⟨space, certData, zoneData, _, _, hzone, rfl⟩ := (prepare_eq_ok_iff V).1 he
  cases existing with
  | none =>
      exact hzone
  | some z =>
      obtain ⟨b, hb⟩ := hexisting z rfl
      obtain ⟨merged, hmerged⟩ := hV.zone_withRecords hzone hb
      show V.zoneToVec (mergedZone V u.zone z) =
        .ok (mergeRecords V _ u.zone z).zoneData
      unfold mergedZone mergeRecords
      split_ifs
      · rw [hmerged]
      · exact hzone

theorem lastAccepted_mem
    {now : Nat}
    {db : Tables}
    {handle : String}
    {updates : List HandleRecord}
    {u : HandleRecord}
    (h : lastAccepted V now db handle updates = some u) :
    u ∈ updates ∧ u.handle = handle ∧
      accepts V now (storedZone V db handle) u = true := by
  obtain ⟨hmem, hp⟩ := Fallible.lastMatch_mem h
  rw [Bool.and_eq_true, decide_eq_true_eq] at hp
  exact ⟨hmem, hp⟩

theorem mem_storedHandles_iff
    {now : Nat}
    {db db' : Tables}
    {updates : List HandleRecord}
    {res : BulkStoreResult}
    (h : updateHandles V now db updates = .ok (db', res))
    {handle : String} :
    handle ∈ res.storedHandles ↔ ∃ u, lastAccepted V now db handle updates = some u := by
  obtain ⟨hprepared, hstored, _⟩ := updateHandles_cases V h
  rw [hstored, ← Option.isSome_iff_exists, ← Option.ne_none_iff_isSome]
  unfold lastAccepted
  rw [Ne, Fallible.lastMatch_eq_none]
  constructor
  · intro hmem hnone
    obtain ⟨e', he', rfl⟩ := List.mem_map.1 hmem
    obtain ⟨u, hu, hsurvives⟩ := List.mem_filterMap.1 he'
    have hhandle := survivor_handle V hsurvives
    have haccepts := ((survivor_eq_some_iff V).1 hsurvives).1
    have hno := hnone u hu
    rw [hhandle, haccepts] at hno
    simp at hno
  · intro hsome
    by_contra hmem
    refine hsome (fun u hu => ?_)
    rw [Bool.eq_false_iff]
    intro hp
    rw [Bool.and_eq_true, decide_eq_true_eq] at hp
    obtain ⟨rfl, haccepts⟩ := hp
    obtain ⟨e, he⟩ := hprepared u hu
    have hsurvives := (survivor_eq_some_iff V).2 ⟨haccepts, e, he, rfl⟩
    refine hmem (List.mem_map.2 ⟨_, List.mem_filterMap.2 ⟨u, hu, hsurvives⟩, ?_⟩)
    rw [entryFor_handle, prepare_handle V he]

/-- **What a call leaves under a handle**: the zone stored for the last
accepted record, or what was there. -/
theorem storedZone_updateHandles
    (hV : V.Lawful)
    {now : Nat}
    {db db' : Tables}
    (hdb : RowsEncoded V db)
    {updates : List HandleRecord}
    {res : BulkStoreResult}
    (h : updateHandles V now db updates = .ok (db', res))
    (handle : String) :
    storedZone V db' handle =
      match lastAccepted V now db handle updates with
      | none => storedZone V db handle
      | some u => some (storedAs V (storedZone V db handle) u.zone) := by
  have hrow := updateHandles_find? V h handle
  cases hlast : lastAccepted V now db handle updates with
  | none =>
      rw [hlast] at hrow
      unfold storedZone
      rw [hrow]
  | some u =>
      rw [hlast] at hrow
      obtain ⟨r, hfind, ⟨e, he, hr⟩, _, _⟩ := hrow
      obtain ⟨_, rfl, _⟩ := lastAccepted_mem hlast
      apply storedZone_eq_some_of_encodes hV hfind
      rw [hr.zoneData]
      apply zoneToVec_entryFor hV _ he
      intro z hz
      obtain ⟨r', _, hz'⟩ := storedZone_encoded hV hdb hz
      exact ⟨_, hz'⟩

/-- **One step of a run, seen from one handle that is not deleted**: its zone
stays, or the last accepted record of a batch is stored. -/
theorem storedZone_runCall
    (hV : V.Lawful)
    {db : Tables}
    (hdb : RowsEncoded V db)
    {handle : String}
    {call : StoreCall}
    (hspare : call.Spares handle) :
    storedZone V (runCall V db call) handle = storedZone V db handle ∨
    ∃ now updates u, call = .updateHandles now updates ∧
      lastAccepted V now db handle updates = some u ∧
      storedZone V (runCall V db call) handle =
        some (storedAs V (storedZone V db handle) u.zone) := by
  rcases runCall_cases V db call with hsame | ⟨handles, mid, rfl, _, _⟩ |
    ⟨now, updates, res, rfl, hok⟩
  · left
    unfold storedZone
    rw [hsame.handles]
  · left
    have hnot : handle ∉ handles := hspare
    have hfind := find?_deleteHandles V db handles handle
    rw [if_neg hnot] at hfind
    unfold storedZone
    show ((deleteHandles V db handles).1.handles.find? handle).bind _ = _
    rw [hfind]
  · have hzone := storedZone_updateHandles hV hdb hok handle
    cases hlast : lastAccepted V now db handle updates with
    | none =>
        left
        rw [hzone, hlast]
    | some u =>
        right
        exact ⟨now, updates, u, rfl, hlast, by rw [hzone, hlast]⟩

end Decoding

section Delivery

variable {V : Crates}

/-- A record that the store can serialize. -/
def Serializable (V : Crates) (u : HandleRecord) : Prop :=
  ∃ e, prepare V u = .ok e

/-- Of the written entries only those with a stored row keep its certificate. -/
theorem preserveCert_toStore
    {now : Nat}
    {db : Tables}
    {updates : List HandleRecord}
    {e : Prepared}
    (he : e ∈ toStore V now db updates)
    (hkeep : e.preserveCert = true) :
    (db.handles.find? e.handle).isSome := by
  obtain ⟨u, _, hu⟩ := List.mem_filterMap.1 he
  obtain ⟨_, e', he', rfl⟩ := (survivor_eq_some_iff V).1 hu
  rw [entryFor_handle, prepare_handle V he']
  cases hz : storedZone V db u.handle with
  | none =>
      obtain ⟨_, _, _, _, _, _, rfl⟩ := (prepare_eq_ok_iff V).1 he'
      rw [hz] at hkeep
      cases hkeep
  | some z =>
      obtain ⟨r, hr, _⟩ := (storedZone_eq_some_iff V).1 hz
      rw [hr]
      rfl

/-- **What a call does on a readable store with serializable records**: it writes those
that pass the filter. -/
theorem updateHandles_eq
    (hV : V.Lawful)
    (now : Nat)
    {db : Tables}
    (hdb : RowsEncoded V db)
    {updates : List HandleRecord}
    (hupdates : ∀ u ∈ updates, Serializable V u) :
    ∃ rows,
      valuesRows V now db db.syncCounter (toStore V now db updates) = .ok rows ∧
      updateHandles V now db updates =
        .ok (({ db with
            syncCounter := db.syncCounter + (toStore V now db updates).length }
              : Tables).insertRows rows,
          { stored := (toStore V now db updates).length
            skipped := updates.length - (toStore V now db updates).length
            gated := 0
            storedHandles := (toStore V now db updates).map Prepared.handle }) := by
  obtain ⟨rows, hrows⟩ := valuesRows_total V now db db.syncCounter
    (fun e he hkeep => preserveCert_toStore he hkeep)
  refine ⟨rows, hrows, ?_⟩
  unfold updateHandles
  split_ifs with hempty
  · rw [List.isEmpty_iff] at hempty
    subst hempty
    cases hrows
    rfl
  · obtain ⟨entries, hentries⟩ := Fallible.mapM_total hupdates
    obtain ⟨zones, hzones⟩ :
        ∃ zones, getZonesInner V db (entries.map Prepared.handle) = .ok zones := by
      apply Fallible.mapM_total
      intro r hr
      obtain ⟨z, hz⟩ := (hdb r (List.mem_filter.1 hr).1).zone
      exact ⟨(r.handle, z), by rw [hV.zone_decode hz]; rfl⟩
    rw [hentries, Fallible.ok_bind, hzones, Fallible.ok_bind]
    simp only [filtered_eq_toStore V hentries hzones]
    split_ifs with hnone
    · rw [List.isEmpty_iff] at hnone
      rw [hnone] at hrows ⊢
      cases hrows
      rfl
    · rw [hrows, Fallible.ok_bind]

/-- On a readable store a call with serializable records succeeds. -/
theorem updateHandles_total
    (hV : V.Lawful)
    (now : Nat)
    {db : Tables}
    (hdb : RowsEncoded V db)
    {updates : List HandleRecord}
    (hupdates : ∀ u ∈ updates, Serializable V u) :
    ∃ out, updateHandles V now db updates = .ok out := by
  obtain ⟨_, _, hok⟩ := updateHandles_eq hV now hdb hupdates
  exact ⟨_, hok⟩

/-- The clock lets the sequence numbers of a record pass. -/
def Timely (now : Nat) (u : HandleRecord) : Prop :=
  u.offchainSeq ≤ maxSeq now ∧ u.delegateOffchainSeq ≤ maxSeq now

/-- **Delivering one timely record is one offer.** -/
theorem storedZone_deliver
    (hV : V.Lawful)
    {now : Nat}
    {db : Tables}
    (hdb : RowsEncoded V db)
    {u : HandleRecord}
    (hu : Serializable V u)
    (htime : Timely now u) :
    storedZone V (deliver V now db [u]) u.handle =
      offer V (storedZone V db u.handle) u.zone := by
  have hall : ∀ u' ∈ [u], Serializable V u' := by
    intro u' hu'
    rw [List.mem_singleton.1 hu']
    exact hu
  obtain ⟨⟨db', res⟩, hok⟩ := updateHandles_total hV now hdb hall
  rw [deliver_of_ok V hok, storedZone_updateHandles hV hdb hok]
  have hlast :
      lastAccepted V now db u.handle [u] =
        if accepts V now (storedZone V db u.handle) u then some u else none := by
    unfold lastAccepted
    rw [Fallible.lastMatch_cons, Fallible.lastMatch_nil, Option.none_or]
    simp
  rw [hlast]
  cases hz : storedZone V db u.handle with
  | none =>
      rw [if_pos (by simp [accepts, htime.1, htime.2])]
      rfl
  | some z =>
      have haccepts : accepts V now (some z) u = replaces V u.zone z := by
        simp [accepts, htime.1, htime.2]
      rw [haccepts]
      cases hr : replaces V u.zone z with
      | false =>
          simp [offer, hr]
      | true =>
          simp [offer, hr, storedAs]

end Delivery

section Schedules

variable {V : Crates}

/-- Deliver records one at a time, each at its own clock. -/
def oneByOne (schedule : List (Nat × HandleRecord)) : List StoreCall :=
  schedule.map fun p => .updateHandles p.1 [p.2]

/-- A schedule of a set of updates: some order of them, at clocks that let them pass. -/
structure IsSchedule (updates : List HandleRecord) (schedule : List (Nat × HandleRecord)) :
    Prop where
  perm : (schedule.map Prod.snd).Perm updates
  timely : ∀ p ∈ schedule, Timely p.1 p.2

/-- **A schedule for one handle is a sequence of offers.** -/
theorem storedZone_oneByOne
    (hV : V.Lawful)
    {handle : String}
    {schedule : List (Nat × HandleRecord)}
    (hschedule : ∀ p ∈ schedule,
      p.2.handle = handle ∧ Serializable V p.2 ∧ Timely p.1 p.2)
    {db : Tables}
    (hdb : RowsEncoded V db) :
    storedZone V (runCalls V db (oneByOne schedule)) handle =
      (schedule.map (fun p => p.2.zone)).foldl (offer V) (storedZone V db handle) := by
  induction schedule generalizing db with
  | nil =>
      rfl
  | cons p schedule ih =>
      obtain ⟨rfl, hser, htime⟩ := hschedule p (by simp)
      have hrest := ih (fun q hq => hschedule q (List.mem_cons_of_mem p hq))
        (rowsEncoded_runCall V hdb (.updateHandles p.1 [p.2]))
      have hstep : storedZone V (runCall V db (.updateHandles p.1 [p.2])) p.2.handle =
          offer V (storedZone V db p.2.handle) p.2.zone :=
        storedZone_deliver hV hdb hser htime
      show storedZone V (runCalls V (runCall V db (.updateHandles p.1 [p.2]))
        (oneByOne schedule)) p.2.handle = _
      rw [hrest, hstep]
      rfl

/-- Some clock lets every record of a list pass. -/
theorem exists_timely
    (updates : List HandleRecord) :
    ∃ now, ∀ u ∈ updates, Timely now u := by
  induction updates with
  | nil =>
      exact ⟨0, by simp⟩
  | cons u updates ih =>
      obtain ⟨now, hnow⟩ := ih
      refine ⟨now + u.offchainSeq + u.delegateOffchainSeq, ?_⟩
      intro u' hu'
      rcases List.mem_cons.1 hu' with rfl | hu'
      · unfold Timely maxSeq
        omega
      · have h := hnow u' hu'
        unfold Timely maxSeq at h ⊢
        omega

end Schedules

end CertRelay
