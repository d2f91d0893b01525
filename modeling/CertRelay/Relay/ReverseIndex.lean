import CertRelay.Relay.HandleMessage

/-!
# The reverse index

A zone with a number id and a primary Sig record claims the reverse row from the id to
the name of the Sig.  A message writes the rows that its zones claim before anything is
known about their fate: a zone may be a duplicate, gated, rate limited, older than the
stored one, or stored with the records of its predecessor.  Only eviction removes rows.

**Results.**
* `mem_reverse_setRevs`, `mem_reverse_deleteHandles`: which rows are there after a write
  and after an eviction;
* `reverseSound_deleteHandles`: eviction leaves no row without its zone;
* `reverseSound_message`: a message keeps the index sound if `KeepsReverse` holds;
* `reverse_index_sound`: so does every run whose events all keep it.
-/

namespace CertRelay

section Rows

variable {V : Crates}

/-- A row after a write is one of the written ones, or an old one of another id. -/
theorem mem_foldl_insertOrReplace
    {now : Nat}
    {entries : List (String × String)}
    {t : KeyedTable ReverseRow ReverseRow.numId}
    {row : ReverseRow}
    (h : row ∈ (entries.foldl
      (fun t (p : String × String) => t.insertOrReplace ⟨p.1, p.2, now⟩) t).rows) :
    (row.numId, row.name) ∈ entries ∨
      (row ∈ t.rows ∧ ∀ p ∈ entries, p.1 ≠ row.numId) := by
  induction entries generalizing t with
  | nil =>
      exact Or.inr ⟨h, by simp⟩
  | cons p entries ih =>
      rcases ih h with hnew | ⟨hrow, hother⟩
      · exact Or.inl (List.mem_cons_of_mem p hnew)
      · rcases KeyedTable.mem_insertOrReplace.1 hrow with ⟨hold, hne⟩ | rfl
        · refine Or.inr ⟨hold, ?_⟩
          intro q hq
          rcases List.mem_cons.1 hq with rfl | hq
          · exact Ne.symm hne
          · exact hother q hq
        · exact Or.inl List.mem_cons_self

theorem mem_reverse_setRevs
    {now : Nat}
    {db : Tables}
    {entries : List (String × String)}
    {row : ReverseRow}
    (h : row ∈ (setRevs now db entries).reverse.rows) :
    (row.numId, row.name) ∈ entries ∨
      (row ∈ db.reverse.rows ∧ ∀ p ∈ entries, p.1 ≠ row.numId) :=
  mem_foldl_insertOrReplace h

theorem mem_reverse_dropReverse
    {db : Tables}
    {victim : Row}
    {row : ReverseRow} :
    row ∈ (dropReverse V db victim).reverse.rows ↔
      row ∈ db.reverse.rows ∧ ∀ z, V.zoneFromSlice victim.zoneData = .ok z →
        reverseOf V z ≠ some (row.numId, row.name) := by
  unfold dropReverse
  cases hzone : V.zoneFromSlice victim.zoneData with
  | error e =>
      simp
  | ok z =>
      cases hrev : reverseOf V z with
      | none =>
          simp [hrev]
      | some rev =>
          obtain ⟨numId, name⟩ := rev
          dsimp only
          rw [hrev, KeyedTable.mem_filter, Bool.not_eq_true', ← Bool.decide_and,
            decide_eq_false_iff_not]
          refine and_congr_right (fun _ => ⟨fun hother z' hz' heq => ?_, fun hother heq => ?_⟩)
          · cases hz'
            rw [hrev] at heq
            cases heq
            exact hother ⟨rfl, rfl⟩
          · refine hother z rfl ?_
            rw [hrev, heq.1, heq.2]

theorem mem_reverse_foldl_dropReverse
    {rows : List Row}
    {db : Tables}
    {row : ReverseRow} :
    row ∈ (rows.foldl (dropReverse V) db).reverse.rows ↔
      row ∈ db.reverse.rows ∧ ∀ victim ∈ rows, ∀ z,
        V.zoneFromSlice victim.zoneData = .ok z →
          reverseOf V z ≠ some (row.numId, row.name) := by
  induction rows generalizing db with
  | nil =>
      simp
  | cons victim rows ih =>
      rw [List.foldl_cons, ih, mem_reverse_dropReverse, List.forall_mem_cons, and_assoc]

theorem reverse_foldl_deleteRow
    (rows : List Row)
    (db : Tables) :
    (rows.foldl Tables.deleteRow db).reverse = db.reverse := by
  induction rows generalizing db with
  | nil =>
      rfl
  | cons r rows ih =>
      rw [List.foldl_cons, ih]
      exact (Tables.sameRest_deleteRow db r).reverse

/-- A row after an eviction is an old one that no evicted zone claims. -/
theorem mem_reverse_deleteHandles
    {db : Tables}
    {handles : List String}
    {row : ReverseRow}
    (h : row ∈ (deleteHandles V db handles).1.reverse.rows) :
    row ∈ db.reverse.rows ∧ ∀ handle ∈ handles, ∀ z, storedZone V db handle = some z →
      reverseOf V z ≠ some (row.numId, row.name) := by
  unfold deleteHandles at h
  split_ifs at h with hempty
  · rw [List.isEmpty_iff.1 hempty]
    exact ⟨h, by simp⟩
  · rw [reverse_foldl_deleteRow] at h
    obtain ⟨hrow, hvictims⟩ := mem_reverse_foldl_dropReverse.1 h
    refine ⟨hrow, ?_⟩
    intro handle hhandle z hz
    obtain ⟨r, hr, hdecode⟩ := (storedZone_eq_some_iff V).1 hz
    obtain ⟨hmem, rfl⟩ := KeyedTable.find?_eq_some_iff.1 hr
    exact hvictims r (mem_victims.2 ⟨hmem, hhandle⟩) z hdecode

end Rows

section Soundness

variable (V : Crates)

/-- A stored zone claims a reverse row. -/
def Claimed (db : Tables) (rev : String × String) : Prop :=
  ∃ handle z, storedZone V db handle = some z ∧ reverseOf V z = some rev

/-- Every reverse row is claimed by a stored zone. -/
def ReverseSound (db : Tables) : Prop :=
  ∀ row ∈ db.reverse.rows, Claimed V db (row.numId, row.name)

/-- The index has a row. -/
def InReverse (db : Tables) (rev : String × String) : Prop :=
  ∃ row ∈ db.reverse.rows, (row.numId, row.name) = rev

/-- The zone stored for an update carries the records stored before. -/
def KeepsStored (update : Zone) (existing : Option Zone) : Prop :=
  ∃ e, existing = some e ∧ keepsRecords V update e = true

/-- What a message claims is what it leaves: a zone that claims a reverse row is
stored as it came, or the zone stored before has that row in the index already. -/
def ClaimsHold (db : Tables) (now : Nat) (updates : List HandleRecord)
    (res : VerifiedMessage) : Prop :=
  ∀ cert ∈ res.certificates, ∀ z rev,
    zoneFor res.zones cert.subject.text = some z → reverseOf V z = some rev →
      ((∃ u, lastAccepted V now db cert.subject.text updates = some u) ∧
        ¬ KeepsStored V z (storedZone V db cert.subject.text)) ∨
      ∃ e, storedZone V db cert.subject.text = some e ∧ reverseOf V e = some rev ∧
        InReverse db rev

/-- No zone with a row in the index is replaced by one that gives up its id: its
records are kept, or the new zone claims a row of the same id. -/
def ClaimsStay (db : Tables) (now : Nat) (updates : List HandleRecord) : Prop :=
  ∀ handle u e rev, lastAccepted V now db handle updates = some u →
    storedZone V db handle = some e → reverseOf V e = some rev → InReverse db rev →
      (keepsRecords V u.zone e = true ∧ u.zone.numId = e.numId) ∨
      ∃ name, reverseOf V u.zone = some (rev.1, name)

variable {σ Msg : Type}

/-- The claims of a message hold, and those that it replaces stay. -/
def KeepsReverse (s : HandlerState σ) : RelayEvent σ Msg → Prop
  | .message H clock gatedSpaces charge msg =>
      ∀ res acc, verifyMessage V H msg s.db = .ok res →
        collectedFrom V H gatedSpaces charge msg s = some acc →
        ClaimsHold V s.db (clock 0) acc.updates res ∧
          ClaimsStay V s.db (clock 0) acc.updates
  | .deleteHandles _ => True

variable {V}

/-- A zone with the records of another claims the row of the other's Sig. -/
theorem reverseOf_withRecords
    {z e : Zone}
    {rev : String × String}
    (he : reverseOf V e = some rev)
    (hid : z.numId = e.numId) :
    reverseOf V { z with records := e.records } = some rev := by
  unfold reverseOf at he ⊢
  rw [← hid] at he
  exact he

theorem numId_of_reverseOf
    {z : Zone}
    {rev : String × String}
    (h : reverseOf V z = some rev) :
    z.numId = some rev.1 := by
  unfold reverseOf at h
  split at h
  · next sig numId _ hid =>
    split_ifs at h
    cases h
    exact hid
  · cases h

/-- The zone that is stored for an update, when the stored records are kept. -/
theorem storedAs_of_keeps
    {update existing : Zone}
    (h : keepsRecords V update existing = true) :
    storedAs V (some existing) update = { update with records := existing.records } :=
  if_pos h

theorem storedAs_of_not_keeps
    {update : Zone}
    {existing : Option Zone}
    (h : ¬ KeepsStored V update existing) :
    storedAs V existing update = update := by
  cases existing with
  | none =>
      rfl
  | some e =>
      exact if_neg fun hkeep => h ⟨e, rfl, hkeep⟩

/-- **Eviction leaves no row without its zone.** -/
theorem reverseSound_deleteHandles
    {db : Tables}
    (h : ReverseSound V db)
    (handles : List String) :
    ReverseSound V (deleteHandles V db handles).1 := by
  intro row hrow
  obtain ⟨hold, hevicted⟩ := mem_reverse_deleteHandles hrow
  obtain ⟨handle, z, hz, hclaim⟩ := h row hold
  have hstays : handle ∉ handles := fun hmem => hevicted handle hmem z hz hclaim
  refine ⟨handle, z, ?_, hclaim⟩
  rw [storedZone_deleteHandles, if_neg hstays]
  exact hz

variable {H : Handler σ Msg} {clock : Nat → Nat} {db db' : Tables} {acc : Collected}
  {res : VerifiedMessage}

/-- The claims of a message that hold are claimed after it. -/
theorem claimed_of_claimsHold
    (hV : V.Lawful)
    (hdb : RowsEncoded V db)
    (hwritten : Written V clock db db' acc)
    (hcollects : Collects V H res.zones res.certificates acc)
    (hhold : ClaimsHold V db (clock 0) acc.updates res)
    {rev : String × String}
    (hrev : rev ∈ acc.revs) :
    Claimed V db' rev := by
  rw [hcollects.revs] at hrev
  obtain ⟨cert, hcert, hclaim⟩ := List.mem_filterMap.1 hrev
  obtain ⟨z, hz, hclaim⟩ := Option.bind_eq_some_iff.1 hclaim
  have hafter := storedZone_of_written hV hdb hwritten cert.subject.text
  refine ⟨cert.subject.text, ?_⟩
  rw [hafter]
  cases hlast : lastAccepted V (clock 0) db cert.subject.text acc.updates with
  | none =>
      -- the handle is left alone, so its stored zone makes the claim
      rcases hhold cert hcert z rev hz hclaim with ⟨⟨u, hu⟩, _⟩ | ⟨e, he, hsame, _⟩
      · rw [hlast] at hu
        cases hu
      · exact ⟨e, he, hsame⟩
  | some u =>
      obtain ⟨humem, huhandle, _⟩ := lastAccepted_mem hlast
      have huzone : u.zone = z := by
        have hzone := (hcollects.mem_updates humem).2.1
        rw [huhandle, hz] at hzone
        exact (Option.some.inj hzone).symm
      refine ⟨_, rfl, ?_⟩
      rw [huzone]
      by_cases hkeep : KeepsStored V z (storedZone V db cert.subject.text)
      · obtain ⟨e, he, hkeeps⟩ := hkeep
        rw [he, storedAs_of_keeps hkeeps]
        rcases hhold cert hcert z rev hz hclaim with ⟨_, hnot⟩ | ⟨e', he', hsame, _⟩
        · exact absurd ⟨e, he, hkeeps⟩ hnot
        · rw [he] at he'
          cases he'
          apply reverseOf_withRecords hsame
          rw [numId_of_reverseOf hclaim, numId_of_reverseOf hsame]
      · rw [storedAs_of_not_keeps hkeep]
        exact hclaim

/-- An old row whose id the message does not write is claimed after it. -/
theorem claimed_of_claimsStay
    (hV : V.Lawful)
    (hdb : RowsEncoded V db)
    (hsound : ReverseSound V db)
    (hwritten : Written V clock db db' acc)
    (hcollects : Collects V H res.zones res.certificates acc)
    (hstay : ClaimsStay V db (clock 0) acc.updates)
    {row : ReverseRow}
    (hrow : row ∈ db.reverse.rows)
    (hother : ∀ p ∈ acc.revs, p.1 ≠ row.numId) :
    Claimed V db' (row.numId, row.name) := by
  obtain ⟨handle, e, he, hclaim⟩ := hsound row hrow
  have hafter := storedZone_of_written hV hdb hwritten handle
  refine ⟨handle, ?_⟩
  rw [hafter]
  cases hlast : lastAccepted V (clock 0) db handle acc.updates with
  | none =>
      exact ⟨e, he, hclaim⟩
  | some u =>
      refine ⟨_, rfl, ?_⟩
      rw [he]
      rcases hstay handle u e _ hlast he hclaim ⟨row, hrow, rfl⟩ with
        ⟨hkeeps, hid⟩ | ⟨name, hname⟩
      · rw [storedAs_of_keeps hkeeps]
        exact reverseOf_withRecords hclaim hid
      · -- the new zone claims the id itself, so the message writes a row of it
        obtain ⟨humem, huhandle, _⟩ := lastAccepted_mem hlast
        obtain ⟨hcert, hzone, _⟩ := hcollects.mem_updates humem
        have hmem : (row.numId, name) ∈ acc.revs := by
          rw [hcollects.revs]
          refine List.mem_filterMap.2 ⟨u.cert, hcert, ?_⟩
          unfold certRev
          rw [show u.cert.subject.text = u.handle from rfl, hzone, Option.bind_some]
          exact hname
        exact absurd rfl (hother _ hmem)

theorem reverse_updateHandles
    {now : Nat}
    {updates : List HandleRecord}
    {out : BulkStoreResult}
    (h : updateHandles V now db updates = .ok (db', out)) :
    db'.reverse = db.reverse := by
  obtain ⟨_, _, rows, _, rfl⟩ := updateHandles_cases V h
  exact (Tables.sameRest_insertRows _ rows).reverse

theorem mem_reverse_written
    (h : Written V clock db db' acc)
    {row : ReverseRow}
    (hrow : row ∈ db'.reverse.rows) :
    (row.numId, row.name) ∈ acc.revs ∨
      (row ∈ db.reverse.rows ∧ ∀ p ∈ acc.revs, p.1 ≠ row.numId) := by
  obtain ⟨mid, out, stored, hupdate, _, rfl⟩ := h
  obtain ⟨addrs, haddrs⟩ := writeAddrs_cases acc stored (setRevs (clock 1) mid acc.revs)
  rw [haddrs] at hrow
  rw [← reverse_updateHandles hupdate]
  exact mem_reverse_setRevs hrow

/-- **A message keeps the index sound** if its claims hold and the old ones stay. -/
theorem reverseSound_message
    (hV : V.Lawful)
    (hdb : RowsEncoded V db)
    (hsound : ReverseSound V db)
    (hwritten : Written V clock db db' acc)
    (hcollects : Collects V H res.zones res.certificates acc)
    (hhold : ClaimsHold V db (clock 0) acc.updates res)
    (hstay : ClaimsStay V db (clock 0) acc.updates) :
    ReverseSound V db' := by
  intro row hrow
  rcases mem_reverse_written hwritten hrow with hnew | ⟨hold, hother⟩
  · exact claimed_of_claimsHold hV hdb hwritten hcollects hhold hnew
  · exact claimed_of_claimsStay hV hdb hsound hwritten hcollects hstay hold hother

/-- Writing rows that are there changes nothing but their time. -/
theorem inReverse_setRevs_iff
    {now : Nat}
    {entries : List (String × String)}
    (h : ∀ p ∈ entries, InReverse db p)
    (rev : String × String) :
    InReverse (setRevs now db entries) rev ↔ InReverse db rev := by
  constructor
  · rintro ⟨row, hrow, rfl⟩
    rcases mem_reverse_setRevs hrow with hnew | ⟨hold, _⟩
    · exact h _ hnew
    · exact ⟨row, hold, rfl⟩
  · rintro ⟨row, hrow, rfl⟩
    unfold InReverse setRevs
    dsimp only
    -- each write keeps a row of this id and name: of one id there is one row
    have hsame : ∀ p ∈ entries, p.1 = row.numId → p.2 = row.name := by
      intro p hp hid
      obtain ⟨row', hrow', heq⟩ := h p hp
      have hrows : row' = row := by
        apply db.reverse.eq_of_key_eq hrow' hrow
        rw [← hid, ← heq]
      rw [← heq, hrows]
    clear h
    generalize db.reverse = t at hrow
    induction entries generalizing t row with
    | nil =>
        exact ⟨row, hrow, rfl⟩
    | cons p entries ih =>
        have hrest : ∀ q ∈ entries, q.1 = row.numId → q.2 = row.name :=
          fun q hq => hsame q (List.mem_cons_of_mem p hq)
        by_cases hid : p.1 = row.numId
        · have hname := hsame p List.mem_cons_self hid
          obtain ⟨row', hrow', heq⟩ := ih ⟨p.1, p.2, now⟩
            (by intro q hq hq'; rw [hrest q hq (hq'.trans hid)]; exact hname.symm)
            (t.insertOrReplace ⟨p.1, p.2, now⟩)
            (KeyedTable.mem_insertOrReplace.2 (Or.inr rfl))
          exact ⟨row', hrow', by rw [heq, hid, hname]⟩
        · exact ih row hrest (t.insertOrReplace ⟨p.1, p.2, now⟩)
            (KeyedTable.mem_insertOrReplace.2 (Or.inl ⟨hrow, Ne.symm hid⟩))

/-- **A message that stores nothing changes no row**, if its claims hold. -/
theorem inReverse_written_iff
    (hwritten : Written V clock db db' acc)
    (hcollects : Collects V H res.zones res.certificates acc)
    (hhold : ClaimsHold V db (clock 0) acc.updates res)
    (hnothing : ∀ handle, lastAccepted V (clock 0) db handle acc.updates = none)
    (rev : String × String) :
    InReverse db' rev ↔ InReverse db rev := by
  have hthere : ∀ p ∈ acc.revs, InReverse db p := by
    intro p hp
    rw [hcollects.revs] at hp
    obtain ⟨cert, hcert, hclaim⟩ := List.mem_filterMap.1 hp
    obtain ⟨z, hz, hclaim⟩ := Option.bind_eq_some_iff.1 hclaim
    rcases hhold cert hcert z p hz hclaim with ⟨⟨u, hu⟩, _⟩ | ⟨_, _, _, hthere⟩
    · rw [hnothing] at hu
      cases hu
    · exact hthere
  obtain ⟨mid, out, stored, hupdate, _, rfl⟩ := hwritten
  obtain ⟨addrs, haddrs⟩ := writeAddrs_cases acc stored (setRevs (clock 1) mid acc.revs)
  have hmid : ∀ rev, InReverse mid rev ↔ InReverse db rev := by
    intro rev
    unfold InReverse
    rw [reverse_updateHandles hupdate]
  rw [haddrs, ← hmid]
  exact inReverse_setRevs_iff (fun p hp => (hmid p).2 (hthere p hp)) rev

/-- The invariant of runs that keep the reverse rows. -/
def SoundState (V : Crates) (s : HandlerState σ) : Prop :=
  RowsEncoded V s.db ∧ ReverseSound V s.db

/-- One event that keeps the reverse rows keeps the index sound. -/
theorem soundState_runEvent
    (hV : V.Lawful)
    (s : HandlerState σ)
    (event : RelayEvent σ Msg)
    (hs : SoundState V s)
    (hkeeps : KeepsReverse V s event) :
    SoundState V (runEvent V s event) := by
  refine ⟨rowsEncoded_runEvent V hs.1 event, ?_⟩
  cases event with
  | deleteHandles handles =>
      exact reverseSound_deleteHandles hs.2 handles
  | message H clock gatedSpaces charge msg =>
      show ReverseSound V (handleMessageOpts V H clock gatedSpaces charge msg s).2.db
      rcases handleMessageOpts_cases (V := V) (H := H) clock gatedSpaces charge msg s with
        ⟨hdb, _⟩ | ⟨acc, hacc, hwritten⟩
      · rw [hdb]
        exact hs.2
      · obtain ⟨res, hres, hcollects⟩ := collectedFrom_collects hacc
        obtain ⟨hhold, hstay⟩ := hkeeps res acc hres hacc
        exact reverseSound_message hV hs.1 hs.2 hwritten hcollects hhold hstay

/-- The event is a message of which nothing is stored: all of it is a redelivery,
held back by a filter, or no better than what is stored. -/
def StoresNothing (V : Crates) (s : HandlerState σ) : RelayEvent σ Msg → Prop
  | .message H clock gatedSpaces charge msg =>
      ∀ acc, collectedFrom V H gatedSpaces charge msg s = some acc →
        ∀ handle, lastAccepted V (clock 0) s.db handle acc.updates = none
  | .deleteHandles _ => False

theorem inReverse_runEvent_iff
    {s : HandlerState σ}
    {event : RelayEvent σ Msg}
    (hkeeps : KeepsReverse V s event)
    (hnothing : StoresNothing V s event)
    (rev : String × String) :
    InReverse (runEvent V s event).db rev ↔ InReverse s.db rev := by
  cases event with
  | deleteHandles handles =>
      cases hnothing
  | message H clock gatedSpaces charge msg =>
      show InReverse (handleMessageOpts V H clock gatedSpaces charge msg s).2.db rev ↔ _
      rcases handleMessageOpts_cases (V := V) (H := H) clock gatedSpaces charge msg s with
        ⟨hdb, _⟩ | ⟨acc, hacc, hwritten⟩
      · rw [hdb]
      · obtain ⟨res, hres, hcollects⟩ := collectedFrom_collects hacc
        exact inReverse_written_iff hwritten hcollects (hkeeps res acc hres hacc).1
          (hnothing acc hacc) rev

end Soundness

section Runs

variable {V : Crates} {σ Msg : Type}

/-- **The reverse index is sound in every state of a run** whose messages make no claim
that they do not leave, and give up none that is in the index; and in such a run a
message of which nothing is stored changes no row. -/
theorem reverse_index_sound
    (hV : V.Lawful)
    (limits : σ)
    {events : List (RelayEvent σ Msg)}
    (h : Runs.StepsMeet (runEvent V) (KeepsReverse V) (HandlerState.fresh limits) events)
    (i : ℕ) :
    let s := (events.take i).foldl (runEvent V) (HandlerState.fresh limits)
    ReverseSound V s.db ∧
      ∀ event, events[i]? = some event → StoresNothing V s event →
        ∀ rev, InReverse (runEvent V s event).db rev ↔ InReverse s.db rev := by
  have hstart : SoundState V (HandlerState.fresh limits) := by
    refine ⟨rowsEncoded_init V, ?_⟩
    intro row hrow
    cases hrow
  have hrun := (h.take i).invariant (soundState_runEvent hV) hstart
  refine ⟨hrun.2, ?_⟩
  intro event hevent hnothing rev
  obtain ⟨hi, rfl⟩ := List.getElem?_eq_some_iff.1 hevent
  exact inReverse_runEvent_iff (h.getElem hi) hnothing rev

/-- A first message and its redelivery. -/
theorem reverse_index_sound_sample :
    let V := Crates.ofSigned [sampleCert] [signedZone [5, 0]]
    let message := sampleMessage (signedZone [5, 0])
    ReverseSound V (([message, message].take 2).foldl (runEvent V)
      (HandlerState.fresh ())).db := by
  intro V message
  have hfirst : collectedFrom V sampleHandler [] true ⟨[signedZone [5, 0]], [sampleCert]⟩
      (HandlerState.fresh ()) =
        some ⟨0, 0, [("num1", "alice")], [],
          [{ sampleRecord (signedZone [5, 0]) with epochHeight := 0 }]⟩ := by
    decide
  have hagain : collectedFrom V sampleHandler [] true ⟨[signedZone [5, 0]], [sampleCert]⟩
      (runEvent V (HandlerState.fresh ()) message) =
        some ⟨1, 0, [("num1", "alice")], [], []⟩ := by
    decide
  have hmeets : Runs.StepsMeet (runEvent V) (KeepsReverse V) (HandlerState.fresh ())
      [message, message] → _ :=
    fun h => (reverse_index_sound (Crates.ofSigned_lawful (by decide) (by decide)) () h 2).1
  refine hmeets ⟨?_, ?_, trivial⟩
  · intro res acc hres hacc
    cases hres
    rw [hfirst] at hacc
    cases hacc
    constructor
    · intro cert hcert z rev _ _
      rw [List.mem_singleton.1 hcert]
      exact Or.inl ⟨⟨_, rfl⟩, fun ⟨_, he, _⟩ => by cases he⟩
    · intro handle u e rev _ he
      cases he
  · intro res acc hres hacc
    cases hres
    rw [hagain] at hacc
    cases hacc
    constructor
    · intro cert hcert z rev hz hclaim
      rw [List.mem_singleton.1 hcert] at hz ⊢
      have hzone : zoneFor [signedZone [5, 0]] "alice@bitcoin" = some (signedZone [5, 0]) := by
        decide
      rw [show sampleCert.subject.text = "alice@bitcoin" from rfl, hzone] at hz
      cases hz
      have hrev : reverseOf V (signedZone [5, 0]) = some ("num1", "alice") := by
        decide
      rw [hrev] at hclaim
      cases hclaim
      exact Or.inr ⟨signedZone [5, 0], by decide, hrev, ⟨"num1", "alice", 0⟩, by decide, rfl⟩
    · intro handle u e rev hlast
      cases hlast

/-- **A replayed older message changes the reverse row**, though nothing of it is stored. -/
theorem replay_rewrites_reverse :
    let V := Crates.ofSigned [sampleCert] [signedZone [5, 0], signedZone [1, 1]]
    let s := runEvent V (HandlerState.fresh ()) (sampleMessage (signedZone [5, 0]))
    let s' := runEvent V s (sampleMessage (signedZone [1, 1]))
    V.Lawful ∧ s'.db.handles = s.db.handles ∧
      s.db.reverse.rows = [⟨"num1", "alice", 0⟩] ∧
      s'.db.reverse.rows = [⟨"num1", "bob", 0⟩] ∧ ¬ ReverseSound V s'.db := by
  intro V s s'
  have hrows : s'.db.reverse.rows = [⟨"num1", "bob", 0⟩] := by
    decide
  have hhandles : s'.db.handles = s.db.handles := by
    decide
  refine ⟨Crates.ofSigned_lawful (by decide) (by decide), hhandles, by decide, hrows, ?_⟩
  intro hsound
  obtain ⟨handle, z, hz, hclaim⟩ := hsound ⟨"num1", "bob", 0⟩ (by rw [hrows]; simp)
  obtain ⟨r, hr, hdecode⟩ := (storedZone_eq_some_iff V).1 hz
  -- the only stored row is that of the first message
  have honly : ∀ r ∈ s'.db.handles.rows, V.zoneFromSlice r.zoneData = .ok (signedZone [5, 0]) := by
    decide
  rw [honly r (KeyedTable.find?_eq_some_iff.1 hr).1] at hdecode
  cases hdecode
  exact absurd hclaim (by decide)

end Runs

end CertRelay
