import CertRelay.Relay.SyncWithPeer
import CertRelay.Relay.Pagination
import CertRelay.Lib.Watermark

/-!
# Watermark safety

The rows of a peer are the items of a numbered source.  Every cursor that a call of
`sync_with_peer` holds, and the stored watermark, cover the source: all that the peer
still stores up to them is contained in an ingested page.

**Results.**
* `segment_of_handleSync`: a page is the segment between its cursor and its next one,
  and an empty page leaves nothing up to the advertised cursor;
* `inv_step`: each step keeps every cursor covering;
* `watermark_safety`: in every reachable world the watermark covers the peer, lies
  within its counter, and no call ever resets it.
-/

namespace CertRelay

section Marks

variable (V : Crates) (peerUrl : String)

theorem watermarkOf_setWatermark
    (now : Nat)
    (db : Tables)
    (cursor : SyncCursor) :
    watermarkOf peerUrl (setWatermark now db peerUrl cursor.display) = some cursor := by
  simp [watermarkOf, getWatermark_setWatermark, Except.toOption]

theorem watermarkOf_congr
    {db db' : Tables}
    (h : db'.syncWatermarks.find? peerUrl = db.syncWatermarks.find? peerUrl) :
    watermarkOf peerUrl db' = watermarkOf peerUrl db := by
  simp only [watermarkOf, getWatermark, h]

/-- Other work of a relay keeps the watermark of a peer. -/
theorem watermarkOf_runCall
    (db : Tables)
    {call : StoreCall}
    (hkeeps : call.KeepsWatermark peerUrl) :
    watermarkOf peerUrl (runCall V db call) = watermarkOf peerUrl db := by
  apply watermarkOf_congr
  cases call with
  | updateHandles now updates =>
      show (deliver V now db updates).syncWatermarks.find? peerUrl = _
      rw [syncWatermarks_deliver]
  | deleteHandles handles =>
      show (deleteHandles V db handles).1.syncWatermarks.find? peerUrl = _
      rw [syncWatermarks_deleteHandles]
  | setRevs now entries =>
      rfl
  | setAddrs now handle rev entries =>
      rfl
  | setWatermark now url cursor =>
      exact db.syncWatermarks.find?_insertOrReplace_ne hkeeps

end Marks

section Segments

/-- The rows of a relay as a numbered source. -/
def sourceOf (db : Tables) : Watermark.Source Row where
  stored := { r | r ∈ db.handles.rows }
  counter := db.syncCounter

theorem grows_runCall
    (V : Crates)
    (db : Tables)
    (call : StoreCall) :
    Watermark.Grows Row.syncSeq (sourceOf db) (sourceOf (runCall V db call)) := by
  refine ⟨syncCounter_le_runCall V db call, fun r hr => ?_⟩
  rcases runCall_sequence V db call with ⟨hrows, _⟩ | ⟨rows, hwrites⟩
  · exact Or.inl (hrows r hr)
  · rcases hwrites.mem_of hr with hold | hnew
    · exact Or.inl hold
    · exact Or.inr (hwrites.seq_bounds hnew).1

variable {db : Tables}

theorem one_le_limitOf
    (limit : Option String) :
    1 ≤ limitOf limit := by
  have hle : ∀ n, max 1 (min n maxSyncPageRows) < UInt64.size := by
    intro n
    have hrows : maxSyncPageRows < UInt64.size := by
      decide
    have hone : 1 < UInt64.size := by
      decide
    omega
  rw [UInt64.le_iff_toNat_le]
  unfold limitOf
  rw [UInt64.toNat_ofNat_of_lt' (hle _)]
  exact le_max_left _ _

/-- A page that prints a cursor is read to have that cursor. -/
theorem nextCursorOf_display
    {cursor : Option SyncCursor}
    {page : SyncPage}
    {n next : SyncCursor}
    (hpage : page.nextCursor = some n.display)
    (h : nextCursorOf cursor page = .ok next) :
    next = n := by
  unfold nextCursorOf at h
  rw [hpage] at h
  simp only [SyncCursor.fromStr_display, Except.mapError, Fallible.ok_bind] at h
  split at h
  · split_ifs at h
    cases h
    rfl
  · cases h
    rfl

/-- The request of a puller selects a page after its cursor. -/
theorem handleSync_request
    (order : HashOrder SyncRecord)
    (db : Tables)
    (cursor : Option SyncCursor)
    (limit : Option String) :
    handleSync order db (cursor.map SyncCursor.display) limit =
      .ok (syncPage order db cursor (limitOf limit) maxSyncPageBytes) := by
  cases cursor with
  | none =>
      rfl
  | some c =>
      unfold handleSync
      simp only [Option.map_some, Option.filter_some, SyncCursor.isEmpty_display,
        Bool.not_false, if_true, SyncCursor.fromStr_display]
      rfl

/-- **A served page is a segment**, and an empty one leaves nothing to be read. -/
theorem segment_of_handleSync
    (hdb : Sequenced db)
    (hrange : db.syncCounter < 2 ^ 63)
    {order : HashOrder SyncRecord}
    {cursor : Option SyncCursor}
    (hcursor : positionOf cursor ≤ db.syncCounter)
    {limit : Option String}
    {page : SyncPage}
    (hpage : handleSync order db (cursor.map SyncCursor.display) limit = .ok page) :
    (∀ latest, latest ≤ db.syncCounter → page.records = [] →
      Watermark.Segment Row.syncSeq (sourceOf db) (positionOf cursor) latest ∅) ∧
    ∀ next, nextCursorOf cursor page = .ok next →
      Watermark.Segment Row.syncSeq (sourceOf db) (positionOf cursor) next.val
        { r | r ∈ db.handles.rows ∧ r.record ∈ page.records } := by
  rw [handleSync_request] at hpage
  cases hpage
  have hrows := one_le_limitOf limit
  have hi64 : I64Range db := hdb.i64Range hrange
  have hpos : positionOf cursor < 2 ^ 63 := hcursor.trans_lt hrange
  by_cases hsome : ∃ r ∈ db.handles.rows, positionOf cursor < r.syncSeq
  · obtain ⟨n, _, hnext, hne, roots, hrecords, _⟩ :=
      syncPage_eq_between hdb.distinct hi64 order hpos hrows maxSyncPageBytes hsome
    refine ⟨fun _ _ hempty => absurd hempty hne, fun next hok => ?_⟩
    have hsame : next = n := nextCursorOf_display hnext hok
    subst hsame
    refine ⟨issued_le_counter hdb (.page order cursor _ maxSyncPageBytes hnext), ?_⟩
    intro r hr hlt hle
    refine ⟨hr, ?_⟩
    rw [hrecords, List.mem_append, List.map_map]
    left
    exact List.mem_map.2 ⟨r, Paging.mem_between.2 ⟨mem_writeSequence.2 hr, hlt, hle⟩, rfl⟩
  · have hnone : ∀ r ∈ db.handles.rows, r.syncSeq ≤ positionOf cursor :=
      fun r hr => not_lt.1 (fun hlt => hsome ⟨r, hr, hlt⟩)
    rw [syncPage_eq_empty hdb.distinct order hpos hrows maxSyncPageBytes hnone]
    refine ⟨fun latest hlatest _ => ⟨hlatest, fun r hr hlt _ => ?_⟩, fun next hok => ?_⟩
    · exact absurd hlt (not_lt.2 (hnone r hr))
    · cases hok

end Segments

section Invariant

variable {V : Crates} {σ Proof Msg : Type} {ops : IngestOps σ Proof Msg}
  {config : SyncConfig} {peerUrl : String}

/-- The rows that some ingested page contains. -/
def World.done (w : World V ops) : Set Row :=
  { r | ∃ e ∈ w.log, e.Contains V ops r }

/-- All that the peer stores up to a cursor was ingested. -/
def World.Covered (w : World V ops) (cursor : Option SyncCursor) : Prop :=
  Watermark.Covers Row.syncSeq (sourceOf w.peer) w.done (positionOf cursor)

/-- What a call of `sync_with_peer` relies on where it stands. -/
def RunInv (w : World V ops) : Run → Prop
  | .idle => True
  | .checking watermark => w.Covered watermark
  | .resetting => False
  | .paging round => w.Covered round.cursor ∧ round.latest.val ≤ w.peer.syncCounter
  | .received round page source =>
      (w.Covered round.cursor ∧ round.latest.val ≤ w.peer.syncCounter) ∧
      (page.records = [] →
        Watermark.Segment Row.syncSeq (sourceOf w.peer) (positionOf round.cursor)
          round.latest.val ∅) ∧
      ∀ next, nextCursorOf round.cursor page = .ok next →
        Watermark.Segment Row.syncSeq (sourceOf w.peer) (positionOf round.cursor) next.val
          { r | r ∈ source.handles.rows ∧ r.record ∈ page.records }
  | .processed round next =>
      w.Covered (some next) ∧ round.latest.val ≤ w.peer.syncCounter

/-- The invariant of the pull protocol. -/
structure Inv (peerUrl : String) (w : World V ops) : Prop where
  reachable : Reachable V w.peer
  range : w.peer.syncCounter < 2 ^ 63
  watermark : w.Covered (watermarkOf peerUrl w.puller)
  runs : ∀ i, RunInv w (w.runs i)

/-- The peer moves on and pages are ingested; what was covered stays covered. -/
structure Later (w w' : World V ops) : Prop where
  grows : Watermark.Grows Row.syncSeq (sourceOf w.peer) (sourceOf w'.peer)
  done : w.done ⊆ w'.done

theorem World.Covered.later
    {w w' : World V ops}
    (hlater : Later w w')
    {cursor : Option SyncCursor}
    (h : w.Covered cursor) :
    w'.Covered cursor :=
  Watermark.Covers.grow h hlater.grows hlater.done

theorem RunInv.later
    {w w' : World V ops}
    (hlater : Later w w')
    {run : Run}
    (h : RunInv w run) :
    RunInv w' run := by
  have hcounter : w.peer.syncCounter ≤ w'.peer.syncCounter := hlater.grows.counter_le
  cases run with
  | idle =>
      trivial
  | checking watermark =>
      exact World.Covered.later hlater h
  | resetting =>
      exact h
  | paging round =>
      exact ⟨h.1.later hlater, h.2.trans hcounter⟩
  | received round page source =>
      obtain ⟨⟨hcovered, hlatest⟩, hempty, hnext⟩ := h
      exact ⟨⟨hcovered.later hlater, hlatest.trans hcounter⟩,
        fun hnone => (hempty hnone).grow hlater.grows,
        fun next hok => (hnext next hok).grow hlater.grows⟩
  | processed round next =>
      exact ⟨h.1.later hlater, h.2.trans hcounter⟩

theorem Inv.run
    {w : World V ops}
    (h : Inv peerUrl w)
    {i : ℕ}
    {run : Run}
    (hrun : w.runs i = run) :
    RunInv w run :=
  hrun ▸ h.runs i

/-- A call moves on; nothing else changes. -/
theorem Inv.setRun
    {w : World V ops}
    (h : Inv peerUrl w)
    (i : ℕ)
    {run : Run}
    (hrun : RunInv w run) :
    Inv peerUrl (w.setRun i run) := by
  refine ⟨h.reachable, h.range, h.watermark, fun j => ?_⟩
  show RunInv w (if j = i then run else w.runs j)
  split_ifs
  · exact hrun
  · exact h.runs j

/-- The watermark is set to a covered cursor. -/
theorem Inv.setWatermark
    {w : World V ops}
    (h : Inv peerUrl w)
    (now : ℕ)
    {cursor : SyncCursor}
    (hcovered : w.Covered (some cursor)) :
    Inv peerUrl (w.setPuller (setWatermark now w.puller peerUrl cursor.display)) := by
  refine ⟨h.reachable, h.range, ?_, h.runs⟩
  show w.Covered (watermarkOf peerUrl (CertRelay.setWatermark now w.puller peerUrl _))
  rw [watermarkOf_setWatermark]
  exact hcovered

/-- The peer writes or evicts. -/
theorem Inv.peerCall
    {w : World V ops}
    (h : Inv peerUrl w)
    (call : StoreCall)
    (hrange : (runCall V w.peer call).syncCounter < 2 ^ 63) :
    Inv peerUrl (w.setPeer (runCall V w.peer call)) := by
  have hlater : Later w (w.setPeer (runCall V w.peer call)) :=
    ⟨grows_runCall V w.peer call, fun _ hr => hr⟩
  exact ⟨h.reachable.runCalls V [call], hrange, h.watermark.later hlater,
    fun i => (h.runs i).later hlater⟩

/-- A page is ingested. -/
theorem Inv.ingested
    {w : World V ops}
    (h : Inv peerUrl w)
    (e : Ingested V ops) :
    Later w (w.ingested e) ∧ Inv peerUrl (w.ingested e) := by
  have hlater : Later w (w.ingested e) := by
    refine ⟨Watermark.Grows.refl _, fun r hr => ?_⟩
    obtain ⟨e', he', hcontains⟩ := hr
    exact ⟨e', List.mem_cons_of_mem e he', hcontains⟩
  exact ⟨hlater, h.reachable, h.range, h.watermark.later hlater,
    fun i => (h.runs i).later hlater⟩

end Invariant

section Steps

variable {V : Crates} {σ Proof Msg : Type} {ops : IngestOps σ Proof Msg}
  {config : SyncConfig} {peerUrl : String} {w : World V ops}

theorem syncSummary_latestCursor
    (db : Tables) :
    (syncSummary db).latestCursor.bind (fun c => (SyncCursor.fromStr c).toOption) =
      if 0 < db.syncCounter then some (SyncCursor.ofCounter db.syncCounter) else none := by
  by_cases hpos : 0 < db.syncCounter
  · simp [syncSummary, hpos, Except.toOption]
  · simp [syncSummary, hpos]

/-- **The check against the summary never finds a regressed cursor space**: the watermark
was within the counter when it was read, and the counter never falls. -/
theorem runInv_afterSummary
    (h : Inv peerUrl w)
    {watermark : Option SyncCursor}
    (hcovered : w.Covered watermark) :
    RunInv w (afterSummary config watermark (syncSummary w.peer)) := by
  have hle : positionOf watermark ≤ w.peer.syncCounter := hcovered.le_counter
  have hval : (SyncCursor.ofCounter w.peer.syncCounter).val = w.peer.syncCounter :=
    SyncCursor.ofCounter_val_of_lt h.range
  unfold afterSummary
  simp only [syncSummary_latestCursor]
  split_ifs
  · cases watermark with
    | none =>
        exact ⟨hcovered, hval.le⟩
    | some mark =>
        have hnot : ¬ (SyncCursor.ofCounter w.peer.syncCounter).val < mark.val := by
          rw [hval]
          exact not_lt.2 hle
        simp only [if_neg hnot]
        split_ifs
        · trivial
        · exact ⟨hcovered, hval.le⟩
  · cases watermark <;> trivial

theorem runInv_received
    (h : Inv peerUrl w)
    {round : Round}
    (hround : RunInv w (.paging round))
    {order : HashOrder SyncRecord}
    {page : SyncPage}
    {limit : Option String}
    (hpage : handleSync order w.peer (round.cursor.map SyncCursor.display) limit = .ok page)
    (left : ℕ) :
    RunInv w (.received { round with pagesLeft := left } page w.peer) := by
  obtain ⟨hcovered, hlatest⟩ := hround
  obtain ⟨hempty, hnext⟩ := segment_of_handleSync (reachable_sequenced V h.reachable)
    h.range hcovered.le_counter hpage
  exact ⟨⟨hcovered, hlatest⟩, hempty round.latest.val hlatest, hnext⟩

/-- An empty page leaves nothing up to the advertised cursor, so the watermark may move
there. -/
theorem covered_latest
    {round : Round}
    {page : SyncPage}
    {source : Tables}
    (hrun : RunInv w (.received round page source))
    (hempty : page.records = []) :
    w.Covered (some round.latest) :=
  Watermark.Covers.extend hrun.1.1 (hrun.2.1 hempty) (Set.empty_subset _)

/-- Once the page is ingested its next cursor is covered. -/
theorem covered_next
    {round : Round}
    {next : SyncCursor}
    {e : Ingested V ops}
    (hrun : RunInv (w.ingested e) (.received round e.page e.source))
    (hnext : nextCursorOf round.cursor e.page = .ok next) :
    (w.ingested e).Covered (some next) := by
  refine Watermark.Covers.extend hrun.1.1 (hrun.2.2 next hnext) ?_
  intro r hr
  exact ⟨e, List.mem_cons_self, hr⟩

/-- The accepted cursor is not beyond the next one. -/
theorem covered_accepted
    {round : Round}
    {next : SyncCursor}
    (hcovered : w.Covered (some next)) :
    w.Covered (some (acceptedCursor round next)) := by
  apply Watermark.Covers.of_le hcovered
  show (acceptedCursor round next).val ≤ next.val
  unfold acceptedCursor
  split_ifs with hle
  · exact le_rfl
  · exact (not_le.1 hle).le

theorem runInv_afterAdvance
    {round : Round}
    {next : SyncCursor}
    (hrun : RunInv w (.processed round next)) :
    RunInv w (afterAdvance round next) := by
  unfold afterAdvance
  split_ifs
  · trivial
  · trivial
  · exact hrun

/-- **Every step keeps the invariant.** -/
theorem inv_step
    {w' : World V ops}
    (h : Inv peerUrl w)
    (hstep : Step V ops config peerUrl w w') :
    Inv peerUrl w' := by
  cases hstep with
  | begin i hrun =>
      exact h.setRun i h.watermark
  | summary i hrun =>
      exact h.setRun i (runInv_afterSummary h (h.run hrun))
  | reset i now hrun =>
      exact (h.run hrun).elim
  | exhausted i hrun hleft =>
      exact h.setRun i trivial
  | fetch i order hrun hleft hpage hsize =>
      exact h.setRun i (runInv_received h (h.run hrun) hpage _)
  | catchUp i now hrun hempty hbehind =>
      exact (h.setWatermark now (covered_latest (h.run hrun) hempty)).setRun i trivial
  | caughtUp i hrun hempty hlevel =>
      exact h.setRun i trivial
  | ingest i e hrun hrecords hnext hbudget =>
      obtain ⟨hlater, hinv⟩ := h.ingested e
      have hreceived := (h.run hrun).later hlater
      exact hinv.setRun i ⟨covered_next hreceived hnext, hreceived.1.2⟩
  | advance i now hrun =>
      have hprocessed := h.run hrun
      exact (h.setWatermark now (covered_accepted hprocessed.1)).setRun i
        (runInv_afterAdvance hprocessed)
  | fail i =>
      exact h.setRun i trivial
  | peerCall call hrange =>
      exact h.peerCall call hrange
  | pullerCall call hkeeps =>
      refine ⟨h.reachable, h.range, ?_, h.runs⟩
      show w.Covered (watermarkOf peerUrl (runCall V w.puller call))
      rw [watermarkOf_runCall V peerUrl w.puller hkeeps]
      exact h.watermark

theorem inv_init : Inv peerUrl (World.init : World V ops) := by
  have hrange : Tables.init.syncCounter < 2 ^ 63 := by
    decide
  refine ⟨⟨[], rfl⟩, hrange, ?_, fun _ => trivial⟩
  exact Watermark.covers_zero (fun r _ => r.syncSeq_pos)

theorem inv_of_reachableWorld
    (h : ReachableWorld V ops config peerUrl w) :
    Inv peerUrl w := by
  unfold ReachableWorld at h
  induction h with
  | refl =>
      exact inv_init
  | tail _ hstep ih =>
      exact inv_step ih hstep

end Steps

section Safety

variable {V : Crates} {σ Proof Msg : Type} {ops : IngestOps σ Proof Msg}

/-- How the ingestion of a page settled a row of its peer: as a duplicate by the hints that it
read, or at the turn of its space. -/
def RowSettled (e : Ingested V ops) (r : Row) : Prop :=
  ∃ existing s₁,
    ops.getHandleHints (e.page.records.map SyncRecord.handle) e.before = (.ok existing, s₁) ∧
    (isDuplicate V existing r.record = true ∨
      ∃ decoded cz group s₂,
        (survivorsOf V existing e.page.records).mapM (decodeRecord V) = .ok decoded ∧
        decodeRecord V r.record = .ok cz ∧ cz ∈ group ∧
        ((r.space, group), s₂) ∈
          batchAttempts V ops e.order e.page.records e.budget existing decoded s₁ ∧
        SpaceSettled ops existing r.space group cz s₂)

/-- A row that an honest relay stores decodes to a certificate of its own space. -/
theorem rowSettled_of_settled
    (hV : V.Lawful)
    {e : Ingested V ops}
    {r : Row}
    (hr : r.Encodes V)
    (h : Settled V ops e.order e.page.records e.budget e.before r.record) :
    RowSettled e r := by
  obtain ⟨existing, s₁, hhints, hcase⟩ := h
  refine ⟨existing, s₁, hhints, ?_⟩
  rcases hcase with hdup | ⟨decoded, cz, hmap, hdecode, hsettled⟩
  · exact Or.inl hdup
  · obtain ⟨cert, hcert, _, hspace⟩ := hr.cert
    have hown : V.space cz.1.subject = some r.space := by
      obtain ⟨cert', hcert', hrest⟩ := Fallible.bind_eq_ok.1 hdecode
      rw [Fallible.mapError_eq_ok] at hcert'
      have hsame : cert' = cert :=
        Except.ok.inj (hcert'.symm.trans (hV.cert_decode hcert))
      obtain ⟨zone, _, hrest⟩ := Fallible.bind_eq_ok.1 hrest
      split_ifs at hrest
      cases hrest
      rw [hsame]
      exact hspace
    obtain ⟨group, s₂, hmem, hturn, hspaceSettled⟩ := hsettled r.space hown
    exact Or.inr ⟨decoded, cz, group, s₂, hmap, hdecode, hmem, hturn, hspaceSettled⟩

/-- **Watermark safety.**  However the rounds of a relay with an honest peer interleave with
each other, with the peer's writes and evictions and with failures, every row that the peer
stores up to the watermark was contained in a page that was ingested completely, and was
settled there; the watermark is within the peer's counter; and no round resets it. -/
theorem watermark_safety
    (hV : V.Lawful)
    {config : SyncConfig}
    {peerUrl : String}
    {w : World V ops}
    (h : ReachableWorld V ops config peerUrl w) :
    (∀ r ∈ w.peer.handles.rows,
      r.syncSeq ≤ positionOf (watermarkOf peerUrl w.puller) →
      ∃ e ∈ w.log, e.Contains V ops r ∧ e.out.incomplete = false ∧ RowSettled e r) ∧
    positionOf (watermarkOf peerUrl w.puller) ≤ w.peer.syncCounter ∧
    ∀ i, w.runs i ≠ .resetting := by
  have hinv := inv_of_reachableWorld h
  refine ⟨?_, hinv.watermark.le_counter, fun i hreset => hinv.run hreset⟩
  intro r hr hle
  obtain ⟨e, he, hcontains⟩ := hinv.watermark.mem_done r hr hle
  have hsettled : Settled V ops e.order e.page.records e.budget e.before r.record :=
    ingest_settles V ops e.returned e.complete hcontains.2
  have hencodes : r.Encodes V := reachable_rowsEncoded V hinv.reachable r hr
  exact ⟨e, he, hcontains, e.complete, rowSettled_of_settled hV hencodes hsettled⟩

end Safety

section Sample

/-- A relay with an empty store whose proofs succeed and whose handler stores all. -/
def sampleOps : IngestOps Unit Unit MessageBuilder where
  getHandleHints _ := pure []
  firstInsertGated _ s := (false, s)
  getHandle _ := pure none
  acquireProof := pure ()
  prove _ := pure ()
  build builder _ := .ok builder
  acquireVerify := pure ()
  handleMessage builder := pure (.ok { stored := builder.certs.length })

abbrev sampleCrates : Crates :=
  Crates.ofTables [sampleCert] [sampleZone 1 1 1 0]

/-- A peer that has stored one handle. -/
def samplePeer : Tables :=
  runCall sampleCrates Tables.init (.updateHandles 0 [sampleRecord (sampleZone 1 1 1 0)])

/-- The page it serves to a relay without a watermark. -/
def samplePage : SyncPage :=
  syncPage HashOrder.inserted samplePeer none (limitOf (some (10 : Nat).repr))
    maxSyncPageBytes

/-- The page is processed: its space has no root, which is a failed space. -/
def sampleIngested : Ingested sampleCrates sampleOps where
  source := samplePeer
  page := samplePage
  order := HashOrder.inserted
  budget := remainingFailures {}
  out := { failedSpaces := 1 }
  before := ()
  after := ()
  returned := by rfl
  complete := by rfl

/-- One round with the peer: its row is ingested and the watermark moves to it. -/
theorem watermark_safety_sample :
    ∃ w : World sampleCrates sampleOps,
      ReachableWorld sampleCrates sampleOps ⟨10, 1, 1000⟩ "https://peer" w ∧
      positionOf (watermarkOf "https://peer" w.puller) = 1 ∧
      ∀ r ∈ w.peer.handles.rows, r.syncSeq ≤ 1 →
        ∃ e ∈ w.log, e.Contains sampleCrates sampleOps r := by
  let config : SyncConfig := ⟨10, 1, 1000⟩
  let step := Step sampleCrates sampleOps config "https://peer"
  let one : SyncCursor := SyncCursor.ofCounter 1
  let round : Round := ⟨none, one, 0, {}⟩
  let ended : Round := { round with totals := addTotals {} sampleIngested.out }
  let w₁ : World sampleCrates sampleOps := World.init.setPeer samplePeer
  let w₂ := w₁.setRun 0 (.checking none)
  let w₃ := w₂.setRun 0 (afterSummary config none (syncSummary samplePeer))
  let w₄ := w₃.setRun 0 (.received round samplePage samplePeer)
  let w₅ := (w₄.ingested sampleIngested).setRun 0 (.processed ended one)
  let w₆ := (w₅.setPuller (setWatermark 0 w₅.puller "https://peer"
    (acceptedCursor ended one).display)).setRun 0 (afterAdvance ended one)
  have h₁ : step World.init w₁ := Step.peerCall _ (by decide)
  have h₂ : step w₁ w₂ := Step.begin 0 rfl
  have h₃ : step w₂ w₃ := Step.summary 0 rfl
  have hpaging : w₃.runs 0 = .paging { round with pagesLeft := 1 } := by
    rfl
  have h₄ : step w₃ w₄ :=
    Step.fetch 0 HashOrder.inserted hpaging Nat.one_pos
      (handleSync_request HashOrder.inserted samplePeer none (some (10 : Nat).repr))
      (by decide)
  have h₅ : step w₄ w₅ := Step.ingest 0 sampleIngested rfl (by decide) rfl rfl
  have h₆ : step w₅ w₆ := Step.advance 0 0 rfl
  have hw : ReachableWorld sampleCrates sampleOps config "https://peer" w₆ :=
    (((((Relation.ReflTransGen.single h₁).tail h₂).tail h₃).tail h₄).tail h₅).tail h₆
  have hmark : watermarkOf "https://peer" w₆.puller = some one :=
    watermarkOf_setWatermark "https://peer" 0 w₅.puller (acceptedCursor ended one)
  have hone : positionOf (watermarkOf "https://peer" w₆.puller) = 1 := by
    rw [hmark]
    rfl
  have hsafe := (watermark_safety
    (Crates.ofTables_lawful (by decide) (by decide)) hw).1
  refine ⟨w₆, hw, hone, fun r hr hle => ?_⟩
  obtain ⟨e, he, hcontains, _⟩ := hsafe r hr (hone.symm ▸ hle)
  exact ⟨e, he, hcontains⟩

end Sample

end CertRelay
