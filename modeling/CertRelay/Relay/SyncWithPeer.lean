import CertRelay.Relay.Ingest
import CertRelay.Relay.WriteSequence
import Mathlib.Logic.Relation

/-!
# Pulling from a peer

`sync_with_peer` reads the watermark it keeps for a peer, asks the peer for a summary,
and pages the peer's rows after the watermark, ingesting each page and then moving the
watermark.  Between any two of its steps the peer writes and evicts, the relay does
other work, other rounds with the same peer run, and any request or task may fail.

A `World` is one relay, one peer and the rounds between them; `Step` has one
constructor for each stretch of a round between two suspension points, and one for
everything else that may happen there.  The `log` of ingested pages is not part of the
program: it records what the rounds did.
-/

namespace CertRelay

/-- Tuning for the sync loop. -/
structure SyncConfig where
  pageLimit : Nat
  maxPagesPerPeer : Nat
  maxPageBytes : Nat

/-- `MAX_SYNC_PAGE_ROWS`. -/
def maxSyncPageRows : Nat := 1000

/-- `MAX_SYNC_PAGE_BYTES`. -/
def maxSyncPageBytes : UInt64 := 2 * 1024 * 1024

/-- `MAX_FAILED_SPACES_PER_ROUND`. -/
def maxFailedSpacesPerRound : Nat := 32

section Requests

/-- The row limit of a request: a number, or else the default, clamped. -/
def limitOf (limit : Option String) : UInt64 :=
  let limit := ((limit.bind SyncCursor.parseU64).map Subtype.val).getD maxSyncPageRows
  UInt64.ofNat (max 1 (min limit maxSyncPageRows))

/-- `handle_sync`, from its query parameters. -/
def handleSync (order : HashOrder SyncRecord) (db : Tables) (cursor limit : Option String) :
    Except String SyncPage := do
  let cursor ←
    match cursor.filter (fun c => !c.isEmpty) with
    | some raw => (SyncCursor.fromStr raw).map some
    | none => .ok none
  .ok (syncPage order db cursor (limitOf limit) maxSyncPageBytes)

/-- Length of a `String` or `Vec<u8>` in borsh: a 32-bit length, then the bytes. -/
def borshBlobLen (bytes : Nat) : Nat :=
  4 + bytes

/-- Length of the borsh encoding of a record. -/
def SyncRecord.borshLen (r : SyncRecord) : Nat :=
  borshBlobLen r.handle.utf8ByteSize + 4 + 8 + 8 +
    borshBlobLen r.cert.length + borshBlobLen r.zone.length

/-- Length of the borsh encoding of a page. -/
def SyncPage.borshLen (page : SyncPage) : Nat :=
  4 + (page.records.map SyncRecord.borshLen).sum +
    match page.nextCursor with
    | some text => 1 + borshBlobLen text.utf8ByteSize
    | none => 1

end Requests

section Round

variable (config : SyncConfig)

/-- The stored watermark of a peer, read as a cursor. -/
def watermarkOf (peerUrl : String) (db : Tables) : Option SyncCursor :=
  (getWatermark db peerUrl).bind (fun c => (SyncCursor.fromStr c).toOption)

/-- The local variables of the paging loop. -/
structure Round where
  cursor : Option SyncCursor
  latest : SyncCursor
  pagesLeft : Nat
  totals : SyncIngest

/-- Where a call of `sync_with_peer` stands. -/
inductive Run
  /-- Not running. -/
  | idle
  /-- The watermark is read, the summary is requested. -/
  | checking (watermark : Option SyncCursor)
  /-- The cursor space regressed, the watermark is about to be reset. -/
  | resetting
  /-- At the head of the paging loop. -/
  | paging (round : Round)
  /-- A page has arrived; `source` is the peer's store it was served from. -/
  | received (round : Round) (page : SyncPage) (source : Tables)
  /-- A page is fully processed, the watermark is about to move. -/
  | processed (round : Round) (next : SyncCursor)

/-- The freshness check against the summary. -/
def afterSummary (watermark : Option SyncCursor) (summary : SyncSummary) : Run :=
  let latest := summary.latestCursor.bind (fun c => (SyncCursor.fromStr c).toOption)
  match watermark, latest with
  | _, none => .idle
  | some mark, some latest =>
      if latest.val < mark.val then .resetting
      else if latest = mark then .idle
      else .paging ⟨some mark, latest, config.maxPagesPerPeer, {}⟩
  | none, some latest => .paging ⟨none, latest, config.maxPagesPerPeer, {}⟩

/-- The next cursor of a page, which has to advance. -/
def nextCursorOf (cursor : Option SyncCursor) (page : SyncPage) : Except String SyncCursor :=
  match page.nextCursor with
  | none => .error "sync page missing cursor"
  | some text => do
      let next ← (SyncCursor.fromStr text).mapError (fun e => s!"bad sync cursor: {e}")
      match cursor with
      | some c => if next.val ≤ c.val then .error "sync cursor did not advance" else .ok next
      | none => .ok next

/-- `remaining_failures`. -/
def remainingFailures (totals : SyncIngest) : Nat :=
  (maxFailedSpacesPerRound - totals.failedSpaces) + 1

/-- The totals after a page. -/
def addTotals (totals stats : SyncIngest) : SyncIngest :=
  { totals with
    stored := totals.stored + stats.stored
    prefiltered := totals.prefiltered + stats.prefiltered
    failedSpaces := totals.failedSpaces + stats.failedSpaces }

/-- `next_cursor.min(latest)`. -/
def acceptedCursor (round : Round) (next : SyncCursor) : SyncCursor :=
  if next.val ≤ round.latest.val then next else round.latest

/-- After the watermark has moved: caught up, too many failures, or the next page. -/
def afterAdvance (round : Round) (next : SyncCursor) : Run :=
  if round.latest.val ≤ next.val then .idle
  else if maxFailedSpacesPerRound < round.totals.failedSpaces then .idle
  else .paging { round with cursor := some next }

end Round

/-- The call does not set the watermark of a peer. -/
def StoreCall.KeepsWatermark (peerUrl : String) : StoreCall → Prop
  | .setWatermark _ url _ => url ≠ peerUrl
  | _ => True

section World

variable (V : Crates) {σ Proof Msg : Type} (ops : IngestOps σ Proof Msg)

/-- A page for which `ingest_sync_records` returned `Ok` with a complete outcome. -/
structure Ingested where
  source : Tables
  page : SyncPage
  order : HashOrder (String × List (Certificate × Zone))
  budget : Nat
  out : SyncIngest
  before : σ
  after : σ
  returned : ingestSyncRecords ops V order page.records budget before = (.ok out, after)
  complete : out.incomplete = false

/-- The row was served in the page. -/
def Ingested.Contains (e : Ingested V ops) (r : Row) : Prop :=
  r ∈ e.source.handles.rows ∧ r.record ∈ e.page.records

/-- One relay, one peer, and the calls of `sync_with_peer` between them. -/
structure World where
  puller : Tables
  peer : Tables
  runs : ℕ → Run
  log : List (Ingested V ops)

namespace World

variable {V ops}

/-- Two fresh relays. -/
def init : World V ops where
  puller := Tables.init
  peer := Tables.init
  runs := fun _ => .idle
  log := []

def setRun (w : World V ops) (i : ℕ) (run : Run) : World V ops :=
  { w with runs := fun j => if j = i then run else w.runs j }

def setPuller (w : World V ops) (db : Tables) : World V ops :=
  { w with puller := db }

def setPeer (w : World V ops) (db : Tables) : World V ops :=
  { w with peer := db }

def ingested (w : World V ops) (e : Ingested V ops) : World V ops :=
  { w with log := e :: w.log }

end World

variable (config : SyncConfig) (peerUrl : String)

/-- What may happen next. -/
inductive Step : World V ops → World V ops → Prop
  /-- A call starts and reads its watermark. -/
  | begin
      {w : World V ops}
      (i : ℕ)
      (hrun : w.runs i = .idle) :
      Step w (w.setRun i (.checking (watermarkOf peerUrl w.puller)))
  /-- The peer answers `/sync/summary`. -/
  | summary
      {w : World V ops}
      (i : ℕ)
      {watermark : Option SyncCursor}
      (hrun : w.runs i = .checking watermark) :
      Step w (w.setRun i (afterSummary config watermark (syncSummary w.peer)))
  /-- The watermark is reset to the start. -/
  | reset
      {w : World V ops}
      (i now : ℕ)
      (hrun : w.runs i = .resetting) :
      Step w ((w.setPuller (setWatermark now w.puller peerUrl "0")).setRun i .idle)
  /-- The page budget of the round is spent. -/
  | exhausted
      {w : World V ops}
      (i : ℕ)
      {round : Round}
      (hrun : w.runs i = .paging round)
      (hleft : round.pagesLeft = 0) :
      Step w (w.setRun i .idle)
  /-- The peer answers `/sync`; a body that is too large fails the call. -/
  | fetch
      {w : World V ops}
      (i : ℕ)
      {round : Round}
      (order : HashOrder SyncRecord)
      {page : SyncPage}
      (hrun : w.runs i = .paging round)
      (hleft : 0 < round.pagesLeft)
      (hpage : handleSync order w.peer (round.cursor.map SyncCursor.display)
        (some config.pageLimit.repr) = .ok page)
      (hsize : page.borshLen ≤ config.maxPageBytes) :
      Step w (w.setRun i
        (.received { round with pagesLeft := round.pagesLeft - 1 } page w.peer))
  /-- The page is empty and the cursor is behind the summary: the watermark catches up. -/
  | catchUp
      {w : World V ops}
      (i now : ℕ)
      {round : Round}
      {page : SyncPage}
      {source : Tables}
      (hrun : w.runs i = .received round page source)
      (hempty : page.records = [])
      (hbehind : positionOf round.cursor < round.latest.val) :
      Step w ((w.setPuller (setWatermark now w.puller peerUrl round.latest.display)).setRun i
        .idle)
  /-- The page is empty and there is nothing to catch up with. -/
  | caughtUp
      {w : World V ops}
      (i : ℕ)
      {round : Round}
      {page : SyncPage}
      {source : Tables}
      (hrun : w.runs i = .received round page source)
      (hempty : page.records = [])
      (hlevel : round.latest.val ≤ positionOf round.cursor) :
      Step w (w.setRun i .idle)
  /-- The page is ingested completely; an error or an incomplete outcome fails the call.
  What the ingest stores is among the other work on the relay's store. -/
  | ingest
      {w : World V ops}
      (i : ℕ)
      {round : Round}
      {next : SyncCursor}
      (e : Ingested V ops)
      (hrun : w.runs i = .received round e.page e.source)
      (hrecords : e.page.records ≠ [])
      (hnext : nextCursorOf round.cursor e.page = .ok next)
      (hbudget : e.budget = remainingFailures round.totals) :
      Step w ((w.ingested e).setRun i
        (.processed { round with totals := addTotals round.totals e.out } next))
  /-- The watermark moves to the accepted cursor. -/
  | advance
      {w : World V ops}
      (i now : ℕ)
      {round : Round}
      {next : SyncCursor}
      (hrun : w.runs i = .processed round next) :
      Step w ((w.setPuller (setWatermark now w.puller peerUrl
        (acceptedCursor round next).display)).setRun i (afterAdvance round next))
  /-- A request, a decoding, a proof or a task fails, or the relay stops: the call ends. -/
  | fail
      {w : World V ops}
      (i : ℕ) :
      Step w (w.setRun i .idle)
  /-- The peer writes or evicts; its counter stays in its integer range. -/
  | peerCall
      {w : World V ops}
      (call : StoreCall)
      (hrange : (runCall V w.peer call).syncCounter < 2 ^ 63) :
      Step w (w.setPeer (runCall V w.peer call))
  /-- The relay does other work on its store. -/
  | pullerCall
      {w : World V ops}
      (call : StoreCall)
      (hkeeps : call.KeepsWatermark peerUrl) :
      Step w (w.setPuller (runCall V w.puller call))

/-- A world that steps lead to from two fresh relays. -/
def ReachableWorld (w : World V ops) : Prop :=
  Relation.ReflTransGen (Step V ops config peerUrl) World.init w

end World

end CertRelay
