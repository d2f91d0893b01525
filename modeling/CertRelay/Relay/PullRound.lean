import CertRelay.Relay.SyncWithPeer
import CertRelay.Relay.HandleMessage

/-!
# Rounds of a relay that only pulls

`sync_with_peer` as one function, composed of the same parts as the steps of a `World`,
for a relay that does nothing else meanwhile and a peer that does not change.

What the relay meets besides its own tables varies from instant to instant: iteration
orders, clocks, the admission gate, the chain client and the anchors behind verification.
A sequence of `Instant`s fixes all of it, and a `Puller` counts the instants it has used.
-/

namespace CertRelay

open Fallible

/-- What a relay meets at one instant of its rounds. -/
structure Instant (σ Proof Msg : Type) where
  /-- Iteration order of `by_space`. -/
  groupOrder : HashOrder (String × List (Certificate × Zone))
  /-- Iteration order of the roots that the peer appends. -/
  rootOrder : HashOrder SyncRecord
  /-- The clock of `set_watermark`. -/
  now : Nat
  /-- The clock readings of the message handler. -/
  clock : Nat → Nat
  /-- `first_insert_gated(..).unwrap_or(false)`. -/
  gated : String → Bool
  /-- `chain.prove`. -/
  prove : MessageBuilder → Except String Proof
  handler : Handler σ Msg

/-- A relay that pulls, and how many instants it has used. -/
structure Puller (σ : Type) where
  state : HandlerState σ
  elapsed : ℕ

/-- The tables of the relay. -/
def Puller.db {σ : Type} (s : Puller σ) : Tables :=
  s.state.db

section Operations

variable (V : Crates) {σ Proof Msg : Type}

/-- `SqliteStore::get_handle`. -/
def getHandle (db : Tables) (handle : String) : Except String (Option HandleRecord) :=
  match db.handles.find? handle with
  | some r => do
      let cert ← (V.certFromSlice r.certData).mapError
        ("failed to deserialize certificate: " ++ ·)
      let zone ← (V.zoneFromSlice r.zoneData).mapError
        ("failed to deserialize zone: " ++ ·)
      .ok (some ⟨cert, zone, r.epochHeight, r.offchainSeq, r.delegateOffchainSeq⟩)
  | none => .ok none

variable (build : MessageBuilder → Proof → Except String Msg)
  (env : ℕ → Instant σ Proof Msg)

/-- Use up an instant. -/
def takeInstant : Task String (Puller σ) (Instant σ Proof Msg) :=
  Task.always (fun s => (env s.elapsed, { s with elapsed := s.elapsed + 1 }))

/-- Read the tables. -/
def reading {α : Type} (read : Tables → α) : Task String (Puller σ) α :=
  Task.always (fun s => (read s.db, s))

/-- `handle_message_opts` of a pulled message: no gated spaces, no content limits. -/
def handlePulled (msg : Msg) (s : Puller σ) : Except String BulkStoreResult × Puller σ :=
  let m := env s.elapsed
  let out := handleMessageOpts V m.handler m.clock [] false msg s.state
  (out.1, ⟨out.2, s.elapsed + 1⟩)

/-- The parts of the relay that a batch goes through. -/
def pullerOps : IngestOps (Puller σ) Proof Msg where
  getHandleHints handles := reading (fun db => getHandleHints db handles)
  firstInsertGated space s := ((env s.elapsed).gated space, s)
  getHandle space := do
    let record ← reading (fun db => getHandle V db space)
    ExceptT.mk (pure record)
  acquireProof := pure ()
  prove builder := fun s => ((env s.elapsed).prove builder, s)
  build := build
  acquireVerify := pure ()
  handleMessage msg := Task.always (handlePulled V env msg)

variable (config : SyncConfig) (peerUrl : String) (peer : Tables)

/-- `set_watermark` of the peer. -/
def moveWatermark (cursor : String) : Task String (Puller σ) Unit := do
  let m ← takeInstant env
  Task.always (fun s =>
    ((), { s with state.db := setWatermark m.now s.state.db peerUrl cursor }))

/-- The error of a page whose tail was not attempted. -/
def budgetSpent (failedSpaces : Nat) : String :=
  s!"failed-space budget spent mid-page ({failedSpaces} failures) — not advancing"

/-- The paging loop, with its page budget. -/
def pullPages : Nat → Round → Task String (Puller σ) SyncIngest
  | 0, round => pure round.totals
  | left + 1, round => do
      let m ← takeInstant env
      let page ← ExceptT.mk (pure (handleSync m.rootOrder peer
        (round.cursor.map SyncCursor.display) (some config.pageLimit.repr)))
      if config.maxPageBytes < page.borshLen then
        throw s!"sync page too large: {page.borshLen} bytes"
      else if page.records.isEmpty then
        if positionOf round.cursor < round.latest.val then do
          moveWatermark env peerUrl round.latest.display
          pure round.totals
        else pure round.totals
      else do
        let next ← ExceptT.mk (pure (nextCursorOf round.cursor page))
        let stats ← ingestSyncRecords (pullerOps V build env) V m.groupOrder page.records
          (remainingFailures round.totals)
        let round := { round with totals := addTotals round.totals stats }
        if stats.incomplete then
          throw (budgetSpent round.totals.failedSpaces)
        else do
          moveWatermark env peerUrl (acceptedCursor round next).display
          match afterAdvance round next with
          | .paging round => pullPages left round
          | _ => pure round.totals

/-- `sync_with_peer`. -/
def syncWithPeer : Task String (Puller σ) SyncIngest := do
  let watermark ← reading (watermarkOf peerUrl)
  match afterSummary config watermark (syncSummary peer) with
  | .paging round => pullPages V build env config peerUrl peer round.pagesLeft round
  | .resetting => do
      moveWatermark env peerUrl "0"
      pure {}
  | _ => pure {}

/-- The relay after a number of rounds, whatever they returned. -/
def afterRounds (rounds : ℕ) (s : Puller σ) : Puller σ :=
  (fun s => (syncWithPeer V build env config peerUrl peer s).2)^[rounds] s

end Operations

end CertRelay
