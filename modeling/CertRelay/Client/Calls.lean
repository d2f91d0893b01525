import CertRelay.Client.Hints
import CertRelay.Client.RootCache
import CertRelay.Client.ScanUri
import CertRelay.Lib.Script
import CertRelay.Relay.PeerTable

/-!
# The calls of a client

All tasks of a program share one client.  Its calls await the network, and hold no lock while
they do, so between two steps of one call other calls change the anchors, the pool of relays
and the cache, and relays change what they answer.  So each call is a script on the client and
its surroundings, with one step for each request and for each lock that it takes.  Requests between
which the client is neither read nor written are one step: the heads of one poll, the peers that
one set is asked of, and the seeds that are asked for their heads.

A name such as `hello.alice@bitcoin` is looked up label by label: `libveritas` says what to ask
for next, for as long as it has something new to ask.  How often that is bounds the model, and
a lookup that goes on for longer is one that does not return.

**Results.**
* `bootstrapPeers_succeeds`: finding peers never fails;
* `alone_sendQuery`, `alone_updateAnchors`, `alone_trustFromSet`, `alone_badge`: a call that
  nothing interrupts is the function of the model of one call.
-/

namespace CertRelay
namespace Calls

open RootCache SendQuery Script

section World

/-- A message that has been verified. -/
structure VerifiedAnswer extends VerifiedZones where
  certificates : List Certificate

structure ReverseRecord where
  id : String
  name : String

structure AddrEntry where
  handle : String
  rev : String

/-- A request to `/hints`. -/
structure HintsGet where
  url : String
  q : String
  noCache : Bool

/-- What relays answer at a moment, and the orders that chance and hash tables give.  The
relays' hints are sorted by a comparison that is not an order, so the sorted list is one of
these orders too. -/
structure Network where
  peers : String → Except ClientError (List PeerInfo)
  head : ℕ → HeadAnswer
  anchors : ℕ → String → AnchorAnswer
  hints : HintsGet → Option Hints.HintsResponse
  query : HttpGet → Reply
  reverse : String → Option (List ReverseRecord)
  addrs : String → Option (List AddrEntry)
  /-- `POST /chain-proof` and `POST /message`, by URL and body. -/
  prove : String → Bytes → Reply
  message : String → Bytes → Reply
  shuffle : RelayPool.Shuffle
  stringOrder : HashOrder String
  voteOrder : HashOrder LatestTrustId.RustVote
  rootOrder : HashOrder Fabric.RootVotes
  spaceOrder : HashOrder (String × List String)
  ranking : HashOrder (String × Hints.HintsResponse)

/-- A client and what is around it. -/
structure Client (ν : Type) where
  fabric : Fabric ν
  net : Network

/-- The `Veritas` that is in use at a moment, and what relays answer then. -/
structure Moment (ν : Type) where
  veritas : ν
  net : Network

/-- The functions of other crates that deal with names. -/
structure NameCrates (L : Type) where
  /-- `SName::try_from`. -/
  tryFrom : String → Except String SName
  /-- `SName::space` and `SName::subspace`, as text. -/
  space : SName → Option String
  subspace : SName → Option String
  isSingleLabel : SName → Bool
  /-- `Lookup::new`, `start`, `advance` and `expand_zones`. -/
  lookup : List SName → L
  start : L → List SName
  advance : L → List HandleZone → L × List SName
  expandZones : L → List HandleZone → List HandleZone
  /-- `RecordSet::iter`, collected. -/
  recordsIter : RecordSet → Except String (List ParsedRecord)
  /-- `CertificateChain::new(..).to_bytes()`. -/
  chainToBytes : SName → List Certificate → Bytes

/-- A `ChainProofRequest`, as the body that `serde_json::to_vec` makes of it. -/
structure ProofRequest where
  json : Except String Bytes

/-- The types and functions of other crates that build and sign a message. -/
structure SigningCrates where
  Chain : Type
  Proof : Type
  /-- A message that is being signed, and a record set that lacks a signature. -/
  Draft : Type
  Unsigned : Type
  /-- `CertificateChain::from_slice` and `ChainProof::from_slice`. -/
  chainFromSlice : Bytes → Except String Chain
  proofFromSlice : Bytes → Except String Proof
  /-- `chain_proof_request` and `build` of a `MessageBuilder` with the records of a handle. -/
  chainProofRequest : Chain → RecordSet → ProofRequest
  build : Chain → RecordSet → Proof → Except ClientError (Draft × List Unsigned)
  /-- `flags |= SIG_PRIMARY_ZONE`. -/
  withPrimaryFlag : Unsigned → Unsigned
  canonical : Unsigned → SName
  signingId : Unsigned → Hash32
  packSig : Unsigned → Bytes → RecordSet
  /-- `sign_schnorr`. -/
  signSchnorr : Hash32 → Hash32 → Except String Bytes
  setRecords : Draft → SName → RecordSet → Draft
  toBytes : Draft → Bytes

/-- The functions of other crates that the calls use. -/
structure CallCrates (ν Msg L : Type) where
  client : ClientCrates ν
  /-- `Veritas::newest_anchor`. -/
  newestAnchor : ν → ℕ
  query : ν → QueryCrates (List HandleZone) Msg VerifiedAnswer
  names : NameCrates L
  signing : SigningCrates
  hex : ScanUri.HexDecoder
  /-- The body of a response as text. -/
  text : Bytes → String

/-- An `async` function of the client. -/
abbrev Async (ν α : Type) :=
  Try ClientError (Client ν) α

variable {ν α : Type}

/-- Ask the relays. -/
def ask (f : Network → Except ClientError α) : Async ν α :=
  Try.step (fun c => (f c.net, c))

/-- Read the client. -/
def look (f : Fabric ν → α) : Async ν α :=
  Try.get (fun c => f c.fabric)

/-- Change the client. -/
def change (f : Fabric ν → Fabric ν) : Async ν PUnit :=
  Try.modify (fun c => { c with fabric := f c.fabric })

/-- Do something if it is needed. -/
def ifNeeded (needed : Bool) (x : Async ν PUnit) : Async ν PUnit :=
  if needed then x else pure ⟨⟩

end World

section Pool

variable {ν : Type}

/-- The relays of a client. -/
def relayPool (f : Fabric ν) : RelayPool.Pool :=
  f.pool.map RelayPool.ofRelay

/-- A client with the entries of a pool. -/
def withPool (pool : RelayPool.Pool) (f : Fabric ν) : Fabric ν :=
  { f with pool := pool.map (fun e => ⟨e.url, e.failures.toNat⟩) }

/-- `shuffled_urls_n`. -/
def shuffledUrlsN (n : ℕ) : Async ν (List String) :=
  Try.step (fun c =>
    let (pool, urls) := RelayPool.shuffledUrls .rust c.net.shuffle n (relayPool c.fabric)
    (.ok urls, { c with fabric := withPool pool c.fabric }))

/-- `mark_failed`. -/
def markFailed (url : String) : Async ν PUnit :=
  change (fun f => withPool (RelayPool.markFailed .rust url (relayPool f)) f)

/-- `mark_alive`. -/
def markAlive (url : String) : Async ν PUnit :=
  change (fun f => withPool (RelayPool.markAlive url (relayPool f)) f)

/-- The loop over seeds in `bootstrap_peers`: the URLs, and the last error. -/
def gatherPeers : List String → List String → Option ClientError →
    Async ν (List String × Option ClientError)
  | [], urls, lastErr => pure (urls, lastErr)
  | seed :: seeds, urls, lastErr => do
      let answer ← ask (fun net => .ok (net.peers seed))
      match answer with
      | .ok peers => gatherPeers seeds (urls ++ peers.map PeerInfo.url) lastErr
      | .error e => gatherPeers seeds urls (some e)

/-- `bootstrap_peers`. -/
def bootstrapPeers : Async ν PUnit := do
  let seeds ← look Fabric.seeds
  let found ← gatherPeers seeds seeds none
  if found.1.isEmpty then
    match found.2 with
    | none => change (fun f => { f with pool := refreshPool f.pool seeds })
    | some e => throw e
  else
    Try.modify (fun c =>
      { c with
        fabric :=
          { c.fabric with
            pool := refreshPool c.fabric.pool (c.net.stringOrder.arrange found.1.dedup) } })

/-- `peers`. -/
def peers : Async ν (List PeerInfo) := do
  let urls ← shuffledUrlsN 1
  match urls.head? with
  | none => throw .noPeers
  | some url => ask (fun net => net.peers url)

/-- `refresh_peers`, whose loop is that of `bootstrap_peers` without the errors. -/
def refreshPeers : Async ν PUnit := do
  let current ← look (fun f => f.pool.map RelayEntry.url)
  let found ← gatherPeers current [] none
  Try.modify (fun c =>
    { c with
      fabric :=
        { c.fabric with
          pool := refreshPool c.fabric.pool (c.net.stringOrder.arrange found.1.dedup) } })
  let isEmpty ← look (fun f : Fabric ν => f.pool.isEmpty)
  if isEmpty then throw .noPeers else pure ⟨⟩

end Pool

section Trust

open Fabric

variable {ν Msg L : Type} (K : CallCrates ν Msg L)

/-- `TrustKind`. -/
inductive Target
  | trusted (id : TrustId)
  | semiTrusted (id : TrustId)
  | observed

def Target.kind : Target → TrustKind
  | .trusted _ => .trusted
  | .semiTrusted _ => .semiTrusted
  | .observed => .observed

/-- The id to fetch, and from whom. -/
def Target.find : Target → Async ν (TrustId × List String)
  | .trusted id | .semiTrusted id => do
      let peers ← shuffledUrlsN 4
      pure (id, peers)
  | .observed => do
      let seeds ← look Fabric.seeds
      ask (fun net => fetchLatestTrustId K.client net.voteOrder
        (seeds.zipIdx.map (fun p => (p.1, net.head p.2))))

/-- `update_anchors`. -/
def updateAnchors (target : Target) : Async ν PUnit := do
  let found ← target.find K
  let ab ← ask (fun net => fetchAnchorSet K.client net.anchors found.1 found.2)
  change (fun f => rebuildVeritas K.client (poolWith target.kind ab.anchors f.anchorPool) f)
  change (setTrust target.kind ab.trustSet)

/-- `bootstrap`. -/
def bootstrap : Async ν PUnit := do
  let needsPeers ← look (fun f : Fabric ν => f.pool.isEmpty)
  ifNeeded needsPeers bootstrapPeers
  let needsAnchors ← look (fun f => decide (K.newestAnchor f.veritas = 0))
  ifNeeded needsAnchors (updateAnchors K .observed)

/-- `trust`, `semi_trust` and `observe`. -/
def updateTrust (target : Target) : Async ν PUnit := do
  let needsPeers ← look (fun f : Fabric ν => f.pool.isEmpty)
  ifNeeded needsPeers bootstrapPeers
  updateAnchors K target

/-- How the client reports what is wrong with a scanned payload; no index is out of bounds. -/
def scanError : ScanUri.ScanError → ClientError
  | .decode message | .hex message => .decode message
  | .indexOutOfBounds => .decode ""

/-- The id of a scanned payload. -/
def scannedId (payload : String) : Except ClientError TrustId :=
  (ScanUri.parseRust K.hex payload).mapError scanError

/-- `trust_from_qr` and `semi_trust_from_qr`. -/
def trustFromQr (target : TrustId → Target) (payload : String) : Async ν PUnit := do
  let id ← ask (fun _ => scannedId K payload)
  updateTrust K (target id)

/-- `trust_from_set`. -/
def trustFromSet (entries : List RootAnchor) : Async ν TrustId := do
  let trustSet := K.client.computeTrustSet entries
  Try.step (fun c =>
    let pool := { c.fabric.anchorPool with trusted := entries }
    match K.client.withAnchors pool.merged with
    | .error e => (.error (.decode e), { c with fabric := { c.fabric with anchorPool := pool } })
    | .ok v =>
        (.ok PUnit.unit, { c with fabric := { c.fabric with anchorPool := pool, veritas := v } }))
  change (setTrust .trusted trustSet)
  pure trustSet.id

/-- `refresh_semi_trusted`. -/
def refreshSemiTrusted : Async ν SemiTrustResult := do
  let config ← look Fabric.semiTrustConfig
  let total := config.relays.length
  let required := config.quorum.required total
  let poll ← ask (fun net => .ok
    (winningRoot K.client net.rootOrder net.head config,
      (signedVotes K.client net.head config.relays).length))
  let agreed := (poll.1.map (fun entry => entry.2.length)).getD 0
  match poll.1 with
  | some entry =>
      if 0 < agreed ∧ required ≤ agreed then do
        let ab ← ask (fun net =>
          fetchAnchorSet K.client net.anchors entry.1 (entry.2.map Prod.snd))
        change (fun f =>
          rebuildVeritas K.client (poolWith .semiTrusted ab.anchors f.anchorPool) f)
        change (setTrust .semiTrusted ab.trustSet)
        pure ⟨some entry.1, some (entryHeight entry), total, poll.2, agreed, required, true⟩
      else do
        let kept ← look semiTrustedId
        pure ⟨kept, none, total, poll.2, agreed, required, false⟩
  | none => do
      let kept ← look semiTrustedId
      pure ⟨kept, none, total, poll.2, agreed, required, false⟩

/-- A disjunction whose second part is read only if it is needed. -/
def lookUnless (decided : Bool) (f : Fabric ν → Bool) : Async ν Bool :=
  if decided then pure true else look f

/-- `badge`, which locks the trust sets one after another. -/
def badge (zone : BadgeZone) : Async ν Badge := do
  let roots := [zone.anchorHash]
  let hasTrusted ← look (fun f : Fabric ν => f.trusted.isSome)
  let hasObserved ← lookUnless hasTrusted (fun f => f.observed.isSome)
  let hasAnyPool ← lookUnless hasObserved (fun f => f.semiTrusted.isSome)
  if !hasAnyPool then pure .unverified
  else do
    let isTrusted ← look (fun f => areRootsIn f.trusted roots)
    let isObserved ← lookUnless isTrusted (fun f => areRootsIn f.observed roots)
    let isSemiTrusted ← lookUnless isTrusted (fun f => areRootsIn f.semiTrusted roots)
    if isTrusted && zone.sovereignty = .sovereign then pure .orange
    else if isObserved && !isTrusted && !isSemiTrusted then pure .unverified
    else pure .none

end Trust

section Query

variable {ν Msg L : Type} (K : CallCrates ν Msg L)

/-- `hints_query_string`, with the parts in the order of a hash set. -/
def hintsQueryString (order : HashOrder String) (request : QueryRequest) : String :=
  Text.join ',' (order.arrange (request.queries.flatMap (fun query =>
    query.space :: query.handles.map (fun handle => handle ++ query.space))).dedup)

/-- The answers to one batch of hint requests, after those that are ranked already. -/
def askHints (q : String) (noCache : Bool) : List String → List (String × Hints.HintsResponse) →
    Async ν (List (String × Hints.HintsResponse))
  | [], ranked => pure ranked
  | url :: batch, ranked => do
      let answer ← ask (fun net => .ok (net.hints ⟨url ++ "/hints", q, noCache⟩))
      match answer with
      | some hints => askHints q noCache batch (ranked ++ [(url, hints)])
      | none => do
          markFailed url
          askHints q noCache batch ranked

/-- The loop of `pick_relays`. -/
def rankRelays (count : ℕ) (q : String) (noCache : Bool) :
    List (List String) → List (String × Hints.HintsResponse) →
      Async ν (List (String × Hints.HintsResponse))
  | [], ranked => pure ranked
  | batch :: batches, ranked =>
      if count ≤ ranked.length then pure ranked
      else do
        let ranked ← askHints q noCache batch ranked
        rankRelays count q noCache batches ranked

/-- `pick_relays`. -/
def pickRelays (request : QueryRequest) (count : ℕ) (noCache : Bool) :
    Async ν (List String) := do
  let q ← ask (fun net => .ok (hintsQueryString net.stringOrder request))
  let shuffled ← shuffledUrlsN (2 ^ 64 - 1)
  let ranked ← rankRelays count q noCache (shuffled.toChunks count) []
  ask (fun net => .ok ((net.ranking.arrange ranked).map Prod.fst))

/-- The loop of `send_query`, with the last error. -/
def sendLoop (ctx : List HandleZone) (request : QueryRequest) (noCache : Bool) :
    ClientError → List String → Async ν (VerifiedAnswer × String)
  | last, [] => throw last
  | _, url :: relays => do
      let reply ← ask (fun net => .ok (net.query ⟨url ++ "/query", request.encode, noCache⟩))
      let attempt ← look (fun f => rustAttempt (K.query f.veritas) ctx f.devMode (url, reply))
      match attempt with
      | .skip e => do
          markFailed url
          sendLoop ctx request noCache e relays
      | .stop e => throw e
      | .done res => do
          markAlive url
          pure res

/-- The cached zones of some spaces, read one by one. -/
def readCache : List String → List HandleZone → Async ν (List HandleZone)
  | [], ctx => pure ctx
  | space :: spaces, ctx => do
      let zone ← look (fun f => f.rootCache.find? space)
      readCache spaces (ctx ++ zone.toList)

/-- Cache zones one by one. -/
def writeCache : List HandleZone → Async ν PUnit
  | [] => pure ⟨⟩
  | z :: zones => do
      change (fun f => { f with rootCache := f.rootCache.insertOrReplace z })
      writeCache zones

/-- The zones that a query starts from. -/
def seedContext (request : QueryRequest) (noCache : Bool) : Async ν (List HandleZone) :=
  if noCache then pure [] else readCache (request.queries.map Query.space) []

/-- The relays that a query asks. -/
def chooseRelays (preferLatest : Bool) (request : QueryRequest) (noCache : Bool) :
    Async ν (List String) :=
  if preferLatest then pickRelays request 4 noCache else shuffledUrlsN 4

/-- `query`. -/
def query (request : QueryRequest) (noCache : Bool) : Async ν (VerifiedAnswer × String) := do
  bootstrap K
  let ctx ← seedContext request noCache
  let preferLatest ← look Fabric.preferLatest
  let relays ← chooseRelays preferLatest request noCache
  let answer ← sendLoop K ctx request noCache .noPeers relays
  ifNeeded (!noCache) (writeCache (rootZones K.names.isSingleLabel answer.1.toVerifiedZones))
  pure answer

/-- The space and the label of a handle, as `resolve_flat` takes it apart. -/
def splitHandle (handle : String) : Except ClientError (String × String) :=
  match K.names.tryFrom handle with
  | .error e => .error (.decode e)
  | .ok sname =>
      match K.names.space sname with
      | none => .error (.decode (handle ++ ": no space"))
      | some space => .ok (space, (K.names.subspace sname).getD "")

/-- The epoch that is cached for a space. -/
def cachedEpoch (useHints : Bool) (space : String) : Async ν (Option EpochHint) :=
  if useHints then
    look (fun f => (f.rootCache.find? space).bind (fun z => epochHintFromZone z.2))
  else pure none

/-- The queries of `resolve_flat`, one by one. -/
def flatQueries (useHints : Bool) : List (String × List String) → List Query →
    Async ν (List Query)
  | [], queries => pure queries
  | entry :: bySpace, queries => do
      let hint ← cachedEpoch useHints entry.1
      flatQueries useHints bySpace (queries ++ [⟨entry.1, entry.2, hint⟩])

/-- `resolve_flat`. -/
def resolveFlat (handles : List String) (hints noCache : Bool) :
    Async ν (VerifiedAnswer × String) := do
  let split ← ask (fun _ => handles.mapM (splitHandle K))
  let bySpace ← ask (fun net => .ok (net.spaceOrder.arrange (Tally.tally split)))
  let queries ← flatQueries (hints && !noCache) bySpace []
  query K ⟨queries⟩ noCache

end Query

section Lookup

variable {ν Msg L : Type} (K : CallCrates ν Msg L)

/-- What a lookup has found. -/
structure Found where
  zones : List HandleZone
  certs : List Certificate

/-- How a lookup asks. -/
structure LookupOpts where
  hints : Bool
  noCache : Bool
  wantCerts : Bool

/-- The loop of `resolve_lookup`, for at most some rounds. -/
def lookupLoop (opts : LookupOpts) : ℕ → L → List SName → List SName → Found →
    Async ν (L × Found)
  | 0, _, _, _, _ => Try.diverge
  | rounds + 1, lookup, prevBatch, batch, found =>
      if batch.isEmpty || batch == prevBatch then pure (lookup, found)
      else do
        let answer ← resolveFlat K (batch.map SName.text) opts.hints opts.noCache
        let next := K.names.advance lookup answer.1.zones
        lookupLoop opts rounds next.1 batch next.2
          { zones := found.zones ++ answer.1.zones
            certs := if opts.wantCerts then found.certs ++ answer.1.certificates else found.certs }

/-- `resolve_lookup`. -/
def resolveLookup (rounds : ℕ) (snames : List SName) (opts : LookupOpts) : Async ν Found := do
  let lookup := K.names.lookup snames
  let found ← lookupLoop K opts rounds lookup [] (K.names.start lookup) ⟨[], []⟩
  pure { found.2 with zones := K.names.expandZones found.1 found.2.zones }

/-- `resolve_all_with_opts`. -/
def resolveAll (rounds : ℕ) (handles : List String) (noCache : Bool) :
    Async ν (List HandleZone) := do
  let snames := handles.filterMap (fun handle => (K.names.tryFrom handle).toOption)
  let found ← resolveLookup K rounds snames ⟨true, noCache, false⟩
  pure found.zones

/-- `resolve_with_opts`. -/
def resolve (rounds : ℕ) (handle : String) (noCache : Bool) : Async ν (Option HandleZone) := do
  let zones ← resolveAll K rounds [handle] noCache
  pure (zones.find? (fun z => z.1 = handle))

/-- A handle as a name, for `export` and `resolve_with_certs`. -/
def nameOf (handle : String) : Except ClientError SName :=
  (K.names.tryFrom handle).mapError .decode

/-- `export`. -/
def exportChain (rounds : ℕ) (handle : String) : Async ν Bytes := do
  let sname ← ask (fun _ => nameOf K handle)
  let found ← resolveLookup K rounds [sname] ⟨false, false, true⟩
  pure (K.names.chainToBytes sname found.certs)

structure ResolvedWithCerts where
  zone : HandleZone
  parents : List HandleZone
  certs : Bytes

/-- `parent_zones`. -/
def parentZones (zones : List HandleZone) (leaf : HandleZone) : List HandleZone :=
  (zones.filter (fun z => K.names.isSingleLabel z.2.canonical &&
    !decide (z.2.canonical = leaf.2.canonical))).reverse

/-- `resolve_with_certs`. -/
def resolveWithCerts (rounds : ℕ) (handle : String) : Async ν (Option ResolvedWithCerts) := do
  let sname ← ask (fun _ => nameOf K handle)
  let found ← resolveLookup K rounds [sname] ⟨false, false, true⟩
  pure ((found.zones.find? (fun z => z.1 = handle)).map (fun leaf =>
    ⟨leaf, parentZones K found.zones leaf, K.names.chainToBytes sname found.certs⟩))

/-- The error for a zone with another id. -/
def reverseMismatch (numId : String) (found : Option String) : ClientError :=
  .decode ("reverse mismatch: expected " ++ numId ++ ", got " ++
    match found with
    | none => "None"
    | some id => "Some(\"" ++ id ++ "\")")

/-- The loop of `resolve_by_id`. -/
def resolveByIdLoop (rounds : ℕ) (numId : String) :
    List String → Option ClientError → Bool → Async ν (Option HandleZone)
  | [], lastErr, anyResponded =>
      if anyResponded && lastErr.isNone then pure none
      else throw (lastErr.getD .noPeers)
  | url :: relays, lastErr, anyResponded => do
      let answer ← ask (fun net => .ok (net.reverse (url ++ "/reverse?ids=" ++ numId)))
      match answer with
      | none => resolveByIdLoop rounds numId relays lastErr anyResponded
      | some records =>
          match records.find? (fun r => r.id = numId) with
          | none => resolveByIdLoop rounds numId relays lastErr true
          | some entry => do
              let result ← Try.attempt (resolve K rounds entry.name false)
              match result with
              | .error e => resolveByIdLoop rounds numId relays (some e) true
              | .ok none => resolveByIdLoop rounds numId relays lastErr true
              | .ok (some zone) =>
                  if zone.2.numId = some numId then pure (some zone)
                  else
                    resolveByIdLoop rounds numId relays
                      (some (reverseMismatch numId zone.2.numId)) true

/-- `resolve_by_id`. -/
def resolveById (rounds : ℕ) (numId : String) : Async ν (Option HandleZone) := do
  bootstrap K
  let relays ← shuffledUrlsN 4
  resolveByIdLoop K rounds numId relays none false

/-- The zone has an address record with the key, whose first value is the address. -/
def hasAddr (name addr : String) (zone : Zone) : Bool :=
  match K.names.recordsIter zone.records with
  | .error _ => false
  | .ok records => records.any (fun r =>
      match r with
      | .addr key value => decide (key = name ∧ value.head? = some addr)
      | .other => false)

/-- The loop of `search_addr`. -/
def searchAddrLoop (rounds : ℕ) (name addr : String) :
    List String → ClientError → Async ν (List HandleZone)
  | [], lastErr => throw lastErr
  | url :: relays, lastErr => do
      let answer ← ask (fun net =>
        .ok (net.addrs (url ++ "/addrs?name=" ++ name ++ "&addr=" ++ addr)))
      match answer with
      | none => searchAddrLoop rounds name addr relays lastErr
      | some handles =>
          if handles.isEmpty then searchAddrLoop rounds name addr relays lastErr
          else do
            let result ← Try.attempt (resolveAll K rounds (handles.map AddrEntry.rev) false)
            match result with
            | .error e => searchAddrLoop rounds name addr relays e
            | .ok zones =>
                let matching := zones.filter (fun z => hasAddr K name addr z.2)
                if matching.isEmpty then
                  searchAddrLoop rounds name addr relays (.decode "no verified matches")
                else pure matching

/-- `search_addr`. -/
def searchAddr (rounds : ℕ) (name addr : String) : Async ν (List HandleZone) := do
  bootstrap K
  let relays ← shuffledUrlsN 4
  searchAddrLoop K rounds name addr relays .noPeers

end Lookup

section Publish

variable {ν Msg L : Type} (K : CallCrates ν Msg L)

/-- The error for a status that is no success. -/
def relayError (status : UInt16) (body : Bytes) (broken : Option String) : ClientError :=
  .relay status (if broken.isSome then "" else K.text body)

/-- The loop of `prove`, with the last error. -/
def proveLoop (body : Bytes) : ClientError → List String → Async ν Bytes
  | last, [] => throw last
  | _, url :: relays => do
      let reply ← ask (fun net => .ok (net.prove (url ++ "/chain-proof") body))
      match reply with
      | .unreachable e => do
          markFailed url
          proveLoop body (.decode ("POST " ++ url ++ "/chain-proof: " ++ e)) relays
      | .response status bytes broken =>
          if isSuccess status then do
            markAlive url
            match broken with
            | none => pure bytes
            | some e =>
                throw (.decode ("POST " ++ url ++ "/chain-proof: reading response: " ++ e))
          else do
            markFailed url
            proveLoop body (relayError K status bytes broken) relays

/-- `prove`. -/
def prove (request : ProofRequest) : Async ν Bytes := do
  bootstrap K
  let body ← ask (fun _ => request.json.mapError .decode)
  let urls ← shuffledUrlsN 4
  proveLoop K body .noPeers urls

/-- The loop of `broadcast`: whether a relay has accepted, and the last error. -/
def broadcastLoop (message : Bytes) : List String → Bool × Option ClientError →
    Async ν (Bool × Option ClientError)
  | [], sent => pure sent
  | url :: urls, sent => do
      let reply ← ask (fun net => .ok (net.message (url ++ "/message") message))
      match reply with
      | .unreachable e =>
          broadcastLoop message urls (sent.1, some (.decode ("POST " ++ url ++ "/message: " ++ e)))
      | .response status body broken =>
          if isSuccess status then broadcastLoop message urls (true, sent.2)
          else broadcastLoop message urls (sent.1, some (relayError K status body broken))

/-- `broadcast`.  If no relay has accepted there is a last error. -/
def broadcast (message : Bytes) : Async ν PUnit := do
  bootstrap K
  let urls ← shuffledUrlsN 4
  if urls.isEmpty then throw .noPeers
  else do
    let sent ← broadcastLoop K message urls (false, none)
    if sent.1 then pure ⟨⟩ else throw (sent.2.getD .noPeers)

/-- A record set with the flags that it is signed with. -/
def flagged (primary : Bool) (unsigned : K.signing.Unsigned) : K.signing.Unsigned :=
  if primary then K.signing.withPrimaryFlag unsigned else unsigned

/-- The message with a record set and its signature. -/
def packed (primary : Bool) (draft : K.signing.Draft) (signed : K.signing.Unsigned × Bytes) :
    K.signing.Draft :=
  K.signing.setRecords draft (K.signing.canonical (flagged K primary signed.1))
    (K.signing.packSig (flagged K primary signed.1) signed.2)

/-- The body of the loop in `sign`. -/
def signOne (secretKey : Hash32) (primary : Bool) (draft : K.signing.Draft)
    (unsigned : K.signing.Unsigned) : Except ClientError K.signing.Draft := do
  let sig ← (K.signing.signSchnorr (K.signing.signingId (flagged K primary unsigned))
    secretKey).mapError .decode
  pure (packed K primary draft (unsigned, sig))

/-- What `sign` makes of a proof. -/
def signedMessage (chain : K.signing.Chain) (records : RecordSet) (secretKey : Hash32)
    (primary : Bool) (proofBytes : Bytes) : Except ClientError Bytes := do
  let proof ← (K.signing.proofFromSlice proofBytes).mapError .decode
  let built ← K.signing.build chain records proof
  let message ← built.2.foldlM (signOne K secretKey primary) built.1
  pure (K.signing.toBytes message)

/-- `sign`. -/
def sign (cert : Bytes) (records : RecordSet) (secretKey : Hash32) (primary : Bool) :
    Async ν Bytes := do
  let chain ← ask (fun _ => (K.signing.chainFromSlice cert).mapError .decode)
  let proofBytes ← prove K (K.signing.chainProofRequest chain records)
  ask (fun _ => signedMessage K chain records secretKey primary proofBytes)

/-- `publish`. -/
def publish (cert : Bytes) (records : RecordSet) (secretKey : Hash32) (primary : Bool) :
    Async ν PUnit := do
  let message ← sign K cert records secretKey primary
  broadcast K message

end Publish

section Runs

open Interleaving

/-- What is called on a client. -/
inductive Call
  | bootstrap
  | trust (id : TrustId)
  | semiTrust (id : TrustId)
  | observe
  | trustFromQr (payload : String)
  | semiTrustFromQr (payload : String)
  | trustFromSet (entries : List RootAnchor)
  | clearTrusted
  | clearSemiTrusted
  | setSemiTrustedPool (config : SemiTrustConfig)
  | refreshSemiTrusted
  | setPreferLatest (latest : Bool)
  | badge (zone : BadgeZone)
  | resolveAll (handles : List String) (noCache : Bool)
  | resolve (handle : String) (noCache : Bool)
  | resolveById (numId : String)
  | searchAddr (name addr : String)
  | exportChain (handle : String)
  | resolveWithCerts (handle : String)
  | prove (request : ProofRequest)
  | sign (cert : Bytes) (records : RecordSet) (secretKey : Hash32) (primary : Bool)
  | broadcast (message : Bytes)
  | publish (cert : Bytes) (records : RecordSet) (secretKey : Hash32) (primary : Bool)
  | peers
  | refreshPeers

/-- What a call returns if it does not fail. -/
def Call.Result : Call → Type
  | .trustFromSet _ => TrustId
  | .refreshSemiTrusted => SemiTrustResult
  | .badge _ => Badge
  | .resolveAll _ _ | .searchAddr _ _ => List HandleZone
  | .resolve _ _ | .resolveById _ => Option HandleZone
  | .exportChain _ | .prove _ | .sign _ _ _ _ => Bytes
  | .resolveWithCerts _ => Option ResolvedWithCerts
  | .peers => List PeerInfo
  | _ => PUnit

variable {ν Msg L : Type} (K : CallCrates ν Msg L) (rounds : ℕ)

/-- What a call does. -/
def Call.script : (call : Call) → Async ν call.Result
  | .bootstrap => Calls.bootstrap K
  | .trust id => updateTrust K (.trusted id)
  | .semiTrust id => updateTrust K (.semiTrusted id)
  | .observe => updateTrust K .observed
  | .trustFromQr payload => Calls.trustFromQr K .trusted payload
  | .semiTrustFromQr payload => Calls.trustFromQr K .semiTrusted payload
  | .trustFromSet entries => Calls.trustFromSet K entries
  | .clearTrusted => change Fabric.clearTrusted
  | .clearSemiTrusted => change Fabric.clearSemiTrusted
  | .setSemiTrustedPool config => change (Fabric.withSemiTrusted config)
  | .refreshSemiTrusted => Calls.refreshSemiTrusted K
  | .setPreferLatest latest => change (fun f => { f with preferLatest := latest })
  | .badge zone => Calls.badge zone
  | .resolveAll handles noCache => Calls.resolveAll K rounds handles noCache
  | .resolve handle noCache => Calls.resolve K rounds handle noCache
  | .resolveById numId => Calls.resolveById K rounds numId
  | .searchAddr name addr => Calls.searchAddr K rounds name addr
  | .exportChain handle => Calls.exportChain K rounds handle
  | .resolveWithCerts handle => Calls.resolveWithCerts K rounds handle
  | .prove request => Calls.prove K request
  | .sign cert records secretKey primary => Calls.sign K cert records secretKey primary
  | .broadcast message => Calls.broadcast K message
  | .publish cert records secretKey primary => Calls.publish K cert records secretKey primary
  | .peers => Calls.peers
  | .refreshPeers => Calls.refreshPeers

/-- The relays come to answer differently. -/
def outside (_now : ℕ) (net : Network) (c : Client ν) : Client ν × List (Moment ν) :=
  ({ c with net := net }, [])

/-- What is recorded of the client that a step leaves. -/
def record (c : Client ν) : List (Moment ν) :=
  [⟨c.fabric.veritas, c.net⟩]

/-- A call begins, a call takes a step, or the relays come to answer differently. -/
inductive Event
  | begin (i : ℕ) (call : Call)
  | proceed (i : ℕ)
  | network (net : Network)

/-- A call with what is left of it. -/
abbrev Task (ν : Type) :=
  Running (Client ν) (fun call : Call => Except ClientError call.Result)

/-- An event as an act on the world. -/
def Event.act : Event → Act (Task ν) Network
  | .begin i call => .begin i ⟨call, call.script K rounds⟩
  | .proceed i => .run i
  | .network net => .outside net

/-- The client, its calls, and the log of what was recorded. -/
abbrev World (ν : Type) : Type :=
  Interleaving.World (Client ν) (Task ν) (Moment ν)

/-- The client after events. -/
def runCalls (c : Client ν) (events : List Event) : World ν :=
  (events.map (fun e => (0, e.act K rounds))).foldl (turn (stepCall record) outside)
    (starting c 0)

/-- A call that has begun has returned a value. -/
def Returned (world : World ν) (call : Call) (result : call.Result) : Prop :=
  ∃ i begun, world.calls i = some (begun, ⟨call, .done (.ok result)⟩)

/-- The calls that begin. -/
def begun (events : List Event) : List Call :=
  events.filterMap fun e =>
    match e with
    | .begin _ call => some call
    | _ => none

end Runs

section Alone

open Fabric

variable {ν Msg L : Type} {K : CallCrates ν Msg L}

variable {α β : Type}

theorem alone_ask
    (f : Network → Except ClientError α)
    (c : Client ν) :
    (ask f : Async ν α).run.alone c = (some (f c.net), c) := by
  rfl

/-- A request first. -/
theorem alone_ask_bind
    (f : Network → α)
    (next : α → Async ν β)
    (c : Client ν) :
    ((ask (fun net => .ok (f net)) : Async ν α) >>= next).run.alone c =
      (next (f c.net)).run.alone c := by
  rfl

/-- A read first. -/
theorem alone_look_bind
    (f : Fabric ν → α)
    (next : α → Async ν β)
    (c : Client ν) :
    (look f >>= next).run.alone c = (next (f c.fabric)).run.alone c := by
  rfl

theorem alone_lookUnless_bind
    (decided : Bool)
    (f : Fabric ν → Bool)
    (next : Bool → Async ν β)
    (c : Client ν) :
    (lookUnless decided f >>= next).run.alone c =
      (next (decided || f c.fabric)).run.alone c := by
  cases decided <;> rfl

/-- A change first. -/
theorem alone_change_bind
    (f : Fabric ν → Fabric ν)
    (next : PUnit → Async ν β)
    (c : Client ν) :
    (change f >>= next).run.alone c = (next ⟨⟩).run.alone { c with fabric := f c.fabric } := by
  rfl

/-- Every seed that is asked may add URLs. -/
theorem alone_gatherPeers
    (seeds urls : List String)
    (lastErr : Option ClientError)
    (c : Client ν) :
    ∃ found, (gatherPeers seeds urls lastErr).run.alone c = (some (.ok found), c) ∧
      urls <+: found.1 ∧ (seeds = [] → found.2 = lastErr) := by
  induction seeds generalizing urls lastErr with
  | nil =>
      exact ⟨(urls, lastErr), rfl, List.prefix_refl urls, fun _ => rfl⟩
  | cons seed seeds ih =>
      unfold gatherPeers
      rw [alone_ask_bind]
      cases c.net.peers seed with
      | ok peers =>
          obtain ⟨found, halone, hprefix, _⟩ := ih (urls ++ peers.map PeerInfo.url) lastErr
          exact ⟨found, halone, (List.prefix_append urls _).trans hprefix,
            fun h => by cases h⟩
      | error e =>
          obtain ⟨found, halone, hprefix, _⟩ := ih urls (some e)
          exact ⟨found, halone, hprefix, fun h => by cases h⟩

theorem mem_refreshPool
    {entries : List RelayEntry}
    {newUrls : List String}
    {url : String} :
    url ∈ (refreshPool entries newUrls).map RelayEntry.url ↔
      url ∈ entries.map RelayEntry.url ∨ url ∈ newUrls := by
  have hnew : ((newUrls.filter (fun url => !(entries.map RelayEntry.url).contains url)).map
      (fun url => (⟨url, 0⟩ : RelayEntry))).map RelayEntry.url =
        newUrls.filter (fun url => !(entries.map RelayEntry.url).contains url) := by
    rw [List.map_map]
    exact List.map_id _
  unfold refreshPool
  rw [List.map_append, List.mem_append, hnew, List.mem_filter, List.contains_eq_mem]
  by_cases hknown : url ∈ entries.map RelayEntry.url
  · simp [hknown]
  · simp [hknown]

/-- **Finding peers never fails**, and knows every seed in the end. -/
theorem bootstrapPeers_succeeds
    (c : Client ν) :
    ∃ pool, bootstrapPeers.run.alone c =
        (some (.ok ⟨⟩), { c with fabric := { c.fabric with pool := pool } }) ∧
      ∀ seed ∈ c.fabric.seeds, seed ∈ pool.map RelayEntry.url := by
  obtain ⟨found, halone, hprefix, hlast⟩ := alone_gatherPeers c.fabric.seeds c.fabric.seeds none c
  unfold bootstrapPeers
  rw [alone_look_bind, Try.alone_bind_of_ok halone]
  by_cases hfound : found.1 = []
  · have hseeds : c.fabric.seeds = [] := List.prefix_nil.1 (hfound ▸ hprefix)
    rw [if_pos (List.isEmpty_iff.2 hfound), hlast hseeds]
    refine ⟨refreshPool c.fabric.pool c.fabric.seeds, rfl, fun seed hseed => ?_⟩
    exact mem_refreshPool.2 (.inr hseed)
  · rw [if_neg (fun h => hfound (List.isEmpty_iff.1 h))]
    refine ⟨refreshPool c.fabric.pool (c.net.stringOrder.arrange found.1.dedup), rfl,
      fun seed hseed => mem_refreshPool.2 (.inr ?_)⟩
    rw [HashOrder.mem_arrange, List.mem_dedup]
    exact hprefix.subset hseed

@[simp] theorem withPool_relayPool
    (f : Fabric ν) :
    withPool (relayPool f) f = f := by
  have hpool : (relayPool f).map (fun e => (⟨e.url, e.failures.toNat⟩ : RelayEntry)) = f.pool := by
    unfold relayPool
    rw [List.map_map]
    exact List.map_id f.pool
  unfold withPool
  rw [hpool]

/-- No count of failures is negative. -/
def Counts (pool : RelayPool.Pool) : Prop :=
  ∀ e ∈ pool, 0 ≤ e.failures

theorem counts_relayPool
    (f : Fabric ν) :
    Counts (relayPool f) := by
  intro e he
  obtain ⟨relay, _, rfl⟩ := List.mem_map.1 he
  exact Int.natCast_nonneg relay.failures

theorem relayPool_withPool
    {pool : RelayPool.Pool}
    (hpool : Counts pool)
    (f : Fabric ν) :
    relayPool (withPool pool f) = pool := by
  unfold relayPool withPool
  rw [List.map_map]
  refine (List.map_congr_left (fun e he => ?_)).trans (List.map_id pool)
  show RelayPool.Entry.mk e.url (e.failures.toNat : ℤ) = e
  rw [Int.toNat_of_nonneg (hpool e he)]

theorem counts_updateFirst
    {pool : RelayPool.Pool}
    (hpool : Counts pool)
    (url : String)
    {g : ℤ → ℤ}
    (hg : ∀ n, 0 ≤ n → 0 ≤ g n) :
    Counts (RelayPool.updateFirst url g pool) := by
  induction pool with
  | nil =>
      exact hpool
  | cons e pool ih =>
      have hrest : Counts pool := fun e' he' => hpool e' (List.mem_cons_of_mem e he')
      have hhead := hpool e List.mem_cons_self
      unfold RelayPool.updateFirst
      split_ifs
      · intro e' he'
        rcases List.mem_cons.1 he' with rfl | he'
        · exact hg _ hhead
        · exact hrest e' he'
      · intro e' he'
        rcases List.mem_cons.1 he' with rfl | he'
        · exact hhead
        · exact ih hrest e' he'

theorem counts_markFailed
    {pool : RelayPool.Pool}
    (hpool : Counts pool)
    (url : String) :
    Counts (RelayPool.markFailed .rust url pool) :=
  counts_updateFirst hpool url (fun n hn => le_min (Int.add_nonneg hn Int.one_nonneg) (by decide))

/-- **The loop over relays, when nothing comes between its steps.** -/
theorem alone_sendLoop
    (ctx : List HandleZone)
    (request : QueryRequest)
    (noCache : Bool)
    (last : ClientError)
    (relays : List String)
    (c : Client ν) :
    (sendLoop K ctx request noCache last relays).run.alone c =
      let out := Attempts.attemptAll (rustAttempt (K.query c.fabric.veritas) ctx c.fabric.devMode)
        (fun x => RelayPool.markFailed .rust x.1) (fun x => RelayPool.markAlive x.1) last
        (relayPool c.fabric)
        (relays.map (fun url => (url, c.net.query ⟨url ++ "/query", request.encode, noCache⟩)))
      (some out.1, { c with fabric := withPool out.2 c.fabric }) := by
  induction relays generalizing last c with
  | nil =>
      show _ = (some (Except.error last),
        { c with fabric := withPool (relayPool c.fabric) c.fabric })
      rw [withPool_relayPool]
      rfl
  | cons url relays ih =>
      unfold sendLoop
      rw [alone_ask_bind, alone_look_bind, List.map_cons]
      unfold Attempts.attemptAll
      dsimp only
      cases rustAttempt (K.query c.fabric.veritas) ctx c.fabric.devMode
          (url, c.net.query ⟨url ++ "/query", request.encode, noCache⟩) with
      | skip e =>
          have hcounts := counts_markFailed (counts_relayPool c.fabric) url
          refine (alone_change_bind _ _ c).trans ((ih e _).trans ?_)
          dsimp only
          rw [relayPool_withPool hcounts]
          rfl
      | stop e =>
          dsimp only
          rw [withPool_relayPool]
          rfl
      | done res =>
          rfl

/-- **A query that is sent alone is `sendQuery`.** -/
theorem alone_sendQuery
    (ctx : List HandleZone)
    (request : QueryRequest)
    (noCache : Bool)
    (relays : List String)
    (c : Client ν) :
    (sendLoop K ctx request noCache .noPeers relays).run.alone c =
      let out := sendQuery (K.query c.fabric.veritas) ctx c.fabric.devMode request noCache
        (fun _ => c.net.query) relays (relayPool c.fabric)
      (some out.1, { c with fabric := withPool out.2 c.fabric }) := by
  have hanswers : answersOf request noCache (fun _ => c.net.query) relays =
      relays.map (fun url => (url, c.net.query ⟨url ++ "/query", request.encode, noCache⟩)) := by
    have hfst := congrArg (List.map (fun url =>
      (url, c.net.query ⟨url ++ "/query", request.encode, noCache⟩)))
      (List.zipIdx_map_fst 0 relays)
    rw [List.map_map] at hfst
    exact hfst
  unfold sendQuery
  rw [hanswers]
  exact alone_sendLoop ctx request noCache .noPeers relays c

/-- **An update of anchors that is alone**, once it is known what to fetch and from whom. -/
theorem alone_updateAnchors
    {target : Target}
    {c c₁ : Client ν}
    {found : Except ClientError (TrustId × List String)}
    (hfind : (target.find K).run.alone c = (some found, c₁)) :
    (updateAnchors K target).run.alone c =
      let out := Fabric.updateAnchors K.client c₁.net.anchors target.kind found c₁.fabric
      (some out.1, { c₁ with fabric := out.2 }) := by
  unfold updateAnchors Fabric.updateAnchors
  cases found with
  | error e =>
      exact Try.alone_bind_of_error hfind _
  | ok found =>
      rw [Try.alone_bind_of_ok hfind]
      dsimp only
      cases hfetch : fetchAnchorSet K.client c₁.net.anchors found.1 found.2 with
      | error e =>
          refine Try.alone_bind_of_error ?_ _
          rw [alone_ask, hfetch]
      | ok ab =>
          have hask : (ask (fun net => fetchAnchorSet K.client net.anchors found.1 found.2) :
              Async ν AnchorBundle).run.alone c₁ = (some (.ok ab), c₁) := by
            rw [alone_ask, hfetch]
          rw [Try.alone_bind_of_ok hask]
          rfl

/-- **A set that is pinned alone.** -/
theorem alone_trustFromSet
    (entries : List RootAnchor)
    (c : Client ν) :
    (trustFromSet K entries).run.alone c =
      let out := Fabric.trustFromSet K.client entries c.fabric
      (some out.1, { c with fabric := out.2 }) := by
  unfold trustFromSet Fabric.trustFromSet
  rw [Try.alone_bind, Try.alone_step]
  dsimp only
  cases K.client.withAnchors { c.fabric.anchorPool with trusted := entries }.merged with
  | error e =>
      rfl
  | ok v =>
      rfl

/-- **A badge that is computed alone.** -/
theorem alone_badge
    (zone : BadgeZone)
    (c : Client ν) :
    (badge zone).run.alone c = (some (.ok (Fabric.badge c.fabric zone)), c) := by
  unfold badge Fabric.badge
  rw [alone_look_bind, alone_lookUnless_bind, alone_lookUnless_bind]
  cases c.fabric.trusted.isSome || c.fabric.observed.isSome || c.fabric.semiTrusted.isSome with
  | false =>
      rfl
  | true =>
      refine (alone_look_bind _ _ c).trans ?_
      rw [alone_lookUnless_bind, alone_lookUnless_bind]
      simp only [Bool.not_true, Bool.false_eq_true, if_false]
      split_ifs <;> rfl

end Alone

end Calls
end CertRelay
