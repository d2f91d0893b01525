import CertRelay.Lib.Grouping
import CertRelay.Lib.Hex
import CertRelay.Lib.UrlEncoded
import CertRelay.Relay.PeerTable
import CertRelay.Relay.PullRound
import CertRelay.Relay.QueryHeat
import CertRelay.Relay.QueryParams
import Mathlib.Data.String.Basic

/-!
# Answering a query

A query names spaces and handles below them.  The relay groups them by space, answers with a
status only if the client has the current version, and otherwise loads what it stores into a
message builder and proves it.

What a space's label and a handle's text are belongs to `spaces_protocol`: its functions are
the fields of `NameCrates`.  Proving and building a message are parameters of a request, as
are the orders in which hash tables and the database are gone through.

**Results.**
* `heat_handleQuery`: a query makes the handles hot that it asks for;
* `etag_handleQuery`: the entity tag of a response;
* `status_handleQuery`: when a response has no body because the version is current.
-/

namespace CertRelay

/-- The label of a space, by its text. -/
structure SLabel where
  text : String
deriving DecidableEq

/-- What comes before the space in a handle, by its text. -/
structure Subname where
  text : String
deriving DecidableEq

/-- The functions of `spaces_protocol` on names. -/
structure NameCrates where
  /-- `SLabel::from_str`. -/
  slabelFromStr : String → Option SLabel
  /-- `Subname::from_str`. -/
  subnameFromStr : String → Option Subname
  /-- `SName::from_space`. -/
  fromSpace : SLabel → SName
  /-- `SName::join`. -/
  join : Subname → SLabel → Option SName

namespace HandleQuery

section Store

variable (V : Crates)

/-- The record of a row. -/
def rowRecord (r : Row) : Except String HandleRecord := do
  let cert ← (V.certFromSlice r.certData).mapError
    ("failed to deserialize certificate: " ++ ·)
  let zone ← (V.zoneFromSlice r.zoneData).mapError
    ("failed to deserialize zone: " ++ ·)
  .ok ⟨cert, zone, r.epochHeight, r.offchainSeq, r.delegateOffchainSeq⟩

/-- `SqliteStore::get_handles`. -/
def getHandles (order : HashOrder Row) (db : Tables) (handles : List String) :
    Except String (List HandleRecord) :=
  (order.arrange (db.handles.rows.filter (fun r => decide (r.handle ∈ handles)))).mapM
    (rowRecord V)

end Store

section Resolve

/-- `epoch_hint_verifiable_by`. -/
def epochHintVerifiableBy (hint : EpochHint) (zone : Zone) : Bool :=
  match zone.commitment with
  | .exist c =>
      if c.onchain.blockHeight < hint.height.toNat then true
      else decide (hint.height.toNat = c.onchain.blockHeight) &&
        decide (hint.root = Hex.encode c.onchain.stateRoot)
  | _ => false

/-- A certificate without the receipt of a root. -/
def takeReceipt (cert : Certificate) : Certificate :=
  match cert.witness with
  | .root _ => { cert with witness := .root none }
  | .other _ => cert

/-- `add_update` and `add_cert` of a record. -/
def addRecord (builder : MessageBuilder) (cert : Certificate) (zone : Zone) : MessageBuilder where
  updates := builder.updates ++ [updateRequest cert zone]
  certs := builder.certs ++ [cert]

/-- The orders in which the handles of a space and their rows are gone through. -/
structure SpaceOrder where
  subnames : HashOrder Subname
  rows : HashOrder Row

variable (V : Crates) (N : NameCrates)

/-- The distinct handles of a space in a query. -/
def uniqueHandles (order : HashOrder Subname) (space : SLabel) (handles : List String) :
    List String :=
  (order.arrange (handles.filterMap N.subnameFromStr).dedup).filterMap
    (fun h => (N.join h space).map SName.text)

/-- One round of the loop in `resolve`. -/
def resolveQuery (order : SpaceOrder) (db : Tables) (query : Query) (builder : MessageBuilder) :
    Except String MessageBuilder :=
  match N.slabelFromStr query.space with
  | none => .error ("invalid space: " ++ query.space)
  | some space => do
      match ← getHandle V db query.space with
      | none =>
          .ok { builder with certs := builder.certs ++ [⟨0, N.fromSpace space, .root none⟩] }
      | some parent =>
          let verifiable := query.epochHint.any (fun h => epochHintVerifiableBy h parent.zone)
          let parentCert := if verifiable then takeReceipt parent.cert else parent.cert
          let builder := addRecord builder parentCert parent.zone
          let entries ← getHandles V order.rows db
            (uniqueHandles N order.subnames space query.handles)
          .ok (entries.foldl (fun builder e => addRecord builder e.cert e.zone) builder)

/-- The loop in `resolve`, with the spaces it has seen. -/
def resolveLoop (orders : String → SpaceOrder) (db : Tables) :
    List String → MessageBuilder → List Query → Except String MessageBuilder
  | _, builder, [] => .ok builder
  | seen, builder, query :: rest =>
      if query.space ∈ seen then resolveLoop orders db seen builder rest
      else do
        let builder ← resolveQuery V N (orders query.space) db query builder
        resolveLoop orders db (query.space :: seen) builder rest

/-- What `resolve` puts into its builder. -/
def resolveParts (orders : String → SpaceOrder) (db : Tables) (queries : List Query) :
    Except String MessageBuilder :=
  resolveLoop V N orders db [] {} queries

/-- A signature that a built message lacks. -/
structure Unsigned where
  canonical : SName
  records : RecordSet

variable {Proof Msg : Type}

/-- `Handler::resolve`. -/
def resolve (prove : MessageBuilder → Except String Proof)
    (build : MessageBuilder → Proof → Except String (Msg × List Unsigned))
    (orders : String → SpaceOrder) (db : Tables) (queries : List Query) : Except String Msg := do
  let builder ← resolveParts V N orders db queries
  let chain ← prove builder
  let (msg, unsigned) ← build builder chain
  if !unsigned.isEmpty && unsigned.all (fun u => !u.records.isEmpty) then
    .error ("Could not build response: missing signatures for " ++
      ", ".intercalate (unsigned.map (fun u => u.canonical.text)))
  else .ok msg

end Resolve

section Version

/-- `etag_matches`. -/
def etagMatches (ifNoneMatch etag : String) : Bool :=
  ifNoneMatch == "*" ||
    (Text.split ',' ifNoneMatch).any (fun t =>
      Text.trim t == etag ||
        ((Text.stripPrefix "W/" (Text.trim t)).map (fun w => Text.trim w == etag)).getD false)

/-- The bytes of `absent`. -/
def absent : Bytes :=
  UrlEncoded.utf8 "absent"

/-- What `query_etag` hashes of a handle, between its text and the end of its part. -/
def versionField (db : Tables) (handles : List String) (handle : String) : Bytes :=
  match hintOf (getHandleHints db handles) handle with
  | some row => row.zoneHash
  | none => absent

/-- What `query_etag` hashes. -/
def versionText (db : Tables) (handles : List String) : Bytes :=
  handles.flatMap (fun handle =>
    (UrlEncoded.utf8 handle ++ [0]) ++ (versionField db handles handle ++ [0xff]))

/-- `query_etag`; the store may fail to answer. -/
def queryEtag (V : Crates) (storeAnswers : Bool) (db : Tables) (handles : List String) :
    Option String :=
  if storeAnswers then some ("\"" ++ Hex.encode (V.sha256 (versionText db handles)) ++ "\"")
  else none

/-- The spaces of a query and the handles below them. -/
def coveredNames (bySpace : List (String × List String)) : List String :=
  bySpace.flatMap (fun entry =>
    entry.1 :: (entry.2.filter (fun l => !l.isEmpty)).map (fun l => l ++ entry.1))

/-- The `version_handles` of a query. -/
def versionHandles (order : HashOrder (String × List String)) (q : String) : List String :=
  Grouping.sortedDistinct (coveredNames (order.arrange (bySpaceOf (requestedHandles q))))

end Version

section Handler

/-- A request to `/query`. -/
structure HttpQuery where
  ip : IpAddr
  params : QueryParams
  ifNoneMatch : Option String

inductive Body (Msg : Type)
  | empty
  | text (s : String)
  | message (msg : Msg)

structure Response (Msg : Type) where
  status : ℕ
  cacheControl : Option String
  etag : Option String
  body : Body Msg

/-- `Stats`, as far as queries are counted. -/
structure QueryStats where
  rlRead : ℕ
  rlProof : ℕ
  busyRejections : ℕ
  proofsServed : ℕ

/-- The relay, as far as queries go. -/
structure QueryState (σ : Type) where
  db : Tables
  heat : QueryHeat
  limits : σ
  stats : QueryStats
  proofPermits : ℕ

/-- What a request meets besides. -/
structure QueryEnv (σ Proof Msg : Type) where
  /-- `over_limit` of the limiters `read` and `proof`. -/
  overRead : IpAddr → σ → Bool × σ
  overProof : IpAddr → σ → Bool × σ
  storeAnswers : Bool
  spaceOrder : HashOrder (String × List String)
  orders : String → SpaceOrder
  /-- `chain.prove` of the builder's request. -/
  prove : MessageBuilder → Except String Proof
  /-- `MessageBuilder::build`. -/
  build : MessageBuilder → Proof → Except String (Msg × List Unsigned)

variable (V : Crates) (N : NameCrates) {σ Proof Msg : Type} (env : QueryEnv σ Proof Msg)

/-- A response without headers. -/
def plain (status : ℕ) (body : Body Msg) : Response Msg :=
  ⟨status, none, none, body⟩

/-- `handle_query` from the check of the proof budget on. -/
def proveQuery (etag : Option String) (ip : IpAddr) (queries : List Query) (s : QueryState σ) :
    Response Msg × QueryState σ :=
  let (limited, limits) := env.overProof ip s.limits
  let s := { s with limits := limits }
  if limited then
    (plain 429 .empty, { s with stats := { s.stats with rlProof := s.stats.rlProof + 1 } })
  else if s.proofPermits = 0 then
    (plain 503 .empty,
      { s with stats := { s.stats with busyRejections := s.stats.busyRejections + 1 } })
  else
    match resolve V N env.prove env.build env.orders s.db queries with
    | .ok msg =>
        (⟨200, some "public, max-age=5", etag, .message msg⟩,
          { s with stats := { s.stats with proofsServed := s.stats.proofsServed + 1 } })
    | .error _ => (plain 500 .empty, s)

/-- `handle_query`.  Without `q` there is nothing to touch. -/
def handleQuery (request : HttpQuery) (s : QueryState σ) : Response Msg × QueryState σ :=
  let (limited, limits) := env.overRead request.ip s.limits
  let s := { s with limits := limits }
  if limited then
    (plain 429 .empty, { s with stats := { s.stats with rlRead := s.stats.rlRead + 1 } })
  else
    let q := request.params.q.getD ""
    let s := { s with
      heat := (requestedHandles q).foldl (QueryHeat.touch (QueryHeat.capOf QueryHeat.defaultCap))
        s.heat }
    match readQuery env.spaceOrder request.params with
    | .error (status, text) => (plain status (.text text), s)
    | .ok queries =>
        let etag := queryEtag V env.storeAnswers s.db (versionHandles env.spaceOrder q)
        let current := etag.any (fun etag =>
          request.ifNoneMatch.any (fun given => etagMatches given etag))
        if current then (⟨304, some "public, max-age=5", etag, .empty⟩, s)
        else proveQuery V N env etag request.ip queries s

variable {V N env} {request : HttpQuery} {s : QueryState σ}

/-- The tag that `query_etag` gives for the handles of a request. -/
def currentEtag (V : Crates) (env : QueryEnv σ Proof Msg) (request : HttpQuery)
    (s : QueryState σ) : Option String :=
  queryEtag V env.storeAnswers s.db (versionHandles env.spaceOrder (request.params.q.getD ""))

theorem status_of_readQuery
    {order : HashOrder (String × List String)}
    {params : QueryParams}
    {error : ℕ × String}
    (h : readQuery order params = .error error) :
    error.1 = 400 := by
  unfold readQuery at h
  cases hq : params.q with
  | none =>
      rw [hq] at h
      cases h
      rfl
  | some q =>
      rw [hq] at h
      dsimp only at h
      split_ifs at h with hempty hmany
      · cases h
        rfl
      · cases h
        rfl

/-- What the end of `handle_query` does besides counting: it answers with the tag, or without. -/
theorem proveQuery_frame
    (etag : Option String)
    (ip : IpAddr)
    (queries : List Query)
    (s : QueryState σ) :
    (proveQuery V N env etag ip queries s).2.heat = s.heat ∧
      (proveQuery V N env etag ip queries s).1.status ≠ 304 ∧
      ∀ tag, (proveQuery V N env etag ip queries s).1.etag = some tag → etag = some tag := by
  unfold proveQuery
  dsimp only
  split_ifs with hlimited hbusy
  · exact ⟨rfl, by simp [plain], fun tag h => by cases h⟩
  · exact ⟨rfl, by simp [plain], fun tag h => by cases h⟩
  · cases resolve V N env.prove env.build env.orders s.db queries with
    | ok msg =>
        exact ⟨rfl, by simp, fun tag h => h⟩
    | error e =>
        exact ⟨rfl, by simp [plain], fun tag h => by cases h⟩

/-- **A query makes the handles hot that it asks for.** -/
theorem heat_handleQuery :
    (handleQuery V N env request s).2.heat =
      if (env.overRead request.ip s.limits).1 then s.heat
      else (requestedHandles (request.params.q.getD "")).foldl
        (QueryHeat.touch (QueryHeat.capOf QueryHeat.defaultCap)) s.heat := by
  unfold handleQuery
  dsimp only
  cases (env.overRead request.ip s.limits).1 with
  | true =>
      rfl
  | false =>
      cases readQuery env.spaceOrder request.params with
      | error error =>
          rfl
      | ok queries =>
          simp only [Bool.false_eq_true, if_false]
          split_ifs with hcurrent
          · rfl
          · exact (proveQuery_frame _ _ _ _).1

/-- **The entity tag of a response** is that of the handles asked for. -/
theorem etag_handleQuery
    {tag : String}
    (h : (handleQuery V N env request s).1.etag = some tag) :
    currentEtag V env request s = some tag := by
  unfold handleQuery at h
  dsimp only at h
  cases hlimited : (env.overRead request.ip s.limits).1 with
  | true =>
      rw [hlimited] at h
      cases h
  | false =>
      rw [hlimited] at h
      cases hread : readQuery env.spaceOrder request.params with
      | error error =>
          rw [hread] at h
          cases h
      | ok queries =>
          rw [hread] at h
          simp only [Bool.false_eq_true, if_false] at h
          split_ifs at h with hcurrent
          · exact h
          · exact (proveQuery_frame _ _ _ _).2.2 tag h

/-- **When a response has no body because the version is current.** -/
theorem status_handleQuery :
    (handleQuery V N env request s).1.status = 304 ↔
      (env.overRead request.ip s.limits).1 = false ∧
      (∃ queries, readQuery env.spaceOrder request.params = .ok queries) ∧
      ∃ etag given, currentEtag V env request s = some etag ∧
        request.ifNoneMatch = some given ∧ etagMatches given etag = true := by
  unfold handleQuery
  dsimp only
  cases (env.overRead request.ip s.limits).1 with
  | true =>
      simp [plain]
  | false =>
      rw [if_neg Bool.false_ne_true]
      cases hread : readQuery env.spaceOrder request.params with
      | error error =>
          have hstatus := status_of_readQuery hread
          simp [plain, hstatus]
      | ok queries =>
          have hcurrent : ((queryEtag V env.storeAnswers s.db
              (versionHandles env.spaceOrder (request.params.q.getD ""))).any (fun etag =>
                request.ifNoneMatch.any (fun given => etagMatches given etag))) = true ↔
              ∃ etag given, currentEtag V env request s = some etag ∧
                request.ifNoneMatch = some given ∧ etagMatches given etag = true := by
            simp [currentEtag, Option.any_eq_true]
          dsimp only
          rw [← hcurrent]
          split_ifs with h
          · simp [h]
          · simp [h, (proveQuery_frame _ _ _ _).2.1]

end Handler

section Samples

/-- Names that are taken as they are. -/
def sampleNames : NameCrates where
  slabelFromStr s := some ⟨s⟩
  subnameFromStr s := some ⟨s⟩
  fromSpace space := ⟨space.text⟩
  join name space := some ⟨name.text ++ space.text⟩

/-- Requests without limits, and an empty message. -/
def sampleQueryEnv : QueryEnv Unit Unit Unit where
  overRead _ limits := (false, limits)
  overProof _ limits := (false, limits)
  storeAnswers := true
  spaceOrder := .inserted
  orders _ := ⟨.inserted, .inserted⟩
  prove _ := .ok ()
  build _ _ := .ok ((), [])

def sampleQueryState (db : Tables) : QueryState Unit :=
  ⟨db, QueryHeat.new, (), ⟨0, 0, 0, 0⟩, 1⟩

end Samples

end HandleQuery
end CertRelay
