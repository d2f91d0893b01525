import CertRelay.Lib.KeyedTable
import CertRelay.Lib.Text
import CertRelay.Client.Anchors

/-!
# The client's trust state

A client holds up to three trust sets: pinned by the user (`trusted`), vouched for by a
semi-trusted source, and observed from peers.  Beside them it keeps the anchors each came
from, merged into one `Veritas`.  This module has the operations that change trust, the
badge computed from it, and its persistent form.

Locks are taken one after another and never held across a request, so an operation is a
function of the state and of what the relays answer.

**Results.**
* `applySemiTrusted_frame`: pinning changes the semi-trusted anchor, the anchor pool and
  the `Veritas` only;
* `refreshSemiTrusted_cases`: a refresh pins the set it fetches, or changes nothing;
* `badge_congr`: the badge depends on the three trust sets only;
* `badge_ne_orange`: without a pinned set no badge is orange.
-/

namespace CertRelay

/-- A relay of the client's pool. -/
structure RelayEntry where
  url : String
  failures : Nat

/-- `RelayPool::refresh`: add the URLs that were not there before. -/
def refreshPool (entries : List RelayEntry) (newUrls : List String) : List RelayEntry :=
  entries ++ (newUrls.filter (fun url => !(entries.map RelayEntry.url).contains url)).map
    (fun url => ⟨url, 0⟩)

/-- A semi-trusted relay with its pinned key. -/
structure SemiTrustedRelay where
  url : String
  pubkey : Hash32
deriving DecidableEq

/-- How many of the semi-trusted relays must agree. -/
inductive Quorum
  | all
  | atLeast (n : Nat)
  | majority
deriving DecidableEq

/-- `Quorum::required`. -/
def Quorum.required : Quorum → Nat → Nat
  | .all, total => total
  | .atLeast n, _ => n
  | .majority, total => total / 2 + 1

structure SemiTrustConfig where
  relays : List SemiTrustedRelay
  quorum : Quorum

/-- What a refresh reports. -/
structure SemiTrustResult where
  trustId : Option TrustId
  height : Option UInt32
  total : Nat
  verified : Nat
  agreed : Nat
  required : Nat
  quorumMet : Bool

/-- `SEEDS`. -/
def seeds : List String :=
  ["https://relay-cosmos.spacesprotocol.org", "https://relay-atlas.spacesprotocol.org"]

/-- `SEED_SEMI_TRUSTED`. -/
def seedSemiTrusted : List (String × String) :=
  [("https://relay-cosmos.spacesprotocol.org",
      "b4e6def56fe1c7fedc3168b100254e184fbbd1175628e5ba92e36644a107ac70"),
    ("https://relay-atlas.spacesprotocol.org",
      "33621830b05efe450f1dbbfb064ed94db50a033ae83b982643d1957f95c94ce7"),
    ("https://relay-orion.spacesprotocol.org",
      "7126eaafb140c43ec50b22a37d44aeb451f87a03c9994994f3c0ebebd5b0ff0b"),
    ("https://relay-pulsar.spacesprotocol.org",
      "f3c827ea7bf9d2e621b629c4420d25a0633f671953deff67926d38fe49679730")]

/-- The client, with the `Veritas` it verifies messages against. -/
structure Fabric (ν : Type) where
  pool : List RelayEntry
  veritas : ν
  devMode : Bool
  rootCache : KeyedTable (String × Zone) Prod.fst
  seeds : List String
  trusted : Option TrustSet
  observed : Option TrustSet
  semiTrusted : Option TrustSet
  anchorPool : AnchorPool
  preferLatest : Bool
  semiTrustConfig : SemiTrustConfig

/-- The persistent form of a client. -/
structure FabricState where
  version : Nat
  relays : List String
  anchors : AnchorPool
  zoneCache : KeyedTable (String × Zone) Prod.fst

/-- The badge shown for a handle. -/
inductive Badge
  | orange
  | unverified
  | none
deriving DecidableEq

/-- The fields of a zone that the badge depends on. -/
structure BadgeZone where
  anchorHash : Hash32
  sovereignty : SovereigntyState

namespace Fabric

variable {ν : Type} (C : ClientCrates ν)

section Construction

/-- `parse_xonly_hex`. -/
def parseXonlyHex (hexStr : String) : Except ClientError Hash32 :=
  match C.hexDecode (Text.trim hexStr) with
  | .error e => .error (.decode e)
  | .ok bytes =>
      match toArray 32 bytes with
      | none => .error (.decode "x-only public key must be 32 bytes")
      | some key =>
          if C.isXonlyPublicKey key then .ok key
          else .error (.decode "invalid x-only public key")

/-- `SemiTrustConfig::default`; the built-in keys are valid. -/
def defaultSemiTrust : SemiTrustConfig where
  relays := seedSemiTrusted.filterMap fun p =>
    (parseXonlyHex C p.2).toOption.map (SemiTrustedRelay.mk p.1)
  quorum := .majority

/-- `with_seeds`. -/
def withSeeds (seeds : List String) : Fabric ν where
  pool := []
  veritas := C.newVeritas
  devMode := false
  rootCache := KeyedTable.empty
  seeds := seeds
  trusted := none
  observed := none
  semiTrusted := none
  anchorPool := AnchorPool.empty
  preferLatest := true
  semiTrustConfig := defaultSemiTrust C

/-- `new`. -/
def new : Fabric ν :=
  withSeeds C CertRelay.seeds

/-- `with_semi_trusted`. -/
def withSemiTrusted (config : SemiTrustConfig) (f : Fabric ν) : Fabric ν :=
  { f with semiTrustConfig := config }

end Construction

section Persistence

/-- `save_state`. -/
def saveState (f : Fabric ν) : FabricState where
  version := 1
  relays := f.pool.map RelayEntry.url
  anchors := f.anchorPool
  zoneCache := f.rootCache

/-- The set of some anchors, if there are any. -/
def trustSetOf (anchors : List RootAnchor) : Option TrustSet :=
  if anchors.isEmpty then none else some (C.computeTrustSet anchors)

/-- The `Veritas` of a merged pool, the new one where the pool is empty. -/
def veritasOf (merged : List RootAnchor) : Except ClientError ν :=
  if merged.isEmpty then .ok C.newVeritas
  else (C.withAnchors merged).mapError ClientError.decode

/-- `from_state`. -/
def fromState (state : FabricState) : Except ClientError (Fabric ν) := do
  let fabric := new C
  let veritas ← veritasOf C state.anchors.merged
  return { fabric with
    pool := if state.relays.isEmpty then fabric.pool else refreshPool fabric.pool state.relays
    veritas := veritas
    rootCache := state.zoneCache.rows.foldl KeyedTable.insertOrReplace fabric.rootCache
    trusted := trustSetOf C state.anchors.trusted
    semiTrusted := trustSetOf C state.anchors.semiTrusted
    observed := trustSetOf C state.anchors.observed
    anchorPool := state.anchors }

end Persistence

section Reading

/-- `are_roots_trusted` and its siblings, at the trust set they read. -/
def areRootsIn (set : Option TrustSet) (roots : List TrustId) : Bool :=
  match set with
  | none => false
  | some trustSet => roots.all (fun root => trustSet.roots.contains root)

/-- `badge`. -/
def badge (f : Fabric ν) (zone : BadgeZone) : Badge :=
  let hasAnyPool := f.trusted.isSome || f.observed.isSome || f.semiTrusted.isSome
  if !hasAnyPool then .unverified
  else
    let isTrusted := areRootsIn f.trusted [zone.anchorHash]
    let isObserved := isTrusted || areRootsIn f.observed [zone.anchorHash]
    let isSemiTrusted := isTrusted || areRootsIn f.semiTrusted [zone.anchorHash]
    if isTrusted && zone.sovereignty = .sovereign then .orange
    else if isObserved && !isTrusted && !isSemiTrusted then .unverified
    else .none

/-- `trusted`. -/
def trustedId (f : Fabric ν) : Option TrustId :=
  f.trusted.map TrustSet.id

/-- `semi_trusted`. -/
def semiTrustedId (f : Fabric ν) : Option TrustId :=
  f.semiTrusted.map TrustSet.id

/-- `observed`. -/
def observedId (f : Fabric ν) : Option TrustId :=
  f.observed.map TrustSet.id

/-- The badge depends on the three trust sets only. -/
theorem badge_congr
    {f f' : Fabric ν}
    (htrusted : f'.trusted = f.trusted)
    (hsemi : f'.semiTrusted = f.semiTrusted)
    (hobserved : f'.observed = f.observed)
    (zone : BadgeZone) :
    f'.badge zone = f.badge zone := by
  unfold badge
  rw [htrusted, hsemi, hobserved]

/-- Without a pinned set no badge is orange. -/
theorem badge_ne_orange
    {f : Fabric ν}
    (h : f.trusted = none)
    (zone : BadgeZone) :
    f.badge zone ≠ .orange := by
  unfold badge
  rw [h]
  dsimp only [areRootsIn]
  split_ifs <;> simp_all

end Reading

section Updates

/-- `trust_from_set`: the pool is changed before the `Veritas` is built. -/
def trustFromSet (entries : List RootAnchor) (f : Fabric ν) :
    Except ClientError TrustId × Fabric ν :=
  let trustSet := C.computeTrustSet entries
  let pool := { f.anchorPool with trusted := entries }
  match C.withAnchors pool.merged with
  | .error e => (.error (.decode e), { f with anchorPool := pool })
  | .ok v =>
      (.ok trustSet.id,
        { f with anchorPool := pool, veritas := v, trusted := some trustSet })

/-- `clear_trusted`. -/
def clearTrusted (f : Fabric ν) : Fabric ν :=
  { f with trusted := none }

/-- `clear_semi_trusted`. -/
def clearSemiTrusted (f : Fabric ν) : Fabric ν :=
  { f with semiTrusted := none }

/-- Rebuild the `Veritas` from a pool; a pool it does not accept leaves it as it was. -/
def rebuildVeritas (pool : AnchorPool) (f : Fabric ν) : Fabric ν :=
  match C.withAnchors pool.merged with
  | .ok v => { f with anchorPool := pool, veritas := v }
  | .error _ => { f with anchorPool := pool }

/-- `apply_semi_trusted`. -/
def applySemiTrusted (ab : AnchorBundle) (f : Fabric ν) : Fabric ν :=
  { rebuildVeritas C { f.anchorPool with semiTrusted := ab.anchors } f with
    semiTrusted := some ab.trustSet }

/-- What pinning a semi-trusted set changes. -/
theorem applySemiTrusted_frame
    (ab : AnchorBundle)
    (f : Fabric ν) :
    (applySemiTrusted C ab f).semiTrusted = some ab.trustSet ∧
      (applySemiTrusted C ab f).anchorPool = { f.anchorPool with semiTrusted := ab.anchors } ∧
      ((applySemiTrusted C ab f).veritas = f.veritas ∨
        C.withAnchors (applySemiTrusted C ab f).anchorPool.merged =
          .ok (applySemiTrusted C ab f).veritas) ∧
      (applySemiTrusted C ab f).trusted = f.trusted ∧
      (applySemiTrusted C ab f).observed = f.observed := by
  unfold applySemiTrusted rebuildVeritas
  cases hv : C.withAnchors { f.anchorPool with semiTrusted := ab.anchors }.merged with
  | error e =>
      exact ⟨rfl, rfl, Or.inl rfl, rfl, rfl⟩
  | ok v =>
      exact ⟨rfl, rfl, Or.inr hv, rfl, rfl⟩

/-- What an update of anchors is for. -/
inductive TrustKind
  | trusted
  | semiTrusted
  | observed
deriving DecidableEq

/-- The pool with the anchors of one source replaced. -/
def poolWith (kind : TrustKind) (anchors : List RootAnchor) (pool : AnchorPool) : AnchorPool :=
  match kind with
  | .trusted => { pool with trusted := anchors }
  | .semiTrusted => { pool with semiTrusted := anchors }
  | .observed => { pool with observed := anchors }

/-- Record a trust set for one source. -/
def setTrust (kind : TrustKind) (set : TrustSet) (f : Fabric ν) : Fabric ν :=
  match kind with
  | .trusted => { f with trusted := some set }
  | .semiTrusted => { f with semiTrusted := some set }
  | .observed => { f with observed := some set }

/-- `update_anchors` from the id and the peers to fetch it from: given by the caller, or
by `fetch_latest_trust_id` when observing. -/
def updateAnchors (get : ℕ → String → AnchorAnswer) (kind : TrustKind)
    (target : Except ClientError (TrustId × List String)) (f : Fabric ν) :
    Except ClientError Unit × Fabric ν :=
  match target with
  | .error e => (.error e, f)
  | .ok (id, peers) =>
      match fetchAnchorSet C get id peers with
      | .error e => (.error e, f)
      | .ok ab =>
          (.ok (), setTrust kind ab.trustSet
            (rebuildVeritas C (poolWith kind ab.anchors f.anchorPool) f))

/-- The signed votes of the pool's relays, by root, with the height and the relay's URL. -/
def signedVotes (head : ℕ → HeadAnswer) (relays : List SemiTrustedRelay) :
    List (Hash32 × (UInt32 × String)) :=
  relays.zipIdx.filterMap fun p =>
    (fetchSignedAnchorHead C p.1.url p.1.pubkey (head p.2)).toOption.map
      fun h => (h.1, (h.2, p.1.url))

/-- The entry of a root: its votes, in the order in which the relays were asked. -/
abbrev RootVotes := Hash32 × List (UInt32 × String)

/-- The height of the first vote. -/
def entryHeight (entry : RootVotes) : UInt32 :=
  (entry.2.head?.map Prod.fst).getD 0

/-- `(urls.len(), *height)`, compared lexicographically. -/
def entryRank (entry : RootVotes) : ℕ ×ₗ ℕ :=
  toLex (entry.2.length, (entryHeight entry).toNat)

/-- The root with the most votes, then the greatest height. -/
def winningRoot (order : HashOrder RootVotes) (head : ℕ → HeadAnswer)
    (config : SemiTrustConfig) : Option RootVotes :=
  Tally.lastBest entryRank (order.arrange (Tally.tally (signedVotes C head config.relays)))

/-- `refresh_semi_trusted`: the relays' heads, and the answers to the fetch that follows. -/
def refreshSemiTrusted (order : HashOrder RootVotes) (head : ℕ → HeadAnswer)
    (get : ℕ → String → AnchorAnswer) (f : Fabric ν) :
    Except ClientError SemiTrustResult × Fabric ν :=
  let total := f.semiTrustConfig.relays.length
  let verified := (signedVotes C head f.semiTrustConfig.relays).length
  let winner := winningRoot C order head f.semiTrustConfig
  let required := f.semiTrustConfig.quorum.required total
  let agreed := (winner.map (fun entry => entry.2.length)).getD 0
  let kept : SemiTrustResult :=
    ⟨f.semiTrustedId, none, total, verified, agreed, required, false⟩
  match winner with
  | none => (.ok kept, f)
  | some entry =>
      if 0 < agreed ∧ required ≤ agreed then
        match fetchAnchorSet C get entry.1 (entry.2.map Prod.snd) with
        | .error e => (.error e, f)
        | .ok ab =>
            (.ok ⟨some entry.1, some (entryHeight entry), total, verified, agreed, required, true⟩,
              applySemiTrusted C ab f)
      else (.ok kept, f)

/-- The winning root has enough votes, and the set is what one of its relays serves. -/
def RefreshPins (order : HashOrder RootVotes) (head : ℕ → HeadAnswer)
    (get : ℕ → String → AnchorAnswer) (f : Fabric ν) (ab : AnchorBundle) : Prop :=
  ∃ entry, winningRoot C order head f.semiTrustConfig = some entry ∧ 0 < entry.2.length ∧
    f.semiTrustConfig.quorum.required f.semiTrustConfig.relays.length ≤ entry.2.length ∧
    fetchAnchorSet C get entry.1 (entry.2.map Prod.snd) = .ok ab

theorem RefreshPins.unique
    {order : HashOrder RootVotes}
    {head : ℕ → HeadAnswer}
    {get : ℕ → String → AnchorAnswer}
    {f : Fabric ν}
    {ab ab' : AnchorBundle}
    (h : RefreshPins C order head get f ab)
    (h' : RefreshPins C order head get f ab') :
    ab = ab' := by
  obtain ⟨entry, hentry, _, _, hab⟩ := h
  obtain ⟨entry', hentry', _, _, hab'⟩ := h'
  rw [hentry, Option.some.injEq] at hentry'
  subst hentry'
  rw [hab, Except.ok.injEq] at hab'
  exact hab'

/-- What a refresh does: it pins the set it fetches, or nothing. -/
theorem refreshSemiTrusted_cases
    (order : HashOrder RootVotes)
    (head : ℕ → HeadAnswer)
    (get : ℕ → String → AnchorAnswer)
    (f : Fabric ν) :
    (∃ ab, RefreshPins C order head get f ab ∧
        (refreshSemiTrusted C order head get f).2 = applySemiTrusted C ab f) ∨
      ((∀ ab, ¬ RefreshPins C order head get f ab) ∧
        (refreshSemiTrusted C order head get f).2 = f) := by
  unfold refreshSemiTrusted RefreshPins
  dsimp only
  cases winningRoot C order head f.semiTrustConfig with
  | none =>
      refine Or.inr ⟨?_, rfl⟩
      rintro ab ⟨entry, hentry, _⟩
      cases hentry
  | some entry =>
      simp only [Option.map_some, Option.getD_some, Option.some.injEq]
      split_ifs with hquorum
      · cases hfetch : fetchAnchorSet C get entry.1 (entry.2.map Prod.snd) with
        | error e =>
            refine Or.inr ⟨?_, rfl⟩
            rintro ab ⟨_, rfl, _, _, hab⟩
            rw [hfetch] at hab
            cases hab
        | ok ab =>
            exact Or.inl ⟨ab, ⟨entry, rfl, hquorum.1, hquorum.2, hfetch⟩, rfl⟩
      · refine Or.inr ⟨?_, rfl⟩
        rintro ab ⟨_, rfl, hpos, hrequired, _⟩
        exact hquorum ⟨hpos, hrequired⟩

end Updates

end Fabric
end CertRelay
