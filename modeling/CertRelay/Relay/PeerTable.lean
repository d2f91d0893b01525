import Mathlib.Data.List.MinMax
import CertRelay.Lib.KeyedTable
import CertRelay.Lib.Runs
import CertRelay.Lib.Text
import CertRelay.Relay.SyncPage

/-!
# The peer table

A relay keeps the peers it has heard of in two maps by URL: `unverified` entries wait
for a health check, `verified` entries are synced from.  Announcements and seeds enter
`unverified`; a success promotes; repeated sync failures and expiry demote.  Both maps
have a capacity, enforced by a loop that drops the entries seen longest ago.

The order in which a map is iterated is open, and each operation reads the clock once.

**Results.**
* `verified_le_max`: the verified map never exceeds its capacity;
* `bounded_iff`: both maps stay within capacity throughout a run exactly if each
  demotion finds room, since the two demoting operations do not evict.
-/

namespace CertRelay

/-- `IpAddr`. -/
inductive IpAddr
  | v4 (bits : BitVec 32)
  | v6 (bits : BitVec 128)
deriving DecidableEq

/-- `IpAddr::is_unspecified`. -/
def IpAddr.isUnspecified : IpAddr → Bool
  | .v4 bits => bits == 0
  | .v6 bits => bits == 0

/-- A peer as announced. -/
structure PeerInfo where
  sourceIp : IpAddr
  url : String
  capabilities : UInt32

/-- Capacities and lifetimes, the latter in nanoseconds. -/
structure PeerConfig where
  maxUnverified : Nat
  maxVerified : Nat
  verifiedTtl : Nat
  unverifiedTtl : Nat
deriving DecidableEq

/-- `PeerConfig::default`. -/
def PeerConfig.default : PeerConfig where
  maxUnverified := 1000
  maxVerified := 100
  verifiedTtl := 600 * 10 ^ 9
  unverifiedTtl := 3 * 24 * 3600 * 10 ^ 9

/-- Consecutive sync failures before a verified peer is demoted. -/
def syncFailuresBeforeDemote : Nat := 3

/-- An entry of either map; `added` is when it entered the map it is in. -/
structure PeerEntry where
  sourceIp : IpAddr
  capabilities : UInt32
  lastSeen : Nat
  added : Nat
  syncFailures : Nat
deriving DecidableEq

/-- What an announcement reports. -/
inductive AnnounceResult
  | alreadyVerified
  | unverified
deriving DecidableEq

/-- Entries by URL. -/
abbrev Peers := KeyedTable (String × PeerEntry) Prod.fst

/-- `get_mut`: change the entry of a URL. -/
def Peers.update (peers : Peers) (url : String) (f : PeerEntry → PeerEntry) : Peers :=
  peers.modify url (fun p => (p.1, f p.2)) (fun _ => rfl)

/-- The state of peer discovery; `ipSlots` holds the URL each address announced. -/
structure PeerTable where
  ipSlots : KeyedTable (IpAddr × String) Prod.fst
  unverified : Peers
  verified : Peers
  config : PeerConfig
  selfUrl : Option String
deriving DecidableEq

/-- What an operation finds: the clock, and the order in which maps are iterated. -/
structure Moment where
  now : Nat
  order : HashOrder (String × PeerEntry)

/-- The parser of the `url` crate, down to the text of the URL it returns. -/
abbrev UrlParse := String → Option String

/-- `normalize_url`. -/
def normalizeUrl (parse : UrlParse) (url : String) : String :=
  match parse (Text.trim url) with
  | some parsed => Text.trimEndMatches (fun c => c == '/') parsed
  | none => Text.trimEndMatches (fun c => c == '/') (Text.trim url)

namespace PeerTable

/-- `PeerTable::new`. -/
def new (config : PeerConfig) : PeerTable where
  ipSlots := KeyedTable.empty
  unverified := KeyedTable.empty
  verified := KeyedTable.empty
  config := config
  selfUrl := none

/-- `is_self`. -/
def isSelf (t : PeerTable) (url : String) : Bool :=
  t.selfUrl == some url

/-- Seen within the lifetime of a verified entry. -/
def fresh (t : PeerTable) (now : Nat) (e : PeerEntry) : Bool :=
  now - e.lastSeen < t.config.verifiedTtl

/-- The entry seen longest ago, the first of several. -/
def oldest (order : HashOrder (String × PeerEntry)) (peers : Peers) : Option String :=
  ((order.arrange peers.rows).argmin (fun p => p.2.lastSeen)).map Prod.fst

/-- `while map.len() > max`: drop the oldest entry. -/
def evictWhile (order : HashOrder (String × PeerEntry)) (peers : PeerTable → Peers)
    (max : Nat) (drop : String → PeerTable → PeerTable) : Nat → PeerTable → PeerTable
  | 0, t => t
  | fuel + 1, t =>
      if max < (peers t).rows.length then
        match oldest order (peers t) with
        | some url => evictWhile order peers max drop fuel (drop url t)
        | none => t
      else t

/-- `ip_slots.retain(|_, u| *u != url)`. -/
def freeSlots (url : String) (t : PeerTable) : PeerTable :=
  { t with ipSlots := t.ipSlots.filter (fun p => p.2 != url) }

/-- Drop an unverified entry with its slots. -/
def dropUnverified (url : String) (t : PeerTable) : PeerTable :=
  freeSlots url { t with unverified := t.unverified.erase url }

/-- Drop a verified entry. -/
def dropVerified (url : String) (t : PeerTable) : PeerTable :=
  { t with verified := t.verified.erase url }

/-- Evict unverified entries over capacity. -/
def evictUnverified (order : HashOrder (String × PeerEntry)) (t : PeerTable) : PeerTable :=
  evictWhile order unverified t.config.maxUnverified dropUnverified t.unverified.rows.length t

/-- Evict verified entries over capacity. -/
def evictVerified (order : HashOrder (String × PeerEntry)) (t : PeerTable) : PeerTable :=
  evictWhile order verified t.config.maxVerified dropVerified t.verified.rows.length t

/-- Give the address's slot to the URL; a URL no other address points to is dropped. -/
def assignSlot (ip : IpAddr) (url : String) (t : PeerTable) : PeerTable :=
  let unverified :=
    match t.ipSlots.find? ip with
    | some (_, oldUrl) =>
        if oldUrl ≠ url ∧ ¬ t.ipSlots.rows.any (fun p => p.1 != ip && p.2 == oldUrl) then
          t.unverified.erase oldUrl
        else t.unverified
    | none => t.unverified
  { t with
    unverified := unverified
    ipSlots := t.ipSlots.insertOrReplace (ip, url) }

/-- Add or renew the entry of an announced URL. -/
def upsertUnverified (now : Nat) (url : String) (peer : PeerInfo) (t : PeerTable) : PeerTable :=
  { t with
    unverified :=
      t.unverified.upsert (url, ⟨peer.sourceIp, peer.capabilities, now, now, 0⟩)
        (fun p =>
          (p.1, { p.2 with lastSeen := now, added := now, capabilities := peer.capabilities }))
        (fun _ => rfl) }

variable (parse : UrlParse)

/-- `set_self_url`. -/
def setSelfUrl (url : String) (t : PeerTable) : PeerTable :=
  { t with selfUrl := some (normalizeUrl parse url) }

/-- `announce`. -/
def announce (m : Moment) (peer : PeerInfo) (t : PeerTable) : AnnounceResult × PeerTable :=
  let url := normalizeUrl parse peer.url
  if t.isSelf url then (.alreadyVerified, t)
  else if (t.verified.find? url).any (fun p => t.fresh m.now p.2) then
    (.alreadyVerified,
      { t with
        verified := t.verified.update url (fun e =>
          { e with lastSeen := m.now, capabilities := peer.capabilities }) })
  else if peer.sourceIp.isUnspecified then
    -- an unattributed entry owns no slot and displaces nothing
    if (t.unverified.find? url).isNone ∧ t.config.maxUnverified ≤ t.unverified.rows.length then
      (.unverified, t)
    else
      (.unverified, evictUnverified m.order (upsertUnverified m.now url peer t))
  else
    (.unverified,
      evictUnverified m.order
        (upsertUnverified m.now url peer (assignSlot peer.sourceIp url t)))

/-- `mark_alive`. -/
def markAlive (m : Moment) (rawUrl : String) (t : PeerTable) : PeerTable :=
  let url := normalizeUrl parse rawUrl
  if (t.verified.find? url).isSome then
    { t with verified := t.verified.update url (fun e => { e with lastSeen := m.now }) }
  else
    match t.unverified.find? url with
    | none => t
    | some (_, entry) =>
        let t := dropUnverified url t
        evictVerified m.order
          { t with
            verified := t.verified.insertOrReplace
              (url, ⟨entry.sourceIp, entry.capabilities, m.now, m.now, 0⟩) }

/-- `mark_synced`. -/
def markSynced (m : Moment) (rawUrl : String) (t : PeerTable) : PeerTable :=
  let t := markAlive parse m rawUrl t
  { t with
    verified := t.verified.update (normalizeUrl parse rawUrl) (fun e =>
      { e with syncFailures := 0 }) }

/-- `remove`. -/
def remove (rawUrl : String) (t : PeerTable) : PeerTable :=
  let url := normalizeUrl parse rawUrl
  freeSlots url
    { t with
      unverified := t.unverified.erase url
      verified := t.verified.erase url }

/-- `ensure_seed`. -/
def ensureSeed (m : Moment) (rawUrl : String) (t : PeerTable) : PeerTable :=
  let url := normalizeUrl parse rawUrl
  if t.isSelf url ∨ (t.verified.find? url).isSome then t
  else
    evictUnverified m.order
      { t with
        unverified := t.unverified.insertOrIgnore (url, ⟨.v4 0, 0, m.now, m.now, 0⟩) }

/-- `record_sync_failure`. -/
def recordSyncFailure (m : Moment) (rawUrl : String) (t : PeerTable) : PeerTable :=
  let url := normalizeUrl parse rawUrl
  if (t.unverified.find? url).isSome then
    { t with unverified := t.unverified.update url (fun e => { e with lastSeen := m.now }) }
  else
    match t.verified.find? url with
    | none => t
    | some (_, entry) =>
        if syncFailuresBeforeDemote ≤ entry.syncFailures + 1 then
          { t with
            verified := t.verified.erase url
            unverified := t.unverified.insertOrReplace
              (url, { entry with lastSeen := m.now, added := m.now, syncFailures := 0 }) }
        else
          { t with
            verified := t.verified.update url (fun e =>
              { e with syncFailures := e.syncFailures + 1 }) }

/-- `expire_unverified`. -/
def expireUnverified (m : Moment) (t : PeerTable) : PeerTable :=
  let unverified :=
    t.unverified.filter (fun p => m.now - p.2.added < t.config.unverifiedTtl)
  { t with
    unverified := unverified
    ipSlots := t.ipSlots.filter (fun p =>
      (unverified.find? p.2).isSome || (t.verified.find? p.2).isSome) }

/-- `demote_expired`. -/
def demoteExpired (m : Moment) (t : PeerTable) : PeerTable :=
  let expired := (m.order.arrange t.verified.rows).filter (fun p => !t.fresh m.now p.2)
  { t with
    verified := t.verified.filter (fun p => t.fresh m.now p.2)
    unverified :=
      (expired.map (fun p => (p.1, { p.2 with added := m.now, syncFailures := 0 }))).foldl
        KeyedTable.insertOrIgnore t.unverified }

/-- The verified entries within their lifetime, without the relay itself. -/
def listed (m : Moment) (t : PeerTable) : List (String × PeerEntry) :=
  (m.order.arrange t.verified.rows).filter (fun p => !t.isSelf p.1 && t.fresh m.now p.2)

/-- `peers`. -/
def peers (m : Moment) (t : PeerTable) : List String :=
  (t.listed m).map Prod.fst

/-- `peers_info`. -/
def peersInfo (m : Moment) (t : PeerTable) : List PeerInfo :=
  (t.listed m).map (fun p => ⟨p.2.sourceIp, p.1, p.2.capabilities⟩)

/-- The operations on the table. -/
inductive PeerOp
  | setSelfUrl (url : String)
  | announce (peer : PeerInfo)
  | markAlive (url : String)
  | markSynced (url : String)
  | remove (url : String)
  | ensureSeed (url : String)
  | recordSyncFailure (url : String)
  | expireUnverified
  | demoteExpired

/-- The table after an operation. -/
def runOp (t : PeerTable) (step : Moment × PeerOp) : PeerTable :=
  match step.2 with
  | .setSelfUrl url => setSelfUrl parse url t
  | .announce peer => (announce parse step.1 peer t).2
  | .markAlive url => markAlive parse step.1 url t
  | .markSynced url => markSynced parse step.1 url t
  | .remove url => remove parse url t
  | .ensureSeed url => ensureSeed parse step.1 url t
  | .recordSyncFailure url => recordSyncFailure parse step.1 url t
  | .expireUnverified => expireUnverified step.1 t
  | .demoteExpired => demoteExpired step.1 t

section Eviction

variable {order : HashOrder (String × PeerEntry)} {peers : PeerTable → Peers} {max : Nat}
  {drop : String → PeerTable → PeerTable}

/-- A map with an entry has an oldest one. -/
theorem exists_oldest
    (order : HashOrder (String × PeerEntry))
    {entries : Peers}
    (h : entries.rows ≠ []) :
    ∃ url p, oldest order entries = some url ∧ entries.find? url = some p := by
  unfold oldest
  cases hmin : (order.arrange entries.rows).argmin (fun p => p.2.lastSeen) with
  | none =>
      rw [List.argmin_eq_none] at hmin
      have hperm := order.perm entries.rows
      rw [hmin] at hperm
      exact absurd hperm.symm.eq_nil h
  | some p =>
      have hp : p ∈ entries.rows := (order.mem_arrange).1 (List.argmin_mem hmin)
      exact ⟨p.1, p, rfl, entries.find?_key hp⟩

/-- Eviction keeps what each drop keeps. -/
theorem evictWhile_keeps
    {P : PeerTable → Prop}
    (hdrop : ∀ url t, P t → P (drop url t))
    (fuel : Nat)
    {t : PeerTable}
    (h : P t) :
    P (evictWhile order peers max drop fuel t) := by
  induction fuel generalizing t with
  | zero =>
      exact h
  | succ fuel ih =>
      unfold evictWhile
      split_ifs
      · cases oldest order (peers t) with
        | none =>
            exact h
        | some url =>
            exact ih (hdrop url t h)
      · exact h

/-- The eviction loop ends within capacity. -/
theorem length_evictWhile_le
    (hdrop : ∀ url t, peers (drop url t) = (peers t).erase url)
    {fuel : Nat}
    {t : PeerTable}
    (h : (peers t).rows.length ≤ fuel) :
    (peers (evictWhile order peers max drop fuel t)).rows.length ≤ max := by
  induction fuel generalizing t with
  | zero =>
      exact h.trans (Nat.zero_le max)
  | succ fuel ih =>
      unfold evictWhile
      split_ifs with hover
      · have hne : (peers t).rows ≠ [] := fun hnil => by
          rw [hnil] at hover
          exact Nat.not_lt_zero max hover
        obtain ⟨url, p, hold, hfind⟩ := exists_oldest order hne
        have hlen := KeyedTable.length_erase_of_find? hfind
        rw [hold]
        apply ih
        rw [hdrop]
        omega
      · exact Nat.not_lt.1 hover

/-- Within capacity nothing is evicted. -/
theorem evictWhile_of_le
    {t : PeerTable}
    (h : (peers t).rows.length ≤ max)
    (fuel : Nat) :
    evictWhile order peers max drop fuel t = t := by
  cases fuel with
  | zero =>
      rfl
  | succ fuel =>
      rw [evictWhile, if_neg (Nat.not_lt.2 h)]

theorem evictUnverified_of_le
    {t : PeerTable}
    (h : t.unverified.rows.length ≤ t.config.maxUnverified) :
    evictUnverified order t = t :=
  evictWhile_of_le h _

theorem length_evictUnverified_le
    (order : HashOrder (String × PeerEntry))
    (t : PeerTable) :
    (evictUnverified order t).unverified.rows.length ≤ t.config.maxUnverified :=
  length_evictWhile_le (fun _ _ => rfl) le_rfl

theorem length_evictVerified_le
    (order : HashOrder (String × PeerEntry))
    (t : PeerTable) :
    (evictVerified order t).verified.rows.length ≤ t.config.maxVerified :=
  length_evictWhile_le (fun _ _ => rfl) le_rfl

theorem evictUnverified_keeps
    {P : PeerTable → Prop}
    (hdrop : ∀ url t, P t → P (dropUnverified url t))
    {t : PeerTable}
    (h : P t) :
    P (evictUnverified order t) :=
  evictWhile_keeps hdrop _ h

theorem evictVerified_keeps
    {P : PeerTable → Prop}
    (hdrop : ∀ url t, P t → P (dropVerified url t))
    {t : PeerTable}
    (h : P t) :
    P (evictVerified order t) :=
  evictWhile_keeps hdrop _ h

@[simp] theorem verified_evictUnverified
    (t : PeerTable) :
    (evictUnverified order t).verified = t.verified :=
  evictUnverified_keeps (P := fun t' => t'.verified = t.verified) (fun _ _ h => h) rfl

@[simp] theorem config_evictUnverified
    (t : PeerTable) :
    (evictUnverified order t).config = t.config :=
  evictUnverified_keeps (P := fun t' => t'.config = t.config) (fun _ _ h => h) rfl

@[simp] theorem unverified_evictVerified
    (t : PeerTable) :
    (evictVerified order t).unverified = t.unverified :=
  evictVerified_keeps (P := fun t' => t'.unverified = t.unverified) (fun _ _ h => h) rfl

@[simp] theorem config_evictVerified
    (t : PeerTable) :
    (evictVerified order t).config = t.config :=
  evictVerified_keeps (P := fun t' => t'.config = t.config) (fun _ _ h => h) rfl

end Eviction

@[simp] theorem length_update
    (peers : Peers)
    (url : String)
    (f : PeerEntry → PeerEntry) :
    (peers.update url f).rows.length = peers.rows.length :=
  KeyedTable.length_modify _ peers url

theorem config_announce
    (m : Moment)
    (peer : PeerInfo)
    (t : PeerTable) :
    (announce parse m peer t).2.config = t.config := by
  unfold announce
  dsimp only
  split_ifs <;> simp [upsertUnverified, assignSlot]

theorem config_markAlive
    (m : Moment)
    (url : String)
    (t : PeerTable) :
    (markAlive parse m url t).config = t.config := by
  unfold markAlive
  dsimp only
  split_ifs
  · rfl
  · cases t.unverified.find? (normalizeUrl parse url) with
    | none =>
        rfl
    | some p =>
        simp [dropUnverified, freeSlots]

theorem config_recordSyncFailure
    (m : Moment)
    (url : String)
    (t : PeerTable) :
    (recordSyncFailure parse m url t).config = t.config := by
  unfold recordSyncFailure
  dsimp only
  split_ifs
  · rfl
  · cases t.verified.find? (normalizeUrl parse url) with
    | none =>
        rfl
    | some p =>
        dsimp only
        split_ifs <;> rfl

/-- No operation changes the configuration. -/
@[simp] theorem config_runOp
    (t : PeerTable)
    (step : Moment × PeerOp) :
    (runOp parse t step).config = t.config := by
  obtain ⟨m, op⟩ := step
  cases op with
  | announce peer =>
      exact config_announce parse m peer t
  | markAlive url =>
      exact config_markAlive parse m url t
  | markSynced url =>
      exact config_markAlive parse m url t
  | ensureSeed url =>
      simp only [runOp, ensureSeed]
      split_ifs <;> simp
  | recordSyncFailure url =>
      exact config_recordSyncFailure parse m url t
  | _ =>
      rfl

/-- Both maps are within capacity. -/
def Bounded (t : PeerTable) : Prop :=
  t.unverified.rows.length ≤ t.config.maxUnverified ∧
    t.verified.rows.length ≤ t.config.maxVerified

/-- A demotion finds room: a failure that demotes, one free place; an expiry, a free
place for each expired entry that is not in `unverified` already. -/
def HasRoom (t : PeerTable) (step : Moment × PeerOp) : Prop :=
  match step.2 with
  | .recordSyncFailure url =>
      t.unverified.find? (normalizeUrl parse url) = none →
        (t.verified.find? (normalizeUrl parse url)).any
            (fun p => syncFailuresBeforeDemote ≤ p.2.syncFailures + 1) →
          t.unverified.rows.length < t.config.maxUnverified
  | .demoteExpired =>
      t.unverified.rows.length +
          (t.verified.rows.filter (fun p =>
            !t.fresh step.1.now p.2 && (t.unverified.find? p.1).isNone)).length ≤
        t.config.maxUnverified
  | _ => True

/-- A promotion evicts. -/
theorem length_verified_markAlive_le
    {t : PeerTable}
    (h : t.verified.rows.length ≤ t.config.maxVerified)
    (m : Moment)
    (url : String) :
    (markAlive parse m url t).verified.rows.length ≤ t.config.maxVerified := by
  unfold markAlive
  dsimp only
  split_ifs
  · simpa using h
  · cases t.unverified.find? (normalizeUrl parse url) with
    | none =>
        exact h
    | some p =>
        exact length_evictVerified_le m.order _

/-- A failure only takes entries out of the verified map. -/
theorem length_verified_recordSyncFailure_le
    {t : PeerTable}
    (h : t.verified.rows.length ≤ t.config.maxVerified)
    (m : Moment)
    (url : String) :
    (recordSyncFailure parse m url t).verified.rows.length ≤ t.config.maxVerified := by
  unfold recordSyncFailure
  dsimp only
  split_ifs
  · exact h
  · cases t.verified.find? (normalizeUrl parse url) with
    | none =>
        exact h
    | some p =>
        dsimp only
        split_ifs
        · exact (t.verified.length_erase_le _).trans h
        · simpa using h

/-- **The verified map never exceeds its capacity.** -/
theorem verified_le_max
    {t : PeerTable}
    (h : t.verified.rows.length ≤ t.config.maxVerified)
    (step : Moment × PeerOp) :
    (runOp parse t step).verified.rows.length ≤ t.config.maxVerified := by
  obtain ⟨m, op⟩ := step
  cases op with
  | setSelfUrl url =>
      exact h
  | announce peer =>
      simp only [runOp, announce]
      split_ifs <;> simpa [upsertUnverified, assignSlot] using h
  | markAlive url =>
      exact length_verified_markAlive_le parse h m url
  | markSynced url =>
      simpa [runOp, markSynced] using length_verified_markAlive_le parse h m url
  | remove url =>
      exact (t.verified.length_erase_le _).trans h
  | ensureSeed url =>
      simp only [runOp, ensureSeed]
      split_ifs <;> simpa using h
  | recordSyncFailure url =>
      exact length_verified_recordSyncFailure_le parse h m url
  | expireUnverified =>
      exact h
  | demoteExpired =>
      exact (t.verified.length_filter_le _).trans h

/-- The size of `unverified` after expired entries were moved into it. -/
theorem length_unverified_demoteExpired
    (m : Moment)
    (t : PeerTable) :
    (demoteExpired m t).unverified.rows.length =
      t.unverified.rows.length +
        (t.verified.rows.filter (fun p =>
          !t.fresh m.now p.2 && (t.unverified.find? p.1).isNone)).length := by
  have hperm := m.order.perm t.verified.rows
  simp only [demoteExpired]
  rw [KeyedTable.length_foldl_insertOrIgnore, List.filter_map, List.length_map,
    List.filter_filter]
  · rw [((hperm.filter _).length_eq)]
    congr 3
    funext p
    simp [Bool.and_comm]
  · rw [List.map_map]
    have hkeys : (t.verified.rows.map Prod.fst).Nodup := t.verified.nodup
    exact ((List.filter_sublist.map _).nodup ((hperm.map _).nodup_iff.2 hkeys))

/-- A promotion only takes entries out of `unverified`. -/
theorem length_unverified_markAlive_le
    {t : PeerTable}
    (h : t.unverified.rows.length ≤ t.config.maxUnverified)
    (m : Moment)
    (url : String) :
    (markAlive parse m url t).unverified.rows.length ≤ t.config.maxUnverified := by
  unfold markAlive
  dsimp only
  split_ifs
  · exact h
  · cases t.unverified.find? (normalizeUrl parse url) with
    | none =>
        exact h
    | some p =>
        dsimp only
        rw [unverified_evictVerified]
        exact (t.unverified.length_erase_le _).trans h

/-- A failure keeps `unverified` within capacity exactly if there is a place for the entry
that it demotes. -/
theorem length_unverified_recordSyncFailure_le_iff
    {t : PeerTable}
    (h : t.unverified.rows.length ≤ t.config.maxUnverified)
    (m : Moment)
    (url : String) :
    (recordSyncFailure parse m url t).unverified.rows.length ≤ t.config.maxUnverified ↔
      HasRoom parse t (m, .recordSyncFailure url) := by
  simp only [recordSyncFailure, HasRoom]
  cases hun : t.unverified.find? (normalizeUrl parse url) with
  | some p =>
      simpa using h
  | none =>
      cases hver : t.verified.find? (normalizeUrl parse url) with
      | none =>
          simpa using h
      | some p =>
          by_cases hdemote : syncFailuresBeforeDemote ≤ p.2.syncFailures + 1
          · have hlen : ∀ e, (t.unverified.insertOrReplace
                (normalizeUrl parse url, e)).rows.length = t.unverified.rows.length + 1 :=
              fun e => KeyedTable.length_insertOrReplace_of_none hun
            simp only [Option.isSome_none, Bool.false_eq_true, if_false, hdemote, if_true, hlen,
              Option.any_some, decide_true, forall_const]
            exact Nat.succ_le_iff
          · simpa [hdemote] using h

/-- One operation keeps `unverified` within capacity exactly if it finds room. -/
theorem unverified_le_iff
    {t : PeerTable}
    (h : t.unverified.rows.length ≤ t.config.maxUnverified)
    (step : Moment × PeerOp) :
    (runOp parse t step).unverified.rows.length ≤ t.config.maxUnverified ↔
      HasRoom parse t step := by
  obtain ⟨m, op⟩ := step
  have hevict : ∀ t' : PeerTable, t'.config = t.config →
      (evictUnverified m.order t').unverified.rows.length ≤ t.config.maxUnverified :=
    fun t' hconfig => hconfig ▸ length_evictUnverified_le m.order t'
  cases op with
  | setSelfUrl url =>
      exact iff_of_true h trivial
  | announce peer =>
      refine iff_of_true ?_ trivial
      simp only [runOp, announce]
      split_ifs
      · exact h
      · exact h
      · exact h
      · exact hevict _ rfl
      · exact hevict _ rfl
  | markAlive url =>
      exact iff_of_true (length_unverified_markAlive_le parse h m url) trivial
  | markSynced url =>
      exact iff_of_true (length_unverified_markAlive_le parse h m url) trivial
  | remove url =>
      exact iff_of_true ((t.unverified.length_erase_le _).trans h) trivial
  | ensureSeed url =>
      refine iff_of_true ?_ trivial
      simp only [runOp, ensureSeed]
      split_ifs
      · exact h
      · exact hevict _ rfl
  | recordSyncFailure url =>
      exact length_unverified_recordSyncFailure_le_iff parse h m url
  | expireUnverified =>
      exact iff_of_true ((t.unverified.length_filter_le _).trans h) trivial
  | demoteExpired =>
      rw [HasRoom, ← length_unverified_demoteExpired m t]
      rfl

/-- **Both maps stay within capacity throughout a run exactly if each demotion finds
room.** -/
theorem bounded_iff
    (config : PeerConfig)
    (ops : List (Moment × PeerOp)) :
    (∀ i, Bounded ((ops.take i).foldl (runOp parse) (new config))) ↔
      Runs.StepsMeet (runOp parse) (HasRoom parse) (new config) ops := by
  apply Runs.good_iff (I := Bounded)
  · exact fun _ h => h
  · rintro t step ⟨hun, _⟩ ⟨hun', _⟩
    rw [config_runOp] at hun'
    exact (unverified_le_iff parse hun step).1 hun'
  · rintro t step ⟨hun, hver⟩ hroom
    unfold Bounded
    rw [config_runOp]
    exact ⟨(unverified_le_iff parse hun step).2 hroom, verified_le_max parse hver step⟩
  · exact ⟨Nat.zero_le _, Nat.zero_le _⟩

/-- A table of one place each, at the start of the clock. -/
def tinyConfig : PeerConfig := ⟨1, 1, 600, 3600⟩

def clockStart : Moment := ⟨0, HashOrder.inserted⟩

/-- One peer is verified and another announced; the first fails to sync three times. -/
def failingPeer : List (Moment × PeerOp) :=
  [(clockStart, .announce ⟨.v4 1, "http://a", 0⟩), (clockStart, .markAlive "http://a"),
    (clockStart, .announce ⟨.v4 2, "http://b", 0⟩), (clockStart, .recordSyncFailure "http://a"),
    (clockStart, .recordSyncFailure "http://a"), (clockStart, .recordSyncFailure "http://a")]

/-- The demoted peer is put beside the announced one. -/
theorem demotion_exceeds_max :
    ¬ ∀ (parse : UrlParse) (config : PeerConfig) (ops : List (Moment × PeerOp)) (i : ℕ),
      Bounded ((ops.take i).foldl (runOp parse) (new config)) := by
  intro h
  have hlast := (h some tinyConfig failingPeer 6).1
  exact absurd hlast (by decide)

end PeerTable
end CertRelay
