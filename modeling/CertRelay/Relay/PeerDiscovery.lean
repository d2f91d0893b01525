import CertRelay.Lib.Lease
import CertRelay.Relay.AddressPolicy
import CertRelay.Relay.HealthChecks
import CertRelay.Relay.PeerDisjoint

/-!
# Peer discovery

A relay hears of peers from announcements, from the lists of others, and from its seeds.
None of these puts a URL on its own list: that takes a check or a pull which the peer
answers.  From then on the URL stays listed for a lifetime after it was last heard of, and
announcements count as hearing of it, whoever sends them.

**Results.**
* `step_eq_ops`: what happens is a run of operations on the peer table;
* `follows_runOp`: the verified entry of a URL follows the lease of that URL;
* `listed_was_reached`: a listed URL was introduced, then reached, and heard of ever since.
-/

namespace CertRelay
namespace PeerDiscovery

open AddressPolicy PeerTable

section Events

/-- `resolver::Announcement`. -/
structure Announcement where
  url : String
  capabilities : UInt32

/-- A response to `GET /peers`. -/
structure PeersResponse where
  contentLength : Option ℕ
  body : Except String Bytes

/-- What the relay takes from elsewhere, and its settings. -/
structure Env where
  parse : UrlParse
  parseUrl : UrlParser
  readAnnouncement : Bytes → Option Announcement
  readPeers : Bytes → Except String (List PeerInfo)
  allowPrivatePeers : Bool
  seeds : List String

/-- The caps on what is read of the list of a peer, which is not trusted. -/
def maxPeersResponseSize : ℕ := 64 * 1024

def maxPeersPerResponse : ℕ := 256

variable (env : Env)

/-- A URL that may enter the table; its length is in bytes. -/
def Env.admits (url : String) : Bool :=
  decide (url.utf8ByteSize ≤ 256) &&
    (validatePeerUrl env.parseUrl url env.allowPrivatePeers).isOk

/-- The announcement of a request that passes all checks on the way to the table. -/
def readAnnounce (limited : Bool) (ip : IpAddr) (body : Bytes) :
    Except (ℕ × String) PeerInfo :=
  if limited then .error (429, "rate limited")
  else
    match env.readAnnouncement body with
    | none => .error (400, "invalid announcement format")
    | some announcement =>
        if announcement.url = "" ∨ 256 < announcement.url.utf8ByteSize then
          .error (400, "invalid url")
        else
          match validatePeerUrl env.parseUrl announcement.url env.allowPrivatePeers with
          | .error reason => .error (400, reason)
          | .ok _ => .ok ⟨ip, announcement.url, announcement.capabilities⟩

/-- `handle_announce`. -/
def handleAnnounce (limited : Bool) (ip : IpAddr) (body : Bytes) (m : Moment) (t : PeerTable) :
    (ℕ × String) × PeerTable :=
  match readAnnounce env limited ip body with
  | .error response => (response, t)
  | .ok peer => ((200, "ok"), (announce env.parse m peer t).2)

/-- What is kept of the list of a peer; the addresses it claims are not. -/
def discovered (peers : List PeerInfo) : List PeerInfo :=
  ((peers.take maxPeersPerResponse).filter (fun p => env.admits p.url)).map
    (fun p => { p with sourceIp := .v4 0 })

/-- The list of a response, if it is read. -/
def readResponse (response : PeersResponse) : Except String (List PeerInfo) :=
  match response.contentLength.filter (fun len => decide (maxPeersResponseSize < len)) with
  | some len => .error ("peers response too large: " ++ toString len ++ " bytes")
  | none =>
      response.body.bind fun body =>
        if maxPeersResponseSize < body.length then
          .error ("peers response too large: " ++ toString body.length ++ " bytes")
        else (env.readPeers body).map (discovered env)

/-- `bootstrap_from`: the list of a peer is announced, entry by entry, at instants of its own.
The client may be refused, and the request may fail. -/
def bootstrapFrom (client : Except String PeerClient) (response : Except String PeersResponse)
    (clock : ℕ → Moment) (t : PeerTable) : Except String (List PeerInfo) × PeerTable :=
  match client.bind (fun _ => response.bind (readResponse env)) with
  | .error e => (.error e, t)
  | .ok peers =>
      (.ok peers,
        peers.zipIdx.foldl (fun t p => (announce env.parse (clock p.2) p.1 t).2) t)

/-- What happens to the table of a relay: announcements, lists of others, the upkeep of
ticks, and the ends of checks and of pulls.  Checks and pulls may end at any time. -/
inductive Event
  | announced (m : Moment) (limited : Bool) (ip : IpAddr) (body : Bytes)
  | bootstrapped (clock : ℕ → Moment) (client : Except String PeerClient)
      (response : Except String PeersResponse)
  | ticked (clock : TickClock)
  | checked (m : Moment) (url : String) (result : CheckResult)
  | synced (m : Moment) (url : String)
  | syncFailed (m : Moment) (url : String)

/-- The table after an event. -/
def step (t : PeerTable) : Event → PeerTable
  | .announced m limited ip body => (handleAnnounce env limited ip body m t).2
  | .bootstrapped clock client response => (bootstrapFrom env client response clock t).2
  | .ticked clock => upkeep env.parse env.seeds clock t
  | .checked m url result => finishCheck env.parse m url t result
  | .synced m url => markSynced env.parse m url t
  | .syncFailed m url => recordSyncFailure env.parse m url t

/-- The operations of an event. -/
def ops : Event → List (Moment × PeerOp)
  | .announced m limited ip body =>
      match readAnnounce env limited ip body with
      | .error _ => []
      | .ok peer => [(m, .announce peer)]
  | .bootstrapped clock client response =>
      match client.bind (fun _ => response.bind (readResponse env)) with
      | .error _ => []
      | .ok peers => peers.zipIdx.map (fun p => (clock p.2, .announce p.1))
  | .ticked clock =>
      env.seeds.map (fun seed => (clock.seed, .ensureSeed seed)) ++
        [(clock.demote, .demoteExpired), (clock.expire, .expireUnverified)]
  | .checked m url .refused => [(m, .remove url)]
  | .checked m url .alive => [(m, .markAlive url)]
  | .checked _ _ .failed => []
  | .synced m url => [(m, .markSynced url)]
  | .syncFailed m url => [(m, .recordSyncFailure url)]

/-- The operations of a run. -/
def allOps (events : List Event) : List (Moment × PeerOp) :=
  events.flatMap (ops env)

/-- A relay that starts, with its own URL or without. -/
def starting (config : PeerConfig) (selfUrl : Option String) : PeerTable :=
  match selfUrl with
  | some url => setSelfUrl env.parse url (new config)
  | none => new config

/-- **What happens is a run of operations.** -/
theorem step_eq_ops
    (t : PeerTable)
    (event : Event) :
    step env t event = (ops env event).foldl (runOp env.parse) t := by
  cases event with
  | announced m limited ip body =>
      show (handleAnnounce env limited ip body m t).2 = _
      unfold handleAnnounce ops
      dsimp only
      cases readAnnounce env limited ip body <;> rfl
  | bootstrapped clock client response =>
      show (bootstrapFrom env client response clock t).2 = _
      unfold bootstrapFrom ops
      dsimp only
      cases client.bind (fun _ => response.bind (readResponse env)) with
      | error e =>
          rfl
      | ok peers =>
          dsimp only
          rw [List.foldl_map]
          rfl
  | ticked clock =>
      show upkeep env.parse env.seeds clock t = _
      unfold ops
      dsimp only
      rw [List.foldl_append, List.foldl_map]
      rfl
  | checked m url result =>
      cases result <;> rfl
  | synced m url =>
      rfl
  | syncFailed m url =>
      rfl

theorem run_eq_ops
    (t : PeerTable)
    (events : List Event) :
    events.foldl (step env) t = (allOps env events).foldl (runOp env.parse) t := by
  unfold allOps
  induction events generalizing t with
  | nil =>
      rfl
  | cons event events ih =>
      rw [List.foldl_cons, List.flatMap_cons, List.foldl_append, ih, step_eq_ops]

end Events

section Leases

variable (parse : UrlParse) (ttl : ℕ) (url : String)

/-- What an operation says of the lease of a URL. -/
def signalOf : Moment × PeerOp → Option Lease.Signal
  | (m, .announce peer) =>
      if normalizeUrl parse peer.url = url then some (.renew m.now) else none
  | (m, .markAlive raw) => if normalizeUrl parse raw = url then some (.grant m.now) else none
  | (m, .markSynced raw) => if normalizeUrl parse raw = url then some (.grant m.now) else none
  | (m, .remove raw) => if normalizeUrl parse raw = url then some (.revoke m.now) else none
  | _ => none

/-- When the URL was last heard of, after an operation. -/
def hear (heard : Option ℕ) (op : Moment × PeerOp) : Option ℕ :=
  match signalOf parse url op with
  | some s => Lease.next ttl heard s
  | none => heard

/-- The verified entry of the URL follows its lease. -/
structure Follows (heard : Option ℕ) (t : PeerTable) : Prop where
  lifetime : t.config.verifiedTtl = ttl
  notSelf : t.isSelf url = false
  heard_eq : ∀ p, t.verified.find? url = some p → heard = some p.2.lastSeen

variable {parse ttl url} {t : PeerTable} {heard : Option ℕ}

theorem selfUrl_evictUnverified
    {order : HashOrder (String × PeerEntry)}
    (t : PeerTable) :
    (evictUnverified order t).selfUrl = t.selfUrl :=
  evictUnverified_keeps (P := fun t' => t'.selfUrl = t.selfUrl) (fun _ _ h => h) rfl

theorem selfUrl_markAlive
    (m : Moment)
    (raw : String)
    (t : PeerTable) :
    (markAlive parse m raw t).selfUrl = t.selfUrl := by
  unfold markAlive
  dsimp only
  split_ifs
  · rfl
  · cases t.unverified.find? (normalizeUrl parse raw) with
    | none =>
        rfl
    | some p =>
        exact evictVerified_keeps (P := fun t' => t'.selfUrl = t.selfUrl) (fun _ _ h => h) rfl

/-- Only a call for it changes the relay's own URL. -/
theorem selfUrl_runOp
    (t : PeerTable)
    {op : Moment × PeerOp}
    (hop : ∀ raw, op.2 ≠ .setSelfUrl raw) :
    (runOp parse t op).selfUrl = t.selfUrl := by
  obtain ⟨m, op⟩ := op
  cases op with
  | setSelfUrl raw =>
      exact absurd rfl (hop raw)
  | announce peer =>
      show (announce parse m peer t).2.selfUrl = t.selfUrl
      unfold announce
      dsimp only
      split_ifs
      · rfl
      · rfl
      · rfl
      · rw [selfUrl_evictUnverified]
        rfl
      · rw [selfUrl_evictUnverified]
        rfl
  | markAlive raw | markSynced raw =>
      exact selfUrl_markAlive m raw t
  | ensureSeed raw =>
      show (ensureSeed parse m raw t).selfUrl = t.selfUrl
      unfold ensureSeed
      dsimp only
      split_ifs
      · rfl
      · rw [selfUrl_evictUnverified]
  | recordSyncFailure raw =>
      show (recordSyncFailure parse m raw t).selfUrl = t.selfUrl
      unfold recordSyncFailure
      dsimp only
      split_ifs
      · rfl
      · cases t.verified.find? (normalizeUrl parse raw) with
        | none =>
            rfl
        | some p =>
            dsimp only
            split_ifs <;> rfl
  | remove raw | expireUnverified | demoteExpired =>
      rfl

theorem find?_update
    (peers : Peers)
    (raw : String)
    (f : PeerEntry → PeerEntry) :
    (peers.update raw f).find? url =
      (peers.find? url).map (fun p => if url = raw then (p.1, f p.2) else p) := by
  unfold Peers.update
  rw [KeyedTable.find?_modify]

/-- An operation that says nothing of the lease keeps what there is. -/
theorem Follows.kept
    (h : Follows ttl url heard t)
    {t' : PeerTable}
    (hverified : ∀ p', t'.verified.find? url = some p' →
      ∃ p, t.verified.find? url = some p ∧ p'.2.lastSeen = p.2.lastSeen)
    {p' : String × PeerEntry}
    (hp' : t'.verified.find? url = some p') :
    heard = some p'.2.lastSeen := by
  obtain ⟨p, hp, hsame⟩ := hverified p' hp'
  rw [hsame]
  exact h.heard_eq p hp

/-- An announcement renews the lease while it lasts. -/
theorem Follows.announce
    (h : Follows ttl url heard t)
    (m : Moment)
    (peer : PeerInfo)
    {p' : String × PeerEntry}
    (hp' : (announce parse m peer t).2.verified.find? url = some p') :
    hear parse ttl url heard (m, .announce peer) = some p'.2.lastSeen := by
  unfold hear signalOf
  unfold PeerTable.announce at hp'
  dsimp only at hp' ⊢
  by_cases hurl : normalizeUrl parse peer.url = url
  · subst hurl
    rw [if_pos rfl]
    rw [h.notSelf, if_neg Bool.false_ne_true] at hp'
    -- an entry that is not fresh stays as it is, and the lease is over
    have hstale : ¬ (t.verified.find? (normalizeUrl parse peer.url)).any
        (fun p => t.fresh m.now p.2) = true →
        t.verified.find? (normalizeUrl parse peer.url) = some p' →
        Lease.next ttl heard (.renew m.now) = some p'.2.lastSeen := by
      intro hnot hp
      rw [hp, Option.any_some] at hnot
      unfold fresh at hnot
      rw [decide_eq_true_iff, h.lifetime] at hnot
      rw [h.heard_eq p' hp]
      exact congrArg some (if_neg hnot)
    split_ifs at hp' with hfresh hunspecified hfull
    · rw [find?_update] at hp'
      obtain ⟨p, hp, rfl⟩ := Option.map_eq_some_iff.1 hp'
      rw [if_pos rfl]
      rw [hp, Option.any_some] at hfresh
      unfold fresh at hfresh
      rw [decide_eq_true_iff, h.lifetime] at hfresh
      rw [h.heard_eq p hp]
      exact congrArg some (if_pos hfresh)
    · exact hstale hfresh hp'
    · rw [verified_evictUnverified] at hp'
      exact hstale hfresh hp'
    · rw [verified_evictUnverified] at hp'
      exact hstale hfresh hp'
  · rw [if_neg hurl]
    refine h.kept (fun p' hp' => ?_) hp'
    split_ifs at hp' with hself hfresh hunspecified hfull
    · exact ⟨p', hp', rfl⟩
    · rw [find?_update] at hp'
      obtain ⟨p, hp, rfl⟩ := Option.map_eq_some_iff.1 hp'
      rw [if_neg (Ne.symm hurl)]
      exact ⟨p, hp, rfl⟩
    · exact ⟨p', hp', rfl⟩
    · rw [verified_evictUnverified] at hp'
      exact ⟨p', hp', rfl⟩
    · rw [verified_evictUnverified] at hp'
      exact ⟨p', hp', rfl⟩

/-- A peer that answers is heard of, whichever map it was in. -/
theorem Follows.markAlive
    (h : Follows ttl url heard t)
    (m : Moment)
    (raw : String)
    {p' : String × PeerEntry}
    (hp' : (markAlive parse m raw t).verified.find? url = some p') :
    hear parse ttl url heard (m, .markAlive raw) = some p'.2.lastSeen := by
  unfold hear signalOf
  unfold PeerTable.markAlive at hp'
  dsimp only at hp' ⊢
  by_cases hurl : normalizeUrl parse raw = url
  · subst hurl
    rw [if_pos rfl]
    split_ifs at hp' with hknown
    · rw [find?_update] at hp'
      obtain ⟨p, hp, rfl⟩ := Option.map_eq_some_iff.1 hp'
      rw [if_pos rfl]
      rfl
    · rw [KeyedTable.isSome_find?] at hknown
      cases hun : t.unverified.find? (normalizeUrl parse raw) with
      | none =>
          rw [hun] at hp'
          exact absurd (KeyedTable.has_of_find? hp') hknown
      | some q =>
          rw [hun] at hp'
          have hfind := find?_evictVerified hp'
          rw [KeyedTable.find?_insertOrReplace_self] at hfind
          cases hfind
          rfl
  · rw [if_neg hurl]
    refine h.kept (fun p' hp' => ?_) hp'
    split_ifs at hp' with hknown
    · rw [find?_update] at hp'
      obtain ⟨p, hp, rfl⟩ := Option.map_eq_some_iff.1 hp'
      rw [if_neg (Ne.symm hurl)]
      exact ⟨p, hp, rfl⟩
    · cases hun : t.unverified.find? (normalizeUrl parse raw) with
      | none =>
          rw [hun] at hp'
          exact ⟨p', hp', rfl⟩
      | some q =>
          rw [hun] at hp'
          have hfind := find?_evictVerified hp'
          dsimp only at hfind
          rw [KeyedTable.find?_insertOrReplace_ne] at hfind
          · exact ⟨p', hfind, rfl⟩
          · exact hurl

/-- A failed pull is not heard of. -/
theorem lastSeen_recordSyncFailure
    (m : Moment)
    (raw : String)
    {p' : String × PeerEntry}
    (hp' : (recordSyncFailure parse m raw t).verified.find? url = some p') :
    ∃ p, t.verified.find? url = some p ∧ p'.2.lastSeen = p.2.lastSeen := by
  unfold PeerTable.recordSyncFailure at hp'
  dsimp only at hp'
  split_ifs at hp' with hun
  · exact ⟨p', hp', rfl⟩
  · cases hver : t.verified.find? (normalizeUrl parse raw) with
    | none =>
        rw [hver] at hp'
        exact ⟨p', hp', rfl⟩
    | some q =>
        rw [hver] at hp'
        dsimp only at hp'
        split_ifs at hp' with hdemote
        · rw [KeyedTable.find?_eq_some_iff] at hp'
          exact ⟨p', KeyedTable.find?_eq_some_iff.2 ⟨(KeyedTable.mem_erase.1 hp'.1).1, hp'.2⟩,
            rfl⟩
        · rw [find?_update] at hp'
          obtain ⟨p, hp, rfl⟩ := Option.map_eq_some_iff.1 hp'
          refine ⟨p, hp, ?_⟩
          split_ifs <;> rfl

/-- **The verified entry of a URL follows the lease of that URL.** -/
theorem follows_runOp
    (h : Follows ttl url heard t)
    {op : Moment × PeerOp}
    (hop : ∀ raw, op.2 ≠ .setSelfUrl raw) :
    Follows ttl url (hear parse ttl url heard op) (runOp parse t op) := by
  refine ⟨(congrArg PeerConfig.verifiedTtl (config_runOp parse t op)).trans h.lifetime, ?_, ?_⟩
  · have hself := h.notSelf
    unfold isSelf at hself ⊢
    rw [selfUrl_runOp t hop]
    exact hself
  · intro p' hp'
    obtain ⟨m, op⟩ := op
    cases op with
    | setSelfUrl raw =>
        exact absurd rfl (hop raw)
    | announce peer =>
        exact h.announce m peer hp'
    | markAlive raw =>
        exact h.markAlive m raw hp'
    | markSynced raw =>
        have hfind : ((PeerTable.markAlive parse m raw t).verified.update
            (normalizeUrl parse raw) (fun e => { e with syncFailures := 0 })).find? url =
              some p' := hp'
        rw [find?_update] at hfind
        obtain ⟨p, hp, rfl⟩ := Option.map_eq_some_iff.1 hfind
        have halive := h.markAlive m raw hp
        split_ifs <;> exact halive
    | remove raw =>
        have hfind := KeyedTable.find?_eq_some_iff.1 hp'
        obtain ⟨hmem, hne⟩ := KeyedTable.mem_erase.1 hfind.1
        have hurl : ¬ normalizeUrl parse raw = url := fun he => hne (hfind.2.trans he.symm)
        unfold hear signalOf
        dsimp only
        rw [if_neg hurl]
        exact h.heard_eq p' (KeyedTable.find?_eq_some_iff.2 ⟨hmem, hfind.2⟩)
    | ensureSeed raw =>
        refine h.kept (fun p' hp' => ⟨p', ?_, rfl⟩) hp'
        have hsame : (PeerTable.ensureSeed parse m raw t).verified = t.verified := by
          unfold PeerTable.ensureSeed
          dsimp only
          split_ifs
          · rfl
          · exact verified_evictUnverified _
        exact hsame ▸ hp'
    | recordSyncFailure raw =>
        exact h.kept (fun p' hp' => lastSeen_recordSyncFailure m raw hp') hp'
    | expireUnverified =>
        exact h.heard_eq p' hp'
    | demoteExpired =>
        refine h.kept (fun p' hp' => ⟨p', ?_, rfl⟩) hp'
        rw [KeyedTable.find?_eq_some_iff] at hp' ⊢
        exact ⟨(KeyedTable.mem_filter.1 hp'.1).1, hp'.2⟩

/-- An operation puts the URL into the table. -/
def Enters (parse : UrlParse) (url : String) : Moment × PeerOp → Prop
  | (_, .announce peer) => normalizeUrl parse peer.url = url
  | (_, .ensureSeed raw) => normalizeUrl parse raw = url
  | _ => False

/-- The table knows the URL. -/
def Known (url : String) (t : PeerTable) : Prop :=
  t.unverified.Has url ∨ t.verified.Has url

/-- The operation says that the peer has answered. -/
def Answers (parse : UrlParse) (url : String) (op : Moment × PeerOp) : Prop :=
  ∃ time, signalOf parse url op = some (.grant time)

theorem has_of_find?_of_find?
    {peers peers' : Peers}
    (h : ∀ p', peers'.find? url = some p' → ∃ p, peers.find? url = some p)
    (hhas : peers'.Has url) :
    peers.Has url := by
  obtain ⟨p', hp'⟩ := Option.isSome_iff_exists.1 (KeyedTable.isSome_find?.2 hhas)
  obtain ⟨p, hp⟩ := h p' hp'
  exact KeyedTable.has_of_find? hp

theorem verified_markAlive
    {m : Moment}
    {raw : String}
    (h : (markAlive parse m raw t).verified.Has url) :
    t.verified.Has url ∨ (t.unverified.Has url ∧ normalizeUrl parse raw = url) := by
  unfold markAlive at h
  dsimp only at h
  split_ifs at h with hknown
  · exact Or.inl (has_update.1 h)
  · cases hun : t.unverified.find? (normalizeUrl parse raw) with
    | none =>
        rw [hun] at h
        exact Or.inl h
    | some q =>
        rw [hun] at h
        have hinserted := has_of_find?_of_find? (fun p' hp' => ⟨p', find?_evictVerified hp'⟩) h
        rcases KeyedTable.has_insertOrReplace.1 hinserted with hold | hnew
        · exact Or.inl hold
        · exact Or.inr ⟨hnew ▸ KeyedTable.has_of_find? hun, hnew.symm⟩

/-- Only an answer verifies a URL, and the table has to know it. -/
theorem verified_runOp
    {op : Moment × PeerOp}
    (h : (runOp parse t op).verified.Has url) :
    t.verified.Has url ∨ (t.unverified.Has url ∧ Answers parse url op) := by
  obtain ⟨m, op⟩ := op
  cases op with
  | announce peer =>
      left
      have hupdated : (PeerTable.announce parse m peer t).2.verified.Has url := h
      unfold PeerTable.announce at hupdated
      dsimp only at hupdated
      split_ifs at hupdated
      · exact hupdated
      · exact has_update.1 hupdated
      · exact hupdated
      · rwa [verified_evictUnverified] at hupdated
      · rwa [verified_evictUnverified] at hupdated
  | markAlive raw =>
      refine (verified_markAlive h).imp_right fun hboth => ⟨hboth.1, m.now, if_pos hboth.2⟩
  | markSynced raw =>
      refine (verified_markAlive (m := m) (has_update.1 h)).imp_right fun hboth => ?_
      exact ⟨hboth.1, m.now, if_pos hboth.2⟩
  | remove raw =>
      exact Or.inl (KeyedTable.has_erase.1 h).1
  | ensureSeed raw =>
      left
      have hkept : (PeerTable.ensureSeed parse m raw t).verified.Has url := h
      unfold PeerTable.ensureSeed at hkept
      dsimp only at hkept
      split_ifs at hkept
      · exact hkept
      · rwa [verified_evictUnverified] at hkept
  | recordSyncFailure raw =>
      left
      refine has_of_find?_of_find? (fun p' hp' => ?_) h
      obtain ⟨p, hp, _⟩ := lastSeen_recordSyncFailure m raw hp'
      exact ⟨p, hp⟩
  | demoteExpired =>
      exact Or.inl (KeyedTable.Has.of_filter h)
  | setSelfUrl raw | expireUnverified =>
      exact Or.inl h

theorem unverified_announce
    {m : Moment}
    {peer : PeerInfo}
    (h : (announce parse m peer t).2.unverified.Has url) :
    t.unverified.Has url ∨ normalizeUrl parse peer.url = url := by
  unfold announce at h
  dsimp only at h
  split_ifs at h
  · exact Or.inl h
  · exact Or.inl h
  · exact Or.inl h
  · exact ((KeyedTable.has_upsert _).1 (has_unverified_evictUnverified h)).imp_right Eq.symm
  · exact ((KeyedTable.has_upsert _).1 (has_unverified_evictUnverified h)).imp
      has_unverified_assignSlot Eq.symm

theorem unverified_markAlive
    {m : Moment}
    {raw : String}
    (h : (markAlive parse m raw t).unverified.Has url) :
    t.unverified.Has url := by
  unfold markAlive at h
  dsimp only at h
  split_ifs at h
  · exact h
  · cases hun : t.unverified.find? (normalizeUrl parse raw) with
    | none =>
        rw [hun] at h
        exact h
    | some q =>
        rw [hun] at h
        dsimp only at h
        rw [unverified_evictVerified] at h
        exact (KeyedTable.has_erase.1 h).1

theorem known_recordSyncFailure
    {m : Moment}
    {raw : String}
    (h : (recordSyncFailure parse m raw t).unverified.Has url) :
    Known url t := by
  unfold recordSyncFailure at h
  dsimp only at h
  split_ifs at h
  · exact Or.inl (has_update.1 h)
  · cases hver : t.verified.find? (normalizeUrl parse raw) with
    | none =>
        rw [hver] at h
        exact Or.inl h
    | some q =>
        rw [hver] at h
        dsimp only at h
        split_ifs at h
        · rcases KeyedTable.has_insertOrReplace.1 h with hold | hnew
          · exact Or.inl hold
          · exact Or.inr (hnew ▸ KeyedTable.has_of_find? hver)
        · exact Or.inl h

/-- Only announcements and seeds bring in URLs. -/
theorem known_runOp
    {op : Moment × PeerOp}
    (h : Known url (runOp parse t op)) :
    Known url t ∨ Enters parse url op := by
  rcases h with hun | hver
  · obtain ⟨m, op⟩ := op
    cases op with
    | setSelfUrl raw =>
        exact Or.inl (Or.inl hun)
    | announce peer =>
        exact (unverified_announce hun).imp_left Or.inl
    | markAlive raw | markSynced raw =>
        exact Or.inl (Or.inl (unverified_markAlive (m := m) hun))
    | remove raw =>
        exact Or.inl (Or.inl (KeyedTable.has_erase.1 hun).1)
    | ensureSeed raw =>
        have hkept : (PeerTable.ensureSeed parse m raw t).unverified.Has url := hun
        unfold PeerTable.ensureSeed at hkept
        dsimp only at hkept
        split_ifs at hkept
        · exact Or.inl (Or.inl hkept)
        · exact (KeyedTable.has_insertOrIgnore.1 (has_unverified_evictUnverified hkept)).imp
            Or.inl Eq.symm
    | recordSyncFailure raw =>
        exact Or.inl (known_recordSyncFailure hun)
    | expireUnverified =>
        exact Or.inl (Or.inl (KeyedTable.Has.of_filter hun))
    | demoteExpired =>
        exact Or.inl ((has_unverified_demoteExpired.1 hun).imp_right Stale.has)
  · rcases verified_runOp hver with hold | ⟨hwaiting, _⟩
    · exact Or.inl (Or.inr hold)
    · exact Or.inl (Or.inl hwaiting)

end Leases

section Runs

variable (env : Env) (url : String)

/-- A peer with this URL has answered a check or a pull. -/
def Reached (start : ℕ) (event : Event) : Prop :=
  ∃ m raw, (event = .checked m raw .alive ∨ event = .synced m raw) ∧
    normalizeUrl env.parse raw = url ∧ m.now = start

/-- An event brings in the URL: it is announced, by the peer or in the list of another one,
in a form that the address policy admits; or it is a seed. -/
def Introduced (event : Event) : Prop :=
  (∃ m peer, (m, PeerOp.announce peer) ∈ ops env event ∧
      normalizeUrl env.parse peer.url = url ∧ env.admits peer.url = true) ∨
    ∃ clock, event = .ticked clock ∧ ∃ seed ∈ env.seeds, normalizeUrl env.parse seed = url

/-- What an event says of the lease of the URL. -/
def signalsOf (event : Event) : List Lease.Signal :=
  (ops env event).filterMap (signalOf env.parse url)

/-- What a run says of it. -/
def signals (events : List Event) : List Lease.Signal :=
  events.flatMap (signalsOf env url)

variable {env url}

theorem signals_eq
    (events : List Event) :
    signals env url events = (allOps env events).filterMap (signalOf env.parse url) := by
  unfold signals allOps
  induction events with
  | nil =>
      rfl
  | cons event events ih =>
      rw [List.flatMap_cons, List.flatMap_cons, List.filterMap_append, ih]
      rfl

/-- What is kept of the list of a peer is admitted. -/
theorem admits_of_readResponse
    {response : PeersResponse}
    {peers : List PeerInfo}
    (h : readResponse env response = .ok peers)
    {peer : PeerInfo}
    (hpeer : peer ∈ peers) :
    env.admits peer.url = true := by
  unfold readResponse at h
  split at h
  · cases h
  · obtain ⟨body, _, hbody⟩ := Fallible.bind_eq_ok.1 h
    split_ifs at hbody
    cases hlist : env.readPeers body with
    | error e =>
        rw [hlist] at hbody
        cases hbody
    | ok listed =>
        rw [hlist] at hbody
        cases hbody
        obtain ⟨kept, hkept, rfl⟩ := List.mem_map.1 hpeer
        exact (List.mem_filter.1 hkept).2

theorem admits_of_readAnnounce
    {limited : Bool}
    {ip : IpAddr}
    {body : Bytes}
    {peer : PeerInfo}
    (h : readAnnounce env limited ip body = .ok peer) :
    env.admits peer.url = true := by
  unfold readAnnounce at h
  split_ifs at h
  split at h
  · cases h
  · rename_i announcement _
    split_ifs at h with hsize
    cases hvalid : validatePeerUrl env.parseUrl announcement.url env.allowPrivatePeers with
    | error reason =>
        rw [hvalid] at h
        cases h
    | ok _ =>
        rw [hvalid] at h
        cases h
        rw [not_or, not_lt] at hsize
        unfold Env.admits
        rw [hvalid, decide_eq_true hsize.2]
        rfl

/-- What the operations of an event can be. -/
inductive OpOf (env : Env) (event : Event) : Moment × PeerOp → Prop
  | announce (m : Moment) (peer : PeerInfo) (admitted : env.admits peer.url = true) :
      OpOf env event (m, .announce peer)
  | seed (clock : TickClock) (seed : String) (ticked : event = .ticked clock)
      (mem : seed ∈ env.seeds) : OpOf env event (clock.seed, .ensureSeed seed)
  | demote (m : Moment) : OpOf env event (m, .demoteExpired)
  | expire (m : Moment) : OpOf env event (m, .expireUnverified)
  | remove (m : Moment) (raw : String) : OpOf env event (m, .remove raw)
  | fail (m : Moment) (raw : String) : OpOf env event (m, .recordSyncFailure raw)
  | alive (m : Moment) (raw : String) (checked : event = .checked m raw .alive) :
      OpOf env event (m, .markAlive raw)
  | synced (m : Moment) (raw : String) (pulled : event = .synced m raw) :
      OpOf env event (m, .markSynced raw)

theorem opOf
    {event : Event}
    {op : Moment × PeerOp}
    (hop : op ∈ ops env event) :
    OpOf env event op := by
  cases event with
  | announced m limited ip body =>
      unfold ops at hop
      dsimp only at hop
      cases hread : readAnnounce env limited ip body with
      | error response =>
          rw [hread] at hop
          cases hop
      | ok peer =>
          rw [hread] at hop
          cases List.mem_singleton.1 hop
          exact .announce m peer (admits_of_readAnnounce hread)
  | bootstrapped clock client response =>
      unfold ops at hop
      dsimp only at hop
      cases hread : client.bind (fun _ => response.bind (readResponse env)) with
      | error e =>
          rw [hread] at hop
          cases hop
      | ok peers =>
          rw [hread] at hop
          obtain ⟨⟨peer, i⟩, hpeer, rfl⟩ := List.mem_map.1 hop
          obtain ⟨_, _, hresponse⟩ := Fallible.bind_eq_ok.1 hread
          obtain ⟨response', _, hlist⟩ := Fallible.bind_eq_ok.1 hresponse
          exact .announce (clock i) peer
            (admits_of_readResponse hlist (List.fst_mem_of_mem_zipIdx hpeer))
  | ticked clock =>
      unfold ops at hop
      dsimp only at hop
      rcases List.mem_append.1 hop with hseeds | hlast
      · obtain ⟨seed, hseed, rfl⟩ := List.mem_map.1 hseeds
        exact .seed clock seed rfl hseed
      · simp only [List.mem_cons, List.not_mem_nil, or_false] at hlast
        rcases hlast with rfl | rfl
        · exact .demote clock.demote
        · exact .expire clock.expire
  | checked m raw result =>
      cases result with
      | refused =>
          cases List.mem_singleton.1 hop
          exact .remove m raw
      | alive =>
          cases List.mem_singleton.1 hop
          exact .alive m raw rfl
      | failed =>
          cases hop
  | synced m raw =>
      cases List.mem_singleton.1 hop
      exact .synced m raw rfl
  | syncFailed m raw =>
      cases List.mem_singleton.1 hop
      exact .fail m raw

theorem ne_setSelfUrl
    {events : List Event}
    {op : Moment × PeerOp}
    (hop : op ∈ allOps env events)
    (raw : String) :
    op.2 ≠ .setSelfUrl raw := by
  obtain ⟨event, _, hmem⟩ := List.mem_flatMap.1 hop
  cases opOf hmem <;> exact PeerOp.noConfusion

/-- A URL enters by an announcement that was admitted, or as a seed. -/
theorem introduced_of_enters
    {event : Event}
    {op : Moment × PeerOp}
    (hop : op ∈ ops env event)
    (henters : Enters env.parse url op) :
    Introduced env url event := by
  cases opOf hop with
  | announce m peer hadmitted =>
      exact Or.inl ⟨m, peer, hop, henters, hadmitted⟩
  | seed clock seed hticked hseed =>
      exact Or.inr ⟨clock, hticked, seed, hseed, henters⟩
  | _ =>
      exact henters.elim

/-- An event that grants the lease is an answer of the peer, and does nothing else. -/
theorem reached_of_grant
    {event : Event}
    {start : ℕ}
    {before after : List Lease.Signal}
    (h : signalsOf env url event = before ++ .grant start :: after) :
    Reached env url start event ∧ after = [] ∧
      ∀ op ∈ ops env event, ¬ Enters env.parse url op := by
  have hmem : .grant start ∈ signalsOf env url event := by
    rw [h]
    exact List.mem_append_right _ List.mem_cons_self
  obtain ⟨op, hop, hsignal⟩ := List.mem_filterMap.1 hmem
  -- the operation is the only one, so its signal is
  have hsingle : ∀ op', ops env event = [op'] → after = [] := by
    intro op' hops
    have hlength := congrArg List.length h
    have hle := List.length_filterMap_le (signalOf env.parse url) (ops env event)
    unfold signalsOf at hlength
    rw [hops, List.length_singleton] at hle
    rw [hops, List.length_append, List.length_cons] at hlength
    exact List.eq_nil_of_length_eq_zero (by omega)
  cases opOf hop with
  | announce m peer hadmitted =>
      unfold signalOf at hsignal
      dsimp only at hsignal
      split_ifs at hsignal
      cases hsignal
  | remove m raw =>
      unfold signalOf at hsignal
      dsimp only at hsignal
      split_ifs at hsignal
      cases hsignal
  | alive m raw hchecked =>
      unfold signalOf at hsignal
      dsimp only at hsignal
      split_ifs at hsignal with hraw
      cases hsignal
      subst hchecked
      refine ⟨⟨m, raw, Or.inl rfl, hraw, rfl⟩, hsingle _ rfl, ?_⟩
      exact List.forall_mem_singleton.2 id
  | synced m raw hpulled =>
      unfold signalOf at hsignal
      dsimp only at hsignal
      split_ifs at hsignal with hraw
      cases hsignal
      subst hpulled
      refine ⟨⟨m, raw, Or.inr rfl, hraw, rfl⟩, hsingle _ rfl, ?_⟩
      exact List.forall_mem_singleton.2 id
  | seed | demote | expire | fail =>
      cases hsignal

section Operations

variable {t : PeerTable} {l : List (Moment × PeerOp)} {ttl : ℕ} {heard : Option ℕ}

theorem foldl_hear
    (l : List (Moment × PeerOp))
    (heard : Option ℕ) :
    l.foldl (hear env.parse ttl url) heard =
      (l.filterMap (signalOf env.parse url)).foldl (Lease.next ttl) heard := by
  rw [List.foldl_filterMap]
  congr
  funext heard op
  unfold hear
  cases signalOf env.parse url op <;> rfl

/-- Over a run the verified entry follows the lease. -/
theorem follows_run
    (h : Follows ttl url heard t)
    (hl : ∀ op ∈ l, ∀ raw, op.2 ≠ .setSelfUrl raw) :
    Follows ttl url (l.foldl (hear env.parse ttl url) heard) (l.foldl (runOp env.parse) t) := by
  induction l generalizing t heard with
  | nil =>
      exact h
  | cons op l ih =>
      exact ih (follows_runOp h (hl op List.mem_cons_self))
        (fun op' hop' => hl op' (List.mem_cons_of_mem _ hop'))

theorem selfUrl_run
    (hl : ∀ op ∈ l, ∀ raw, op.2 ≠ .setSelfUrl raw) :
    (l.foldl (runOp env.parse) t).selfUrl = t.selfUrl := by
  induction l generalizing t with
  | nil =>
      rfl
  | cons op l ih =>
      rw [List.foldl_cons, ih (fun op' hop' => hl op' (List.mem_cons_of_mem _ hop'))]
      exact selfUrl_runOp t (hl op List.mem_cons_self)

/-- Without an answer a run verifies no URL. -/
theorem verified_run
    (hl : ∀ op ∈ l, ¬ Answers env.parse url op)
    (h : (l.foldl (runOp env.parse) t).verified.Has url) :
    t.verified.Has url := by
  induction l generalizing t with
  | nil =>
      exact h
  | cons op l ih =>
      rcases verified_runOp (ih (fun op' hop' => hl op' (List.mem_cons_of_mem _ hop')) h) with
        hold | ⟨_, hanswers⟩
      · exact hold
      · exact absurd hanswers (hl op List.mem_cons_self)

/-- What a run knows in the end it knew before, or it has entered. -/
theorem known_run
    (h : Known url (l.foldl (runOp env.parse) t)) :
    Known url t ∨ ∃ op ∈ l, Enters env.parse url op := by
  induction l generalizing t with
  | nil =>
      exact Or.inl h
  | cons op l ih =>
      rcases ih h with hknown | ⟨op', hop', henters⟩
      · exact (known_runOp hknown).imp_right fun henters => ⟨op, List.mem_cons_self, henters⟩
      · exact Or.inr ⟨op', List.mem_cons_of_mem _ hop', henters⟩

end Operations

theorem time_signalOf
    {parse : UrlParse}
    {op : Moment × PeerOp}
    {s : Lease.Signal}
    (h : signalOf parse url op = some s) :
    s.time = op.1.now := by
  obtain ⟨m, op⟩ := op
  cases op with
  | announce peer | markAlive raw | markSynced raw | remove raw =>
      unfold signalOf at h
      dsimp only at h
      split_ifs at h
      cases h
      rfl
  | _ =>
      cases h

theorem follows_starting
    (config : PeerConfig)
    {selfUrl : Option String}
    (hself : (starting env config selfUrl).isSelf url = false) :
    Follows config.verifiedTtl url none (starting env config selfUrl) := by
  refine ⟨?_, hself, fun p hp => ?_⟩
  · cases selfUrl <;> rfl
  · cases selfUrl <;> cases hp

/-- After the event that granted the lease, nothing but announcements has mattered, so the URL
was verified then; and what is verified has entered before. -/
theorem introduced_before
    {config : PeerConfig}
    {selfUrl : Option String}
    {before after : List Event}
    {event : Event}
    (hevent : ∀ op ∈ ops env event, ¬ Enters env.parse url op)
    (hafter : ∀ s ∈ signals env url after, s.IsRenewal)
    (hverified : ((allOps env (before ++ event :: after)).foldl (runOp env.parse)
      (starting env config selfUrl)).verified.Has url) :
    ∃ earlier ∈ before, Introduced env url earlier := by
  have hquiet : ∀ op ∈ allOps env after, ¬ Answers env.parse url op := by
    rintro op hop ⟨time, hgrant⟩
    refine hafter (.grant time) ?_
    rw [signals_eq]
    exact List.mem_filterMap.2 ⟨op, hop, hgrant⟩
  unfold allOps at hverified hquiet
  rw [List.flatMap_append, List.flatMap_cons, List.foldl_append, List.foldl_append] at hverified
  rcases known_run (Or.inr (verified_run hquiet hverified)) with hknown | ⟨op, hop, henters⟩
  · rcases known_run hknown with hstart | ⟨op, hop, henters⟩
    · cases selfUrl <;> rcases hstart with hun | hver
      · exact absurd hun (KeyedTable.not_has_empty url)
      · exact absurd hver (KeyedTable.not_has_empty url)
      · exact absurd hun (KeyedTable.not_has_empty url)
      · exact absurd hver (KeyedTable.not_has_empty url)
    · obtain ⟨earlier, hearlier, hmem⟩ := List.mem_flatMap.1 hop
      exact ⟨earlier, hearlier, introduced_of_enters hmem henters⟩
  · exact absurd henters (hevent op hop)

/-- **A listed URL was introduced, then reached, and heard of ever since.**  From a check or a
pull that its peer answered up to now, no check has refused it, and announcements of it have
come at intervals shorter than a lifetime. -/
theorem listed_was_reached
    (env : Env)
    (config : PeerConfig)
    (selfUrl : Option String)
    (events : List Event)
    (hsorted : (allOps env events).Pairwise (fun op op' => op.1.now ≤ op'.1.now))
    (m : Moment)
    (hpast : ∀ op ∈ allOps env events, op.1.now ≤ m.now)
    (info : PeerInfo)
    (hinfo : info ∈ (events.foldl (step env) (starting env config selfUrl)).peersInfo m) :
    ∃ before event after start, events = before ++ event :: after ∧
      Reached env info.url start event ∧
      (∃ earlier ∈ before, Introduced env info.url earlier) ∧
      (∀ s ∈ signals env info.url after, s.IsRenewal) ∧
      Lease.Unbroken config.verifiedTtl
        (start :: (signals env info.url after).map Lease.Signal.time ++ [m.now]) := by
  obtain ⟨⟨url, entry⟩, hlisted, rfl⟩ := List.mem_map.1 hinfo
  obtain ⟨hmem, hkept⟩ := List.mem_filter.1 hlisted
  rw [m.order.mem_arrange] at hmem
  rw [Bool.and_eq_true, Bool.not_eq_true'] at hkept
  rw [run_eq_ops] at hmem hkept
  have hops : ∀ op ∈ allOps env events, ∀ raw, op.2 ≠ .setSelfUrl raw :=
    fun _ hop => ne_setSelfUrl hop
  have hself : (starting env config selfUrl).isSelf url = false := by
    have hend := hkept.1
    unfold isSelf at hend ⊢
    rwa [selfUrl_run hops] at hend
  have hfollows : Follows config.verifiedTtl url
      ((allOps env events).foldl (hear env.parse config.verifiedTtl url) none)
      ((allOps env events).foldl (runOp env.parse) (starting env config selfUrl)) :=
    follows_run (follows_starting config hself) hops
  have hfind := KeyedTable.find?_key hmem
  have hheard := hfollows.heard_eq (url, entry) hfind
  rw [foldl_hear, ← signals_eq] at hheard
  have hlasts : m.now - entry.lastSeen < config.verifiedTtl := by
    have hfresh := of_decide_eq_true hkept.2
    rwa [hfollows.lifetime] at hfresh
  have horder : (signals env url events).Pairwise (fun s s' => s.time ≤ s'.time) := by
    rw [signals_eq]
    refine hsorted.filterMap _ ?_
    intro op op' hle s hs s' hs'
    rw [time_signalOf hs, time_signalOf hs']
    exact hle
  have hbefore : ∀ s ∈ signals env url events, s.time ≤ m.now := by
    intro s hs
    rw [signals_eq] at hs
    obtain ⟨op, hop, hsignal⟩ := List.mem_filterMap.1 hs
    rw [time_signalOf hsignal]
    exact hpast op hop
  obtain ⟨granted, start, since, hsplit, hrenewals, hunbroken⟩ :=
    Lease.exists_grant horder hbefore hheard hlasts
  obtain ⟨before, event, after, f₁, f₂, rfl, hevent, -, rfl⟩ := Runs.exists_stretch hsplit
  obtain ⟨hreached, rfl, hquiet⟩ := reached_of_grant hevent
  exact ⟨before, event, after, start, rfl, hreached,
    introduced_before hquiet hrenewals (KeyedTable.has_of_find? hfind), hrenewals, hunbroken⟩

/-- A peer that announces itself, answers a check, and announces itself again. -/
theorem listed_was_reached_sample :
    let env : Env :=
      ⟨some, fun _ => some ⟨"https", "", none, some (.domain "peer"), none⟩,
        fun _ => some ⟨"https://peer", 0⟩, fun _ => .ok [], false, []⟩
    let events : List Event :=
      [.announced ⟨1, .inserted⟩ false (.v4 1) [], .checked ⟨2, .inserted⟩ "https://peer" .alive,
        .announced ⟨500 * 10 ^ 9, .inserted⟩ false (.v4 1) []]
    ∃ before event after start, events = before ++ event :: after ∧
      Reached env "https://peer" start event ∧
      (∃ earlier ∈ before, Introduced env "https://peer" earlier) ∧
      (∀ s ∈ signals env "https://peer" after, s.IsRenewal) ∧
      Lease.Unbroken PeerConfig.default.verifiedTtl
        (start :: (signals env "https://peer" after).map Lease.Signal.time ++
          [1000 * 10 ^ 9]) := by
  intro env events
  refine listed_was_reached env .default none events (by decide +kernel)
    ⟨1000 * 10 ^ 9, .inserted⟩ (by decide +kernel) ⟨.v4 1, "https://peer", 0⟩ ?_
  exact List.mem_map.2
    ⟨("https://peer", ⟨.v4 1, 0, 500 * 10 ^ 9, 2, 0⟩), by decide +kernel, rfl⟩

end Runs

end PeerDiscovery
end CertRelay
