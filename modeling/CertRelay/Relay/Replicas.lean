import CertRelay.Relay.Bootstrap
import CertRelay.Relay.Provenance

/-!
# Copies of copies

A relay that has pulled everything from an honest peer serves the same certificates and
records, in pages of its own numbering, and holds the roots that go with them.  So a third
relay can pull from it, and verification meets the same groups as at the origin.

**Results.**
* `syncWithPeer_serves`: a round leaves numbers in sequence and encodings within the size
  limit, however it ends;
* `Copied.accepts`: what verifies groups of the origin verifies groups of a copy;
* `Copied.honest`: a complete copy of an honest relay is honest;
* `replicas_complete`: so over any number of hops everything arrives, and nothing else.
-/

namespace CertRelay

open Fallible

section Serving

variable {V : Crates} {σ Proof Msg : Type}
  {build : MessageBuilder → Proof → Except String Msg} {env : ℕ → Instant σ Proof Msg}

/-- Numbers stay in sequence, and encodings within the size limit. -/
def KeepsServing (V : Crates) (s s' : Puller σ) : Prop :=
  Sequenced s.db ∧ Serves V s.db → Sequenced s'.db ∧ Serves V s'.db

theorem KeepsServing.refl (s : Puller σ) : KeepsServing V s s :=
  id

theorem KeepsServing.trans
    (a b c : Puller σ)
    (hab : KeepsServing V a b)
    (hbc : KeepsServing V b c) :
    KeepsServing V a c :=
  fun h => hbc (hab h)

theorem ingest_serves
    (hV : V.Lawful)
    (order : HashOrder (String × List (Certificate × Zone)))
    (records : List SyncRecord)
    (maxFailedSpaces : ℕ) :
    Task.Steps (KeepsServing V)
      (ingestSyncRecords (pullerOps V build env) V order records maxFailedSpaces) := by
  intro s hs
  have hsteps : Task.Steps (PullSteps V build env)
      (ingestSyncRecords (pullerOps V build env) V order records maxFailedSpaces) :=
    ingest_is_events order records maxFailedSpaces
  obtain ⟨messages, _, hstate⟩ := hsteps s
  unfold Puller.db at hs ⊢
  rw [hstate]
  exact List.foldlRecOn (motive := fun s : HandlerState σ => Sequenced s.db ∧ Serves V s.db)
    messages (runEvent V) hs (fun _ h event _ => serves_runEvent hV h event)

theorem moveWatermark_serves
    (peerUrl cursor : String) :
    Task.Steps (KeepsServing V) (moveWatermark env peerUrl cursor) := by
  intro s hs
  have hsame : SameHandles s.db (moveWatermark env peerUrl cursor s).2.db := ⟨rfl, rfl, rfl, rfl⟩
  refine ⟨sequenced_congr hsame hs.1, fun r hr => hs.2.encoded r (hsame.handles ▸ hr), ?_⟩
  intro handle zone hzone
  rw [storedZone_congr V hsame] at hzone
  exact hs.2.small handle zone hzone

theorem takeInstant_serves :
    Task.Steps (KeepsServing V) (takeInstant env : Task String (Puller σ) _) :=
  fun _ hs => hs

variable {config : SyncConfig} {peerUrl : String} {peer : Tables}

theorem pullPages_serves
    (hV : V.Lawful)
    (left : ℕ)
    (round : Round) :
    Task.Steps (KeepsServing V) (pullPages V build env config peerUrl peer left round) := by
  induction left generalizing round with
  | zero =>
      exact Task.Steps.unchanged KeepsServing.refl _
  | succ left ih =>
      refine Task.Steps.bind KeepsServing.trans takeInstant_serves (fun m => ?_)
      refine Task.Steps.bind KeepsServing.trans (Task.Steps.lift KeepsServing.refl _)
        (fun page => ?_)
      split_ifs
      · exact KeepsServing.refl
      · exact Task.Steps.bind KeepsServing.trans (moveWatermark_serves _ _)
          (fun _ => Task.Steps.unchanged KeepsServing.refl _)
      · exact Task.Steps.unchanged KeepsServing.refl _
      · refine Task.Steps.bind KeepsServing.trans (Task.Steps.lift KeepsServing.refl _)
          (fun next => ?_)
        refine Task.Steps.bind KeepsServing.trans (ingest_serves hV _ _ _) (fun stats => ?_)
        dsimp only
        split_ifs
        · exact KeepsServing.refl
        · refine Task.Steps.bind KeepsServing.trans (moveWatermark_serves _ _) (fun _ => ?_)
          split
          · exact ih _
          · exact Task.Steps.unchanged KeepsServing.refl _

/-- **A round leaves a store that can be served**, however it ends. -/
theorem syncWithPeer_serves
    (hV : V.Lawful) :
    Task.Steps (KeepsServing V) (syncWithPeer V build env config peerUrl peer) := by
  refine Task.Steps.bind KeepsServing.trans (Task.Steps.always KeepsServing.refl)
    (fun watermark => ?_)
  split
  · exact pullPages_serves hV _ _
  · exact Task.Steps.bind KeepsServing.trans (moveWatermark_serves _ _)
      (fun _ => Task.Steps.unchanged KeepsServing.refl _)
  · exact Task.Steps.unchanged KeepsServing.refl _

theorem afterRounds_serves
    (hV : V.Lawful)
    {s : Puller σ}
    (hs : Sequenced s.db ∧ Serves V s.db)
    (rounds : ℕ) :
    let s' := afterRounds V build env config peerUrl peer rounds s
    Sequenced s'.db ∧ Serves V s'.db :=
  Function.Iterate.rec (fun s : Puller σ => Sequenced s.db ∧ Serves V s.db)
    hs (fun s hs => syncWithPeer_serves hV s hs) rounds

end Serving

section Copying

variable {V : Crates} {origin peer db : Tables}

theorem SameRecords.symm
    {z z' : Zone}
    (h : SameRecords z z') :
    SameRecords z' z :=
  fun cert => (h cert).symm

theorem SameRecords.trans
    {a b c : Zone}
    (hab : SameRecords a b)
    (hbc : SameRecords b c) :
    SameRecords a c :=
  fun cert => (hbc cert).trans (hab cert)

/-- What a copy stores under a handle is a certificate of the origin, and its records. -/
theorem Copied.storesPair
    (hV : V.Lawful)
    (h : Copied V origin peer)
    {handle : String}
    {cz : Certificate × Zone}
    (hcz : StoresPair V peer handle cz) :
    ∃ zone, StoresPair V origin handle (cz.1, zone) ∧ SameRecords zone cz.2 := by
  obtain ⟨r, hr, rfl, hholds⟩ := hcz
  obtain ⟨cz₀, zone, horigin, hcopy, hsame⟩ := h.pair r hr
  have hpair : cz = (cz₀.1, zone) :=
    StoresPair.unique hV ⟨r, hr, rfl, hholds⟩ ⟨r, hr, rfl, hcopy⟩
  rw [hpair]
  exact ⟨cz₀.2, horigin, hsame⟩

/-- A relay holds a copy of itself. -/
theorem copied_self
    (h : RowsEncoded V origin) :
    Copied V origin origin := by
  refine ⟨h, fun r hr => ?_⟩
  obtain ⟨cert, hcert, _⟩ := (h r hr).cert
  obtain ⟨zone, hzone⟩ := (h r hr).zone
  exact ⟨(cert, zone), zone, ⟨r, hr, rfl, hcert, hzone⟩, ⟨hcert, hzone⟩, fun _ => rfl⟩

/-- A copy of a copy is a copy. -/
theorem Copied.trans
    (hV : V.Lawful)
    (hpeer : Copied V origin peer)
    (hdb : Copied V peer db) :
    Copied V origin db := by
  refine ⟨hdb.encoded, fun r hr => ?_⟩
  obtain ⟨cz, zone, hcz, hholds, hsame⟩ := hdb.pair r hr
  obtain ⟨zone₀, horigin, hsame₀⟩ := hpeer.storesPair hV hcz
  exact ⟨(cz.1, zone₀), zone, horigin, hholds, hsame₀.trans hsame⟩

theorem Copied.seqsWithin
    (hV : V.Lawful)
    (h : Copied V origin peer)
    {now : ℕ}
    (hclock : SeqsWithin V origin now) :
    SeqsWithin V peer now := by
  intro handle cz hcz
  obtain ⟨zone, horigin, hsame⟩ := h.storesPair hV hcz
  obtain ⟨howner, hdelegate⟩ := hclock handle _ horigin
  rw [hsame.records, hsame.delegateSeq V]
  exact ⟨howner, hdelegate⟩

/-- The pairs of the origin that a group of a copy is from. -/
def originGroup (V : Crates) (origin : Tables) (group : List (Certificate × Zone)) :
    List (Certificate × Zone) :=
  group.map fun cz => (cz.1, (storedZone V origin cz.1.subject.text).getD cz.2)

theorem map_fst_originGroup
    (group : List (Certificate × Zone)) :
    (originGroup V origin group).map Prod.fst = group.map Prod.fst := by
  unfold originGroup
  rw [List.map_map]
  rfl

/-- A group of a copy, pair by pair. -/
theorem Copied.origin_of_mem
    (hV : V.Lawful)
    (h : Copied V origin peer)
    {space : String}
    {group : List (Certificate × Zone)}
    (hgroup : SpaceGroup V peer space group) :
    ∀ cz ∈ group, ∃ zone, (storedZone V origin cz.1.subject.text).getD cz.2 = zone ∧
      StoresPair V origin cz.1.subject.text (cz.1, zone) ∧ SameRecords zone cz.2 := by
  intro cz hcz
  obtain ⟨zone, horigin, hsame⟩ := h.storesPair hV (hgroup.stored cz hcz)
  refine ⟨zone, ?_, horigin, hsame⟩
  rw [horigin.storedZone hV, Option.getD_some]

/-- The group of the origin is one of its groups, and asks for the same records. -/
theorem Copied.rootedGroup
    (hV : V.Lawful)
    (h : Copied V origin peer)
    {space : String}
    {group : List (Certificate × Zone)}
    (hgroup : RootedGroup V peer space group) :
    RootedGroup V origin space (originGroup V origin group) ∧
      builderOf (originGroup V origin group) = builderOf group := by
  have hpairs := h.origin_of_mem hV hgroup.toSpaceGroup
  refine ⟨⟨⟨?_, ?_, ?_⟩, ?_⟩, ?_⟩
  · intro cz₀ hcz₀
    obtain ⟨cz, hcz, rfl⟩ := List.mem_map.1 hcz₀
    obtain ⟨zone, hzone, horigin, _⟩ := hpairs cz hcz
    rw [hzone]
    exact horigin
  · intro cz₀ hcz₀
    obtain ⟨cz, hcz, rfl⟩ := List.mem_map.1 hcz₀
    exact hgroup.inSpace cz hcz
  · have hnames : (originGroup V origin group).map (fun cz => cz.1.subject.text) =
        group.map (fun cz => cz.1.subject.text) := by
      unfold originGroup
      rw [List.map_map]
      rfl
    rw [hnames]
    exact hgroup.nodup
  · obtain ⟨root, subs, rfl, hroot⟩ := hgroup.root
    exact ⟨_, _, rfl, hroot⟩
  · unfold builderOf
    rw [map_fst_originGroup]
    congr 1
    unfold originGroup
    rw [List.map_map]
    refine List.map_congr_left (fun cz hcz => ?_)
    obtain ⟨zone, hzone, _, hsame⟩ := hpairs cz hcz
    show updateRequest cz.1 ((storedZone V origin cz.1.subject.text).getD cz.2) = _
    rw [hzone]
    exact (hsame cz.1).symm

/-- What verifies a group of the origin returns what the group of the copy asks for. -/
theorem Copied.returns
    (hV : V.Lawful)
    (h : Copied V origin peer)
    {space : String}
    {group : List (Certificate × Zone)}
    (hgroup : RootedGroup V peer space group)
    {res : VerifiedMessage}
    (hres : Returns V (originGroup V origin group) res) :
    Returns V group res := by
  constructor
  · intro cert
    rw [hres.certs, map_fst_originGroup]
  · intro cz hcz
    obtain ⟨zone₀, hzone₀, _, hsame₀⟩ := h.origin_of_mem hV hgroup.toSpaceGroup cz hcz
    obtain ⟨zone, bytes, hzone, hbytes, hsame⟩ :=
      hres.zones (cz.1, zone₀) (List.mem_map.2 ⟨cz, hcz, by rw [hzone₀]⟩)
    exact ⟨zone, bytes, hzone, hbytes, hsame₀.symm.trans hsame⟩

variable {σ Proof Msg : Type} {build : MessageBuilder → Proof → Except String Msg}

/-- **What accepts the groups of the origin accepts those of a copy.** -/
theorem Copied.accepts
    (hV : V.Lawful)
    (h : Copied V origin peer)
    {m : Instant σ Proof Msg}
    (haccepts : Accepts V origin build m) :
    Accepts V peer build m := by
  intro space group hgroup
  obtain ⟨horigin, hbuilder⟩ := h.rootedGroup hV hgroup
  obtain ⟨proof, msg, hprove, hbuild, hverify⟩ := haccepts space _ horigin
  rw [hbuilder] at hprove hbuild
  refine ⟨proof, msg, hprove, hbuild, fun ctx hctx => ?_⟩
  have hknown : KnownZones V origin ctx := by
    intro z hz
    obtain ⟨handle, cz, hcz, hsame⟩ := hctx z hz
    obtain ⟨zone, hzone, hsame₀⟩ := h.storesPair hV hcz
    exact ⟨handle, (cz.1, zone), hzone, hsame₀.trans hsame⟩
  obtain ⟨res, hres, hreturns⟩ := hverify ctx hknown
  exact ⟨res, hres, h.returns hV hgroup hreturns⟩

/-- **A complete copy of an honest relay is honest.** -/
theorem Copied.honest
    (horigin : Honest V origin)
    (h : Copied V origin peer)
    (hcomplete : ∀ a ∈ origin.handles.rows, peer.Stores a.handle)
    (hsequenced : Sequenced peer)
    (hserves : Serves V peer)
    (hrange : peer.syncCounter < 2 ^ 63) :
    Honest V peer := by
  have hrows : ∀ r ∈ peer.handles.rows, ∃ a ∈ origin.handles.rows, a.handle = r.handle ∧
      a.space = r.space := by
    intro r hr
    obtain ⟨cz, _, ⟨a, ha, hhandle, _⟩, _, _⟩ := h.pair r hr
    refine ⟨a, ha, hhandle, ?_⟩
    obtain ⟨cert, _, hsubject, hspace⟩ := (hserves.encoded r hr).cert
    obtain ⟨cert', _, hsubject', hspace'⟩ := (horigin.serves.encoded a ha).cert
    have hname : cert.subject = cert'.subject :=
      SName.ext (hsubject.trans (hhandle.symm.trans hsubject'.symm))
    rw [hname, hspace', Option.some.injEq] at hspace
    exact hspace
  refine ⟨hsequenced, hrange, hserves, ?_, ?_⟩
  · intro r hr
    obtain ⟨a, ha, hhandle, hspace⟩ := hrows r hr
    rw [← hspace, ← hhandle]
    exact horigin.spaces a ha
  · intro r hr
    obtain ⟨a, ha, _, hspace⟩ := hrows r hr
    obtain ⟨root, hroot, hname⟩ := horigin.roots a ha
    obtain ⟨copy, hcopy, hcopied⟩ := hcomplete root hroot
    exact ⟨copy, hcopy, hcopied.trans (hname.trans hspace)⟩

end Copying

section Hops

variable (V : Crates) (origin : Tables) {σ Proof Msg : Type}

/-- Stores that hold what the origin holds, over a number of hops: a relay that starts empty
and pulls from such a store that does not change, without storage pressure, often enough. -/
inductive Replica (σ Proof Msg : Type) : Tables → ℕ → Prop
  | origin : Replica σ Proof Msg origin 0
  | pulled (peer : Tables) (hops : ℕ) (hpeer : Replica σ Proof Msg peer hops)
      (build : MessageBuilder → Proof → Except String Msg) (env : ℕ → Instant σ Proof Msg)
      (config : SyncConfig) (peerUrl : String) (s : Puller σ) (rounds : ℕ)
      (hempty : s.db = Tables.init)
      (hpressure : ∀ i space, (env i).gated space = false)
      (haccepts : ∀ i, Accepts V origin build (env i))
      (hclock : ∀ i, SeqsWithin V origin ((env i).clock 0))
      (hfits : PagesFit config peer)
      (hpages : 1 ≤ config.maxPagesPerPeer)
      (hrounds : peer.syncCounter < rounds)
      (hrange : (afterRounds V build env config peerUrl peer rounds s).db.syncCounter < 2 ^ 63) :
      Replica σ Proof Msg (afterRounds V build env config peerUrl peer rounds s).db (hops + 1)

variable {V origin}

/-- A hop from an honest copy to an honest copy. -/
theorem Replica.honest
    (hV : V.Lawful)
    (horigin : Honest V origin)
    {db : Tables}
    {hops : ℕ}
    (h : Replica V origin σ Proof Msg db hops) :
    Honest V db ∧ Copied V origin db ∧ ∀ a ∈ origin.handles.rows, db.Stores a.handle := by
  induction h with
  | origin =>
      exact ⟨horigin, copied_self horigin.serves.encoded, fun a ha => ⟨a, ha, rfl⟩⟩
  | pulled peer hops hpeer build env config peerUrl s rounds hempty hpressure haccepts hclock
      hfits hpages hrounds hrange ih =>
      obtain ⟨hhonest, hcopied, hcomplete⟩ := ih
      have hboot : Bootstraps V build env config peer s :=
        ⟨hV, hhonest, hempty, hpressure, fun i => hcopied.accepts hV (haccepts i), hfits, hpages⟩
      have hclock' : ∀ i, SeqsWithin V peer ((env i).clock 0) :=
        fun i => hcopied.seqsWithin hV (hclock i)
      have hfollows : Follows V peer peerUrl
          (afterRounds V build env config peerUrl peer rounds s).db :=
        hboot.follows_afterRounds hclock' rounds
      have hcaught : watermarkOf peerUrl (afterRounds V build env config peerUrl peer rounds s).db =
          latestOf peer :=
        hboot.caughtUp hclock' hrounds
      have hstores : ∀ a ∈ origin.handles.rows,
          (afterRounds V build env config peerUrl peer rounds s).db.Stores a.handle := by
        intro a ha
        obtain ⟨r, hr, hhandle⟩ := hcomplete a ha
        rw [← hhandle]
        exact hfollows.stores_of_caughtUp hhonest hcaught hr
      have hstart : Sequenced s.db ∧ Serves V s.db := by
        rw [hempty]
        exact ⟨sequenced_init, rowsEncoded_init V, fun _ _ hzone => by cases hzone⟩
      have hserved :
          Sequenced (afterRounds V build env config peerUrl peer rounds s).db ∧
            Serves V (afterRounds V build env config peerUrl peer rounds s).db :=
        afterRounds_serves hV hstart rounds
      obtain ⟨hsequenced, hserves⟩ := hserved
      have hcopy := hcopied.trans hV hfollows.copied
      exact ⟨hcopy.honest horigin hstores hsequenced hserves hrange, hcopy, hstores⟩

/-- **Over any number of hops everything arrives, and nothing else.**  A replica stores, for
each handle of the origin, the certificate and the records that the origin stores; it stores
no other handle; and it is honest, so that others can pull from it. -/
theorem replicas_complete
    (hV : V.Lawful)
    (horigin : Honest V origin)
    {db : Tables}
    {hops : ℕ}
    (h : Replica V origin σ Proof Msg db hops) :
    (∀ a ∈ origin.handles.rows, ∃ cert zone zone', StoresPair V origin a.handle (cert, zone) ∧
      StoresPair V db a.handle (cert, zone') ∧ SameRecords zone zone') ∧
      (∀ r ∈ db.handles.rows, origin.Stores r.handle) ∧ Honest V db := by
  obtain ⟨hhonest, hcopied, hcomplete⟩ := h.honest hV horigin
  refine ⟨fun a ha => ?_, fun r hr => ?_, hhonest⟩
  · obtain ⟨r, hr, hhandle⟩ := hcomplete a ha
    obtain ⟨cz, zone, hcz, hholds, hsame⟩ := hcopied.pair r hr
    rw [hhandle] at hcz
    exact ⟨cz.1, cz.2, zone, hcz, ⟨r, hr, hhandle, hholds⟩, hsame⟩
  · obtain ⟨_, _, ⟨a, ha, hhandle, _⟩, _, _⟩ := hcopied.pair r hr
    exact ⟨a, ha, hhandle⟩

end Hops

section Sample

/-- A relay that pulls from the sample peer, and one that pulls from that relay. -/
def sampleReplica (peer : Tables) : Tables :=
  (afterRounds (pairCrates 1) builtAs (fun _ => pairInstant 1) pairConfig "https://peer" peer 5
    emptyPuller).db

theorem pagesFit_sample
    {peer : Tables}
    (hpeer : Honest (pairCrates 1) peer)
    (hbytes : ∀ r ∈ peer.handles.rows, r.record.bytes ≤ 100)
    (hnames : ∀ r ∈ peer.handles.rows, r.handle.utf8ByteSize ≤ 20) :
    PagesFit pairConfig peer :=
  have hfit : RowsFit 100 20 peer :=
    ⟨hpeer.sequenced.i64Range hpeer.range, hbytes, hnames⟩
  pagesFit_of_rowsFit hfit (by decide) (by decide)

/-- Two hops from the sample peer. -/
theorem replica_sample :
    Replica (pairCrates 1) (pairPeer 1) Unit Unit MessageBuilder
      (sampleReplica (sampleReplica (pairPeer 1))) 2 := by
  have hhonest : Honest (pairCrates 1) (pairPeer 1) := honest_pairPeer (Or.inl rfl)
  have hclock : SeqsWithin (pairCrates 1) (pairPeer 1) 0 := by
    intro handle cz h
    have hzone := (Fallible.lastMatch_mem (storesPair_pairPeer (Or.inl rfl) h).1).1
    have htimely : ∀ z ∈ (samplePairs 1).map Prod.snd,
        (pairCrates 1).seqOr0 z.records ≤ maxSeq 0 ∧
          (pairCrates 1).delegateSeqOr0 z ≤ maxSeq 0 := by
      decide
    exact htimely cz.2 hzone
  have hfirst : Replica (pairCrates 1) (pairPeer 1) Unit Unit MessageBuilder
      (sampleReplica (pairPeer 1)) 1 :=
    .pulled _ 0 .origin builtAs (fun _ => pairInstant 1) pairConfig "https://peer" emptyPuller 5
      rfl (fun _ _ => rfl) (fun _ => accepts_pairInstant (Or.inl rfl)) (fun _ => hclock)
      (pagesFit_sample hhonest (by decide +kernel) (by decide +kernel)) (by decide)
      (by decide +kernel) (by decide +kernel)
  have hfirst' := (hfirst.honest (pairCrates_lawful 1) hhonest).1
  exact .pulled _ 1 hfirst builtAs (fun _ => pairInstant 1) pairConfig "https://peer" emptyPuller 5
    rfl (fun _ _ => rfl) (fun _ => accepts_pairInstant (Or.inl rfl)) (fun _ => hclock)
    (pagesFit_sample hfirst' (by decide +kernel) (by decide +kernel)) (by decide)
    (by decide +kernel) (by decide +kernel)

/-- The sub-handle and its root arrive over two hops. -/
theorem replicas_complete_sample :
    let db := sampleReplica (sampleReplica (pairPeer 1))
    db.handles.rows.map Row.handle = ["@bitcoin", "alice@bitcoin"] ∧
      Honest (pairCrates 1) db := by
  intro db
  exact ⟨by decide +kernel,
    (replicas_complete (pairCrates_lawful 1) (honest_pairPeer (Or.inl rfl)) replica_sample).2.2⟩

end Sample

end CertRelay
