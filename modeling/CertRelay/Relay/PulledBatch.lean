import CertRelay.Relay.Copies

/-!
# Pulled batches

What a relay makes of the records of an honest peer, when verification accepts the groups
that the peer stores.

**Results.**
* `honest_of_events`: relays that only handle messages and evict are honest;
* `findRoot_ready`: with its root in the batch or in the store, a group makes a message
  that is one of the peer's groups;
* `submit_rooted`: such a message is stored in full;
* `ready_of_mem_bySpace`: the groups of a batch that brings its roots are ready;
* `ingestSyncRecords_batchable`: so the batch is stored in full, without a failed space.
-/

namespace CertRelay

open Fallible

section Assumptions

variable (V : Crates) {σ Proof Msg : Type} (peer : Tables)

/-- The store of an honest relay: its numbers are in sequence, its rows are encodings
within the size limit, and it holds the root of every space that it has rows for. -/
structure Honest : Prop where
  sequenced : Sequenced peer
  range : peer.syncCounter < 2 ^ 63
  serves : Serves V peer
  spaces : ∀ r ∈ peer.handles.rows, r.space = spaceNameOf r.handle
  roots : ∀ r ∈ peer.handles.rows, ∃ root ∈ peer.handles.rows, root.handle = r.space

/-- Pairs of different handles of a space, as a relay stores them. -/
structure SpaceGroup (space : String) (group : List (Certificate × Zone)) : Prop where
  stored : ∀ cz ∈ group, StoresPair V peer cz.1.subject.text cz
  inSpace : ∀ cz ∈ group, V.space cz.1.subject = some space
  nodup : (group.map (fun cz => cz.1.subject.text)).Nodup

/-- The root of a space, then sub-handles of it. -/
structure RootedGroup (space : String) (group : List (Certificate × Zone)) : Prop
    extends SpaceGroup V peer space group where
  root : ∃ root subs, group = root :: subs ∧ root.1.subject.text = space

/-- Zones with the records of pairs that a relay stores. -/
def KnownZones (ctx : List Zone) : Prop :=
  ∀ z ∈ ctx, ∃ handle cz, StoresPair V peer handle cz ∧ SameRecords cz.2 z

/-- Chain proofs succeed, and verification accepts every group that the peer stores. -/
def Accepts (build : MessageBuilder → Proof → Except String Msg) (m : Instant σ Proof Msg) :
    Prop :=
  ∀ space group, RootedGroup V peer space group →
    ∃ proof msg, m.prove (builderOf group) = .ok proof ∧
      build (builderOf group) proof = .ok msg ∧
      ∀ ctx, KnownZones V peer ctx →
        ∃ res, m.handler.verify m.handler.devMode ctx msg = .ok res ∧ Returns V group res

end Assumptions

section Events

variable {V : Crates} {σ Msg : Type}

/-- What is stored for a zone within the size limit, over another one, is within it. -/
theorem small_storedAs
    {existing : Option Zone}
    (hexisting : ∀ z, existing = some z → z.records.slice.length ≤ maxRecordsSize)
    {update : Zone}
    (hupdate : update.records.slice.length ≤ maxRecordsSize) :
    (storedAs V existing update).records.slice.length ≤ maxRecordsSize := by
  cases existing with
  | none =>
      exact hupdate
  | some z =>
      rcases mergedZone_records V update z with ⟨_, hkept⟩ | hown
      · show (mergedZone V update z).records.slice.length ≤ maxRecordsSize
        rw [hkept]
        exact hexisting z rfl
      · show (mergedZone V update z).records.slice.length ≤ maxRecordsSize
        rw [hown]
        exact hupdate

theorem sequenced_congr
    {db db' : Tables}
    (h : SameHandles db db')
    (hdb : Sequenced db) :
    Sequenced db' :=
  hdb.mono (fun _ hr => h.handles ▸ hr) h.syncCounter.ge

/-- **An event leaves numbers in sequence and encodings within the size limit.** -/
theorem serves_runEvent
    (hV : V.Lawful)
    {s : HandlerState σ}
    (hs : Sequenced s.db ∧ Serves V s.db)
    (event : RelayEvent σ Msg) :
    Sequenced (runEvent V s event).db ∧ Serves V (runEvent V s event).db := by
  obtain ⟨hsequenced, hserves⟩ := hs
  have hencoded := rowsEncoded_runEvent V hserves.encoded event
  cases event with
  | deleteHandles handles =>
      refine ⟨sequenced_runCall V hsequenced (.deleteHandles handles), hencoded, ?_⟩
      intro handle zone hzone
      have hleft : storedZone V (deleteHandles V s.db handles).1 handle = some zone := hzone
      rw [storedZone_deleteHandles] at hleft
      split_ifs at hleft
      exact hserves.small handle zone hleft
  | message H clock gatedSpaces charge msg =>
      rcases handleMessageOpts_cases (V := V) (H := H) clock gatedSpaces charge msg s with
        ⟨hdb, _⟩ | ⟨acc, hacc, hwritten⟩
      · show Sequenced (handleMessageOpts V H clock gatedSpaces charge msg s).2.db ∧
          Serves V (handleMessageOpts V H clock gatedSpaces charge msg s).2.db
        rw [hdb]
        exact ⟨hsequenced, hserves⟩
      · obtain ⟨res, _, hcollects⟩ := collectedFrom_collects hacc
        obtain ⟨mid, _, hupdate, hsame⟩ := hwritten.sameHandles
        obtain ⟨rows, _, hwrites⟩ := updateHandles_writes V hupdate
        refine ⟨sequenced_congr hsame (hwrites.sequenced hsequenced), hencoded, ?_⟩
        intro handle zone hzone
        have hleft : storedZone V (handleMessageOpts V H clock gatedSpaces charge msg s).2.db
            handle = some zone := hzone
        rw [storedZone_of_written hV hserves.encoded hwritten] at hleft
        cases hlast : lastAccepted V (clock 0) s.db handle acc.updates with
        | none =>
            rw [hlast] at hleft
            exact hserves.small handle zone hleft
        | some u =>
            rw [hlast] at hleft
            cases hleft
            obtain ⟨_, hfor, _⟩ := hcollects.mem_updates (lastAccepted_mem hlast).1
            apply small_storedAs (hserves.small handle)
            simpa using (Option.filter_eq_some_iff.1 hfor).2

/-- **A relay that only handles messages and evicts is honest**, where the space of a name
is its space portion and no root is missing. -/
theorem honest_of_events
    (hV : V.Lawful)
    (hspace : ∀ name space, V.space name = some space → space = spaceNameOf name.text)
    (limits : σ)
    (events : List (RelayEvent σ Msg))
    {peer : Tables}
    (hpeer : (events.foldl (runEvent V) (HandlerState.fresh limits)).db = peer)
    (hrange : peer.syncCounter < 2 ^ 63)
    (hroots : ∀ r ∈ peer.handles.rows, ∃ root ∈ peer.handles.rows, root.handle = r.space) :
    Honest V peer := by
  have hstart : Sequenced (HandlerState.fresh limits).db ∧
      Serves V (HandlerState.fresh limits).db := by
    refine ⟨sequenced_init, rowsEncoded_init V, fun handle zone hzone => ?_⟩
    cases hzone
  have hend : Sequenced (events.foldl (runEvent V) (HandlerState.fresh limits)).db ∧
      Serves V (events.foldl (runEvent V) (HandlerState.fresh limits)).db :=
    List.foldlRecOn (motive := fun s : HandlerState σ => Sequenced s.db ∧ Serves V s.db)
      events (runEvent V) hstart (fun _ hs event _ => serves_runEvent hV hs event)
  rw [hpeer] at hend
  obtain ⟨hsequenced, hserves⟩ := hend
  refine ⟨hsequenced, hrange, hserves, fun r hr => ?_, hroots⟩
  obtain ⟨cert, _, hsubject, hcert⟩ := (hserves.encoded r hr).cert
  rw [hspace cert.subject r.space hcert, hsubject]

end Events

section Groups

variable {V : Crates} {peer : Tables}

theorem SpaceGroup.perm
    {space : String}
    {group group' : List (Certificate × Zone)}
    (h : SpaceGroup V peer space group)
    (hperm : group'.Perm group) :
    SpaceGroup V peer space group' :=
  ⟨fun cz hcz => h.stored cz (hperm.mem_iff.1 hcz),
    fun cz hcz => h.inSpace cz (hperm.mem_iff.1 hcz), (hperm.map _).nodup_iff.2 h.nodup⟩

/-- A pair of another handle may join its group. -/
theorem SpaceGroup.cons
    {space : String}
    {group : List (Certificate × Zone)}
    (h : SpaceGroup V peer space group)
    {cz : Certificate × Zone}
    (hpair : StoresPair V peer cz.1.subject.text cz)
    (hspace : V.space cz.1.subject = some space)
    (hnew : ∀ c ∈ group, c.1.subject.text ≠ cz.1.subject.text) :
    SpaceGroup V peer space (cz :: group) := by
  refine ⟨?_, ?_, ?_⟩
  · intro c hc
    rcases List.mem_cons.1 hc with rfl | hmem
    · exact hpair
    · exact h.stored c hmem
  · intro c hc
    rcases List.mem_cons.1 hc with rfl | hmem
    · exact hspace
    · exact h.inSpace c hmem
  · rw [List.map_cons, List.nodup_cons]
    refine ⟨fun hmem => ?_, h.nodup⟩
    obtain ⟨c, hc, hhandle⟩ := List.mem_map.1 hmem
    exact hnew c hc hhandle

/-- A group of pairs of the peer whose root is in it or already stored. -/
structure Ready (V : Crates) (peer db : Tables) (space : String)
    (group : List (Certificate × Zone)) : Prop extends SpaceGroup V peer space group where
  name : spaceNameOf space = space
  root : (∃ cz ∈ group, cz.1.subject.text = space) ∨ db.Stores space

theorem Ready.extend
    {db db' : Tables}
    {space : String}
    {group : List (Certificate × Zone)}
    (h : Ready V peer db space group)
    (hextends : Extends db db') :
    Ready V peer db' space group :=
  { h with root := h.root.imp_right (hextends.stores space) }

/-- The stored root zones that verification is given are known. -/
theorem getZones_known
    (hV : V.Lawful)
    {db : Tables}
    (hdb : Copied V peer db)
    (spaces : List String) :
    ∃ ctx, getZones V db spaces = .ok ctx ∧ KnownZones V peer ctx := by
  have hrows : ∀ r ∈ spaces.filterMap db.handles.find?, ∃ z,
      (V.zoneFromSlice r.zoneData).mapError ("failed to deserialize zone: " ++ ·) = .ok z ∧
        ∃ handle cz, StoresPair V peer handle cz ∧ SameRecords cz.2 z := by
    intro r hr
    obtain ⟨space, _, hfind⟩ := List.mem_filterMap.1 hr
    obtain ⟨cz, zone, hpair, hholds, hsame⟩ :=
      hdb.pair r (KeyedTable.find?_eq_some_iff.1 hfind).1
    exact ⟨zone, mapError_eq_ok.2 (hV.zone_decode hholds.zone), r.handle, cz, hpair, hsame⟩
  obtain ⟨ctx, hctx⟩ := mapM_total (fun r hr => ⟨_, (hrows r hr).choose_spec.1⟩)
  refine ⟨ctx, hctx, fun z hz => ?_⟩
  obtain ⟨r, hr, hdecode⟩ := exists_of_forall₂_right (mapM_eq_ok_iff.1 hctx) hz
  obtain ⟨z', hdecode', hknown⟩ := hrows r hr
  cases Except.ok.inj (hdecode.symm.trans hdecode')
  exact hknown

/-- Taking out the root rearranges the group. -/
theorem perm_of_takeRoot
    {space : String}
    {group : List (Certificate × Zone)}
    {root : Certificate × Zone}
    {rest : List (Certificate × Zone)}
    (h : takeRoot space group = some (root, rest)) :
    root.1.subject.text = space ∧ (root :: rest).Perm group := by
  induction group generalizing rest with
  | nil =>
      cases h
  | cons cz group ih =>
      unfold takeRoot at h
      split_ifs at h with hroot
      · cases h
        exact ⟨hroot, List.Perm.refl _⟩
      · obtain ⟨found, hfound, heq⟩ := Option.map_eq_some_iff.1 h
        cases heq
        obtain ⟨hspace, hperm⟩ := ih hfound
        exact ⟨hspace, (List.Perm.swap cz found.1 found.2).trans (hperm.cons cz)⟩

theorem takeRoot_eq_none
    {space : String}
    {group : List (Certificate × Zone)}
    (h : takeRoot space group = none) :
    ∀ cz ∈ group, cz.1.subject.text ≠ space := by
  induction group with
  | nil =>
      simp
  | cons c group ih =>
      unfold takeRoot at h
      split_ifs at h with hroot
      · rw [Option.map_eq_none_iff] at h
        intro cz hcz
        rcases List.mem_cons.1 hcz with rfl | hmem
        · exact hroot
        · exact ih h cz hmem

theorem getHandle_of_holds
    (hV : V.Lawful)
    {db : Tables}
    {r : Row}
    (hr : r ∈ db.handles.rows)
    {cert : Certificate}
    {zone : Zone}
    (h : r.Holds V (cert, zone)) :
    getHandle V db r.handle =
      .ok (some ⟨cert, zone, r.epochHeight, r.offchainSeq, r.delegateOffchainSeq⟩) := by
  unfold getHandle
  simp only [KeyedTable.find?_key hr, hV.cert_decode h.cert, hV.zone_decode h.zone]
  rfl

/-- The root pair of a space belongs to the space. -/
theorem space_of_root
    (hV : V.Lawful)
    (hpeer : Honest V peer)
    {space : String}
    (hname : spaceNameOf space = space)
    {cz : Certificate × Zone}
    (hpair : StoresPair V peer space cz) :
    cz.1.subject.text = space ∧ V.space cz.1.subject = some space := by
  obtain ⟨hsubject, r, hr, hhandle, hspace⟩ := hpair.subject hV hpeer.serves.encoded
  rw [hpeer.spaces r hr, hhandle, hname] at hspace
  exact ⟨hsubject, hspace⟩

variable {σ Proof Msg : Type} {build : MessageBuilder → Proof → Except String Msg}
  {env : ℕ → Instant σ Proof Msg}

variable (build env) in
/-- **The message of a ready group is one of the peer's groups**, root first. -/
theorem findRoot_ready
    (hV : V.Lawful)
    (hpeer : Honest V peer)
    {s : Puller σ}
    (hdb : Copied V peer s.db)
    {space : String}
    {group : List (Certificate × Zone)}
    (h : Ready V peer s.db space group) :
    ∃ message rooted, findRoot (pullerOps V build env) space group s = (.ok (some message), s) ∧
      RootedGroup V peer space rooted ∧ builderOf message = builderOf rooted ∧
      group ⊆ rooted := by
  unfold findRoot
  cases htake : takeRoot space group with
  | some split =>
      obtain ⟨root, rest⟩ := split
      obtain ⟨hroot, hperm⟩ := perm_of_takeRoot htake
      exact ⟨root :: rest, root :: rest, rfl, ⟨h.perm hperm, root, rest, rfl, hroot⟩, rfl,
        hperm.symm.subset⟩
  | none =>
      have hsubs := takeRoot_eq_none htake
      obtain ⟨r, hr, rfl⟩ : s.db.Stores space :=
        h.root.resolve_left (fun ⟨cz, hcz, hroot⟩ => hsubs cz hcz hroot)
      obtain ⟨cz, zone, hpair, hholds, hsame⟩ := hdb.pair r hr
      obtain ⟨hsubject, hspace⟩ := space_of_root hV hpeer h.name hpair
      have hrooted : SpaceGroup V peer r.handle (cz :: group) :=
        h.cons (hsubject ▸ hpair) hspace (fun c hc => hsubject ▸ hsubs c hc)
      have hget : (pullerOps V build env).getHandle r.handle s =
          (.ok (some ⟨cz.1, zone, r.epochHeight, r.offchainSeq, r.delegateOffchainSeq⟩), s) := by
        show (getHandle V s.db r.handle, s) = _
        rw [getHandle_of_holds hV hr hholds]
      refine ⟨(cz.1, zone) :: group, cz :: group, ?_, ⟨hrooted, cz, group, rfl, hsubject⟩, ?_,
        List.subset_cons_self _ _⟩
      · exact Task.bind_of_ok hget _
      · exact builderOf_congr cz.1 hsame group

/-- What a part of a round leaves: copies of the peer, and all that was there. -/
structure Pulled (V : Crates) (peer db db' : Tables) : Prop where
  copied : Copied V peer db'
  keeps : Extends db db'

theorem Pulled.refl
    {db : Tables}
    (h : Copied V peer db) :
    Pulled V peer db db :=
  ⟨h, Extends.refl db⟩

theorem Pulled.trans
    {a b c : Tables}
    (h₁ : Pulled V peer a b)
    (h₂ : Pulled V peer b c) :
    Pulled V peer a c :=
  ⟨h₂.copied, h₁.keeps.trans h₂.keeps⟩

variable (hV : V.Lawful) (hpeer : Honest V peer)
  (hclock : ∀ i, SeqsWithin V peer ((env i).clock 0))
  (haccepts : ∀ i, Accepts V peer build (env i))
include hV hpeer hclock haccepts

/-- **An accepted message stores its group.** -/
theorem submit_rooted
    {s : Puller σ}
    (hdb : Copied V peer s.db)
    {space : String}
    {message rooted : List (Certificate × Zone)}
    (h : RootedGroup V peer space rooted)
    (hbuilder : builderOf message = builderOf rooted) :
    ∃ result s', submit (pullerOps V build env) message s = (.ok (.ok result), s') ∧
      Pulled V peer s.db s'.db ∧ ∀ cz ∈ rooted, s'.db.Stores cz.1.subject.text := by
  obtain ⟨proof, msg, hprove, hbuild, hverifies⟩ := haccepts s.elapsed space rooted h
  obtain ⟨ctx, hctx, hknown⟩ :=
    getZones_known hV hdb ((env s.elapsed).handler.spaces msg)
  obtain ⟨res, hverify, hres⟩ := hverifies ctx hknown
  have hmessage : verifyMessage V (env s.elapsed).handler msg s.db = .ok res := by
    unfold verifyMessage
    rw [hctx, ok_bind]
    exact hverify
  obtain ⟨result, state, hhandled, hcopied, hkeeps, hstores⟩ :=
    handleMessageOpts_copies hV hpeer.serves h.stored (hclock s.elapsed) hdb hmessage hres
  refine ⟨result, ⟨state, s.elapsed + 1⟩, ?_, ⟨hcopied, hkeeps⟩, hstores⟩
  have hproved : (pullerOps V build env).prove (builderOf message) s = (.ok proof, s) := by
    show ((env s.elapsed).prove (builderOf message), s) = _
    rw [hbuilder, hprove]
  have hhandle : (pullerOps V build env).handleMessage msg s =
      (.ok (.ok result), ⟨state, s.elapsed + 1⟩) := by
    have hout : handlePulled V env msg s = (.ok result, ⟨state, s.elapsed + 1⟩) := by
      unfold handlePulled
      simp only [hhandled]
    show ((Except.ok (handlePulled V env msg s).1 : Except String _),
      (handlePulled V env msg s).2) = _
    rw [hout]
  have hacquire : (pullerOps V build env).acquireProof s = (.ok (), s) := rfl
  have hbuilt : (pullerOps V build env).build (builderOf message) proof = .ok msg := by
    rw [hbuilder]
    exact hbuild
  unfold submit
  rw [Task.bind_of_ok hacquire, Task.bind_of_ok (Task.adapt_of_ok hproved _), hbuilt]
  exact Task.adapt_of_ok hhandle _

variable (hpressure : ∀ i space, (env i).gated space = false)
include hpressure

/-- **A ready group is stored without a failed space.** -/
theorem ingestSpace_ready
    {s : Puller σ}
    (hdb : Copied V peer s.db)
    {space : String}
    {group : List (Certificate × Zone)}
    (h : Ready V peer s.db space group)
    (existing : List HandleHintRow)
    (out : SyncIngest) :
    ∃ stored s', ingestSpace (pullerOps V build env) existing space group out s =
        (.ok { out with stored := stored }, s') ∧
      Pulled V peer s.db s'.db ∧ ∀ cz ∈ group, s'.db.Stores cz.1.subject.text := by
  obtain ⟨message, rooted, hfind, hrooted, hbuilder, hsub⟩ :=
    findRoot_ready build env hV hpeer hdb h
  obtain ⟨result, s', hsubmit, hpulled, hstores⟩ :=
    submit_rooted hV hpeer hclock haccepts hdb hrooted hbuilder
  refine ⟨out.stored + result.stored, s', ?_, hpulled, fun cz hcz => hstores cz (hsub hcz)⟩
  have hgate : (Task.always ((pullerOps V build env).firstInsertGated space) :
      Task String (Puller σ) Bool) s = (.ok false, s) := by
    show ((Except.ok ((env s.elapsed).gated space) : Except String Bool), s) = _
    rw [hpressure]
  unfold ingestSpace
  rw [Task.bind_of_ok hgate]
  simp only [admitted, Bool.false_eq_true, if_false, Bool.false_and, Nat.sub_self, Nat.add_zero]
  rw [Task.bind_of_ok hfind]
  simp only
  rw [Task.bind_of_ok hsubmit]
  rfl

/-- **A batch of ready groups is stored without a failed space.** -/
theorem ingestSpaces_ready
    {groups : List (String × List (Certificate × Zone))}
    {s : Puller σ}
    (hdb : Copied V peer s.db)
    (h : ∀ g ∈ groups, Ready V peer s.db g.1 g.2)
    (existing : List HandleHintRow)
    {budget : Nat}
    (out : SyncIngest)
    (hbudget : out.failedSpaces < budget) :
    ∃ stored s', ingestSpaces (pullerOps V build env) existing budget groups out s =
        (.ok { out with stored := stored }, s') ∧
      Pulled V peer s.db s'.db ∧
      ∀ g ∈ groups, ∀ cz ∈ g.2, s'.db.Stores cz.1.subject.text := by
  induction groups generalizing s out with
  | nil =>
      exact ⟨out.stored, s, rfl, Pulled.refl hdb, by simp⟩
  | cons g groups ih =>
      obtain ⟨space, group⟩ := g
      obtain ⟨stored₁, s₁, hfirst, hpulled₁, hstores₁⟩ :=
        ingestSpace_ready hV hpeer hclock haccepts hpressure hdb (h (space, group) (by simp))
          existing out
      have hrest : ∀ g ∈ groups, Ready V peer s₁.db g.1 g.2 :=
        fun g hg => (h g (List.mem_cons_of_mem _ hg)).extend hpulled₁.keeps
      obtain ⟨stored₂, s₂, htail, hpulled₂, hstores₂⟩ :=
        ih hpulled₁.copied hrest { out with stored := stored₁ } hbudget
      refine ⟨stored₂, s₂, ?_, hpulled₁.trans hpulled₂, ?_⟩
      · unfold ingestSpaces
        rw [if_neg (not_le.2 hbudget), Task.bind_of_ok hfirst]
        exact htail
      · intro g hg cz hcz
        rcases List.mem_cons.1 hg with rfl | hg
        · exact hpulled₂.keeps.stores _ (hstores₁ cz hcz)
        · exact hstores₂ g hg cz hcz

end Groups

section Batches

variable {V : Crates} {peer : Tables}

/-- A served row decodes to the pair it holds. -/
theorem decodeRecord_served
    (hV : V.Lawful)
    (hpeer : Honest V peer)
    {a : Row}
    (ha : a ∈ peer.handles.rows) :
    ∃ cz, decodeRecord V a.record = .ok cz ∧ StoresPair V peer a.handle cz ∧
      V.space cz.1.subject = some (spaceNameOf a.handle) := by
  obtain ⟨⟨cert, hcert, hsubject, hspace⟩, zone, hzone⟩ := hpeer.serves.encoded a ha
  rw [hpeer.spaces a ha] at hspace
  refine ⟨(cert, zone), ?_, ⟨a, ha, rfl, hcert, hzone⟩, hspace⟩
  have hcert' : V.certFromSlice a.record.cert = .ok cert := hV.cert_decode hcert
  have hzone' : V.zoneFromSlice a.record.zone = .ok zone := hV.zone_decode hzone
  unfold decodeRecord
  rw [hcert', hzone']
  exact if_pos hsubject

/-- A decoded certificate is of the handle of its record. -/
theorem subject_of_decodeRecord
    {rec : SyncRecord}
    {cz : Certificate × Zone}
    (h : decodeRecord V rec = .ok cz) :
    cz.1.subject.text = rec.handle := by
  obtain ⟨cert, _, h⟩ := bind_eq_ok.1 h
  obtain ⟨zone, _, h⟩ := bind_eq_ok.1 h
  split_ifs at h with hsubject
  cases h
  exact hsubject

/-- A duplicate of a hint is stored. -/
theorem stores_of_isDuplicate
    {db : Tables}
    {handles : List String}
    {rec : SyncRecord}
    (h : isDuplicate V (getHandleHints db handles) rec = true) :
    db.Stores rec.handle := by
  unfold isDuplicate at h
  cases hhint : hintOf (getHandleHints db handles) rec.handle with
  | some row =>
      exact stores_of_hintOf (Option.isSome_iff_exists.2 ⟨row, hhint⟩)
  | none =>
      rw [hhint] at h
      cases h

/-- The groups of a batch are its pairs by space, and none is empty. -/
theorem bySpace_cases
    {decoded : List (Certificate × Zone)}
    {g : String × List (Certificate × Zone)}
    (h : g ∈ bySpace V decoded) :
    g.2 = decoded.filter (fun cz => decide (V.space cz.1.subject = some g.1)) ∧
      ∃ cz ∈ decoded, V.space cz.1.subject = some g.1 := by
  obtain ⟨space, hspace, rfl⟩ := List.mem_map.1 h
  rw [List.mem_dedup, List.mem_filterMap] at hspace
  exact ⟨rfl, hspace⟩

/-- Records of a peer, each handle once, that bring the roots that are not stored. -/
structure Batchable (peer db : Tables) (records : List SyncRecord) : Prop where
  served : ∀ rec ∈ records, ∃ a ∈ peer.handles.rows, a.record = rec
  nodup : (records.map SyncRecord.handle).Nodup
  closed : ∀ rec ∈ records, rec.IsSub →
    db.Stores rec.spaceName ∨ ∃ root ∈ records, root.handle = rec.spaceName

/-- What decoding the records that are not duplicates gives. -/
structure Decodes (V : Crates) (peer db : Tables) (records : List SyncRecord)
    (decoded : List (Certificate × Zone)) : Prop where
  settled : ∀ rec ∈ records, db.Stores rec.handle ∨
    ∃ cz ∈ decoded, cz.1.subject.text = rec.handle
  origin : ∀ cz ∈ decoded, ∃ rec ∈ records, cz.1.subject.text = rec.handle
  pair : ∀ cz ∈ decoded, StoresPair V peer cz.1.subject.text cz
  space : ∀ cz ∈ decoded, V.space cz.1.subject = some (spaceNameOf cz.1.subject.text)
  nodup : (decoded.map (fun cz => cz.1.subject.text)).Nodup

theorem decodes_survivors
    (hV : V.Lawful)
    (hpeer : Honest V peer)
    {db : Tables}
    {records : List SyncRecord}
    (h : Batchable peer db records)
    (handles : List String) :
    ∃ decoded,
      (records.filter (fun r => !isDuplicate V (getHandleHints db handles) r)).mapM
        (decodeRecord V) = .ok decoded ∧ Decodes V peer db records decoded := by
  let existing := getHandleHints db handles
  let survivors := records.filter (fun r => !isDuplicate V existing r)
  have hserved : ∀ rec ∈ survivors, ∃ cz, decodeRecord V rec = .ok cz ∧
      StoresPair V peer rec.handle cz ∧ V.space cz.1.subject = some (spaceNameOf rec.handle) := by
    intro rec hrec
    obtain ⟨a, ha, rfl⟩ := h.served rec (List.mem_filter.1 hrec).1
    exact decodeRecord_served hV hpeer ha
  obtain ⟨decoded, hdecoded⟩ := mapM_total (fun rec hrec =>
    (⟨_, (hserved rec hrec).choose_spec.1⟩ : ∃ cz, decodeRecord V rec = .ok cz))
  have hrel := mapM_eq_ok_iff.1 hdecoded
  have horigin : ∀ cz ∈ decoded, ∃ rec ∈ survivors, cz.1.subject.text = rec.handle ∧
      StoresPair V peer rec.handle cz ∧ V.space cz.1.subject = some (spaceNameOf rec.handle) := by
    intro cz hcz
    obtain ⟨rec, hrec, hdecode⟩ := exists_of_forall₂_right hrel hcz
    obtain ⟨cz', hdecode', hrest⟩ := hserved rec hrec
    cases Except.ok.inj (hdecode.symm.trans hdecode')
    exact ⟨rec, hrec, subject_of_decodeRecord hdecode, hrest⟩
  refine ⟨decoded, hdecoded, ?_, ?_, ?_, ?_, ?_⟩
  · intro rec hrec
    by_cases hdup : isDuplicate V existing rec = true
    · exact Or.inl (stores_of_isDuplicate hdup)
    · have hsurvivor : rec ∈ survivors := by
        simpa [survivors, hrec] using hdup
      obtain ⟨cz, hcz, hdecode⟩ := exists_of_forall₂_left hrel hsurvivor
      exact Or.inr ⟨cz, hcz, subject_of_decodeRecord hdecode⟩
  · intro cz hcz
    obtain ⟨rec, hrec, hsubject, _⟩ := horigin cz hcz
    exact ⟨rec, (List.mem_filter.1 hrec).1, hsubject⟩
  · intro cz hcz
    obtain ⟨rec, _, hsubject, hpair, _⟩ := horigin cz hcz
    rw [hsubject]
    exact hpair
  · intro cz hcz
    obtain ⟨rec, _, hsubject, _, hspace⟩ := horigin cz hcz
    rw [hsubject]
    exact hspace
  · have hhandles : List.Forall₂ Eq (survivors.map SyncRecord.handle)
        (decoded.map (fun cz => cz.1.subject.text)) := by
      rw [List.forall₂_map_left_iff, List.forall₂_map_right_iff]
      exact hrel.imp (fun rec cz hdecode => (subject_of_decodeRecord hdecode).symm)
    rw [List.forall₂_eq_eq_eq] at hhandles
    rw [← hhandles]
    exact (List.filter_sublist.map _).nodup h.nodup

/-- **The groups of a batch are ready.** -/
theorem ready_of_mem_bySpace
    {db : Tables}
    {records : List SyncRecord}
    (h : Batchable peer db records)
    {decoded : List (Certificate × Zone)}
    (hdecoded : Decodes V peer db records decoded)
    {g : String × List (Certificate × Zone)}
    (hg : g ∈ bySpace V decoded) :
    Ready V peer db g.1 g.2 := by
  obtain ⟨hgroup, cz, hcz, hspace⟩ := bySpace_cases hg
  have hmem : ∀ {cz : Certificate × Zone}, cz ∈ g.2 ↔
      cz ∈ decoded ∧ V.space cz.1.subject = some g.1 := by
    intro cz
    rw [hgroup]
    simp
  have hname : spaceNameOf cz.1.subject.text = g.1 :=
    Option.some.inj ((hdecoded.space cz hcz).symm.trans hspace)
  have hidem : spaceNameOf g.1 = g.1 := by
    rw [← hname, spaceNameOf_idem]
  -- a decoded pair of the root's name is the root of the group
  have hinGroup : ∀ root ∈ decoded, root.1.subject.text = g.1 →
      ∃ cz ∈ g.2, cz.1.subject.text = g.1 := by
    intro root hroot htext
    refine ⟨root, hmem.2 ⟨hroot, ?_⟩, htext⟩
    rw [hdecoded.space root hroot, htext, hidem]
  refine ⟨⟨?_, ?_, ?_⟩, hidem, ?_⟩
  · intro cz hcz
    exact hdecoded.pair cz (hmem.1 hcz).1
  · intro cz hcz
    exact (hmem.1 hcz).2
  · rw [hgroup]
    exact (List.filter_sublist.map _).nodup hdecoded.nodup
  · obtain ⟨rec, hrec, hsubject⟩ := hdecoded.origin cz hcz
    have hspaceName : rec.spaceName = g.1 := by
      rw [← hname, hsubject]
      rfl
    by_cases hsub : rec.IsSub
    · rcases h.closed rec hrec hsub with hstored | ⟨root, hroot, hhandle⟩
      · rw [hspaceName] at hstored
        exact Or.inr hstored
      · rw [hspaceName] at hhandle
        rcases hdecoded.settled root hroot with hstored | ⟨cz', hcz', htext⟩
        · rw [hhandle] at hstored
          exact Or.inr hstored
        · exact Or.inl (hinGroup cz' hcz' (htext.trans hhandle))
    · have hself : rec.handle = rec.spaceName := not_not.1 hsub
      exact Or.inl (hinGroup cz hcz (hsubject.trans (hself.trans hspaceName)))

variable {σ Proof Msg : Type} {build : MessageBuilder → Proof → Except String Msg}
  {env : ℕ → Instant σ Proof Msg}

/-- **A batch that brings its roots is stored in full**, without a failed space. -/
theorem ingestSyncRecords_batchable
    (hV : V.Lawful)
    (hpeer : Honest V peer)
    (hclock : ∀ i, SeqsWithin V peer ((env i).clock 0))
    (haccepts : ∀ i, Accepts V peer build (env i))
    (hpressure : ∀ i space, (env i).gated space = false)
    {s : Puller σ}
    (hdb : Copied V peer s.db)
    {records : List SyncRecord}
    (h : Batchable peer s.db records)
    (order : HashOrder (String × List (Certificate × Zone)))
    {budget : Nat}
    (hbudget : 0 < budget) :
    ∃ out s', ingestSyncRecords (pullerOps V build env) V order records budget s =
        (.ok out, s') ∧
      out.failedSpaces = 0 ∧ out.incomplete = false ∧ Pulled V peer s.db s'.db ∧
      ∀ rec ∈ records, s'.db.Stores rec.handle := by
  let existing := getHandleHints s.db (records.map SyncRecord.handle)
  let survivors := records.filter (fun r => !isDuplicate V existing r)
  obtain ⟨decoded, hmap, hdecoded⟩ :=
    decodes_survivors hV hpeer h (records.map SyncRecord.handle)
  have hready : ∀ g ∈ order.arrange (bySpace V decoded), Ready V peer s.db g.1 g.2 :=
    fun g hg => ready_of_mem_bySpace h hdecoded (order.mem_arrange.1 hg)
  obtain ⟨stored, s', hspaces, hpulled, hstores⟩ :=
    ingestSpaces_ready hV hpeer hclock haccepts hpressure hdb hready existing
      { prefiltered := records.length - survivors.length } hbudget
  refine ⟨{ prefiltered := records.length - survivors.length, stored := stored }, s', ?_, rfl,
    rfl, hpulled, ?_⟩
  · have hhints : (pullerOps V build env).getHandleHints (records.map SyncRecord.handle) s =
        (.ok existing, s) := rfl
    have hlifted : (ExceptT.mk (pure (survivors.mapM (decodeRecord V))) :
        Task String (Puller σ) _) s = (.ok decoded, s) := by
      show (survivors.mapM (decodeRecord V), s) = _
      rw [hmap]
    unfold ingestSyncRecords
    rw [Task.bind_of_ok hhints]
    exact (Task.bind_of_ok hlifted _).trans hspaces
  · intro rec hrec
    rcases hdecoded.settled rec hrec with hold | ⟨cz, hcz, hsubject⟩
    · exact hpulled.keeps.stores _ hold
    · obtain ⟨g, hg, _, hmem⟩ := mem_bySpace V hcz (hdecoded.space cz hcz)
      rw [← hsubject]
      exact hstores g (order.mem_arrange.2 hg) cz hmem

end Batches

end CertRelay
