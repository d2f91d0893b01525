import CertRelay.Relay.PeerDemotion

/-!
# Announcements and the entries of others

An address owns one slot, which holds the URL it announced last.  When the address
announces another URL, the old one is dropped unless another slot holds it too.  An
announcement without an address owns no slot and is meant to displace nothing.

**Results.**
* `unattributed_displaces_nothing_iff`: an unattributed announcement leaves every entry
  in place exactly if it does not renew an entry of a map over capacity, since the
  eviction loop then runs for it as well;
* `switch_removes_own_announcement`: below capacity, an announcement removes at most
  the URL of the address's own slot, and only if no other slot holds it.
-/

namespace CertRelay
namespace PeerTable

variable {parse : UrlParse} {t : PeerTable}

theorem length_upsertUnverified
    (now : Nat)
    (url : String)
    (peer : PeerInfo)
    (t : PeerTable) :
    (upsertUnverified now url peer t).unverified.rows.length =
      t.unverified.rows.length + if (t.unverified.find? url).isNone then 1 else 0 :=
  KeyedTable.length_upsert _ t.unverified _

/-- One entry more fits into spare capacity. -/
theorem length_upsertUnverified_le
    (hroom : t.unverified.rows.length < t.config.maxUnverified)
    (now : Nat)
    (url : String)
    (peer : PeerInfo) :
    (upsertUnverified now url peer t).unverified.rows.length ≤ t.config.maxUnverified := by
  rw [length_upsertUnverified]
  refine le_trans ?_ (Nat.succ_le_of_lt hroom)
  split_ifs <;> omega

/-- What an announcement may do that displaces nothing: the entries of other URLs and the
slots are as before, none is lost, and one is added only into spare capacity. -/
structure Undisplaced (url : String) (t t' : PeerTable) : Prop where
  unverified : ∀ url', t.unverified.Has url' → t'.unverified.Has url'
  verified : ∀ url', t'.verified.Has url' ↔ t.verified.Has url'
  others : ∀ url', url' ≠ url →
    t'.unverified.find? url' = t.unverified.find? url' ∧
      t'.verified.find? url' = t.verified.find? url'
  slots : t'.ipSlots = t.ipSlots
  spare : t'.unverified.Has url →
    t.unverified.Has url ∨ t.unverified.rows.length < t.config.maxUnverified

theorem undisplaced_refl
    (url : String)
    (t : PeerTable) :
    Undisplaced url t t where
  unverified := fun _ h => h
  verified := fun _ => Iff.rfl
  others := fun _ _ => ⟨rfl, rfl⟩
  slots := rfl
  spare := Or.inl

theorem undisplaced_upsert
    {url : String}
    (hspare : t.unverified.Has url ∨ t.unverified.rows.length < t.config.maxUnverified)
    (now : Nat)
    (peer : PeerInfo) :
    Undisplaced url t (upsertUnverified now url peer t) where
  unverified := fun _ h => (KeyedTable.has_upsert _).2 (Or.inl h)
  verified := fun _ => Iff.rfl
  others := fun _ hne => ⟨KeyedTable.find?_upsert_ne _ _ (Ne.symm hne), rfl⟩
  slots := rfl
  spare := fun _ => hspare

/-- The announcement renews an unverified entry while the map is over capacity. -/
def RenewsOverCapacity (parse : UrlParse) (m : Moment) (peer : PeerInfo) (t : PeerTable) :
    Prop :=
  let url := normalizeUrl parse peer.url
  t.isSelf url = false ∧
    ¬ (t.verified.find? url).any (fun p => t.fresh m.now p.2) = true ∧
    t.unverified.Has url ∧ t.config.maxUnverified < t.unverified.rows.length

instance (parse : UrlParse) (m : Moment) (peer : PeerInfo) (t : PeerTable) :
    Decidable (RenewsOverCapacity parse m peer t) :=
  inferInstanceAs (Decidable (_ ∧ ¬ _ ∧ _ ∧ _))

/-- An eviction over capacity loses an entry. -/
theorem exists_evicted
    (order : HashOrder (String × PeerEntry))
    (t t' : PeerTable)
    (hover : t'.config.maxUnverified < t.unverified.rows.length) :
    ∃ url, t.unverified.Has url ∧ ¬ (evictUnverified order t').unverified.Has url := by
  by_contra hnone
  have hall : ∀ url, t.unverified.Has url → (evictUnverified order t').unverified.Has url :=
    fun url hhas => by_contra fun hgone => hnone ⟨url, hhas, hgone⟩
  have hlen := KeyedTable.length_le_of_keys t.unverified
    (evictUnverified order t').unverified (fun r hr => hall r.1 ⟨r, hr, rfl⟩)
  have hmax := length_evictUnverified_le order t'
  omega

/-- **An unattributed announcement displaces nothing exactly if it does not renew an entry
of a map over capacity.** -/
theorem unattributed_displaces_nothing_iff
    (parse : UrlParse)
    (peer : PeerInfo)
    (hun : peer.sourceIp.isUnspecified = true)
    (m : Moment)
    (t : PeerTable) :
    Undisplaced (normalizeUrl parse peer.url) t (announce parse m peer t).2 ↔
      ¬ RenewsOverCapacity parse m peer t := by
  unfold announce
  dsimp only
  split_ifs with hself hfresh hfull
  · exact iff_of_true (undisplaced_refl _ t) fun hbad =>
      Bool.noConfusion (hbad.1.symm.trans hself)
  · refine iff_of_true ⟨fun _ h => h, fun _ => has_update, fun url' hne => ⟨rfl, ?_⟩, rfl,
      Or.inl⟩ fun hbad => hbad.2.1 hfresh
    rw [Peers.update, KeyedTable.find?_modify]
    simp [hne]
  · rw [Option.isNone_iff_eq_none, KeyedTable.find?_eq_none] at hfull
    exact iff_of_true (undisplaced_refl _ t) fun hbad => hfull.1 hbad.2.2.1
  · rw [Bool.not_eq_true] at hself
    by_cases hhas : t.unverified.Has (normalizeUrl parse peer.url)
    · by_cases hover : t.config.maxUnverified < t.unverified.rows.length
      · refine iff_of_false (fun h => ?_) (fun hok => hok ⟨hself, hfresh, hhas, hover⟩)
        obtain ⟨url, hbefore, hafter⟩ := exists_evicted m.order t
          (upsertUnverified m.now (normalizeUrl parse peer.url) peer t) hover
        exact hafter (h.unverified url hbefore)
      · refine iff_of_true ?_ fun hbad => hover hbad.2.2.2
        rw [evictUnverified_of_le]
        · exact undisplaced_upsert (Or.inl hhas) _ _
        · rw [length_upsertUnverified, if_neg]
          · exact Nat.not_lt.1 hover
          · rwa [Option.isNone_iff_eq_none, KeyedTable.find?_eq_none, not_not]
    · refine iff_of_true ?_ fun hbad => hhas hbad.2.2.1
      have hroom : t.unverified.rows.length < t.config.maxUnverified := by
        rw [Option.isNone_iff_eq_none, KeyedTable.find?_eq_none] at hfull
        exact Nat.lt_of_not_le fun hle => hfull ⟨hhas, hle⟩
      rw [evictUnverified_of_le (length_upsertUnverified_le hroom _ _ _)]
      exact undisplaced_upsert (Or.inr hroom) _ _

/-- An entry learned from a peers list is renewed. -/
theorem unattributed_displaces_nothing_sample :
    Undisplaced "http://b" ((failingPeer.take 3).foldl (runOp some) (new .default))
      (announce some clockStart ⟨.v4 0, "http://b", 0⟩
        ((failingPeer.take 3).foldl (runOp some) (new .default))).2 :=
  (unattributed_displaces_nothing_iff some ⟨.v4 0, "http://b", 0⟩ (by decide)
    clockStart _).2 (by decide +kernel)

/-- A demotion has put a peer beside the announced one; the renewal evicts it. -/
theorem unattributed_renewal_evicts :
    ¬ ∀ (parse : UrlParse) (config : PeerConfig) (ops : List (Moment × PeerOp)) (m : Moment)
        (peer : PeerInfo), peer.sourceIp.isUnspecified = true →
      Undisplaced (normalizeUrl parse peer.url) (ops.foldl (runOp parse) (new config))
        (announce parse m peer (ops.foldl (runOp parse) (new config))).2 := by
  intro h
  have hkept := (h some tinyConfig failingPeer ⟨1, HashOrder.inserted⟩ ⟨.v4 0, "http://b", 0⟩
    (by decide)).unverified "http://a" (by decide +kernel)
  exact absurd hkept (by decide +kernel)

/-- An eviction adds no slot. -/
theorem mem_ipSlots_evictUnverified
    {order : HashOrder (String × PeerEntry)}
    {p : IpAddr × String}
    (h : p ∈ (evictUnverified order t).ipSlots.rows) :
    p ∈ t.ipSlots.rows :=
  evictUnverified_keeps (P := fun t' => p ∈ t'.ipSlots.rows → p ∈ t.ipSlots.rows)
    (fun _ _ hsub hmem => hsub (mem_freeSlots.1 hmem).1) id h

/-- A promotion adds no slot. -/
theorem mem_ipSlots_markAlive
    {m : Moment}
    {raw : String}
    {p : IpAddr × String}
    (h : p ∈ (markAlive parse m raw t).ipSlots.rows) :
    p ∈ t.ipSlots.rows := by
  unfold markAlive at h
  dsimp only at h
  split_ifs at h
  · exact h
  · cases hun : t.unverified.find? (normalizeUrl parse raw) with
    | none =>
        rwa [hun] at h
    | some e =>
        have hslots : ∀ t' : PeerTable, (evictVerified m.order t').ipSlots = t'.ipSlots :=
          fun t' => evictVerified_keeps (P := fun t'' => t''.ipSlots = t'.ipSlots)
            (fun _ _ he => he) rfl
        rw [hun] at h
        dsimp only at h
        rw [hslots] at h
        exact (mem_freeSlots.1 h).1

/-- A failed sync leaves the slots alone. -/
theorem ipSlots_recordSyncFailure
    (parse : UrlParse)
    (m : Moment)
    (raw : String)
    (t : PeerTable) :
    (recordSyncFailure parse m raw t).ipSlots = t.ipSlots := by
  unfold recordSyncFailure
  dsimp only
  split_ifs
  · rfl
  · cases t.verified.find? (normalizeUrl parse raw) with
    | none =>
        rfl
    | some e =>
        dsimp only
        split_ifs <;> rfl

/-- A slot holds a URL that its address announced. -/
theorem mem_ipSlots_runOp
    {step : Moment × PeerOp}
    {p : IpAddr × String}
    (h : p ∈ (runOp parse t step).ipSlots.rows) :
    p ∈ t.ipSlots.rows ∨
      ∃ peer, step.2 = .announce peer ∧ p = (peer.sourceIp, normalizeUrl parse peer.url) := by
  obtain ⟨m, op⟩ := step
  cases op with
  | announce peer =>
      simp only [runOp, announce] at h
      split_ifs at h
      · exact Or.inl h
      · exact Or.inl h
      · exact Or.inl h
      · have hold := mem_ipSlots_evictUnverified h
        exact Or.inl hold
      · have hold := mem_ipSlots_evictUnverified h
        rcases mem_ipSlots_assignSlot.1 hold with ⟨hmem, _⟩ | hnew
        · exact Or.inl hmem
        · exact Or.inr ⟨peer, rfl, hnew⟩
  | markAlive raw =>
      exact Or.inl (mem_ipSlots_markAlive h)
  | markSynced raw =>
      exact Or.inl (mem_ipSlots_markAlive h)
  | remove raw =>
      exact Or.inl (mem_freeSlots.1 h).1
  | ensureSeed raw =>
      simp only [runOp, ensureSeed] at h
      split_ifs at h
      · exact Or.inl h
      · have hold := mem_ipSlots_evictUnverified h
        exact Or.inl hold
  | recordSyncFailure raw =>
      have hsame := ipSlots_recordSyncFailure parse m raw t
      exact Or.inl (hsame ▸ h)
  | expireUnverified =>
      exact Or.inl (KeyedTable.mem_filter.1 h).1
  | _ =>
      exact Or.inl h

/-- The address of a slot has announced its URL during the run. -/
theorem slot_announced
    (config : PeerConfig)
    {ops : List (Moment × PeerOp)}
    {p : IpAddr × String}
    (h : p ∈ (ops.foldl (runOp parse) (new config)).ipSlots.rows) :
    ∃ step ∈ ops, ∃ peer, step.2 = .announce peer ∧
      p = (peer.sourceIp, normalizeUrl parse peer.url) := by
  induction ops using List.reverseRecOn with
  | nil =>
      exact absurd h List.not_mem_nil
  | append_singleton ops step ih =>
      rw [List.foldl_append] at h
      rcases mem_ipSlots_runOp h with hold | ⟨peer, hop, hp⟩
      · obtain ⟨step', hmem, hpeer⟩ := ih hold
        exact ⟨step', List.mem_append_left _ hmem, hpeer⟩
      · exact ⟨step, by simp, peer, hop, hp⟩

/-- The URL is the address's own announcement, and no other address has a slot for it. -/
structure OwnAnnouncement (parse : UrlParse) (ops : List (Moment × PeerOp)) (t : PeerTable)
    (ip : IpAddr) (url : String) : Prop where
  slot : (ip, url) ∈ t.ipSlots.rows
  alone : ∀ p ∈ t.ipSlots.rows, p.2 = url → p.1 = ip
  announced : ∃ step ∈ ops, ∃ peer, step.2 = .announce peer ∧
    (ip, url) = (peer.sourceIp, normalizeUrl parse peer.url)

theorem config_foldl
    (parse : UrlParse)
    (config : PeerConfig)
    (ops : List (Moment × PeerOp)) :
    (ops.foldl (runOp parse) (new config)).config = config := by
  induction ops using List.reverseRecOn with
  | nil =>
      rfl
  | append_singleton ops step ih =>
      rw [List.foldl_append]
      exact (config_runOp parse _ step).trans ih

/-- Below capacity an announcement does not evict. -/
theorem length_announced_le
    (hroom : t.unverified.rows.length < t.config.maxUnverified)
    (now : Nat)
    (url : String)
    (peer : PeerInfo) :
    (upsertUnverified now url peer (assignSlot peer.sourceIp url t)).unverified.rows.length ≤
      (upsertUnverified now url peer (assignSlot peer.sourceIp url t)).config.maxUnverified := by
  have hassigned : (assignSlot peer.sourceIp url t).unverified.rows.length ≤
      t.unverified.rows.length := by
    rcases unverified_assignSlot peer.sourceIp url t with hsame | ⟨oldUrl, -, -, -, herase⟩
    · rw [hsame]
    · rw [herase]
      exact t.unverified.length_erase_le _
  exact length_upsertUnverified_le (lt_of_le_of_lt hassigned hroom) now url peer

/-- **A switch of announcement removes at most the address's own announcement.** -/
theorem switch_removes_own_announcement
    (parse : UrlParse)
    (config : PeerConfig)
    (ops : List (Moment × PeerOp))
    (peer : PeerInfo)
    (hattributed : peer.sourceIp.isUnspecified = false)
    (hroom : (ops.foldl (runOp parse) (new config)).unverified.rows.length <
      config.maxUnverified)
    (m : Moment)
    {url : String}
    (hhas : (ops.foldl (runOp parse) (new config)).unverified.Has url)
    (hgone : ¬ (announce parse m peer
      (ops.foldl (runOp parse) (new config))).2.unverified.Has url) :
    url ≠ normalizeUrl parse peer.url ∧
      OwnAnnouncement parse ops (ops.foldl (runOp parse) (new config)) peer.sourceIp url := by
  have hconfig := config_foldl parse config ops
  generalize ht : ops.foldl (runOp parse) (new config) = t at *
  unfold announce at hgone
  dsimp only at hgone
  split_ifs at hgone with hself hfresh hunspecified hfull
  · exact absurd hhas hgone
  · exact absurd hhas hgone
  · exact absurd hhas hgone
  · exact Bool.noConfusion (hattributed.symm.trans hunspecified)
  · rw [evictUnverified_of_le (length_announced_le (hconfig ▸ hroom) _ _ _)] at hgone
    have hlost := mt (KeyedTable.has_upsert _).2 hgone
    rw [not_or] at hlost
    refine ⟨hlost.2, ?_⟩
    rcases unverified_assignSlot peer.sourceIp (normalizeUrl parse peer.url) t with
      hsame | ⟨oldUrl, hslot, -, hothers, herase⟩
    · rw [hsame] at hlost
      exact absurd hhas hlost.1
    · rw [herase, KeyedTable.has_erase, not_and, not_not] at hlost
      obtain rfl := hlost.1 hhas
      refine ⟨hslot, fun p hp he => ?_, slot_announced config (by rw [ht]; exact hslot)⟩
      by_contra hne
      exact hothers p hp hne he

/-- One address announces one URL and then another. -/
theorem switch_removes_own_announcement_sample :
    "http://a" ≠ normalizeUrl some "http://b" ∧
      OwnAnnouncement some [(clockStart, .announce ⟨.v4 1, "http://a", 0⟩)]
        ([(clockStart, PeerOp.announce ⟨.v4 1, "http://a", 0⟩)].foldl (runOp some)
          (new .default)) (.v4 1) "http://a" :=
  switch_removes_own_announcement some .default
    [(clockStart, .announce ⟨.v4 1, "http://a", 0⟩)] ⟨.v4 1, "http://b", 0⟩
    (by decide) (by decide +kernel) clockStart (by decide +kernel) (by decide +kernel)

/-- The operation puts the URL into `unverified`. -/
def Introduces (parse : UrlParse) (url : String) (t : PeerTable) (step : Moment × PeerOp) :
    Prop :=
  ¬ t.unverified.Has url ∧ (runOp parse t step).unverified.Has url

/-- A configured seed that an address has announced as well. -/
def announcedSeed : List (Moment × PeerOp) :=
  [(clockStart, .ensureSeed "http://seed"), (clockStart, .announce ⟨.v4 1, "http://seed", 0⟩)]

/-- The next announcement of the address removes the seed. -/
theorem switch_removes_seed :
    ¬ ∀ (parse : UrlParse) (config : PeerConfig) (ops : List (Moment × PeerOp)) (m : Moment)
        (peer : PeerInfo) (url : String),
      peer.sourceIp.isUnspecified = false →
      (ops.foldl (runOp parse) (new config)).unverified.rows.length < config.maxUnverified →
      (ops.foldl (runOp parse) (new config)).unverified.Has url →
      ¬ (announce parse m peer (ops.foldl (runOp parse) (new config))).2.unverified.Has url →
      ∀ before step after, ops = before ++ step :: after →
        Introduces parse url (before.foldl (runOp parse) (new config)) step →
        ∃ peer', step.2 = .announce peer' ∧ peer'.sourceIp = peer.sourceIp := by
  intro h
  obtain ⟨peer, hop, _⟩ := h some .default announcedSeed clockStart ⟨.v4 1, "http://b", 0⟩
    "http://seed" (by decide) (by decide +kernel) (by decide +kernel) (by decide +kernel)
    [] (clockStart, .ensureSeed "http://seed")
    [(clockStart, .announce ⟨.v4 1, "http://seed", 0⟩)] rfl
    ⟨by decide +kernel, by decide +kernel⟩
  exact PeerOp.noConfusion hop

/-- Given room, the announcement of a stale verified peer puts it into both maps. -/
theorem overlap_of_stale
    {peer : PeerInfo}
    {m : Moment}
    (hself : t.isSelf (normalizeUrl parse peer.url) = false)
    (hstale : t.Stale m.now (normalizeUrl parse peer.url))
    (hroom : t.unverified.rows.length < t.config.maxUnverified) :
    ¬ Disjoint (announce parse m peer t).2 := by
  obtain ⟨p, hp, hold⟩ := hstale
  have hver := KeyedTable.has_of_find? hp
  refine fun h => h.apart (normalizeUrl parse peer.url) ?_ ?_ <;> unfold announce <;>
    simp only [hself, hp, hold, Option.any_some, Bool.false_eq_true, if_false]
  · split_ifs with hunspecified hfull
    · exact absurd hfull.2 (Nat.not_le.2 hroom)
    · rw [evictUnverified_of_le (length_upsertUnverified_le hroom _ _ _)]
      exact (KeyedTable.has_upsert _).2 (Or.inr rfl)
    · rw [evictUnverified_of_le (length_announced_le hroom _ _ _)]
      exact (KeyedTable.has_upsert _).2 (Or.inr rfl)
  · split_ifs
    · exact hver
    · rw [verified_evictUnverified]
      exact hver
    · rw [verified_evictUnverified]
      exact hver

end PeerTable
end CertRelay
