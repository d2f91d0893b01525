import CertRelay.Relay.PeerDisjoint

/-!
# Demotion of peers that fail to sync

A verified peer is demoted by its third sync failure in a row.  A health success does not
clear the count, but it promotes a peer that has been demoted, with a count of zero.

**Results.**
* `Charged.runOp`: while a peer stays verified its count only grows, by one at each failure;
* `broken_sync_demoted`: after three failures the peer is not verified, unless a success
  promoted it again after a demotion.
-/

namespace CertRelay
namespace PeerTable

variable {parse : UrlParse} {url : String} {k : ℕ} {t : PeerTable}

/-- The operation records a sync failure of the peer. -/
def isFailure (parse : UrlParse) (url : String) (step : Moment × PeerOp) : Bool :=
  match step.2 with
  | .recordSyncFailure raw => normalizeUrl parse raw == url
  | _ => false

/-- No sync success of the peer, no health success that promotes it, and no announcement that
is let in while its verified entry is stale. -/
def StaysBroken (parse : UrlParse) (url : String) (t : PeerTable) (step : Moment × PeerOp) :
    Prop :=
  match step.2 with
  | .announce peer => normalizeUrl parse peer.url = url → NoStale parse t step
  | .markAlive raw => normalizeUrl parse raw = url → t.verified.Has url
  | .markSynced raw => normalizeUrl parse raw ≠ url
  | _ => True

instance (parse : UrlParse) (url : String) (t : PeerTable) :
    ∀ step, Decidable (StaysBroken parse url t step)
  | (_, .announce _) => inferInstanceAs (Decidable (_ → _))
  | (_, .markAlive _) => inferInstanceAs (Decidable (_ → _))
  | (_, .markSynced _) => inferInstanceAs (Decidable (_ ≠ _))
  | (_, .setSelfUrl _) => isTrue trivial
  | (_, .remove _) => isTrue trivial
  | (_, .ensureSeed _) => isTrue trivial
  | (_, .recordSyncFailure _) => isTrue trivial
  | (_, .expireUnverified) => isTrue trivial
  | (_, .demoteExpired) => isTrue trivial

/-- While the peer is verified, `k` failures have been charged to it, too few to demote it,
and the next one will be. -/
def Charged (url : String) (k : ℕ) (t : PeerTable) : Prop :=
  ∀ p, t.verified.find? url = some p →
    k ≤ p.2.syncFailures ∧ k < syncFailuresBeforeDemote ∧ ¬ t.unverified.Has url

theorem Charged.not_verified
    (h : Charged url k t)
    (hk : syncFailuresBeforeDemote ≤ k) :
    ¬ t.verified.Has url := by
  intro hhas
  obtain ⟨p, hp⟩ := Option.isSome_iff_exists.1 (KeyedTable.isSome_find?.2 hhas)
  exact absurd (h p hp).2.1 (Nat.not_lt.2 hk)

theorem charged_of_not_has
    (h : ¬ t.verified.Has url) :
    Charged url k t :=
  fun _ hp => absurd (KeyedTable.has_of_find? hp) h

/-- An operation that clears no count and adds no second entry keeps the charge. -/
theorem Charged.of_kept
    {t' : PeerTable}
    (h : Charged url k t)
    (hverified : ∀ p', t'.verified.find? url = some p' →
      ∃ p, t.verified.find? url = some p ∧ p.2.syncFailures ≤ p'.2.syncFailures)
    (hunverified : t'.unverified.Has url → t.verified.Has url → t.unverified.Has url) :
    Charged url k t' := by
  intro p' hp'
  obtain ⟨p, hp, hle⟩ := hverified p' hp'
  obtain ⟨hcount, hk, hun⟩ := h p hp
  exact ⟨hcount.trans hle, hk, fun hun' => hun (hunverified hun' (KeyedTable.has_of_find? hp))⟩

theorem Charged.of_verified_eq
    {t' : PeerTable}
    (h : Charged url k t)
    (hverified : t'.verified = t.verified)
    (hunverified : t'.unverified.Has url → t.verified.Has url → t.unverified.Has url) :
    Charged url k t' :=
  h.of_kept (fun p' hp' => ⟨p', hverified ▸ hp', le_rfl⟩) hunverified

/-- A change of a verified entry that leaves the peer's count alone. -/
theorem Charged.update
    (h : Charged url k t)
    (url' : String)
    {f : PeerEntry → PeerEntry}
    (hf : url' = url → ∀ e, (f e).syncFailures = e.syncFailures) :
    Charged url k { t with verified := t.verified.update url' f } := by
  refine h.of_kept (fun p' hp' => ?_) (fun hun _ => hun)
  rw [Peers.update, KeyedTable.find?_modify] at hp'
  obtain ⟨p, hp, rfl⟩ := Option.map_eq_some_iff.1 hp'
  refine ⟨p, hp, ?_⟩
  split_ifs with he
  · exact (hf he.symm p.2).ge
  · exact le_rfl

theorem has_unverified_evictUnverified
    {order : HashOrder (String × PeerEntry)}
    (h : (evictUnverified order t).unverified.Has url) :
    t.unverified.Has url :=
  evictUnverified_keeps
    (P := fun t' => t'.unverified.Has url → t.unverified.Has url)
    (fun _ _ hsub hhas => hsub (KeyedTable.has_erase.1 hhas).1) id h

theorem find?_evictVerified
    {order : HashOrder (String × PeerEntry)}
    {p : String × PeerEntry}
    (h : (evictVerified order t).verified.find? url = some p) :
    t.verified.find? url = some p := by
  rw [KeyedTable.find?_eq_some_iff] at h ⊢
  exact ⟨evictVerified_keeps
    (P := fun t' => p ∈ t'.verified.rows → p ∈ t.verified.rows)
    (fun _ _ hsub hmem => hsub (KeyedTable.mem_erase.1 hmem).1) id h.1, h.2⟩

theorem Charged.announce
    (h : Charged url k t)
    (m : Moment)
    (peer : PeerInfo)
    (hok : StaysBroken parse url t (m, .announce peer)) :
    Charged url k (announce parse m peer t).2 := by
  unfold PeerTable.announce
  dsimp only
  by_cases hself : t.isSelf (normalizeUrl parse peer.url) = true
  · rw [if_pos hself]
    exact h
  · rw [if_neg hself]
    -- the entry added is another peer's, or the peer is not verified
    have hadd : ∀ (hfresh : ¬ (t.verified.find? (normalizeUrl parse peer.url)).any
          (fun p => t.fresh m.now p.2) = true)
        (haway : ¬ t.TurnedAway peer.sourceIp (normalizeUrl parse peer.url)) {t' : PeerTable},
        (t'.unverified.Has url → t.unverified.Has url) →
        (evictUnverified m.order (upsertUnverified m.now (normalizeUrl parse peer.url) peer
          t')).unverified.Has url → t.verified.Has url → t.unverified.Has url := by
      intro hfresh haway t' hsub hun hver
      rcases (KeyedTable.has_upsert _).1 (has_unverified_evictUnverified hun) with hold | rfl
      · exact hsub hold
      · have hstale := ((hok rfl).resolve_left hself).resolve_right haway
        exact absurd hver (not_has_verified hfresh hstale)
    split_ifs with hfresh hunspecified hfull
    · exact h.update _ fun _ _ => rfl
    · exact h
    · exact h.of_verified_eq (verified_evictUnverified _)
        (hadd hfresh (not_turnedAway_of_room hfull) id)
    · exact h.of_verified_eq (verified_evictUnverified _)
        (hadd hfresh (not_turnedAway_of_specified hunspecified) has_unverified_assignSlot)

/-- Another peer's promotion may evict the peer, and its own refreshes it. -/
theorem Charged.markAlive
    (h : Charged url k t)
    (m : Moment)
    {raw : String}
    (hok : normalizeUrl parse raw = url → t.verified.Has url) :
    Charged url k (markAlive parse m raw t) := by
  unfold PeerTable.markAlive
  dsimp only
  split_ifs with hver
  · exact h.update _ fun _ _ => rfl
  · cases hun : t.unverified.find? (normalizeUrl parse raw) with
    | none =>
        exact h
    | some p =>
        rw [KeyedTable.isSome_find?] at hver
        have hne : normalizeUrl parse raw ≠ url := fun he => hver (he ▸ hok he)
        dsimp only
        refine h.of_kept (fun p' hp' => ⟨p', ?_, le_rfl⟩) (fun hun' _ => ?_)
        · have hfind := find?_evictVerified hp'
          dsimp only at hfind
          rw [KeyedTable.find?_insertOrReplace_ne] at hfind
          · exact hfind
          · exact hne
        · rw [unverified_evictVerified] at hun'
          exact (KeyedTable.has_erase.1 hun').1

/-- A failure is charged, and the third demotes. -/
theorem Charged.recordSyncFailure
    (h : Charged url k t)
    (m : Moment)
    (raw : String) :
    Charged url (k + if normalizeUrl parse raw == url then 1 else 0)
      (recordSyncFailure parse m raw t) := by
  by_cases hurl : normalizeUrl parse raw = url
  · subst hurl
    rw [beq_self_eq_true, if_pos rfl]
    unfold PeerTable.recordSyncFailure
    dsimp only
    cases hver : t.verified.find? (normalizeUrl parse raw) with
    | none =>
        rw [KeyedTable.find?_eq_none] at hver
        apply charged_of_not_has
        split_ifs <;> exact hver
    | some p =>
        obtain ⟨hcount, hk, hun⟩ := h p hver
        rw [if_neg (by rwa [KeyedTable.isSome_find?])]
        dsimp only
        split_ifs with hdemote
        · apply charged_of_not_has
          simp
        · intro p' hp'
          rw [Peers.update, KeyedTable.find?_modify, hver, Option.map_some,
            Option.some_inj] at hp'
          subst hp'
          refine ⟨?_, by omega, fun hun' => hun hun'⟩
          rw [if_pos rfl]
          exact Nat.succ_le_succ hcount
  · rw [beq_eq_false_iff_ne.2 hurl, if_neg Bool.false_ne_true, add_zero]
    unfold PeerTable.recordSyncFailure
    dsimp only
    split_ifs
    · exact h.of_kept (fun p' hp' => ⟨p', hp', le_rfl⟩) (fun hun _ => has_update.1 hun)
    · cases t.verified.find? (normalizeUrl parse raw) with
      | none =>
          exact h
      | some p =>
          dsimp only
          split_ifs
          · refine h.of_kept (fun p' hp' => ⟨p', ?_, le_rfl⟩) (fun hun _ => ?_)
            · rwa [KeyedTable.find?_erase_ne _ (Ne.symm hurl)] at hp'
            · exact (KeyedTable.has_insertOrReplace.1 hun).resolve_right (Ne.symm hurl)
          · exact h.update _ fun he => absurd he hurl

theorem Charged.ensureSeed
    (h : Charged url k t)
    (m : Moment)
    (raw : String) :
    Charged url k (ensureSeed parse m raw t) := by
  unfold PeerTable.ensureSeed
  dsimp only
  split_ifs with hknown
  · exact h
  · rw [not_or, KeyedTable.isSome_find?] at hknown
    refine h.of_verified_eq (verified_evictUnverified _) (fun hun hver => ?_)
    rcases KeyedTable.has_insertOrIgnore.1 (has_unverified_evictUnverified hun) with hold | rfl
    · exact hold
    · exact absurd hver hknown.2

/-- An expired entry leaves `verified`, and the others do not enter `unverified`. -/
theorem Charged.demoteExpired
    (h : Charged url k t)
    (m : Moment) :
    Charged url k (demoteExpired m t) := by
  intro p hp
  have hkept := not_stale_of_has_demoteExpired (KeyedTable.has_of_find? hp)
  have hfind : t.verified.find? url = some p := by
    rw [KeyedTable.find?_eq_some_iff] at hp ⊢
    exact ⟨(KeyedTable.mem_filter.1 hp.1).1, hp.2⟩
  obtain ⟨hcount, hk, hun⟩ := h p hfind
  exact ⟨hcount, hk, fun hun' => (has_unverified_demoteExpired.1 hun').elim hun hkept⟩

/-- **While the peer stays verified its count only grows**, by one at each failure. -/
theorem Charged.runOp
    (h : Charged url k t)
    {step : Moment × PeerOp}
    (hok : StaysBroken parse url t step) :
    Charged url (k + if isFailure parse url step then 1 else 0) (runOp parse t step) := by
  obtain ⟨m, op⟩ := step
  cases op with
  | setSelfUrl raw =>
      exact h
  | announce peer =>
      exact h.announce m peer hok
  | markAlive raw =>
      exact h.markAlive m hok
  | markSynced raw =>
      have halive : Charged url k (PeerTable.markAlive parse m raw t) :=
        h.markAlive m fun he => absurd he hok
      exact halive.update _ fun he => absurd he hok
  | remove raw =>
      refine h.of_kept (fun p' hp' => ⟨p', ?_, le_rfl⟩) (fun hun _ => ?_)
      · rw [KeyedTable.find?_eq_some_iff] at hp' ⊢
        exact ⟨(KeyedTable.mem_erase.1 hp'.1).1, hp'.2⟩
      · exact (KeyedTable.has_erase.1 hun).1
  | ensureSeed raw =>
      exact h.ensureSeed m raw
  | recordSyncFailure raw =>
      exact h.recordSyncFailure m raw
  | expireUnverified =>
      exact h.of_verified_eq rfl fun hun _ => KeyedTable.Has.of_filter hun
  | demoteExpired =>
      exact h.demoteExpired m

/-- **Broken-sync peers are demoted.**  After three failures of a peer that is not waiting
in `unverified` as well, with no sync success and no promotion of it in between, the peer
is not verified. -/
theorem broken_sync_demoted
    (hun : ¬ t.unverified.Has url)
    {ops : List (Moment × PeerOp)}
    (hops : Runs.StepsMeet (PeerTable.runOp parse) (StaysBroken parse url) t ops)
    (hthree : 3 ≤ ops.countP (isFailure parse url)) :
    ¬ (ops.foldl (PeerTable.runOp parse) t).verified.Has url := by
  have hstart : Charged url 0 t := fun p _ => ⟨Nat.zero_le _, by decide, hun⟩
  have hend := hops.counted (isFailure parse url) (fun _ _ _ hs hok => hs.runOp hok) hstart
  apply hend.not_verified
  rwa [Nat.zero_add]

/-- A verified peer, its first two failures, and the failures that follow. -/
def verifiedPeer : List (Moment × PeerOp) :=
  [(clockStart, .announce ⟨.v4 1, "http://a", 0⟩), (clockStart, .markAlive "http://a")]

def failTwice : List (Moment × PeerOp) :=
  [(clockStart, .recordSyncFailure "http://a"), (clockStart, .recordSyncFailure "http://a")]

def failThrice : List (Moment × PeerOp) :=
  [(clockStart, .recordSyncFailure "http://a"), (clockStart, .markAlive "http://a"),
    (clockStart, .recordSyncFailure "http://a"), (clockStart, .recordSyncFailure "http://a")]

theorem broken_sync_demoted_sample :
    ¬ ((verifiedPeer ++ failThrice).foldl (PeerTable.runOp some) (new .default)).verified.Has
      "http://a" := by
  rw [List.foldl_append]
  exact broken_sync_demoted (by decide +kernel) (by decide +kernel) (by decide +kernel)

/-- The operation is neither a sync success nor the removal of the peer. -/
def spares (parse : UrlParse) (url : String) (step : Moment × PeerOp) : Bool :=
  match step.2 with
  | .markSynced raw => normalizeUrl parse raw != url
  | .remove raw => normalizeUrl parse raw != url
  | _ => true

/-- No sync success, removal, eviction or expiry of the peer. -/
def Undisturbed (parse : UrlParse) (url : String) (t : PeerTable) (step : Moment × PeerOp) :
    Prop :=
  spares parse url step = true ∧
    (isFailure parse url step = false → t.verified.Has url →
      (PeerTable.runOp parse t step).verified.Has url)

instance (parse : UrlParse) (url : String) (t : PeerTable) (step : Moment × PeerOp) :
    Decidable (Undisturbed parse url t step) :=
  inferInstanceAs (Decidable (_ ∧ (_ → _ → _)))

/-- The third failure in a row demotes, and the health success after it promotes: the two
failures that follow leave the peer verified. -/
theorem repromoted_peer_verified :
    ¬ ∀ (parse : UrlParse) (config : PeerConfig) (before ops : List (Moment × PeerOp))
        (url : String),
      (before.foldl (PeerTable.runOp parse) (new config)).verified.Has url →
      Runs.StepsMeet (PeerTable.runOp parse) (Undisturbed parse url)
        (before.foldl (PeerTable.runOp parse) (new config)) ops →
      (ops.head?.any (isFailure parse url) ∧ ops.getLast?.any (isFailure parse url)) →
      ops.countP (isFailure parse url) = 3 →
      ¬ (ops.foldl (PeerTable.runOp parse)
        (before.foldl (PeerTable.runOp parse) (new config))).verified.Has url := by
  intro h
  exact h some .default (verifiedPeer ++ failTwice) failThrice "http://a" (by decide +kernel)
    (by decide +kernel) (by decide +kernel) (by decide +kernel) (by decide +kernel)

end PeerTable
end CertRelay
