import CertRelay.Relay.PeerTable

/-!
# Disjointness of the peer maps

A peer is either waiting for a health check or verified.  Every operation moves an entry
from one map to the other, except the announcement of a peer whose verified entry has
gone stale: it enters `unverified` and stays in `verified`.  From then on the two maps
overlap, and a slot may be left pointing to a URL that neither map has.

**Results.**
* `Tidy.runOp`: each operation keeps the maps apart, our own URL out of both, and the
  slots inside `unverified`, unless it announces a stale verified peer or makes the URL
  of a known peer our own;
* `disjoint_of_noStale`: so do runs.
-/

namespace CertRelay
namespace PeerTable

/-- No URL is in both maps, our own is in neither, and each slot points to an entry. -/
structure Disjoint (t : PeerTable) : Prop where
  apart : ∀ url, t.unverified.Has url → ¬ t.verified.Has url
  notSelf : ∀ url, t.isSelf url → ¬ t.unverified.Has url ∧ ¬ t.verified.Has url
  slots : ∀ p ∈ t.ipSlots.rows, t.unverified.Has p.2 ∨ t.verified.Has p.2

/-- The invariant: a slot points to an unverified entry. -/
structure Tidy (t : PeerTable) : Prop where
  apart : ∀ url, t.unverified.Has url → ¬ t.verified.Has url
  notSelf : ∀ url, t.isSelf url → ¬ t.unverified.Has url ∧ ¬ t.verified.Has url
  slots : ∀ p ∈ t.ipSlots.rows, t.unverified.Has p.2

theorem Tidy.disjoint
    {t : PeerTable}
    (h : Tidy t) :
    Disjoint t :=
  ⟨h.apart, h.notSelf, fun p hp => Or.inl (h.slots p hp)⟩

/-- The verified entry of the URL has outlived its lifetime. -/
def Stale (t : PeerTable) (now : Nat) (url : String) : Prop :=
  ∃ p, t.verified.find? url = some p ∧ t.fresh now p.2 = false

theorem stale_iff
    {t : PeerTable}
    {now : Nat}
    {url : String} :
    t.Stale now url ↔ (t.verified.find? url).any (fun p => !t.fresh now p.2) = true := by
  rw [Option.any_eq_true]
  simp only [Stale, Bool.not_eq_true']

instance (t : PeerTable) (now : Nat) (url : String) : Decidable (t.Stale now url) :=
  decidable_of_iff _ stale_iff.symm

/-- An announcement that names no address is turned away, for lack of room. -/
def TurnedAway (t : PeerTable) (ip : IpAddr) (url : String) : Prop :=
  ip.isUnspecified = true ∧ ¬ t.unverified.Has url ∧
    t.config.maxUnverified ≤ t.unverified.rows.length

instance (t : PeerTable) (ip : IpAddr) (url : String) : Decidable (t.TurnedAway ip url) :=
  inferInstanceAs (Decidable (_ ∧ ¬ _ ∧ _))

/-- What keeps the maps apart: a peer that is announced is not stale in `verified` or is turned
away, and a URL that becomes our own is unknown. -/
def NoStale (parse : UrlParse) (t : PeerTable) (step : Moment × PeerOp) : Prop :=
  match step.2 with
  | .announce peer =>
      t.isSelf (normalizeUrl parse peer.url) ∨
        ¬ t.Stale step.1.now (normalizeUrl parse peer.url) ∨
        t.TurnedAway peer.sourceIp (normalizeUrl parse peer.url)
  | .setSelfUrl url =>
      ¬ t.unverified.Has (normalizeUrl parse url) ∧ ¬ t.verified.Has (normalizeUrl parse url)
  | _ => True

instance (parse : UrlParse) (t : PeerTable) : ∀ step, Decidable (NoStale parse t step)
  | (_, .announce _) => inferInstanceAs (Decidable (_ ∨ ¬ _ ∨ _))
  | (_, .setSelfUrl _) => inferInstanceAs (Decidable (¬ _ ∧ ¬ _))
  | (_, .markAlive _) => isTrue trivial
  | (_, .markSynced _) => isTrue trivial
  | (_, .remove _) => isTrue trivial
  | (_, .ensureSeed _) => isTrue trivial
  | (_, .recordSyncFailure _) => isTrue trivial
  | (_, .expireUnverified) => isTrue trivial
  | (_, .demoteExpired) => isTrue trivial

variable {parse : UrlParse}

@[simp] theorem has_update
    {peers : Peers}
    {url url' : String}
    {f : PeerEntry → PeerEntry} :
    (peers.update url f).Has url' ↔ peers.Has url' :=
  KeyedTable.has_modify _

theorem mem_freeSlots
    {url : String}
    {t : PeerTable}
    {p : IpAddr × String} :
    p ∈ (freeSlots url t).ipSlots.rows ↔ p ∈ t.ipSlots.rows ∧ p.2 ≠ url := by
  simp [freeSlots]

/-- Dropping an unverified entry frees its slots. -/
theorem Tidy.dropUnverified
    {t : PeerTable}
    (h : Tidy t)
    (url : String) :
    Tidy (dropUnverified url t) where
  apart := fun url' hun => h.apart url' (KeyedTable.has_erase.1 hun).1
  notSelf := fun url' hself =>
    ⟨fun hun => (h.notSelf url' hself).1 (KeyedTable.has_erase.1 hun).1,
      (h.notSelf url' hself).2⟩
  slots := fun p hp => by
    obtain ⟨hp, hne⟩ := mem_freeSlots.1 hp
    exact KeyedTable.has_erase.2 ⟨h.slots p hp, hne⟩

theorem Tidy.evictUnverified
    {t : PeerTable}
    (h : Tidy t)
    (order : HashOrder (String × PeerEntry)) :
    Tidy (evictUnverified order t) :=
  evictUnverified_keeps (fun url _ ht => ht.dropUnverified url) h

/-- Verified entries may be dropped at will: no slot points to them. -/
theorem Tidy.of_verified_sub
    {t t' : PeerTable}
    (h : Tidy t)
    (hslots : t'.ipSlots = t.ipSlots)
    (hunverified : t'.unverified = t.unverified)
    (hself : t'.selfUrl = t.selfUrl)
    (hverified : ∀ url, t'.verified.Has url → t.verified.Has url) :
    Tidy t' where
  apart := fun url hun hver => h.apart url (hunverified ▸ hun) (hverified url hver)
  notSelf := fun url hisSelf => by
    have hown := h.notSelf url (by rwa [isSelf, hself] at hisSelf)
    exact ⟨fun hun => hown.1 (hunverified ▸ hun), fun hver => hown.2 (hverified url hver)⟩
  slots := fun p hp => hunverified ▸ h.slots p (hslots ▸ hp)

theorem Tidy.evictVerified
    {t : PeerTable}
    (h : Tidy t)
    (order : HashOrder (String × PeerEntry)) :
    Tidy (evictVerified order t) :=
  evictVerified_keeps
    (fun _ _ ht => ht.of_verified_sub rfl rfl rfl
      (fun _ hver => (KeyedTable.has_erase.1 hver).1)) h

/-- An entry may be added under a URL that is neither verified nor our own. -/
theorem Tidy.of_unverified_add
    {t t' : PeerTable}
    (h : Tidy t)
    {url : String}
    (hver : ¬ t.verified.Has url)
    (hself : t.isSelf url = false)
    (hslots : ∀ p ∈ t'.ipSlots.rows, p ∈ t.ipSlots.rows ∨ p.2 = url)
    (hunverified : ∀ url', t'.unverified.Has url' ↔ t.unverified.Has url' ∨ url' = url)
    (hverified : ∀ url', t'.verified.Has url' → t.verified.Has url')
    (hselfUrl : t'.selfUrl = t.selfUrl) :
    Tidy t' where
  apart := fun url' hun hver' => by
    rcases (hunverified url').1 hun with hold | rfl
    · exact h.apart url' hold (hverified url' hver')
    · exact hver (hverified url' hver')
  notSelf := fun url' hisSelf => by
    rw [isSelf, hselfUrl] at hisSelf
    have hown := h.notSelf url' hisSelf
    refine ⟨fun hun => ?_, fun hver' => hown.2 (hverified url' hver')⟩
    rcases (hunverified url').1 hun with hold | rfl
    · exact hown.1 hold
    · rw [isSelf] at hself
      rw [hself] at hisSelf
      exact Bool.noConfusion hisSelf
  slots := fun p hp => (hunverified p.2).2 ((hslots p hp).imp_left (h.slots p))

/-- What giving a slot to a URL does to `unverified`: the address's earlier URL goes if it
is another one and no other address points to it. -/
theorem unverified_assignSlot
    (ip : IpAddr)
    (url : String)
    (t : PeerTable) :
    (assignSlot ip url t).unverified = t.unverified ∨
      ∃ oldUrl, (ip, oldUrl) ∈ t.ipSlots.rows ∧ oldUrl ≠ url ∧
        (∀ p ∈ t.ipSlots.rows, p.1 ≠ ip → p.2 ≠ oldUrl) ∧
        (assignSlot ip url t).unverified = t.unverified.erase oldUrl := by
  unfold assignSlot
  cases hslot : t.ipSlots.find? ip with
  | none =>
      exact Or.inl rfl
  | some slot =>
      obtain ⟨ip', oldUrl⟩ := slot
      obtain ⟨hmem, rfl⟩ := KeyedTable.find?_eq_some_iff.1 hslot
      dsimp only
      split_ifs with hgone
      · refine Or.inr ⟨oldUrl, hmem, hgone.1, fun p hp hne he => hgone.2 ?_, rfl⟩
        exact List.any_eq_true.2 ⟨p, hp, by simp [hne, he]⟩
      · exact Or.inl rfl

/-- Giving a slot to a URL adds no entry. -/
theorem has_unverified_assignSlot
    {ip : IpAddr}
    {url url' : String}
    {t : PeerTable}
    (h : (assignSlot ip url' t).unverified.Has url) :
    t.unverified.Has url := by
  rcases unverified_assignSlot ip url' t with hsame | ⟨oldUrl, -, -, -, herase⟩
  · rwa [hsame] at h
  · rw [herase] at h
    exact (KeyedTable.has_erase.1 h).1

theorem mem_ipSlots_assignSlot
    {ip : IpAddr}
    {url : String}
    {t : PeerTable}
    {p : IpAddr × String} :
    p ∈ (assignSlot ip url t).ipSlots.rows ↔
      (p ∈ t.ipSlots.rows ∧ p.1 ≠ ip) ∨ p = (ip, url) :=
  KeyedTable.mem_insertOrReplace

/-- The URL of another address's slot stays. -/
theorem Tidy.assigned
    {t : PeerTable}
    (h : Tidy t)
    (ip : IpAddr)
    {url : String}
    (hver : ¬ t.verified.Has url)
    (hself : t.isSelf url = false)
    (now : Nat)
    (peer : PeerInfo) :
    Tidy (upsertUnverified now url peer (assignSlot ip url t)) := by
  have hkeep : ∀ p ∈ t.ipSlots.rows, p.1 ≠ ip → (assignSlot ip url t).unverified.Has p.2 := by
    intro p hp hne
    rcases unverified_assignSlot ip url t with hsame | ⟨oldUrl, -, -, hothers, herase⟩
    · rw [hsame]
      exact h.slots p hp
    · rw [herase]
      exact KeyedTable.has_erase.2 ⟨h.slots p hp, hothers p hp hne⟩
  have hadd : ∀ url', (upsertUnverified now url peer (assignSlot ip url t)).unverified.Has url' ↔
      (assignSlot ip url t).unverified.Has url' ∨ url' = url :=
    fun url' => KeyedTable.has_upsert _
  refine ⟨fun url' hun => ?_, fun url' hisSelf => ⟨fun hun => ?_, (h.notSelf url' hisSelf).2⟩,
    fun p hp => ?_⟩
  · rcases (hadd url').1 hun with hold | rfl
    · exact h.apart url' (has_unverified_assignSlot hold)
    · exact hver
  · rcases (hadd url').1 hun with hold | rfl
    · exact (h.notSelf url' hisSelf).1 (has_unverified_assignSlot hold)
    · exact Bool.noConfusion (hself.symm.trans hisSelf)
  · rcases mem_ipSlots_assignSlot.1 hp with ⟨hmem, hne⟩ | rfl
    · exact (hadd p.2).2 (Or.inl (hkeep p hmem hne))
    · exact (hadd url).2 (Or.inr rfl)

theorem not_turnedAway_of_specified
    {t : PeerTable}
    {ip : IpAddr}
    {url : String}
    (h : ¬ ip.isUnspecified = true) :
    ¬ t.TurnedAway ip url :=
  fun haway => h haway.1

theorem not_turnedAway_of_room
    {t : PeerTable}
    {ip : IpAddr}
    {url : String}
    (h : ¬ ((t.unverified.find? url).isNone = true ∧
      t.config.maxUnverified ≤ t.unverified.rows.length)) :
    ¬ t.TurnedAway ip url := by
  rintro ⟨-, hunknown, hfull⟩
  refine h ⟨?_, hfull⟩
  rw [Option.isNone_iff_eq_none]
  exact KeyedTable.find?_eq_none.2 hunknown

/-- A peer that is neither our own nor fresh in `verified` is not verified at all if it
is not stale. -/
theorem not_has_verified
    {t : PeerTable}
    {now : Nat}
    {url : String}
    (hfresh : ¬ (t.verified.find? url).any (fun p => t.fresh now p.2) = true)
    (hstale : ¬ t.Stale now url) :
    ¬ t.verified.Has url := by
  intro hhas
  obtain ⟨p, hp⟩ := Option.isSome_iff_exists.1 (KeyedTable.isSome_find?.2 hhas)
  rw [hp, Option.any_some, Bool.not_eq_true] at hfresh
  exact hstale ⟨p, hp, hfresh⟩

theorem Tidy.announce
    {t : PeerTable}
    (h : Tidy t)
    (m : Moment)
    (peer : PeerInfo)
    (hok : NoStale parse t (m, .announce peer)) :
    Tidy (announce parse m peer t).2 := by
  unfold PeerTable.announce
  dsimp only
  by_cases hself : t.isSelf (normalizeUrl parse peer.url) = true
  · rw [if_pos hself]
    exact h
  · rw [if_neg hself]
    have hstale := hok.resolve_left hself
    rw [Bool.not_eq_true] at hself
    split_ifs with hfresh hunspecified hfull
    · exact h.of_verified_sub rfl rfl rfl fun _ hver => has_update.1 hver
    · exact h
    · have hver := not_has_verified hfresh (hstale.resolve_right (not_turnedAway_of_room hfull))
      refine Tidy.evictUnverified ?_ m.order
      exact h.of_unverified_add hver hself (fun _ hp => Or.inl hp)
        (fun _ => KeyedTable.has_upsert _) (fun _ hver => hver) rfl
    · have hver := not_has_verified hfresh
        (hstale.resolve_right (not_turnedAway_of_specified hunspecified))
      exact (h.assigned _ hver hself _ _).evictUnverified m.order

/-- A promotion takes the entry and its slots out of `unverified` first. -/
theorem Tidy.markAlive
    {t : PeerTable}
    (h : Tidy t)
    (m : Moment)
    (url : String) :
    Tidy (markAlive parse m url t) := by
  unfold PeerTable.markAlive
  dsimp only
  split_ifs with hver
  · exact h.of_verified_sub rfl rfl rfl fun _ hver => has_update.1 hver
  · cases hun : t.unverified.find? (normalizeUrl parse url) with
    | none =>
        exact h
    | some p =>
        have hhas := KeyedTable.has_of_find? hun
        have hdrop := h.dropUnverified (normalizeUrl parse url)
        apply Tidy.evictVerified
        refine ⟨fun url' hun' hver' => ?_, fun url' hisSelf => ?_, hdrop.slots⟩
        · rcases KeyedTable.has_insertOrReplace.1 hver' with hold | rfl
          · exact hdrop.apart url' hun' hold
          · exact (KeyedTable.has_erase.1 hun').2 rfl
        · refine ⟨(hdrop.notSelf url' hisSelf).1, fun hver' => ?_⟩
          rcases KeyedTable.has_insertOrReplace.1 hver' with hold | rfl
          · exact (hdrop.notSelf url' hisSelf).2 hold
          · exact (h.notSelf _ hisSelf).1 hhas

theorem Tidy.remove
    {t : PeerTable}
    (h : Tidy t)
    (url : String) :
    Tidy (remove parse url t) :=
  (h.dropUnverified (normalizeUrl parse url)).of_verified_sub rfl rfl rfl
    fun _ hver => (KeyedTable.has_erase.1 hver).1

theorem Tidy.ensureSeed
    {t : PeerTable}
    (h : Tidy t)
    (m : Moment)
    (url : String) :
    Tidy (ensureSeed parse m url t) := by
  unfold PeerTable.ensureSeed
  dsimp only
  split_ifs with hknown
  · exact h
  · rw [not_or, Bool.not_eq_true, KeyedTable.isSome_find?] at hknown
    refine Tidy.evictUnverified ?_ m.order
    exact h.of_unverified_add hknown.2 hknown.1 (fun _ hp => Or.inl hp)
      (fun _ => KeyedTable.has_insertOrIgnore) (fun _ hver => hver) rfl

/-- A demotion by failures moves the entry. -/
theorem Tidy.recordSyncFailure
    {t : PeerTable}
    (h : Tidy t)
    (m : Moment)
    (url : String) :
    Tidy (recordSyncFailure parse m url t) := by
  unfold PeerTable.recordSyncFailure
  dsimp only
  split_ifs with hun
  · exact ⟨fun url' hun' => h.apart url' (has_update.1 hun'),
      fun url' hisSelf => ⟨fun hun' => (h.notSelf url' hisSelf).1 (has_update.1 hun'),
        (h.notSelf url' hisSelf).2⟩,
      fun p hp => has_update.2 (h.slots p hp)⟩
  · cases hver : t.verified.find? (normalizeUrl parse url) with
    | none =>
        exact h
    | some p =>
        have hhas := KeyedTable.has_of_find? hver
        dsimp only
        split_ifs with hcount
        · refine ⟨fun url' hun' hver' => ?_, fun url' hisSelf => ⟨fun hun' => ?_, fun hver' =>
            (h.notSelf url' hisSelf).2 (KeyedTable.has_erase.1 hver').1⟩, fun q hq =>
            KeyedTable.has_insertOrReplace.2 (Or.inl (h.slots q hq))⟩
          · obtain ⟨hver', hne⟩ := KeyedTable.has_erase.1 hver'
            rcases KeyedTable.has_insertOrReplace.1 hun' with hold | rfl
            · exact h.apart url' hold hver'
            · exact hne rfl
          · rcases KeyedTable.has_insertOrReplace.1 hun' with hold | rfl
            · exact (h.notSelf url' hisSelf).1 hold
            · exact (h.notSelf _ hisSelf).2 hhas
        · exact h.of_verified_sub rfl rfl rfl fun _ hver' => has_update.1 hver'

/-- A slot of an expired entry is freed: no verified entry can keep it. -/
theorem Tidy.expireUnverified
    {t : PeerTable}
    (h : Tidy t)
    (m : Moment) :
    Tidy (expireUnverified m t) where
  apart := fun url hun => h.apart url (KeyedTable.Has.of_filter hun)
  notSelf := fun url hisSelf =>
    ⟨fun hun => (h.notSelf url hisSelf).1 (KeyedTable.Has.of_filter hun),
      (h.notSelf url hisSelf).2⟩
  slots := fun p hp => by
    obtain ⟨hp, hkept⟩ := KeyedTable.mem_filter.1 hp
    rw [Bool.or_eq_true, KeyedTable.isSome_find?, KeyedTable.isSome_find?] at hkept
    exact hkept.resolve_right (h.apart p.2 (h.slots p hp))

/-- The keys of `unverified` after expired entries were moved into it. -/
theorem has_unverified_demoteExpired
    {m : Moment}
    {t : PeerTable}
    {url : String} :
    (demoteExpired m t).unverified.Has url ↔ t.unverified.Has url ∨ t.Stale m.now url := by
  simp only [demoteExpired]
  rw [KeyedTable.has_foldl_insertOrIgnore]
  apply or_congr_right
  simp only [List.mem_map, List.mem_filter, m.order.mem_arrange, Stale,
    KeyedTable.find?_eq_some_iff]
  constructor
  · rintro ⟨_, ⟨p, ⟨hp, hstale⟩, rfl⟩, rfl⟩
    exact ⟨p, ⟨hp, rfl⟩, by simpa using hstale⟩
  · rintro ⟨p, ⟨hp, rfl⟩, hstale⟩
    exact ⟨_, ⟨p, ⟨hp, by simpa using hstale⟩, rfl⟩, rfl⟩

/-- What stays in `verified` is fresh. -/
theorem not_stale_of_has_demoteExpired
    {m : Moment}
    {t : PeerTable}
    {url : String}
    (h : (demoteExpired m t).verified.Has url) :
    ¬ t.Stale m.now url := by
  obtain ⟨p, hp, rfl⟩ := h
  obtain ⟨hmem, hfresh⟩ := KeyedTable.mem_filter.1 hp
  rintro ⟨q, hq, hstale⟩
  obtain ⟨hqmem, hkey⟩ := KeyedTable.find?_eq_some_iff.1 hq
  rw [t.verified.eq_of_key_eq hqmem hmem hkey, hfresh] at hstale
  exact Bool.noConfusion hstale

theorem Stale.has
    {t : PeerTable}
    {now : Nat}
    {url : String}
    (h : t.Stale now url) :
    t.verified.Has url := by
  obtain ⟨p, hp, _⟩ := h
  exact KeyedTable.has_of_find? hp

theorem Tidy.demoteExpired
    {t : PeerTable}
    (h : Tidy t)
    (m : Moment) :
    Tidy (demoteExpired m t) where
  apart := fun url hun hver =>
    (has_unverified_demoteExpired.1 hun).elim
      (fun hold => h.apart url hold (KeyedTable.Has.of_filter hver))
      (not_stale_of_has_demoteExpired hver)
  notSelf := fun url hisSelf => by
    have hown := h.notSelf url hisSelf
    exact ⟨fun hun => (has_unverified_demoteExpired.1 hun).elim hown.1
        (fun hstale => hown.2 hstale.has),
      fun hver => hown.2 (KeyedTable.Has.of_filter hver)⟩
  slots := fun p hp => has_unverified_demoteExpired.2 (Or.inl (h.slots p hp))

theorem Tidy.setSelfUrl
    {t : PeerTable}
    (h : Tidy t)
    {url : String}
    (hunknown : ¬ t.unverified.Has (normalizeUrl parse url) ∧
      ¬ t.verified.Has (normalizeUrl parse url)) :
    Tidy (setSelfUrl parse url t) where
  apart := h.apart
  notSelf := fun url' hisSelf => by
    have hurl : normalizeUrl parse url = url' := by
      simpa [isSelf, PeerTable.setSelfUrl] using hisSelf
    rw [hurl] at hunknown
    exact hunknown
  slots := h.slots

/-- **Each operation keeps the table tidy**, but for the announcement of a stale peer that is
let in. -/
theorem Tidy.runOp
    {t : PeerTable}
    (h : Tidy t)
    {step : Moment × PeerOp}
    (hok : NoStale parse t step) :
    Tidy (runOp parse t step) := by
  obtain ⟨m, op⟩ := step
  cases op with
  | setSelfUrl url =>
      exact h.setSelfUrl hok
  | announce peer =>
      exact h.announce m peer hok
  | markAlive url =>
      exact h.markAlive m url
  | markSynced url =>
      exact (h.markAlive m url).of_verified_sub rfl rfl rfl fun _ hver => has_update.1 hver
  | remove url =>
      exact h.remove url
  | ensureSeed url =>
      exact h.ensureSeed m url
  | recordSyncFailure url =>
      exact h.recordSyncFailure m url
  | expireUnverified =>
      exact h.expireUnverified m
  | demoteExpired =>
      exact h.demoteExpired m

theorem tidy_new
    (config : PeerConfig) :
    Tidy (new config) where
  apart := fun _ hun => absurd hun (KeyedTable.not_has_empty _)
  notSelf := fun _ hisSelf => Bool.noConfusion hisSelf
  slots := fun _ hp => absurd hp List.not_mem_nil

theorem tidy_of_noStale
    (config : PeerConfig)
    {ops : List (Moment × PeerOp)}
    (h : Runs.StepsMeet (runOp parse) (NoStale parse) (new config) ops) :
    Tidy (ops.foldl (PeerTable.runOp parse) (new config)) :=
  h.invariant (fun _ _ hs hok => hs.runOp hok) (tidy_new config)

/-- **Peer table disjointness.**  In a run in which no stale verified peer is announced but
those turned away, and no known peer becomes our own, the maps stay disjoint throughout. -/
theorem disjoint_of_noStale
    (config : PeerConfig)
    {ops : List (Moment × PeerOp)}
    (h : Runs.StepsMeet (runOp parse) (NoStale parse) (new config) ops)
    (i : ℕ) :
    Disjoint ((ops.take i).foldl (PeerTable.runOp parse) (new config)) :=
  (tidy_of_noStale config (h.take i)).disjoint

/-- A peer is verified, fails to sync, and is announced again, all within its lifetime. -/
def livelyPeer : List (Moment × PeerOp) :=
  [(clockStart, .setSelfUrl "http://me"), (clockStart, .announce ⟨.v4 1, "http://a", 0⟩),
    (clockStart, .markAlive "http://a"), (clockStart, .recordSyncFailure "http://a"),
    (clockStart, .announce ⟨.v4 1, "http://a/", 0⟩)]

theorem disjoint_of_noStale_sample :
    Disjoint ((livelyPeer.take 4).foldl (PeerTable.runOp some) (new .default)) :=
  disjoint_of_noStale .default (by decide +kernel) 4

/-- A peer is verified and announced again when its lifetime is over. -/
def stalePeer : List (Moment × PeerOp) :=
  [(clockStart, .announce ⟨.v4 1, "http://a", 0⟩), (clockStart, .markAlive "http://a"),
    (⟨600 * 10 ^ 9, HashOrder.inserted⟩, .announce ⟨.v4 1, "http://a", 0⟩)]

/-- The peer is then in both maps. -/
theorem stale_peer_in_both_maps :
    ¬ ∀ (parse : UrlParse) (config : PeerConfig) (ops : List (Moment × PeerOp)),
      ops.Pairwise (fun a b => a.1.now ≤ b.1.now) →
        Disjoint (ops.foldl (PeerTable.runOp parse) (new config)) := by
  intro h
  have hdisjoint := h some .default stalePeer (by decide)
  refine hdisjoint.apart "http://a" ?_ ?_
  · exact KeyedTable.isSome_find?.1 (by decide +kernel)
  · exact KeyedTable.isSome_find?.1 (by decide +kernel)

end PeerTable
end CertRelay
