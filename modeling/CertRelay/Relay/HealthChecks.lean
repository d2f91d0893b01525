import CertRelay.Lib.Tally
import CertRelay.Relay.PeerAnnouncements

/-!
# Health checks

Each maintenance tick puts the seeds back, moves and drops expired entries, and then
checks the verified peers past half their lifetime and, while peers are wanted, some
unverified ones: those seen longest ago.  A peer that answers is promoted, one whose
address is refused is removed, and a failed check writes nothing back.

**Results.**
* `candidates_failingTicks`: ticks whose checks all fail pick the candidates of the first;
* `health_checks_rotate_iff`: so the candidates rotate only if one tick picks them all.
-/

namespace CertRelay
namespace PeerTable

/-- `next_candidates` before the cut: the entries in the order they were last seen. -/
def candidateLine (order : HashOrder (String × PeerEntry)) (t : PeerTable) : List String :=
  ((order.arrange t.unverified.rows).insertionSort
    (fun p q => p.2.lastSeen ≤ q.2.lastSeen)).map Prod.fst

/-- `next_candidates`. -/
def nextCandidates (order : HashOrder (String × PeerEntry)) (n : Nat) (t : PeerTable) :
    List String :=
  (candidateLine order t).take n

/-- `refresh_candidates`. -/
def refreshCandidates (m : Moment) (t : PeerTable) : List String :=
  ((m.order.arrange t.verified.rows).filter
    (fun p => t.config.verifiedTtl / 2 ≤ m.now - p.2.lastSeen)).map Prod.fst

/-- `needs_peers`. -/
def needsPeers (now : Nat) (t : PeerTable) : Bool :=
  (t.verified.rows.countP (fun p => t.fresh now p.2)) < t.config.maxVerified / 2

/-- The moments at which a tick calls the table; `needs_peers` reads the clock alone. -/
structure TickClock where
  seed : Moment
  demote : Moment
  expire : Moment
  refresh : Moment
  needs : Nat
  check : Moment

/-- What a tick does before it picks. -/
def upkeep (parse : UrlParse) (seeds : List String) (clock : TickClock) (t : PeerTable) :
    PeerTable :=
  expireUnverified clock.expire
    (demoteExpired clock.demote
      (seeds.foldl (fun t seed => ensureSeed parse clock.seed seed t) t))

/-- The URLs a tick checks. -/
structure Picked where
  refresh : List String
  candidates : List String

def pick (n : Nat) (clock : TickClock) (order : HashOrder (String × PeerEntry))
    (t : PeerTable) : Picked where
  refresh := refreshCandidates clock.refresh t
  candidates := if needsPeers clock.needs t then nextCandidates order n t else []

/-- How a check ends: the address is refused, the peer answers, or it does not. -/
inductive CheckResult
  | refused
  | alive
  | failed

/-- What the end of a check writes back. -/
def finishCheck (parse : UrlParse) (m : Moment) (url : String) (t : PeerTable) :
    CheckResult → PeerTable
  | .refused => remove parse url t
  | .alive => markAlive parse m url t
  | .failed => t

/-- One tick of `run_peer_maintenance_loop`. -/
def maintenanceTick (parse : UrlParse) (seeds : List String) (n : Nat) (clock : TickClock)
    (order : HashOrder (String × PeerEntry)) (result : String → CheckResult)
    (t : PeerTable) : Picked × PeerTable :=
  let t := upkeep parse seeds clock t
  let picked := pick n clock order t
  (picked,
    (picked.refresh ++ picked.candidates).foldl
      (fun t url => finishCheck parse clock.check url t (result url)) t)

/-- The table after ticks whose checks all fail. -/
def failingTicks (parse : UrlParse) (seeds : List String) (n : Nat) (clock : ℕ → TickClock)
    (order : ℕ → HashOrder (String × PeerEntry)) (t : PeerTable) : ℕ → PeerTable
  | 0 => t
  | i + 1 =>
      (maintenanceTick parse seeds n (clock i) (order i) (fun _ => .failed)
        (failingTicks parse seeds n clock order t i)).2

/-- The candidates that such a tick picks. -/
def candidatesAt (parse : UrlParse) (seeds : List String) (n : Nat) (clock : ℕ → TickClock)
    (order : ℕ → HashOrder (String × PeerEntry)) (t : PeerTable) (i : ℕ) : List String :=
  (maintenanceTick parse seeds n (clock i) (order i) (fun _ => .failed)
    (failingTicks parse seeds n clock order t i)).1.candidates

/-- The table after the upkeep of ticks. -/
def upkeeps (parse : UrlParse) (seeds : List String) (clock : ℕ → TickClock) (t : PeerTable) :
    ℕ → PeerTable
  | 0 => t
  | i + 1 => upkeep parse seeds (clock i) (upkeeps parse seeds clock t i)

variable {parse : UrlParse} {seeds : List String} {n : ℕ} {clock : ℕ → TickClock}
  {order : ℕ → HashOrder (String × PeerEntry)} {t : PeerTable}

theorem perm_candidateLine
    (order : HashOrder (String × PeerEntry))
    (t : PeerTable) :
    (candidateLine order t).Perm (t.unverified.rows.map Prod.fst) :=
  ((List.perm_insertionSort _ _).trans (order.perm _)).map _

theorem mem_candidateLine
    {order : HashOrder (String × PeerEntry)}
    {url : String} :
    url ∈ candidateLine order t ↔ t.unverified.Has url := by
  rw [(perm_candidateLine order t).mem_iff, List.mem_map]
  rfl

theorem nodup_candidateLine
    (order : HashOrder (String × PeerEntry))
    (t : PeerTable) :
    (candidateLine order t).Nodup :=
  (perm_candidateLine order t).nodup_iff.2 t.unverified.nodup

theorem length_candidateLine
    (order : HashOrder (String × PeerEntry))
    (t : PeerTable) :
    (candidateLine order t).length = t.unverified.rows.length := by
  rw [(perm_candidateLine order t).length_eq, List.length_map]

/-- Failed checks write nothing back. -/
theorem foldl_failed
    (m : Moment)
    (urls : List String)
    (t : PeerTable) :
    urls.foldl (fun t url => finishCheck parse m url t .failed) t = t := by
  induction urls with
  | nil =>
      rfl
  | cons url urls ih =>
      exact ih

/-- So ticks whose checks fail do no more than their upkeep. -/
theorem failingTicks_eq
    (i : ℕ) :
    failingTicks parse seeds n clock order t i = upkeeps parse seeds clock t i := by
  induction i with
  | zero =>
      rfl
  | succ i ih =>
      rw [failingTicks, maintenanceTick, upkeeps, ih]
      exact foldl_failed _ _ _

/-- Peers are wanted, and the tick's upkeep neither adds, removes nor expires an unverified
entry. -/
structure Quiet (parse : UrlParse) (seeds : List String) (clock : TickClock) (t : PeerTable) :
    Prop where
  unverified : (upkeep parse seeds clock t).unverified = t.unverified
  needed : needsPeers clock.needs (upkeep parse seeds clock t) = true

/-- The entries after quiet ticks are those before. -/
theorem unverified_upkeeps
    (hquiet : ∀ i, Quiet parse seeds (clock i) (upkeeps parse seeds clock t i))
    (i : ℕ) :
    (upkeeps parse seeds clock t i).unverified = t.unverified := by
  induction i with
  | zero =>
      rfl
  | succ i ih =>
      rw [upkeeps, (hquiet i).unverified, ih]

/-- **Ticks whose checks all fail pick the candidates of the first.** -/
theorem candidates_failingTicks
    (hquiet : ∀ i, Quiet parse seeds (clock i) (upkeeps parse seeds clock t i))
    (i : ℕ) :
    candidatesAt parse seeds n clock order t i = nextCandidates (order i) n t := by
  have hsame : (upkeep parse seeds (clock i) (upkeeps parse seeds clock t i)).unverified =
      t.unverified :=
    (hquiet i).unverified.trans (unverified_upkeeps hquiet i)
  rw [candidatesAt, failingTicks_eq, maintenanceTick]
  dsimp only
  rw [pick, if_pos (hquiet i).needed, nextCandidates, nextCandidates, candidateLine,
    candidateLine, hsame]

/-- Health-check candidates rotate: as many ticks as it takes pick every entry, and a
candidate whose check failed goes behind every entry not tried since. -/
structure Rotates (parse : UrlParse) (seeds : List String) (n : ℕ) (clock : ℕ → TickClock)
    (order : ℕ → HashOrder (String × PeerEntry)) (t : PeerTable) : Prop where
  picks_all : ∀ url, t.unverified.Has url →
    ∃ i < (t.unverified.rows.length + n - 1) / n,
      url ∈ candidatesAt parse seeds n clock order t i
  goes_behind : ∀ i j failed url, i ≤ j → failed ∈ candidatesAt parse seeds n clock order t i →
    t.unverified.Has url →
    (∀ k, i ≤ k → k ≤ j → url ∉ candidatesAt parse seeds n clock order t k) →
    Tally.Precedes (candidateLine (order (j + 1))
      (failingTicks parse seeds n clock order t (j + 1))) url failed

/-- If the map is iterated in one order, what is ever picked is picked at once. -/
theorem length_le_of_rotates
    (hquiet : ∀ i, Quiet parse seeds (clock i) (upkeeps parse seeds clock t i))
    {order : HashOrder (String × PeerEntry)}
    (h : Rotates parse seeds n clock (fun _ => order) t) :
    t.unverified.rows.length ≤ n := by
  have hfirst : candidateLine order t ⊆ nextCandidates order n t := by
    intro url hurl
    obtain ⟨i, _, hi⟩ := h.picks_all url (mem_candidateLine.1 hurl)
    rwa [candidates_failingTicks hquiet i] at hi
  have hlen := (List.subperm_of_subset (nodup_candidateLine order t) hfirst).length_le
  rw [length_candidateLine, nextCandidates, List.length_take] at hlen
  exact hlen.trans (Nat.min_le_left _ _)

/-- A tick that may pick every entry does. -/
theorem rotates_of_length_le
    (hn : 1 ≤ n)
    (hquiet : ∀ i, Quiet parse seeds (clock i) (upkeeps parse seeds clock t i))
    (hle : t.unverified.rows.length ≤ n) :
    Rotates parse seeds n clock order t := by
  have hall : ∀ i url, t.unverified.Has url →
      url ∈ candidatesAt parse seeds n clock order t i := by
    intro i url hhas
    rw [candidates_failingTicks hquiet i, nextCandidates, List.take_of_length_le]
    · exact mem_candidateLine.2 hhas
    · rwa [length_candidateLine]
  refine ⟨fun url hhas => ⟨0, ?_, hall 0 url hhas⟩, fun i j failed url hij _ hhas hnot =>
    absurd (hall i url hhas) (hnot i le_rfl hij)⟩
  obtain ⟨r, hr, _⟩ := hhas
  have hpos := List.length_pos_of_mem hr
  exact Nat.div_pos (by omega) hn

/-- **The candidates rotate, in whatever order the map is iterated, exactly if one tick
picks them all.** -/
theorem health_checks_rotate_iff
    (hn : 1 ≤ n)
    (hquiet : ∀ i, Quiet parse seeds (clock i) (upkeeps parse seeds clock t i)) :
    (∀ order, Rotates parse seeds n clock order t) ↔ t.unverified.rows.length ≤ n := by
  constructor
  · intro h
    exact length_le_of_rotates hquiet (h fun _ => HashOrder.inserted)
  · intro hle order
    exact rotates_of_length_le hn hquiet hle

def oneLater : Moment := ⟨1, HashOrder.inserted⟩

/-- Two announced peers. -/
def twoAnnounced : PeerTable :=
  [(clockStart, PeerOp.announce ⟨.v4 1, "http://a", 0⟩),
    (oneLater, PeerOp.announce ⟨.v4 2, "http://b", 0⟩)].foldl (runOp some) (new .default)

/-- A clock that stands still. -/
def oneLaterTick : TickClock :=
  ⟨oneLater, oneLater, oneLater, oneLater, 1, oneLater⟩

theorem quiet_twoAnnounced
    (i : ℕ) :
    Quiet some [] oneLaterTick (upkeeps some [] (fun _ => oneLaterTick) twoAnnounced i) := by
  have hsame : upkeeps some [] (fun _ => oneLaterTick) twoAnnounced i = twoAnnounced := by
    induction i with
    | zero =>
        rfl
    | succ i ih =>
        rw [upkeeps, ih]
        decide +kernel
  rw [hsame]
  exact ⟨by decide +kernel, by decide +kernel⟩

theorem health_checks_rotate_sample :
    (∀ order, Rotates some [] 2 (fun _ => oneLaterTick) order twoAnnounced) ↔
      twoAnnounced.unverified.rows.length ≤ 2 :=
  health_checks_rotate_iff (by decide) quiet_twoAnnounced

/-- With one check a tick, the peer that does not answer is checked again and again. -/
theorem failed_candidate_starves :
    ¬ ∀ (parse : UrlParse) (seeds : List String) (n : ℕ) (clock : ℕ → TickClock)
        (order : ℕ → HashOrder (String × PeerEntry)) (t : PeerTable), 1 ≤ n →
      (∀ i, Quiet parse seeds (clock i) (upkeeps parse seeds clock t i)) →
      Rotates parse seeds n clock order t := by
  intro h
  have hle := length_le_of_rotates quiet_twoAnnounced
    (h some [] 1 (fun _ => oneLaterTick) (fun _ => HashOrder.inserted) twoAnnounced (by decide)
      quiet_twoAnnounced)
  exact absurd hle (by decide +kernel)

end PeerTable
end CertRelay
