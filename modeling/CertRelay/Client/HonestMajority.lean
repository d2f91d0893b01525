import CertRelay.Client.SemiTrust
import CertRelay.Relay.AnchorHead

/-!
# A majority of honest relays

The semi-trusted pool of a client against relays as they run: those that hold their pinned
keys, have refreshed to the same latest set of anchors, and serve it.  If they are as many as
the quorum asks for and more than half of the pool, a refresh pins what they serve, whatever
the other relays answer.

**Results.**
* `fetchSignedAnchorHead_of_signsHead`: the head of such a relay is a vote for the set;
* `fetchAnchorSetFrom_total`: one of them is enough to fetch the set;
* `honest_majority_pins`: the refresh pins a set with the hash that they serve.
-/

namespace CertRelay
namespace Fabric

open Tally AnchorHead

section Backing

variable {ν : Type} (C : ClientCrates ν) (S : SigningCrates)

/-- A relay that holds its pinned key has refreshed to a latest set, is not in the middle of a
refresh, and answers with its head. -/
structure SignsHead (rootAnchorsCount : ℕ) (latest : AnchorSet) (relay : SemiTrustedRelay)
    (head : HeadAnswer) : Prop where
  intro ::
  runs : ∃ (file : KeyFile) (actions : List (Action S)) (s : Server ν S)
    (identity : RelayIdentity S),
    (actions.foldl (step C rootAnchorsCount) ⟨file, none⟩).server = some s ∧
      s.identity = some identity ∧ identity.pubkey = relay.pubkey ∧ s.refreshed = true ∧
      s.phase.settled = true ∧ s.latest = some latest ∧ head = headAnchors C s

/-- When asked for the set, by then perhaps no longer the latest, a relay still stores it. -/
structure ServesSet (latest : AnchorSet) (answer : AnchorAnswer) : Prop where
  intro ::
  stores : ∃ s : Server ν S,
    AnchorSets.get s.anchorStore (C.computeTrustSet latest.entries).id = some latest ∧
      answer = getAnchors C s (C.hexEncode (C.computeTrustSet latest.entries).id.val)

variable {C S} {rootAnchorsCount : ℕ} {latest : AnchorSet} {relay : SemiTrustedRelay}

/-- **The head of such a relay is a vote for the set.** -/
theorem fetchSignedAnchorHead_of_signsHead
    (hhex : ∀ bytes, C.hexDecode (C.hexEncode bytes) = .ok bytes)
    (hsign : ∀ secret pubkey message, S.publicKey secret = some pubkey →
      C.verifySpacesMessage message (S.sign secret message).val pubkey = true)
    {head : HeadAnswer}
    (h : SignsHead C S rootAnchorsCount latest relay head) :
    fetchSignedAnchorHead C relay.url relay.pubkey head =
      .ok ((C.computeTrustSet latest.entries).id, tipHeight latest.entries) := by
  obtain ⟨file, actions, s, identity, hserver, hidentity, hkey, hrefreshed, hsettled, hlatest,
    rfl⟩ := h.runs
  have hserves : Serves C relay.pubkey relay.url s := by
    refine serves_of_sound hhex hsign (sound_run C rootAnchorsCount file actions) hserver ?_ _
    intro identity' hidentity'
    rw [hidentity, Option.some.injEq] at hidentity'
    rw [← hidentity', hkey]
  obtain ⟨text, htext⟩ := Option.isSome_iff_exists.1 (hserves.signed (by rw [hidentity]; rfl)
    hrefreshed hsettled (by rw [hlatest]; rfl))
  obtain ⟨latest', hlatest', htaken⟩ := hserves.taken text htext
  rw [hlatest, Option.some.injEq] at hlatest'
  rw [hlatest']
  exact htaken

/-- A relay that stores a set answers with it. -/
theorem answer_of_servesSet
    (hhex : ∀ bytes, C.hexDecode (C.hexEncode bytes) = .ok bytes)
    {answer : AnchorAnswer}
    (h : ServesSet C S latest answer) :
    answer = .set latest.entries := by
  obtain ⟨s, hget, rfl⟩ := h.stores
  have hroot : toArray 32 (C.computeTrustSet latest.entries).id.val =
      some (C.computeTrustSet latest.entries).id :=
    dif_pos (C.computeTrustSet latest.entries).id.property
  unfold getAnchors AnchorSets.handleAnchors
  dsimp only
  rw [hhex]
  dsimp only
  rw [hroot]
  dsimp only
  rw [hget]

end Backing

section Pinning

variable {ν : Type} {C : ClientCrates ν} {S : SigningCrates}

/-- One peer that serves the set is enough. -/
theorem fetchAnchorSetFrom_total
    {get : ℕ → String → AnchorAnswer}
    {trustId : TrustId}
    {entries : List RootAnchor}
    (hentries : (C.computeTrustSet entries).id = trustId)
    {url : String}
    (hserved : ∀ i, get i url = .set entries)
    {peers : List String}
    (hurl : url ∈ peers)
    (i : ℕ)
    (lastErr : Option ClientError) :
    ∃ ab, fetchAnchorSetFrom C get trustId i lastErr peers = .ok ab := by
  induction peers generalizing i lastErr with
  | nil =>
      cases hurl
  | cons peer peers ih =>
      unfold fetchAnchorSetFrom
      dsimp only
      rcases List.mem_cons.1 hurl with rfl | hrest
      · rw [hserved]
        dsimp only
        rw [if_neg (not_not.2 hentries)]
        exact ⟨_, rfl⟩
      · cases get i peer with
        | unreachable e =>
            exact ih hrest _ _
        | failed status body =>
            exact ih hrest _ _
        | undecodable e =>
            exact ih hrest _ _
        | set entries' =>
            dsimp only
            split_ifs with hid
            · exact ih hrest _ _
            · exact ⟨_, rfl⟩

/-- The relays of the pool, with their place, that back a set. -/
abbrev Backers := SemiTrustedRelay × ℕ → Bool

variable {head : ℕ → HeadAnswer} {relays : List SemiTrustedRelay} {root : Hash32}
  {height : UInt32}

/-- Relays that sign a root vote for it. -/
theorem countP_le_ballots
    {backs : Backers}
    (hbacks : ∀ p ∈ relays.zipIdx, backs p = true →
      fetchSignedAnchorHead C p.1.url p.1.pubkey (head p.2) = .ok (root, height)) :
    relays.zipIdx.countP backs ≤ (ballots root (signedVotes C head relays)).length := by
  rw [length_ballots_signedVotes, votersOf, ← List.countP_eq_length_filter]
  refine List.countP_mono_left (fun p hp hback => ?_)
  rw [hbacks p hp hback]
  simp [Except.toOption]

/-- The URL of a relay that votes is among those of its root. -/
theorem mem_ballots_of_head
    {p : SemiTrustedRelay × ℕ}
    (hp : p ∈ relays.zipIdx)
    (hhead : fetchSignedAnchorHead C p.1.url p.1.pubkey (head p.2) = .ok (root, height)) :
    p.1.url ∈ (ballots root (signedVotes C head relays)).map Prod.snd := by
  unfold ballots signedVotes
  refine List.mem_map.2 ⟨(height, p.1.url),
    List.mem_map.2 ⟨(root, (height, p.1.url)), ?_, rfl⟩, rfl⟩
  refine List.mem_filter.2 ⟨List.mem_filterMap.2 ⟨p, hp, ?_⟩, by simp⟩
  rw [hhead]
  rfl

/-- A root with more than half of the votes wins, in every order of the map. -/
theorem winningRoot_of_majority
    {config : SemiTrustConfig}
    (order : HashOrder RootVotes)
    (hmajority : (signedVotes C head config.relays).length <
      2 * (ballots root (signedVotes C head config.relays)).length) :
    winningRoot C order head config =
      some (root, ballots root (signedVotes C head config.relays)) := by
  unfold winningRoot
  cases hbest : lastBest entryRank (order.arrange (tally (signedVotes C head config.relays))) with
  | none =>
      have hne : ballots root (signedVotes C head config.relays) ≠ [] := by
        intro hnil
        rw [hnil, List.length_nil] at hmajority
        omega
      have hmem := order.mem_arrange.2 (mem_tally.2 ⟨rfl, hne⟩)
      rw [lastBest_eq_none.1 hbest] at hmem
      cases hmem
  | some entry =>
      obtain ⟨hmem, hmax⟩ := lastBest_mem hbest
      refine congrArg some (eq_of_majority (order.mem_arrange.1 hmem) (fun other hother => ?_)
        hmajority)
      have hle := hmax other (order.mem_arrange.2 hother)
      exact (Prod.Lex.le_iff.1 hle).elim (fun hlt => hlt.le) (fun heq => heq.1.le)

/-- A root with enough votes is pinned if its set can be fetched. -/
theorem refreshSemiTrusted_of_winner
    {order : HashOrder RootVotes}
    {get : ℕ → String → AnchorAnswer}
    {f : Fabric ν}
    {entry : RootVotes}
    {ab : AnchorBundle}
    (hwinner : winningRoot C order head f.semiTrustConfig = some entry)
    (hpos : 0 < entry.2.length)
    (hrequired :
      f.semiTrustConfig.quorum.required f.semiTrustConfig.relays.length ≤ entry.2.length)
    (hfetch : fetchAnchorSet C get entry.1 (entry.2.map Prod.snd) = .ok ab) :
    refreshSemiTrusted C order head get f =
      (.ok ⟨some entry.1, some (entryHeight entry), f.semiTrustConfig.relays.length,
        (signedVotes C head f.semiTrustConfig.relays).length, entry.2.length,
        f.semiTrustConfig.quorum.required f.semiTrustConfig.relays.length, true⟩,
      applySemiTrusted C ab f) := by
  unfold refreshSemiTrusted
  dsimp only
  rw [hwinner]
  simp only [Option.map_some, Option.getD_some]
  rw [if_pos ⟨hpos, hrequired⟩, hfetch]

/-- **An honest majority is pinned.**  If the relays of the pool that hold their keys, have
refreshed to one latest set and serve it are as many as the quorum asks for and more than
half of the pool, then a refresh pins a set with the hash of theirs, whatever the others
answer. -/
theorem honest_majority_pins
    (hhex : ∀ bytes, C.hexDecode (C.hexEncode bytes) = .ok bytes)
    (hsign : ∀ secret pubkey message, S.publicKey secret = some pubkey →
      C.verifySpacesMessage message (S.sign secret message).val pubkey = true)
    (order : HashOrder RootVotes)
    (rootAnchorsCount : ℕ)
    (latest : AnchorSet)
    (backs : Backers)
    (head : ℕ → HeadAnswer)
    (get : ℕ → String → AnchorAnswer)
    (f : Fabric ν)
    (hheads : ∀ p ∈ f.semiTrustConfig.relays.zipIdx, backs p = true →
      SignsHead C S rootAnchorsCount latest p.1 (head p.2))
    (hbodies : ∀ p ∈ f.semiTrustConfig.relays.zipIdx, backs p = true →
      ∀ i, ServesSet C S latest (get i p.1.url))
    (hquorum : f.semiTrustConfig.quorum.required f.semiTrustConfig.relays.length ≤
      f.semiTrustConfig.relays.zipIdx.countP backs)
    (hmajority : f.semiTrustConfig.relays.length <
      2 * f.semiTrustConfig.relays.zipIdx.countP backs) :
    ∃ result entries, (C.computeTrustSet entries).id = (C.computeTrustSet latest.entries).id ∧
      refreshSemiTrusted C order head get f =
        (.ok result, applySemiTrusted C ⟨C.computeTrustSet entries, entries⟩ f) ∧
      result.trustId = some (C.computeTrustSet latest.entries).id ∧ result.quorumMet = true ∧
      f.semiTrustConfig.relays.zipIdx.countP backs ≤ result.agreed := by
  have hvotes : ∀ p ∈ f.semiTrustConfig.relays.zipIdx, backs p = true →
      fetchSignedAnchorHead C p.1.url p.1.pubkey (head p.2) =
        .ok ((C.computeTrustSet latest.entries).id, tipHeight latest.entries) :=
    fun p hp hback => fetchSignedAnchorHead_of_signsHead hhex hsign (hheads p hp hback)
  have hcount := countP_le_ballots hvotes
  have htotal := length_signedVotes_le C head f.semiTrustConfig.relays
  have hwinner : winningRoot C order head f.semiTrustConfig =
      some ((C.computeTrustSet latest.entries).id, ballots (C.computeTrustSet latest.entries).id
        (signedVotes C head f.semiTrustConfig.relays)) :=
    winningRoot_of_majority order (by omega)
  -- some backer is asked for the set
  obtain ⟨p, hp, hback⟩ := List.countP_pos_iff.1
    (show 0 < f.semiTrustConfig.relays.zipIdx.countP backs by omega)
  have hurl := mem_ballots_of_head hp (hvotes p hp hback)
  obtain ⟨⟨trustSet, entries⟩, hfetch⟩ := fetchAnchorSetFrom_total rfl
    (fun i => answer_of_servesSet hhex (hbodies p hp hback i)) hurl 0 none
  obtain ⟨hset, hid⟩ := fetchAnchorSet_ok C hfetch
  change trustSet = C.computeTrustSet entries at hset
  subst hset
  have hpos : 0 < (ballots (C.computeTrustSet latest.entries).id
      (signedVotes C head f.semiTrustConfig.relays)).length := by
    omega
  have hpins := refreshSemiTrusted_of_winner hwinner hpos (hquorum.trans hcount) hfetch
  exact ⟨_, entries, hid, hpins, rfl, rfl, hcount⟩

end Pinning

section Sample

open AnchorSets

/-- A relay starts with a key of one byte throughout, and refreshes. -/
def honestStarts (byte : UInt8) : List (Action SigningCrates.sample) :=
  let draw : Draw SigningCrates.sample :=
    ⟨byteHash byte, rfl⟩
  [.start [] .inserted draw .written, .fetch (.ok [⟨[], 5⟩]) .inserted, .advance, .advance,
    .advance, .advance]

/-- The relay that this leaves running. -/
def honestServer (byte : UInt8) : Server (List RootAnchor) SigningCrates.sample :=
  (((honestStarts byte).foldl (step ClientCrates.sample 120) ⟨.absent, none⟩).server).getD
    (AnchorHead.new ClientCrates.sample [] .inserted none [])

/-- The set it has refreshed to. -/
def sampleLatest : AnchorSet :=
  ⟨[⟨[], 5⟩]⟩

/-- What the pool answers: three relays are honest, one dissents and one is silent. -/
def mixedHeads : ℕ → HeadAnswer
  | 0 => headAnchors ClientCrates.sample (honestServer 7)
  | 1 => headAnchors ClientCrates.sample (honestServer 8)
  | 2 => headAnchors ClientCrates.sample (honestServer 9)
  | 3 => sampleHead 'a' '2' '9'
  | _ => .unreachable "timed out"

/-- The dissenter answers every request for a set with one of its own. -/
def mixedSets (url : String) : AnchorAnswer :=
  if url = "https://dissenter" then .set [⟨[], 9⟩, ⟨[], 8⟩]
  else getAnchors ClientCrates.sample (honestServer 7)
    (ClientCrates.sample.hexEncode (List.replicate 32 1))

theorem signsHead_sample
    (url : String)
    (byte : UInt8) :
    SignsHead ClientCrates.sample SigningCrates.sample 120 sampleLatest (keyedRelay url byte)
      (headAnchors ClientCrates.sample (honestServer byte)) :=
  ⟨.absent, honestStarts byte, honestServer byte, _, rfl, rfl, rfl, rfl, rfl, rfl, rfl⟩

/-- The three honest relays of the pool are enough. -/
theorem honest_majority_pins_sample :
    ∃ result entries, (ClientCrates.sample.computeTrustSet entries).id =
        (ClientCrates.sample.computeTrustSet sampleLatest.entries).id ∧
      refreshSemiTrusted ClientCrates.sample HashOrder.inserted mixedHeads (fun _ => mixedSets)
          sampleSemiTrusting =
        (.ok result, applySemiTrusted ClientCrates.sample
          ⟨ClientCrates.sample.computeTrustSet entries, entries⟩ sampleSemiTrusting) := by
  have hheads : ∀ p ∈ mixedPool.zipIdx, decide (p.2 < 3) = true →
      SignsHead ClientCrates.sample SigningCrates.sample 120 sampleLatest p.1
        (mixedHeads p.2) := by
    intro p hp hback
    simp only [mixedPool, List.zipIdx_cons, List.zipIdx_nil, List.mem_cons, List.not_mem_nil,
      or_false] at hp
    rcases hp with rfl | rfl | rfl | rfl | rfl
    · exact signsHead_sample "https://relay" 7
    · exact signsHead_sample "https://second" 8
    · exact signsHead_sample "https://third" 9
    · cases hback
    · cases hback
  have hsets : ∀ p ∈ mixedPool.zipIdx, decide (p.2 < 3) = true → ∀ _ : ℕ,
      ServesSet ClientCrates.sample SigningCrates.sample sampleLatest (mixedSets p.1.url) := by
    intro p hp hback _
    have hurl : p.1.url ≠ "https://dissenter" := by
      revert hback hp
      revert p
      decide
    unfold mixedSets
    rw [if_neg hurl]
    exact ⟨honestServer 7, rfl, rfl⟩
  obtain ⟨result, entries, hid, hpins, _⟩ := honest_majority_pins sampleHexDecode_encode
    (fun secret pubkey _ h => by cases h; exact beq_self_eq_true _) HashOrder.inserted 120
    sampleLatest (fun p => decide (p.2 < 3)) mixedHeads (fun _ => mixedSets) sampleSemiTrusting
    hheads hsets (by decide) (by decide)
  exact ⟨result, entries, hid, hpins⟩

end Sample

end Fabric
end CertRelay
