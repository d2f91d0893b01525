import CertRelay.Client.Fabric

/-!
# Quorums of semi-trusted relays

A refresh asks each relay of the semi-trusted pool for its signed anchor head, counts the
votes by root, and pins the root most relays signed if they are enough under the quorum
policy and one of them serves the anchor set.  Relays may be down, unsigned, wrongly
signed or lying; the pool's map of votes is iterated in any order.

Signature verification is the parameter `verifySpacesMessage`; it is assumed sound for
`Signed key message`, that the owner of the key signed the message.

**Results.**
* `length_ballots_signedVotes`: the votes of a root come from the relays that signed it;
* `qualifies_unique`: under `majority` at most one root qualifies;
* `refreshSemiTrusted_safe`: a refresh leaves the client as it was, or pins a set that
  hashes to a root which enough relays signed.
-/

namespace CertRelay
namespace Fabric

open Tally

variable {ν : Type} (C : ClientCrates ν)

/-- The relays of the pool, with their place, whose head is validly signed and has this
root. -/
def votersOf (head : ℕ → HeadAnswer) (relays : List SemiTrustedRelay) (root : Hash32) :
    List (SemiTrustedRelay × ℕ) :=
  relays.zipIdx.filter fun p =>
    (fetchSignedAnchorHead C p.1.url p.1.pubkey (head p.2)).toOption.any
      fun h => decide (h.1 = root)

/-- **The votes of a root come from the relays that signed it**, one each. -/
theorem length_ballots_signedVotes
    (head : ℕ → HeadAnswer)
    (relays : List SemiTrustedRelay)
    (root : Hash32) :
    (ballots root (signedVotes C head relays)).length = (votersOf C head relays root).length := by
  unfold ballots signedVotes votersOf
  rw [List.length_map]
  induction relays.zipIdx with
  | nil =>
      rfl
  | cons p rest ih =>
      rw [List.filterMap_cons, List.filter_cons]
      cases fetchSignedAnchorHead C p.1.url p.1.pubkey (head p.2) with
      | error e =>
          simpa [Except.toOption] using ih
      | ok h =>
          by_cases hroot : h.1 = root
          · simpa [Except.toOption, hroot] using ih
          · simpa [Except.toOption, hroot] using ih

theorem length_signedVotes_le
    (head : ℕ → HeadAnswer)
    (relays : List SemiTrustedRelay) :
    (signedVotes C head relays).length ≤ relays.length := by
  unfold signedVotes
  exact (List.length_filterMap_le _ _).trans (by rw [List.length_zipIdx])

/-- The relays that signed a root, as a part of the pool. -/
theorem votersOf_sublist
    (head : ℕ → HeadAnswer)
    (relays : List SemiTrustedRelay)
    (root : Hash32) :
    ((votersOf C head relays root).map Prod.fst).Sublist relays := by
  have hsub := (List.filter_sublist (p := fun p : SemiTrustedRelay × ℕ =>
    (fetchSignedAnchorHead C p.1.url p.1.pubkey (head p.2)).toOption.any
      fun h => decide (h.1 = root)) (l := relays.zipIdx)).map Prod.fst
  rwa [List.zipIdx_map_fst] at hsub

/-- Each voter's pinned key verified a signature over the root. -/
theorem votersOf_signed
    {Signed : Hash32 → Bytes → Prop}
    (hsound : ∀ message sig key,
      C.verifySpacesMessage message sig key = true → Signed key message)
    {head : ℕ → HeadAnswer}
    {relays : List SemiTrustedRelay}
    {root : Hash32}
    {p : SemiTrustedRelay × ℕ}
    (hp : p ∈ votersOf C head relays root) :
    ∃ height, Signed p.1.pubkey (anchorSigPayload root height) := by
  obtain ⟨_, hvote⟩ := List.mem_filter.1 hp
  cases hhead : fetchSignedAnchorHead C p.1.url p.1.pubkey (head p.2) with
  | error e =>
      rw [hhead] at hvote
      cases hvote
  | ok h =>
      obtain ⟨root', height⟩ := h
      rw [hhead] at hvote
      have hroot : root' = root := by simpa [Except.toOption] using hvote
      subst hroot
      obtain ⟨sig, hverify⟩ := fetchSignedAnchorHead_ok C hhead
      exact ⟨height, hsound _ _ _ hverify⟩

/-- Enough relays of the pool signed the root. -/
def Qualifies (head : ℕ → HeadAnswer) (config : SemiTrustConfig) (root : Hash32) : Prop :=
  config.quorum.required config.relays.length ≤ (votersOf C head config.relays root).length

/-- **Under `majority` at most one root qualifies.** -/
theorem qualifies_unique
    {head : ℕ → HeadAnswer}
    {config : SemiTrustConfig}
    (hmajority : config.quorum = .majority)
    {root root' : Hash32}
    (h : Qualifies C head config root)
    (h' : Qualifies C head config root') :
    root = root' := by
  unfold Qualifies at h h'
  rw [hmajority, ← length_ballots_signedVotes] at h h'
  exact majority_unique (length_signedVotes_le C head config.relays) h h'

/-- A set that a refresh pins hashes to a root that enough relays signed. -/
theorem RefreshPins.qualifies
    {order : HashOrder RootVotes}
    {head : ℕ → HeadAnswer}
    {get : ℕ → String → AnchorAnswer}
    {f : Fabric ν}
    {ab : AnchorBundle}
    (h : RefreshPins C order head get f ab) :
    0 < (votersOf C head f.semiTrustConfig.relays ab.trustSet.id).length ∧
      Qualifies C head f.semiTrustConfig ab.trustSet.id ∧
      ab.trustSet = C.computeTrustSet ab.anchors := by
  obtain ⟨⟨root, cast⟩, hwinner, hpos, hrequired, hfetch⟩ := h
  obtain ⟨hset, rfl⟩ := fetchAnchorSet_ok C hfetch
  have hmem := order.mem_arrange.1 (lastBest_mem hwinner).1
  have hlen : cast.length =
      (votersOf C head f.semiTrustConfig.relays ab.trustSet.id).length := by
    rw [(mem_tally.1 hmem).1, length_ballots_signedVotes]
  rw [hlen] at hpos hrequired
  exact ⟨hpos, hrequired, hset⟩

/-- One state of the client comes from another by pinning an anchor set whose root the
signers signed, distinct keys of the pool and as many as the policy requires. -/
structure PinnedByQuorum (Signed : Hash32 → Bytes → Prop) (before after : Fabric ν)
    (root : Hash32) (signers : List SemiTrustedRelay) (entries : List RootAnchor) : Prop where
  signers_pool : signers.Sublist before.semiTrustConfig.relays
  keys_nodup : (signers.map SemiTrustedRelay.pubkey).Nodup
  signers_pos : 0 < signers.length
  required_le :
    before.semiTrustConfig.quorum.required before.semiTrustConfig.relays.length ≤ signers.length
  signed : ∀ relay ∈ signers, ∃ height, Signed relay.pubkey (anchorSigPayload root height)
  entries_id : (C.computeTrustSet entries).id = root
  semiTrusted : after.semiTrusted = some (C.computeTrustSet entries)
  anchorPool : after.anchorPool = { before.anchorPool with semiTrusted := entries }
  veritas : after.veritas = before.veritas ∨
    C.withAnchors after.anchorPool.merged = .ok after.veritas
  trusted : after.trusted = before.trusted
  observed : after.observed = before.observed

/-- **Quorum safety.**  A refresh leaves the client as it was, or pins an anchor set that
hashes to a root which distinct pinned keys signed, as many as the policy requires and at
least one; under `majority` no two roots can both have that many. -/
theorem refreshSemiTrusted_safe
    {Signed : Hash32 → Bytes → Prop}
    (hsound : ∀ message sig key,
      C.verifySpacesMessage message sig key = true → Signed key message)
    (order : HashOrder RootVotes)
    (head : ℕ → HeadAnswer)
    (get : ℕ → String → AnchorAnswer)
    (f : Fabric ν)
    (hkeys : (f.semiTrustConfig.relays.map SemiTrustedRelay.pubkey).Nodup) :
    ((refreshSemiTrusted C order head get f).2 = f ∨
      ∃ root signers entries, PinnedByQuorum C Signed f
        (refreshSemiTrusted C order head get f).2 root signers entries) ∧
    (f.semiTrustConfig.quorum = .majority →
      ∀ root root', Qualifies C head f.semiTrustConfig root →
        Qualifies C head f.semiTrustConfig root' → root = root') := by
  refine ⟨?_, fun hmajority root root' => qualifies_unique C hmajority⟩
  rcases refreshSemiTrusted_cases C order head get f with ⟨ab, hpins, hafter⟩ | ⟨_, hsame⟩
  · obtain ⟨hpos, hrequired, hset⟩ := RefreshPins.qualifies C hpins
    have hsub := votersOf_sublist C head f.semiTrustConfig.relays ab.trustSet.id
    obtain ⟨hsemi, hpool, hveritas, htrusted, hobserved⟩ := applySemiTrusted_frame C ab f
    rw [hafter]
    refine Or.inr ⟨ab.trustSet.id,
      (votersOf C head f.semiTrustConfig.relays ab.trustSet.id).map Prod.fst, ab.anchors, ?_⟩
    exact
      { signers_pool := hsub
        keys_nodup := (hsub.map _).nodup hkeys
        signers_pos := by rwa [List.length_map]
        required_le := by rwa [List.length_map]
        signed := by
          intro relay hrelay
          obtain ⟨p, hp, rfl⟩ := List.mem_map.1 hrelay
          exact votersOf_signed C hsound hp
        entries_id := by rw [← hset]
        semiTrusted := by rw [← hset, hsemi]
        anchorPool := hpool
        veritas := hveritas
        trusted := htrusted
        observed := hobserved }
  · exact Or.inl hsame

/-- A relay that is pinned with the same byte throughout its key. -/
def keyedRelay (url : String) (byte : UInt8) : SemiTrustedRelay :=
  ⟨url, byteHash byte⟩

def sampleRelay : SemiTrustedRelay :=
  keyedRelay "https://relay" 7

/-- A pool in which one relay is going to dissent, and one is silent. -/
def mixedPool : List SemiTrustedRelay :=
  [sampleRelay, keyedRelay "https://second" 8, keyedRelay "https://third" 9,
    keyedRelay "https://dissenter" 10, keyedRelay "https://silent" 11]

/-- A client that trusts the majority of them. -/
def sampleSemiTrusting : Fabric (List RootAnchor) :=
  (withSeeds ClientCrates.sample []).withSemiTrusted ⟨mixedPool, .majority⟩

/-- A head for the root of so many anchors, signed with a key of one byte throughout. -/
def sampleHead (key anchors height : Char) : HeadAnswer :=
  .headers
    { root := some (String.ofList (List.replicate 32 ['0', anchors]).flatten)
      sig := some (String.ofList (List.replicate 64 ['0', key]).flatten)
      height := some (String.ofList [height]) }

/-- Three relays sign one root, another one a root of its own at a greater height. -/
def sampleHeads : ℕ → HeadAnswer
  | 0 => sampleHead '7' '1' '5'
  | 1 => sampleHead '8' '1' '5'
  | 2 => sampleHead '9' '1' '5'
  | 3 => sampleHead 'a' '2' '9'
  | _ => .unreachable "timed out"

/-- The three are the majority of the pool, and their set is pinned. -/
theorem refreshSemiTrusted_safe_sample :
    let run := refreshSemiTrusted ClientCrates.sample HashOrder.inserted sampleHeads
      (fun _ _ => .set [⟨[], 5⟩]) sampleSemiTrusting
    run.2.anchorPool.semiTrusted = [⟨[], 5⟩] ∧
      (run.2 = sampleSemiTrusting ∨
        ∃ root signers entries, PinnedByQuorum ClientCrates.sample
          (fun key message => ∃ sig,
            ClientCrates.sample.verifySpacesMessage message sig key = true)
          sampleSemiTrusting run.2 root signers entries) :=
  ⟨by decide +kernel,
    (refreshSemiTrusted_safe ClientCrates.sample (fun _ sig _ h => ⟨sig, h⟩) HashOrder.inserted
      sampleHeads (fun _ _ => .set [⟨[], 5⟩]) sampleSemiTrusting (by decide)).1⟩

end Fabric
end CertRelay
