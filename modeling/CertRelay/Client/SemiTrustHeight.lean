import CertRelay.Client.SemiTrust

/-!
# The height that a refresh reports

A vote for a root is a signature over the root and a height, but votes are grouped by root
alone, and the entry of a root keeps the height of its first vote.  A refresh reports that
height beside the anchor set it pins, without looking at the set.

**Results.**
* `entryHeight_of_mem`: the height of an entry is what the first relay of the pool signed
  for its root;
* `heightIsPinned_iff`: the reported height is that of the pinned set exactly if this relay
  signed it.
-/

namespace CertRelay
namespace Fabric

open Tally

variable {ν : Type} (C : ClientCrates ν)

/-- The height that the first relay to vote for a root signed, in the order of the pool. -/
def firstSigned (head : ℕ → HeadAnswer) (relays : List SemiTrustedRelay) (root : Hash32) :
    Option UInt32 :=
  ((signedVotes C head relays).find? (fun v => decide (v.1 = root))).map (fun v => v.2.1)

/-- A refresh that meets its quorum reports the tip height of the set it has pinned. -/
def HeightIsPinned (order : HashOrder RootVotes) (head : ℕ → HeadAnswer)
    (get : ℕ → String → AnchorAnswer) (f : Fabric ν) : Prop :=
  ∀ result, (refreshSemiTrusted C order head get f).1 = .ok result → result.quorumMet = true →
    result.height =
      some (tipHeight (refreshSemiTrusted C order head get f).2.anchorPool.semiTrusted)

/-- The first relay that signed the agreed root signed the tip height of the set that is
served under it. -/
def FirstSignerAtTip (order : HashOrder RootVotes) (head : ℕ → HeadAnswer)
    (get : ℕ → String → AnchorAnswer) (f : Fabric ν) : Prop :=
  ∀ ab, RefreshPins C order head get f ab →
    firstSigned C head f.semiTrustConfig.relays ab.trustSet.id = some (tipHeight ab.anchors)

theorem head?_ballots
    {κ μ : Type}
    [DecidableEq κ]
    (k : κ)
    (votes : List (κ × μ)) :
    (ballots k votes).head? = (votes.find? (fun v => decide (v.1 = k))).map Prod.snd := by
  unfold ballots
  rw [List.head?_map, List.head?_filter]

/-- **The height of an entry is what the first relay of the pool signed for its root.** -/
theorem entryHeight_of_mem
    {head : ℕ → HeadAnswer}
    {relays : List SemiTrustedRelay}
    {entry : RootVotes}
    (h : entry ∈ tally (signedVotes C head relays)) :
    firstSigned C head relays entry.1 = some (entryHeight entry) := by
  obtain ⟨root, votes⟩ := entry
  obtain ⟨rfl, hne⟩ := mem_tally.1 h
  unfold firstSigned entryHeight
  rw [head?_ballots]
  cases hfind : (signedVotes C head relays).find? (fun v => decide (v.1 = root)) with
  | none =>
      have hhead := head?_ballots root (signedVotes C head relays)
      rw [hfind, Option.map_none, List.head?_eq_none_iff] at hhead
      exact absurd hhead hne
  | some v =>
      rfl

/-- What a refresh returns: the height of the winning entry, or no quorum. -/
theorem refreshSemiTrusted_height
    (order : HashOrder RootVotes)
    (head : ℕ → HeadAnswer)
    (get : ℕ → String → AnchorAnswer)
    (f : Fabric ν) :
    (∃ ab result, RefreshPins C order head get f ab ∧
        refreshSemiTrusted C order head get f = (.ok result, applySemiTrusted C ab f) ∧
        result.quorumMet = true ∧
        result.height = firstSigned C head f.semiTrustConfig.relays ab.trustSet.id) ∨
      ((∀ ab, ¬ RefreshPins C order head get f ab) ∧
        ∀ result, (refreshSemiTrusted C order head get f).1 = .ok result →
          result.quorumMet = false) := by
  unfold refreshSemiTrusted RefreshPins
  dsimp only
  cases hwinner : winningRoot C order head f.semiTrustConfig with
  | none =>
      refine Or.inr ⟨?_, ?_⟩
      · rintro ab ⟨entry, hentry, _⟩
        cases hentry
      · rintro _ ⟨⟩
        rfl
  | some entry =>
      have hentry : entry ∈ tally (signedVotes C head f.semiTrustConfig.relays) :=
        order.mem_arrange.1 (lastBest_mem hwinner).1
      simp only [Option.map_some, Option.getD_some, Option.some.injEq]
      split_ifs with hquorum
      · cases hfetch : fetchAnchorSet C get entry.1 (entry.2.map Prod.snd) with
        | error e =>
            refine Or.inr ⟨?_, ?_⟩
            · rintro ab ⟨_, rfl, _, _, hab⟩
              rw [hfetch] at hab
              cases hab
            · rintro _ ⟨⟩
        | ok ab =>
            refine Or.inl ⟨ab, _, ⟨entry, rfl, hquorum.1, hquorum.2, hfetch⟩, rfl, rfl, ?_⟩
            rw [(fetchAnchorSet_ok C hfetch).2, entryHeight_of_mem C hentry]
      · refine Or.inr ⟨?_, ?_⟩
        · rintro ab ⟨_, rfl, hpos, hrequired, _⟩
          exact hquorum ⟨hpos, hrequired⟩
        · rintro _ ⟨⟩
          rfl

/-- **The reported height is that of the pinned set exactly if the first relay that signed
the agreed root signed it.** -/
theorem heightIsPinned_iff
    (order : HashOrder RootVotes)
    (head : ℕ → HeadAnswer)
    (get : ℕ → String → AnchorAnswer)
    (f : Fabric ν) :
    HeightIsPinned C order head get f ↔ FirstSignerAtTip C order head get f := by
  unfold HeightIsPinned FirstSignerAtTip
  rcases refreshSemiTrusted_height C order head get f with
    ⟨ab, result, hpins, hrun, hmet, hheight⟩ | ⟨hnone, hunmet⟩
  · have hpool : (applySemiTrusted C ab f).anchorPool.semiTrusted = ab.anchors := by
      rw [(applySemiTrusted_frame C ab f).2.1]
    rw [hrun]
    simp only [hpool]
    constructor
    · intro h ab' hpins'
      rw [← hpins.unique C hpins', ← hheight]
      exact h result rfl hmet
    · rintro h _ ⟨⟩ _
      rw [hheight]
      exact h ab hpins
  · constructor
    · intro _ ab hpins
      exact absurd hpins (hnone ab)
    · intro _ result hok hmet
      rw [hunmet result hok] at hmet
      cases hmet

/-- A pool of two relays. -/
def samplePool : List SemiTrustedRelay :=
  [sampleRelay, ⟨"https://other", ⟨List.replicate 32 8, List.length_replicate⟩⟩]

/-- A head that both keys verify at their own height: the first relay claims 9. -/
def misreportedHead (i : ℕ) : HeadAnswer :=
  .headers
    { root := some "0101010101010101010101010101010101010101010101010101010101010101"
      sig := some (String.ofList ((List.replicate 64 ['0', if i = 0 then '7' else '8']).flatten))
      height := some (if i = 0 then "9" else "5") }

/-- The client that asks them. -/
def misledClient : Fabric (List RootAnchor) :=
  (withSeeds ClientCrates.sample []).withSemiTrusted ⟨samplePool, .majority⟩

/-- Both relays sign the root of a set whose tip is 5, and the client reports 9. -/
theorem misreported_height :
    ¬ ∀ (C : ClientCrates (List RootAnchor)) (order : HashOrder RootVotes)
      (head : ℕ → HeadAnswer) (get : ℕ → String → AnchorAnswer) (f : Fabric (List RootAnchor)),
      HeightIsPinned C order head get f := by
  intro h
  have hsample := h ClientCrates.sample HashOrder.inserted misreportedHead
    (fun _ _ => .set [⟨[], 5⟩]) misledClient
  -- one evaluation for both
  obtain ⟨hreport, hpool⟩ : (refreshSemiTrusted ClientCrates.sample HashOrder.inserted
      misreportedHead (fun _ _ => .set [⟨[], 5⟩]) misledClient).1.toOption.map
        (fun result => (result.height, result.quorumMet)) = some (some 9, true) ∧
      (refreshSemiTrusted ClientCrates.sample HashOrder.inserted misreportedHead
        (fun _ _ => .set [⟨[], 5⟩]) misledClient).2.anchorPool.semiTrusted = [⟨[], 5⟩] := by
    decide +kernel
  obtain ⟨result, hresult, hfields⟩ := Option.map_eq_some_iff.1 hreport
  rw [Prod.mk.injEq] at hfields
  have hheight := hsample result (Fallible.toOption_eq_some.1 hresult) hfields.2
  rw [hfields.1, hpool] at hheight
  exact absurd hheight (by decide)

end Fabric
end CertRelay
