import CertRelay.Lib.Runs
import CertRelay.Client.Fabric

/-!
# Persisting a client's trust

`save_state` writes the anchors of each trust source; `from_state` recomputes the trust
sets from them.  The sets themselves are not written, so a client is restored as it was
only while they are what the anchors say.

**Results.**
* `roundTrips_of_inStep`: a client whose trust sets are in step with its anchors is
  restored with the same ids and the same badges;
* `roundTrips_run_iff`: in a run every state is restored faithfully exactly if each
  operation keeps them in step: no source that has anchors is cleared, and no pinned
  set is empty or refused by the `Veritas`.
-/

namespace CertRelay
namespace Fabric

variable {ν : Type} (C : ClientCrates ν)

/-- The trust set of a source. -/
def trustOf (kind : TrustKind) (f : Fabric ν) : Option TrustSet :=
  match kind with
  | .trusted => f.trusted
  | .semiTrusted => f.semiTrusted
  | .observed => f.observed

/-- The anchors of a source. -/
def anchorsOf (kind : TrustKind) (pool : AnchorPool) : List RootAnchor :=
  match kind with
  | .trusted => pool.trusted
  | .semiTrusted => pool.semiTrusted
  | .observed => pool.observed

/-- The operations that change trust.  An update is given the id and the peers it fetches
the set from. -/
inductive ClientOp
  | trustFromSet (entries : List RootAnchor)
  | update (kind : TrustKind) (target : Except ClientError (TrustId × List String))
      (get : ℕ → String → AnchorAnswer)
  | refreshSemiTrusted (order : HashOrder RootVotes) (head : ℕ → HeadAnswer)
      (get : ℕ → String → AnchorAnswer)
  | clearTrusted
  | clearSemiTrusted

/-- The client after an operation. -/
def runOp (f : Fabric ν) (op : ClientOp) : Fabric ν :=
  match op with
  | .trustFromSet entries => (trustFromSet C entries f).2
  | .update kind target get => (updateAnchors C get kind target f).2
  | .refreshSemiTrusted order head get => (refreshSemiTrusted C order head get f).2
  | .clearTrusted => clearTrusted f
  | .clearSemiTrusted => clearSemiTrusted f

/-- The client is restored from its saved state with the same ids and badges. -/
def RoundTrips (f : Fabric ν) : Prop :=
  ∃ f', fromState C (saveState f) = .ok f' ∧
    f'.trustedId = f.trustedId ∧ f'.semiTrustedId = f.semiTrustedId ∧
    f'.observedId = f.observedId ∧ ∀ zone, f'.badge zone = f.badge zone

/-- The `Veritas` takes the merged pool, if there is anything in it. -/
def Loads (pool : AnchorPool) : Prop :=
  pool.merged ≠ [] → (C.withAnchors pool.merged).isOk = true

/-- Each trust set is that of its source's anchors, and the pool can be loaded. -/
structure InStep (f : Fabric ν) : Prop where
  sets : ∀ kind, trustOf kind f = trustSetOf C (anchorsOf kind f.anchorPool)
  loads : Loads C f.anchorPool

section Restoring

theorem trustSetOf_eq_none
    {anchors : List RootAnchor} :
    trustSetOf C anchors = none ↔ anchors = [] := by
  unfold trustSetOf
  cases anchors <;> simp

theorem trustSetOf_of_ne_nil
    {anchors : List RootAnchor}
    (h : anchors ≠ []) :
    trustSetOf C anchors = some (C.computeTrustSet anchors) := by
  cases anchors with
  | nil =>
      exact absurd rfl h
  | cons a anchors =>
      rfl

/-- A source with anchors leaves a merged pool that is not empty. -/
theorem merged_ne_nil
    {pool : AnchorPool}
    (kind : TrustKind)
    (h : anchorsOf kind pool ≠ []) :
    pool.merged ≠ [] := by
  intro hnil
  obtain ⟨htrusted, hsemi, hobserved⟩ := AnchorPool.merged_eq_nil_iff.1 hnil
  cases kind with
  | trusted =>
      exact h htrusted
  | semiTrusted =>
      exact h hsemi
  | observed =>
      exact h hobserved

/-- What a restored client holds. -/
theorem fromState_ok
    {state : FabricState}
    {f : Fabric ν}
    (h : fromState C state = .ok f) :
    Loads C state.anchors ∧
      ∀ kind, trustOf kind f = trustSetOf C (anchorsOf kind state.anchors) := by
  obtain ⟨veritas, hveritas, hf⟩ := Fallible.bind_eq_ok.1 h
  cases hf
  constructor
  · intro hne
    unfold veritasOf at hveritas
    rw [if_neg (by simpa using hne), Fallible.mapError_eq_ok] at hveritas
    rw [hveritas]
    rfl
  · intro kind
    cases kind <;> rfl

/-- A pool that loads is restored. -/
theorem exists_fromState
    {state : FabricState}
    (h : Loads C state.anchors) :
    ∃ f, fromState C state = .ok f := by
  have hveritas : ∃ v, veritasOf C state.anchors.merged = .ok v := by
    unfold veritasOf
    by_cases hnil : state.anchors.merged = []
    · exact ⟨C.newVeritas, by rw [hnil]; rfl⟩
    · rw [if_neg (by simpa using hnil)]
      have hok := h hnil
      cases hv : C.withAnchors state.anchors.merged with
      | error e =>
          rw [hv] at hok
          cases hok
      | ok v =>
          exact ⟨v, rfl⟩
  obtain ⟨v, hv⟩ := hveritas
  exact ⟨_, Fallible.bind_eq_ok.2 ⟨v, hv, rfl⟩⟩

/-- **A client whose trust sets are in step with its anchors is restored as it was.** -/
theorem roundTrips_of_inStep
    {f : Fabric ν}
    (h : InStep C f) :
    RoundTrips C f := by
  have hloads : Loads C (saveState f).anchors := h.loads
  obtain ⟨f', hf'⟩ := exists_fromState C hloads
  have hsets : ∀ kind, trustOf kind f' = trustOf kind f := fun kind => by
    rw [(fromState_ok C hf').2 kind, h.sets kind]
    rfl
  have htrusted : f'.trusted = f.trusted := hsets .trusted
  have hsemi : f'.semiTrusted = f.semiTrusted := hsets .semiTrusted
  have hobserved : f'.observed = f.observed := hsets .observed
  refine ⟨f', hf', ?_, ?_, ?_, badge_congr htrusted hsemi hobserved⟩
  · rw [trustedId, htrusted, trustedId]
  · rw [semiTrustedId, hsemi, semiTrustedId]
  · rw [observedId, hobserved, observedId]

/-- What restoring faithfully requires of the anchors. -/
theorem RoundTrips.needs
    {f : Fabric ν}
    (h : RoundTrips C f) :
    Loads C f.anchorPool ∧
      ∀ kind, anchorsOf kind f.anchorPool = [] ↔ trustOf kind f = none := by
  obtain ⟨f', hf', htrusted, hsemi, hobserved, _⟩ := h
  obtain ⟨hloads, hsets⟩ := fromState_ok C hf'
  refine ⟨hloads, fun kind => ?_⟩
  have hmap : ∀ {set set' : Option TrustSet}, set.map TrustSet.id = set'.map TrustSet.id →
      (set = none ↔ set' = none) := by
    intro set set' hid
    rw [← Option.map_eq_none_iff (f := TrustSet.id), hid, Option.map_eq_none_iff]
  have hnone : trustOf kind f' = none ↔ trustOf kind f = none := by
    cases kind with
    | trusted =>
        exact hmap htrusted
    | semiTrusted =>
        exact hmap hsemi
    | observed =>
        exact hmap hobserved
  rw [← hnone, hsets kind, trustSetOf_eq_none]
  rfl

end Restoring

section Runs

/-- A source can be given these anchors: there are some, and the `Veritas` takes the pool
merged with them. -/
def CanPin (kind : TrustKind) (anchors : List RootAnchor) (pool : AnchorPool) : Prop :=
  anchors ≠ [] ∧ (C.withAnchors (poolWith kind anchors pool).merged).isOk = true

/-- The operation keeps trust sets and anchors in step.  Pins need anchors that can be
pinned; a pin that `trust_from_set` refuses is harmless in a client without any anchors;
only a source without anchors can be cleared. -/
def KeepsStep (f : Fabric ν) (op : ClientOp) : Prop :=
  match op with
  | .trustFromSet entries =>
      CanPin C .trusted entries f.anchorPool ∨
        ((C.withAnchors (poolWith .trusted entries f.anchorPool).merged).isOk = false ∧
          (poolWith .trusted entries f.anchorPool).merged = [] ∧ f.anchorPool.trusted = [])
  | .update kind target get =>
      ∀ id peers ab, target = .ok (id, peers) → fetchAnchorSet C get id peers = .ok ab →
        CanPin C kind ab.anchors f.anchorPool
  | .refreshSemiTrusted order head get =>
      ∀ ab, RefreshPins C order head get f ab → CanPin C .semiTrusted ab.anchors f.anchorPool
  | .clearTrusted => f.anchorPool.trusted = []
  | .clearSemiTrusted => f.anchorPool.semiTrusted = []

@[simp] theorem anchorsOf_poolWith
    (kind : TrustKind)
    (anchors : List RootAnchor)
    (pool : AnchorPool) :
    anchorsOf kind (poolWith kind anchors pool) = anchors := by
  cases kind <;> rfl

theorem anchorsOf_poolWith_ne
    {kind kind' : TrustKind}
    (h : kind' ≠ kind)
    (anchors : List RootAnchor)
    (pool : AnchorPool) :
    anchorsOf kind' (poolWith kind anchors pool) = anchorsOf kind' pool := by
  cases kind <;> cases kind' <;> first | rfl | exact absurd rfl h

/-- A condition is needed to restore a state faithfully, and enough for it to be in step. -/
structure ExactFor (f : Fabric ν) (cond : Prop) : Prop where
  needed : RoundTrips C f → cond
  enough : cond → InStep C f

/-- A state in which one source has been given anchors and their trust set. -/
structure Pinned (kind : TrustKind) (anchors : List RootAnchor) (f f' : Fabric ν) : Prop where
  pool : f'.anchorPool = poolWith kind anchors f.anchorPool
  own : trustOf kind f' = some (C.computeTrustSet anchors)
  others : ∀ kind', kind' ≠ kind → trustOf kind' f' = trustOf kind' f

theorem Pinned.exact
    {kind : TrustKind}
    {anchors : List RootAnchor}
    {f f' : Fabric ν}
    (h : Pinned C kind anchors f f')
    (hf : InStep C f) :
    ExactFor C f' (CanPin C kind anchors f.anchorPool) := by
  constructor
  · intro hround
    obtain ⟨hloads, hnone⟩ := hround.needs
    have hne : anchors ≠ [] := by
      intro hnil
      have htrust := (hnone kind).1 (by rw [h.pool, anchorsOf_poolWith, hnil])
      rw [h.own] at htrust
      cases htrust
    rw [h.pool] at hloads
    exact ⟨hne, hloads (merged_ne_nil kind (by rwa [anchorsOf_poolWith]))⟩
  · rintro ⟨hne, hok⟩
    refine ⟨fun kind' => ?_, ?_⟩
    · rw [h.pool]
      by_cases hkind : kind' = kind
      · subst hkind
        rw [h.own, anchorsOf_poolWith, trustSetOf_of_ne_nil C hne]
      · rw [h.others kind' hkind, anchorsOf_poolWith_ne hkind, hf.sets kind']
    · rw [h.pool]
      exact fun _ => hok

theorem pinned_of_rebuild
    (kind : TrustKind)
    (anchors : List RootAnchor)
    (f : Fabric ν) :
    Pinned C kind anchors f (setTrust kind (C.computeTrustSet anchors)
      (rebuildVeritas C (poolWith kind anchors f.anchorPool) f)) := by
  have hpool : (rebuildVeritas C (poolWith kind anchors f.anchorPool) f).anchorPool =
      poolWith kind anchors f.anchorPool := by
    unfold rebuildVeritas
    cases C.withAnchors (poolWith kind anchors f.anchorPool).merged <;> rfl
  have htrust : ∀ kind', trustOf kind' (rebuildVeritas C (poolWith kind anchors f.anchorPool) f) =
      trustOf kind' f := by
    intro kind'
    unfold rebuildVeritas
    cases C.withAnchors (poolWith kind anchors f.anchorPool).merged <;> cases kind' <;> rfl
  refine ⟨?_, ?_, ?_⟩
  · cases kind <;> exact hpool
  · cases kind <;> rfl
  · intro kind' hne
    rw [← htrust kind']
    cases kind <;> cases kind' <;> first | rfl | exact absurd rfl hne

/-- Clearing a source: it must have no anchors. -/
theorem exact_of_cleared
    (kind : TrustKind)
    {f f' : Fabric ν}
    (hpool : f'.anchorPool = f.anchorPool)
    (hown : trustOf kind f' = none)
    (hothers : ∀ kind', kind' ≠ kind → trustOf kind' f' = trustOf kind' f)
    (hf : InStep C f) :
    ExactFor C f' (anchorsOf kind f.anchorPool = []) := by
  constructor
  · intro hround
    rw [← hpool]
    exact (hround.needs.2 kind).2 hown
  · intro hnil
    refine ⟨fun kind' => ?_, by rw [hpool]; exact hf.loads⟩
    rw [hpool]
    by_cases hkind : kind' = kind
    · subst hkind
      rw [hown, eq_comm, trustSetOf_eq_none, hnil]
    · rw [hothers kind' hkind, hf.sets kind']

/-- A refused set: it must have changed nothing. -/
theorem exact_of_refused
    {entries : List RootAnchor}
    {f : Fabric ν}
    (f' : Fabric ν)
    (hpool : f'.anchorPool = poolWith .trusted entries f.anchorPool)
    (htrust : ∀ kind, trustOf kind f' = trustOf kind f)
    (hrefused : (C.withAnchors (poolWith .trusted entries f.anchorPool).merged).isOk = false)
    (hf : InStep C f) :
    ExactFor C f' ((poolWith .trusted entries f.anchorPool).merged = [] ∧
      f.anchorPool.trusted = []) := by
  constructor
  · intro hround
    obtain ⟨hloads, hnone⟩ := hround.needs
    rw [hpool] at hloads
    have hnil : (poolWith .trusted entries f.anchorPool).merged = [] := by
      by_contra hne
      rw [hloads hne] at hrefused
      cases hrefused
    refine ⟨hnil, ?_⟩
    have hentries : anchorsOf .trusted f'.anchorPool = [] := by
      rw [hpool]
      exact (AnchorPool.merged_eq_nil_iff.1 hnil).1
    have hunset := (hnone .trusted).1 hentries
    rw [htrust, hf.sets, trustSetOf_eq_none] at hunset
    exact hunset
  · rintro ⟨hnil, htrusted⟩
    have hentries : entries = [] := (AnchorPool.merged_eq_nil_iff.1 hnil).1
    have hsame : poolWith .trusted entries f.anchorPool = f.anchorPool := by
      rw [hentries, ← htrusted]
      rfl
    rw [hsame] at hpool
    refine ⟨fun kind => ?_, ?_⟩
    · rw [htrust, hpool, hf.sets]
    · rw [hpool]
      exact hf.loads

theorem exact_trustFromSet
    {f : Fabric ν}
    (hf : InStep C f)
    (entries : List RootAnchor) :
    ExactFor C (trustFromSet C entries f).2 (KeepsStep C f (.trustFromSet entries)) := by
  have hpool : { f.anchorPool with trusted := entries } =
    poolWith .trusted entries f.anchorPool := rfl
  simp only [trustFromSet, KeepsStep, hpool]
  cases hv : C.withAnchors (poolWith .trusted entries f.anchorPool).merged with
  | error e =>
      have hrefused : (C.withAnchors (poolWith .trusted entries f.anchorPool).merged).isOk =
          false := by
        rw [hv]
        rfl
      obtain ⟨hneeded, henough⟩ := exact_of_refused C
        { f with anchorPool := poolWith .trusted entries f.anchorPool }
        rfl (fun kind => by cases kind <;> rfl) hrefused hf
      refine ⟨fun hround => Or.inr ⟨rfl, hneeded hround⟩, ?_⟩
      rintro (⟨_, hok⟩ | ⟨_, hempty⟩)
      · rw [hrefused] at hok
        cases hok
      · exact henough hempty
  | ok v =>
      have hpinned : Pinned C .trusted entries f
          { f with
            anchorPool := poolWith .trusted entries f.anchorPool
            veritas := v
            trusted := some (C.computeTrustSet entries) } :=
        ⟨rfl, rfl, fun kind' hne => by cases kind' <;> first | rfl | exact absurd rfl hne⟩
      obtain ⟨hneeded, henough⟩ := hpinned.exact C hf
      refine ⟨fun hround => Or.inl (hneeded hround), ?_⟩
      rintro (hpin | ⟨hrefused, _⟩)
      · exact henough hpin
      · cases hrefused

theorem exact_update
    {f : Fabric ν}
    (hf : InStep C f)
    (kind : TrustKind)
    (target : Except ClientError (TrustId × List String))
    (get : ℕ → String → AnchorAnswer) :
    ExactFor C (updateAnchors C get kind target f).2 (KeepsStep C f (.update kind target get)) := by
  simp only [updateAnchors, KeepsStep]
  cases target with
  | error e =>
      refine ⟨fun _ id peers ab htarget => ?_, fun _ => hf⟩
      cases htarget
  | ok target =>
      obtain ⟨id, peers⟩ := target
      dsimp only
      cases hfetch : fetchAnchorSet C get id peers with
      | error e =>
          refine ⟨fun _ id' peers' ab htarget hab => ?_, fun _ => hf⟩
          cases htarget
          rw [hfetch] at hab
          cases hab
      | ok ab =>
          obtain ⟨hset, _⟩ := fetchAnchorSet_ok C hfetch
          obtain ⟨hneeded, henough⟩ := (pinned_of_rebuild C kind ab.anchors f).exact C hf
          rw [← hset] at hneeded henough
          refine ⟨fun hround id' peers' ab' htarget hab => ?_, fun hkeeps => ?_⟩
          · cases htarget
            rw [hfetch, Except.ok.injEq] at hab
            subst hab
            exact hneeded hround
          · exact henough (hkeeps id peers ab rfl hfetch)

theorem exact_refresh
    {f : Fabric ν}
    (hf : InStep C f)
    (order : HashOrder RootVotes)
    (head : ℕ → HeadAnswer)
    (get : ℕ → String → AnchorAnswer) :
    ExactFor C (refreshSemiTrusted C order head get f).2
      (KeepsStep C f (.refreshSemiTrusted order head get)) := by
  rcases refreshSemiTrusted_cases C order head get f with ⟨ab, hpins, hafter⟩ | ⟨hnone, hsame⟩
  · obtain ⟨_, _, _, _, hfetch⟩ := id hpins
    obtain ⟨hset, _⟩ := fetchAnchorSet_ok C hfetch
    obtain ⟨hneeded, henough⟩ := (pinned_of_rebuild C .semiTrusted ab.anchors f).exact C hf
    rw [← hset] at hneeded henough
    rw [hafter]
    refine ⟨fun hround ab' hpins' => ?_, fun hkeeps => henough (hkeeps ab hpins)⟩
    rw [RefreshPins.unique C hpins' hpins]
    exact hneeded hround
  · rw [hsame]
    exact ⟨fun _ ab hpins => absurd hpins (hnone ab), fun _ => hf⟩

/-- What a faithful restore requires of an operation, and that it is enough. -/
theorem exact_runOp
    {f : Fabric ν}
    (hf : InStep C f)
    (op : ClientOp) :
    ExactFor C (runOp C f op) (KeepsStep C f op) := by
  cases op with
  | trustFromSet entries =>
      exact exact_trustFromSet C hf entries
  | update kind target get =>
      exact exact_update C hf kind target get
  | refreshSemiTrusted order head get =>
      exact exact_refresh C hf order head get
  | clearTrusted =>
      refine exact_of_cleared C .trusted rfl rfl ?_ hf
      intro kind' hne
      cases kind' <;> first | rfl | exact absurd rfl hne
  | clearSemiTrusted =>
      refine exact_of_cleared C .semiTrusted rfl rfl ?_ hf
      intro kind' hne
      cases kind' <;> first | rfl | exact absurd rfl hne

/-- **Every state of a run is restored faithfully exactly if each operation keeps trust
sets and anchors in step.** -/
theorem roundTrips_run_iff
    (seeds : List String)
    (config : SemiTrustConfig)
    (ops : List ClientOp) :
    (∀ i, RoundTrips C
        ((ops.take i).foldl (runOp C) ((withSeeds C seeds).withSemiTrusted config))) ↔
      Runs.StepsMeet (runOp C) (KeepsStep C) ((withSeeds C seeds).withSemiTrusted config) ops := by
  apply Runs.good_iff (I := InStep C)
  · exact fun f hf => roundTrips_of_inStep C hf
  · exact fun f op hf hround => (exact_runOp C hf op).needed hround
  · exact fun f op hf hkeeps => (exact_runOp C hf op).enough hkeeps
  · exact ⟨fun kind => by cases kind <;> rfl, fun hne => absurd rfl hne⟩

/-- A set is pinned and then cleared. -/
def pinAndClear : List ClientOp :=
  [.trustFromSet [⟨[], 5⟩], .clearTrusted]

/-- The restored client trusts what was cleared. -/
theorem cleared_trust_returns :
    ¬ ∀ (C : ClientCrates (List RootAnchor)) (seeds : List String) (config : SemiTrustConfig)
      (ops : List ClientOp) (i : ℕ),
      RoundTrips C
        ((ops.take i).foldl (runOp C) ((withSeeds C seeds).withSemiTrusted config)) := by
  intro h
  obtain ⟨_, hnone⟩ :=
    (h ClientCrates.sample [] ⟨[], .majority⟩ pinAndClear 2).needs ClientCrates.sample
  exact absurd ((hnone .trusted).2 rfl) (by decide)

end Runs

/-- After `clear_trusted` the client shows no orange badge, the restored one does. -/
example :
    let f := pinAndClear.foldl (runOp ClientCrates.sample) (withSeeds ClientCrates.sample [])
    let zone : BadgeZone := ⟨⟨List.replicate 32 1, List.length_replicate⟩, .sovereign⟩
    f.badge zone = .unverified ∧
      (fromState ClientCrates.sample (saveState f)).toOption.map (badge · zone) =
        some .orange := by
  decide +kernel

end Fabric
end CertRelay
