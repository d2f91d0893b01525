import CertRelay.Client.Persistence

/-!
# Whole trust updates

An update of trust writes three places one after another: the anchor pool, the `Veritas`
built from it, and the trust set.  The build in the middle may fail.  `trust_from_set`
then returns the error with the pool already changed; `update_anchors` and
`apply_semi_trusted` keep the old `Veritas` and record the trust set all the same.

**Results.**
* `rebuildVeritas_inUse`: the `Veritas` in use is the rebuilt one exactly if the merged
  pool is accepted;
* `wholeUpdate_iff`: an update is whole exactly if the `Veritas` takes the pool merged with
  its anchors, or `trust_from_set` refuses the anchors that are pinned already.
-/

namespace CertRelay
namespace Fabric

variable {ν : Type} (C : ClientCrates ν)

/-- The operations that record anchors for a source of trust. -/
inductive TrustUpdate
  | trustFromSet (entries : List RootAnchor)
  | updateAnchors (kind : TrustKind) (target : Except ClientError (TrustId × List String))
      (get : ℕ → String → AnchorAnswer)
  | applySemiTrusted (ab : AnchorBundle)

/-- The pool, the `Veritas` and the three trust sets are unchanged. -/
structure Untouched (f f' : Fabric ν) : Prop where
  anchorPool : f'.anchorPool = f.anchorPool
  veritas : f'.veritas = f.veritas
  sets : ∀ kind, trustOf kind f' = trustOf kind f

/-- A trust set is recorded, its anchors are in the pool, and the `Veritas` in use is the
one built from the merged pool. -/
structure Recorded (kind : TrustKind) (ab : AnchorBundle) (f' : Fabric ν) : Prop where
  set : trustOf kind f' = some ab.trustSet
  anchors : anchorsOf kind f'.anchorPool = ab.anchors
  inUse : C.withAnchors f'.anchorPool.merged = .ok f'.veritas

/-- The update is all or nothing: an error of `trust_from_set` leaves everything as it
was, and a set that the other two record is in use. -/
def WholeUpdate (f : Fabric ν) (u : TrustUpdate) : Prop :=
  match u with
  | .trustFromSet entries =>
      ∀ e, (trustFromSet C entries f).1 = .error e → Untouched f (trustFromSet C entries f).2
  | .updateAnchors kind target get =>
      (updateAnchors C get kind target f).1 = .ok () →
        ∃ ab, Recorded C kind ab (updateAnchors C get kind target f).2
  | .applySemiTrusted ab => Recorded C .semiTrusted ab (applySemiTrusted C ab f)

/-- The `Veritas` takes the pool with the anchors of one source replaced. -/
def Takes (kind : TrustKind) (anchors : List RootAnchor) (f : Fabric ν) : Prop :=
  (C.withAnchors (poolWith kind anchors f.anchorPool).merged).isOk = true

/-- The anchors of the update are taken, or they are those that are pinned already. -/
def TakesUpdate (f : Fabric ν) (u : TrustUpdate) : Prop :=
  match u with
  | .trustFromSet entries => Takes C .trusted entries f ∨ entries = f.anchorPool.trusted
  | .updateAnchors kind target get =>
      ∀ id peers ab, target = .ok (id, peers) → fetchAnchorSet C get id peers = .ok ab →
        Takes C kind ab.anchors f
  | .applySemiTrusted ab => Takes C .semiTrusted ab.anchors f

theorem takes_iff
    {kind : TrustKind}
    {anchors : List RootAnchor}
    {f : Fabric ν} :
    Takes C kind anchors f ↔
      ∃ v, C.withAnchors (poolWith kind anchors f.anchorPool).merged = .ok v := by
  unfold Takes
  cases C.withAnchors (poolWith kind anchors f.anchorPool).merged <;> simp [Except.isOk,
    Except.toBool]

@[simp] theorem rebuildVeritas_anchorPool
    (pool : AnchorPool)
    (f : Fabric ν) :
    (rebuildVeritas C pool f).anchorPool = pool := by
  unfold rebuildVeritas
  cases C.withAnchors pool.merged <;> rfl

/-- **The `Veritas` in use is the rebuilt one exactly if the merged pool is accepted.** -/
theorem rebuildVeritas_inUse
    (pool : AnchorPool)
    (f : Fabric ν) :
    C.withAnchors pool.merged = .ok (rebuildVeritas C pool f).veritas ↔
      ∃ v, C.withAnchors pool.merged = .ok v := by
  unfold rebuildVeritas
  cases C.withAnchors pool.merged with
  | error e =>
      simp
  | ok v =>
      simp

/-- Recording a set leaves the pool and the `Veritas`. -/
theorem setTrust_frame
    (kind : TrustKind)
    (set : TrustSet)
    (f : Fabric ν) :
    trustOf kind (setTrust kind set f) = some set ∧
      (setTrust kind set f).anchorPool = f.anchorPool ∧
      (setTrust kind set f).veritas = f.veritas := by
  cases kind <;> exact ⟨rfl, rfl, rfl⟩

/-- What is recorded after a rebuild is in use exactly if the pool is taken. -/
theorem recorded_setTrust_iff
    (kind : TrustKind)
    (ab : AnchorBundle)
    (f : Fabric ν) :
    Recorded C kind ab (setTrust kind ab.trustSet
        (rebuildVeritas C (poolWith kind ab.anchors f.anchorPool) f)) ↔
      Takes C kind ab.anchors f := by
  obtain ⟨hset, hpool, hveritas⟩ := setTrust_frame kind ab.trustSet
    (rebuildVeritas C (poolWith kind ab.anchors f.anchorPool) f)
  rw [takes_iff, ← rebuildVeritas_inUse C _ f]
  constructor
  · intro h
    have hinUse := h.inUse
    rwa [hpool, hveritas, rebuildVeritas_anchorPool] at hinUse
  · intro h
    refine ⟨hset, ?_, ?_⟩
    · rw [hpool, rebuildVeritas_anchorPool, anchorsOf_poolWith]
    · rw [hpool, hveritas, rebuildVeritas_anchorPool]
      exact h

/-- What is recorded after a rebuild is the set it was made with. -/
theorem Recorded.eq
    {kind : TrustKind}
    {ab ab' : AnchorBundle}
    {f : Fabric ν}
    (h : Recorded C kind ab' (setTrust kind ab.trustSet
      (rebuildVeritas C (poolWith kind ab.anchors f.anchorPool) f))) :
    ab' = ab := by
  obtain ⟨hset, hpool, _⟩ := setTrust_frame kind ab.trustSet
    (rebuildVeritas C (poolWith kind ab.anchors f.anchorPool) f)
  have htrust := h.set
  have hanchors := h.anchors
  rw [hset, Option.some.injEq] at htrust
  rw [hpool, rebuildVeritas_anchorPool, anchorsOf_poolWith] at hanchors
  cases ab
  cases ab'
  rw [AnchorBundle.mk.injEq]
  exact ⟨htrust.symm, hanchors.symm⟩

theorem wholeUpdate_trustFromSet
    (f : Fabric ν)
    (entries : List RootAnchor) :
    WholeUpdate C f (.trustFromSet entries) ↔ TakesUpdate C f (.trustFromSet entries) := by
  unfold WholeUpdate TakesUpdate Takes poolWith trustFromSet
  dsimp only
  cases C.withAnchors { f.anchorPool with trusted := entries }.merged with
  | ok v =>
      simp [Except.isOk, Except.toBool]
  | error e =>
      -- the pool is changed before the build fails
      simp only [Except.error.injEq, Except.isOk, Except.toBool, Bool.false_eq_true, false_or]
      constructor
      · intro h
        exact congrArg AnchorPool.trusted (h _ rfl).anchorPool
      · rintro rfl _ _
        exact ⟨rfl, rfl, fun _ => rfl⟩

theorem wholeUpdate_updateAnchors
    (f : Fabric ν)
    (kind : TrustKind)
    (target : Except ClientError (TrustId × List String))
    (get : ℕ → String → AnchorAnswer) :
    WholeUpdate C f (.updateAnchors kind target get) ↔
      TakesUpdate C f (.updateAnchors kind target get) := by
  unfold WholeUpdate TakesUpdate updateAnchors
  cases target with
  | error e =>
      simp
  | ok goal =>
      obtain ⟨id, peers⟩ := goal
      dsimp only
      cases hfetch : fetchAnchorSet C get id peers with
      | error e =>
          constructor
          · rintro _ _ _ ab ⟨⟩ hok
            rw [hfetch] at hok
            cases hok
          · intro _ hok
            cases hok
      | ok ab =>
          constructor
          · rintro h _ _ _ ⟨⟩ hok
            rw [hfetch] at hok
            cases hok
            obtain ⟨ab', hab'⟩ := h rfl
            rw [hab'.eq C] at hab'
            exact (recorded_setTrust_iff C kind ab f).1 hab'
          · intro h _
            exact ⟨ab, (recorded_setTrust_iff C kind ab f).2 (h id peers ab rfl hfetch)⟩

/-- **An update is whole exactly if its anchors are taken**, or refused where they are
pinned already. -/
theorem wholeUpdate_iff
    (f : Fabric ν)
    (u : TrustUpdate) :
    WholeUpdate C f u ↔ TakesUpdate C f u := by
  cases u with
  | trustFromSet entries =>
      exact wholeUpdate_trustFromSet C f entries
  | updateAnchors kind target get =>
      exact wholeUpdate_updateAnchors C f kind target get
  | applySemiTrusted ab =>
      exact recorded_setTrust_iff C .semiTrusted ab f

/-- Crates whose `Veritas` takes no empty list of anchors. -/
def guardedCrates : ClientCrates (List RootAnchor) :=
  { ClientCrates.sample with
    withAnchors := fun anchors => if anchors.isEmpty then .error "no anchors" else .ok anchors }

/-- A client that has pinned one anchor. -/
def pinnedClient : Fabric (List RootAnchor) :=
  (trustFromSet guardedCrates [⟨[], 5⟩] (withSeeds guardedCrates [])).2

/-- Pinning an empty set fails, and the pinned anchor is gone from the pool. -/
theorem refused_pin_drops_anchors :
    ¬ ∀ (C : ClientCrates (List RootAnchor)) (f : Fabric (List RootAnchor)) (u : TrustUpdate),
      WholeUpdate C f u := by
  intro h
  have hpool := (h guardedCrates pinnedClient (.trustFromSet []) _ rfl).anchorPool
  exact absurd hpool (by decide)

end Fabric
end CertRelay
