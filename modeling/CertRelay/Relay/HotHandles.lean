import CertRelay.Relay.EvictionPolicy

/-!
# Hot handles

A sweep asks for twice as many candidates as it deletes, oldest first, and only then leaves
out the hot ones.  If all candidates are hot it deletes hot handles, although a younger cold
one may be stored.

**Results.**
* `exists_cold_candidate_iff`: when a candidate is cold;
* `sparesHot_iff_of_turn`: when a batch spares hot handles;
* `sweep_spares_hot_iff`: the same for every batch of a sweep.
-/

namespace CertRelay
namespace Retention

section Cold

/-- The rows of a space that may be evicted and are not hot. -/
def coldRows (heat : QueryHeat) (db : Tables) (space : String) : List Row :=
  (subRows db space).filter (fun r => !heat.isHot r.handle)

/-- The hot rows that come before the oldest cold one. -/
def hotBefore (order : HashOrder Row) (heat : QueryHeat) (db : Tables) (space : String) :
    List Row :=
  (byAge order (subRows db space)).takeWhile (fun r => heat.isHot r.handle)

/-- A limit of a query covers the row at a position. -/
def Covers (limit : UInt64) (position : ℕ) : Prop :=
  2 ^ 63 ≤ limit.toNat ∨ position < limit.toNat

/-- The oldest cold row of a space, if there is one, is among the rows asked for. -/
def ColdInReach (config : RetentionConfig) (env : TurnEnv) (db : Tables) (space : String) :
    Prop :=
  coldRows env.heat db space = [] ∨
    Covers (config.evictionBatch * 2) (hotBefore env.rowOrder env.heat db space).length

/-- A batch holds a hot handle only if its space has no cold row to evict. -/
def Eviction.SparesHot (heat : QueryHeat) (e : Eviction) : Prop :=
  (∃ h ∈ e.handles, heat.isHot h = true) → coldRows heat e.before e.victim = []

instance (heat : QueryHeat) (e : Eviction) : Decidable (e.SparesHot heat) :=
  inferInstanceAs (Decidable (_ → _))

theorem coldRows_ne_nil_iff
    {order : HashOrder Row}
    {heat : QueryHeat}
    {db : Tables}
    {space : String} :
    coldRows heat db space ≠ [] ↔
      ∃ r ∈ byAge order (subRows db space), heat.isHot r.handle = false := by
  unfold coldRows
  rw [Ne, List.filter_eq_nil_iff, not_forall]
  simp only [(perm_byAge order (subRows db space)).mem_iff]
  simp

/-- **When a candidate is cold.** -/
theorem exists_cold_candidate_iff
    {order : HashOrder Row}
    {heat : QueryHeat}
    {db : Tables}
    {space : String}
    {limit : UInt64} :
    (∃ h ∈ evictionCandidates order db space limit, heat.isHot h = false) ↔
      coldRows heat db space ≠ [] ∧ Covers limit (hotBefore order heat db space).length := by
  have hcandidates : (∃ h ∈ evictionCandidates order db space limit, heat.isHot h = false) ↔
      ∃ r ∈ sqlLimit limit (byAge order (subRows db space)), heat.isHot r.handle = false := by
    unfold evictionCandidates
    simp only [List.mem_map, exists_exists_and_eq_and]
  have hcold : coldRows heat db space ≠ [] ↔
      ∃ r ∈ byAge order (subRows db space), heat.isHot r.handle = false :=
    coldRows_ne_nil_iff
  rw [hcandidates, hcold]
  unfold sqlLimit Covers hotBefore
  split_ifs with hlimit
  · rw [Oldest.exists_mem_take_iff (fun r : Row => heat.isHot r.handle)]
    refine and_congr_right (fun _ => (or_iff_right ?_).symm)
    omega
  · exact (and_iff_left (Or.inl (Nat.le_of_not_lt hlimit))).symm

end Cold

section Turn

variable {config : RetentionConfig} {heat : QueryHeat} {found : List String}

/-- With a cold candidate a batch is cold. -/
theorem cold_of_mem_chooseBatch
    (hbatch : 1 ≤ config.evictionBatch.toNat)
    (hcold : ∃ h ∈ found, heat.isHot h = false)
    {h : String}
    (hmem : h ∈ chooseBatch config heat found) :
    heat.isHot h = false := by
  obtain ⟨c, hc, hccold⟩ := hcold
  have hfilter : found.filter (fun h => !heat.isHot h) ≠ [] :=
    List.ne_nil_of_mem (List.mem_filter.2 ⟨hc, by rw [hccold]; rfl⟩)
  unfold chooseBatch at hmem
  dsimp only at hmem
  split_ifs at hmem with hempty
  · rcases List.take_eq_nil_iff.1 (List.isEmpty_iff.1 hempty) with hzero | hnil
    · omega
    · exact absurd hnil hfilter
  · have hnot := (List.mem_filter.1 (List.mem_of_mem_take hmem)).2
    rwa [Bool.not_eq_true'] at hnot

theorem one_le_of_limit_ne_zero
    (h : config.evictionBatch * 2 ≠ 0) :
    1 ≤ config.evictionBatch.toNat := by
  by_contra hnone
  have hzero : config.evictionBatch = 0 :=
    UInt64.toNat_inj.1 (Nat.lt_one_iff.1 (Nat.lt_of_not_le hnone))
  rw [hzero] at h
  exact h rfl

/-- **When a batch spares hot handles.** -/
theorem sparesHot_iff_of_turn
    {env : TurnEnv}
    {s : SweepState}
    {victim : String}
    (hsome : candidates config env.rowOrder s victim ≠ []) :
    Eviction.SparesHot env.heat ⟨s.db, victim,
        chooseBatch config env.heat (candidates config env.rowOrder s victim)⟩ ↔
      ColdInReach config env s.db victim := by
  have hbatch : 1 ≤ config.evictionBatch.toNat :=
    one_le_of_limit_ne_zero (limit_ne_zero hsome)
  by_cases hcold : ∃ h ∈ candidates config env.rowOrder s victim, env.heat.isHot h = false
  · refine iff_of_true (fun ⟨h, hmem, hhot⟩ => ?_) (Or.inr ?_)
    · have hnot := cold_of_mem_chooseBatch hbatch hcold hmem
      rw [hhot] at hnot
      cases hnot
    · exact (exists_cold_candidate_iff.1 hcold).2
  · -- the batch is not empty, and all of it is hot
    have hfilled : chooseBatch config env.heat (candidates config env.rowOrder s victim) ≠ [] :=
      chooseBatch_ne_nil hbatch hsome
    obtain ⟨h, hmem⟩ := List.exists_mem_of_ne_nil _ hfilled
    have hhot : env.heat.isHot h = true := by
      by_contra hnot
      exact hcold ⟨h, mem_chooseBatch hmem, Bool.eq_false_iff.2 hnot⟩
    constructor
    · exact fun hspares => Or.inl (hspares ⟨h, hmem, hhot⟩)
    · rintro (hnone | hcovers) _
      · exact hnone
      · by_contra hsomecold
        exact hcold (exists_cold_candidate_iff.2 ⟨hsomecold, hcovers⟩)

end Turn

section Sweep

/-- **When the batches of a sweep spare hot handles.** -/
theorem sweep_spares_hot_iff
    {ρ : Type}
    [LinearOrder ρ]
    (ratio : ℕ → ℕ → ρ)
    (V : Crates)
    (config : RetentionConfig)
    (env : ℕ → TurnEnv)
    (db : Tables) :
    (∀ e, e ∈ (sweep ratio V config env db).emitted ↔
      ∃ i, i < config.maxBatchesPerSweep.toNat ∧
        Turns.EmittedAt (sweepTurn ratio V config env) 0 ⟨db, 0, []⟩ i e) ∧
    ∀ i e, Turns.EmittedAt (sweepTurn ratio V config env) 0 ⟨db, 0, []⟩ i e →
      (e.SparesHot (env i).heat ↔ ColdInReach config (env i) e.before e.victim) := by
  constructor
  · intro e
    have hemitted : e ∈ (sweep ratio V config env db).emitted ↔
        ∃ i, i < 0 + config.maxBatchesPerSweep.toNat ∧
          Turns.EmittedAt (sweepTurn ratio V config env) 0 ⟨db, 0, []⟩ i e :=
      Turns.mem_emitted_iff
    rwa [Nat.zero_add] at hemitted
  · rintro i e ⟨s, next, goOn, _, hturn⟩
    obtain ⟨victim, _, hsome, rfl, _⟩ := sweepTurn_emit hturn
    exact sparesHot_iff_of_turn hsome

/-- The two oldest handles below `@a` are hot. -/
def hotTurnEnv : TurnEnv :=
  { sampleTurnEnv with heat := ⟨["x@a", "y@a"], []⟩ }

/-- A hot handle is deleted although the cold `z@a` is stored. -/
theorem sweep_deletes_hot :
    ¬ ∀ e ∈ (sweep Nat.div (Crates.ofTables [] []) sampleConfig (fun _ => hotTurnEnv)
        sampleStore).emitted, e.SparesHot hotTurnEnv.heat := by
  decide +kernel

end Sweep

end Retention
end CertRelay
