import CertRelay.Relay.Retention

/-!
# What a sweep may delete

The policy is stated on the rows that each batch deletes, and on the tables at that moment.
It is kept if the accounting is exact, so that the usage of a space counts its rows, and if
the products that the sweep forms fit into a word.

**Results.**
* `respectsPolicy_of_emit`: a batch respects the policy;
* `sweepInv_of_emit`, `sweepInv_of_skip`: what a turn keeps;
* `deletes_sweep`, `sweepResult_eq_ok`: all that a sweep does is to delete its batches, and
  it returns the number of their rows;
* `sweep_respectsPolicy`: what a sweep deletes.
-/

namespace CertRelay
namespace Retention

section Policy

/-- The stored payload. -/
def payload (db : Tables) : ℕ :=
  (db.handles.rows.map Row.bytes).sum

/-- The accounting is exact, in columns of 64 bits. -/
structure ExactlyAccounted (ever : List (String × ℕ)) (db : Tables) : Prop where
  accounted : Accounted ever db
  fits : db.handles.rows.length < 2 ^ 63

/-- The rows of a space, with its root row. -/
def spaceRows (db : Tables) (space : String) : List Row :=
  db.handles.rows.filter (fun r => decide (r.space = space))

variable (config : RetentionConfig)

/-- The products that a sweep forms fit into a word. -/
structure ProductsFit (db : Tables) : Prop where
  lowWater : config.maxStorageBytes.toNat * min config.lowWaterPct.toNat 100 < 2 ^ 64
  entitlement : ∀ space,
    max (db.spaceUsage space).2 1 * config.entitlementPerEpoch.toNat < 2 ^ 64

/-- A space has more rows than its epochs entitle it to. -/
def OverEntitled (db : Tables) (space : String) : Prop :=
  max (db.spaceUsage space).2 1 * config.entitlementPerEpoch.toNat <
    (spaceRows db space).length

/-- The low-water mark, as an exact number. -/
def lowWaterMark : ℕ :=
  config.maxStorageBytes.toNat * min config.lowWaterPct.toNat 100 / 100

/-- The rows that a batch deletes. -/
def Eviction.rows (e : Eviction) : List Row :=
  victims e.before e.handles

/-- The batches lead from some tables to others. -/
def Deletes (V : Crates) : Tables → List Eviction → Tables → Prop
  | db, [], db' => db' = db
  | db, e :: later, db' =>
      e.before = db ∧ Deletes V (deleteHandles V db e.handles).1 later db'

/-- The policy for the rows of a batch. -/
structure Eviction.RespectsPolicy (e : Eviction) : Prop where
  spares_roots : ∀ r ∈ e.rows, ¬ r.IsRoot
  over_first : ∀ r ∈ e.rows, ¬ OverEntitled config e.before r.space →
    ∀ q ∈ e.before.handles.rows, OverEntitled config e.before q.space → q.IsRoot
  oldest : ∀ r ∈ e.rows,
    (olderRows e.before r).length < 2 * config.evictionBatch.toNat

end Policy

section Turns

variable {config : RetentionConfig}

/-- The test of the sweep is that of the policy. -/
theorem isOver_usageOf
    {ever : List (String × ℕ)}
    {db : Tables}
    (hexact : ExactlyAccounted ever db)
    (hfit : ProductsFit config db)
    (space : String) :
    isOver config (usageOf db space) = true ↔ OverEntitled config db space := by
  unfold isOver entitlement OverEntitled spaceRows usageOf
  rw [decide_eq_true_iff, Nat.mod_eq_of_lt (hfit.entitlement space),
    hexact.accounted.stored_eq]

/-- What the loop keeps: exhausted spaces have nothing left to evict. -/
structure SweepInv (config : RetentionConfig) (ever : List (String × ℕ)) (s : SweepState) :
    Prop where
  exact : ExactlyAccounted ever s.db
  fit : ProductsFit config s.db
  exhausted : config.evictionBatch * 2 ≠ 0 → ∀ space ∈ s.exhausted, subRows s.db space = []

theorem lowWater_eq
    {db : Tables}
    (hfit : ProductsFit config db) :
    lowWater config = lowWaterMark config := by
  unfold lowWater lowWaterMark
  rw [Nat.mod_eq_of_lt hfit.lowWater]

theorem payload_eq
    {ever : List (String × ℕ)}
    {db : Tables}
    (h : Accounted ever db) :
    db.readStorageTotals.2 = payload db := by
  rw [h.readStorageTotals_eq]
  rfl

/-- Deleting handles does not change what accounting is about, epochs included. -/
theorem exactlyAccounted_deleteHandles
    {V : Crates}
    {ever : List (String × ℕ)}
    {db : Tables}
    (h : ExactlyAccounted ever db)
    (handles : List String) :
    ExactlyAccounted ever (deleteHandles V db handles).1 where
  accounted := accounted_deleteHandles h.accounted handles
  fits :=
    (KeyedTable.length_le_of_keys _ _
      (fun r hr => ⟨r, ((mem_deleteHandles V).1 hr).1, rfl⟩)).trans_lt h.fits

theorem productsFit_deleteHandles
    {V : Crates}
    {ever : List (String × ℕ)}
    {db : Tables}
    (h : ExactlyAccounted ever db)
    (hfit : ProductsFit config db)
    (handles : List String) :
    ProductsFit config (deleteHandles V db handles).1 where
  lowWater := hfit.lowWater
  entitlement space := by
    rw [h.accounted.epochs_eq (accounted_deleteHandles h.accounted handles)]
    exact hfit.entitlement space

theorem subRows_deleteHandles
    {V : Crates}
    {db : Tables}
    {space : String}
    (h : subRows db space = [])
    (handles : List String) :
    subRows (deleteHandles V db handles).1 space = [] := by
  refine List.eq_nil_iff_forall_not_mem.2 (fun r hr => ?_)
  obtain ⟨hmem, hsub⟩ := mem_subRows.1 hr
  have hr' : r ∈ subRows db space :=
    mem_subRows.2 ⟨((mem_deleteHandles V).1 hmem).1, hsub⟩
  rw [h] at hr'
  exact absurd hr' List.not_mem_nil

variable {ρ : Type} [LinearOrder ρ] {ratio : ℕ → ℕ → ρ} {V : Crates}
variable {env : TurnEnv} {ever : List (String × ℕ)} {s : SweepState} {victim : String}

/-- A space without candidates is exhausted. -/
theorem sweepInv_of_skip
    (hs : SweepInv config ever s)
    (hnone : candidates config env.rowOrder s victim = []) :
    SweepInv config ever { s with exhausted := victim :: s.exhausted } where
  exact := hs.exact
  fit := hs.fit
  exhausted hlimit space hspace := by
    rcases List.mem_cons.1 hspace with rfl | hspace
    · exact subRows_of_no_candidates hlimit hnone
    · exact hs.exhausted hlimit space hspace

theorem sweepInv_of_emit
    (hs : SweepInv config ever s)
    (batch : List String)
    (evicted : ℕ) :
    SweepInv config ever ⟨(deleteHandles V s.db batch).1, evicted, s.exhausted⟩ where
  exact := exactlyAccounted_deleteHandles hs.exact batch
  fit := productsFit_deleteHandles hs.exact hs.fit batch
  exhausted hlimit space hspace :=
    subRows_deleteHandles (hs.exhausted hlimit space hspace) batch

/-- The rows of a batch are candidates. -/
theorem mem_rows_of_batch
    {r : Row}
    (hr : r ∈ Eviction.rows ⟨s.db, victim,
      chooseBatch config env.heat (candidates config env.rowOrder s victim)⟩) :
    r ∈ subRows s.db victim ∧
      r ∈ sqlLimit (config.evictionBatch * 2)
        (byAge env.rowOrder (subRows s.db victim)) := by
  obtain ⟨hrow, hhandle⟩ := mem_victims.1 hr
  obtain ⟨q, hq, hsub, heq⟩ := mem_evictionCandidates (mem_chooseBatch hhandle)
  have hqr : q = r :=
    s.db.handles.eq_of_key_eq (mem_subRows.1 hsub).1 hrow heq
  rw [← hqr]
  exact ⟨hsub, hq⟩

/-- A space with a row to evict is eligible. -/
theorem mem_eligible_of_sub
    {order : HashOrder SpaceUsage}
    (hs : SweepInv config ever s)
    (hlimit : config.evictionBatch * 2 ≠ 0)
    {q : Row}
    (hq : q ∈ s.db.handles.rows)
    (hroot : ¬ q.IsRoot) :
    usageOf s.db q.space ∈ eligible order s := by
  have hstored : 0 < (usageOf s.db q.space).stored := by
    unfold usageOf
    rw [hs.exact.accounted.stored_eq]
    exact List.length_pos_of_mem (List.mem_filter.2 ⟨hq, decide_eq_true rfl⟩)
  refine List.mem_filter.2 ⟨(mem_spaceUsageAll _ _ _).2 ⟨rfl, hstored⟩, ?_⟩
  refine decide_eq_true (fun hexhausted => ?_)
  have hmem : q ∈ subRows s.db q.space := mem_subRows.2 ⟨hq, rfl, hroot⟩
  have hnil : subRows s.db q.space = [] := hs.exhausted hlimit _ hexhausted
  rw [hnil] at hmem
  exact absurd hmem List.not_mem_nil

/-- **A batch respects the policy.** -/
theorem respectsPolicy_of_emit
    (hs : SweepInv config ever s)
    (hchose : Chose ratio config env s victim)
    (hsome : candidates config env.rowOrder s victim ≠ []) :
    Eviction.RespectsPolicy config ⟨s.db, victim,
      chooseBatch config env.heat (candidates config env.rowOrder s victim)⟩ where
  spares_roots r hr := (mem_subRows.1 (mem_rows_of_batch hr).1).2.2
  over_first r hr hwithin q hq hover := by
    have hspace : r.space = victim := (mem_subRows.1 (mem_rows_of_batch hr).1).2.1
    by_contra hroot
    have hmem : usageOf s.db q.space ∈ eligible env.usageOrder s :=
      mem_eligible_of_sub hs (limit_ne_zero hsome) hq hroot
    obtain ⟨u, hu, huvictim, hchoice⟩ := chooseVictim_over hchose.chosen
    rcases hchoice with huover | hnone
    · -- the victim itself would be over-entitled
      have husage := ((mem_spaceUsageAll _ _ _).1 (List.mem_of_mem_filter hu)).1
      rw [huvictim] at husage
      rw [← husage, isOver_usageOf hs.exact hs.fit, ← hspace] at huover
      exact hwithin huover
    · have hqover := (isOver_usageOf hs.exact hs.fit q.space).2 hover
      rw [(hnone _ hmem).1] at hqover
      cases hqover
  oldest r hr := by
    obtain ⟨hsub, hlimited⟩ := mem_rows_of_batch hr
    rw [← (mem_subRows.1 hsub).2.1] at hlimited
    exact length_older_candidates hs.exact.fits hlimited

end Turns

section Sweep

variable {ρ : Type} [LinearOrder ρ] {ratio : ℕ → ℕ → ρ}
variable {V : Crates} {config : RetentionConfig} {env : ℕ → TurnEnv}
variable {ever : List (String × ℕ)} {db : Tables}

/-- Every batch respects the policy, and the accounting is exact before it. -/
theorem batches_respectPolicy
    (hexact : ExactlyAccounted ever db)
    (hfit : ProductsFit config db) :
    ∀ e ∈ (sweep ratio V config env db).emitted,
      e.RespectsPolicy config ∧ Accounted ever e.before := by
  have hstart : SweepInv config ever ⟨db, 0, []⟩ :=
    ⟨hexact, hfit, fun _ _ hspace => absurd hspace List.not_mem_nil⟩
  refine (Turns.run_emits (fun i s next hs hturn => ?_)
    (fun i s e next goOn hs hturn => ?_) _ 0 hstart).1
  · obtain ⟨victim, _, hnone, rfl⟩ := sweepTurn_skip hturn
    exact sweepInv_of_skip hs hnone
  · obtain ⟨victim, hchose, hsome, rfl, rfl, _⟩ := sweepTurn_emit hturn
    exact ⟨⟨respectsPolicy_of_emit hs hchose hsome, hs.exact.accounted⟩,
      sweepInv_of_emit hs _ _⟩

/-- Before every batch after the first the payload read is above the low-water mark. -/
theorem later_batches_above
    (db : Tables) :
    ∀ e ∈ (sweep ratio V config env db).emitted.tail,
      lowWater config < e.before.readStorageTotals.2 := by
  refine @Turns.run_emits_later _ _ _ (sweepTurn ratio V config env) _
    (fun s => s.evicted ≠ 0) ?_ ?_ ?_ _ 0 ⟨db, 0, []⟩
  · intro i s next hs hturn
    obtain ⟨victim, _, _, rfl⟩ := sweepTurn_skip hturn
    exact hs
  · intro i s e next hturn
    obtain ⟨victim, _, _, _, rfl, hgoOn⟩ := sweepTurn_emit hturn
    have hdeleted : (deleteHandles V s.db e.handles).2 ≠ 0 := of_decide_eq_true hgoOn.symm
    exact (Nat.add_pos_right _ (Nat.pos_of_ne_zero hdeleted)).ne'
  · intro i s e next goOn hs hturn
    obtain ⟨victim, hchose, _, rfl, _, _⟩ := sweepTurn_emit hturn
    have habove := hchose.above
    unfold mark at habove
    rwa [if_neg hs] at habove

/-- Within the budget a sweep leaves in its first turn. -/
theorem sweep_within_budget
    (hwithin : db.readStorageTotals.2 ≤ config.maxStorageBytes.toNat) :
    (sweep ratio V config env db).emitted = [] := by
  have hstuck : ∀ t, sweepTurn ratio V config env 0 ⟨db, 0, []⟩ = .ok t → t = .stop := by
    intro t hturn
    rcases sweepTurn_cases hturn with
      ⟨heq, _⟩ | ⟨_, hchose, _⟩ | ⟨_, _, hchose, _⟩
    · exact heq
    · exact absurd hwithin (Nat.not_le_of_lt hchose.above)
    · exact absurd hwithin (Nat.not_le_of_lt hchose.above)
  exact (Turns.run_of_stuck hstuck config.maxBatchesPerSweep.toNat).1

/-- **All that a sweep does to the tables is to delete its batches.** -/
theorem deletes_sweep
    (db : Tables) :
    Deletes V db (sweep ratio V config env db).emitted
      (sweep ratio V config env db).final.db := by
  refine @Turns.run_induct _ _ _ (sweepTurn ratio V config env)
    (fun s l f => Deletes V s.db l f.db) ?_ ?_ ?_ ?_ _ 0 ⟨db, 0, []⟩
  · intro s
    rfl
  · intro i s next l f hturn hrest
    obtain ⟨victim, _, _, rfl⟩ := sweepTurn_skip hturn
    exact hrest
  · intro i s e next hturn
    obtain ⟨victim, _, _, rfl, rfl, _⟩ := sweepTurn_emit hturn
    exact ⟨rfl, rfl⟩
  · intro i s e next l f hturn hrest
    obtain ⟨victim, _, _, rfl, rfl, _⟩ := sweepTurn_emit hturn
    exact ⟨rfl, hrest⟩

theorem deleteHandles_count
    (V : Crates)
    (db : Tables)
    (handles : List String) :
    (deleteHandles V db handles).2 = (victims db handles).length := by
  unfold deleteHandles
  split_ifs with hempty
  · rw [List.isEmpty_iff.1 hempty]
    simp [victims]
  · rfl

/-- **A sweep returns the number of rows it deleted.** -/
theorem sweepResult_eq_ok
    {n : ℕ}
    (h : sweepResult ratio V config env db = .ok n) :
    n = ((sweep ratio V config env db).emitted.map (fun e => e.rows.length)).sum := by
  have hcount := @Turns.run_induct _ _ _ (sweepTurn ratio V config env)
    (fun s l f => f.evicted = s.evicted + (l.map (fun e => e.rows.length)).sum)
    (fun s => rfl)
    (fun i s next l f hturn hrest => by
      obtain ⟨victim, _, _, rfl⟩ := sweepTurn_skip hturn
      exact hrest)
    (fun i s e next hturn => by
      obtain ⟨victim, _, _, rfl, rfl, _⟩ := sweepTurn_emit hturn
      rw [List.map_singleton, List.sum_singleton, deleteHandles_count]
      rfl)
    (fun i s e next l f hturn hrest => by
      obtain ⟨victim, _, _, rfl, rfl, _⟩ := sweepTurn_emit hturn
      rw [List.map_cons, List.sum_cons, hrest, deleteHandles_count, Nat.add_assoc]
      rfl)
    config.maxBatchesPerSweep.toNat 0 ⟨db, 0, []⟩
  have hn : (sweep ratio V config env db).final.evicted = n := by
    unfold sweepResult at h
    dsimp only at h
    cases hresult : (sweep ratio V config env db).result with
    | error e =>
        rw [hresult] at h
        cases h
    | ok u =>
        rw [hresult] at h
        cases h
        rfl
  rw [← hn]
  exact hcount.trans (Nat.zero_add _)

/-- **The eviction policy.** -/
theorem sweep_respectsPolicy
    {ρ : Type}
    [LinearOrder ρ]
    (ratio : ℕ → ℕ → ρ)
    (V : Crates)
    (config : RetentionConfig)
    (env : ℕ → TurnEnv)
    {ever : List (String × ℕ)}
    {db : Tables}
    (hexact : ExactlyAccounted ever db)
    (hfit : ProductsFit config db) :
    Deletes V db (sweep ratio V config env db).emitted
        (sweep ratio V config env db).final.db ∧
      (payload db ≤ config.maxStorageBytes.toNat →
        (sweep ratio V config env db).emitted = []) ∧
      (∀ e ∈ (sweep ratio V config env db).emitted, e.RespectsPolicy config) ∧
      (∀ e ∈ (sweep ratio V config env db).emitted.tail,
        lowWaterMark config < payload e.before) ∧
      (config.maxStorageBytes = 0 → retentionTick ratio V config env db = none) := by
  have hbatches : ∀ e ∈ (sweep ratio V config env db).emitted,
      e.RespectsPolicy config ∧ Accounted ever e.before :=
    batches_respectPolicy hexact hfit
  refine ⟨deletes_sweep db, fun hwithin => sweep_within_budget ?_,
    fun e he => (hbatches e he).1, fun e he => ?_, fun hzero => if_pos hzero⟩
  · rwa [payload_eq hexact.accounted]
  · have habove := later_batches_above db e he
    rwa [payload_eq (hbatches e (List.mem_of_mem_tail he)).2, lowWater_eq hfit] at habove

/-- A row of ten bytes. -/
def sampleRow (handle space : String) (updatedAt : ℕ) : Row where
  handle := handle
  space := space
  certData := List.replicate 5 0
  zoneData := List.replicate 5 0
  epochHeight := 7
  offchainSeq := 0
  delegateOffchainSeq := 0
  syncSeq := 1
  zoneHash := []
  updatedAt := updatedAt
  syncSeq_pos := Nat.one_pos

/-- Three handles below one root, one below another. -/
def sampleRows : List Row :=
  [sampleRow "@a" "@a" 1, sampleRow "x@a" "@a" 2, sampleRow "y@a" "@a" 3,
    sampleRow "z@a" "@a" 4, sampleRow "@b" "@b" 1, sampleRow "x@b" "@b" 2]

def sampleStore : Tables :=
  Tables.init.insertRows sampleRows

/-- Two handles for an epoch, and a mark of 30 bytes. -/
def sampleConfig : RetentionConfig where
  maxStorageBytes := 50
  entitlementPerEpoch := 2
  lowWaterPct := 60
  evictionBatch := 1
  maxBatchesPerSweep := 10

/-- The handle `x@a` is hot. -/
def sampleTurnEnv : TurnEnv where
  usageOrder := HashOrder.inserted
  rowOrder := HashOrder.inserted
  heat := ⟨["x@a"], []⟩
  totalsError := none
  usageError := none
  candidatesError := none
  deleteError := fun _ => none

theorem exactlyAccounted_sampleStore :
    ExactlyAccounted (sampleRows.map Row.bucket) sampleStore where
  accounted := accounted_insertRows accounted_init sampleRows
  fits := by decide +kernel

theorem productsFit_sampleStore :
    ProductsFit sampleConfig sampleStore where
  lowWater := by decide
  entitlement space := by
    have hepochs : (sampleStore.spaceUsage space).2 ≤ 2 :=
      (List.length_filter_le _ _).trans (by decide +kernel)
    have hentitled : sampleConfig.entitlementPerEpoch.toNat = 2 := rfl
    rw [hentitled]
    omega

/-- A sweep of the sample store. -/
def sampleSweep : Turns.Outcome SweepState Eviction String :=
  sweep Nat.div (Crates.ofTables [] []) sampleConfig (fun _ => sampleTurnEnv) sampleStore

theorem sweep_respectsPolicy_sampleStore :
    sampleSweep.emitted.map Eviction.handles = [["y@a"], ["z@a"], ["x@b"]] ∧
      Deletes (Crates.ofTables [] []) sampleStore sampleSweep.emitted sampleSweep.final.db ∧
      (payload sampleStore ≤ sampleConfig.maxStorageBytes.toNat → sampleSweep.emitted = []) ∧
      (∀ e ∈ sampleSweep.emitted, e.RespectsPolicy sampleConfig) ∧
      (∀ e ∈ sampleSweep.emitted.tail, lowWaterMark sampleConfig < payload e.before) ∧
      (sampleConfig.maxStorageBytes = 0 →
        retentionTick Nat.div (Crates.ofTables [] []) sampleConfig (fun _ => sampleTurnEnv)
          sampleStore = none) :=
  ⟨by decide +kernel,
    sweep_respectsPolicy Nat.div (Crates.ofTables [] []) sampleConfig (fun _ => sampleTurnEnv)
      exactlyAccounted_sampleStore productsFit_sampleStore⟩

end Sweep

end Retention
end CertRelay
