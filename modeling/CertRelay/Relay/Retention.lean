import CertRelay.Lib.Oldest
import CertRelay.Lib.Tally
import CertRelay.Lib.Turns
import CertRelay.Relay.Accounting
import CertRelay.Relay.SyncPage

/-!
# Storage retention

A sweep evicts handles in batches while the payload is above a mark: the budget before the
first deletion, the low-water mark after it.  A batch is taken from the space that is most
over its entitlement, or from the largest space if none is over; it holds the oldest cold
handles of that space, or the oldest ones if all are hot.

Machine words are `UInt64`, and the products that the code forms without a check are taken
modulo `2^64`.  Parameters are the order in which rows of one age and spaces come, the
`f64` quotient that ranks spaces, the queried handles at each turn and the errors of the
store.

**Results.**
* `sweepTurn_cases`: what a turn of a sweep does, `sweepTurn_skip` and `sweepTurn_emit` for
  one that goes on and for one with a batch;
* `mem_spaceUsageAll`: the spaces with stored handles, each with its usage;
* `chooseVictim_over`: an over-entitled space is preferred, then a largest one;
* `exists_victim`: among some spaces there is a victim;
* `mem_evictionCandidates`, `length_older_candidates`: what may be evicted.
-/

namespace CertRelay

/-- `RetentionConfig`, without the interval of the loop. -/
structure RetentionConfig where
  maxStorageBytes : UInt64
  entitlementPerEpoch : UInt64
  lowWaterPct : UInt8
  evictionBatch : UInt64
  maxBatchesPerSweep : UInt64
deriving DecidableEq

/-- The sets of `QueryHeat`. -/
structure QueryHeat where
  active : List String
  prev : List String
deriving DecidableEq

def QueryHeat.isHot (heat : QueryHeat) (handle : String) : Bool :=
  decide (handle ∈ heat.active) || decide (handle ∈ heat.prev)

namespace Retention

section Usage

/-- A row of `space_usage_all`. -/
structure SpaceUsage where
  space : String
  stored : ℕ
  epochs : ℕ
deriving DecidableEq

/-- The stored handles and epochs of a space. -/
def usageOf (db : Tables) (space : String) : SpaceUsage :=
  ⟨space, (db.spaceUsage space).1, (db.spaceUsage space).2⟩

/-- `SqliteStore::space_usage_all`. -/
def spaceUsageAll (order : HashOrder SpaceUsage) (db : Tables) : List SpaceUsage :=
  order.arrange (((db.spaceEpochCounts.rows.map EpochCount.space).dedup.map (usageOf db)).filter
    (fun u => decide (0 < u.stored)))

/-- The rows of a space that are not its root row. -/
def subRows (db : Tables) (space : String) : List Row :=
  db.handles.rows.filter (fun r => decide (r.space = space ∧ r.handle ≠ space))

/-- The rows in the order of `ORDER BY updated_at ASC`. -/
def byAge (order : HashOrder Row) (rows : List Row) : List Row :=
  (order.arrange rows).insertionSort (fun a b => a.updatedAt ≤ b.updatedAt)

/-- `SqliteStore::eviction_candidates`. -/
def evictionCandidates (order : HashOrder Row) (db : Tables) (space : String)
    (limit : UInt64) : List String :=
  (sqlLimit limit (byAge order (subRows db space))).map Row.handle

end Usage

section Sweep

variable {ρ : Type} [LinearOrder ρ] (ratio : ℕ → ℕ → ρ)
variable (V : Crates) (config : RetentionConfig)

/-- `epochs.max(1) * config.entitlement_per_epoch`. -/
def entitlement (epochs : ℕ) : ℕ :=
  max epochs 1 * config.entitlementPerEpoch.toNat % 2 ^ 64

/-- `config.max_storage_bytes * config.low_water_pct.min(100) as u64 / 100`. -/
def lowWater : ℕ :=
  config.maxStorageBytes.toNat * min config.lowWaterPct.toNat 100 % 2 ^ 64 / 100

/-- The space has more handles than it is entitled to. -/
def isOver (u : SpaceUsage) : Bool :=
  decide (entitlement config u.epochs < u.stored)

/-- The victim: the worst of the over-entitled spaces, or the largest space. -/
def chooseVictim (usage : List SpaceUsage) : Option String :=
  match Tally.lastBest (fun u => ratio u.stored (entitlement config u.epochs))
      (usage.filter (isOver config)) with
  | some u => some u.space
  | none => (Tally.lastBest SpaceUsage.stored usage).map SpaceUsage.space

/-- The batch: cold candidates, or any if all are hot. -/
def chooseBatch (heat : QueryHeat) (candidates : List String) : List String :=
  let cold := (candidates.filter (fun h => !heat.isHot h)).take config.evictionBatch.toNat
  if cold.isEmpty then candidates.take config.evictionBatch.toNat else cold

/-- What a turn meets outside the sweep. -/
structure TurnEnv where
  usageOrder : HashOrder SpaceUsage
  rowOrder : HashOrder Row
  heat : QueryHeat
  totalsError : Option String
  usageError : Option String
  candidatesError : Option String
  deleteError : List String → Option String

/-- The value of a store call, or its error. -/
def answer {α : Type} (failure : Option String) (value : α) : Except String α :=
  match failure with
  | some e => .error e
  | none => .ok value

/-- The variables of the loop. -/
structure SweepState where
  db : Tables
  evicted : ℕ
  exhausted : List String

/-- A batch, with the tables before it is deleted. -/
structure Eviction where
  before : Tables
  victim : String
  handles : List String

/-- The mark that the payload is compared with. -/
def mark (s : SweepState) : ℕ :=
  if s.evicted = 0 then config.maxStorageBytes.toNat else lowWater config

/-- The spaces that have not been found to have no candidates. -/
def eligible (order : HashOrder SpaceUsage) (s : SweepState) : List SpaceUsage :=
  (spaceUsageAll order s.db).filter (fun u => decide (u.space ∉ s.exhausted))

/-- The candidates of a victim. -/
def candidates (order : HashOrder Row) (s : SweepState) (victim : String) : List String :=
  evictionCandidates order s.db victim (config.evictionBatch * 2)

/-- The turn that deletes a batch; a turn that deletes nothing is the last. -/
def deleteBatch (env : TurnEnv) (s : SweepState) (victim : String) (batch : List String) :
    Except String (Turns.Turn SweepState Eviction) := do
  let deleted ← answer (env.deleteError batch) (deleteHandles V s.db batch)
  return .emit ⟨s.db, victim, batch⟩ ⟨deleted.1, s.evicted + deleted.2, s.exhausted⟩
    (decide (deleted.2 ≠ 0))

/-- A turn of the loop of `sweep`. -/
def sweepTurn (env : ℕ → TurnEnv) (i : ℕ) (s : SweepState) :
    Except String (Turns.Turn SweepState Eviction) := do
  let totals ← answer (env i).totalsError s.db.readStorageTotals
  if totals.2 ≤ mark config s then
    return .stop
  else
    let usage ← answer (env i).usageError (eligible (env i).usageOrder s)
    match chooseVictim ratio config usage with
    | none => return .stop
    | some victim =>
        let found ← answer (env i).candidatesError
          (candidates config (env i).rowOrder s victim)
        if found.isEmpty then
          return .skip { s with exhausted := victim :: s.exhausted }
        else
          deleteBatch V (env i) s victim (chooseBatch config (env i).heat found)

/-- `sweep`: the batches it deletes, and the tables it leaves. -/
def sweep (env : ℕ → TurnEnv) (db : Tables) : Turns.Outcome SweepState Eviction String :=
  Turns.run (sweepTurn ratio V config env) config.maxBatchesPerSweep.toNat 0 ⟨db, 0, []⟩

/-- What `sweep` returns: the number of rows evicted. -/
def sweepResult (env : ℕ → TurnEnv) (db : Tables) : Except String ℕ :=
  let outcome := sweep ratio V config env db
  outcome.result.map (fun _ => outcome.final.evicted)

/-- One tick of `run_retention_loop`, which does not sweep without a budget. -/
def retentionTick (env : ℕ → TurnEnv) (db : Tables) :
    Option (Turns.Outcome SweepState Eviction String) :=
  if config.maxStorageBytes = 0 then none else some (sweep ratio V config env db)

end Sweep

section Choices

/-- **The spaces with stored handles**, each with its usage. -/
theorem mem_spaceUsageAll
    (order : HashOrder SpaceUsage)
    (db : Tables)
    (u : SpaceUsage) :
    u ∈ spaceUsageAll order db ↔ usageOf db u.space = u ∧ 0 < u.stored := by
  unfold spaceUsageAll
  rw [order.mem_arrange, List.mem_filter, List.mem_map, decide_eq_true_iff]
  refine and_congr_left (fun hstored => ?_)
  constructor
  · rintro ⟨space, _, rfl⟩
    rfl
  · intro hu
    refine ⟨u.space, List.mem_dedup.2 ?_, hu⟩
    by_contra hnone
    have hfilter : db.spaceEpochCounts.rows.filter (fun c => decide (c.space = u.space)) = [] :=
      List.filter_eq_nil_iff.2 (fun c hc hspace =>
        hnone (List.mem_map.2 ⟨c, hc, of_decide_eq_true hspace⟩))
    have hzero : (usageOf db u.space).stored = 0 := by
      unfold usageOf Tables.spaceUsage
      rw [hfilter]
      rfl
    rw [hu] at hzero
    exact hstored.ne' hzero

variable {ρ : Type} [LinearOrder ρ] {ratio : ℕ → ℕ → ρ} {config : RetentionConfig}

/-- **An over-entitled space is preferred**, and without one a largest space. -/
theorem chooseVictim_over
    {usage : List SpaceUsage}
    {victim : String}
    (h : chooseVictim ratio config usage = some victim) :
    ∃ u ∈ usage, u.space = victim ∧
      (isOver config u = true ∨
        ∀ v ∈ usage, isOver config v = false ∧ v.stored ≤ u.stored) := by
  unfold chooseVictim at h
  cases hover : Tally.lastBest (fun u => ratio u.stored (entitlement config u.epochs))
      (usage.filter (isOver config)) with
  | some u =>
      rw [hover] at h
      cases h
      obtain ⟨hu, hisOver⟩ := List.mem_filter.1 (Tally.lastBest_mem hover).1
      exact ⟨u, hu, rfl, Or.inl hisOver⟩
  | none =>
      rw [hover] at h
      obtain ⟨u, hu, rfl⟩ := Option.map_eq_some_iff.1 h
      have hnone := List.filter_eq_nil_iff.1 (Tally.lastBest_eq_none.1 hover)
      refine ⟨u, (Tally.lastBest_mem hu).1, rfl, Or.inr (fun v hv => ⟨?_, ?_⟩)⟩
      · exact Bool.eq_false_iff.2 (hnone v hv)
      · exact (Tally.lastBest_mem hu).2 v hv

/-- Among some spaces there is a victim. -/
theorem exists_victim
    {usage : List SpaceUsage}
    (h : usage ≠ []) :
    ∃ victim, chooseVictim ratio config usage = some victim := by
  unfold chooseVictim
  cases Tally.lastBest (fun u => ratio u.stored (entitlement config u.epochs))
      (usage.filter (isOver config)) with
  | some u =>
      exact ⟨u.space, rfl⟩
  | none =>
      cases hlargest : Tally.lastBest SpaceUsage.stored usage with
      | some u =>
          exact ⟨u.space, rfl⟩
      | none =>
          exact absurd (Tally.lastBest_eq_none.1 hlargest) h

theorem mem_subRows
    {db : Tables}
    {space : String}
    {r : Row} :
    r ∈ subRows db space ↔ r ∈ db.handles.rows ∧ r.space = space ∧ ¬ r.IsRoot := by
  unfold subRows Row.IsRoot
  rw [List.mem_filter, decide_eq_true_iff]
  refine and_congr_right (fun _ => and_congr_right (fun hspace => ?_))
  rw [hspace]

theorem perm_byAge
    (order : HashOrder Row)
    (rows : List Row) :
    (byAge order rows).Perm rows :=
  (List.perm_insertionSort _ _).trans (order.perm rows)

theorem mem_of_mem_sqlLimit
    {limit : UInt64}
    {rows : List Row}
    {r : Row}
    (h : r ∈ sqlLimit limit rows) :
    r ∈ rows := by
  unfold sqlLimit at h
  split_ifs at h
  · exact List.mem_of_mem_take h
  · exact h

/-- Only rows that are not the root row may be evicted. -/
theorem mem_evictionCandidates
    {order : HashOrder Row}
    {db : Tables}
    {space : String}
    {limit : UInt64}
    {h : String}
    (hmem : h ∈ evictionCandidates order db space limit) :
    ∃ r ∈ sqlLimit limit (byAge order (subRows db space)),
      r ∈ subRows db space ∧ r.handle = h := by
  obtain ⟨r, hr, hhandle⟩ := List.mem_map.1 hmem
  exact ⟨r, hr, (perm_byAge order _).mem_iff.1 (mem_of_mem_sqlLimit hr), hhandle⟩

/-- No candidates, although some are asked for: the space has only its root row left. -/
theorem subRows_of_no_candidates
    {order : HashOrder Row}
    {db : Tables}
    {space : String}
    {limit : UInt64}
    (hlimit : limit ≠ 0)
    (h : evictionCandidates order db space limit = []) :
    subRows db space = [] := by
  have hrows : sqlLimit limit (byAge order (subRows db space)) = [] :=
    List.map_eq_nil_iff.1 h
  have hnil : byAge order (subRows db space) = [] := by
    unfold sqlLimit at hrows
    split_ifs at hrows
    · rcases List.take_eq_nil_iff.1 hrows with hzero | hnil
      · exact absurd (UInt64.toNat_inj.1 (hzero.trans UInt64.toNat_zero.symm)) hlimit
      · exact hnil
    · exact hrows
  rw [← List.perm_nil, ← hnil]
  exact (perm_byAge order (subRows db space)).symm

/-- Candidates are only found if some are asked for. -/
theorem limit_ne_zero
    {order : HashOrder Row}
    {db : Tables}
    {space : String}
    {limit : UInt64}
    (h : evictionCandidates order db space limit ≠ []) :
    limit ≠ 0 := by
  rintro rfl
  exact h rfl

/-- The number of rows of a space, its root row aside, that are older than a row. -/
def olderRows (db : Tables) (r : Row) : List Row :=
  (subRows db r.space).filter (fun q => decide (q.updatedAt < r.updatedAt))

/-- **A candidate is among the oldest.** -/
theorem length_older_candidates
    {order : HashOrder Row}
    {db : Tables}
    {batch : UInt64}
    {r : Row}
    (hrows : db.handles.rows.length < 2 ^ 63)
    (hr : r ∈ sqlLimit (batch * 2) (byAge order (subRows db r.space))) :
    (olderRows db r).length < 2 * batch.toNat := by
  have hsorted : (byAge order (subRows db r.space)).Pairwise
      (fun a b => a.updatedAt ≤ b.updatedAt) :=
    List.pairwise_insertionSort _ _
  have holder : (olderRows db r).length =
      ((byAge order (subRows db r.space)).filter
        (fun q => decide (q.updatedAt < r.updatedAt))).length :=
    (((perm_byAge order (subRows db r.space)).symm).filter _).length_eq
  have hlimit : (batch * 2).toNat ≤ 2 * batch.toNat := by
    rw [UInt64.toNat_mul, mul_comm]
    exact Nat.mod_le _ _
  unfold sqlLimit at hr
  split_ifs at hr with hlt
  · rw [holder]
    exact (Oldest.length_older_lt hsorted hr).trans_le hlimit
  · calc (olderRows db r).length
        ≤ (subRows db r.space).length := List.length_filter_le _ _
      _ ≤ db.handles.rows.length := List.length_filter_le _ _
      _ < 2 ^ 63 := hrows
      _ ≤ 2 * batch.toNat := (Nat.le_of_not_lt hlt).trans hlimit

theorem mem_chooseBatch
    {heat : QueryHeat}
    {found : List String}
    {h : String}
    (hmem : h ∈ chooseBatch config heat found) :
    h ∈ found := by
  unfold chooseBatch at hmem
  dsimp only at hmem
  split_ifs at hmem
  · exact List.mem_of_mem_take hmem
  · exact List.mem_of_mem_filter (List.mem_of_mem_take hmem)

theorem chooseBatch_ne_nil
    {heat : QueryHeat}
    {found : List String}
    (hbatch : 1 ≤ config.evictionBatch.toNat)
    (hfound : found ≠ []) :
    chooseBatch config heat found ≠ [] := by
  unfold chooseBatch
  dsimp only
  split_ifs with hcold
  · intro hnil
    rcases List.take_eq_nil_iff.1 hnil with hzero | hnil
    · omega
    · exact hfound hnil
  · exact fun hnil => hcold (List.isEmpty_iff.2 hnil)

end Choices

section Turn

variable {ρ : Type} [LinearOrder ρ] {ratio : ℕ → ℕ → ρ}
variable {V : Crates} {config : RetentionConfig}

theorem answer_eq_ok
    {α : Type}
    {failure : Option String}
    {value a : α}
    (h : answer failure value = .ok a) :
    value = a := by
  cases failure with
  | some e =>
      cases h
  | none =>
      cases h
      rfl

/-- A turn chose a victim: the payload is above the mark. -/
structure Chose (ratio : ℕ → ℕ → ρ) (config : RetentionConfig) (env : TurnEnv)
    (s : SweepState) (victim : String) : Prop where
  above : mark config s < s.db.readStorageTotals.2
  chosen : chooseVictim ratio config (eligible env.usageOrder s) = some victim

/-- **What a turn of a sweep does.** -/
theorem sweepTurn_cases
    {env : ℕ → TurnEnv}
    {i : ℕ}
    {s : SweepState}
    {t : Turns.Turn SweepState Eviction}
    (h : sweepTurn ratio V config env i s = .ok t) :
    (t = .stop ∧ (s.db.readStorageTotals.2 ≤ mark config s ∨
      chooseVictim ratio config (eligible (env i).usageOrder s) = none)) ∨
    (∃ victim, Chose ratio config (env i) s victim ∧
      candidates config (env i).rowOrder s victim = [] ∧
      t = .skip { s with exhausted := victim :: s.exhausted }) ∨
    (∃ victim batch, Chose ratio config (env i) s victim ∧
      candidates config (env i).rowOrder s victim ≠ [] ∧
      batch = chooseBatch config (env i).heat (candidates config (env i).rowOrder s victim) ∧
      t = .emit ⟨s.db, victim, batch⟩
        ⟨(deleteHandles V s.db batch).1, s.evicted + (deleteHandles V s.db batch).2,
          s.exhausted⟩
        (decide ((deleteHandles V s.db batch).2 ≠ 0))) := by
  obtain ⟨totals, htotals, h⟩ := Fallible.bind_eq_ok.1 h
  rw [← answer_eq_ok htotals] at h
  split_ifs at h with hmark
  · cases h
    exact Or.inl ⟨rfl, Or.inl hmark⟩
  · obtain ⟨usage, husage, h⟩ := Fallible.bind_eq_ok.1 h
    rw [← answer_eq_ok husage] at h
    cases hvictim : chooseVictim ratio config (eligible (env i).usageOrder s) with
    | none =>
        rw [hvictim] at h
        cases h
        exact Or.inl ⟨rfl, Or.inr rfl⟩
    | some victim =>
        have hchose : Chose ratio config (env i) s victim :=
          ⟨Nat.lt_of_not_le hmark, hvictim⟩
        rw [hvictim] at h
        obtain ⟨found, hfound, h⟩ := Fallible.bind_eq_ok.1 h
        rw [← answer_eq_ok hfound] at h
        split_ifs at h with hempty
        · cases h
          exact Or.inr (Or.inl ⟨victim, hchose, List.isEmpty_iff.1 hempty, rfl⟩)
        · obtain ⟨deleted, hdeleted, h⟩ := Fallible.bind_eq_ok.1 h
          rw [← answer_eq_ok hdeleted] at h
          cases h
          exact Or.inr (Or.inr ⟨victim, _, hchose,
            fun hnil => hempty (List.isEmpty_iff.2 hnil), rfl, rfl⟩)

/-- A turn that goes on without a batch. -/
theorem sweepTurn_skip
    {env : ℕ → TurnEnv}
    {i : ℕ}
    {s next : SweepState}
    (h : sweepTurn ratio V config env i s = .ok (.skip next)) :
    ∃ victim, Chose ratio config (env i) s victim ∧
      candidates config (env i).rowOrder s victim = [] ∧
      next = { s with exhausted := victim :: s.exhausted } := by
  rcases sweepTurn_cases h with
    ⟨heq, _⟩ | ⟨victim, hchose, hnone, heq⟩ | ⟨_, _, _, _, _, heq⟩
  · cases heq
  · cases heq
    exact ⟨victim, hchose, hnone, rfl⟩
  · cases heq

/-- A turn with a batch. -/
theorem sweepTurn_emit
    {env : ℕ → TurnEnv}
    {i : ℕ}
    {s next : SweepState}
    {e : Eviction}
    {goOn : Bool}
    (h : sweepTurn ratio V config env i s = .ok (.emit e next goOn)) :
    ∃ victim, Chose ratio config (env i) s victim ∧
      candidates config (env i).rowOrder s victim ≠ [] ∧
      e = ⟨s.db, victim, chooseBatch config (env i).heat
        (candidates config (env i).rowOrder s victim)⟩ ∧
      next = ⟨(deleteHandles V s.db e.handles).1,
        s.evicted + (deleteHandles V s.db e.handles).2, s.exhausted⟩ ∧
      goOn = decide ((deleteHandles V s.db e.handles).2 ≠ 0) := by
  rcases sweepTurn_cases h with
    ⟨heq, _⟩ | ⟨_, _, _, heq⟩ | ⟨victim, batch, hchose, hsome, hbatch, heq⟩
  · cases heq
  · cases heq
  · cases heq
    subst hbatch
    exact ⟨victim, hchose, hsome, rfl, rfl, rfl⟩

end Turn

end Retention

end CertRelay
