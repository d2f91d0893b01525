import CertRelay.Relay.SweepProgress

/-!
# Entitlement arithmetic

The gate for new handles and the sweep form products of machine words without a check, and a
product that does not fit is taken modulo `2^64`.  A low-water mark from such a product is
always too low.  A wrapped entitlement is wrong for a space whose stored handles lie above it
and not above the exact one: such a space is gated and evicted from as if it were over its
entitlement, and the more epochs it has committed the sooner.

**Results.**
* `lowWater_exact_iff`, `isOver_exact_iff`: when the two products of a sweep are good enough;
* `gated_exact`: then the gate is exact, and `admitted_of_less` monotone;
* `exactArithmetic_iff`: all of it, for a configuration and a store;
* `workable_retentionConfig`: a configuration from the settings lets a sweep make progress.
-/

namespace CertRelay
namespace Retention

section Config

/-- `RetentionSection`, without the interval of the loop. -/
structure RetentionSection where
  maxStorageBytes : UInt64
  entitlementPerEpoch : UInt64
  evictLowWaterPct : UInt8
  evictionBatch : UInt64

/-- `RetentionConfig::default`. -/
def defaultConfig : RetentionConfig where
  maxStorageBytes := 10 * 1024 * 1024 * 1024
  entitlementPerEpoch := 10000
  lowWaterPct := 90
  evictionBatch := 1000
  maxBatchesPerSweep := 20

/-- `Settings::retention_config`. -/
def retentionConfig (r : RetentionSection) : RetentionConfig :=
  { defaultConfig with
    maxStorageBytes := r.maxStorageBytes
    entitlementPerEpoch := max r.entitlementPerEpoch 1
    lowWaterPct := min r.evictLowWaterPct 100
    evictionBatch := max r.evictionBatch 1 }

theorem one_le_max
    (x : UInt64) :
    1 ≤ max x 1 := by
  show 1 ≤ if x ≤ 1 then 1 else x
  split_ifs with hx
  · exact UInt64.le_refl 1
  · exact UInt64.le_of_lt (UInt64.not_le.1 hx)

/-- The bounds that the settings put on a batch and on an entitlement. -/
theorem workable_retentionConfig
    {r : RetentionSection}
    (h : 2 * (max r.evictionBatch 1).toNat < 2 ^ 64) :
    Workable (retentionConfig r) where
  batch := one_le_max r.evictionBatch
  entitlement := one_le_max r.entitlementPerEpoch
  twice := h

/-- What the store answers to the gate. -/
structure GateErrors where
  totals : Option String
  usage : Option String

variable (failure : GateErrors) (config : RetentionConfig) (db : Tables) (space : String)

/-- `first_insert_gated`. -/
def firstInsertGated : Except String Bool := do
  if config.maxStorageBytes = 0 then
    return false
  else
    let totals ← answer failure.totals db.readStorageTotals
    if totals.2 ≤ config.maxStorageBytes.toNat then
      return false
    else
      let usage ← answer failure.usage (usageOf db space)
      return isOver config usage

end Config

section Exact

/-- The entitlement of a space, as an exact number. -/
def exactEntitlement (config : RetentionConfig) (u : SpaceUsage) : ℕ :=
  max u.epochs 1 * config.entitlementPerEpoch.toNat

/-- More handles are stored than the exact entitlement. -/
def OverExactly (config : RetentionConfig) (u : SpaceUsage) : Prop :=
  exactEntitlement config u < u.stored

/-- The gate as it is documented: under pressure, for an over-entitled space. -/
structure Gated (config : RetentionConfig) (db : Tables) (space : String) : Prop where
  limited : config.maxStorageBytes ≠ 0
  pressed : config.maxStorageBytes.toNat < db.readStorageTotals.2
  beyond : OverExactly config (usageOf db space)

/-- The entitlement fits, or it is exceeded anyway, or the wrapped one is enough. -/
def EntitlementHolds (config : RetentionConfig) (u : SpaceUsage) : Prop :=
  exactEntitlement config u < 2 ^ 64 ∨ exactEntitlement config u < u.stored ∨
    u.stored ≤ exactEntitlement config u % 2 ^ 64

/-- The product for the low-water mark fits, and the entitlements are good enough. -/
structure ProductsHold (config : RetentionConfig) (db : Tables) : Prop where
  lowWater : config.maxStorageBytes.toNat * min config.lowWaterPct.toNat 100 < 2 ^ 64
  entitlement : ∀ space, EntitlementHolds config (usageOf db space)

/-- The same pressure and the same stored handles, with no more epochs and no larger
entitlement. -/
structure NoMoreEntitled (space : String) (config config' : RetentionConfig)
    (db db' : Tables) : Prop where
  budget : config.maxStorageBytes = config'.maxStorageBytes
  bytes : db.readStorageTotals.2 = db'.readStorageTotals.2
  stored : (usageOf db space).stored = (usageOf db' space).stored
  epochs : (usageOf db space).epochs ≤ (usageOf db' space).epochs
  entitlement : config.entitlementPerEpoch ≤ config'.entitlementPerEpoch

/-- The arithmetic of the gate and of the sweep is exact, and the gate is monotone. -/
structure ExactArithmetic (config : RetentionConfig) (db : Tables) : Prop where
  gate : ∀ failure space gated, firstInsertGated failure config db space = .ok gated →
    (gated = true ↔ Gated config db space)
  overTest : ∀ space, isOver config (usageOf db space) = true ↔
    OverExactly config (usageOf db space)
  lowWater : lowWater config = lowWaterMark config
  monotone : ∀ less lessDb space failure failure',
    NoMoreEntitled space less config lessDb db →
    firstInsertGated failure less lessDb space = .ok false →
    firstInsertGated failure' config db space ≠ .ok true

variable {config : RetentionConfig} {db : Tables} {space : String}

/-- **When the low-water mark is exact.** -/
theorem lowWater_exact_iff :
    lowWater config = lowWaterMark config ↔
      config.maxStorageBytes.toNat * min config.lowWaterPct.toNat 100 < 2 ^ 64 := by
  unfold lowWater lowWaterMark
  generalize config.maxStorageBytes.toNat * min config.lowWaterPct.toNat 100 = product
  constructor
  · intro heq
    by_contra hwraps
    have hless : product % 2 ^ 64 + 2 ^ 64 ≤ product := by
      have hsplit := Nat.mod_add_div product (2 ^ 64)
      have hquot : 1 ≤ product / 2 ^ 64 := by
        omega
      omega
    omega
  · intro hfits
    rw [Nat.mod_eq_of_lt hfits]

/-- **When the test for an over-entitled space is exact.** -/
theorem isOver_exact_iff
    (u : SpaceUsage) :
    (isOver config u = true ↔ OverExactly config u) ↔ EntitlementHolds config u := by
  unfold isOver entitlement OverExactly EntitlementHolds exactEntitlement
  rw [decide_eq_true_iff]
  generalize max u.epochs 1 * config.entitlementPerEpoch.toNat = product
  have hwrapped : product % 2 ^ 64 ≤ product := Nat.mod_le _ _
  constructor
  · intro hiff
    by_contra hnone
    omega
  · intro hholds
    by_cases hfits : product < 2 ^ 64
    · rw [Nat.mod_eq_of_lt hfits]
    · omega

/-- A wrapped entitlement is never too large. -/
theorem isOver_of_overExactly
    {u : SpaceUsage}
    (h : OverExactly config u) :
    isOver config u = true :=
  decide_eq_true ((Nat.mod_le _ _).trans_lt h)

/-- What the gate answers. -/
theorem firstInsertGated_eq_ok
    {failure : GateErrors}
    {gated : Bool}
    (h : firstInsertGated failure config db space = .ok gated) :
    gated = true ↔ config.maxStorageBytes ≠ 0 ∧
      config.maxStorageBytes.toNat < db.readStorageTotals.2 ∧
      isOver config (usageOf db space) = true := by
  unfold firstInsertGated at h
  split_ifs at h with hzero
  · cases h
    simp [hzero]
  · obtain ⟨totals, htotals, h⟩ := Fallible.bind_eq_ok.1 h
    rw [← answer_eq_ok htotals] at h
    split_ifs at h with hwithin
    · cases h
      simp [Nat.not_lt_of_le hwithin]
    · obtain ⟨usage, husage, h⟩ := Fallible.bind_eq_ok.1 h
      rw [← answer_eq_ok husage] at h
      cases h
      simp [hzero, Nat.lt_of_not_le hwithin]

/-- **The gate is exact** where the test for an over-entitled space is. -/
theorem gated_exact
    {failure : GateErrors}
    {gated : Bool}
    (hholds : EntitlementHolds config (usageOf db space))
    (h : firstInsertGated failure config db space = .ok gated) :
    gated = true ↔ Gated config db space := by
  rw [firstInsertGated_eq_ok h, (isOver_exact_iff _).2 hholds]
  exact ⟨fun ⟨hlimited, hpressed, hover⟩ => ⟨hlimited, hpressed, hover⟩,
    fun hgated => ⟨hgated.limited, hgated.pressed, hgated.beyond⟩⟩

/-- **The gate is monotone**: an admitted space stays admitted with a larger entitlement. -/
theorem admitted_of_less
    {less : RetentionConfig}
    {lessDb : Tables}
    {failure failure' : GateErrors}
    (hholds : EntitlementHolds config (usageOf db space))
    (hless : NoMoreEntitled space less config lessDb db)
    (hadmitted : firstInsertGated failure less lessDb space = .ok false) :
    firstInsertGated failure' config db space ≠ .ok true := by
  intro h
  obtain ⟨hlimited, hpressed, hover⟩ := (gated_exact hholds h).1 rfl
  have hlessover : OverExactly less (usageOf lessDb space) := by
    unfold OverExactly exactEntitlement at hover ⊢
    rw [hless.stored]
    refine lt_of_le_of_lt (Nat.mul_le_mul ?_ ?_) hover
    · exact max_le_max_right 1 hless.epochs
    · exact hless.entitlement
  have hgated := (firstInsertGated_eq_ok hadmitted).2
    ⟨hless.budget ▸ hlimited, by rw [hless.budget, hless.bytes]; exact hpressed,
      isOver_of_overExactly hlessover⟩
  cases hgated

/-- Products that fit are good enough. -/
theorem productsHold_of_productsFit
    (h : ProductsFit config db) :
    ProductsHold config db where
  lowWater := h.lowWater
  entitlement space := Or.inl (h.entitlement space)

/-- **When the arithmetic is exact.** -/
theorem exactArithmetic_iff
    (config : RetentionConfig)
    (db : Tables) :
    ExactArithmetic config db ↔ ProductsHold config db := by
  constructor
  · intro h
    exact ⟨lowWater_exact_iff.1 h.lowWater, fun space => (isOver_exact_iff _).1 (h.overTest space)⟩
  · intro h
    exact ⟨fun _ space _ hgate => gated_exact (h.entitlement space) hgate,
      fun space => (isOver_exact_iff _).2 (h.entitlement space),
      lowWater_exact_iff.2 h.lowWater,
      fun _ _ space _ _ hless hadmitted => admitted_of_less (h.entitlement space) hless hadmitted⟩

/-- Two spaces; the handles of the first have the epoch heights 7, 8, 9 and another one. -/
def storeWithEpoch (epochHeight : ℕ) : Tables :=
  Tables.init.insertRows (sampleRows ++
    [{ sampleRow "u@a" "@a" 5 with epochHeight := 8 },
      { sampleRow "v@a" "@a" 6 with epochHeight := 9 },
      { sampleRow "w@a" "@a" 7 with epochHeight }])

/-- Four times this entitlement, the greatest power of two that TOML has, does not fit into a
word. -/
def wrappingSection : RetentionSection where
  maxStorageBytes := 50
  entitlementPerEpoch := 4611686018427387904
  evictLowWaterPct := 90
  evictionBatch := 1000

/-- A fourth epoch takes the whole entitlement of a space. -/
theorem entitlement_wraps :
    firstInsertGated ⟨none, none⟩ (retentionConfig wrappingSection) (storeWithEpoch 9) "@a" =
        .ok false ∧
      firstInsertGated ⟨none, none⟩ (retentionConfig wrappingSection) (storeWithEpoch 10) "@a" =
        .ok true ∧
      ¬ ExactArithmetic (retentionConfig wrappingSection) (storeWithEpoch 10) := by
  have hgated : firstInsertGated ⟨none, none⟩ (retentionConfig wrappingSection)
      (storeWithEpoch 10) "@a" = .ok true :=
    Fallible.toOption_eq_some.1 (by decide +kernel)
  refine ⟨Fallible.toOption_eq_some.1 (by decide +kernel), hgated, fun h => ?_⟩
  have hover := ((h.gate ⟨none, none⟩ "@a" true hgated).1 rfl).beyond
  unfold OverExactly at hover
  revert hover
  decide +kernel

end Exact

end Retention
end CertRelay
