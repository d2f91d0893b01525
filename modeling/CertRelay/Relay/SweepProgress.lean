import CertRelay.Relay.EvictionPolicy
import Mathlib.Algebra.Order.BigOperators.Group.List

/-!
# A sweep makes progress

The root row of a space counts as stored and is never evicted, so a victim may have nothing
to evict.  It has if two of its rows are stored.  With exact accounting that is so for every
over-entitled space, as an entitlement is at least one, and for the largest space, as long as
some space holds a row besides its root row.

A batch is deleted by statements that bind one variable for each of its handles, and the
settings bound it from below only: SQLite refuses a batch of more than `maxVariables`, and the
sweep ends with its error.  Otherwise the store answers.

**Results.**
* `subRows_ne_nil`: a space with two rows has one to evict;
* `victim_evictable`: so has a victim, as long as some space has;
* `evicts_of_above`: a turn above the mark deletes a row, if it succeeds;
* `exists_sweepTurn`: it succeeds if its batch fits;
* `relieved_turn`: no batch follows once the payload is low enough;
* `batchFits_of_progresses`: without a batch that fits there is no progress;
* `sweep_progress_iff`: every turn above the mark deletes a row, and with enough batches a
  sweep gets below the low-water mark or leaves only root rows, exactly if its batches fit.
-/

namespace CertRelay
namespace Retention

section Rows

/-- Every space with rows has its root row. -/
def RootsStored (db : Tables) : Prop :=
  ∀ r ∈ db.handles.rows, ∃ root ∈ db.handles.rows, root.IsRoot ∧ root.space = r.space

/-- Only root rows are stored. -/
def OnlyRoots (db : Tables) : Prop :=
  ∀ r ∈ db.handles.rows, r.IsRoot

/-- The rows that are not the root row of their space. -/
def evictable (db : Tables) : List Row :=
  db.handles.rows.filter (fun r => decide (¬ r.IsRoot))

theorem mem_evictable
    {db : Tables}
    {r : Row} :
    r ∈ evictable db ↔ r ∈ db.handles.rows ∧ ¬ r.IsRoot := by
  unfold evictable
  rw [List.mem_filter, decide_eq_true_iff]

theorem onlyRoots_iff
    {db : Tables} :
    OnlyRoots db ↔ evictable db = [] := by
  rw [List.eq_nil_iff_forall_not_mem]
  refine forall_congr' (fun r => ?_)
  rw [mem_evictable, not_and_not_right]

theorem subRows_of_onlyRoots
    {db : Tables}
    (h : OnlyRoots db)
    (space : String) :
    subRows db space = [] := by
  refine List.eq_nil_iff_forall_not_mem.2 (fun r hr => ?_)
  obtain ⟨hmem, _, hroot⟩ := mem_subRows.1 hr
  exact hroot (h r hmem)

theorem nodup_rows
    (db : Tables) :
    db.handles.rows.Nodup :=
  List.Nodup.of_map _ db.handles.nodup

/-- **A space with two rows has one to evict**, since its root row is one. -/
theorem subRows_ne_nil
    {db : Tables}
    {space : String}
    (h : 2 ≤ (spaceRows db space).length) :
    subRows db space ≠ [] := by
  intro hnil
  have hroot : ∀ r ∈ spaceRows db space, r.handle = space := by
    intro r hr
    obtain ⟨hmem, hspace⟩ := List.mem_filter.1 hr
    by_contra hne
    have hsub : r ∈ subRows db space :=
      List.mem_filter.2 ⟨hmem, decide_eq_true ⟨of_decide_eq_true hspace, hne⟩⟩
    rw [hnil] at hsub
    exact absurd hsub List.not_mem_nil
  have hkeys : ((spaceRows db space).map Row.handle).Nodup :=
    (List.filter_sublist.map _).nodup db.handles.nodup
  have hsame : (spaceRows db space).map Row.handle ⊆ [space] := by
    intro handle hhandle
    obtain ⟨r, hr, rfl⟩ := List.mem_map.1 hhandle
    exact List.mem_singleton.2 (hroot r hr)
  have hone := (List.subperm_of_subset hkeys hsame).length_le
  rw [List.length_map, List.length_singleton] at hone
  omega

/-- A row besides the root row makes two. -/
theorem two_le_spaceRows
    {db : Tables}
    {r : Row}
    (hroots : RootsStored db)
    (hr : r ∈ evictable db) :
    2 ≤ (spaceRows db r.space).length := by
  obtain ⟨hmem, hsub⟩ := mem_evictable.1 hr
  obtain ⟨root, hroot, hisRoot, hspace⟩ := hroots r hmem
  have hne : r ≠ root := fun heq => hsub (heq ▸ hisRoot)
  have hpair : [r, root] ⊆ spaceRows db r.space := by
    intro q hq
    rcases List.mem_pair.1 hq with rfl | rfl
    · exact List.mem_filter.2 ⟨hmem, decide_eq_true rfl⟩
    · exact List.mem_filter.2 ⟨hroot, decide_eq_true hspace⟩
  have hnodup : [r, root].Nodup := by
    simp [hne]
  exact (List.subperm_of_subset hnodup hpair).length_le

variable {V : Crates} {db : Tables} {handles : List String}

theorem rootsStored_deleteHandles
    (hroots : RootsStored db)
    (hspared : ∀ r ∈ victims db handles, ¬ r.IsRoot) :
    RootsStored (deleteHandles V db handles).1 := by
  intro r hr
  obtain ⟨root, hmem, hroot, hspace⟩ := hroots r ((mem_deleteHandles V).1 hr).1
  refine ⟨root, (mem_deleteHandles V).2 ⟨hmem, fun hlisted => ?_⟩, hroot, hspace⟩
  exact hspared root (mem_victims.2 ⟨hmem, hlisted⟩) hroot

/-- A batch with such a row leaves fewer of them. -/
theorem length_evictable_deleteHandles
    {r : Row}
    (hr : r ∈ victims db handles)
    (hsub : ¬ r.IsRoot) :
    (evictable (deleteHandles V db handles).1).length < (evictable db).length := by
  obtain ⟨hmem, hlisted⟩ := mem_victims.1 hr
  have hgone : r ∉ evictable (deleteHandles V db handles).1 := fun hleft =>
    ((mem_deleteHandles V).1 (mem_evictable.1 hleft).1).2 hlisted
  have hnodup : (r :: evictable (deleteHandles V db handles).1).Nodup :=
    List.nodup_cons.2 ⟨hgone, (nodup_rows _).filter _⟩
  have hsubset : r :: evictable (deleteHandles V db handles).1 ⊆ evictable db := by
    intro q hq
    rcases List.mem_cons.1 hq with rfl | hq
    · exact mem_evictable.2 ⟨hmem, hsub⟩
    · obtain ⟨hleft, hqsub⟩ := mem_evictable.1 hq
      exact mem_evictable.2 ⟨((mem_deleteHandles V).1 hleft).1, hqsub⟩
  exact (List.subperm_of_subset hnodup hsubset).length_le

end Rows

section Turn

variable {ρ : Type} [LinearOrder ρ] {ratio : ℕ → ℕ → ρ} {V : Crates}
variable {config : RetentionConfig} {env : ℕ → TurnEnv} {ever : List (String × ℕ)}

/-- The store answers the calls of a turn; a deletion is refused as SQLite does. -/
structure Answers (env : TurnEnv) : Prop where
  totals : env.totalsError = none
  usage : env.usageError = none
  candidates : env.candidatesError = none
  delete : ∀ batch : List String, env.deleteError batch = refusal batch.length

/-- A batch is deleted by `delete_handles`. -/
theorem Answers.deleteBatch_eq
    {i : ℕ}
    (hanswers : Answers (env i))
    (s : SweepState)
    (victim : String)
    (batch : List String) :
    deleteBatch V (env i) s victim batch =
      (do
        let deleted ← tryDeleteHandles V s.db batch
        return .emit ⟨s.db, victim, batch⟩ ⟨deleted.1, s.evicted + deleted.2, s.exhausted⟩
          (decide (deleted.2 ≠ 0))) := by
  unfold deleteBatch tryDeleteHandles bindVariables
  rw [hanswers.delete]
  cases refusal batch.length <;> rfl

/-- The candidates that a batch is taken from: the cold ones, or all if none is. -/
def choosable (heat : QueryHeat) (found : List String) : List String :=
  let cold := found.filter (fun h => !heat.isHot h)
  if cold.isEmpty then found else cold

/-- The batch that a turn would delete is short enough, by its bound or for want of
candidates. -/
def BatchFits (ratio : ℕ → ℕ → ρ) (config : RetentionConfig) (env : TurnEnv)
    (s : SweepState) : Prop :=
  ∀ victim, Chose ratio config env s victim →
    config.evictionBatch.toNat ≤ maxVariables ∨
      (choosable env.heat (candidates config env.rowOrder s victim)).length ≤ maxVariables

/-- A batch and an entitlement are at least one, and twice a batch fits into a word. -/
structure Workable (config : RetentionConfig) : Prop where
  batch : 1 ≤ config.evictionBatch
  entitlement : 1 ≤ config.entitlementPerEpoch
  twice : 2 * config.evictionBatch.toNat < 2 ^ 64

theorem Workable.limit_ne_zero
    (h : Workable config) :
    config.evictionBatch * 2 ≠ 0 := by
  intro hzero
  have hnat := congrArg UInt64.toNat hzero
  have hone : 1 ≤ config.evictionBatch.toNat := h.batch
  have htwice := h.twice
  rw [UInt64.toNat_mul] at hnat
  have htwo : (2 : UInt64).toNat = 2 := rfl
  have hnone : (0 : UInt64).toNat = 0 := rfl
  rw [htwo, hnone] at hnat
  omega

/-- **A batch takes as many candidates as it may.** -/
theorem length_chooseBatch
    (hwork : Workable config)
    (heat : QueryHeat)
    (found : List String) :
    (chooseBatch config heat found).length =
      min config.evictionBatch.toNat (choosable heat found).length := by
  have hbatch : config.evictionBatch.toNat ≠ 0 :=
    Nat.pos_iff_ne_zero.1 (Nat.lt_of_lt_of_le Nat.one_pos hwork.batch)
  unfold chooseBatch choosable
  dsimp only
  -- some of the cold candidates are taken unless there are none
  have hcold : ((found.filter (fun h => !heat.isHot h)).take
      config.evictionBatch.toNat).isEmpty = (found.filter (fun h => !heat.isHot h)).isEmpty := by
    rw [Bool.eq_iff_iff, List.isEmpty_iff, List.isEmpty_iff, List.take_eq_nil_iff,
      or_iff_right hbatch]
  rw [hcold]
  split_ifs
  · exact List.length_take
  · exact List.length_take

/-- A turn that has candidates deletes a batch. -/
theorem sweepTurn_of_chose
    {i : ℕ}
    {s : SweepState}
    {victim : String}
    (hanswers : Answers (env i))
    (hchose : Chose ratio config (env i) s victim)
    (hfound : candidates config (env i).rowOrder s victim ≠ []) :
    sweepTurn ratio V config env i s =
      deleteBatch V (env i) s victim
        (chooseBatch config (env i).heat (candidates config (env i).rowOrder s victim)) := by
  unfold sweepTurn
  rw [hanswers.totals, hanswers.usage, hanswers.candidates]
  dsimp only [answer, bind, Except.bind]
  rw [if_neg (Nat.not_le_of_lt hchose.above), hchose.chosen]
  exact if_neg (fun hempty => hfound (List.isEmpty_iff.1 hempty))

/-- **If the store answers and the batch fits, the turn succeeds.** -/
theorem exists_sweepTurn
    {i : ℕ}
    {s : SweepState}
    (hwork : Workable config)
    (hanswers : Answers (env i))
    (hfits : BatchFits ratio config (env i) s) :
    ∃ t, sweepTurn ratio V config env i s = .ok t := by
  by_cases hchose : ∃ victim, Chose ratio config (env i) s victim ∧
      candidates config (env i).rowOrder s victim ≠ []
  · obtain ⟨victim, hchose, hfound⟩ := hchose
    have hlength := length_chooseBatch hwork (env i).heat
      (candidates config (env i).rowOrder s victim)
    have hshort : (chooseBatch config (env i).heat
        (candidates config (env i).rowOrder s victim)).length ≤ maxVariables := by
      rw [hlength]
      exact min_le_iff.2 (hfits victim hchose)
    rw [sweepTurn_of_chose hanswers hchose hfound, hanswers.deleteBatch_eq]
    unfold tryDeleteHandles
    rw [bindVariables_eq_ok.2 hshort]
    exact ⟨_, rfl⟩
  · unfold sweepTurn
    rw [hanswers.totals, hanswers.usage, hanswers.candidates]
    dsimp only [answer, bind, Except.bind]
    split_ifs with hmark
    · exact ⟨.stop, rfl⟩
    · cases hvictim : chooseVictim ratio config (eligible (env i).usageOrder s) with
      | none =>
          exact ⟨.stop, rfl⟩
      | some victim =>
          have hnone : candidates config (env i).rowOrder s victim = [] := by
            by_contra hfound
            exact hchose ⟨victim, ⟨Nat.lt_of_not_le hmark, hvictim⟩, hfound⟩
          dsimp only
          rw [hnone]
          exact ⟨_, rfl⟩

/-- What the turns keep. -/
structure ProgressInv (config : RetentionConfig) (ever : List (String × ℕ)) (s : SweepState) :
    Prop where
  sweep : SweepInv config ever s
  roots : RootsStored s.db

/-- Before its first batch the sweep is above the budget. -/
def StartsAbove (config : RetentionConfig) (s : SweepState) : Prop :=
  s.evicted = 0 → config.maxStorageBytes.toNat < payload s.db

/-- The store is below the low-water mark, or only root rows are left. -/
def Relieved (config : RetentionConfig) (db : Tables) : Prop :=
  payload db ≤ lowWaterMark config ∨ OnlyRoots db

/-- **A victim has a row to evict**, as long as some space has. -/
theorem victim_evictable
    {order : HashOrder SpaceUsage}
    {s : SweepState}
    {r : Row}
    {victim : String}
    (hwork : Workable config)
    (hs : SweepInv config ever s)
    (hroots : RootsStored s.db)
    (hr : r ∈ evictable s.db)
    (hvictim : chooseVictim ratio config (eligible order s) = some victim) :
    subRows s.db victim ≠ [] := by
  obtain ⟨u, hu, rfl, hchoice⟩ := chooseVictim_over hvictim
  have husage := ((mem_spaceUsageAll _ _ _).1 (List.mem_of_mem_filter hu)).1
  apply subRows_ne_nil
  rcases hchoice with hover | hlargest
  · -- an entitlement is at least one
    rw [← husage, isOver_usageOf hs.exact hs.fit] at hover
    have hepochs : 1 ≤ max (s.db.spaceUsage u.space).2 1 := le_max_right _ _
    have hone : 1 ≤ max (s.db.spaceUsage u.space).2 1 * config.entitlementPerEpoch.toNat :=
      Nat.mul_pos hepochs hwork.entitlement
    exact Nat.succ_le_of_lt (hone.trans_lt hover)
  · obtain ⟨hmem, hsub⟩ := mem_evictable.1 hr
    have hmost := (hlargest _ (mem_eligible_of_sub hs hwork.limit_ne_zero hmem hsub)).2
    have hstored : ∀ space, (usageOf s.db space).stored = (spaceRows s.db space).length :=
      fun space => hs.exact.accounted.stored_eq space
    rw [← husage, hstored, hstored] at hmost
    exact (two_le_spaceRows hroots hr).trans hmost

/-- A turn deletes a batch with at least one row, and goes on. -/
def Evicts (V : Crates) (s : SweepState) (t : Turns.Turn SweepState Eviction) : Prop :=
  ∃ e next, t = .emit e next true ∧ e.before = s.db ∧ e.rows ≠ [] ∧
    next.db = (deleteHandles V s.db e.handles).1

/-- **A turn above the mark deletes a row**, as long as some space has one to evict. -/
theorem evicts_of_above
    {i : ℕ}
    {s : SweepState}
    {t : Turns.Turn SweepState Eviction}
    (hwork : Workable config)
    (hs : SweepInv config ever s)
    (hroots : RootsStored s.db)
    (habove : mark config s < payload s.db)
    (hleft : ¬ OnlyRoots s.db)
    (hturn : sweepTurn ratio V config env i s = .ok t) :
    Evicts V s t := by
  obtain ⟨r, hr⟩ := List.exists_mem_of_ne_nil _ (fun hnil => hleft (onlyRoots_iff.2 hnil))
  obtain ⟨hmem, hsub⟩ := mem_evictable.1 hr
  have heligible : usageOf s.db r.space ∈ eligible (env i).usageOrder s :=
    mem_eligible_of_sub hs hwork.limit_ne_zero hmem hsub
  rcases sweepTurn_cases hturn with
    ⟨_, hbelow | hnone⟩ | ⟨victim, hchose, hnone, _⟩ | ⟨victim, batch, hchose, hsome, hbatch, ht⟩
  · rw [payload_eq hs.exact.accounted] at hbelow
    omega
  · have hsomeone : ∃ victim,
        chooseVictim ratio config (eligible (env i).usageOrder s) = some victim :=
      exists_victim (List.ne_nil_of_mem heligible)
    rw [hnone] at hsomeone
    obtain ⟨victim, hvictim⟩ := hsomeone
    cases hvictim
  · have hnil := subRows_of_no_candidates hwork.limit_ne_zero hnone
    exact absurd hnil (victim_evictable hwork hs hroots hr hchose.chosen)
  · have hfilled : batch ≠ [] := hbatch ▸ chooseBatch_ne_nil hwork.batch hsome
    obtain ⟨handle, hhandle⟩ := List.exists_mem_of_ne_nil _ hfilled
    obtain ⟨q, _, hq, hqhandle⟩ := mem_evictionCandidates (mem_chooseBatch (hbatch ▸ hhandle))
    have hvictim : q ∈ victims s.db batch :=
      mem_victims.2 ⟨(mem_subRows.1 hq).1, hqhandle ▸ hhandle⟩
    have hcount : (deleteHandles V s.db batch).2 ≠ 0 := by
      rw [deleteHandles_count]
      exact (List.length_pos_of_mem hvictim).ne'
    rw [decide_eq_true hcount] at ht
    exact ⟨_, _, ht, rfl, List.ne_nil_of_mem hvictim, rfl⟩

/-- What a batch that is followed by a turn leaves. -/
theorem progressInv_of_emit
    {i : ℕ}
    {s next : SweepState}
    {e : Eviction}
    (hs : ProgressInv config ever s)
    (hturn : sweepTurn ratio V config env i s = .ok (.emit e next true)) :
    ProgressInv config ever next ∧ next.evicted ≠ 0 ∧
      (evictable next.db).length < (evictable s.db).length := by
  obtain ⟨victim, hchose, hsome, rfl, rfl, hgoOn⟩ := sweepTurn_emit hturn
  have hspared : ∀ r ∈ victims s.db (chooseBatch config (env i).heat
      (candidates config (env i).rowOrder s victim)), ¬ r.IsRoot :=
    (respectsPolicy_of_emit hs.sweep hchose hsome).spares_roots
  have hdeleted := of_decide_eq_true hgoOn.symm
  refine ⟨⟨sweepInv_of_emit hs.sweep _ _, rootsStored_deleteHandles hs.roots hspared⟩,
    fun hzero => hdeleted (Nat.add_eq_zero_iff.1 hzero).2, ?_⟩
  rw [deleteHandles_count] at hdeleted
  obtain ⟨r, hr⟩ := List.exists_mem_of_length_pos (Nat.pos_of_ne_zero hdeleted)
  exact length_evictable_deleteHandles hr (hspared r hr)

theorem progressInv_of_skip
    {i : ℕ}
    {s next : SweepState}
    (hs : ProgressInv config ever s)
    (hturn : sweepTurn ratio V config env i s = .ok (.skip next)) :
    ProgressInv config ever next ∧ next.db = s.db ∧ next.evicted = s.evicted := by
  obtain ⟨victim, _, hnone, rfl⟩ := sweepTurn_skip hturn
  exact ⟨⟨sweepInv_of_skip hs.sweep hnone, hs.roots⟩, rfl, rfl⟩

/-- The low-water mark is within the budget. -/
theorem lowWaterMark_le
    (config : RetentionConfig) :
    lowWaterMark config ≤ config.maxStorageBytes.toNat := by
  unfold lowWaterMark
  refine Nat.div_le_of_le_mul ?_
  rw [Nat.mul_comm 100]
  exact Nat.mul_le_mul_left _ (min_le_right _ _)

/-- Short of relief the payload is above the mark. -/
theorem mark_lt_of_not_relieved
    {s : SweepState}
    (hs : ProgressInv config ever s)
    (hstart : StartsAbove config s)
    (hrelieved : ¬ Relieved config s.db) :
    mark config s < payload s.db := by
  unfold mark
  split_ifs with hzero
  · exact hstart hzero
  · rw [lowWater_eq hs.sweep.fit]
    exact Nat.lt_of_not_le (fun hlow => hrelieved (Or.inl hlow))

/-- With only root rows left there are no candidates. -/
theorem candidates_of_onlyRoots
    {s : SweepState}
    (honly : OnlyRoots s.db)
    (order : HashOrder Row)
    (victim : String) :
    candidates config order s victim = [] := by
  refine List.eq_nil_iff_forall_not_mem.2 (fun h hmem => ?_)
  obtain ⟨r, _, hr, _⟩ := mem_evictionCandidates hmem
  rw [subRows_of_onlyRoots honly] at hr
  exact absurd hr List.not_mem_nil

/-- **Relief is kept**: no batch follows it. -/
theorem relieved_turn
    {i : ℕ}
    {s : SweepState}
    {t : Turns.Turn SweepState Eviction}
    (hs : ProgressInv config ever s)
    (hstart : StartsAbove config s)
    (hrelieved : Relieved config s.db)
    (hturn : sweepTurn ratio V config env i s = .ok t) :
    t = .stop ∨ ∃ next, t = .skip next ∧
      (ProgressInv config ever next ∧ StartsAbove config next) ∧ Relieved config next.db := by
  cases t with
  | stop =>
      exact Or.inl rfl
  | skip next =>
      obtain ⟨hnext, hdb, hevicted⟩ := progressInv_of_skip hs hturn
      refine Or.inr ⟨next, rfl, ⟨hnext, fun hzero => ?_⟩, hdb ▸ hrelieved⟩
      rw [hdb]
      exact hstart (hevicted ▸ hzero)
  | emit e next goOn =>
      obtain ⟨victim, hchose, hsome, _⟩ := sweepTurn_emit hturn
      rcases hrelieved with hlow | honly
      · have habove := hchose.above
        rw [payload_eq hs.sweep.exact.accounted] at habove
        unfold mark at habove
        split_ifs at habove with hzero
        · have hwithin := lowWaterMark_le config
          omega
        · rw [lowWater_eq hs.sweep.fit] at habove
          omega
      · exact absurd (candidates_of_onlyRoots honly _ _) hsome

end Turn

section Sweep

/-- **What progress a sweep makes**: above the mark every turn deletes a row as long as there
is one to evict, and a sweep above the budget with enough batches ends below the low-water
mark, or with only root rows. -/
structure Progresses {ρ : Type} [LinearOrder ρ] (ratio : ℕ → ℕ → ρ) (V : Crates)
    (config : RetentionConfig) (env : ℕ → TurnEnv) (db : Tables) : Prop where
  evicts : ∀ i s, Turns.Visits (sweepTurn ratio V config env) 0 ⟨db, 0, []⟩ i s →
    mark config s < payload s.db → ¬ OnlyRoots s.db →
    ∃ t, sweepTurn ratio V config env i s = .ok t ∧ Evicts V s t
  relieves : config.maxStorageBytes.toNat < payload db →
    (evictable db).length ≤ config.maxBatchesPerSweep.toNat →
    (sweep ratio V config env db).result = .ok () ∧
      Relieved config (sweep ratio V config env db).final.db

variable {ρ : Type} [LinearOrder ρ] {ratio : ℕ → ℕ → ρ} {V : Crates}
variable {config : RetentionConfig} {env : ℕ → TurnEnv} {ever : List (String × ℕ)} {db : Tables}

theorem progressInv_of_visits
    (hexact : ExactlyAccounted ever db)
    (hroots : RootsStored db)
    (hfit : ProductsFit config db)
    {i : ℕ}
    {s : SweepState}
    (hvisits : Turns.Visits (sweepTurn ratio V config env) 0 ⟨db, 0, []⟩ i s) :
    ProgressInv config ever s :=
  hvisits.invariant (fun _ _ _ hs h => (progressInv_of_skip hs h).1)
    (fun _ _ _ _ hs h => (progressInv_of_emit hs h).1)
    ⟨⟨hexact, hfit, fun _ _ hspace => absurd hspace List.not_mem_nil⟩, hroots⟩

/-- **A turn that makes progress has a batch that fits.** -/
theorem batchFits_of_progresses
    (hexact : ExactlyAccounted ever db)
    (hroots : RootsStored db)
    (hwork : Workable config)
    (hfit : ProductsFit config db)
    (hanswers : ∀ i, Answers (env i))
    (hprogress : Progresses ratio V config env db)
    {i : ℕ}
    {s : SweepState}
    (hvisits : Turns.Visits (sweepTurn ratio V config env) 0 ⟨db, 0, []⟩ i s) :
    BatchFits ratio config (env i) s := by
  intro victim hchose
  have hs := progressInv_of_visits hexact hroots hfit hvisits
  by_cases hfound : candidates config (env i).rowOrder s victim = []
  · rw [hfound]
    exact Or.inr (Nat.zero_le _)
  · have habove : mark config s < payload s.db := by
      rw [← payload_eq hs.sweep.exact.accounted]
      exact hchose.above
    obtain ⟨t, hturn, _⟩ := hprogress.evicts i s hvisits habove
      (fun honly => hfound (candidates_of_onlyRoots honly _ _))
    rw [sweepTurn_of_chose (hanswers i) hchose hfound, (hanswers i).deleteBatch_eq] at hturn
    obtain ⟨deleted, hdeleted, _⟩ := Fallible.bind_eq_ok.1 hturn
    obtain ⟨_, hbound, _⟩ := Fallible.bind_eq_ok.1 hdeleted
    have hshort := bindVariables_eq_ok.1 hbound
    rw [length_chooseBatch hwork] at hshort
    exact min_le_iff.1 hshort

/-- **A sweep makes progress** exactly if the batches of its turns fit into a statement. -/
theorem sweep_progress_iff
    {ρ : Type}
    [LinearOrder ρ]
    (ratio : ℕ → ℕ → ρ)
    (V : Crates)
    (config : RetentionConfig)
    (env : ℕ → TurnEnv)
    {ever : List (String × ℕ)}
    {db : Tables}
    (hexact : ExactlyAccounted ever db)
    (hroots : RootsStored db)
    (hwork : Workable config)
    (hfit : ProductsFit config db)
    (hanswers : ∀ i, Answers (env i)) :
    Progresses ratio V config env db ↔
      ∀ i s, Turns.Visits (sweepTurn ratio V config env) 0 ⟨db, 0, []⟩ i s →
        BatchFits ratio config (env i) s := by
  constructor
  · intro hprogress i s hvisits
    exact batchFits_of_progresses hexact hroots hwork hfit hanswers hprogress hvisits
  · intro hfits
    have hturns : ∀ i s, Turns.Visits (sweepTurn ratio V config env) 0 ⟨db, 0, []⟩ i s →
        ∃ t, sweepTurn ratio V config env i s = .ok t :=
      fun i s hvisits => exists_sweepTurn hwork (hanswers i) (hfits i s hvisits)
    have hok : (sweep ratio V config env db).result = .ok () := Turns.run_ok hturns _
    refine ⟨fun i s hvisits habove hleft => ?_, fun hbudget henough => ⟨hok, ?_⟩⟩
    · have hs := progressInv_of_visits hexact hroots hfit hvisits
      obtain ⟨t, hturn⟩ := hturns i s hvisits
      exact ⟨t, hturn, evicts_of_above hwork hs.sweep hs.roots habove hleft hturn⟩
    · have hinit : ProgressInv config ever ⟨db, 0, []⟩ :=
        progressInv_of_visits hexact hroots hfit
          (.here 0 _ : Turns.Visits (sweepTurn ratio V config env) 0 ⟨db, 0, []⟩ 0 ⟨db, 0, []⟩)
      refine @Turns.run_reaches _ _ _ (sweepTurn ratio V config env)
        (fun s => ProgressInv config ever s ∧ StartsAbove config s)
        (fun s => Relieved config s.db) (fun s => (evictable s.db).length)
        (fun s hzero => ?_) (fun i s t hs hrelieved hturn => ?_)
        (fun i s t hs hrelieved hturn => relieved_turn hs.1 hs.2 hrelieved hturn)
        _ 0 _ ⟨hinit, fun _ => hbudget⟩ (Or.inr henough) hok
      · exact Or.inr (onlyRoots_iff.2 (List.eq_nil_of_length_eq_zero hzero))
      · obtain ⟨e, next, rfl, _⟩ := evicts_of_above hwork hs.1.sweep hs.1.roots
          (mark_lt_of_not_relieved hs.1 hs.2 hrelieved)
          (fun honly => hrelieved (Or.inr honly)) hturn
        obtain ⟨hnext, hevicted, hless⟩ := progressInv_of_emit hs.1 hturn
        exact ⟨e, next, rfl, ⟨hnext, fun hzero => absurd hzero hevicted⟩, hless⟩

/-- A batch size that a statement takes is enough. -/
theorem batchFits_of_le
    (h : config.evictionBatch.toNat ≤ maxVariables)
    (env : TurnEnv)
    (s : SweepState) :
    BatchFits ratio config env s :=
  fun _ _ => Or.inl h

/-- A store that answers, and no hot handle. -/
def answeringEnv : TurnEnv :=
  { sampleTurnEnv with
    heat := ⟨[], []⟩
    deleteError := fun batch => refusal batch.length }

theorem answers_answeringEnv :
    Answers answeringEnv :=
  ⟨rfl, rfl, rfl, fun _ => rfl⟩

/-- The sweep of the sample store deletes three batches and gets below the mark. -/
theorem sweep_progress_iff_sampleStore :
    Progresses Nat.div (Crates.ofTables [] []) sampleConfig (fun _ => answeringEnv) sampleStore ∧
      sampleConfig.maxStorageBytes.toNat < payload sampleStore ∧
      (evictable sampleStore).length ≤ sampleConfig.maxBatchesPerSweep.toNat := by
  have hroots : RootsStored sampleStore := by
    unfold RootsStored
    decide +kernel
  refine ⟨?_, by decide +kernel, by decide +kernel⟩
  exact (sweep_progress_iff Nat.div (Crates.ofTables [] []) sampleConfig (fun _ => answeringEnv)
    exactlyAccounted_sampleStore hroots ⟨by decide, by decide, by decide⟩
    productsFit_sampleStore (fun _ => answers_answeringEnv)).2
    (fun i s _ => batchFits_of_le (by decide) _ s)

end Sweep

section Crowd

variable {ever : List (String × ℕ)} {db : Tables} {n : ℕ}

/-- The `i`-th handle below `@a`. -/
def crowdHandle (i : ℕ) : String :=
  String.ofList (List.replicate i 'x') ++ "x@a"

theorem length_crowdHandle
    (i : ℕ) :
    (crowdHandle i).length = i + 3 := by
  unfold crowdHandle
  rw [String.length_append, String.length_ofList, List.length_replicate]
  rfl

theorem crowdHandle_injective :
    Function.Injective crowdHandle := by
  intro i j h
  have hlength := congrArg String.length h
  rw [length_crowdHandle, length_crowdHandle] at hlength
  omega

theorem crowdHandle_ne_root
    (i : ℕ) :
    crowdHandle i ≠ "@a" := by
  intro h
  have hlength := congrArg String.length h
  rw [length_crowdHandle] at hlength
  have hroot : "@a".length = 2 := rfl
  omega

/-- One root row, and `n` handles below it. -/
def crowdRows (n : ℕ) : List Row :=
  sampleRow "@a" "@a" 1 :: (List.range n).map (fun i => sampleRow (crowdHandle i) "@a" 2)

def crowdStore (n : ℕ) : Tables :=
  Tables.init.insertRows (crowdRows n)

/-- A budget of one byte, and batches of one handle more than a statement takes. -/
def crowdConfig : RetentionConfig where
  maxStorageBytes := 1
  entitlementPerEpoch := 1
  lowWaterPct := 60
  evictionBatch := 32767
  maxBatchesPerSweep := 40000

theorem length_crowdRows :
    (crowdRows n).length = n + 1 := by
  rw [crowdRows, List.length_cons, List.length_map, List.length_range]

theorem of_mem_crowdRows
    {r : Row}
    (h : r ∈ crowdRows n) :
    r.space = "@a" ∧ r.bytes = 10 := by
  rcases List.mem_cons.1 h with rfl | h
  · exact ⟨rfl, rfl⟩
  · obtain ⟨i, _, rfl⟩ := List.mem_map.1 h
    exact ⟨rfl, rfl⟩

theorem mem_crowdRows_of
    {r : Row}
    (h : r ∈ (crowdStore n).handles.rows) :
    r ∈ crowdRows n :=
  (Tables.mem_insertRows_of h).resolve_left List.not_mem_nil

/-- Every handle of the crowd is stored. -/
theorem exists_crowdRow
    {r : Row}
    (h : r ∈ crowdRows n) :
    ∃ stored ∈ (crowdStore n).handles.rows, stored.handle = r.handle := by
  have hfind := Tables.find?_insertRows Tables.init (crowdRows n) r.handle
  cases hlast : Fallible.lastMatch (fun q => decide (q.handle = r.handle)) (crowdRows n) with
  | none =>
      have hnone := Fallible.lastMatch_eq_none.1 hlast r h
      simp at hnone
  | some q =>
      rw [hlast, Option.some_or] at hfind
      exact ⟨q, KeyedTable.find?_eq_some_iff.1 hfind⟩

/-- All of them but the root can be evicted. -/
theorem length_subRows_crowdStore :
    n ≤ (subRows (crowdStore n) "@a").length := by
  have hnodup : ((List.range n).map crowdHandle).Nodup :=
    List.nodup_range.map crowdHandle_injective
  have hsubset : (List.range n).map crowdHandle ⊆
      (subRows (crowdStore n) "@a").map Row.handle := by
    intro handle hmem
    obtain ⟨i, hi, rfl⟩ := List.mem_map.1 hmem
    have hlisted : sampleRow (crowdHandle i) "@a" 2 ∈ crowdRows n :=
      List.mem_cons_of_mem _ (List.mem_map_of_mem hi)
    obtain ⟨r, hr, hhandle⟩ := exists_crowdRow hlisted
    have hspace : r.space = "@a" := (of_mem_crowdRows (mem_crowdRows_of hr)).1
    refine List.mem_map.2 ⟨r, mem_subRows.2 ⟨hr, hspace, fun hroot => ?_⟩, hhandle⟩
    exact crowdHandle_ne_root i (hhandle.symm.trans (hroot.trans hspace))
  have hlength := (List.subperm_of_subset hnodup hsubset).length_le
  rwa [List.length_map, List.length_map, List.length_range] at hlength

theorem exactlyAccounted_crowdStore
    (h : n + 1 < 2 ^ 63) :
    ExactlyAccounted ((crowdRows n).map Row.bucket) (crowdStore n) where
  accounted := accounted_insertRows accounted_init (crowdRows n)
  fits := by
    have hsubset : (crowdStore n).handles.rows.map Row.handle ⊆ (crowdRows n).map Row.handle :=
      List.map_subset _ (fun _ hr => mem_crowdRows_of hr)
    have hlength := (List.subperm_of_subset (crowdStore n).handles.nodup hsubset).length_le
    rw [List.length_map, List.length_map, length_crowdRows] at hlength
    omega

theorem rootsStored_crowdStore :
    RootsStored (crowdStore n) := by
  intro r hr
  obtain ⟨root, hroot, hhandle⟩ := exists_crowdRow (List.mem_cons_self : _ ∈ crowdRows n)
  have hspace : root.space = "@a" := (of_mem_crowdRows (mem_crowdRows_of hroot)).1
  exact ⟨root, hroot, hhandle.trans hspace.symm,
    hspace.trans (of_mem_crowdRows (mem_crowdRows_of hr)).1.symm⟩

/-- A space has at most as many epochs as rows were ever stored. -/
theorem epochs_le_length
    (haccounted : Accounted ever db)
    (space : String) :
    (db.spaceUsage space).2 ≤ ever.length := by
  have hsubset : db.spaceEpochCounts.rows.map EpochCount.bucket ⊆ ever := by
    intro b hb
    obtain ⟨c, hc, rfl⟩ := List.mem_map.1 hb
    exact (haccounted.exists_bucket_iff _).1 ⟨c, hc, rfl⟩
  have hlength := (List.subperm_of_subset db.spaceEpochCounts.nodup hsubset).length_le
  rw [List.length_map] at hlength
  exact (List.length_filter_le _ _).trans hlength

theorem productsFit_crowdStore
    (h : n + 1 < 2 ^ 63) :
    ProductsFit crowdConfig (crowdStore n) where
  lowWater := by decide
  entitlement space := by
    have hepochs := epochs_le_length (exactlyAccounted_crowdStore h).accounted space
    have hentitled : crowdConfig.entitlementPerEpoch.toNat = 1 := rfl
    rw [List.length_map, length_crowdRows] at hepochs
    rw [hentitled]
    omega

/-- The payload of a crowd is above its budget. -/
theorem budget_lt_payload_crowdStore :
    crowdConfig.maxStorageBytes.toNat < payload (crowdStore n) := by
  obtain ⟨root, hroot, _⟩ := exists_crowdRow (List.mem_cons_self : _ ∈ crowdRows n)
  have hbytes : root.bytes = 10 := (of_mem_crowdRows (mem_crowdRows_of hroot)).2
  have hle : root.bytes ≤ payload (crowdStore n) :=
    List.single_le_sum (fun _ _ => Nat.zero_le _) _ (List.mem_map_of_mem hroot)
  have hbudget : crowdConfig.maxStorageBytes.toNat = 1 := rfl
  omega

/-- Nothing is hot, so a batch may take all candidates. -/
theorem choosable_answeringEnv
    (found : List String) :
    choosable answeringEnv.heat found = found := by
  have hcold : found.filter (fun h => !answeringEnv.heat.isHot h) = found :=
    List.filter_eq_self.2 (fun _ _ => rfl)
  unfold choosable
  rw [hcold]
  exact ite_self _

/-- The victim of the first turn has that many candidates. -/
theorem exists_crowdVictim
    (hexact : ExactlyAccounted ever (crowdStore 32767))
    (hfit : ProductsFit crowdConfig (crowdStore 32767)) :
    ∃ victim,
      Chose Nat.div crowdConfig answeringEnv ⟨crowdStore 32767, 0, []⟩ victim ∧
      32767 ≤ (candidates crowdConfig answeringEnv.rowOrder
        ⟨crowdStore 32767, 0, []⟩ victim).length := by
  have hmany : 32767 ≤ (subRows (crowdStore 32767) "@a").length := length_subRows_crowdStore
  have hspaces : ∀ r ∈ (crowdStore 32767).handles.rows, r.space = "@a" :=
    fun r hr => (of_mem_crowdRows (mem_crowdRows_of hr)).1
  have habove : crowdConfig.maxStorageBytes.toNat < payload (crowdStore 32767) :=
    budget_lt_payload_crowdStore
  generalize crowdStore 32767 = db at *
  obtain ⟨q, hq⟩ := List.exists_mem_of_length_pos (Nat.lt_of_lt_of_le (by decide) hmany)
  obtain ⟨hmem, _, hsub⟩ := mem_subRows.1 hq
  have hinv : SweepInv crowdConfig ever ⟨db, 0, []⟩ :=
    ⟨hexact, hfit, fun _ _ hspace => absurd hspace List.not_mem_nil⟩
  have heligible : usageOf db q.space ∈
      eligible answeringEnv.usageOrder ⟨db, 0, []⟩ :=
    mem_eligible_of_sub hinv (by decide) hmem hsub
  obtain ⟨victim, hvictim⟩ : ∃ victim, chooseVictim Nat.div crowdConfig
      (eligible answeringEnv.usageOrder ⟨db, 0, []⟩) = some victim :=
    exists_victim (List.ne_nil_of_mem heligible)
  have hname : victim = "@a" := by
    obtain ⟨u, hu, rfl, _⟩ := chooseVictim_over hvictim
    obtain ⟨husage, hstored⟩ := (mem_spaceUsageAll _ _ _).1 (List.mem_of_mem_filter hu)
    rw [← husage] at hstored
    change 0 < (db.spaceUsage u.space).1 at hstored
    rw [hexact.accounted.stored_eq] at hstored
    obtain ⟨r, hr⟩ := List.exists_mem_of_length_pos hstored
    obtain ⟨hr, hspace⟩ := List.mem_filter.1 hr
    exact (of_decide_eq_true hspace).symm.trans (hspaces r hr)
  refine ⟨victim, ⟨?_, hvictim⟩, ?_⟩
  · rw [payload_eq hexact.accounted]
    exact habove
  · rw [hname]
    have hlimit : (crowdConfig.evictionBatch * 2).toNat = 65534 := by decide
    unfold candidates evictionCandidates sqlLimit
    rw [List.length_map, hlimit, if_pos (by decide), List.length_take,
      (perm_byAge _ _).length_eq]
    exact le_min (by decide) hmany

/-- **A batch of one handle more than a statement takes stalls the sweep**: its first turn
fails, although the store is above the budget and has rows to evict. -/
theorem crowd_stalls :
    ExactlyAccounted ((crowdRows 32767).map Row.bucket) (crowdStore 32767) ∧
      RootsStored (crowdStore 32767) ∧ Workable crowdConfig ∧
      ProductsFit crowdConfig (crowdStore 32767) ∧ Answers answeringEnv ∧
      ¬ Progresses Nat.div (Crates.ofTables [] []) crowdConfig (fun _ => answeringEnv)
        (crowdStore 32767) := by
  have hexact := exactlyAccounted_crowdStore (n := 32767) (by decide)
  have hfit := productsFit_crowdStore (n := 32767) (by decide)
  have hwork : Workable crowdConfig := ⟨by decide, by decide, by decide⟩
  refine ⟨hexact, rootsStored_crowdStore, hwork, hfit, answers_answeringEnv, fun hprogress => ?_⟩
  have hfirst : BatchFits Nat.div crowdConfig answeringEnv ⟨crowdStore 32767, 0, []⟩ :=
    batchFits_of_progresses hexact rootsStored_crowdStore hwork hfit
      (fun _ => answers_answeringEnv) hprogress (.here 0 _)
  obtain ⟨victim, hchose, hmany⟩ := exists_crowdVictim hexact hfit
  rcases hfirst victim hchose with hbatch | hfound
  · exact absurd hbatch (by decide)
  · rw [choosable_answeringEnv] at hfound
    exact absurd (hmany.trans hfound) (by decide)

end Crowd

end Retention
end CertRelay
