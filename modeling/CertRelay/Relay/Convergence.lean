import CertRelay.Lib.Register
import CertRelay.Relay.Deliveries
import Mathlib.Order.Lattice.Nat

/-!
# Convergence of deliveries

Relays that receive the same updates receive them in different orders.  Within a
class of zones (one key, one commitment, one sovereignty) the store is a
register: owner records are the version, the anchor is the freshness, and an
update is accepted when it exceeds the held zone in either.  The zone held before
the first of the updates may be of any class; it is a start of the register.

**Results.**
* `offer_val`: within a class an offer is an offer to that register;
* `foldl_offer_start`: a sequence of offers is a run from that start;
* `delivery_orders_agree_iff`: all orders of delivery leave the same records and
  anchor exactly when the freshest update is the newest, where anything is replaced
  and any update is newer than what is held.
-/

namespace CertRelay

section ClassRegister

/-- What the updates of one class of a handle share. -/
structure ZoneClass where
  scriptPubkey : Bytes
  commitment : ProvableOption CommitmentInfo
  sovereignty : SovereigntyState
deriving DecidableEq

def zoneClass (z : Zone) : ZoneClass :=
  ⟨z.scriptPubkey, z.commitment, z.sovereignty⟩

/-- The zones of one class. -/
abbrev ClassZone (k : ZoneClass) :=
  { z : Zone // zoneClass z = k }

variable (V : Crates)

theorem zoneClass_mergedZone
    (update existing : Zone) :
    zoneClass (mergedZone V update existing) = zoneClass update := by
  simp [zoneClass]

theorem scriptPubkey_of_class
    {k : ZoneClass}
    (a : ClassZone k) :
    a.val.scriptPubkey = k.scriptPubkey :=
  congrArg ZoneClass.scriptPubkey a.property

theorem scriptPubkey_eq_of_class
    {k : ZoneClass}
    (a b : ClassZone k) :
    a.val.scriptPubkey = b.val.scriptPubkey :=
  (scriptPubkey_of_class a).trans (scriptPubkey_of_class b).symm

/-- The zones of a class as items of a register. -/
def classRegister (k : ZoneClass) : Register (ClassZone k) ℕ ℕ where
  version z := V.recordsRank z.val
  fresh z := z.val.anchor
  merge offered held :=
    ⟨mergedZone V offered.val held.val,
      (zoneClass_mergedZone V offered.val held.val).trans offered.property⟩
  fresh_merge offered held := mergedZone_anchor V offered.val held.val
  version_merge offered held :=
    recordsRank_mergedZone V (scriptPubkey_eq_of_class offered held)
  merge_of_le _ _ h := Subtype.ext (mergedZone_of_le V h)

variable {V} {κ : Type} [LinearOrder κ] {commitmentRank : ProvableOption CommitmentInfo → κ}

/-- Within a class the two acceptance rules amount to the register's. -/
theorem replaces_iff_accepts
    (hlex : V.ComparesLex commitmentRank)
    {k : ZoneClass}
    (offered held : ClassZone k) :
    replaces V offered.val held.val = true ↔ (classRegister V k).Accepts held offered := by
  have hkey := scriptPubkey_eq_of_class offered held
  have hcommitment : offered.val.commitment = held.val.commitment :=
    congrArg ZoneClass.commitment (offered.property.trans held.property.symm)
  have hsovereignty : offered.val.sovereignty = held.val.sovereignty :=
    congrArg ZoneClass.sovereignty (offered.property.trans held.property.symm)
  have hfresher :
      fresherProof offered.val held.val = true ↔ held.val.anchor < offered.val.anchor := by
    simp [fresherProof, hkey, hsovereignty]
  unfold replaces
  rw [Bool.or_eq_true, hfresher, hlex, V.zoneRank_lt_iff, hcommitment]
  simp only [lt_irrefl, false_or, true_and]
  show _ ↔ V.recordsRank held.val < V.recordsRank offered.val ∨
    held.val.anchor < offered.val.anchor
  tauto

/-- An offer within a class is an offer to its register. -/
theorem offer_val
    (hlex : V.ComparesLex commitmentRank)
    {k : ZoneClass}
    (held offered : ClassZone k) :
    offer V (some held.val) offered.val =
      some ((classRegister V k).offer held offered).val := by
  show (if replaces V offered.val held.val then some (mergedZone V offered.val held.val)
    else some held.val) = _
  by_cases hacc : (classRegister V k).Accepts held offered
  · rw [if_pos ((replaces_iff_accepts hlex offered held).2 hacc),
      Register.offer_of_accepts hacc]
    rfl
  · rw [if_neg (fun h => hacc ((replaces_iff_accepts hlex offered held).1 h)),
      Register.offer_of_not_accepts hacc]

theorem foldl_offer_val
    (hlex : V.ComparesLex commitmentRank)
    {k : ZoneClass}
    (held : ClassZone k)
    (offers : List (ClassZone k)) :
    (offers.map Subtype.val).foldl (offer V) (some held.val) =
      some ((classRegister V k).run held offers).val := by
  induction offers generalizing held with
  | nil =>
      rfl
  | cons o offers ih =>
      rw [List.map_cons, List.foldl_cons, offer_val hlex, ih]
      rfl

/-- The records held after a run were held before or offered. -/
theorem run_records
    {k : ZoneClass}
    (held : ClassZone k)
    (offers : List (ClassZone k)) :
    ∃ e ∈ held :: offers,
      ((classRegister V k).run held offers).val.records = e.val.records := by
  induction offers generalizing held with
  | nil =>
      exact ⟨held, by simp, rfl⟩
  | cons o offers ih =>
      obtain ⟨e, he, hrecords⟩ := ih ((classRegister V k).offer held o)
      rcases List.mem_cons.1 he with rfl | hlater
      · -- the item held after the first offer: the merge takes records from one side
        by_cases hacc : (classRegister V k).Accepts held o
        · rcases mergedZone_records V o.val held.val with hkept | htaken
          · refine ⟨held, by simp, hrecords.trans ?_⟩
            rw [Register.offer_of_accepts hacc]
            exact hkept.2
          · refine ⟨o, by simp, hrecords.trans ?_⟩
            rw [Register.offer_of_accepts hacc]
            exact htaken
        · refine ⟨held, by simp, hrecords.trans ?_⟩
          rw [Register.offer_of_not_accepts hacc]
      · exact ⟨e, by simp [hlater], hrecords⟩

end ClassRegister

section ClassStart

variable (V : Crates)

/-- Rank of the records held under a key. -/
def keptRank (existing : Option Zone) (key : Bytes) : WithBot ℕ :=
  match existing with
  | none => ⊥
  | some z => if z.scriptPubkey = key then WithBot.some (V.recordsRank z) else ⊥

/-- What an update of the class makes of the zone held, of whatever class. -/
def entered {k : ZoneClass} (existing : Option Zone) (update : ClassZone k) :
    Option (ClassZone k) :=
  match existing with
  | none => some update
  | some z =>
      if replaces V update.val z then
        some ⟨mergedZone V update.val z,
          (zoneClass_mergedZone V update.val z).trans update.property⟩
      else none

theorem entered_eq_some
    {k : ZoneClass}
    {existing : Option Zone}
    {update x : ClassZone k}
    (h : entered V existing update = some x) :
    offer V existing update.val = some x.val ∧ x.val = storedAs V existing update.val := by
  cases existing with
  | none =>
      cases h
      exact ⟨rfl, rfl⟩
  | some z =>
      rw [entered] at h
      split_ifs at h with hreplaces
      cases h
      exact ⟨if_pos hreplaces, rfl⟩

theorem entered_eq_none
    {k : ZoneClass}
    {existing : Option Zone}
    {update : ClassZone k}
    (h : entered V existing update = none) :
    offer V existing update.val = existing := by
  cases existing with
  | none =>
      cases h
  | some z =>
      rw [entered] at h
      split_ifs at h with hreplaces
      exact if_neg hreplaces

/-- The zone stored over a held zone ranks as the higher of the two under one key. -/
theorem recordsRank_storedAs
    (existing : Option Zone)
    (update : Zone) :
    WithBot.some (V.recordsRank (storedAs V existing update)) =
      max (keptRank V existing update.scriptPubkey) (WithBot.some (V.recordsRank update)) := by
  cases existing with
  | none =>
      exact (max_eq_right bot_le).symm
  | some z =>
      by_cases hkey : z.scriptPubkey = update.scriptPubkey
      · rw [keptRank, if_pos hkey, storedAs, recordsRank_mergedZone V hkey.symm,
          WithBot.coe_max]
      · rw [keptRank, if_neg hkey, storedAs, mergedZone_of_key_ne V (Ne.symm hkey),
          max_eq_right bot_le]

theorem storedAs_of_keptRank_le
    {existing : Option Zone}
    {update : Zone}
    (h : keptRank V existing update.scriptPubkey ≤ WithBot.some (V.recordsRank update)) :
    storedAs V existing update = update := by
  cases existing with
  | none =>
      rfl
  | some z =>
      by_cases hkey : z.scriptPubkey = update.scriptPubkey
      · rw [keptRank, if_pos hkey, WithBot.coe_le_coe] at h
        exact mergedZone_of_le V h
      · exact mergedZone_of_key_ne V (Ne.symm hkey)

/-- What the handle holds before the deliveries, as a start of the class register. -/
def classStart (k : ZoneClass) (existing : Option Zone) : (classRegister V k).Start where
  enter := entered V existing
  base := keptRank V existing k.scriptPubkey
  fresh_enter := by
    intro o x h
    have hx := (entered_eq_some V h).2
    show x.val.anchor = o.val.anchor
    rw [hx, storedAs_anchor]
  version_enter := by
    intro o x h
    have hx := (entered_eq_some V h).2
    have hrank := recordsRank_storedAs V existing o.val
    rw [← hx, scriptPubkey_of_class o] at hrank
    exact hrank
  enter_of_le := by
    intro o x h hle
    apply Subtype.ext
    rw [(entered_eq_some V h).2]
    apply storedAs_of_keptRank_le
    rw [scriptPubkey_of_class o]
    exact hle

variable {V} {κ : Type} [LinearOrder κ] {commitmentRank : ProvableOption CommitmentInfo → κ}

/-- A sequence of offers of one class, whatever the class of the zone held. -/
theorem foldl_offer_start
    (hlex : V.ComparesLex commitmentRank)
    {k : ZoneClass}
    (existing : Option Zone)
    (offers : List (ClassZone k)) :
    (offers.map Subtype.val).foldl (offer V) existing =
      (((classStart V k existing).run offers).map Subtype.val).or existing := by
  induction offers with
  | nil =>
      rfl
  | cons o offers ih =>
      rw [List.map_cons, List.foldl_cons]
      cases ho : entered V existing o with
      | none =>
          rw [entered_eq_none V ho, ih, Register.Start.run_cons_of_none ho]
      | some x =>
          rw [(entered_eq_some V ho).1, foldl_offer_val hlex,
            Register.Start.run_cons_of_some ho]
          rfl

/-- The records left were offered, or held under the key. -/
theorem start_run_records
    {k : ZoneClass}
    {existing : Option Zone}
    {offers : List (ClassZone k)}
    {y : ClassZone k}
    (h : (classStart V k existing).run offers = some y) :
    ∃ e : Zone, (e ∈ offers.map Subtype.val ∨
      existing = some e ∧ e.scriptPubkey = k.scriptPubkey) ∧ y.val.records = e.records := by
  obtain ⟨before, o, after, x, rfl, _, ho, rfl⟩ := Register.Start.run_eq_some h
  obtain ⟨e, he, hrecords⟩ := run_records (V := V) x after
  rcases List.mem_cons.1 he with rfl | he
  · have hx := (entered_eq_some V ho).2
    cases existing with
    | none =>
        refine ⟨o.val, Or.inl (List.mem_map_of_mem (by simp)), hrecords.trans ?_⟩
        rw [hx]
        rfl
    | some z =>
        rcases mergedZone_records V o.val z with ⟨hkey, hkept⟩ | htaken
        · refine ⟨z, Or.inr ⟨rfl, ?_⟩, hrecords.trans ?_⟩
          · rw [← hkey]
            exact scriptPubkey_of_class o
          · rw [hx]
            exact hkept
        · refine ⟨o.val, Or.inl (List.mem_map_of_mem (by simp)), hrecords.trans ?_⟩
          rw [hx]
          exact htaken
  · exact ⟨e.val, Or.inl (List.mem_map_of_mem (by simp [he])), hrecords⟩

end ClassStart

section Agreement

variable (V : Crates)

/-- The update replaces what the handle holds, if it holds a zone. -/
def Enters (held : Option Zone) (update : Zone) : Prop :=
  ∀ z, held = some z → replaces V update z = true

/-- The owner records of the update are newer than those held under its key. -/
def BringsRecords (held : Option Zone) (update : Zone) : Prop :=
  ∀ z, held = some z → z.scriptPubkey = update.scriptPubkey →
    V.recordsRank z < V.recordsRank update

/-- No update replaces what is held, or one with the highest anchor does, which also has
the newest records if any update brings newer ones. -/
def FreshestIsNewest (held : Option Zone) (zones : List Zone) : Prop :=
  (∀ u ∈ zones, ¬ Enters V held u) ∨
    ∃ m ∈ zones, Enters V held m ∧ (∀ u ∈ zones, u.anchor ≤ m.anchor) ∧
      ((∃ u ∈ zones, BringsRecords V held u) →
        ∀ u ∈ zones, V.recordsRank u ≤ V.recordsRank m)

/-- A sequence held under the key of the class names the same records in the updates. -/
def SequencesNameRecords (k : ZoneClass) (held : Option Zone) (zones : List Zone) : Prop :=
  ∀ z, held = some z → z.scriptPubkey = k.scriptPubkey →
    ∀ u ∈ zones, V.recordsRank z = V.recordsRank u → z.records = u.records

/-- All schedules of the updates leave the same records and anchor under the
handle, and the same zone where there was none. -/
def DeliveriesAgree (db : Tables) (handle : String) (updates : List HandleRecord) : Prop :=
  ∀ s₁ s₂, IsSchedule updates s₁ → IsSchedule updates s₂ →
    let z₁ := storedZone V (runCalls V db (oneByOne s₁)) handle
    let z₂ := storedZone V (runCalls V db (oneByOne s₂)) handle
    z₁.map (fun z => (z.records, z.anchor)) = z₂.map (fun z => (z.records, z.anchor)) ∧
      (storedZone V db handle = none → z₁ = z₂)

variable {V}

theorem entered_eq_none_iff
    {k : ZoneClass}
    {held : Option Zone}
    {update : ClassZone k} :
    entered V held update = none ↔ ¬ Enters V held update.val := by
  cases held with
  | none =>
      simp [entered, Enters]
  | some z =>
      simp [entered, Enters]

theorem keptRank_lt_iff
    {held : Option Zone}
    {update : Zone} :
    keptRank V held update.scriptPubkey < WithBot.some (V.recordsRank update) ↔
      BringsRecords V held update := by
  cases held with
  | none =>
      simp [keptRank, BringsRecords]
  | some z =>
      by_cases hkey : z.scriptPubkey = update.scriptPubkey
      · simp [keptRank, BringsRecords, hkey]
      · simp [keptRank, BringsRecords, hkey]

theorem freshestIsNewest_iff
    {k : ZoneClass}
    {held : Option Zone}
    {offers : List (ClassZone k)} :
    (classStart V k held).FreshestIsNewest offers ↔
      FreshestIsNewest V held (offers.map Subtype.val) := by
  have hnone : ∀ u : ClassZone k,
      (classStart V k held).enter u = none ↔ ¬ Enters V held u.val :=
    fun u => entered_eq_none_iff
  have hbase : ∀ u : ClassZone k,
      (classStart V k held).base < WithBot.some ((classRegister V k).version u) ↔
        BringsRecords V held u.val := by
    intro u
    rw [← keptRank_lt_iff, scriptPubkey_of_class u]
    rfl
  simp only [Register.Start.FreshestIsNewest, FreshestIsNewest, List.mem_map,
    exists_exists_and_eq_and, forall_exists_index, and_imp, forall_apply_eq_imp_iff₂,
    ne_eq, hnone, hbase, not_not]
  rfl

/-- Zones whose class is known are the zones of a list of that class. -/
theorem exists_classZones
    {k : ZoneClass}
    {zones : List Zone}
    (h : ∀ z ∈ zones, zoneClass z = k) :
    ∃ items : List (ClassZone k), items.map Subtype.val = zones :=
  ⟨zones.pmap Subtype.mk h, by simp [List.map_pmap]⟩

theorem exists_perm_of_perm_map
    {α β : Type}
    {f : α → β}
    {l : List β}
    {m : List α}
    (h : l.Perm (m.map f)) :
    ∃ m' : List α, m'.Perm m ∧ l = m'.map f := by
  have hcomp := congrFun (congrFun (List.eq_map_comp_perm f) l) m
  obtain ⟨m', hl, hm'⟩ := hcomp.mpr h
  exact ⟨m', hm', hl⟩

/-- A schedule offers the zones of the updates in some order. -/
theorem exists_items_of_schedule
    {k : ZoneClass}
    {updates : List HandleRecord}
    {items : List (ClassZone k)}
    (hitems : items.map Subtype.val = updates.map HandleRecord.zone)
    {schedule : List (Nat × HandleRecord)}
    (hs : IsSchedule updates schedule) :
    ∃ l : List (ClassZone k), l.Perm items ∧
      schedule.map (fun p => p.2.zone) = l.map Subtype.val := by
  have hperm : (schedule.map (fun p => p.2.zone)).Perm (items.map Subtype.val) := by
    rw [hitems]
    have h := hs.perm.map HandleRecord.zone
    rwa [List.map_map] at h
  exact exists_perm_of_perm_map hperm

/-- Every order of the zones is the order of some schedule. -/
theorem exists_schedule_of_items
    {k : ZoneClass}
    {updates : List HandleRecord}
    {items : List (ClassZone k)}
    (hitems : items.map Subtype.val = updates.map HandleRecord.zone)
    {l : List (ClassZone k)}
    (hl : l.Perm items) :
    ∃ schedule, IsSchedule updates schedule ∧
      schedule.map (fun p => p.2.zone) = l.map Subtype.val := by
  have hperm : (l.map Subtype.val).Perm (updates.map HandleRecord.zone) := by
    rw [← hitems]
    exact hl.map Subtype.val
  obtain ⟨order, horderPerm, horder⟩ := exists_perm_of_perm_map hperm
  obtain ⟨now, hnow⟩ := exists_timely updates
  refine ⟨order.map (fun u => (now, u)), ⟨?_, ?_⟩, ?_⟩
  · simpa using horderPerm
  · intro p hp
    obtain ⟨u, hu, rfl⟩ := List.mem_map.1 hp
    exact hnow u (horderPerm.mem_iff.1 hu)
  · rw [horder]
    simp

section Bridge

variable {db : Tables} {handle : String} {updates : List HandleRecord} {k : ZoneClass}
variable {held : Option Zone} {items l₁ l₂ : List (ClassZone k)}

theorem records_eq_of_rank_eq
    (hdistinct : (items.map (classRegister V k).version).Nodup)
    (hheld : SequencesNameRecords V k held (items.map Subtype.val))
    {e₁ e₂ : Zone}
    (h₁ : e₁ ∈ items.map Subtype.val ∨ held = some e₁ ∧ e₁.scriptPubkey = k.scriptPubkey)
    (h₂ : e₂ ∈ items.map Subtype.val ∨ held = some e₂ ∧ e₂.scriptPubkey = k.scriptPubkey)
    (hrank : V.recordsRank e₁ = V.recordsRank e₂) :
    e₁.records = e₂.records := by
  rcases h₁ with h₁ | ⟨h₁, hkey₁⟩
  · obtain ⟨u₁, hu₁, rfl⟩ := List.mem_map.1 h₁
    rcases h₂ with h₂ | ⟨h₂, hkey₂⟩
    · obtain ⟨u₂, hu₂, rfl⟩ := List.mem_map.1 h₂
      rw [List.inj_on_of_nodup_map hdistinct hu₁ hu₂ hrank]
    · exact (hheld e₂ h₂ hkey₂ u₁.val h₁ hrank.symm).symm
  · rcases h₂ with h₂ | ⟨h₂, _⟩
    · exact hheld e₁ h₁ hkey₁ e₂ h₂ hrank
    · rw [Option.some_inj.1 (h₁.symm.trans h₂)]

/-- Records and anchor of a run are determined by its stamp. -/
theorem shown_eq_of_stamp_eq
    (hdistinct : (items.map (classRegister V k).version).Nodup)
    (hheld : SequencesNameRecords V k held (items.map Subtype.val))
    (h₁ : l₁.Perm items)
    (h₂ : l₂.Perm items)
    (hstamp : ((classStart V k held).run l₁).map (classRegister V k).stamp =
      ((classStart V k held).run l₂).map (classRegister V k).stamp) :
    ((classStart V k held).run l₁).map (fun x => (x.val.records, x.val.anchor)) =
      ((classStart V k held).run l₂).map (fun x => (x.val.records, x.val.anchor)) := by
  cases hr₁ : (classStart V k held).run l₁ with
  | none =>
      rw [hr₁, Option.map_none, eq_comm, Option.map_eq_none_iff] at hstamp
      rw [hstamp]
  | some x₁ =>
      rw [hr₁] at hstamp
      obtain ⟨x₂, hr₂, hsame⟩ := Option.map_eq_some_iff.1 hstamp.symm
      have hrank : V.recordsRank x₂.val = V.recordsRank x₁.val :=
        congrArg Prod.fst hsame
      have hanchor : x₂.val.anchor = x₁.val.anchor :=
        congrArg Prod.snd hsame
      obtain ⟨e₁, he₁, hrec₁⟩ := start_run_records hr₁
      obtain ⟨e₂, he₂, hrec₂⟩ := start_run_records hr₂
      rw [(h₁.map Subtype.val).mem_iff] at he₁
      rw [(h₂.map Subtype.val).mem_iff] at he₂
      have hrecords : e₁.records = e₂.records := by
        apply records_eq_of_rank_eq hdistinct hheld he₁ he₂
        rw [← V.recordsRank_congr hrec₁, ← V.recordsRank_congr hrec₂, hrank]
      rw [hr₂, Option.map_some, Option.map_some, hanchor, hrec₁, hrec₂, hrecords]

/-- The stamp of a run is determined by its records and anchor. -/
theorem stamp_eq_of_shown_eq
    (hshown : ((classStart V k held).run l₁).map (fun x => (x.val.records, x.val.anchor)) =
      ((classStart V k held).run l₂).map (fun x => (x.val.records, x.val.anchor))) :
    ((classStart V k held).run l₁).map (classRegister V k).stamp =
      ((classStart V k held).run l₂).map (classRegister V k).stamp := by
  have hstamp := congrArg
    (Option.map (fun p : RecordSet × Nat =>
      (if p.1.isEmpty then 0 else V.seqOr0 p.1 + 1, p.2))) hshown
  simp only [Option.map_map] at hstamp
  exact hstamp

/-- Runs over the same updates both leave what was held, or both replace it. -/
theorem run_eq_none_iff_of_perm
    (h₁ : l₁.Perm items)
    (h₂ : l₂.Perm items) :
    (classStart V k held).run l₁ = none ↔ (classStart V k held).run l₂ = none := by
  rw [Register.Start.run_eq_none_iff, Register.Start.run_eq_none_iff]
  simp only [h₁.mem_iff, h₂.mem_iff]

variable {κ : Type} [LinearOrder κ] {commitmentRank : ProvableOption CommitmentInfo → κ}

/-- What a schedule leaves under the handle is the result of a run of the register. -/
theorem storedZone_schedule
    (hV : V.Lawful)
    (hlex : V.ComparesLex commitmentRank)
    (hdb : RowsEncoded V db)
    (hupdates : ∀ u ∈ updates, u.handle = handle ∧ Serializable V u)
    {schedule : List (Nat × HandleRecord)}
    (hs : IsSchedule updates schedule)
    {l : List (ClassZone k)}
    (hl : schedule.map (fun p => p.2.zone) = l.map Subtype.val) :
    storedZone V (runCalls V db (oneByOne schedule)) handle =
      (((classStart V k (storedZone V db handle)).run l).map Subtype.val).or
        (storedZone V db handle) := by
  rw [storedZone_oneByOne hV _ hdb, hl, foldl_offer_start hlex]
  intro p hp
  have hmem : p.2 ∈ updates := hs.perm.mem_iff.1 (List.mem_map_of_mem hp)
  exact ⟨(hupdates p.2 hmem).1, (hupdates p.2 hmem).2, hs.timely p hp⟩

theorem ordersAgree_of_deliveriesAgree
    (hV : V.Lawful)
    (hlex : V.ComparesLex commitmentRank)
    (hdb : RowsEncoded V db)
    (hupdates : ∀ u ∈ updates, u.handle = handle ∧ Serializable V u)
    (hitems : items.map Subtype.val = updates.map HandleRecord.zone)
    (hagree : DeliveriesAgree V db handle updates) :
    (classStart V k (storedZone V db handle)).OrdersAgree items := by
  intro l₁ l₂ h₁ h₂
  obtain ⟨s₁, hs₁, hz₁⟩ := exists_schedule_of_items hitems h₁
  obtain ⟨s₂, hs₂, hz₂⟩ := exists_schedule_of_items hitems h₂
  have hshown := (hagree s₁ s₂ hs₁ hs₂).1
  rw [storedZone_schedule hV hlex hdb hupdates hs₁ hz₁,
    storedZone_schedule hV hlex hdb hupdates hs₂ hz₂] at hshown
  apply stamp_eq_of_shown_eq
  have hboth : (classStart V k (storedZone V db handle)).run l₁ = none ↔
      (classStart V k (storedZone V db handle)).run l₂ = none :=
    run_eq_none_iff_of_perm h₁ h₂
  cases hr₁ : (classStart V k (storedZone V db handle)).run l₁ with
  | none =>
      rw [hboth.1 hr₁]
  | some x₁ =>
      cases hr₂ : (classStart V k (storedZone V db handle)).run l₂ with
      | none =>
          rw [hboth.2 hr₂] at hr₁
          cases hr₁
      | some x₂ =>
          rw [hr₁, hr₂] at hshown
          exact hshown

theorem deliveriesAgree_of_ordersAgree
    (hV : V.Lawful)
    (hlex : V.ComparesLex commitmentRank)
    (hdb : RowsEncoded V db)
    (hupdates : ∀ u ∈ updates, u.handle = handle ∧ Serializable V u)
    (hitems : items.map Subtype.val = updates.map HandleRecord.zone)
    (hdistinct : (items.map (classRegister V k).version).Nodup)
    (hheld : SequencesNameRecords V k (storedZone V db handle) (items.map Subtype.val))
    (hfresh : (classStart V k (storedZone V db handle)).FreshestIsNewest items) :
    DeliveriesAgree V db handle updates := by
  intro s₁ s₂ hs₁ hs₂
  obtain ⟨l₁, h₁, hz₁⟩ := exists_items_of_schedule hitems hs₁
  obtain ⟨l₂, h₂, hz₂⟩ := exists_items_of_schedule hitems hs₂
  simp only [storedZone_schedule hV hlex hdb hupdates hs₁ hz₁,
    storedZone_schedule hV hlex hdb hupdates hs₂ hz₂]
  constructor
  · have hagree := Register.Start.ordersAgree_of_freshestIsNewest hdistinct hfresh
    have hshown := shown_eq_of_stamp_eq hdistinct hheld h₁ h₂ (hagree l₁ l₂ h₁ h₂)
    simp only [Option.map_or, Option.map_map]
    exact congrArg (fun shown => Option.or shown _) hshown
  · intro hnone
    rw [hnone] at hfresh ⊢
    rcases hfresh with hrefused | ⟨m, hm, henter, hanchor, hnewest⟩
    · have hrun : ∀ l : List (ClassZone k), l.Perm items → (classStart V k none).run l = none :=
        fun l hl => Register.Start.run_eq_none_iff.2
          (fun u hu => hrefused u (hl.mem_iff.1 hu))
      rw [hrun l₁ h₁, hrun l₂ h₂]
    · have hnewer : ∃ u ∈ items, (classStart V k none).base <
          WithBot.some ((classRegister V k).version u) :=
        ⟨m, hm, WithBot.bot_lt_coe _⟩
      rw [Register.Start.run_perm_of_top hdistinct hm henter hanchor hnewer
          (hnewest hnewer) h₁,
        Register.Start.run_perm_of_top hdistinct hm henter hanchor hnewer
          (hnewest hnewer) h₂]

end Bridge

/-- **When the order of deliveries does not matter.**  Updates of one handle that
share key, commitment and sovereignty and carry distinct record sequences leave the
same records and anchor in every order of delivery if and only if none replaces the
stored zone, or a freshest one does and is the newest, should any be newer than what
is stored under the key. -/
theorem delivery_orders_agree_iff
    {κ : Type}
    [LinearOrder κ]
    {commitmentRank : ProvableOption CommitmentInfo → κ}
    (hV : V.Lawful)
    (hlex : V.ComparesLex commitmentRank)
    {db : Tables}
    (hdb : Reachable V db)
    {handle : String}
    {updates : List HandleRecord}
    (hupdates : ∀ u ∈ updates, u.handle = handle ∧ Serializable V u)
    {k : ZoneClass}
    (hclass : ∀ u ∈ updates, zoneClass u.zone = k)
    (hdistinct : (updates.map (fun u => V.recordsRank u.zone)).Nodup)
    (hheld : SequencesNameRecords V k (storedZone V db handle)
      (updates.map HandleRecord.zone)) :
    DeliveriesAgree V db handle updates ↔
      FreshestIsNewest V (storedZone V db handle) (updates.map HandleRecord.zone) := by
  have henc := reachable_rowsEncoded V hdb
  obtain ⟨items, hitems⟩ : ∃ items : List (ClassZone k),
      items.map Subtype.val = updates.map HandleRecord.zone :=
    exists_classZones (by simpa using hclass)
  have hnodup : (items.map (classRegister V k).version).Nodup := by
    have hmap : items.map (classRegister V k).version =
        (updates.map HandleRecord.zone).map V.recordsRank := by
      rw [← hitems, List.map_map]
      rfl
    rw [hmap, List.map_map]
    exact hdistinct
  rw [← hitems] at hheld ⊢
  rw [← freshestIsNewest_iff]
  constructor
  · intro hagree
    exact (Register.Start.orders_agree_iff hnodup).1
      (ordersAgree_of_deliveriesAgree hV hlex henc hupdates hitems hagree)
  · intro hfresh
    exact deliveriesAgree_of_ordersAgree hV hlex henc hupdates hitems hnodup hheld hfresh

/-- Two updates of which the newer is also the fresher. -/
theorem delivery_orders_agree_iff_sample :
    let V := Crates.ofTables [sampleCert] [sampleZone 1 5 0 0, sampleZone 2 10 0 0]
    DeliveriesAgree V Tables.init "alice@bitcoin"
      [sampleRecord (sampleZone 1 5 0 0), sampleRecord (sampleZone 2 10 0 0)] := by
  intro V
  have hV : V.Lawful := Crates.ofTables_lawful (by decide) (by decide)
  have hupdates : ∀ u ∈ [sampleRecord (sampleZone 1 5 0 0), sampleRecord (sampleZone 2 10 0 0)],
      u.handle = "alice@bitcoin" ∧ Serializable V u := by
    intro u hu
    rcases List.mem_cons.1 hu with rfl | hu
    · exact ⟨rfl, _, rfl⟩
    · rw [List.mem_singleton.1 hu]
      exact ⟨rfl, _, rfl⟩
  have hnone : storedZone V Tables.init "alice@bitcoin" = none := rfl
  refine (delivery_orders_agree_iff hV (Crates.ofTables_comparesLex _ _) ⟨[], rfl⟩ hupdates
    (k := zoneClass (sampleZone 1 5 0 0)) (by decide) (by decide) ?_).2 ?_
  · intro z hz
    exact absurd (hnone.symm.trans hz) (by simp)
  · right
    refine ⟨sampleZone 2 10 0 0, by decide, ?_, by decide, fun _ => by decide⟩
    intro z hz
    exact absurd (hnone.symm.trans hz) (by simp)

/-- An older set of records under a higher anchor: the anchor depends on the order. -/
theorem delivery_orders_disagree :
    let older := sampleZone 1 10 0 0
    let newer := sampleZone 2 5 0 0
    let V := Crates.ofTables [sampleCert] [older, newer]
    let after := fun schedule => storedZone V
      (runCalls V Tables.init (oneByOne schedule)) "alice@bitcoin"
    V.Lawful ∧ V.ComparesLex heightRank ∧ zoneClass older = zoneClass newer ∧
      V.recordsSeq older.records ≠ V.recordsSeq newer.records ∧
      IsSchedule [sampleRecord older, sampleRecord newer]
        [(0, sampleRecord older), (0, sampleRecord newer)] ∧
      IsSchedule [sampleRecord older, sampleRecord newer]
        [(0, sampleRecord newer), (0, sampleRecord older)] ∧
      after [(0, sampleRecord older), (0, sampleRecord newer)] = some (sampleZone 2 5 0 0) ∧
      after [(0, sampleRecord newer), (0, sampleRecord older)] = some (sampleZone 2 10 0 0) ∧
      ¬ DeliveriesAgree V Tables.init "alice@bitcoin"
        [sampleRecord older, sampleRecord newer] := by
  intro older newer V after
  have htimely : ∀ p ∈ [(0, sampleRecord older), (0, sampleRecord newer)], Timely p.1 p.2 := by
    intro p hp
    rcases List.mem_cons.1 hp with rfl | hp
    · exact ⟨by decide, by decide⟩
    · rw [List.mem_singleton.1 hp]
      exact ⟨by decide, by decide⟩
  have hs₁ : IsSchedule [sampleRecord older, sampleRecord newer]
      [(0, sampleRecord older), (0, sampleRecord newer)] :=
    ⟨List.Perm.refl _, htimely⟩
  have hs₂ : IsSchedule [sampleRecord older, sampleRecord newer]
      [(0, sampleRecord newer), (0, sampleRecord older)] :=
    ⟨List.Perm.swap _ _ _, fun p hp => htimely p ((List.Perm.swap _ _ _).mem_iff.1 hp)⟩
  have hafter₁ : after [(0, sampleRecord older), (0, sampleRecord newer)] =
      some (sampleZone 2 5 0 0) := by
    decide
  have hafter₂ : after [(0, sampleRecord newer), (0, sampleRecord older)] =
      some (sampleZone 2 10 0 0) := by
    decide
  refine ⟨Crates.ofTables_lawful (by decide) (by decide), Crates.ofTables_comparesLex _ _, rfl,
    by decide, hs₁, hs₂, hafter₁, hafter₂, ?_⟩
  intro hagree
  have hsame := (hagree _ _ hs₁ hs₂).2 rfl
  have hzones : some (sampleZone 2 5 0 0) = some (sampleZone 2 10 0 0) :=
    hafter₁.symm.trans (hsame.trans hafter₂)
  exact absurd hzones (by decide)

end Agreement

end CertRelay
