import CertRelay.Lib.Runs
import CertRelay.Relay.Deliveries
import Mathlib.Data.Finset.Prod

/-!
# Flip-flop

`fresherProof` ranks zones by anchor and sovereignty, `is_better_than` by
commitment first.  A fresher proof with a worse commitment is therefore stored,
and replaced again when the better commitment is redelivered.

**Results.**
* `zoneRank_lt_mergedZone`: every other accepted update raises `zoneRank`;
* `never_returns_of_steady`: a run without such updates never returns to a zone
  that was replaced, and stores a bounded number of times;
* `flip_flop_free_iff`: for a set of updates of a new handle this holds for all
  redeliveries exactly when no two of the updates are such a pair.
-/

namespace CertRelay

section Rank

variable {V : Crates} {κ : Type} [LinearOrder κ]
variable {commitmentRank : ProvableOption CommitmentInfo → κ}

/-- A strictly fresher proof that carries a worse commitment. -/
def RollsCommitmentBack (commitmentRank : ProvableOption CommitmentInfo → κ)
    (update existing : Zone) : Prop :=
  fresherProof update existing = true ∧
    commitmentRank update.commitment < commitmentRank existing.commitment

theorem fresherProof_iff
    {update existing : Zone} :
    fresherProof update existing = true ↔
      update.scriptPubkey = existing.scriptPubkey ∧
        existing.anchor < update.anchor ∧
        sovereigntyRank existing.sovereignty ≤ sovereigntyRank update.sovereignty := by
  simp [fresherProof, and_assoc]

/-- **An accepted update raises the rank**, unless it rolls the commitment back. -/
theorem zoneRank_lt_mergedZone
    (hlex : V.ComparesLex commitmentRank)
    {update existing : Zone}
    (hkey : update.scriptPubkey = existing.scriptPubkey)
    (hreplaces : replaces V update existing = true)
    (hsteady : ¬ RollsCommitmentBack commitmentRank update existing) :
    V.zoneRank commitmentRank existing <
      V.zoneRank commitmentRank (mergedZone V update existing) := by
  rw [V.zoneRank_lt_iff, mergedZone_commitment, mergedZone_anchor,
    recordsRank_mergedZone V hkey]
  have hmax := Nat.le_max_left (V.recordsRank existing) (V.recordsRank update)
  rcases Bool.or_eq_true _ _ ▸ hreplaces with hfresher | hbetter
  · have hanchor := (fresherProof_iff.1 hfresher).2.1
    have hcommitment : commitmentRank existing.commitment ≤
        commitmentRank update.commitment :=
      not_lt.1 (fun hlt => hsteady ⟨hfresher, hlt⟩)
    rcases hcommitment.eq_or_lt with heq | hlt
    · refine Or.inr ⟨heq, ?_⟩
      rcases hmax.eq_or_lt with hsame | hmore
      · exact Or.inr ⟨hsame, hanchor⟩
      · exact Or.inl hmore
    · exact Or.inl hlt
  · rw [hlex, V.zoneRank_lt_iff] at hbetter
    rcases hbetter with hlt | ⟨heq, hrecords | ⟨hrecords, hanchor⟩⟩
    · exact Or.inl hlt
    · exact Or.inr ⟨heq, Or.inl (by omega)⟩
    · refine Or.inr ⟨heq, ?_⟩
      rcases hmax.eq_or_lt with hsame | hmore
      · exact Or.inr ⟨hsame, hanchor⟩
      · exact Or.inl hmore

/-- The rank of what a handle holds; nothing ranks lowest. -/
def heldRank (V : Crates) (commitmentRank : ProvableOption CommitmentInfo → κ) :
    Option Zone → WithBot (κ ×ₗ (ℕ ×ₗ ℕ))
  | none => ⊥
  | some z => ↑(V.zoneRank commitmentRank z)

end Rank

section Stores

variable (V : Crates)

/-- The call stores a record under the handle, by its own result. -/
def storesFor (db : Tables) (handle : String) : StoreCall → Bool
  | .updateHandles now updates =>
      match updateHandles V now db updates with
      | .ok (_, res) => decide (handle ∈ res.storedHandles)
      | .error _ => false
  | _ => false

/-- What the handle holds after the first `i` calls of a run. -/
def heldAt (db : Tables) (handle : String) (calls : List StoreCall) (i : ℕ) : Option Zone :=
  storedZone V (runCalls V db (calls.take i)) handle

/-- The positions of a run at which a record is stored under the handle. -/
def storePositions (db : Tables) (handle : String) (calls : List StoreCall) : Finset ℕ :=
  (Finset.range calls.length).filter fun i =>
    (calls[i]?.map (storesFor V (runCalls V db (calls.take i)) handle)).getD false = true

/-- A zone that was replaced is never held again. -/
def NeverReturns (db : Tables) (handle : String) (calls : List StoreCall) : Prop :=
  ∀ i j k, i ≤ j → j ≤ k → k ≤ calls.length →
    heldAt V db handle calls j ≠ heldAt V db handle calls i →
    heldAt V db handle calls k ≠ heldAt V db handle calls i

variable {V}

/-- What a call does to a spared handle, by whether it stores there. -/
theorem storedZone_of_storesFor
    (hV : V.Lawful)
    {db : Tables}
    (hdb : RowsEncoded V db)
    {handle : String}
    {call : StoreCall}
    (hspare : call.Spares handle) :
    match storesFor V db handle call with
    | false => storedZone V (runCall V db call) handle = storedZone V db handle
    | true => ∃ now updates u, call = .updateHandles now updates ∧
        lastAccepted V now db handle updates = some u ∧
        storedZone V (runCall V db call) handle =
          some (storedAs V (storedZone V db handle) u.zone) := by
  cases hstores : storesFor V db handle call with
  | false =>
      rcases storedZone_runCall hV hdb hspare with hsame | ⟨now, updates, u, rfl, hlast, _⟩
      · exact hsame
      · show storedZone V (deliver V now db updates) handle = _
        unfold deliver
        cases hok : updateHandles V now db updates with
        | error e =>
            rfl
        | ok out =>
            have hmem := (mem_storedHandles_iff hok).2 ⟨u, hlast⟩
            simp [storesFor, hok, hmem] at hstores
  | true =>
      cases call with
      | updateHandles now updates =>
          cases hok : updateHandles V now db updates with
          | error e =>
              simp [storesFor, hok] at hstores
          | ok out =>
              have hmem : handle ∈ out.2.storedHandles := by
                simpa [storesFor, hok] using hstores
              obtain ⟨u, hlast⟩ := (mem_storedHandles_iff hok).1 hmem
              refine ⟨now, updates, u, rfl, hlast, ?_⟩
              show storedZone V (deliver V now db updates) handle = _
              rw [deliver_of_ok V hok, storedZone_updateHandles hV hdb hok, hlast]
      | deleteHandles handles =>
          cases hstores
      | setRevs now entries =>
          cases hstores
      | setAddrs now handle' rev entries =>
          cases hstores
      | setWatermark now peerUrl cursor =>
          cases hstores

end Stores

section Steady

variable {V : Crates} {κ : Type} [LinearOrder κ]
variable {commitmentRank : ProvableOption CommitmentInfo → κ}

/-- A step of a run of redeliveries: the handle is not deleted and the records
brought for it are among `updates`. -/
structure Redelivers (handle : String) (updates : List HandleRecord) (call : StoreCall) :
    Prop where
  spares : call.Spares handle
  brings : call.Brings (fun u => u.handle = handle → u ∈ updates)

/-- A redelivery in which no update rolls the held commitment back. -/
structure Steady (V : Crates) (commitmentRank : ProvableOption CommitmentInfo → κ)
    (handle : String) (updates : List HandleRecord) (db : Tables) (call : StoreCall) :
    Prop where
  redelivers : Redelivers handle updates call
  steady : call.Brings (fun u => u.handle = handle →
    ∀ z, storedZone V db handle = some z → ¬ RollsCommitmentBack commitmentRank u.zone z)

/-- The zones that redeliveries of updates can leave under a handle. -/
def heldValues (held : Option Zone) (updates : List HandleRecord) : List (Option Zone) :=
  held :: updates.flatMap fun u =>
    (held.toList ++ updates.map HandleRecord.zone).map fun e =>
      some { u.zone with records := e.records }

theorem length_heldValues
    (held : Option Zone)
    (updates : List HandleRecord) :
    (heldValues held updates).length =
      updates.length * (held.toList.length + updates.length) + 1 := by
  simp [heldValues, List.length_flatMap]

/-- The records of a possible value are those of the start or of an update. -/
theorem records_of_mem_heldValues
    {held : Option Zone}
    {updates : List HandleRecord}
    {z : Zone}
    (h : some z ∈ heldValues held updates) :
    ∃ e ∈ held.toList ++ updates.map HandleRecord.zone, z.records = e.records := by
  rcases List.mem_cons.1 h with hstart | hlater
  · exact ⟨z, by simp [← hstart], rfl⟩
  · obtain ⟨u, _, hu⟩ := List.mem_flatMap.1 hlater
    obtain ⟨e, he, heq⟩ := List.mem_map.1 hu
    cases heq
    exact ⟨e, he, rfl⟩

theorem storedAs_mem_heldValues
    {held existing : Option Zone}
    {updates : List HandleRecord}
    (hexisting : existing ∈ heldValues held updates)
    {u : HandleRecord}
    (hu : u ∈ updates) :
    some (storedAs V existing u.zone) ∈ heldValues held updates := by
  have hvalue : ∀ e ∈ held.toList ++ updates.map HandleRecord.zone,
      some { u.zone with records := e.records } ∈ heldValues held updates := by
    intro e he
    exact List.mem_cons_of_mem _ (List.mem_flatMap.2 ⟨u, hu, List.mem_map.2 ⟨e, he, rfl⟩⟩)
  have hself : u.zone ∈ held.toList ++ updates.map HandleRecord.zone :=
    List.mem_append_right _ (List.mem_map_of_mem hu)
  cases existing with
  | none =>
      exact hvalue u.zone hself
  | some z =>
      show some (mergedZone V u.zone z) ∈ _
      unfold mergedZone
      split_ifs
      · obtain ⟨e, he, hrecords⟩ := records_of_mem_heldValues hexisting
        rw [hrecords]
        exact hvalue e he
      · exact hvalue u.zone hself

/-- What a run of redeliveries keeps: the store is readable, and the handle holds
one of the possible values, under the one key. -/
structure Holding (V : Crates) (handle : String) (key : Bytes)
    (values : List (Option Zone)) (db : Tables) : Prop where
  rowsEncoded : RowsEncoded V db
  key : ∀ z, storedZone V db handle = some z → z.scriptPubkey = key
  value : storedZone V db handle ∈ values

theorem holding_step
    (hV : V.Lawful)
    {handle : String}
    {key : Bytes}
    {held : Option Zone}
    {updates : List HandleRecord}
    (hkey : ∀ u ∈ updates, u.zone.scriptPubkey = key)
    (db : Tables)
    (call : StoreCall)
    (hdb : Holding V handle key (heldValues held updates) db)
    (hcall : Redelivers handle updates call) :
    Holding V handle key (heldValues held updates) (runCall V db call) := by
  have henc := rowsEncoded_runCall V hdb.rowsEncoded call
  rcases storedZone_runCall hV hdb.rowsEncoded hcall.spares with
    hsame | ⟨now, batch, u, rfl, hlast, hstored⟩
  · exact ⟨henc, by rw [hsame]; exact hdb.key, by rw [hsame]; exact hdb.value⟩
  · obtain ⟨hmem, hhandle, _⟩ := lastAccepted_mem hlast
    have hu : u ∈ updates := hcall.brings u hmem hhandle
    refine ⟨henc, ?_, ?_⟩
    · intro z hz
      rw [hstored] at hz
      cases hz
      rw [storedAs_scriptPubkey]
      exact hkey u hu
    · rw [hstored]
      exact storedAs_mem_heldValues hdb.value hu

/-- **A steady step** either leaves the held zone or raises its rank. -/
theorem steady_step
    (hV : V.Lawful)
    (hlex : V.ComparesLex commitmentRank)
    {handle : String}
    {key : Bytes}
    {updates : List HandleRecord}
    (hkey : ∀ u ∈ updates, u.zone.scriptPubkey = key)
    {values : List (Option Zone)}
    {db : Tables}
    {call : StoreCall}
    (hdb : Holding V handle key values db)
    (hcall : Steady V commitmentRank handle updates db call) :
    match storesFor V db handle call with
    | false => storedZone V (runCall V db call) handle = storedZone V db handle
    | true => heldRank V commitmentRank (storedZone V db handle) <
        heldRank V commitmentRank (storedZone V (runCall V db call) handle) := by
  have hstep := storedZone_of_storesFor hV hdb.rowsEncoded hcall.redelivers.spares
  cases hstores : storesFor V db handle call with
  | false =>
      rw [hstores] at hstep
      exact hstep
  | true =>
      rw [hstores] at hstep
      obtain ⟨now, batch, u, rfl, hlast, hstored⟩ := hstep
      obtain ⟨hmem, hhandle, haccepts⟩ := lastAccepted_mem hlast
      show _ < heldRank V commitmentRank (storedZone V (runCall V db _) handle)
      rw [hstored]
      cases hz : storedZone V db handle with
      | none =>
          exact WithBot.bot_lt_coe _
      | some z =>
          rw [hz] at haccepts
          have hreplaces : replaces V u.zone z = true := by
            simp only [accepts, Bool.and_eq_true] at haccepts
            exact haccepts.2
          have hsameKey : u.zone.scriptPubkey = z.scriptPubkey :=
            (hkey u (hcall.redelivers.brings u hmem hhandle)).trans (hdb.key z hz).symm
          exact WithBot.coe_lt_coe.2 (zoneRank_lt_mergedZone hlex hsameKey hreplaces
            (hcall.steady u hmem hhandle z hz))

variable {db : Tables} {handle : String} {key : Bytes} {updates : List HandleRecord}
variable {calls : List StoreCall}

theorem holding_start
    (hdb : RowsEncoded V db)
    (hheld : ∀ z, storedZone V db handle = some z → z.scriptPubkey = key) :
    Holding V handle key (heldValues (storedZone V db handle) updates) db :=
  ⟨hdb, hheld, List.mem_cons_self⟩

/-- In a steady run what is held only ascends, and each store is a change. -/
theorem ascends_of_steady
    (hV : V.Lawful)
    (hlex : V.ComparesLex commitmentRank)
    (hdb : RowsEncoded V db)
    (hkey : ∀ u ∈ updates, u.zone.scriptPubkey = key)
    (hheld : ∀ z, storedZone V db handle = some z → z.scriptPubkey = key)
    (hcalls : Runs.StepsMeet (runCall V) (Steady V commitmentRank handle updates) db calls) :
    Runs.Ascends (heldRank V commitmentRank) (heldAt V db handle calls) calls.length ∧
      storePositions V db handle calls ⊆
        Runs.changes (heldAt V db handle calls) calls.length ∧
      ∀ i, heldAt V db handle calls i ∈ heldValues (storedZone V db handle) updates := by
  have hholding : ∀ i, Holding V handle key (heldValues (storedZone V db handle) updates)
      (runCalls V db (calls.take i)) := fun i =>
    (hcalls.take i).invariant
      (fun s a hs ha => holding_step hV hkey s a hs ha.redelivers)
      (holding_start hdb hheld)
  have hstep : ∀ i (hi : i < calls.length),
      match storesFor V (runCalls V db (calls.take i)) handle calls[i] with
      | false => heldAt V db handle calls (i + 1) = heldAt V db handle calls i
      | true => heldRank V commitmentRank (heldAt V db handle calls i) <
          heldRank V commitmentRank (heldAt V db handle calls (i + 1)) := by
    intro i hi
    have h := steady_step hV hlex hkey (hholding i) (hcalls.getElem hi)
    unfold heldAt runCalls
    rw [Runs.foldl_take_succ hi]
    exact h
  refine ⟨?_, ?_, fun i => (hholding i).value⟩
  · intro i hi
    have h := hstep i hi
    cases hstores : storesFor V (runCalls V db (calls.take i)) handle calls[i] with
    | false =>
        rw [hstores] at h
        exact Or.inl h
    | true =>
        rw [hstores] at h
        exact Or.inr h
  · intro i hi
    obtain ⟨hrange, hstores⟩ := Finset.mem_filter.1 hi
    have hlt := Finset.mem_range.1 hrange
    rw [List.getElem?_eq_getElem hlt, Option.map_some, Option.getD_some] at hstores
    have h := hstep i hlt
    rw [hstores] at h
    refine Finset.mem_filter.2 ⟨hrange, ?_⟩
    intro hsame
    rw [hsame] at h
    exact lt_irrefl _ h

/-- **Steady runs** never return to a replaced zone and store boundedly often. -/
theorem never_returns_of_steady
    (hV : V.Lawful)
    (hlex : V.ComparesLex commitmentRank)
    (hdb : RowsEncoded V db)
    (hkey : ∀ u ∈ updates, u.zone.scriptPubkey = key)
    (hheld : ∀ z, storedZone V db handle = some z → z.scriptPubkey = key)
    (hcalls : Runs.StepsMeet (runCall V) (Steady V commitmentRank handle updates) db calls) :
    NeverReturns V db handle calls ∧
      (storePositions V db handle calls).card ≤
        updates.length * ((storedZone V db handle).toList.length + updates.length) := by
  obtain ⟨hascends, hsub, hvalues⟩ := ascends_of_steady hV hlex hdb hkey hheld hcalls
  refine ⟨fun i j k hij hjk hk hne => hascends.never_returns hij hjk hk hne, ?_⟩
  have hchanges := hascends.changes_lt_card
    (S := (heldValues (storedZone V db handle) updates).toFinset)
    (fun i _ => List.mem_toFinset.2 (hvalues i))
  have hvaluesCard := List.toFinset_card_le (heldValues (storedZone V db handle) updates)
  rw [length_heldValues] at hvaluesCard
  have hcard := Finset.card_le_card hsub
  omega

end Steady

section Redeliveries

variable {V : Crates} {κ : Type} [LinearOrder κ]
variable {commitmentRank : ProvableOption CommitmentInfo → κ}
variable {db : Tables} {handle : String} {key : Bytes} {updates : List HandleRecord}

/-- Redeliveries to a new handle are steady when no two updates are such a pair. -/
theorem steady_of_no_pair
    (hV : V.Lawful)
    (hdb : RowsEncoded V db)
    (hnew : storedZone V db handle = none)
    (hkey : ∀ u ∈ updates, u.zone.scriptPubkey = key)
    (hpairs : ∀ u ∈ updates, ∀ v ∈ updates,
      ¬ RollsCommitmentBack commitmentRank u.zone v.zone)
    {calls : List StoreCall}
    (hcalls : ∀ c ∈ calls, Redelivers handle updates c) :
    Runs.StepsMeet (runCall V) (Steady V commitmentRank handle updates) db calls := by
  have hstart : Holding V handle key (heldValues none updates) db :=
    ⟨hdb, by rw [hnew]; simp, by rw [hnew]; exact List.mem_cons_self⟩
  have hmeets : Runs.StepsMeet (runCall V) (fun _ c => Redelivers handle updates c) db calls :=
    Runs.stepsMeet_of_mem (fun c hc _ => hcalls c hc)
  refine hmeets.imp (fun s a hs ha => holding_step hV hkey s a hs ha) ?_ hstart
  intro s call hs hcall
  refine ⟨hcall, ?_⟩
  cases call with
  | updateHandles now batch =>
      intro u hu hhandle z hz
      have hvalue := hs.value
      rw [hz] at hvalue
      -- what is held is the zone of an update, up to its owner records
      rcases List.mem_cons.1 hvalue with hnone | hlater
      · cases hnone
      · obtain ⟨v, hv, hmem⟩ := List.mem_flatMap.1 hlater
        obtain ⟨e, _, heq⟩ := List.mem_map.1 hmem
        cases heq
        exact hpairs u (hcall.brings u hu hhandle) v hv
  | deleteHandles handles =>
      trivial
  | setRevs now entries =>
      trivial
  | setAddrs now handle' rev entries =>
      trivial
  | setWatermark now peerUrl cursor =>
      trivial

theorem redelivers_single
    {u : HandleRecord}
    (hu : u ∈ updates)
    (now : Nat) :
    Redelivers handle updates (.updateHandles now [u]) := by
  refine ⟨trivial, ?_⟩
  intro u' hu' _
  rw [List.mem_singleton.1 hu']
  exact hu

/-- The zones held while two zones are offered in turn, twice. -/
def heldInTurn (V : Crates) (u v : Zone) (i : ℕ) : Option Zone :=
  ([v, u, v, u].take i).foldl (offer V) none

theorem offer_of_fresherProof
    {update existing : Zone}
    (h : fresherProof update existing = true) :
    offer V (some existing) update = some (mergedZone V update existing) :=
  if_pos (by unfold replaces; rw [h, Bool.true_or])

theorem offer_of_better
    {update existing : Zone}
    (h : V.better update existing = true) :
    offer V (some existing) update = some (mergedZone V update existing) :=
  if_pos (by unfold replaces; rw [h, Bool.or_true])

/-- **A fresher proof with a worse commitment makes a cycle**: offering such a
pair in turn brings back a zone that was replaced. -/
theorem heldInTurn_returns
    (hlex : V.ComparesLex commitmentRank)
    {u v : Zone}
    (hpair : RollsCommitmentBack commitmentRank u v) :
    ∃ i j k, i ≤ j ∧ j ≤ k ∧ k ≤ 4 ∧ heldInTurn V u v j ≠ heldInTurn V u v i ∧
      heldInTurn V u v k = heldInTurn V u v i := by
  obtain ⟨hfresher, hworse⟩ := hpair
  obtain ⟨hkey, hanchor, hfinality⟩ := fresherProof_iff.1 hfresher
  let z₂ := mergedZone V u v
  let z₃ := mergedZone V v z₂
  have h₁ : heldInTurn V u v 1 = some v := rfl
  have h₂ : heldInTurn V u v 2 = some z₂ :=
    offer_of_fresherProof hfresher
  have h₃ : heldInTurn V u v 3 = some z₃ := by
    show offer V (heldInTurn V u v 2) v = _
    rw [h₂]
    apply offer_of_better
    rw [hlex, V.zoneRank_lt_iff, mergedZone_commitment]
    exact Or.inl hworse
  have h₄ : heldInTurn V u v 4 = some (mergedZone V u z₃) := by
    show offer V (heldInTurn V u v 3) u = _
    rw [h₃]
    apply offer_of_fresherProof
    rw [fresherProof_iff, mergedZone_scriptPubkey, mergedZone_anchor, mergedZone_sovereignty]
    exact ⟨hkey, hanchor, hfinality⟩
  have hne₂ : z₂ ≠ v := by
    intro he
    have h := congrArg Zone.anchor he
    rw [mergedZone_anchor] at h
    omega
  rcases Nat.lt_or_ge (V.recordsRank v) (V.recordsRank u) with hlt | hge
  · -- `u` has the newer records: it comes back itself
    have hz₂ : z₂ = u := mergedZone_of_le V hlt.le
    have hz₃ : V.recordsRank z₃ = V.recordsRank u := by
      show V.recordsRank (mergedZone V v z₂) = _
      rw [hz₂, recordsRank_mergedZone V hkey.symm, Nat.max_eq_left hlt.le]
    refine ⟨2, 3, 4, by omega, by omega, by omega, ?_, ?_⟩
    · rw [h₂, h₃]
      intro he
      have h := congrArg Zone.anchor (Option.some.inj he)
      rw [mergedZone_anchor, mergedZone_anchor] at h
      omega
    · rw [h₂, h₄, mergedZone_of_le V hz₃.le, hz₂]
  · -- `v` has records as new as `u`: it comes back itself
    have hz₃ : z₃ = v := by
      apply mergedZone_of_le
      rw [recordsRank_mergedZone V hkey, Nat.max_eq_left hge]
    refine ⟨1, 2, 3, by omega, by omega, by omega, ?_, ?_⟩
    · rw [h₁, h₂]
      exact fun he => hne₂ (Option.some.inj he)
    · rw [h₁, h₃, hz₃]

/-- Two updates of a new handle that make a cycle do so in the store. -/
theorem returns_of_pair
    (hV : V.Lawful)
    (hlex : V.ComparesLex commitmentRank)
    (hdb : RowsEncoded V db)
    (hnew : storedZone V db handle = none)
    (hupdates : ∀ u ∈ updates, u.handle = handle ∧ Serializable V u)
    {u v : HandleRecord}
    (hu : u ∈ updates)
    (hv : v ∈ updates)
    (hpair : RollsCommitmentBack commitmentRank u.zone v.zone) :
    ∃ calls, (∀ c ∈ calls, Redelivers handle updates c) ∧
      ¬ NeverReturns V db handle calls := by
  obtain ⟨now, hnow⟩ := exists_timely updates
  let schedule : List (Nat × HandleRecord) := [(now, v), (now, u), (now, v), (now, u)]
  have hmem : ∀ p ∈ schedule, p.1 = now ∧ p.2 ∈ updates := by
    simp [schedule, hu, hv]
  have hschedule : ∀ p ∈ schedule, p.2.handle = handle ∧ Serializable V p.2 ∧ Timely p.1 p.2 := by
    intro p hp
    obtain ⟨hclock, hp⟩ := hmem p hp
    exact ⟨(hupdates p.2 hp).1, (hupdates p.2 hp).2, hclock ▸ hnow p.2 hp⟩
  have hheld : ∀ i, heldAt V db handle (oneByOne schedule) i =
      heldInTurn V u.zone v.zone i := by
    intro i
    unfold heldAt oneByOne heldInTurn
    rw [← List.map_take, ← hnew]
    have hrun := storedZone_oneByOne hV
      (fun p hp => hschedule p (List.mem_of_mem_take (i := i) hp)) hdb
    rw [List.map_take] at hrun
    exact hrun
  refine ⟨oneByOne schedule, ?_, ?_⟩
  · intro c hc
    obtain ⟨p, hp, rfl⟩ := List.mem_map.1 hc
    exact redelivers_single (hmem p hp).2 p.1
  · intro hnever
    obtain ⟨i, j, k, hij, hjk, hk, hne, heq⟩ := heldInTurn_returns hlex hpair
    have hlen : (oneByOne schedule).length = 4 := rfl
    have h := hnever i j k hij hjk (by rw [hlen]; exact hk)
    simp only [hheld] at h
    exact h hne heq

/-- **When a handle does not flip-flop.**  For a set of updates of a new handle
under one key, every run of redeliveries is free of returns and stores boundedly
often if and only if no two updates are a fresher proof and a better commitment.
From any held zone it is so in each run whose steps are steady. -/
theorem flip_flop_free_iff
    (hV : V.Lawful)
    (hlex : V.ComparesLex commitmentRank)
    (hdb : Reachable V db)
    (hupdates : ∀ u ∈ updates, u.handle = handle ∧ Serializable V u ∧
      u.zone.scriptPubkey = key)
    (hheld : ∀ z, storedZone V db handle = some z → z.scriptPubkey = key) :
    (storedZone V db handle = none →
      ((∀ calls, (∀ c ∈ calls, Redelivers handle updates c) →
        NeverReturns V db handle calls ∧
          (storePositions V db handle calls).card ≤ updates.length * updates.length) ↔
      ∀ u ∈ updates, ∀ v ∈ updates, ¬ RollsCommitmentBack commitmentRank u.zone v.zone)) ∧
    (∀ calls,
      Runs.StepsMeet (runCall V) (Steady V commitmentRank handle updates) db calls →
      NeverReturns V db handle calls ∧
        (storePositions V db handle calls).card ≤
          updates.length * ((storedZone V db handle).toList.length + updates.length)) := by
  have henc := reachable_rowsEncoded V hdb
  have hkey : ∀ u ∈ updates, u.zone.scriptPubkey = key := fun u hu => (hupdates u hu).2.2
  have hdeliverable : ∀ u ∈ updates, u.handle = handle ∧ Serializable V u :=
    fun u hu => ⟨(hupdates u hu).1, (hupdates u hu).2.1⟩
  constructor
  · intro hnew
    constructor
    · intro hruns u hu v hv hpair
      obtain ⟨calls, hcalls, hreturns⟩ :=
        returns_of_pair hV hlex henc hnew hdeliverable hu hv hpair
      exact hreturns (hruns calls hcalls).1
    · intro hpairs calls hcalls
      have hsteady := steady_of_no_pair hV henc hnew hkey hpairs hcalls
      have h := never_returns_of_steady hV hlex henc hkey hheld hsteady
      rw [hnew] at h
      simpa using h
  · intro calls hcalls
    exact never_returns_of_steady hV hlex henc hkey hheld hcalls

/-- Two updates of which the fresher also has the better commitment. -/
theorem flip_flop_free_iff_sample :
    let V := Crates.ofTables [sampleCert] [sampleZone 1 10 5 0, sampleZone 1 20 6 0]
    let updates := [sampleRecord (sampleZone 1 10 5 0), sampleRecord (sampleZone 1 20 6 0)]
    ∀ calls, (∀ c ∈ calls, Redelivers "alice@bitcoin" updates c) →
      NeverReturns V Tables.init "alice@bitcoin" calls ∧
        (storePositions V Tables.init "alice@bitcoin" calls).card ≤ 4 := by
  intro V updates
  have hV : V.Lawful := Crates.ofTables_lawful (by decide) (by decide)
  have hupdates : ∀ u ∈ updates, u.handle = "alice@bitcoin" ∧ Serializable V u ∧
      u.zone.scriptPubkey = [1] := by
    intro u hu
    rcases List.mem_cons.1 hu with rfl | hu
    · exact ⟨rfl, ⟨_, rfl⟩, rfl⟩
    · rw [List.mem_singleton.1 hu]
      exact ⟨rfl, ⟨_, rfl⟩, rfl⟩
  have hinit : Reachable V Tables.init := ⟨[], rfl⟩
  refine ((flip_flop_free_iff hV (Crates.ofTables_comparesLex _ _) hinit hupdates
    (by intro z hz; cases hz)).1 rfl).2 ?_
  intro u hu v hv
  unfold RollsCommitmentBack
  revert u v
  decide

/-- A fresher proof without the commitment is stored, and replaced again when the
older proof with the commitment is redelivered. -/
theorem flip_flops :
    let committed := sampleZone 1 10 5 0
    let fresher := sampleZone 1 20 0 0
    let V := Crates.ofTables [sampleCert] [committed, fresher]
    let calls : List StoreCall :=
      [.updateHandles 0 [sampleRecord committed], .updateHandles 0 [sampleRecord fresher],
        .updateHandles 0 [sampleRecord committed]]
    V.Lawful ∧ V.ComparesLex heightRank ∧ committed.scriptPubkey = fresher.scriptPubkey ∧
      (∀ c ∈ calls,
        Redelivers "alice@bitcoin" [sampleRecord committed, sampleRecord fresher] c) ∧
      heldAt V Tables.init "alice@bitcoin" calls 1 = some committed ∧
      heldAt V Tables.init "alice@bitcoin" calls 2 = some fresher ∧
      heldAt V Tables.init "alice@bitcoin" calls 3 = some committed ∧
      ¬ NeverReturns V Tables.init "alice@bitcoin" calls := by
  intro committed fresher V calls
  have h₁ : heldAt V Tables.init "alice@bitcoin" calls 1 = some committed := by
    decide
  have h₂ : heldAt V Tables.init "alice@bitcoin" calls 2 = some fresher := by
    decide
  have h₃ : heldAt V Tables.init "alice@bitcoin" calls 3 = some committed := by
    decide
  refine ⟨Crates.ofTables_lawful (by decide) (by decide), Crates.ofTables_comparesLex _ _, rfl,
    ?_, h₁, h₂, h₃, ?_⟩
  · simp only [calls, List.forall_mem_cons, List.not_mem_nil, false_imp_iff, implies_true,
      and_true]
    exact ⟨redelivers_single (by simp) 0, redelivers_single (by simp) 0,
      redelivers_single (by simp) 0⟩
  · intro hnever
    refine hnever 1 2 3 (by omega) (by omega) (le_of_eq rfl) ?_ (h₃.trans h₁.symm)
    rw [h₁, h₂]
    decide

end Redeliveries

end CertRelay
