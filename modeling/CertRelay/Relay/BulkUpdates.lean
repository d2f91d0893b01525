import CertRelay.Relay.Deliveries
import CertRelay.Lib.Runs

/-!
# Bulk updates against updates in turn

`update_handles` compares every record of a batch with the zone stored before the call,
so the records of one handle do not see each other, and of those accepted the last one
stays.  Here a batch is compared with the calls that bring its records in turn, row by
row, up to the numbers of the write sequence.

`rowOver` is the step on one row: what the filter, the merge and the insert make of one
record over the row of its handle.

A batch that binds too many variables is refused whole, where its records in turn are not:
each of their calls binds one variable for the lookup and at most ten for the insert.

**Results.**
* `contentOf_deliver`: what a batch leaves under a handle, by `rowOver`;
* `contentOf_inTurn`: what records in turn leave under a handle, by `rowOver`;
* `tryDeliver_eq_ite`: a batch that does not fit changes nothing;
* `deliver_eq_inTurn_iff`: where SQLite takes it, a batch, and every prefix of it, leaves
  the rows that its records leave in turn exactly when no record overlooks an earlier one;
* `bulk_eq_in_turn_iff`: the same for any batch, the refused ones included;
* `nothingOverlooked_of_nodup`: no record overlooks another when no handle is repeated;
* `not_unmoved_of_new`: records in turn leave a row for a handle that had none.
-/

namespace CertRelay

section RowView

/-- A row, its number in the write sequence aside. -/
def Row.unnumbered (r : Row) : Row :=
  { r with
    syncSeq := 1
    syncSeq_pos := Nat.one_pos }

/-- The row of a handle, its number aside. -/
def contentOf (db : Tables) (handle : String) : Option Row :=
  (db.handles.find? handle).map Row.unnumbered

/-- Two stores have the same rows, their numbers aside. -/
def SameRows (db db' : Tables) : Prop :=
  ∀ handle, contentOf db handle = contentOf db' handle

variable (V : Crates)

/-- The records are brought in turn, each by a call of its own. -/
def inTurn (now : Nat) (db : Tables) (updates : List HandleRecord) : Tables :=
  updates.foldl (fun db u => tryDeliver V now db [u]) db

/-- The records of a batch that pass the filter. -/
def accepted (now : Nat) (db : Tables) (updates : List HandleRecord) : List HandleRecord :=
  updates.filter (fun u => accepts V now (storedZone V db u.handle) u)

/-- SQLite takes the lookup and the insert of a batch. -/
def Fits (now : Nat) (db : Tables) (updates : List HandleRecord) : Prop :=
  updates.length ≤ maxVariables ∧ 10 * (accepted V now db updates).length ≤ maxVariables

instance
    (now : Nat)
    (db : Tables)
    (updates : List HandleRecord) :
    Decidable (Fits V now db updates) :=
  inferInstanceAs (Decidable (_ ∧ _))

/-- The zone in a row, if it can be read. -/
def zoneIn (row : Option Row) : Option Zone :=
  row.bind fun r => (V.zoneFromSlice r.zoneData).toOption

/-- The `cert_data` value of an entry that is inserted over a row. -/
def certOver (row : Option Row) (e : Prepared) : Option Bytes :=
  if e.preserveCert then row.map Row.certData else some e.certData

/-- The row that a record is written as over the row of its handle, its number aside. -/
def rowOver (now : Nat) (row : Option Row) (u : HandleRecord) : Option Row := do
  let e ← (prepare V u).toOption
  let e ← admitUpdate V now (zoneIn V row) e u
  let certData ← certOver row e
  some
    { handle := e.handle
      space := e.space
      certData := certData
      zoneData := e.zoneData
      epochHeight := e.epochHeight
      offchainSeq := e.offchainSeq
      delegateOffchainSeq := e.delegateOffchainSeq
      syncSeq := 1
      zoneHash := zoneHash V e.zoneData
      updatedAt := now
      syncSeq_pos := Nat.one_pos }

/-- After `u`, the record `v` leaves the same row whether it is judged against the row
that `u` is written as or against the row that both found. -/
def DecidedAlike (now : Nat) (row : Option Row) (u v : HandleRecord) : Prop :=
  (rowOver V now (rowOver V now row u) v).or (rowOver V now row u) =
    (rowOver V now row v).or (rowOver V now row u)

instance
    (now : Nat)
    (row : Option Row)
    (u v : HandleRecord) :
    Decidable (DecidedAlike V now row u v) :=
  inferInstanceAs (Decidable (_ = _))

/-- The row that some records of a handle leave in turn over its row. -/
def rowInTurn (now : Nat) (row : Option Row) (us : List HandleRecord) : Option Row :=
  us.foldl (fun row u => (rowOver V now row u).or row) row

/-- The records of each handle end, in turn, with the row that they found. -/
def Unmoved (now : Nat) (db : Tables) (updates : List HandleRecord) : Prop :=
  ∀ handle, rowInTurn V now (contentOf db handle)
    (updates.filter (fun u => decide (u.handle = handle))) = contentOf db handle

/-- No record of a batch overlooks the one accepted before it for its handle. -/
def NothingOverlooked (now : Nat) (db : Tables) (updates : List HandleRecord) : Prop :=
  Runs.StepsMeet (fun done v => done ++ [v])
    (fun done v => ∀ u ∈ lastAccepted V now db v.handle done,
      DecidedAlike V now (db.handles.find? v.handle) u v)
    [] updates

instance
    (now : Nat)
    (db : Tables)
    (updates : List HandleRecord) :
    Decidable (NothingOverlooked V now db updates) :=
  inferInstanceAs (Decidable (Runs.StepsMeet _ _ _ _))

/-- No record of a batch overlooks another; or the batch is refused, and in turn its records
move nothing. -/
def LeavesAlike (now : Nat) (db : Tables) (updates : List HandleRecord) : Prop :=
  (Fits V now db updates ∧ NothingOverlooked V now db updates) ∨
    (¬ Fits V now db updates ∧ Unmoved V now db updates)

end RowView

section RowSpec

variable {V : Crates}

/-- The step on one row does not look at its number. -/
@[simp] theorem rowOver_unnumbered
    (now : Nat)
    (row : Option Row)
    (u : HandleRecord) :
    rowOver V now (row.map Row.unnumbered) u = rowOver V now row u := by
  cases row <;> rfl

/-- A record that can be prepared is written over a row exactly if it is accepted. -/
theorem isSome_rowOver
    (now : Nat)
    (row : Option Row)
    {u : HandleRecord}
    (hu : Serializable V u) :
    (rowOver V now row u).isSome = accepts V now (zoneIn V row) u := by
  obtain ⟨e, he⟩ := hu
  unfold rowOver
  rw [he]
  show (Option.bind (some e) _).isSome = _
  rw [Option.bind_some, admit_eq V now _ he]
  split_ifs with haccepts
  · have hcert : ∃ c, certOver row (entryFor V (zoneIn V row) e u) = some c := by
      unfold certOver
      cases row with
      | none =>
          obtain ⟨_, _, _, _, _, _, rfl⟩ := (prepare_eq_ok_iff V).1 he
          exact ⟨_, rfl⟩
      | some r =>
          split_ifs
          · exact ⟨r.certData, rfl⟩
          · exact ⟨_, rfl⟩
    obtain ⟨c, hc⟩ := hcert
    show (Option.bind (certOver row (entryFor V (zoneIn V row) e u)) _).isSome = _
    rw [hc, haccepts]
    rfl
  · rw [Bool.not_eq_true] at haccepts
    rw [haccepts]
    rfl

/-- The row of an accepted record is its row over the one found. -/
theorem rowOver_eq_of_writtenFor
    {now : Nat}
    {db : Tables}
    {u : HandleRecord}
    {r : Row}
    (haccepts : accepts V now (storedZone V db u.handle) u = true)
    (h : WrittenFor V now db u r) :
    rowOver V now (db.handles.find? u.handle) u = some r.unnumbered := by
  obtain ⟨⟨e, he, hr⟩, _, _⟩ := h
  have hhandle : (entryFor V (storedZone V db u.handle) e u).handle = u.handle := by
    rw [entryFor_handle, prepare_handle V he]
  have hcert : certOver (db.handles.find? u.handle)
      (entryFor V (storedZone V db u.handle) e u) = some r.certData := by
    unfold certOver
    split_ifs with hkeep
    · obtain ⟨old, hold, hdata⟩ := hr.keptCert hkeep
      rw [hhandle] at hold
      rw [hold, hdata]
      rfl
    · rw [hr.freshCert (by simpa using hkeep)]
  unfold rowOver
  rw [he]
  show Option.bind (admitUpdate V now (storedZone V db u.handle) e u) _ = _
  rw [admit_eq V now _ he, if_pos haccepts, Option.bind_some]
  show Option.bind (certOver _ _) _ = _
  rw [hcert, Option.bind_some]
  simp only [Row.unnumbered, hr.handle, hr.space, hr.zoneData, hr.epochHeight,
    hr.offchainSeq, hr.delegateOffchainSeq, hr.zoneHash, hr.updatedAt]

end RowSpec

section BulkSpec

variable {V : Crates}

/-- **What a batch leaves under a handle**: the row of its last accepted record, or what
was there. -/
theorem contentOf_deliver
    (hV : V.Lawful)
    (now : Nat)
    {db : Tables}
    (hdb : RowsEncoded V db)
    {updates : List HandleRecord}
    (hupdates : ∀ u ∈ updates, Serializable V u)
    (handle : String) :
    contentOf (deliver V now db updates) handle =
      (lastAccepted V now db handle updates).elim (contentOf db handle)
        (rowOver V now (db.handles.find? handle)) := by
  obtain ⟨⟨db', res⟩, hok⟩ := updateHandles_total hV now hdb hupdates
  have hrow := updateHandles_find? V hok handle
  rw [deliver_of_ok V hok]
  unfold contentOf
  cases hlast : lastAccepted V now db handle updates with
  | none =>
      rw [hlast] at hrow
      rw [hrow]
      rfl
  | some u =>
      rw [hlast] at hrow
      obtain ⟨r, hfind, hwritten⟩ := hrow
      obtain ⟨_, rfl, haccepts⟩ := lastAccepted_mem hlast
      rw [hfind]
      exact (rowOver_eq_of_writtenFor haccepts hwritten).symm

/-- **One record more in a batch** is judged against the row found before the batch. -/
theorem contentOf_deliver_concat
    (hV : V.Lawful)
    (now : Nat)
    {db : Tables}
    (hdb : RowsEncoded V db)
    {done : List HandleRecord}
    (hdone : ∀ u ∈ done, Serializable V u)
    {v : HandleRecord}
    (hv : Serializable V v)
    (handle : String) :
    contentOf (deliver V now db (done ++ [v])) handle =
      if v.handle = handle then
        (rowOver V now (db.handles.find? handle) v).or
          (contentOf (deliver V now db done) handle)
      else contentOf (deliver V now db done) handle := by
  have hall : ∀ u ∈ done ++ [v], Serializable V u :=
    List.forall_mem_append.2 ⟨hdone, List.forall_mem_singleton.2 hv⟩
  have hlast : lastAccepted V now db handle (done ++ [v]) =
      if decide (v.handle = handle) && accepts V now (storedZone V db handle) v then some v
      else lastAccepted V now db handle done :=
    Fallible.lastMatch_concat _ done v
  rw [contentOf_deliver hV now hdb hall, contentOf_deliver hV now hdb hdone, hlast]
  by_cases hhandle : v.handle = handle
  · rw [if_pos hhandle, decide_eq_true hhandle, Bool.true_and]
    have hsome := isSome_rowOver now (db.handles.find? handle) hv
    change _ = accepts V now (storedZone V db handle) v at hsome
    rw [← hsome]
    cases hrow : rowOver V now (db.handles.find? handle) v with
    | none =>
        rfl
    | some r =>
        exact hrow
  · rw [if_neg hhandle, decide_eq_false hhandle, Bool.false_and, if_neg Bool.false_ne_true]

end BulkSpec

section Refusals

variable {V : Crates}

/-- As many records are written as are accepted. -/
theorem length_toStore
    (now : Nat)
    (db : Tables)
    {updates : List HandleRecord}
    (hupdates : ∀ u ∈ updates, Serializable V u) :
    (toStore V now db updates).length = (accepted V now db updates).length := by
  unfold toStore accepted
  induction updates with
  | nil =>
      rfl
  | cons u rest ih =>
      have hrest := ih (fun v hv => hupdates v (List.mem_cons_of_mem _ hv))
      obtain ⟨e, he⟩ := hupdates u List.mem_cons_self
      have hsome : (survivor V now (storedZone V db) u).isSome =
          accepts V now (storedZone V db u.handle) u :=
        isSome_survivor V he
      rw [List.filterMap_cons, List.filter_cons, ← hsome]
      cases survivor V now (storedZone V db) u with
      | none =>
          exact hrest
      | some e' =>
          simpa using hrest

/-- **A batch that does not fit changes nothing.** -/
theorem tryDeliver_eq_ite
    (hV : V.Lawful)
    (now : Nat)
    {db : Tables}
    (hdb : RowsEncoded V db)
    {updates : List HandleRecord}
    (hupdates : ∀ u ∈ updates, Serializable V u) :
    tryDeliver V now db updates =
      if Fits V now db updates then deliver V now db updates else db := by
  obtain ⟨entries, hentries⟩ := Fallible.mapM_total hupdates
  have hlength : entries.length = updates.length :=
    (Fallible.mapM_eq_ok_iff.1 hentries).length_eq.symm
  obtain ⟨rows, _, hok⟩ := updateHandles_eq hV now hdb hupdates
  have hcommit := deliver_of_ok V hok
  rw [length_toStore now db hupdates] at hok
  unfold tryDeliver tryUpdateHandles
  rw [hentries, Fallible.ok_bind, hlength]
  by_cases hlookup : updates.length ≤ maxVariables
  · rw [bindVariables_eq_ok.2 hlookup, Fallible.ok_bind, hok, Fallible.ok_bind]
    dsimp only
    by_cases hinsert : 10 * (accepted V now db updates).length ≤ maxVariables
    · rw [if_pos ⟨hlookup, hinsert⟩, bindVariables_eq_ok.2 hinsert, hcommit,
        length_toStore now db hupdates]
      rfl
    · rw [if_neg (fun hfits => hinsert hfits.2),
        bindVariables_of_lt (Nat.lt_of_not_le hinsert)]
      rfl
  · rw [if_neg (fun hfits => hlookup hfits.1), bindVariables_of_lt (Nat.lt_of_not_le hlookup)]
    rfl

/-- A part of a batch that fits does. -/
theorem Fits.take
    {now : Nat}
    {db : Tables}
    {updates : List HandleRecord}
    (h : Fits V now db updates)
    (i : ℕ) :
    Fits V now db (updates.take i) := by
  have hsub : (updates.take i).Sublist updates := List.take_sublist i updates
  have haccepted := (hsub.filter (fun u => accepts V now (storedZone V db u.handle) u)).length_le
  exact ⟨hsub.length_le.trans h.1, (Nat.mul_le_mul_left 10 haccepted).trans h.2⟩

/-- One record always fits. -/
theorem tryDeliver_singleton
    (hV : V.Lawful)
    (now : Nat)
    {db : Tables}
    (hdb : RowsEncoded V db)
    {u : HandleRecord}
    (hu : Serializable V u) :
    tryDeliver V now db [u] = deliver V now db [u] := by
  have haccepted : (accepted V now db [u]).length ≤ 1 := List.length_filter_le _ _
  have hone : 10 * 1 ≤ maxVariables := by decide
  have hfits : Fits V now db [u] :=
    ⟨Nat.one_le_of_lt hone, (Nat.mul_le_mul_left 10 haccepted).trans hone⟩
  rw [tryDeliver_eq_ite hV now hdb (List.forall_mem_singleton.2 hu), if_pos hfits]

end Refusals

section InTurn

variable {V : Crates}

theorem inTurn_concat
    (now : Nat)
    (db : Tables)
    (done : List HandleRecord)
    (v : HandleRecord) :
    inTurn V now db (done ++ [v]) = tryDeliver V now (inTurn V now db done) [v] :=
  List.foldl_append

theorem rowsEncoded_inTurn
    {now : Nat}
    {db : Tables}
    (hdb : RowsEncoded V db)
    (updates : List HandleRecord) :
    RowsEncoded V (inTurn V now db updates) := by
  induction updates using List.reverseRecOn with
  | nil =>
      exact hdb
  | append_singleton done v ih =>
      rw [inTurn_concat]
      rcases tryDeliver_eq_or V now (inTurn V now db done) [v] with heq | heq
      · rw [heq]
        exact rowsEncoded_runCall V ih (.updateHandles now [v])
      · rw [heq]
        exact ih

/-- **One record more in turn** is judged against the row that the others left. -/
theorem contentOf_inTurn_concat
    (hV : V.Lawful)
    (now : Nat)
    {db : Tables}
    (hdb : RowsEncoded V db)
    (done : List HandleRecord)
    {v : HandleRecord}
    (hv : Serializable V v)
    (handle : String) :
    contentOf (inTurn V now db (done ++ [v])) handle =
      if v.handle = handle then
        (rowOver V now (contentOf (inTurn V now db done) handle) v).or
          (contentOf (inTurn V now db done) handle)
      else contentOf (inTurn V now db done) handle := by
  have henc : RowsEncoded V (inTurn V now db done) := rowsEncoded_inTurn hdb done
  have hstep : contentOf (deliver V now (inTurn V now db done) ([] ++ [v])) handle = _ :=
    contentOf_deliver_concat hV now henc (List.forall_mem_nil _) hv handle
  rw [inTurn_concat, tryDeliver_singleton hV now henc hv]
  unfold contentOf at hstep ⊢
  rw [rowOver_unnumbered]
  exact hstep

/-- **What records in turn leave under a handle**: those of it, one over the other. -/
theorem contentOf_inTurn
    (hV : V.Lawful)
    (now : Nat)
    {db : Tables}
    (hdb : RowsEncoded V db)
    {updates : List HandleRecord}
    (hupdates : ∀ u ∈ updates, Serializable V u)
    (handle : String) :
    contentOf (inTurn V now db updates) handle =
      rowInTurn V now (contentOf db handle)
        (updates.filter (fun u => decide (u.handle = handle))) := by
  induction updates using List.reverseRecOn with
  | nil =>
      rfl
  | append_singleton done v ih =>
      have hdone := (List.forall_mem_append.1 hupdates).1
      have hv : Serializable V v := hupdates v (by simp)
      rw [contentOf_inTurn_concat hV now hdb done hv, ih hdone, List.filter_append,
        List.filter_cons, List.filter_nil]
      unfold rowInTurn
      by_cases hhandle : v.handle = handle
      · rw [if_pos hhandle, if_pos (decide_eq_true hhandle), List.foldl_append]
        rfl
      · rw [if_neg hhandle, if_neg (by simpa using hhandle), List.append_nil]

/-- **The step.**  Where a batch agrees with its records in turn, it agrees after one
more record exactly if this one is decided alike both ways. -/
theorem sameRows_concat_iff
    (hV : V.Lawful)
    {now : Nat}
    {db : Tables}
    (hdb : RowsEncoded V db)
    {done : List HandleRecord}
    (hdone : ∀ u ∈ done, Serializable V u)
    (hsame : SameRows (deliver V now db done) (inTurn V now db done))
    {v : HandleRecord}
    (hv : Serializable V v) :
    SameRows (deliver V now db (done ++ [v])) (inTurn V now db (done ++ [v])) ↔
      ∀ u ∈ lastAccepted V now db v.handle done,
        DecidedAlike V now (db.handles.find? v.handle) u v := by
  have hother : SameRows (deliver V now db (done ++ [v])) (inTurn V now db (done ++ [v])) ↔
      contentOf (deliver V now db (done ++ [v])) v.handle =
        contentOf (inTurn V now db (done ++ [v])) v.handle := by
    constructor
    · intro h
      exact h v.handle
    · intro h handle
      by_cases hhandle : v.handle = handle
      · rw [← hhandle]
        exact h
      · rw [contentOf_deliver_concat hV now hdb hdone hv,
          contentOf_inTurn_concat hV now hdb done hv, if_neg hhandle, if_neg hhandle]
        exact hsame handle
  rw [hother, contentOf_deliver_concat hV now hdb hdone hv,
    contentOf_inTurn_concat hV now hdb done hv, if_pos rfl, if_pos rfl, ← hsame v.handle,
    contentOf_deliver hV now hdb hdone]
  cases lastAccepted V now db v.handle done with
  | none =>
      -- both judge the record against the row that was there
      simp [contentOf]
  | some u =>
      simp only [Option.mem_some_iff, forall_eq']
      exact eq_comm

/-- **Where SQLite takes a batch**, it leaves what its records leave in turn, up to the
numbers of the write sequence and at every prefix, exactly when no record of it overlooks the
one accepted before it for its handle. -/
theorem deliver_eq_inTurn_iff
    (hV : V.Lawful)
    (now : Nat)
    {db : Tables}
    (hdb : RowsEncoded V db)
    {updates : List HandleRecord}
    (hupdates : ∀ u ∈ updates, Serializable V u) :
    (∀ i, SameRows (deliver V now db (updates.take i)) (inTurn V now db (updates.take i))) ↔
      NothingOverlooked V now db updates := by
  have hrun := Runs.good_iff_of_mem
    (I := fun done => (∀ u ∈ done, Serializable V u) ∧
      SameRows (deliver V now db done) (inTurn V now db done))
    (fun done hdone => hdone.2)
    (fun done v hv hdone => (sameRows_concat_iff hV hdb hdone.1 hdone.2 hv).1)
    (fun done v hv hdone hcond =>
      ⟨List.forall_mem_append.2 ⟨hdone.1, List.forall_mem_singleton.2 hv⟩,
        (sameRows_concat_iff hV hdb hdone.1 hdone.2 hv).2 hcond⟩)
    hupdates ⟨List.forall_mem_nil _, fun _ => rfl⟩
  simp only [Runs.foldl_concat] at hrun
  exact hrun

/-- **A batch leaves what its records leave in turn**, up to the numbers of the write
sequence and at every prefix, exactly when every prefix that fits has no record that
overlooks the one accepted before it for its handle, and the records of every prefix that
does not move nothing in turn. -/
theorem bulk_eq_in_turn_iff
    (hV : V.Lawful)
    (now : Nat)
    {db : Tables}
    (hdb : RowsEncoded V db)
    {updates : List HandleRecord}
    (hupdates : ∀ u ∈ updates, Serializable V u) :
    (∀ i, SameRows (tryDeliver V now db (updates.take i))
      (inTurn V now db (updates.take i))) ↔
      ∀ i, LeavesAlike V now db (updates.take i) := by
  have htake : ∀ i, ∀ u ∈ updates.take i, Serializable V u :=
    fun i u hu => hupdates u (List.mem_of_mem_take hu)
  have hcall : ∀ i, tryDeliver V now db (updates.take i) =
      if Fits V now db (updates.take i) then deliver V now db (updates.take i) else db :=
    fun i => tryDeliver_eq_ite hV now hdb (htake i)
  constructor
  · intro hsame i
    by_cases hfits : Fits V now db (updates.take i)
    · refine Or.inl ⟨hfits, (deliver_eq_inTurn_iff hV now hdb (htake i)).1 (fun j => ?_)⟩
      have hpart := hfits.take j
      have hprefix := hsame (min j i)
      rw [List.take_take] at hpart ⊢
      rw [hcall, if_pos hpart] at hprefix
      exact hprefix
    · refine Or.inr ⟨hfits, fun handle => ?_⟩
      have hrefused := hsame i handle
      rw [hcall, if_neg hfits, contentOf_inTurn hV now hdb (htake i)] at hrefused
      exact hrefused.symm
  · intro hcond i
    rw [hcall]
    rcases hcond i with ⟨hfits, hnone⟩ | ⟨hrefused, hunmoved⟩
    · have hprefixes := (deliver_eq_inTurn_iff hV now hdb (htake i)).2 hnone
      have hwhole := hprefixes i
      rw [List.take_take, min_self] at hwhole
      rw [if_pos hfits]
      exact hwhole
    · rw [if_neg hrefused]
      intro handle
      rw [contentOf_inTurn hV now hdb (htake i)]
      exact (hunmoved handle).symm

/-- A row that is there stays. -/
theorem isSome_rowInTurn
    (now : Nat)
    {row : Option Row}
    (h : row.isSome)
    (us : List HandleRecord) :
    (rowInTurn V now row us).isSome := by
  unfold rowInTurn
  induction us generalizing row with
  | nil =>
      exact h
  | cons u rest ih =>
      refine ih ?_
      rw [Option.isSome_or, h, Bool.or_true]

/-- **Records in turn leave a row for a handle that had none**, as soon as one of them has
sequence numbers that pass. -/
theorem not_unmoved_of_new
    {now : Nat}
    {db : Tables}
    {updates : List HandleRecord}
    {u : HandleRecord}
    (hu : u ∈ updates)
    (hserial : Serializable V u)
    (hnew : db.handles.find? u.handle = none)
    (haccepts : accepts V now none u = true) :
    ¬ Unmoved V now db updates := by
  intro hunmoved
  have hmem : u ∈ updates.filter (fun v => decide (v.handle = u.handle)) :=
    List.mem_filter.2 ⟨hu, decide_eq_true rfl⟩
  have hnone : contentOf db u.handle = none := by
    rw [contentOf, hnew]
    rfl
  have hstays := hunmoved u.handle
  rw [hnone] at hstays
  obtain ⟨before, after, hsplit⟩ := List.append_of_mem hmem
  -- the record leaves a row if those before it have left none
  have hwritten : ((rowOver V now (rowInTurn V now none before) u).or
      (rowInTurn V now none before)).isSome := by
    rw [Option.isSome_or]
    cases rowInTurn V now none before with
    | none =>
        rw [isSome_rowOver now none hserial]
        exact Bool.or_eq_true_iff.2 (Or.inl haccepts)
    | some r =>
        exact Bool.or_true _
  have hleft := isSome_rowInTurn (V := V) now hwritten after
  rw [hsplit] at hstays
  unfold rowInTurn at hstays hleft
  rw [List.foldl_append, List.foldl_cons] at hstays
  rw [hstays] at hleft
  cases hleft

/-- A batch that fits and has no record that overlooks another leaves all alike. -/
theorem leavesAlike_take
    {now : Nat}
    {db : Tables}
    {updates : List HandleRecord}
    (hfits : Fits V now db updates)
    (h : NothingOverlooked V now db updates)
    (i : ℕ) :
    LeavesAlike V now db (updates.take i) :=
  Or.inl ⟨hfits.take i, Runs.StepsMeet.take h i⟩

/-- Records of distinct handles do not overlook each other. -/
theorem nothingOverlooked_of_nodup
    (V : Crates)
    (now : Nat)
    (db : Tables)
    {updates : List HandleRecord}
    (h : (updates.map HandleRecord.handle).Nodup) :
    NothingOverlooked V now db updates := by
  have hgen : ∀ done : List HandleRecord, ((done ++ updates).map HandleRecord.handle).Nodup →
      Runs.StepsMeet (fun done v => done ++ [v])
        (fun done v => ∀ u ∈ lastAccepted V now db v.handle done,
          DecidedAlike V now (db.handles.find? v.handle) u v)
        done updates := by
    clear h
    induction updates with
    | nil =>
        intro _ _
        trivial
    | cons v rest ih =>
        intro done hnodup
        refine ⟨?_, ih (done ++ [v]) (by simpa using hnodup)⟩
        intro u hu
        obtain ⟨hmem, hhandle, _⟩ := lastAccepted_mem hu
        rw [List.map_append, List.nodup_append] at hnodup
        exact absurd hhandle (hnodup.2.2 _ (List.mem_map_of_mem hmem) _ (by simp))
  exact hgen [] h

/-- Older records of a handle, then newer ones of it: the newer ones stay either way. -/
theorem bulk_eq_in_turn_iff_sample :
    let V := Crates.ofTables [sampleCert] [sampleZone 1 1 0 0, sampleZone 2 1 0 0]
    let updates := [sampleRecord (sampleZone 1 1 0 0), sampleRecord (sampleZone 2 1 0 0)]
    ∀ i, SameRows (tryDeliver V 0 Tables.init (updates.take i))
      (inTurn V 0 Tables.init (updates.take i)) := by
  intro V updates
  have hV : V.Lawful := Crates.ofTables_lawful (by decide) (by decide)
  have hupdates : ∀ u ∈ updates, Serializable V u := by
    intro u hu
    rcases List.mem_cons.1 hu with rfl | hu
    · exact ⟨_, rfl⟩
    · rw [List.mem_singleton.1 hu]
      exact ⟨_, rfl⟩
  exact (bulk_eq_in_turn_iff hV 0 (rowsEncoded_init V) hupdates).2
    (leavesAlike_take (by decide +kernel) (by decide +kernel))

/-- A root record, with its receipt or without. -/
def sampleRootRecord (receipt : Option Bytes) : HandleRecord where
  cert := ⟨0, ⟨"@bitcoin"⟩, .root receipt⟩
  zone := { sampleZone 1 1 1 0 with canonical := ⟨"@bitcoin"⟩ }
  epochHeight := 1
  offchainSeq := 1
  delegateOffchainSeq := 0

/-- In one call older records overwrite the newer ones beside them, and a certificate
without its receipt the one that has it; in turn neither does. -/
theorem bulk_overlooks :
    let newer := sampleRecord (sampleZone 2 1 0 0)
    let older := sampleRecord (sampleZone 1 1 0 0)
    let full := sampleRootRecord (some [7])
    let bare := sampleRootRecord none
    let V := Crates.ofTables [sampleCert, full.cert, bare.cert]
      [newer.zone, older.zone, full.zone]
    ¬ SameRows (tryDeliver V 0 Tables.init [newer, older])
        (inTurn V 0 Tables.init [newer, older]) ∧
      storedZone V (tryDeliver V 0 Tables.init [newer, older]) "alice@bitcoin" =
        some older.zone ∧
      ¬ SameRows (tryDeliver V 0 Tables.init [full, bare])
        (inTurn V 0 Tables.init [full, bare]) := by
  intro newer older full bare V
  refine ⟨?_, by decide +kernel, ?_⟩
  · intro h
    exact absurd (h "alice@bitcoin") (by decide +kernel)
  · intro h
    exact absurd (h "@bitcoin") (by decide +kernel)

end InTurn

end CertRelay
