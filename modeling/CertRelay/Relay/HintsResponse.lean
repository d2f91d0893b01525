import CertRelay.Lib.Grouping
import CertRelay.Client.Hints
import CertRelay.Relay.HandleMessage
import CertRelay.Relay.QueryParams
import Mathlib.Data.String.Basic

/-!
# The response to a request for hints

For each space that is asked for and stored the relay answers with the epoch and the
sequences of its row, and with the handles under it that are asked for and stored, by epoch.
Rows are matched to a space by the end of their handle.

The order in which SQLite returns the rows is open.

**Results.**
* `endsWith_iff`: a handle ends with a space exactly if it is under it;
* `perm_entries_foldl`, `nodup_epochs_foldl`: what grouping by epoch keeps;
* `hints_partition`: the response lists each handle once, under its space and epoch.
-/

namespace CertRelay
namespace HandlerHints

open Hints

section Response

/-- `starts_with("@") || starts_with("#")`. -/
def isSpace (handle : String) : Bool :=
  match handle.toList with
  | c :: _ => isSeparator c
  | [] => false

/-- `str::ends_with`. -/
def endsWith (handle tail : String) : Bool :=
  tail.toList.isSuffixOf handle.toList

/-- Add a row to the group of its epoch, which is made if there is none. -/
def pushRow (epochs : List EpochResult) (row : HandleHintRow) : List EpochResult :=
  let item : HandleHint := ⟨UInt64.ofNat row.offchainSeq, row.handle⟩
  match epochs with
  | [] => [⟨UInt32.ofNat row.epochHeight, [item]⟩]
  | x :: rest =>
      if x.epoch = UInt32.ofNat row.epochHeight then { x with res := x.res ++ [item] } :: rest
      else x :: pushRow rest row

/-- The rows under a space. -/
def rowsUnder (allRows : List HandleHintRow) (space : String) : List HandleHintRow :=
  allRows.filter (fun r => endsWith r.handle space && r.handle != space)

/-- The hint of a space, if it has a row. -/
def spaceHint (allRows : List HandleHintRow) (space : String) : Option SpaceHint :=
  (allRows.find? (fun r => decide (r.handle = space))).map fun spaceRow =>
    { epochTip := UInt32.ofNat spaceRow.epochHeight
      name := space
      seq := UInt64.ofNat spaceRow.offchainSeq
      delegateSeq := UInt64.ofNat spaceRow.delegateOffchainSeq
      epochs := (rowsUnder allRows space).foldl pushRow [] }

/-- `Handler::hints`. -/
def hints (order : HashOrder HandleHintRow) (newestAnchor : UInt32) (db : Tables)
    (handles : List String) : Except String HintsResponse :=
  let handles := handles.insertionSort (· ≤ ·)
  match Grouping.firstRepeated handles with
  | some handle => .error ("duplicate handle: " ++ handle)
  | none =>
      let allRows := order.arrange (getHandleHints db handles)
      .ok ⟨newestAnchor, (handles.filter isSpace).filterMap (spaceHint allRows)⟩

end Response

section WellFormed

/-- A handle has one separator: it is a space, or a handle under one. -/
def WellFormed (handle : String) : Prop :=
  handle.toList.countP isSeparator = 1

instance (handle : String) : Decidable (WellFormed handle) :=
  inferInstanceAs (Decidable (_ = 1))

/-- The space of a handle begins at its first separator. -/
theorem spaceNameOf_eq
    {handle : String}
    {label rest : List Char}
    {c : Char}
    (hhandle : handle.toList = label ++ c :: rest)
    (hlabel : ∀ x ∈ label, isSeparator x = false)
    (hc : isSeparator c = true) :
    spaceNameOf handle = String.ofList (c :: rest) := by
  have hkeep : ∀ x, (x != '@' && x != '#') = !isSeparator x := by
    intro x
    unfold isSeparator
    rw [Bool.not_or]
    rfl
  have hdrop : handle.toList.dropWhile (fun x => x != '@' && x != '#') = c :: rest := by
    rw [hhandle, List.dropWhile_append_of_pos (fun x hx => by rw [hkeep, hlabel x hx]; rfl),
      List.dropWhile_cons_of_neg (by rw [hkeep, hc]; simp)]
  unfold spaceNameOf
  rw [hdrop]

theorem isSpace_cons
    {handle : String}
    (h : isSpace handle = true) :
    ∃ c rest, handle.toList = c :: rest ∧ isSeparator c = true := by
  unfold isSpace at h
  cases hlist : handle.toList with
  | nil =>
      rw [hlist] at h
      cases h
  | cons c rest =>
      rw [hlist] at h
      exact ⟨c, rest, rfl, h⟩

/-- A well-formed handle is a label and its space. -/
theorem WellFormed.split
    {handle : String}
    (h : WellFormed handle) :
    ∃ label c rest, handle.toList = label ++ c :: rest ∧ isSeparator c = true ∧
      spaceNameOf handle = String.ofList (c :: rest) := by
  have hpos : 0 < handle.toList.countP isSeparator := by
    rw [show handle.toList.countP isSeparator = 1 from h]
    exact Nat.one_pos
  obtain ⟨x, hx, hsep⟩ := List.countP_pos_iff.1 hpos
  obtain ⟨c, label, rest, hlabel, hc, hlist, _⟩ := List.exists_of_eraseP hx hsep
  exact ⟨label, c, rest, hlist, hc,
    spaceNameOf_eq hlist (fun y hy => Bool.eq_false_iff.2 (hlabel y hy)) hc⟩

/-- A space is its own space. -/
theorem isSpace_iff
    {handle : String}
    (h : WellFormed handle) :
    isSpace handle = true ↔ spaceNameOf handle = handle := by
  constructor
  · intro hs
    obtain ⟨c, rest, hlist, hc⟩ := isSpace_cons hs
    rw [spaceNameOf_eq (hlist.trans (List.nil_append _).symm) (by simp) hc, ← hlist,
      String.ofList_toList]
  · intro hself
    obtain ⟨label, c, rest, _, hc, hspace⟩ := h.split
    rw [hself] at hspace
    unfold isSpace
    rw [hspace, String.toList_ofList]
    exact hc

/-- **A handle ends with a space exactly if it is under it.** -/
theorem endsWith_iff
    {handle space : String}
    (hhandle : WellFormed handle)
    (hspace : WellFormed space)
    (hs : isSpace space = true) :
    endsWith handle space = true ↔ spaceNameOf handle = space := by
  constructor
  · intro hend
    obtain ⟨label, hlist⟩ := List.isSuffixOf_iff_suffix.1 hend
    obtain ⟨c, rest, hspaceList, hc⟩ := isSpace_cons hs
    have hcount : label.countP isSeparator = 0 := by
      have htotal := congrArg (List.countP isSeparator) hlist
      rw [List.countP_append, show space.toList.countP isSeparator = 1 from hspace,
        show handle.toList.countP isSeparator = 1 from hhandle] at htotal
      omega
    have hlabel : ∀ x ∈ label, isSeparator x = false :=
      fun x hx => Bool.eq_false_iff.2 (List.countP_eq_zero.1 hcount x hx)
    rw [spaceNameOf_eq (hlist.symm.trans (congrArg (label ++ ·) hspaceList)) hlabel hc,
      ← hspaceList, String.ofList_toList]
  · intro hself
    obtain ⟨label, c, rest, hlist, _, hname⟩ := hhandle.split
    rw [hself] at hname
    refine List.isSuffixOf_iff_suffix.2 ⟨label, ?_⟩
    rw [hname, String.toList_ofList, hlist]

end WellFormed

section Epochs

/-- The handles of some groups, each with its epoch. -/
def epochEntries (epochs : List EpochResult) : List (UInt32 × HandleHint) :=
  epochs.flatMap (fun x => x.res.map (fun h => (x.epoch, h)))

/-- What a row is listed as. -/
def rowEntry (row : HandleHintRow) : UInt32 × HandleHint :=
  (UInt32.ofNat row.epochHeight, ⟨UInt64.ofNat row.offchainSeq, row.handle⟩)

theorem perm_entries_pushRow
    (epochs : List EpochResult)
    (row : HandleHintRow) :
    (epochEntries (pushRow epochs row)).Perm (rowEntry row :: epochEntries epochs) := by
  induction epochs with
  | nil =>
      exact List.Perm.refl _
  | cons x rest ih =>
      unfold pushRow
      dsimp only
      split_ifs with hx
      · unfold epochEntries
        rw [List.flatMap_cons, List.flatMap_cons, List.map_append, List.append_assoc, hx]
        exact List.perm_middle
      · unfold epochEntries at ih ⊢
        rw [List.flatMap_cons, List.flatMap_cons]
        exact (ih.append_left _).trans List.perm_middle

theorem epochs_pushRow
    (epochs : List EpochResult)
    (row : HandleHintRow) :
    (pushRow epochs row).map EpochResult.epoch =
      if UInt32.ofNat row.epochHeight ∈ epochs.map EpochResult.epoch then
        epochs.map EpochResult.epoch
      else epochs.map EpochResult.epoch ++ [UInt32.ofNat row.epochHeight] := by
  induction epochs with
  | nil =>
      rfl
  | cons x rest ih =>
      unfold pushRow
      dsimp only
      by_cases hx : x.epoch = UInt32.ofNat row.epochHeight
      · rw [if_pos hx, if_pos (by simp [hx])]
        rfl
      · rw [if_neg hx, List.map_cons, ih, List.map_cons]
        have hmem : UInt32.ofNat row.epochHeight ∈ x.epoch :: rest.map EpochResult.epoch ↔
            UInt32.ofNat row.epochHeight ∈ rest.map EpochResult.epoch := by
          rw [List.mem_cons]
          exact or_iff_right (fun heq => hx heq.symm)
        simp only [hmem]
        split_ifs <;> rfl

/-- Grouping by epoch keeps every row once. -/
theorem perm_entries_foldl
    (rows : List HandleHintRow)
    (epochs : List EpochResult) :
    (epochEntries (rows.foldl pushRow epochs)).Perm
      (rows.map rowEntry ++ epochEntries epochs) := by
  induction rows generalizing epochs with
  | nil =>
      exact List.Perm.refl _
  | cons row rows ih =>
      rw [List.foldl_cons, List.map_cons]
      exact (ih _).trans (((perm_entries_pushRow epochs row).append_left _).trans
        List.perm_middle)

theorem nodup_epochs_foldl
    (rows : List HandleHintRow)
    {epochs : List EpochResult}
    (h : (epochs.map EpochResult.epoch).Nodup) :
    ((rows.foldl pushRow epochs).map EpochResult.epoch).Nodup := by
  induction rows generalizing epochs with
  | nil =>
      exact h
  | cons row rows ih =>
      refine ih ?_
      rw [epochs_pushRow]
      split_ifs with hmem
      · exact h
      · rw [← List.concat_eq_append]
        exact h.concat hmem

end Epochs

section Partition

/-- The handles in a response, each with its space and its epoch. -/
def entries (response : HintsResponse) : List (String × UInt32 × HandleHint) :=
  response.hints.flatMap (fun s => (epochEntries s.epochs).map (fun e => (s.name, e)))

/-- A space is asked for and stored. -/
def Answered (db : Tables) (handles : List String) (space : String) : Prop :=
  space ∈ handles ∧ isSpace space = true ∧ (db.handles.find? space).isSome = true

instance (db : Tables) (handles : List String) (space : String) :
    Decidable (Answered db handles space) :=
  inferInstanceAs (Decidable (_ ∧ _ ∧ _))

/-- The rows that are asked for under an answered space. -/
def rowsListed (db : Tables) (handles : List String) : List Row :=
  db.handles.rows.filter (fun r => decide (r.handle ∈ handles ∧ isSpace r.handle = false ∧
    Answered db handles (spaceNameOf r.handle)))

/-- A response has the spaces that are answered, each with the columns of its row, and under
them, in groups of distinct epochs, the rows that are listed, each once. -/
structure Partitions (db : Tables) (handles : List String) (response : HintsResponse) :
    Prop where
  spaces : (response.hints.map SpaceHint.name).Perm
    (handles.filter (fun h => decide (Answered db handles h)))
  columns : ∀ s ∈ response.hints, ∃ row, db.handles.find? s.name = some row ∧
    s.epochTip = UInt32.ofNat row.epochHeight ∧ s.seq = UInt64.ofNat row.offchainSeq ∧
    s.delegateSeq = UInt64.ofNat row.delegateOffchainSeq
  handles : (entries response).Perm
    ((rowsListed db handles).map (fun r => (spaceNameOf r.handle, rowEntry r.hint)))
  epochs : ∀ s ∈ response.hints, (s.epochs.map EpochResult.epoch).Nodup

/-- The hint of a space from its row. -/
def hintOfRow (allRows : List HandleHintRow) (space : String) (row : Row) : SpaceHint where
  epochTip := UInt32.ofNat row.epochHeight
  name := space
  seq := UInt64.ofNat row.offchainSeq
  delegateSeq := UInt64.ofNat row.delegateOffchainSeq
  epochs := (rowsUnder allRows space).foldl pushRow []

variable {db : Tables} {handles : List String} {allRows : List HandleHintRow}

theorem mem_rows
    (hrows : allRows.Perm (getHandleHints db handles))
    {r : HandleHintRow} :
    r ∈ allRows ↔ ∃ row ∈ db.handles.rows, row.handle ∈ handles ∧ row.hint = r := by
  unfold getHandleHints at hrows
  rw [hrows.mem_iff, List.mem_map]
  simp only [List.mem_filter, decide_eq_true_eq, and_assoc]

/-- The hint of a space that is asked for is that of its row. -/
theorem spaceHint_eq
    (hrows : allRows.Perm (getHandleHints db handles))
    {space : String}
    (hspace : space ∈ handles) :
    spaceHint allRows space = (db.handles.find? space).map (hintOfRow allRows space) := by
  have hfind : allRows.find? (fun r => decide (r.handle = space)) =
      (db.handles.find? space).map Row.hint := by
    cases hrow : db.handles.find? space with
    | none =>
        refine List.find?_eq_none.2 (fun r hr => ?_)
        obtain ⟨row, hmem, _, rfl⟩ := (mem_rows hrows).1 hr
        have hne := KeyedTable.find?_eq_none_iff.1 hrow row hmem
        exact fun heq => hne (of_decide_eq_true heq)
    | some row =>
        obtain ⟨hmem, hkey⟩ := KeyedTable.find?_eq_some_iff.1 hrow
        have hin : row.hint ∈ allRows :=
          (mem_rows hrows).2 ⟨row, hmem, hkey.symm ▸ hspace, rfl⟩
        cases hfound : allRows.find? (fun r => decide (r.handle = space)) with
        | none =>
            have hno := List.find?_eq_none.1 hfound _ hin
            exact absurd (decide_eq_true hkey) hno
        | some r =>
            obtain ⟨row', hmem', _, rfl⟩ := (mem_rows hrows).1 (List.mem_of_find?_eq_some hfound)
            have hsame := List.find?_some hfound
            have hkey' : row'.handle = space := of_decide_eq_true hsame
            rw [db.handles.eq_of_key_eq hmem' hmem (hkey'.trans hkey.symm)]
            rfl
  unfold spaceHint
  rw [hfind, Option.map_map]
  rfl

/-- The hints of a response, by the rows of their spaces. -/
theorem filterMap_spaceHint
    (hrows : allRows.Perm (getHandleHints db handles)) :
    (handles.filter isSpace).filterMap (spaceHint allRows) =
      (handles.filter isSpace).filterMap (fun space =>
        (db.handles.find? space).map (hintOfRow allRows space)) :=
  List.filterMap_congr (fun _ hspace => spaceHint_eq hrows (List.mem_filter.1 hspace).1)

theorem names_spaceHint
    (hrows : allRows.Perm (getHandleHints db handles)) :
    ((handles.filter isSpace).filterMap (spaceHint allRows)).map SpaceHint.name =
      handles.filter (fun h => decide (Answered db handles h)) := by
  have hguard : ∀ space, ((db.handles.find? space).map (hintOfRow allRows space)).map
      SpaceHint.name = Option.guard (fun space => (db.handles.find? space).isSome) space := by
    intro space
    cases hrow : db.handles.find? space with
    | none =>
        simp [Option.guard, hrow]
    | some row =>
        simp [Option.guard, hrow, hintOfRow]
  rw [filterMap_spaceHint hrows, List.map_filterMap]
  simp only [hguard]
  rw [List.filterMap_eq_filter, List.filter_filter]
  refine List.filter_congr (fun h hmem => ?_)
  rw [Bool.eq_iff_iff, Bool.and_eq_true, decide_eq_true_iff]
  exact ⟨fun hboth => ⟨hmem, hboth.2, hboth.1⟩, fun hans => ⟨hans.2.2, hans.2.1⟩⟩

theorem mem_spaceHint
    (hrows : allRows.Perm (getHandleHints db handles))
    {s : SpaceHint}
    (hs : s ∈ (handles.filter isSpace).filterMap (spaceHint allRows)) :
    ∃ row, db.handles.find? s.name = some row ∧ s = hintOfRow allRows s.name row := by
  rw [filterMap_spaceHint hrows] at hs
  obtain ⟨space, _, hspace⟩ := List.mem_filterMap.1 hs
  obtain ⟨row, hrow, rfl⟩ := Option.map_eq_some_iff.1 hspace
  exact ⟨row, hrow, rfl⟩

/-- The rows under a space are those of which it is the space. -/
theorem rowsUnder_eq
    (hwell : ∀ h ∈ handles, WellFormed h)
    (hrows : allRows.Perm (getHandleHints db handles))
    {space : String}
    (hmem : space ∈ handles)
    (hspace : isSpace space = true) :
    rowsUnder allRows space = (allRows.filter (fun r => !isSpace r.handle)).filter
      (fun r => decide (spaceNameOf r.handle = space)) := by
  unfold rowsUnder
  rw [List.filter_filter]
  refine List.filter_congr (fun r hr => ?_)
  obtain ⟨row, _, hin, rfl⟩ := (mem_rows hrows).1 hr
  have hrow : WellFormed row.hint.handle := hwell _ hin
  rw [Bool.eq_iff_iff, Bool.and_eq_true, Bool.and_eq_true, decide_eq_true_iff,
    endsWith_iff hrow (hwell _ hmem) hspace, bne_iff_ne, Bool.not_eq_true']
  refine and_congr_right (fun hunder => ?_)
  rw [← Bool.not_eq_true, isSpace_iff hrow, hunder]
  exact not_congr eq_comm

/-- What the rows under the answered spaces are listed as. -/
theorem perm_rowsUnder
    (hnodup : handles.Nodup)
    (hwell : ∀ h ∈ handles, WellFormed h)
    (hrows : allRows.Perm (getHandleHints db handles)) :
    ((handles.filter (fun h => decide (Answered db handles h))).flatMap (fun space =>
      (rowsUnder allRows space).map (fun r => (space, rowEntry r)))).Perm
      ((rowsListed db handles).map (fun r => (spaceNameOf r.handle, rowEntry r.hint))) := by
  have hgroups : (handles.filter (fun h => decide (Answered db handles h))).flatMap
      (fun space => (rowsUnder allRows space).map (fun r => (space, rowEntry r))) =
      ((handles.filter (fun h => decide (Answered db handles h))).flatMap (fun space =>
        (allRows.filter (fun r => !isSpace r.handle)).filter
          (fun r => decide (spaceNameOf r.handle = space)))).map
        (fun r => (spaceNameOf r.handle, rowEntry r)) := by
    rw [List.map_flatMap]
    refine List.flatMap_congr (fun space hspace => ?_)
    obtain ⟨hmem, hs, _⟩ := of_decide_eq_true (List.mem_filter.1 hspace).2
    rw [rowsUnder_eq hwell hrows hmem hs]
    refine List.map_congr_left (fun r hr => ?_)
    rw [of_decide_eq_true (List.mem_filter.1 hr).2]
  have hlisted : ((getHandleHints db handles).filter (fun r => !isSpace r.handle)).filter
      (fun r => decide (spaceNameOf r.handle ∈
        handles.filter (fun h => decide (Answered db handles h)))) =
      (rowsListed db handles).map Row.hint := by
    unfold getHandleHints rowsListed
    rw [List.filter_map, List.filter_map, List.filter_filter, List.filter_filter]
    refine congrArg _ (List.filter_congr (fun r _ => ?_))
    rw [Bool.eq_iff_iff]
    simp only [Function.comp_apply, Bool.and_eq_true, Bool.not_eq_true', decide_eq_true_eq,
      List.mem_filter]
    constructor
    · rintro ⟨⟨⟨_, hans⟩, hsub⟩, hin⟩
      exact ⟨hin, hsub, hans⟩
    · rintro ⟨hin, hsub, hans⟩
      exact ⟨⟨⟨hans.1, hans⟩, hsub⟩, hin⟩
  have hperm := Grouping.flatMap_filter_perm (fun r : HandleHintRow => spaceNameOf r.handle)
    (hnodup.filter (fun h => decide (Answered db handles h)))
    (allRows.filter (fun r => !isSpace r.handle))
  have hsame := (hrows.filter (fun r => !isSpace r.handle)).filter (fun r =>
    decide (spaceNameOf r.handle ∈ handles.filter (fun h => decide (Answered db handles h))))
  rw [hlisted] at hsame
  rw [hgroups]
  refine ((hperm.trans hsame).map _).trans ?_
  rw [List.map_map]
  exact List.Perm.refl _

/-- The response for a list of distinct, well-formed handles. -/
theorem partitions_spaceHint
    (hnodup : handles.Nodup)
    (hwell : ∀ h ∈ handles, WellFormed h)
    (hrows : allRows.Perm (getHandleHints db handles))
    (tip : UInt32) :
    Partitions db handles ⟨tip, (handles.filter isSpace).filterMap (spaceHint allRows)⟩ := by
  refine ⟨?_, ?_, ?_, ?_⟩
  · exact (names_spaceHint hrows) ▸ List.Perm.refl _
  · intro s hs
    obtain ⟨row, hrow, heq⟩ := mem_spaceHint hrows hs
    rw [heq]
    exact ⟨row, hrow, rfl, rfl, rfl⟩
  · have hentries : entries ⟨tip, (handles.filter isSpace).filterMap (spaceHint allRows)⟩ =
        (handles.filter (fun h => decide (Answered db handles h))).flatMap (fun space =>
          (epochEntries ((rowsUnder allRows space).foldl pushRow [])).map
            (fun e => (space, e))) := by
      unfold entries
      rw [← names_spaceHint hrows, List.flatMap_map]
      refine List.flatMap_congr (fun s hs => ?_)
      obtain ⟨row, _, heq⟩ := mem_spaceHint hrows hs
      rw [heq]
      rfl
    rw [hentries]
    refine (List.Perm.flatMap_left _ (fun space _ => ?_)).trans
      (perm_rowsUnder hnodup hwell hrows)
    have hgroup := (perm_entries_foldl (rowsUnder allRows space) []).map (fun e => (space, e))
    rw [show epochEntries [] = [] from rfl, List.append_nil, List.map_map] at hgroup
    exact hgroup
  · intro s hs
    obtain ⟨row, _, heq⟩ := mem_spaceHint hrows hs
    rw [heq]
    exact nodup_epochs_foldl _ List.nodup_nil

/-- The order of a list does not matter for how it is answered. -/
theorem Partitions.of_perm
    {response : HintsResponse}
    (h : Partitions db handles response)
    {handles' : List String}
    (hperm : handles.Perm handles') :
    Partitions db handles' response := by
  have hans : ∀ space, Answered db handles space ↔ Answered db handles' space := by
    intro space
    unfold Answered
    rw [hperm.mem_iff]
  refine ⟨?_, h.columns, ?_, h.epochs⟩
  · have hspaces := h.spaces.trans (hperm.filter _)
    simpa only [hans] using hspaces
  · have hlisted : rowsListed db handles = rowsListed db handles' := by
      unfold rowsListed
      simp only [hans, hperm.mem_iff]
    rw [← hlisted]
    exact h.handles

/-- **Hints partition the stored handles.**  A list with a repeated handle is rejected; to
any other list of well-formed handles the response has one hint for each space that is asked
for and stored, and lists each handle that is asked for and stored under such a space once. -/
theorem hints_partition
    (order : HashOrder HandleHintRow)
    (newestAnchor : UInt32)
    (db : Tables)
    (handles : List String) :
    (¬ handles.Nodup → ∃ e, hints order newestAnchor db handles = .error e) ∧
    (handles.Nodup → (∀ h ∈ handles, WellFormed h) →
      ∃ response, hints order newestAnchor db handles = .ok response ∧
        response.anchorTip = newestAnchor ∧ Partitions db handles response) := by
  have hperm : (handles.insertionSort (· ≤ ·)).Perm handles := List.perm_insertionSort _ _
  have hrepeated := Grouping.firstRepeated_eq_none_iff
    (List.pairwise_insertionSort (· ≤ ·) handles)
  rw [hperm.nodup_iff] at hrepeated
  constructor
  · intro hdup
    unfold hints
    dsimp only
    cases hfirst : Grouping.firstRepeated (handles.insertionSort (· ≤ ·)) with
    | none =>
        exact absurd (hrepeated.1 hfirst) hdup
    | some handle =>
        exact ⟨_, rfl⟩
  · intro hnodup hwell
    have hsorted : ∀ h ∈ handles.insertionSort (· ≤ ·), WellFormed h :=
      fun h hmem => hwell h (hperm.mem_iff.1 hmem)
    unfold hints
    dsimp only
    rw [hrepeated.2 hnodup]
    exact ⟨_, rfl, rfl, (partitions_spaceHint (hperm.nodup_iff.2 hnodup) hsorted
      (order.perm _) newestAnchor).of_perm hperm⟩

/-- A space and a handle under it. -/
theorem hints_partition_sampleStore :
    ∃ response, hints HashOrder.inserted 7 sampleStore ["alice@bitcoin", "@bitcoin"] =
      .ok response ∧ response.anchorTip = 7 ∧
      Partitions sampleStore ["alice@bitcoin", "@bitcoin"] response :=
  (hints_partition HashOrder.inserted 7 sampleStore ["alice@bitcoin", "@bitcoin"]).2
    (by decide) (by decide)

end Partition

end HandlerHints
end CertRelay
