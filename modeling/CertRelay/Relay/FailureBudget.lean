import CertRelay.Lib.Watch
import CertRelay.Relay.PullRound

/-!
# The failed-space budget of a round

`sync_with_peer` against a peer that may answer anything: every request, every decoding
and every operation around a batch is a field of `PullOps`, over a state of which nothing
is assumed.  The call is written as a watched computation.  Its log is not part of the
program: it records the pages that were requested, the spaces that ended as failed, the
space at which the budget stopped a batch, and the calls of `set_watermark`.

**Results.**
* `watchRecords_erases`: without its log a watched batch is `ingest_sync_records`;
* `watchSpaces_emits`: a batch fails at most the spaces its budget leaves;
* `failed_spaces_bounded`: a call fails at most one space more than the budget, and a
  batch that the budget stops ends the call without moving the watermark.
-/

namespace CertRelay

open Fallible

/-- What a call of `sync_with_peer` does. -/
inductive PullEvent
  /-- A page is requested. -/
  | requested (cursor : Option SyncCursor)
  /-- A space was attempted and failed. -/
  | failed (space : String)
  /-- The budget is spent; the space and what follows it stays unattempted. -/
  | abandoned (space : String)
  /-- The watermark of the peer is set. -/
  | moved (mark : String)
deriving DecidableEq

namespace PullEvent

/-- The event is a failed space. -/
def isFailed : PullEvent → Bool
  | .failed _ => true
  | _ => false

/-- The number of failed spaces in a log. -/
def failures (evs : List PullEvent) : Nat :=
  evs.countP isFailed

@[simp] theorem failures_nil :
    failures [] = 0 := by
  rfl

@[simp] theorem failures_append
    (evs evs' : List PullEvent) :
    failures (evs ++ evs') = failures evs + failures evs' :=
  List.countP_append

@[simp] theorem failures_requested
    (cursor : Option SyncCursor)
    (evs : List PullEvent) :
    failures (.requested cursor :: evs) = failures evs := by
  rfl

@[simp] theorem failures_abandoned
    (space : String)
    (evs : List PullEvent) :
    failures (.abandoned space :: evs) = failures evs := by
  rfl

@[simp] theorem failures_moved
    (mark : String)
    (evs : List PullEvent) :
    failures (.moved mark :: evs) = failures evs := by
  rfl

@[simp] theorem failures_marks
    (marks : List String) :
    failures (marks.map .moved) = 0 := by
  induction marks with
  | nil =>
      rfl
  | cons mark marks ih =>
      rw [List.map_cons, failures_moved, ih]

@[simp] theorem failures_failed
    (spaces : List String) :
    failures (spaces.map .failed) = spaces.length := by
  induction spaces with
  | nil =>
      rfl
  | cons space spaces ih =>
      rw [List.map_cons, List.length_cons, ← ih]
      exact List.countP_cons_of_pos rfl

end PullEvent

section Batch

variable {σ Proof Msg : Type} (ops : IngestOps σ Proof Msg)

/-- One round of the loop over spaces. -/
def watchSpace (existing : List HandleHintRow) (space : String)
    (group : List (Certificate × Zone)) (out : SyncIngest) :
    Watched String σ PullEvent SyncIngest := do
  let gate ← quietly (Task.always (ops.firstInsertGated space))
  let kept := admitted existing gate group
  let out := { out with gated := out.gated + (group.length - kept.length) }
  if gate && kept.isEmpty then pure out
  else do
    match ← quietly (findRoot ops space kept) with
    | none => do
        note (.failed space)
        pure { out with failedSpaces := out.failedSpaces + 1 }
    | some message => do
        match ← quietly (submit ops message) with
        | .ok res => pure { out with stored := out.stored + res.stored }
        | .error _ => do
            note (.failed space)
            pure { out with failedSpaces := out.failedSpaces + 1 }

/-- The loop over spaces, with its budget of failed ones. -/
def watchSpaces (existing : List HandleHintRow) (maxFailedSpaces : Nat) :
    List (String × List (Certificate × Zone)) → SyncIngest →
      Watched String σ PullEvent SyncIngest
  | [], out => pure out
  | (space, group) :: rest, out =>
      if maxFailedSpaces ≤ out.failedSpaces then do
        note (.abandoned space)
        pure { out with incomplete := true }
      else do
        let out ← watchSpace ops existing space group out
        watchSpaces existing maxFailedSpaces rest out

/-- `ingest_sync_records`. -/
def watchRecords (V : Crates) (order : HashOrder (String × List (Certificate × Zone)))
    (records : List SyncRecord) (maxFailedSpaces : Nat) :
    Watched String σ PullEvent SyncIngest := do
  let existing ← quietly (ops.getHandleHints (records.map SyncRecord.handle))
  let survivors := records.filter (fun r => !isDuplicate V existing r)
  let decoded ← quietly (ExceptT.mk (pure (survivors.mapM (decodeRecord V))))
  watchSpaces ops existing maxFailedSpaces (order.arrange (bySpace V decoded))
    { prefiltered := records.length - survivors.length }

theorem watchSpace_erases
    (existing : List HandleHintRow)
    (space : String)
    (group : List (Certificate × Zone))
    (out : SyncIngest) :
    Erases (watchSpace ops existing space group out)
      (ingestSpace ops existing space group out) := by
  refine Erases.bind (Erases.quiet _) (fun gate => ?_)
  dsimp only
  split_ifs
  · exact Erases.pure _
  · refine Erases.bind (Erases.quiet _) (fun found => ?_)
    cases found with
    | none =>
        exact Erases.note_bind (Erases.pure _)
    | some message =>
        refine Erases.bind (Erases.quiet _) (fun result => ?_)
        cases result with
        | ok res =>
            exact Erases.pure _
        | error e =>
            exact Erases.note_bind (Erases.pure _)

theorem watchSpaces_erases
    (existing : List HandleHintRow)
    (maxFailedSpaces : Nat)
    (groups : List (String × List (Certificate × Zone)))
    (out : SyncIngest) :
    Erases (watchSpaces ops existing maxFailedSpaces groups out)
      (ingestSpaces ops existing maxFailedSpaces groups out) := by
  induction groups generalizing out with
  | nil =>
      exact Erases.pure _
  | cons first rest ih =>
      unfold watchSpaces ingestSpaces
      split_ifs
      · exact Erases.note_bind (Erases.pure _)
      · exact Erases.bind (watchSpace_erases ops existing first.1 first.2 out) ih

/-- **Without its log a watched batch is `ingest_sync_records`.** -/
theorem watchRecords_erases
    (V : Crates)
    (order : HashOrder (String × List (Certificate × Zone)))
    (records : List SyncRecord)
    (maxFailedSpaces : Nat) :
    Erases (watchRecords ops V order records maxFailedSpaces)
      (ingestSyncRecords ops V order records maxFailedSpaces) := by
  refine Erases.bind (Erases.quiet _) (fun existing => ?_)
  refine Erases.bind (Erases.quiet _) (fun decoded => ?_)
  exact watchSpaces_erases ops existing maxFailedSpaces _ _

/-- What a batch writes and returns, that starts with `start` failed spaces. -/
inductive BatchLog (start maxFailedSpaces : Nat) :
    List PullEvent → Except String SyncIngest → Prop
  /-- An error ends the batch. -/
  | broken
      {spaces : List String}
      (hmax : start + spaces.length ≤ maxFailedSpaces)
      (e : String) :
      BatchLog start maxFailedSpaces (spaces.map .failed) (.error e)
  /-- Every space was attempted. -/
  | complete
      {spaces : List String}
      (hmax : start + spaces.length ≤ maxFailedSpaces)
      {out : SyncIngest}
      (hout : out.failedSpaces = start + spaces.length)
      (hcomplete : out.incomplete = false) :
      BatchLog start maxFailedSpaces (spaces.map .failed) (.ok out)
  /-- The budget stopped the batch. -/
  | stopped
      {spaces : List String}
      (hmax : start + spaces.length ≤ maxFailedSpaces)
      (space : String)
      {out : SyncIngest}
      (hincomplete : out.incomplete = true) :
      BatchLog start maxFailedSpaces (spaces.map .failed ++ [.abandoned space]) (.ok out)

/-- A batch that fails a space first. -/
theorem BatchLog.cons
    {start maxFailedSpaces : Nat}
    {evs : List PullEvent}
    {r : Except String SyncIngest}
    (h : BatchLog (start + 1) maxFailedSpaces evs r)
    (space : String) :
    BatchLog start maxFailedSpaces (.failed space :: evs) r := by
  cases h with
  | @broken spaces hmax e =>
      have hmax' : start + (space :: spaces).length ≤ maxFailedSpaces := by
        rw [List.length_cons]
        omega
      exact .broken hmax' e
  | @complete spaces hmax out hout hcomplete =>
      have hlength : start + 1 + spaces.length = start + (space :: spaces).length := by
        rw [List.length_cons]
        omega
      exact .complete (hlength ▸ hmax) (hlength ▸ hout) hcomplete
  | @stopped spaces hmax last out hincomplete =>
      have hmax' : start + (space :: spaces).length ≤ maxFailedSpaces := by
        rw [List.length_cons]
        omega
      exact .stopped hmax' last hincomplete

/-- What one space writes and returns. -/
inductive SpaceLog (space : String) (out : SyncIngest) :
    List PullEvent → Except String SyncIngest → Prop
  /-- An error ends the batch. -/
  | broken
      (e : String) :
      SpaceLog space out [] (.error e)
  /-- The space is gated or stored. -/
  | passed
      {out' : SyncIngest}
      (hout : out'.failedSpaces = out.failedSpaces)
      (hflag : out'.incomplete = out.incomplete) :
      SpaceLog space out [] (.ok out')
  /-- The space failed. -/
  | failed
      {out' : SyncIngest}
      (hout : out'.failedSpaces = out.failedSpaces + 1)
      (hflag : out'.incomplete = out.incomplete) :
      SpaceLog space out [.failed space] (.ok out')

theorem watchSpace_emits
    (existing : List HandleHintRow)
    (space : String)
    (group : List (Certificate × Zone))
    (out : SyncIngest) :
    Emits (watchSpace ops existing space group out) (SpaceLog space out) := by
  refine Emits.quiet_bind .broken (fun gate => ?_)
  dsimp only
  split_ifs
  · exact Emits.pure (.passed rfl rfl)
  · refine Emits.quiet_bind .broken (fun found => ?_)
    cases found with
    | none =>
        exact Emits.note_bind (Emits.pure (.failed rfl rfl))
    | some message =>
        refine Emits.quiet_bind .broken (fun result => ?_)
        cases result with
        | ok res =>
            exact Emits.pure (.passed rfl rfl)
        | error e =>
            exact Emits.note_bind (Emits.pure (.failed rfl rfl))

/-- **A batch fails at most the spaces its budget leaves.** -/
theorem watchSpaces_emits
    (existing : List HandleHintRow)
    (maxFailedSpaces : Nat)
    (groups : List (String × List (Certificate × Zone)))
    {out : SyncIngest}
    (hout : out.failedSpaces ≤ maxFailedSpaces)
    (hflag : out.incomplete = false) :
    Emits (watchSpaces ops existing maxFailedSpaces groups out)
      (BatchLog out.failedSpaces maxFailedSpaces) := by
  induction groups generalizing out with
  | nil =>
      exact Emits.pure (@BatchLog.complete _ _ [] hout _ rfl hflag)
  | cons first rest ih =>
      unfold watchSpaces
      split_ifs with hspent
      · exact Emits.note_bind (Emits.pure (@BatchLog.stopped _ _ [] hout first.1 _ rfl))
      · refine Emits.bind (watchSpace_emits ops existing first.1 first.2 out) ?_ ?_
        · intro evs e hfirst
          cases hfirst
          exact @BatchLog.broken _ _ [] hout e
        · intro evs out' hfirst
          cases hfirst with
          | passed hout' hflag' =>
              have hrest := ih (hout' ▸ hout) (hflag'.trans hflag)
              rwa [hout'] at hrest
          | failed hout' hflag' =>
              -- the guard has left room for one more failure
              have hroom : out'.failedSpaces ≤ maxFailedSpaces := by
                omega
              refine (ih hroom (hflag'.trans hflag)).mono (fun evs r hrest => ?_)
              rw [hout'] at hrest
              exact hrest.cons first.1

/-- What a whole batch writes and returns. -/
theorem watchRecords_emits
    (V : Crates)
    (order : HashOrder (String × List (Certificate × Zone)))
    (records : List SyncRecord)
    (maxFailedSpaces : Nat) :
    Emits (watchRecords ops V order records maxFailedSpaces) (BatchLog 0 maxFailedSpaces) := by
  have hbroken : ∀ e, BatchLog 0 maxFailedSpaces [] (.error e) :=
    fun e => @BatchLog.broken _ _ [] (Nat.zero_le _) e
  refine Emits.quiet_bind hbroken (fun existing => ?_)
  refine Emits.quiet_bind hbroken (fun decoded => ?_)
  exact watchSpaces_emits ops existing maxFailedSpaces _ (Nat.zero_le _) rfl

end Batch

/-- A response to `/sync`. -/
structure PageResponse where
  contentLength : Option Nat
  /-- The body: its length and what borsh reads from it.  Reading it may fail. -/
  body : Except String (Nat × Except String SyncPage)

/-- What a call of `sync_with_peer` goes through.  The peer, the network, other tasks and
the relay's own parts are behind these operations. -/
structure PullOps (σ Proof Msg : Type) where
  /-- `state.peer_client`. -/
  peerClient : Task String σ Unit
  /-- `get_watermark` of the peer. -/
  getWatermark : Task String σ (Option String)
  /-- The answer to `/sync/summary`. -/
  summary : Task String σ SyncSummary
  /-- The answer to `/sync`, up to its body. -/
  page : Option SyncCursor → Task String σ PageResponse
  /-- Iteration order of `by_space`. -/
  groupOrder : σ → HashOrder (String × List (Certificate × Zone)) × σ
  /-- The parts of the relay that a batch goes through. -/
  ingest : IngestOps σ Proof Msg
  /-- `set_watermark` of the peer. -/
  setWatermark : String → Task String σ Unit

namespace PullOps

variable {σ Proof Msg : Type} (ops : PullOps σ Proof Msg) (V : Crates) (config : SyncConfig)

/-- The page of a response, if its body is neither announced nor found too large. -/
def pageOf (response : PageResponse) : Except String SyncPage := do
  let announced := response.contentLength.getD 0
  if config.maxPageBytes < announced then
    throw s!"sync page too large: {announced} bytes"
  else do
    let body ← response.body
    if config.maxPageBytes < body.1 then
      throw s!"sync page too large: {body.1} bytes"
    else body.2

/-- `set_watermark` of the peer. -/
def moveWatermark (mark : SyncCursor) : Watched String σ PullEvent Unit := do
  note (.moved mark.display)
  quietly (ops.setWatermark mark.display)

/-- The paging loop, with its page budget. -/
def pullPages : Nat → Round → Watched String σ PullEvent SyncIngest
  | 0, round => pure round.totals
  | left + 1, round => do
      note (.requested round.cursor)
      let response ← quietly (ops.page round.cursor)
      let page ← quietly (ExceptT.mk (pure (pageOf config response)))
      if page.records.isEmpty then
        if positionOf round.cursor < round.latest.val then do
          ops.moveWatermark round.latest
          pure round.totals
        else pure round.totals
      else do
        let next ← quietly (ExceptT.mk (pure (nextCursorOf round.cursor page)))
        let order ← quietly (Task.always ops.groupOrder)
        let stats ← watchRecords ops.ingest V order page.records
          (remainingFailures round.totals)
        let round := { round with totals := addTotals round.totals stats }
        if stats.incomplete then
          throw (budgetSpent round.totals.failedSpaces)
        else do
          ops.moveWatermark (acceptedCursor round next)
          match afterAdvance round next with
          | .paging round => pullPages left round
          | _ => pure round.totals

/-- `sync_with_peer`. -/
def syncWithPeer : Watched String σ PullEvent SyncIngest := do
  quietly ops.peerClient
  let stored ← quietly ops.getWatermark
  let watermark := stored.bind (fun c => (SyncCursor.fromStr c).toOption)
  let summary ← quietly ops.summary
  match afterSummary config watermark summary with
  | .paging round => ops.pullPages V config round.pagesLeft round
  | .resetting => do
      note (.moved "0")
      quietly (ops.setWatermark "0")
      pure {}
  | _ => pure {}

/-- The budget stopped the last page of a call, whose pages start at `cursor` or after it:
the call fails, and no mark that it has set lies past the start of that page. -/
def StopsAt (cursor : Option SyncCursor) (space : String) (evs : List PullEvent)
    (r : Except String SyncIngest) : Prop :=
  (∃ e, r = .error e) ∧
    ∃ (earlier : List PullEvent) (page : Option SyncCursor) (spaces : List String),
      evs = earlier ++ .requested page :: (spaces.map .failed ++ [.abandoned space]) ∧
        positionOf cursor ≤ positionOf page ∧
        ∀ text, .moved text ∈ earlier →
          ∃ mark, SyncCursor.fromStr text = .ok mark ∧ mark.val ≤ positionOf page

/-- What a call writes and returns that has `failedSpaces` failed spaces at `cursor`. -/
structure PullLog (failedSpaces : Nat) (cursor : Option SyncCursor) (evs : List PullEvent)
    (r : Except String SyncIngest) : Prop where
  bounded : failedSpaces + PullEvent.failures evs ≤ maxFailedSpacesPerRound + 1
  stopped : ∀ space, .abandoned space ∈ evs → StopsAt cursor space evs r

theorem PullLog.mono
    {failedSpaces failedSpaces' : Nat}
    {cursor cursor' : Option SyncCursor}
    {evs : List PullEvent}
    {r : Except String SyncIngest}
    (h : PullLog failedSpaces cursor evs r)
    (hfailed : failedSpaces' ≤ failedSpaces)
    (hcursor : positionOf cursor' ≤ positionOf cursor) :
    PullLog failedSpaces' cursor' evs r where
  bounded := by
    have hbounded := h.bounded
    omega
  stopped := by
    intro space hspace
    obtain ⟨herror, earlier, page, spaces, hevs, hpage, hmoved⟩ := h.stopped space hspace
    exact ⟨herror, earlier, page, spaces, hevs, hcursor.trans hpage, hmoved⟩

/-- A log in which the budget stops nothing. -/
theorem PullLog.of_failures
    {failedSpaces : Nat}
    {cursor : Option SyncCursor}
    {evs : List PullEvent}
    (hbounded : failedSpaces + PullEvent.failures evs ≤ maxFailedSpacesPerRound + 1)
    (hnone : ∀ space, .abandoned space ∉ evs)
    (r : Except String SyncIngest) :
    PullLog failedSpaces cursor evs r :=
  ⟨hbounded, fun space hspace => absurd hspace (hnone space)⟩

theorem PullLog.nil
    {failedSpaces : Nat}
    {cursor : Option SyncCursor}
    (hfailed : failedSpaces ≤ maxFailedSpacesPerRound + 1)
    (r : Except String SyncIngest) :
    PullLog failedSpaces cursor [] r :=
  .of_failures hfailed (fun _ => List.not_mem_nil) r

/-- What stops a call later stops it after the events of a processed page too. -/
theorem PullLog.append
    {failedSpaces : Nat}
    {cursor : Option SyncCursor}
    {page evs : List PullEvent}
    {r : Except String SyncIngest}
    (h : PullLog (failedSpaces + PullEvent.failures page) cursor evs r)
    (hnone : ∀ space, .abandoned space ∉ page)
    (hmoved : ∀ text, .moved text ∈ page →
      ∃ mark, SyncCursor.fromStr text = .ok mark ∧ mark.val ≤ positionOf cursor) :
    PullLog failedSpaces cursor (page ++ evs) r where
  bounded := by
    have hbounded := h.bounded
    rw [PullEvent.failures_append]
    omega
  stopped := by
    intro space hspace
    have hlater := (List.mem_append.1 hspace).resolve_left (hnone space)
    obtain ⟨herror, earlier, last, spaces, hevs, hlast, hearlier⟩ := h.stopped space hlater
    refine ⟨herror, page ++ earlier, last, spaces, ?_, hlast, fun text htext => ?_⟩
    · rw [hevs, List.append_assoc]
    · rcases List.mem_append.1 htext with hpage | hlater
      · obtain ⟨mark, hmark, hle⟩ := hmoved text hpage
        exact ⟨mark, hmark, hle.trans hlast⟩
      · exact hearlier text hlater

theorem positionOf_le_nextCursorOf
    {cursor : Option SyncCursor}
    {page : SyncPage}
    {next : SyncCursor}
    (h : nextCursorOf cursor page = .ok next) :
    positionOf cursor ≤ next.val := by
  unfold nextCursorOf at h
  cases hnext : page.nextCursor with
  | none =>
      rw [hnext] at h
      cases h
  | some text =>
      rw [hnext] at h
      obtain ⟨n, _, h⟩ := Fallible.bind_eq_ok.1 h
      cases cursor with
      | none =>
          exact Nat.zero_le _
      | some c =>
          dsimp only at h
          split_ifs at h with hle
          cases h
          exact (not_le.1 hle).le

theorem acceptedCursor_le
    (round : Round)
    (next : SyncCursor) :
    (acceptedCursor round next).val ≤ next.val := by
  unfold acceptedCursor
  split_ifs with h
  · exact le_refl _
  · exact (not_le.1 h).le

theorem afterAdvance_eq_paging
    {round round' : Round}
    {next : SyncCursor}
    (h : afterAdvance round next = .paging round') :
    round.totals.failedSpaces ≤ maxFailedSpacesPerRound ∧
      round' = { round with cursor := some next } := by
  unfold afterAdvance at h
  split_ifs at h with hlevel hmany
  cases h
  exact ⟨not_lt.1 hmany, rfl⟩

theorem afterSummary_totals
    {watermark : Option SyncCursor}
    {summary : SyncSummary}
    {round : Round}
    (h : afterSummary config watermark summary = .paging round) :
    round.totals.failedSpaces = 0 := by
  unfold afterSummary at h
  generalize summary.latestCursor.bind (fun c => (SyncCursor.fromStr c).toOption) = latest at h
  cases latest with
  | none =>
      cases watermark <;> cases h
  | some latest =>
      cases watermark with
      | none =>
          cases h
          rfl
      | some mark =>
          dsimp only at h
          split_ifs at h
          cases h
          rfl

theorem moveWatermark_emits
    (mark : SyncCursor) :
    Emits (ops.moveWatermark mark) (fun evs _ => evs = [.moved mark.display]) :=
  Emits.note_bind (Emits.quiet fun _ => rfl)

/-- The last page of a call that its budget stops. -/
theorem pullLog_stopped
    {failedSpaces : Nat}
    {cursor : Option SyncCursor}
    {spaces : List String}
    (hmax : failedSpaces + spaces.length ≤ maxFailedSpacesPerRound + 1)
    (space e : String) :
    PullLog failedSpaces cursor
      (.requested cursor :: (spaces.map .failed ++ [.abandoned space])) (.error e) where
  bounded := by
    simpa using hmax
  stopped := by
    intro last hlast
    have heq : last = space := by
      simpa using hlast
    subst heq
    exact ⟨⟨e, rfl⟩, [], cursor, spaces, rfl, le_refl _, fun _ h => absurd h (by simp)⟩

/-- A page that was processed, and what follows it. -/
theorem PullLog.processed
    {failedSpaces : Nat}
    {cursor : Option SyncCursor}
    {spaces : List String}
    {round : Round}
    {next : SyncCursor}
    {evs : List PullEvent}
    {r : Except String SyncIngest}
    (h : PullLog (failedSpaces + spaces.length) (some next) evs r)
    (hnext : positionOf cursor ≤ next.val) :
    PullLog failedSpaces cursor
      (.requested cursor :: (spaces.map .failed ++
        (.moved (acceptedCursor round next).display :: evs))) r := by
  have hsplit : .requested cursor :: (spaces.map .failed ++
      (.moved (acceptedCursor round next).display :: evs)) =
        (.requested cursor :: (spaces.map .failed ++
          [.moved (acceptedCursor round next).display])) ++ evs := by
    simp
  rw [hsplit]
  refine (@PullLog.append _ (some next) _ _ _ ?_ ?_ ?_).mono (le_refl _) hnext
  · simpa using h
  · simp
  · intro text htext
    have heq : text = (acceptedCursor round next).display := by
      simpa using htext
    subst heq
    exact ⟨_, SyncCursor.fromStr_display _, acceptedCursor_le round next⟩

/-- A page whose failures are within the room left, and the marks set after it. -/
theorem PullLog.of_page
    {failedSpaces : Nat}
    {cursor : Option SyncCursor}
    {spaces : List String}
    (marks : List String)
    (hmax : failedSpaces + spaces.length ≤ maxFailedSpacesPerRound + 1)
    (r : Except String SyncIngest) :
    PullLog failedSpaces cursor
      (.requested cursor :: (spaces.map .failed ++ marks.map .moved)) r :=
  PullLog.of_failures (by simpa using hmax) (by simp) r

/-- The room that is left to a batch keeps the call within its budget. -/
theorem within_room
    {totals : SyncIngest}
    (htotals : totals.failedSpaces ≤ maxFailedSpacesPerRound)
    {n : Nat}
    (hn : 0 + n ≤ remainingFailures totals) :
    totals.failedSpaces + n ≤ maxFailedSpacesPerRound + 1 := by
  unfold remainingFailures at hn
  omega

/-- **The paging loop stays within its budget**, and a batch that the budget stops ends
it. -/
theorem pullPages_emits
    (left : Nat)
    {round : Round}
    (hround : round.totals.failedSpaces ≤ maxFailedSpacesPerRound) :
    Emits (ops.pullPages V config left round)
      (PullLog round.totals.failedSpaces round.cursor) := by
  induction left generalizing round with
  | zero =>
      exact Emits.pure (.nil (by omega) _)
  | succ left ih =>
      have hquiet : ∀ r, PullLog round.totals.failedSpaces round.cursor
          [.requested round.cursor] r :=
        @PullLog.of_page _ round.cursor [] [] (Nat.le_succ_of_le hround)
      have hmoved : ∀ mark r, PullLog round.totals.failedSpaces round.cursor
          (.requested round.cursor :: [.moved mark]) r :=
        fun mark => @PullLog.of_page _ round.cursor [] [mark] (Nat.le_succ_of_le hround)
      refine Emits.note_bind (Emits.quiet_bind (fun e => hquiet _) (fun response => ?_))
      refine Emits.quiet_bind (fun e => hquiet _) (fun page => ?_)
      split_ifs with hempty hbehind
      · refine Emits.bind (ops.moveWatermark_emits _) ?_ ?_
        · rintro _ e rfl
          exact hmoved _ _
        · rintro _ _ rfl
          exact Emits.pure (hmoved _ _)
      · exact Emits.pure (hquiet _)
      · refine Emits.lift_bind (fun e => hquiet _) (fun next hnext => ?_)
        refine Emits.quiet_bind (fun e => hquiet _) (fun order => ?_)
        refine Emits.bind (watchRecords_emits _ V order _ _) ?_ ?_
        · intro evs e hbatch
          cases hbatch with
          | @broken spaces hmax e =>
              have hpage := @PullLog.of_page _ round.cursor spaces [] (within_room hround hmax)
              rw [List.map_nil, List.append_nil] at hpage
              exact hpage _
        · intro evs stats hbatch
          dsimp only
          cases hbatch with
          | stopped hmax space hincomplete =>
              rw [if_pos hincomplete]
              refine Emits.throw ?_
              rw [List.append_nil]
              exact pullLog_stopped (within_room hround hmax) space _
          | @complete spaces hmax _ hstats hcomplete =>
              rw [if_neg (by simp [hcomplete])]
              have hnone : ∀ mark r, PullLog round.totals.failedSpaces round.cursor
                  (.requested round.cursor :: (spaces.map .failed ++ [.moved mark])) r :=
                fun mark => PullLog.of_page [mark] (within_room hround hmax)
              refine Emits.bind (ops.moveWatermark_emits _) ?_ ?_
              · rintro _ e rfl
                exact hnone _ _
              · rintro _ _ rfl
                cases hadvance : afterAdvance
                    { round with totals := addTotals round.totals stats } next with
                | paging round' =>
                    obtain ⟨hfew, rfl⟩ := afterAdvance_eq_paging hadvance
                    have htotal : (addTotals round.totals stats).failedSpaces =
                        round.totals.failedSpaces + spaces.length := by
                      unfold addTotals
                      dsimp only
                      omega
                    have hnextPage := @ih { round with
                      cursor := some next, totals := addTotals round.totals stats } hfew
                    refine hnextPage.mono (fun evs r hrest => ?_)
                    dsimp only at hrest
                    rw [htotal] at hrest
                    exact hrest.processed (positionOf_le_nextCursorOf hnext)
                | _ =>
                    exact Emits.pure (hnone _ _)

/-- **A call fails at most one space more than the budget**, over all its pages; and if the
budget leaves a space of a page unattempted, the call ends there with an error, and no
mark that it has set lies past the start of that page. -/
theorem failed_spaces_bounded
    (s : σ) :
    PullEvent.failures (ops.syncWithPeer V config (s, [])).2.2 ≤
        maxFailedSpacesPerRound + 1 ∧
      ∀ space, .abandoned space ∈ (ops.syncWithPeer V config (s, [])).2.2 →
        StopsAt none space (ops.syncWithPeer V config (s, [])).2.2
          (ops.syncWithPeer V config (s, [])).1 := by
  have hlog : Emits (ops.syncWithPeer V config) (PullLog 0 none) := by
    have hquiet : ∀ r, PullLog 0 none [] r :=
      PullLog.nil (Nat.zero_le _)
    refine Emits.quiet_bind (fun e => hquiet _) (fun _ => ?_)
    refine Emits.quiet_bind (fun e => hquiet _) (fun stored => ?_)
    refine Emits.quiet_bind (fun e => hquiet _) (fun summary => ?_)
    cases hround : afterSummary config
        (stored.bind (fun c => (SyncCursor.fromStr c).toOption)) summary with
    | paging round =>
        have hnone : round.totals.failedSpaces = 0 :=
          afterSummary_totals config hround
        have hpages := ops.pullPages_emits V config round.pagesLeft
          (hnone ▸ Nat.zero_le maxFailedSpacesPerRound)
        exact hpages.mono (fun evs r h => h.mono (Nat.zero_le _) (Nat.zero_le _))
    | resetting =>
        have hreset : ∀ r, PullLog 0 none [.moved "0"] r :=
          PullLog.of_failures (by simp) (by simp)
        refine Emits.note_bind (Emits.quiet_bind (fun e => hreset _) (fun _ => ?_))
        exact Emits.pure (hreset _)
    | _ =>
        exact Emits.pure (hquiet _)
  obtain ⟨evs, hevs, hbounded, hstopped⟩ := hlog s []
  rw [List.nil_append] at hevs
  rw [hevs]
  exact ⟨by omega, hstopped⟩

end PullOps

section Pulling

variable (V : Crates) {σ Proof Msg : Type}
  (build : MessageBuilder → Proof → Except String Msg) (env : ℕ → Instant σ Proof Msg)
  (config : SyncConfig) (peerUrl : String) (peer : Tables)

/-- The operations of a relay that only pulls, with an honest peer. -/
def pullingOps : PullOps (Puller σ) Proof Msg where
  peerClient := pure ()
  getWatermark := reading (fun db => getWatermark db peerUrl)
  summary := pure (syncSummary peer)
  page cursor := do
    let m ← takeInstant env
    let page ← ExceptT.mk (pure (handleSync m.rootOrder peer
      (cursor.map SyncCursor.display) (some config.pageLimit.repr)))
    pure ⟨none, .ok (page.borshLen, .ok page)⟩
  -- the instant of the page
  groupOrder s := ((env (s.elapsed - 1)).groupOrder, s)
  ingest := pullerOps V build env
  setWatermark text := do
    let m ← takeInstant env
    Task.always (fun s =>
      ((), { s with state.db := setWatermark m.now s.state.db peerUrl text }))

/-- A page of the peer takes an instant. -/
theorem pullingOps_page
    (cursor : Option SyncCursor)
    (s : Puller σ) :
    (pullingOps V build env config peerUrl peer).page cursor s =
      ((handleSync (env s.elapsed).rootOrder peer (cursor.map SyncCursor.display)
          (some config.pageLimit.repr)).map
        (fun page => ⟨none, .ok (page.borshLen, .ok page)⟩),
        { s with elapsed := s.elapsed + 1 }) := by
  unfold pullingOps
  dsimp only
  rw [Task.bind_of_ok (show takeInstant env s = (.ok (env s.elapsed),
    { s with elapsed := s.elapsed + 1 }) from rfl)]
  cases handleSync (env s.elapsed).rootOrder peer (cursor.map SyncCursor.display)
      (some config.pageLimit.repr) <;> rfl

theorem quietly_page
    (cursor : Option SyncCursor)
    (s : Puller σ)
    (log : List PullEvent) :
    quietly ((pullingOps V build env config peerUrl peer).page cursor) (s, log) =
      ((handleSync (env s.elapsed).rootOrder peer (cursor.map SyncCursor.display)
          (some config.pageLimit.repr)).map
        (fun page => PageResponse.mk none (.ok (page.borshLen, .ok page))),
        ({ s with elapsed := s.elapsed + 1 }, log)) := by
  unfold quietly
  rw [pullingOps_page]

theorem pageOf_pulled
    (page : SyncPage) :
    PullOps.pageOf config ⟨none, .ok (page.borshLen, .ok page)⟩ =
      if config.maxPageBytes < page.borshLen then
        .error s!"sync page too large: {page.borshLen} bytes"
      else .ok page := by
  rfl

theorem moveWatermark_erases
    (mark : SyncCursor) :
    Erases ((pullingOps V build env config peerUrl peer).moveWatermark mark)
      (moveWatermark env peerUrl mark.display) :=
  Erases.note_bind (Erases.quiet _)

theorem pullPages_erases
    (left : Nat)
    (round : Round) :
    Erases ((pullingOps V build env config peerUrl peer).pullPages V config left round)
      (pullPages V build env config peerUrl peer left round) := by
  induction left generalizing round with
  | zero =>
      exact Erases.pure _
  | succ left ih =>
      intro s log
      unfold pullPages PullOps.pullPages
      rw [Task.bind_of_ok (show takeInstant env s = (.ok (env s.elapsed),
          { s with elapsed := s.elapsed + 1 }) from rfl),
        Task.bind_of_ok (note_apply (PullEvent.requested round.cursor) (s, log))]
      have hresponse := quietly_page V build env config peerUrl peer round.cursor s
        (log ++ [.requested round.cursor])
      cases hpage : handleSync (env s.elapsed).rootOrder peer
        (round.cursor.map SyncCursor.display) (some config.pageLimit.repr) with
      | error e =>
          rw [hpage] at hresponse
          rw [Task.bind_apply, Task.bind_apply, hresponse]
          rfl
      | ok page =>
          rw [hpage] at hresponse
          rw [Task.bind_of_ok hresponse, Task.bind_of_ok (Task.lift_ok page _)]
          by_cases hsize : config.maxPageBytes < page.borshLen
          · rw [if_pos hsize, pageOf_pulled, if_pos hsize]
            rfl
          · rw [if_neg hsize, pageOf_pulled, if_neg hsize,
              Task.bind_of_ok (quietly_lift page _)]
            split_ifs with hempty hbehind
            · exact Erases.bind (moveWatermark_erases V build env config peerUrl peer _)
                (fun _ => Erases.pure _) _ _
            · rfl
            · cases hnext : nextCursorOf round.cursor page with
              | error e =>
                  rfl
              | ok next =>
                  -- the batch iterates in the order of the page's instant
                  rw [Task.bind_of_ok (Task.lift_ok next _), Task.bind_of_ok (quietly_lift next _),
                    Task.bind_of_ok (quietly_always _ _)]
                  refine Erases.bind (watchRecords_erases _ V (env s.elapsed).groupOrder
                    page.records (remainingFailures round.totals)) (fun stats => ?_) _ _
                  dsimp only
                  split_ifs
                  · exact Erases.throw _
                  · refine Erases.bind (moveWatermark_erases V build env config peerUrl peer _)
                      (fun _ => ?_)
                    cases afterAdvance
                        { round with totals := addTotals round.totals stats } next with
                    | paging round' =>
                        exact ih round'
                    | _ =>
                        exact Erases.pure _

/-- **Against an honest peer, and without its log, the call is that of a relay that only
pulls.** -/
theorem syncWithPeer_erases :
    Erases ((pullingOps V build env config peerUrl peer).syncWithPeer V config)
      (syncWithPeer V build env config peerUrl peer) := by
  intro s log
  have hclient : quietly (pullingOps V build env config peerUrl peer).peerClient (s, log) =
      (.ok (), (s, log)) := rfl
  have hstored : quietly (pullingOps V build env config peerUrl peer).getWatermark (s, log) =
      (.ok (getWatermark s.db peerUrl), (s, log)) := rfl
  have hsummary : quietly (pullingOps V build env config peerUrl peer).summary (s, log) =
      (.ok (syncSummary peer), (s, log)) := rfl
  have hwatermark : reading (watermarkOf peerUrl) s = (.ok (watermarkOf peerUrl s.db), s) :=
    rfl
  unfold syncWithPeer PullOps.syncWithPeer
  rw [Task.bind_of_ok hclient, Task.bind_of_ok hstored, Task.bind_of_ok hsummary,
    Task.bind_of_ok hwatermark]
  have hmark : (getWatermark s.db peerUrl).bind (fun c => (SyncCursor.fromStr c).toOption) =
      watermarkOf peerUrl s.db := rfl
  rw [hmark]
  cases afterSummary config (watermarkOf peerUrl s.db) (syncSummary peer) with
  | paging round =>
      exact pullPages_erases V build env config peerUrl peer round.pagesLeft round s log
  | resetting =>
      exact Erases.note_bind (Erases.bind (Erases.quiet _) (fun _ => Erases.pure _)) s log
  | _ =>
      rfl

end Pulling

end CertRelay
