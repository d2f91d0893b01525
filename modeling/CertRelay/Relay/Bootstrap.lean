import CertRelay.Relay.PulledBatch
import CertRelay.Relay.RootClosure
import CertRelay.Relay.PageSize
import CertRelay.Relay.WatermarkSafety
import CertRelay.Lib.Runs

/-!
# Bootstrapping from a peer

A relay with an empty database pulls everything from an honest peer that does not change.

Its rounds keep it in step with its watermark: it holds a copy of every row of the peer up
to there.  So the root of a sub-handle that a page does not bring is stored, every page
becomes a batch of ready groups, and every round moves the watermark on.

**Results.**
* `batchable_syncPage`: the page after the watermark brings the roots that are missing;
* `pullPages_follows`: a round keeps the relay in step, and moves the watermark;
* `bootstrap_converges`: after finitely many rounds everything is stored;
* `skewed_clock`: unless the clock is more than six hours behind a stored sequence.
-/

namespace CertRelay

open Fallible

section Following

variable (V : Crates) (peer : Tables) (peerUrl : String)

/-- The rows of a peer whose handles are stored. -/
def storedIn (db : Tables) : Set Row :=
  { a | db.Stores a.handle }

/-- The relay holds copies of the peer, of all rows up to its watermark. -/
structure Follows (db : Tables) : Prop where
  copied : Copied V peer db
  covers : Watermark.Covers Row.syncSeq (sourceOf peer) (storedIn db)
    (positionOf (watermarkOf peerUrl db))
  moved : ∀ c, watermarkOf peerUrl db = some c → 0 < c.val

/-- The cursor that the summary of a peer advertises. -/
def latestOf : Option SyncCursor :=
  (syncSummary peer).latestCursor.bind (fun c => (SyncCursor.fromStr c).toOption)

variable {V peer peerUrl}

theorem follows_init : Follows V peer peerUrl Tables.init := by
  refine ⟨copied_init peer, Watermark.covers_zero (fun r _ => r.syncSeq_pos), ?_⟩
  intro c h
  cases h

/-- **The page after the watermark brings the roots that are missing.** -/
theorem batchable_syncPage
    (hpeer : Honest V peer)
    {db : Tables}
    {cursor : Option SyncCursor}
    (hcovers : Watermark.Covers Row.syncSeq (sourceOf peer) (storedIn db) (positionOf cursor))
    (order : HashOrder SyncRecord)
    (limit maxBytes : UInt64) :
    Batchable peer db (syncPage order peer cursor limit maxBytes).records := by
  have hseq := hpeer.sequenced.distinct
  have hpos : positionOf cursor < 2 ^ 63 := hcovers.le_counter.trans_lt hpeer.range
  have hserved : ∀ rec ∈ (syncPage order peer cursor limit maxBytes).records,
      ∃ a ∈ peer.handles.rows, a.record = rec := by
    intro rec hrec
    rw [syncPage_records, List.mem_append] at hrec
    rcases hrec with hmain | happended
    · obtain ⟨m, hm, rfl⟩ := List.mem_map.1 hmain
      obtain ⟨a, ha, rfl⟩ := stored_of_mem_mainOf hm
      exact ⟨a, ha, rfl⟩
    · obtain ⟨a, ha, hrecord, _⟩ :=
        (beyondPage_of_mem_appendedOf hseq hpos limit maxBytes happended).stored
      exact ⟨a, ha, hrecord⟩
  refine ⟨hserved, nodup_handles_syncPage hseq hpos limit maxBytes order, ?_⟩
  intro rec hrec hsub
  obtain ⟨a, ha, rfl⟩ := hserved rec hrec
  obtain ⟨root, hroot, hhandle⟩ := hpeer.roots a ha
  rw [hpeer.spaces a ha] at hhandle
  have hisRoot : root.IsRoot := by
    unfold Row.IsRoot
    rw [hpeer.spaces root hroot, hhandle, spaceNameOf_idem]
  rcases root_of_mem_syncPage hseq hpos limit maxBytes hrec hsub hroot hhandle hisRoot with
    hbefore | hmem
  · left
    have hstored : db.Stores root.handle := hcovers.mem_done root hroot hbefore
    rw [hhandle] at hstored
    exact hstored
  · exact Or.inr ⟨root.record, hmem, hhandle⟩

theorem latestOf_eq :
    latestOf peer =
      if 0 < peer.syncCounter then some (SyncCursor.ofCounter peer.syncCounter) else none :=
  syncSummary_latestCursor peer

/-- Only the handle rows and the watermark of the peer matter. -/
theorem Follows.move
    {db db' : Tables}
    (hdb : Copied V peer db)
    (hhandles : db'.handles = db.handles)
    {mark : SyncCursor}
    (hmark : watermarkOf peerUrl db' = some mark)
    (hpos : 0 < mark.val)
    (hcovers : Watermark.Covers Row.syncSeq (sourceOf peer) (storedIn db) mark.val) :
    Follows V peer peerUrl db' := by
  refine ⟨hdb.congr hhandles, ?_, ?_⟩
  · rw [hmark]
    refine ⟨hcovers.le_counter, fun a ha hle => ?_⟩
    exact (Tables.stores_congr hhandles).2 (hcovers.mem_done a ha hle)
  · intro c hc
    rw [hmark] at hc
    cases hc
    exact hpos

end Following

section Rounds

/-- A page whose cursor advances is read to have it. -/
theorem nextCursorOf_of_lt
    {cursor : Option SyncCursor}
    {page : SyncPage}
    {n : SyncCursor}
    (hnext : page.nextCursor = some n.display)
    (hlt : positionOf cursor < n.val) :
    nextCursorOf cursor page = .ok n := by
  unfold nextCursorOf
  rw [hnext]
  simp only [SyncCursor.fromStr_display, Except.mapError, ok_bind]
  cases cursor with
  | none =>
      rfl
  | some c =>
      exact if_neg (not_le.2 hlt)

variable {V : Crates} {peer : Tables} {peerUrl : String} {σ Proof Msg : Type}
  {build : MessageBuilder → Proof → Except String Msg} {env : ℕ → Instant σ Proof Msg}
  {config : SyncConfig}

variable (peerUrl env) in
theorem moveWatermark_apply
    (s : Puller σ)
    (mark : SyncCursor) :
    ∃ s', moveWatermark env peerUrl mark.display s = (.ok (), s') ∧
      s'.db.handles = s.db.handles ∧ watermarkOf peerUrl s'.db = some mark :=
  ⟨_, rfl, rfl, watermarkOf_setWatermark peerUrl _ _ mark⟩

/-- Every page of the peer is within the size that the relay takes. -/
def PagesFit (config : SyncConfig) (peer : Tables) : Prop :=
  ∀ (order : HashOrder SyncRecord) (cursor : Option SyncCursor),
    positionOf cursor ≤ peer.syncCounter →
    (syncPage order peer cursor (limitOf (some config.pageLimit.repr))
      maxSyncPageBytes).borshLen ≤ config.maxPageBytes

/-- What a part of a round with some page budget does to the watermark. -/
structure MovesOn (V : Crates) (peer : Tables) (peerUrl : String) (left : ℕ)
    (db db' : Tables) : Prop where
  follows : Follows V peer peerUrl db'
  le : positionOf (watermarkOf peerUrl db) ≤ positionOf (watermarkOf peerUrl db')
  moves : 0 < left → watermarkOf peerUrl db' = latestOf peer ∨
    positionOf (watermarkOf peerUrl db) < positionOf (watermarkOf peerUrl db')

theorem val_of_latestOf
    (hrange : peer.syncCounter < 2 ^ 63)
    {latest : SyncCursor}
    (h : latestOf peer = some latest) :
    latest.val = peer.syncCounter := by
  rw [latestOf_eq] at h
  split_ifs at h
  cases h
  exact SyncCursor.ofCounter_val_of_lt hrange

variable (hV : V.Lawful) (hpeer : Honest V peer)
  (hclock : ∀ i, SeqsWithin V peer ((env i).clock 0))
  (haccepts : ∀ i, Accepts V peer build (env i))
  (hpressure : ∀ i space, (env i).gated space = false)
  (hfit : PagesFit config peer)
include hV hpeer hclock haccepts hpressure hfit

omit hfit in
/-- **A page that is not empty is stored in full**, and its cursor is covered then. -/
theorem ingestPage_follows
    {s : Puller σ}
    (hdb : Copied V peer s.db)
    {cursor : Option SyncCursor}
    (hcovers : Watermark.Covers Row.syncSeq (sourceOf peer) (storedIn s.db) (positionOf cursor))
    {order : HashOrder SyncRecord}
    {limit : Option String}
    {page : SyncPage}
    (hpage : handleSync order peer (cursor.map SyncCursor.display) limit = .ok page)
    (hne : page.records ≠ [])
    (groupOrder : HashOrder (String × List (Certificate × Zone)))
    {budget : Nat}
    (hbudget : 0 < budget) :
    ∃ next stats s', nextCursorOf cursor page = .ok next ∧ positionOf cursor < next.val ∧
      ingestSyncRecords (pullerOps V build env) V groupOrder page.records budget s =
        (.ok stats, s') ∧
      stats.failedSpaces = 0 ∧ stats.incomplete = false ∧ Copied V peer s'.db ∧
      Watermark.Covers Row.syncSeq (sourceOf peer) (storedIn s'.db) next.val := by
  have hpos : positionOf cursor < 2 ^ 63 := hcovers.le_counter.trans_lt hpeer.range
  have hsegment := (segment_of_handleSync hpeer.sequenced hpeer.range hcovers.le_counter
    hpage).2
  rw [handleSync_request] at hpage
  cases hpage
  have hsome : ∃ r ∈ peer.handles.rows, positionOf cursor < r.syncSeq := by
    by_contra hnot
    apply hne
    rw [syncPage_eq_empty hpeer.sequenced.distinct order hpos (one_le_limitOf limit)
      maxSyncPageBytes (fun r hr => not_lt.1 (fun hlt => hnot ⟨r, hr, hlt⟩))]
  obtain ⟨next, hlt, hdisplay, _, _⟩ :=
    syncPage_eq_between hpeer.sequenced.distinct (hpeer.sequenced.i64Range hpeer.range)
      order hpos (one_le_limitOf limit) maxSyncPageBytes hsome
  have hnext := nextCursorOf_of_lt hdisplay hlt
  obtain ⟨stats, s', hingest, hfailed, hcomplete, hpulled, hstores⟩ :=
    ingestSyncRecords_batchable hV hpeer hclock haccepts hpressure hdb
      (batchable_syncPage hpeer hcovers order (limitOf limit) maxSyncPageBytes) groupOrder
      hbudget
  refine ⟨next, stats, s', hnext, hlt, hingest, hfailed, hcomplete, hpulled.copied, ?_⟩
  have hbefore : Watermark.Covers Row.syncSeq (sourceOf peer) (storedIn s'.db)
      (positionOf cursor) :=
    hcovers.grow (Watermark.Grows.refl _) (fun a ha => hpulled.keeps.stores a.handle ha)
  exact hbefore.extend (hsegment next hnext) (fun a ha => hstores a.record ha.2)

omit hV hpeer hclock haccepts hpressure hfit in
/-- An empty page ends the loop, with the watermark at the summary. -/
theorem pullPages_drained
    (left : ℕ)
    {round : Round}
    {s : Puller σ}
    {page : SyncPage}
    (hpage : handleSync (env s.elapsed).rootOrder peer (round.cursor.map SyncCursor.display)
      (some config.pageLimit.repr) = .ok page)
    (hsize : ¬ config.maxPageBytes < page.borshLen)
    (hempty : page.records = [])
    (hbehind : positionOf round.cursor < round.latest.val) :
    ∃ s', pullPages V build env config peerUrl peer (left + 1) round s = (.ok round.totals, s') ∧
      s'.db.handles = s.db.handles ∧ watermarkOf peerUrl s'.db = some round.latest := by
  let s₁ : Puller σ := { s with elapsed := s.elapsed + 1 }
  have hinstant : takeInstant env s = (.ok (env s.elapsed), s₁) := rfl
  obtain ⟨s', hmove, hhandles, hmark⟩ := moveWatermark_apply peerUrl env s₁ round.latest
  refine ⟨s', ?_, hhandles, hmark⟩
  rw [pullPages, Task.bind_of_ok hinstant, hpage, Task.bind_of_ok (Task.lift_ok page s₁),
    if_neg hsize, if_pos (by rw [hempty]; rfl), if_pos hbehind, Task.bind_of_ok hmove]
  rfl

omit hV hpeer hclock haccepts hpressure hfit in
/-- A page that is attempted in full, without a failed space, moves the watermark to its
cursor; the loop ends at the summary and goes on before it. -/
theorem pullPages_stored
    (left : ℕ)
    {round : Round}
    {s s₂ : Puller σ}
    {page : SyncPage}
    {next : SyncCursor}
    {stats : SyncIngest}
    (hpage : handleSync (env s.elapsed).rootOrder peer (round.cursor.map SyncCursor.display)
      (some config.pageLimit.repr) = .ok page)
    (hsize : ¬ config.maxPageBytes < page.borshLen)
    (hne : page.records ≠ [])
    (hnext : nextCursorOf round.cursor page = .ok next)
    (hingest : ingestSyncRecords (pullerOps V build env) V (env s.elapsed).groupOrder page.records
      (remainingFailures round.totals) { s with elapsed := s.elapsed + 1 } = (.ok stats, s₂))
    (hcomplete : stats.incomplete = false)
    (hfailed : (addTotals round.totals stats).failedSpaces = 0)
    (hle : next.val ≤ round.latest.val) :
    ∃ s₃, s₃.db.handles = s₂.db.handles ∧ watermarkOf peerUrl s₃.db = some next ∧
      pullPages V build env config peerUrl peer (left + 1) round s =
        if round.latest.val ≤ next.val then (.ok (addTotals round.totals stats), s₃)
        else pullPages V build env config peerUrl peer left
          { round with totals := addTotals round.totals stats, cursor := some next } s₃ := by
  let s₁ : Puller σ := { s with elapsed := s.elapsed + 1 }
  have hinstant : takeInstant env s = (.ok (env s.elapsed), s₁) := rfl
  obtain ⟨s₃, hmove, hhandles, hmark⟩ := moveWatermark_apply peerUrl env s₂ next
  refine ⟨s₃, hhandles, hmark, ?_⟩
  rw [pullPages, Task.bind_of_ok hinstant, hpage, Task.bind_of_ok (Task.lift_ok page s₁),
    if_neg hsize, if_neg (by simpa using hne), hnext, Task.bind_of_ok (Task.lift_ok next s₁),
    Task.bind_of_ok hingest]
  simp only [hcomplete, Bool.false_eq_true, if_false]
  generalize hround : ({ round with totals := addTotals round.totals stats } : Round) = round'
  have hlatest : round'.latest = round.latest := by
    rw [← hround]
  have htotals : round'.totals = addTotals round.totals stats := by
    rw [← hround]
  have hgoesOn : ({ round with totals := addTotals round.totals stats, cursor := some next } :
      Round) = { round' with cursor := some next } := by
    rw [← hround]
  have haccepted : acceptedCursor round' next = next := by
    unfold acceptedCursor
    rw [hlatest, if_pos hle]
  rw [haccepted, Task.bind_of_ok hmove, hgoesOn, ← htotals]
  by_cases hdone : round.latest.val ≤ next.val
  · have hadvance : afterAdvance round' next = .idle := by
      unfold afterAdvance
      rw [hlatest, if_pos hdone]
    rw [hadvance, if_pos hdone]
    rfl
  · have hadvance : afterAdvance round' next = .paging { round' with cursor := some next } := by
      unfold afterAdvance
      rw [hlatest, if_neg hdone, if_neg (by rw [htotals, hfailed]; exact Nat.not_lt_zero _)]
    rw [hadvance, if_neg hdone]

/-- What the paging loop relies on at its head. -/
structure AtHead (V : Crates) (peer : Tables) (peerUrl : String) (round : Round)
    (db : Tables) : Prop where
  follows : Follows V peer peerUrl db
  cursor : watermarkOf peerUrl db = round.cursor
  latest : latestOf peer = some round.latest
  behind : positionOf round.cursor < round.latest.val
  noFailures : round.totals.failedSpaces = 0

/-- **The paging loop keeps the relay in step**, and moves the watermark. -/
theorem pullPages_follows
    (left : ℕ)
    {round : Round}
    {s : Puller σ}
    (h : AtHead V peer peerUrl round s.db) :
    ∃ out s', pullPages V build env config peerUrl peer left round s = (.ok out, s') ∧
      out.failedSpaces = 0 ∧ MovesOn V peer peerUrl left s.db s'.db := by
  induction left generalizing round s with
  | zero =>
      exact ⟨round.totals, s, rfl, h.noFailures, h.follows, le_rfl,
        fun hleft => absurd hleft (lt_irrefl 0)⟩
  | succ left ih =>
      have hval := val_of_latestOf hpeer.range h.latest
      have hcovers := h.follows.covers
      rw [h.cursor] at hcovers
      obtain ⟨page, hpage, hsize⟩ : ∃ page, handleSync (env s.elapsed).rootOrder peer
          (round.cursor.map SyncCursor.display) (some config.pageLimit.repr) = .ok page ∧
            ¬ config.maxPageBytes < page.borshLen :=
        ⟨_, handleSync_request _ _ _ _,
          not_lt.2 (hfit (env s.elapsed).rootOrder round.cursor hcovers.le_counter)⟩
      by_cases hnone : page.records = []
      · -- nothing is left: the watermark catches up
        obtain ⟨s', hrun, hhandles, hmark⟩ :=
          pullPages_drained left hpage hsize hnone h.behind
        have hempty := (segment_of_handleSync hpeer.sequenced hpeer.range hcovers.le_counter
          hpage).1 round.latest.val hval.le hnone
        refine ⟨round.totals, s', hrun, h.noFailures, ?_, ?_, fun _ => Or.inl ?_⟩
        · exact Follows.move h.follows.copied hhandles hmark ((Nat.zero_le _).trans_lt h.behind)
            (hcovers.extend hempty (Set.empty_subset _))
        · rw [h.cursor, hmark]
          exact h.behind.le
        · rw [hmark, h.latest]
      · obtain ⟨next, stats, s₂, hnext, hlt, hingest, hfailed, hcomplete, hcopied, hreached⟩ :=
          ingestPage_follows hV hpeer hclock haccepts hpressure
            (s := { s with elapsed := s.elapsed + 1 }) h.follows.copied hcovers hpage hnone
            (env s.elapsed).groupOrder (Nat.succ_pos _)
        have hzero : (addTotals round.totals stats).failedSpaces = 0 := by
          show round.totals.failedSpaces + stats.failedSpaces = 0
          rw [h.noFailures, hfailed]
        obtain ⟨s₃, hhandles, hmark, hrun⟩ :=
          pullPages_stored left hpage hsize hnone hnext hingest hcomplete hzero
            (hreached.le_counter.trans hval.ge)
        have hs₃ : Follows V peer peerUrl s₃.db :=
          Follows.move hcopied hhandles hmark ((Nat.zero_le _).trans_lt hlt) hreached
        have hahead : positionOf (watermarkOf peerUrl s.db) <
            positionOf (watermarkOf peerUrl s₃.db) := by
          rw [h.cursor, hmark]
          exact hlt
        by_cases hdone : round.latest.val ≤ next.val
        · rw [if_pos hdone] at hrun
          exact ⟨_, s₃, hrun, hzero, hs₃, hahead.le, fun _ => Or.inr hahead⟩
        · rw [if_neg hdone] at hrun
          have hhead : AtHead V peer peerUrl
              { round with totals := addTotals round.totals stats, cursor := some next } s₃.db :=
            ⟨hs₃, hmark, h.latest, not_le.1 hdone, hzero⟩
          obtain ⟨out, s', hrest, hout, hmoves⟩ := ih hhead
          exact ⟨out, s', hrun.trans hrest, hout, hmoves.follows, hahead.le.trans hmoves.le,
            fun _ => Or.inr (hahead.trans_le hmoves.le)⟩

omit hV hclock haccepts hpressure hfit in
variable (config) in
/-- Behind the summary a call starts to page. -/
theorem afterSummary_behind
    {db : Tables}
    (h : Follows V peer peerUrl db)
    (hbehind : watermarkOf peerUrl db ≠ latestOf peer) :
    ∃ round, afterSummary config (watermarkOf peerUrl db) (syncSummary peer) = .paging round ∧
      AtHead V peer peerUrl round db ∧ round.pagesLeft = config.maxPagesPerPeer := by
  have hle : positionOf (watermarkOf peerUrl db) ≤ peer.syncCounter := h.covers.le_counter
  cases hlatest : latestOf peer with
  | none =>
      -- the peer has stored nothing yet, and no watermark is zero
      exfalso
      rw [latestOf_eq, ite_eq_right_iff] at hlatest
      have hzero : ¬ 0 < peer.syncCounter := fun hpos => Option.some_ne_none _ (hlatest hpos)
      cases hmark : watermarkOf peerUrl db with
      | none =>
          exact hbehind (by rw [hmark, latestOf_eq, if_neg hzero])
      | some mark =>
          have hpos := h.moved mark hmark
          rw [hmark] at hle
          exact hzero (hpos.trans_le hle)
  | some latest =>
      have hval := val_of_latestOf hpeer.range hlatest
      have hsummary : (syncSummary peer).latestCursor.bind
          (fun c => (SyncCursor.fromStr c).toOption) = some latest := hlatest
      unfold afterSummary
      simp only [hsummary]
      cases hmark : watermarkOf peerUrl db with
      | none =>
          refine ⟨_, rfl, ⟨h, hmark, hlatest, ?_, rfl⟩, rfl⟩
          rw [latestOf_eq, Option.ite_none_right_eq_some] at hlatest
          show 0 < latest.val
          rw [hval]
          exact hlatest.1
      | some mark =>
          rw [hmark] at hle
          have hle : mark.val ≤ latest.val := by
            rw [hval]
            exact hle
          have hne : latest ≠ mark := by
            rintro rfl
            exact hbehind (hmark.trans hlatest.symm)
          have hlt : mark.val < latest.val :=
            lt_of_le_of_ne hle (fun he => hne (SyncCursor.ext he.symm))
          simp only [if_neg (not_lt.2 hle), if_neg hne]
          exact ⟨_, rfl, ⟨h, hmark, hlatest, hlt, rfl⟩, rfl⟩

omit hV hpeer hclock haccepts hpressure hfit in
/-- A relay that is caught up does nothing. -/
theorem syncWithPeer_caughtUp
    {s : Puller σ}
    (h : watermarkOf peerUrl s.db = latestOf peer) :
    syncWithPeer V build env config peerUrl peer s = (.ok {}, s) := by
  have hidle : afterSummary config (watermarkOf peerUrl s.db) (syncSummary peer) = .idle := by
    unfold afterSummary
    rw [h]
    unfold latestOf
    cases (syncSummary peer).latestCursor.bind (fun c => (SyncCursor.fromStr c).toOption) with
    | none =>
        rfl
    | some latest =>
        simp
  have hread : (reading (watermarkOf peerUrl) : Task String (Puller σ) _) s =
      (.ok (watermarkOf peerUrl s.db), s) := rfl
  unfold syncWithPeer
  rw [Task.bind_of_ok hread, hidle]
  rfl

variable (hpages : 1 ≤ config.maxPagesPerPeer)
include hpages

/-- **A round keeps the relay in step**, and catches up or moves the watermark on. -/
theorem syncWithPeer_follows
    {s : Puller σ}
    (h : Follows V peer peerUrl s.db) :
    ∃ out s', syncWithPeer V build env config peerUrl peer s = (.ok out, s') ∧
      out.failedSpaces = 0 ∧ Follows V peer peerUrl s'.db ∧
      (watermarkOf peerUrl s'.db = latestOf peer ∨
        positionOf (watermarkOf peerUrl s.db) < positionOf (watermarkOf peerUrl s'.db)) := by
  by_cases hcaught : watermarkOf peerUrl s.db = latestOf peer
  · exact ⟨{}, s, syncWithPeer_caughtUp hcaught, rfl, h, Or.inl hcaught⟩
  · obtain ⟨round, hround, hhead, hleft⟩ :=
      afterSummary_behind config hpeer h hcaught
    obtain ⟨out, s', hrun, hout, hmoves⟩ :=
      pullPages_follows hV hpeer hclock haccepts hpressure hfit round.pagesLeft hhead
    refine ⟨out, s', ?_, hout, hmoves.follows, hmoves.moves (by rw [hleft]; exact hpages)⟩
    have hread : (reading (watermarkOf peerUrl) : Task String (Puller σ) _) s =
        (.ok (watermarkOf peerUrl s.db), s) := rfl
    unfold syncWithPeer
    rw [Task.bind_of_ok hread, hround]
    exact hrun

end Rounds

section Convergence

variable (V : Crates) {σ Proof Msg : Type} (build : MessageBuilder → Proof → Except String Msg)
  (env : ℕ → Instant σ Proof Msg) (config : SyncConfig) (peerUrl : String) (peer : Tables)

/-- What a bootstrap starts from: an honest peer, an empty relay under no storage pressure,
proofs that succeed and groups that are accepted, and pages that fit. -/
structure Bootstraps (s : Puller σ) : Prop where
  lawful : V.Lawful
  honest : Honest V peer
  empty : s.db = Tables.init
  noPressure : ∀ i space, (env i).gated space = false
  accepts : ∀ i, Accepts V peer build (env i)
  fits : PagesFit config peer
  pages : 1 ≤ config.maxPagesPerPeer

/-- The rounds of a relay all succeed without a failed space, and from some round on the
watermark is the latest cursor of the peer and every handle of the peer is stored. -/
def Converges (s : Puller σ) : Prop :=
  (∀ n, ∃ out, (syncWithPeer V build env config peerUrl peer
      (afterRounds V build env config peerUrl peer n s)).1 = .ok out ∧ out.failedSpaces = 0) ∧
    ∃ rounds, ∀ n, rounds ≤ n →
      let s' := afterRounds V build env config peerUrl peer n s
      watermarkOf peerUrl s'.db = latestOf peer ∧
        ∀ a ∈ peer.handles.rows, s'.db.Stores a.handle

variable {V build env config peerUrl peer}

/-- A relay that is caught up stays as it is. -/
theorem afterRounds_caughtUp
    {s : Puller σ}
    {k n : ℕ}
    (hn : k ≤ n)
    (h : watermarkOf peerUrl (afterRounds V build env config peerUrl peer k s).db =
      latestOf peer) :
    afterRounds V build env config peerUrl peer n s =
      afterRounds V build env config peerUrl peer k s := by
  obtain ⟨m, rfl⟩ := Nat.exists_eq_add_of_le' hn
  unfold afterRounds at h ⊢
  rw [Function.iterate_add_apply]
  exact Function.iterate_fixed (by rw [syncWithPeer_caughtUp h]) m

/-- A relay that is caught up stores every handle of the peer. -/
theorem Follows.stores_of_caughtUp
    {db : Tables}
    (h : Follows V peer peerUrl db)
    (hpeer : Honest V peer)
    (hcaught : watermarkOf peerUrl db = latestOf peer)
    {a : Row}
    (ha : a ∈ peer.handles.rows) :
    db.Stores a.handle := by
  have hcovers := h.covers
  rw [hcaught] at hcovers
  apply hcovers.mem_done a ha
  have hle := hpeer.sequenced.le_counter a ha
  rw [latestOf_eq, if_pos (a.syncSeq_pos.trans_le hle)]
  show a.syncSeq ≤ (SyncCursor.ofCounter peer.syncCounter).val
  rw [SyncCursor.ofCounter_val_of_lt hpeer.range]
  exact hle

section Bootstrapping

variable {s₀ : Puller σ} (h : Bootstraps V build env config peer s₀)
  (hclock : ∀ i, SeqsWithin V peer ((env i).clock 0))
include h hclock

theorem Bootstraps.round
    {s : Puller σ}
    (hs : Follows V peer peerUrl s.db) :
    ∃ out s', syncWithPeer V build env config peerUrl peer s = (.ok out, s') ∧
      out.failedSpaces = 0 ∧ Follows V peer peerUrl s'.db ∧
      (watermarkOf peerUrl s'.db = latestOf peer ∨
        positionOf (watermarkOf peerUrl s.db) < positionOf (watermarkOf peerUrl s'.db)) :=
  syncWithPeer_follows h.lawful h.honest hclock h.accepts h.noPressure h.fits h.pages hs

theorem Bootstraps.follows_step
    {s : Puller σ}
    (hs : Follows V peer peerUrl s.db) :
    Follows V peer peerUrl (syncWithPeer V build env config peerUrl peer s).2.db := by
  obtain ⟨_, s', hrun, _, hfollows, _⟩ := h.round hclock hs
  rw [hrun]
  exact hfollows

/-- **The relay is in step with its watermark after any number of rounds.** -/
theorem Bootstraps.follows_afterRounds
    (n : ℕ) :
    Follows V peer peerUrl (afterRounds V build env config peerUrl peer n s₀).db := by
  have hstart : Follows V peer peerUrl s₀.db := by
    rw [h.empty]
    exact follows_init
  exact Function.Iterate.rec (fun s : Puller σ => Follows V peer peerUrl s.db)
    hstart (fun _ hs => h.follows_step hclock hs) n

/-- **It is caught up after more rounds than the peer has written rows.** -/
theorem Bootstraps.caughtUp
    {n : ℕ}
    (hn : peer.syncCounter < n) :
    watermarkOf peerUrl (afterRounds V build env config peerUrl peer n s₀).db =
      latestOf peer := by
  -- the distance to the counter falls with every round that does not catch up
  refine Runs.iterate_reaches (fun s : Puller σ => Follows V peer peerUrl s.db)
    (fun s => watermarkOf peerUrl s.db = latestOf peer)
    (fun s => peer.syncCounter - positionOf (watermarkOf peerUrl s.db))
    (fun _ hs => h.follows_step hclock hs) ?_ ?_ (h.follows_afterRounds hclock 0) (Or.inr ?_)
  · intro s _ hdone
    rw [syncWithPeer_caughtUp hdone]
    exact hdone
  · intro s hs _
    obtain ⟨_, s', hrun, _, hs', hmoves⟩ := h.round hclock hs
    rw [hrun]
    refine hmoves.imp_right (fun hlt => ?_)
    have hle : positionOf (watermarkOf peerUrl s'.db) ≤ peer.syncCounter :=
      hs'.covers.le_counter
    show peer.syncCounter - positionOf (watermarkOf peerUrl s'.db) <
      peer.syncCounter - positionOf (watermarkOf peerUrl s.db)
    omega
  · show peer.syncCounter - _ < n
    omega

end Bootstrapping

/-- **Bootstrap convergence.**  If no stored sequence is more than six hours ahead of the
relay's clock, then whatever the iteration orders and limits, everything arrives. -/
theorem bootstrap_converges
    {s : Puller σ}
    (h : Bootstraps V build env config peer s)
    (hclock : ∀ i, SeqsWithin V peer ((env i).clock 0)) :
    Converges V build env config peerUrl peer s := by
  refine ⟨fun n => ?_, peer.syncCounter + 1, fun n hn => ?_⟩
  · obtain ⟨out, s', hrun, hout, _⟩ := h.round hclock (h.follows_afterRounds hclock n)
    rw [hrun]
    exact ⟨out, rfl, hout⟩
  · have hcaught : watermarkOf peerUrl (afterRounds V build env config peerUrl peer n s).db =
        latestOf peer :=
      h.caughtUp hclock hn
    exact ⟨hcaught, fun a ha =>
      (h.follows_afterRounds hclock n).stores_of_caughtUp h.honest hcaught ha⟩

end Convergence

section Fitting

theorem limitOf_le
    (limit : Option String) :
    limitOf limit ≤ 1000 := by
  have hle : ∀ n, max 1 (min n maxSyncPageRows) ≤ 1000 := by
    intro n
    exact max_le (by decide) (min_le_right _ _)
  rw [UInt64.le_iff_toNat_le]
  unfold limitOf
  rw [UInt64.toNat_ofNat_of_lt' ((hle _).trans_lt (by decide))]
  exact hle _

/-- **Pages fit a limit for which a thousand rows and their roots fit.** -/
theorem pagesFit_of_rowsFit
    {peer : Tables}
    {maxMessageSize : UInt64}
    {maxName : Nat}
    (hrows : RowsFit maxMessageSize maxName peer)
    (hname : 1 ≤ maxName)
    {config : SyncConfig}
    (hbound : 28 + 1000 * (2 * maxName + 63) + 2 * 1000 * maxMessageSize.toNat ≤
      config.maxPageBytes) :
    PagesFit config peer := by
  intro order cursor _
  let limit := limitOf (some config.pageLimit.repr)
  have hlen : (mainOf peer cursor limit maxSyncPageBytes).length ≤ 1000 :=
    (length_mainOf_le peer cursor limit maxSyncPageBytes (limitOf_le _)).trans
      (UInt64.le_iff_toNat_le.1 (limitOf_le _))
  have hpayload := (payload_cases order cursor limit maxSyncPageBytes hrows).1
  have hmain := Nat.mul_le_mul_right (2 * maxName + 63) hlen
  have hmessages := Nat.mul_le_mul_right maxMessageSize.toNat (Nat.mul_le_mul_left 2 hlen)
  have hpage := borshLen_syncPage_le order cursor limit maxSyncPageBytes hrows hname
  show (syncPage order peer cursor limit maxSyncPageBytes).borshLen ≤ config.maxPageBytes
  omega

end Fitting

section Sample

/-- Crates over some pairs, whose sequences count in steps of 10000 seconds. -/
def Crates.ofPairs (pairs : List (Certificate × Zone)) : Crates :=
  { Crates.ofTables (pairs.map Prod.fst) (pairs.map Prod.snd) with
    recordsSeq := fun r => r.slice.head?.map (fun b => 10000 * b.toNat) }

/-- A sub-handle and its root, with records of a sequence. -/
def samplePairs (seq : UInt8) : List (Certificate × Zone) :=
  ["alice@bitcoin", "@bitcoin"].map (fun name =>
    (⟨0, ⟨name⟩, .other []⟩, { sampleZone seq 1 1 0 with canonical := ⟨name⟩ }))

abbrev pairCrates (seq : UInt8) : Crates :=
  Crates.ofPairs (samplePairs seq)

/-- A peer that stored the sub-handle before the root. -/
def pairPeer (seq : UInt8) : Tables :=
  let updates := (samplePairs seq).map (fun cz => ⟨cz.1, cz.2, 1, 10000 * seq.toNat, 0⟩)
  runCalls (pairCrates seq) Tables.init [.updateHandles 10000 updates]

/-- An instant at clock 0: no pressure, proofs succeed, groups verify as they are. -/
def pairInstant (seq : UInt8) : Instant Unit Unit MessageBuilder where
  groupOrder := HashOrder.inserted
  rootOrder := HashOrder.inserted
  now := 0
  clock _ := 0
  gated _ := false
  prove _ := .ok ()
  handler :=
    { devMode := false
      limiters := ⟨fun _ s => (true, s), fun _ s => (true, s), id⟩
      spaces _ := ["@bitcoin"]
      verify _ _ builder := .ok ⟨(samplePairs seq).map Prod.snd, builder.certs⟩
      isSingleLabel n := n.text.toList.head? = some '@' }

def builtAs (builder : MessageBuilder) (_ : Unit) : Except String MessageBuilder :=
  .ok builder

/-- Rounds of one page, of one row and the roots it needs. -/
def pairConfig : SyncConfig :=
  ⟨1, 1, 400000⟩

/-- An empty relay. -/
def emptyPuller : Puller Unit :=
  ⟨HandlerState.fresh (), 0⟩

theorem pairCrates_lawful (seq : UInt8) : (pairCrates seq).Lawful := by
  have h : (Crates.ofTables ((samplePairs seq).map Prod.fst)
      ((samplePairs seq).map Prod.snd)).Lawful :=
    Crates.ofTables_lawful (by simp [samplePairs]) (by simp [samplePairs])
  refine ⟨h.cert_decode, h.zone_decode, h.zone_withRecords, ?_⟩
  intro records hempty
  have hslice : records.slice = [] := by
    simpa [RecordSet.isEmpty] using hempty
  simp [pairCrates, Crates.ofPairs, hslice]

variable {seq : UInt8} (hseq : seq = 1 ∨ seq = 3)
include hseq

/-- What the peer stores under a handle is its pair of the handle. -/
theorem storesPair_pairPeer
    {handle : String}
    {cz : Certificate × Zone}
    (h : StoresPair (pairCrates seq) (pairPeer seq) handle cz) :
    zoneOf ((samplePairs seq).map Prod.snd) handle = some cz.2 ∧
      ∃ bytes, (pairCrates seq).zoneToVec cz.2 = .ok bytes := by
  have hrows : ∀ r ∈ (pairPeer seq).handles.rows,
      zoneOf ((samplePairs seq).map Prod.snd) r.handle =
        ((pairCrates seq).zoneFromSlice r.zoneData).toOption := by
    rcases hseq with rfl | rfl <;> decide +kernel
  obtain ⟨r, hr, rfl, hholds⟩ := h
  refine ⟨?_, r.zoneData, hholds.zone⟩
  rw [hrows r hr, (pairCrates_lawful seq).zone_decode hholds.zone]
  rfl

theorem honest_pairPeer : Honest (pairCrates seq) (pairPeer seq) := by
  have hreachable : Reachable (pairCrates seq) (pairPeer seq) := ⟨_, rfl⟩
  refine ⟨reachable_sequenced _ hreachable, ?_,
    ⟨reachable_rowsEncoded _ hreachable, fun handle zone h => ?_⟩, ?_, ?_⟩
  · rcases hseq with rfl | rfl <;> decide +kernel
  · obtain ⟨r, hfind, hdecode⟩ := (storedZone_eq_some_iff _).1 h
    have hsmall : ∀ r ∈ (pairPeer seq).handles.rows, ∀ zone ∈
        ((pairCrates seq).zoneFromSlice r.zoneData).toOption,
        zone.records.slice.length ≤ maxRecordsSize := by
      rcases hseq with rfl | rfl <;> decide +kernel
    exact hsmall r (KeyedTable.find?_eq_some_iff.1 hfind).1 zone
      (Fallible.toOption_eq_some.2 hdecode)
  · rcases hseq with rfl | rfl <;> decide +kernel
  · rcases hseq with rfl | rfl <;> decide +kernel

theorem accepts_pairInstant :
    Accepts (pairCrates seq) (pairPeer seq) builtAs (pairInstant seq) := by
  intro space group hgroup
  refine ⟨(), builderOf group, rfl, rfl, fun ctx _ => ⟨_, rfl, fun cert => Iff.rfl, ?_⟩⟩
  intro cz hcz
  obtain ⟨hzone, bytes, hbytes⟩ := storesPair_pairPeer hseq (hgroup.stored cz hcz)
  exact ⟨cz.2, bytes, hzone, hbytes, fun _ => rfl⟩

theorem bootstraps_pairPeer :
    Bootstraps (pairCrates seq) builtAs (fun _ => pairInstant seq) pairConfig (pairPeer seq)
      emptyPuller := by
  have hfit : RowsFit 100 20 (pairPeer seq) := by
    refine ⟨(honest_pairPeer hseq).sequenced.i64Range (honest_pairPeer hseq).range, ?_, ?_⟩
    · rcases hseq with rfl | rfl <;> decide +kernel
    · rcases hseq with rfl | rfl <;> decide +kernel
  exact ⟨pairCrates_lawful seq, honest_pairPeer hseq, rfl, fun _ _ => rfl,
    fun _ => accepts_pairInstant hseq, pagesFit_of_rowsFit hfit (by decide) (by decide), by decide⟩

end Sample

/-- A sub-handle that was stored before its root arrives with it. -/
theorem bootstrap_converges_sample :
    Converges (pairCrates 1) builtAs (fun _ => pairInstant 1) pairConfig "https://peer"
      (pairPeer 1) emptyPuller := by
  apply bootstrap_converges (bootstraps_pairPeer (Or.inl rfl))
  intro _ handle cz h
  have hzone := (Fallible.lastMatch_mem (storesPair_pairPeer (Or.inl rfl) h).1).1
  have htimely : ∀ z ∈ (samplePairs 1).map Prod.snd,
      (pairCrates 1).seqOr0 z.records ≤ maxSeq 0 ∧ (pairCrates 1).delegateSeqOr0 z ≤ maxSeq 0 := by
    decide
  exact htimely cz.2 hzone

/-- A relay whose clock is more than six hours behind the sequences of its peer reaches the
peer's latest cursor without a failed space, and stores nothing. -/
theorem skewed_clock :
    Bootstraps (pairCrates 3) builtAs (fun _ => pairInstant 3) pairConfig (pairPeer 3)
        emptyPuller ∧
      ¬ Converges (pairCrates 3) builtAs (fun _ => pairInstant 3) pairConfig "https://peer"
        (pairPeer 3) emptyPuller := by
  refine ⟨bootstraps_pairPeer (Or.inr rfl), fun hconverges => ?_⟩
  obtain ⟨rounds, hrounds⟩ := hconverges.2
  have hcaught : watermarkOf "https://peer" (afterRounds (pairCrates 3) builtAs
      (fun _ => pairInstant 3) pairConfig "https://peer" (pairPeer 3) 2 emptyPuller).db =
        latestOf (pairPeer 3) := by
    decide +kernel
  have hnone : (afterRounds (pairCrates 3) builtAs (fun _ => pairInstant 3) pairConfig
      "https://peer" (pairPeer 3) 2 emptyPuller).db.handles.rows = [] := by
    decide +kernel
  have hpeer : (pairPeer 3).handles.rows ≠ [] := by
    decide +kernel
  obtain ⟨a, ha⟩ := List.exists_mem_of_ne_nil _ hpeer
  obtain ⟨r, hr, _⟩ := (hrounds (rounds + 2) (by omega)).2 a ha
  rw [afterRounds_caughtUp (by omega) hcaught, hnone] at hr
  cases hr

end CertRelay
