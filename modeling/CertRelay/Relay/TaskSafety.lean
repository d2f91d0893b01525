import CertRelay.Relay.MessageTasks
import CertRelay.Relay.Provenance
import CertRelay.Relay.PreSkip

/-!
# Messages handled at once are handled safely

Between the steps of a call the store changes under its hands: the hints that it filters by
may be out of date when its updates arrive, and its index rows are written after other calls
have stored.  What a call knows stays true of the log, which only grows, and that is enough.

**Results.**
* `Sound.call`: one call of the store keeps what its log leaves sound;
* `kept_filterCert`: one certificate is dealt with, or its record waits for a limiter;
* `kept_step`: a step of a call keeps the store sound, and knows what its next stage needs;
* `interleaved_calls_sound`: every interleaving of calls and evictions leaves a sound store;
* `no_update_lost`: a call that has returned has dealt with each of its certificates.
-/

namespace CertRelay
namespace MessageTasks

open Interleaving

section Sound

variable (V : Crates) {σ Msg : Type} (jobs : List (Job σ Msg))

/-- A result that one of the calls has verified, on root zones read from the store. -/
def VerifiedBy (log : List StoreCall) (res : VerifiedMessage) : Prop :=
  ∃ job ∈ jobs, ∃ before ctx, before <+: log ∧
    getZones V (runCalls V Tables.init before) (job.handler.spaces job.msg) = .ok ctx ∧
    job.handler.verify job.handler.devMode ctx job.msg = .ok res

/-- What a log of calls leaves is sound: they bring what was derived from its zone, at times
that ascend, the columns of the rows match the blobs, and every row was verified. -/
structure Sound (now : ℕ) (log : List StoreCall) : Prop where
  brings : ∀ call ∈ log, call.Brings (Derived V)
  ascends : ClockAscends log
  written : ∀ t ∈ log.filterMap StoreCall.writeTime, t ≤ now
  inStep : RowsInStep V now (runCalls V Tables.init log)
  traced : Traced V (VerifiedBy V jobs log) (runCalls V Tables.init log)

variable {V jobs}

theorem VerifiedBy.longer
    {log : List StoreCall}
    {res : VerifiedMessage}
    (h : VerifiedBy V jobs log res)
    (entries : List StoreCall) :
    VerifiedBy V jobs (log ++ entries) res := by
  obtain ⟨job, hjob, before, ctx, hbefore, hrest⟩ := h
  exact ⟨job, hjob, before, ctx, hbefore.trans (List.prefix_append _ _), hrest⟩

theorem sound_init (now : ℕ) : Sound V jobs now [] := by
  refine ⟨List.forall_mem_nil _, List.Pairwise.nil, List.forall_mem_nil _, ?_, traced_init⟩
  exact ⟨rowsEncoded_init V, List.forall_mem_nil _, List.forall_mem_nil _⟩

theorem Sound.later
    {now later : ℕ}
    {log : List StoreCall}
    (h : Sound V jobs now log)
    (hle : now ≤ later) :
    Sound V jobs later log :=
  ⟨h.brings, h.ascends, fun t ht => (h.written t ht).trans hle, h.inStep.mono hle, h.traced⟩

/-- The columns stay in step over a call at the present time. -/
theorem inStep_runCall
    (hV : V.Lawful)
    {now : ℕ}
    {db : Tables}
    (hdb : RowsInStep V now db)
    {call : StoreCall}
    (hbrings : call.Brings (Derived V))
    (htime : ∀ t, call.writeTime = some t → t = now) :
    RowsInStep V now (runCall V db call) := by
  have hencoded := rowsEncoded_runCall V hdb.encoded call
  have hfewer : (∀ r ∈ (runCall V db call).handles.rows, r ∈ db.handles.rows) →
      RowsInStep V now (runCall V db call) := fun hsub =>
    ⟨hencoded, fun r hr => hdb.inStep r (hsub r hr), fun r hr => hdb.updatedAt_le r (hsub r hr)⟩
  rcases runCall_cases V db call with
    hsame | ⟨handles, mid, _, hsame, heq⟩ | ⟨t, updates, res, rfl, hok⟩
  · exact hfewer (fun r hr => hsame.handles ▸ hr)
  · refine hfewer (fun r hr => ?_)
    rw [heq, mem_foldl_deleteRow, hsame.handles] at hr
    exact hr.1
  · obtain rfl := htime t rfl
    exact inStep_updateHandles hV hdb hbrings hok

/-- **One call of the store keeps it sound.** -/
theorem Sound.call
    (hV : V.Lawful)
    {now : ℕ}
    {log : List StoreCall}
    (h : Sound V jobs now log)
    {call : StoreCall}
    (hbrings : call.Brings (Derived V))
    (htime : ∀ t, call.writeTime = some t → t = now)
    (hvouched : call.VouchedBy V (VerifiedBy V jobs log)) :
    Sound V jobs now (log ++ [call]) := by
  have hrun : runCalls V Tables.init (log ++ [call]) =
      runCall V (runCalls V Tables.init log) call :=
    runCalls_append V Tables.init log [call]
  have htimes := filterMap_writeTime_concat log call
  refine ⟨?_, ?_, ?_, ?_, ?_⟩
  · exact List.forall_mem_append.2 ⟨h.brings, List.forall_mem_singleton.2 hbrings⟩
  · unfold ClockAscends
    rw [htimes, List.pairwise_append]
    refine ⟨h.ascends, ?_, fun before hbefore t ht => ?_⟩
    · cases call.writeTime <;> simp
    · rw [htime t (Option.mem_toList.1 ht)]
      exact h.written before hbefore
  · intro t ht
    rw [htimes] at ht
    rcases List.mem_append.1 ht with hold | hnew
    · exact h.written t hold
    · exact (htime t (Option.mem_toList.1 hnew)).le
  · rw [hrun]
    exact inStep_runCall hV h.inStep hbrings htime
  · rw [hrun]
    exact (traced_runCall hV h.traced hvouched).mono (fun res hres => hres.longer [call])

end Sound

section Stages

variable (V : Crates) {σ Msg : Type} (jobs : List (Job σ Msg))

/-- At some instant since a call began, in a sound store, a property held. -/
def During (log : List StoreCall) (begun : ℕ) (P : List StoreCall → Prop) : Prop :=
  ∃ before now, before <+: log ∧ begun ≤ before.length ∧ Sound V jobs now before ∧ P before

/-- Why a record is not among the updates of its call, or no longer. -/
inductive Fate (job : Job σ Msg) (space : String) (record : HandleRecord)
    (before : List StoreCall) : Prop
  /-- The hint of its handle says that it is stored. -/
  | redelivered (handles : List String)
      (h : isRedelivery V (hintOf (getHandleHints (runCalls V Tables.init before) handles)
        record.handle) record = true)
  /-- It is the first of its handle, and its space is gated. -/
  | gated (hnew : (runCalls V Tables.init before).handles.find? record.handle = none)
      (hgated : space ∈ job.gatedSpaces)
  /-- A row of its handle is there that has as late an epoch, and limits are charged. -/
  | limited (row : Row)
      (hrow : (runCalls V Tables.init before).handles.find? record.handle = some row)
      (hcharge : job.charge = true) (hdev : job.handler.devMode = false)
      (hchurn : record.epochHeight ≤ row.epochHeight)
  /-- It was brought to the store, just before. -/
  | brought (earlier : List StoreCall) (now : ℕ) (updates : List HandleRecord)
      (db : Tables) (result : BulkStoreResult)
      (hbefore : before = earlier ++ [.updateHandles now updates])
      (hok : updateHandles V now (runCalls V Tables.init earlier) updates = .ok (db, result))
      (hmem : record ∈ updates)
      (hsame : ∀ u ∈ updates, u.handle = record.handle → u.zone = record.zone)

/-- A certificate with a zone and a space, if it is dealt with: its record is one of these, or
it met its fate since the call began. -/
def Dealt (log : List StoreCall) (begun : ℕ) (job : Job σ Msg) (zones : List Zone)
    (P : HandleRecord → Prop) (cert : Certificate) : Prop :=
  ∀ zone space, zoneFor zones cert.subject.text = some zone → V.space cert.subject = some space →
    P (bundle V job.handler zones cert zone space) ∨
      During V jobs log begun (Fate V job space (bundle V job.handler zones cert zone space))

/-- The hints of a call were read since it began. -/
def HintsRead (log : List StoreCall) (begun : ℕ) (existing : List HandleHintRow)
    (res : VerifiedMessage) : Prop :=
  During V jobs log begun fun before => existing =
    getHandleHints (runCalls V Tables.init before)
      (res.certificates.map (fun c => c.subject.text))

/-- What a call holds after some of its certificates. -/
structure Filtered (log : List StoreCall) (begun : ℕ) (job : Job σ Msg) (res : VerifiedMessage)
    (done : List Certificate) (acc : Collected) (P : HandleRecord → Prop) : Prop where
  verified : VerifiedBy V jobs log res
  collects : Collects V job.handler res.zones done acc
  dealt : ∀ cert ∈ done, Dealt V jobs log begun job res.zones P cert

/-- The record of one of the certificates. -/
def Bundled (job : Job σ Msg) (res : VerifiedMessage) (done : List Certificate)
    (record : HandleRecord) : Prop :=
  ∃ cert ∈ done, ∃ zone space, zoneFor res.zones cert.subject.text = some zone ∧
    V.space cert.subject = some space ∧ record = bundle V job.handler res.zones cert zone space

/-- What a call that stands at a stage knows, of the log and not of the store. -/
def Kept (log : List StoreCall) (begun : ℕ) : Stage σ Msg → Prop
  | .counting job => job ∈ jobs
  | .loading job => job ∈ jobs
  | .verifying job ctx => job ∈ jobs ∧ ∃ before, before <+: log ∧
      getZones V (runCalls V Tables.init before) (job.handler.spaces job.msg) = .ok ctx
  | .hinting _ res => VerifiedBy V jobs log res
  | .filtering job res existing left acc => HintsRead V jobs log begun existing res ∧
      ∃ done, res.certificates = done ++ left ∧
        Filtered V jobs log begun job res done acc (· ∈ acc.updates)
  | .charging job res existing left acc record => HintsRead V jobs log begun existing res ∧
      ∃ done, res.certificates = done ++ left ∧ Bundled V job res done record ∧
        (∀ space, During V jobs log begun (Fate V job space record)) ∧
        Filtered V jobs log begun job res done acc (fun u => u ∈ acc.updates ∨ u = record)
  | .storing job res acc =>
      Filtered V jobs log begun job res res.certificates acc (· ∈ acc.updates)
  | .reversing job res acc _ =>
      Filtered V jobs log begun job res res.certificates acc (fun _ => False)
  | .indexing job res acc _ _ =>
      Filtered V jobs log begun job res res.certificates acc (fun _ => False)
  | .returned job res _ =>
      ∀ cert ∈ res.certificates, Dealt V jobs log begun job res.zones (fun _ => False) cert
  | .failed _ => True

variable {V jobs} {log : List StoreCall} {begun : ℕ}

theorem During.longer
    {P : List StoreCall → Prop}
    (h : During V jobs log begun P)
    (entries : List StoreCall) :
    During V jobs (log ++ entries) begun P := by
  obtain ⟨before, now, hbefore, hrest⟩ := h
  exact ⟨before, now, hbefore.trans (List.prefix_append _ _), hrest⟩

/-- The present is an instant since any call began. -/
theorem During.now
    {now : ℕ}
    (hsound : Sound V jobs now log)
    (hbegun : begun ≤ log.length)
    {P : List StoreCall → Prop}
    (h : P log) :
    During V jobs log begun P :=
  ⟨log, now, List.prefix_refl _, hbegun, hsound, h⟩

theorem During.imp
    {P Q : List StoreCall → Prop}
    (h : During V jobs log begun P)
    (himp : ∀ before, P before → Q before) :
    During V jobs log begun Q := by
  obtain ⟨before, now, hbefore, hbegun, hsound, hP⟩ := h
  exact ⟨before, now, hbefore, hbegun, hsound, himp before hP⟩

variable {job : Job σ Msg} {res : VerifiedMessage}

theorem Dealt.longer
    {P : HandleRecord → Prop}
    {zones : List Zone}
    {cert : Certificate}
    (h : Dealt V jobs log begun job zones P cert)
    (entries : List StoreCall) :
    Dealt V jobs (log ++ entries) begun job zones P cert := fun zone space hzone hspace =>
  (h zone space hzone hspace).imp id (fun hfate => hfate.longer entries)

/-- Records that are no longer held have met their fate. -/
theorem Dealt.settle
    {P Q : HandleRecord → Prop}
    {zones : List Zone}
    {cert : Certificate}
    (h : Dealt V jobs log begun job zones P cert)
    (hsettle : ∀ u, P u → Q u ∨ ∀ space, During V jobs log begun (Fate V job space u)) :
    Dealt V jobs log begun job zones Q cert := by
  intro zone space hzone hspace
  rcases h zone space hzone hspace with hP | hfate
  · exact (hsettle _ hP).imp id (fun hfate => hfate space)
  · exact .inr hfate

theorem Filtered.longer
    {done : List Certificate}
    {acc : Collected}
    {P : HandleRecord → Prop}
    (h : Filtered V jobs log begun job res done acc P)
    (entries : List StoreCall) :
    Filtered V jobs (log ++ entries) begun job res done acc P :=
  ⟨h.verified.longer entries, h.collects, fun cert hcert => (h.dealt cert hcert).longer entries⟩

/-- A longer log keeps what a call knows. -/
theorem Kept.longer
    {stage : Stage σ Msg}
    (h : Kept V jobs log begun stage)
    (entries : List StoreCall) :
    Kept V jobs (log ++ entries) begun stage := by
  cases stage with
  | counting job =>
      exact h
  | loading job =>
      exact h
  | verifying job ctx =>
      obtain ⟨hjob, before, hbefore, hctx⟩ := h
      exact ⟨hjob, before, hbefore.trans (List.prefix_append _ _), hctx⟩
  | hinting job res =>
      exact VerifiedBy.longer h entries
  | filtering job res existing left acc =>
      obtain ⟨hhints, done, hcerts, hfiltered⟩ := h
      exact ⟨hhints.longer entries, done, hcerts, hfiltered.longer entries⟩
  | charging job res existing left acc record =>
      obtain ⟨hhints, done, hcerts, hbundled, hfate, hfiltered⟩ := h
      exact ⟨hhints.longer entries, done, hcerts, hbundled,
        fun space => (hfate space).longer entries, hfiltered.longer entries⟩
  | storing job res acc =>
      exact Filtered.longer h entries
  | reversing job res acc result =>
      exact Filtered.longer h entries
  | indexing job res acc left result =>
      exact Filtered.longer h entries
  | returned job res result =>
      exact fun cert hcert => (h cert hcert).longer entries
  | failed e =>
      exact trivial

end Stages

section Filters

variable {V : Crates} {σ Msg : Type} {H : Handler σ Msg}

/-- **What a judgement says** of a certificate and the hints. -/
theorem judge_cases
    (H : Handler σ Msg)
    (batch : Batch)
    (cert : Certificate) :
    (judge V H batch cert = .dropped ∧ ∀ zone space,
      zoneFor batch.zones cert.subject.text = some zone → V.space cert.subject ≠ some space) ∨
    ∃ zone space, zoneFor batch.zones cert.subject.text = some zone ∧
      V.space cert.subject = some space ∧
      let record := bundle V H batch.zones cert zone space
      let stored := hintOf batch.existing record.handle
      (judge V H batch cert = .redelivered ∧ isRedelivery V stored record = true) ∨
      (judge V H batch cert = .gated ∧ stored = none ∧ space ∈ batch.gatedSpaces) ∨
      (judge V H batch cert = .charged space record ∧ batch.chargeContentLimits = true ∧
        H.devMode = false ∧ ∃ row, stored = some row ∧ record.epochHeight ≤ row.epochHeight) ∨
      judge V H batch cert = .free record := by
  unfold judge
  cases hzone : zoneFor batch.zones cert.subject.text with
  | none =>
      exact .inl ⟨rfl, fun zone space h => by cases h⟩
  | some zone =>
      cases hspace : V.space cert.subject with
      | none =>
          exact .inl ⟨rfl, fun _ _ _ h => by cases h⟩
      | some space =>
          refine .inr ⟨zone, space, rfl, rfl, ?_⟩
          dsimp only
          generalize bundle V H batch.zones cert zone space = record
          split_ifs with hknown hgate hcharge
          · exact .inl ⟨rfl, hknown⟩
          · rw [Bool.and_eq_true, Option.isNone_iff_eq_none, List.contains_iff_mem] at hgate
            exact .inr (.inl ⟨rfl, hgate⟩)
          · rw [Bool.and_eq_true, Bool.and_eq_true, Bool.not_eq_true'] at hcharge
            refine .inr (.inr (.inl ⟨rfl, hcharge.1.1, hcharge.1.2, ?_⟩))
            have hchurn := hcharge.2
            unfold chargesChurn at hchurn
            cases hstored : hintOf batch.existing record.handle with
            | none =>
                rw [hstored] at hchurn
                cases hchurn
            | some row =>
                rw [hstored] at hchurn
                exact ⟨row, rfl, of_decide_eq_true hchurn⟩
          · exact .inr (.inr (.inr rfl))

/-- The indexes with the entries of one more certificate. -/
theorem collects_index
    {zones : List Zone}
    {done : List Certificate}
    {acc : Collected}
    (h : Collects V H zones done acc)
    (cert : Certificate) :
    Collects V H zones (done ++ [cert]) (index V zones acc cert) ∧
      (index V zones acc cert).updates = acc.updates := by
  have hupdates : ∀ u ∈ acc.updates, ∃ c ∈ done ++ [cert], ∃ zone space,
      zoneFor zones c.subject.text = some zone ∧ V.space c.subject = some space ∧
        u = bundle V H zones c zone space := by
    intro u hu
    obtain ⟨c, hc, hrest⟩ := h.updates u hu
    exact ⟨c, List.mem_append_left _ hc, hrest⟩
  unfold index
  cases hzone : zoneFor zones cert.subject.text with
  | none =>
      refine ⟨⟨?_, ?_, hupdates⟩, rfl⟩
      · rw [filterMap_concat, ← h.revs, certRev, hzone]
        exact (List.append_nil _).symm
      · rw [filterMap_concat, ← h.addrIndex, certAddrs, hzone]
        exact (List.append_nil _).symm
  | some zone =>
      dsimp only
      rw [collectClaims_eq]
      refine ⟨⟨?_, ?_, hupdates⟩, rfl⟩
      · rw [filterMap_concat, ← h.revs, certRev, hzone]
        rfl
      · rw [filterMap_concat, ← h.addrIndex, certAddrs, hzone]
        rfl

/-- A hint is missing only where no row is. -/
theorem find?_eq_none_of_hintOf
    {db : Tables}
    {handles : List String}
    {handle : String}
    (hmem : handle ∈ handles)
    (h : hintOf (getHandleHints db handles) handle = none) :
    db.handles.find? handle = none := by
  rw [KeyedTable.find?_eq_none_iff]
  intro r hr hkey
  have hrow : r ∈ db.handles.rows.filter (fun r => decide (r.handle ∈ handles)) := by
    rw [List.mem_filter, decide_eq_true_eq]
    exact ⟨hr, hkey ▸ hmem⟩
  have hno := Fallible.lastMatch_eq_none.1 h r.hint (List.mem_map_of_mem hrow)
  exact absurd hkey (of_decide_eq_false hno)

variable {jobs : List (Job σ Msg)} {log : List StoreCall} {begun : ℕ} {job : Job σ Msg}
  {res : VerifiedMessage} {existing : List HandleHintRow} {done left : List Certificate}
  {acc : Collected} {cert : Certificate}

theorem collects_push
    (h : Collects V job.handler res.zones done acc)
    {record : HandleRecord}
    (hrecord : Bundled V job res done record) :
    Collects V job.handler res.zones done (push acc record) :=
  ⟨h.revs, h.addrIndex, List.forall_mem_append.2
    ⟨h.updates, List.forall_mem_singleton.2 hrecord⟩⟩

/-- What a call holds after one more certificate. -/
theorem Filtered.next
    (h : Filtered V jobs log begun job res done acc (· ∈ acc.updates))
    {acc' : Collected}
    (hcollects : Collects V job.handler res.zones (done ++ [cert]) acc')
    {P : HandleRecord → Prop}
    (hkeeps : ∀ u ∈ acc.updates, P u)
    (hcert : Dealt V jobs log begun job res.zones P cert) :
    Filtered V jobs log begun job res (done ++ [cert]) acc' P := by
  refine ⟨h.verified, hcollects, List.forall_mem_append.2 ⟨fun c hc => ?_, ?_⟩⟩
  · exact (h.dealt c hc).settle (fun u hu => .inl (hkeeps u hu))
  · exact List.forall_mem_singleton.2 hcert

/-- A certificate whose record is known is dealt with, if that record is. -/
theorem dealt_of_bundle
    {zone : Zone}
    {space : String}
    (hzone : zoneFor res.zones cert.subject.text = some zone)
    (hspace : V.space cert.subject = some space)
    {P : HandleRecord → Prop}
    (h : P (bundle V job.handler res.zones cert zone space) ∨
      During V jobs log begun (Fate V job space (bundle V job.handler res.zones cert zone space))) :
    Dealt V jobs log begun job res.zones P cert := by
  intro zone' space' hzone' hspace'
  rw [hzone] at hzone'
  rw [hspace] at hspace'
  cases hzone'
  cases hspace'
  exact h

/-- **One certificate is dealt with, or its record waits for a limiter.** -/
theorem kept_filterCert
    (hhints : HintsRead V jobs log begun existing res)
    (hcerts : res.certificates = done ++ cert :: left)
    (h : Filtered V jobs log begun job res done acc (· ∈ acc.updates))
    (s : HandlerState σ) :
    Kept V jobs log begun
      (filterCert V job res existing left (index V res.zones acc cert) cert s).stage := by
  obtain ⟨hcollects, hupdates⟩ := collects_index h.collects cert
  have hsplit : res.certificates = (done ++ [cert]) ++ left := by
    rw [hcerts, List.append_assoc, List.singleton_append]
  have hmem : cert.subject.text ∈ res.certificates.map (fun c => c.subject.text) := by
    rw [hcerts]
    exact List.mem_map_of_mem (List.mem_append_right _ List.mem_cons_self)
  have hkeeps : ∀ u ∈ acc.updates, u ∈ (index V res.zones acc cert).updates := by
    rw [hupdates]
    exact fun _ hu => hu
  -- the stage after a certificate that is dealt with and adds no update
  have hturned : ∀ acc', acc'.revs = (index V res.zones acc cert).revs →
      acc'.addrIndex = (index V res.zones acc cert).addrIndex →
      acc'.updates = (index V res.zones acc cert).updates →
      Dealt V jobs log begun job res.zones (· ∈ acc'.updates) cert →
      Kept V jobs log begun (.filtering job res existing left acc') := by
    intro acc' hrevs haddrs hsame hdealt
    refine ⟨hhints, done ++ [cert], hsplit, h.next ⟨?_, ?_, ?_⟩ ?_ hdealt⟩
    · rw [hrevs]
      exact hcollects.revs
    · rw [haddrs]
      exact hcollects.addrIndex
    · rw [hsame]
      exact hcollects.updates
    · rw [hsame]
      exact hkeeps
  unfold filterCert
  rcases judge_cases job.handler (job.batch res existing) cert with
    ⟨hjudge, hnone⟩ | ⟨zone, space, hzone, hspace, hcases⟩
  · rw [hjudge]
    exact hturned _ rfl rfl rfl
      (fun zone space hzone hspace => absurd hspace (hnone zone space hzone))
  have hbundled : Bundled V job res (done ++ [cert])
      (bundle V job.handler res.zones cert zone space) :=
    ⟨cert, List.mem_append_right _ List.mem_cons_self, zone, space, hzone, hspace, rfl⟩
  rcases hcases with ⟨hjudge, hknown⟩ | ⟨hjudge, hnone, hgated⟩ |
    ⟨hjudge, hcharge, hdev, row, hrow, hchurn⟩ | hjudge
  · rw [hjudge]
    refine hturned _ rfl rfl rfl (dealt_of_bundle hzone hspace (.inr (hhints.imp ?_)))
    intro before hexisting
    refine .redelivered (res.certificates.map (fun c => c.subject.text)) ?_
    rw [← hexisting]
    exact hknown
  · rw [hjudge]
    refine hturned _ rfl rfl rfl (dealt_of_bundle hzone hspace (.inr (hhints.imp ?_)))
    intro before hexisting
    refine .gated (find?_eq_none_of_hintOf hmem ?_) hgated
    rw [← hexisting]
    exact hnone
  · rw [hjudge]
    have hfate : ∀ space', During V jobs log begun
        (Fate V job space' (bundle V job.handler res.zones cert zone space)) := by
      refine fun space' => hhints.imp (fun before hexisting => ?_)
      have hrow' : hintOf existing cert.subject.text = some row := hrow
      rw [hexisting] at hrow'
      obtain ⟨r, hr, rfl⟩ := hintOf_getHandleHints hrow'
      exact .limited r hr hcharge hdev hchurn
    dsimp only [keeping]
    split_ifs
    · refine ⟨hhints, done ++ [cert], hsplit, hbundled, hfate, h.next hcollects ?_ ?_⟩
      · exact fun u hu => .inl (hkeeps u hu)
      · exact dealt_of_bundle hzone hspace (.inl (.inr rfl))
    · exact hturned _ rfl rfl rfl (dealt_of_bundle hzone hspace (.inr (hfate space)))
  · rw [hjudge]
    refine ⟨hhints, done ++ [cert], hsplit, h.next (collects_push hcollects hbundled) ?_ ?_⟩
    · exact fun u hu => List.mem_append_left _ (hkeeps u hu)
    · exact dealt_of_bundle hzone hspace (.inl (List.mem_append_right _ List.mem_cons_self))

end Filters

section Steps

variable {V : Crates} {σ Msg : Type} {jobs : List (Job σ Msg)} {log : List StoreCall}
  {begun now : ℕ} {job : Job σ Msg} {res : VerifiedMessage}

/-- What a step leaves: the result of its log, which is sound, and what the next stage needs. -/
structure StepKept (V : Crates) (jobs : List (Job σ Msg)) (now : ℕ) (log : List StoreCall)
    (begun : ℕ) (out : Outcome (HandlerState σ) (Stage σ Msg) StoreCall) : Prop where
  run : out.shared.db = runCalls V Tables.init (log ++ out.entries)
  sound : Sound V jobs now (log ++ out.entries)
  kept : Kept V jobs (log ++ out.entries) begun out.stage

/-- A step that leaves the store alone. -/
theorem stepKept_keeping
    {s : HandlerState σ}
    (hrun : s.db = runCalls V Tables.init log)
    (hsound : Sound V jobs now log)
    {next : Stage σ Msg}
    (hkept : Kept V jobs log begun next) :
    StepKept V jobs now log begun (keeping s next) := by
  have hlog : log ++ (keeping s next).entries = log := List.append_nil log
  constructor <;> rw [hlog]
  · exact hrun
  · exact hsound
  · exact hkept

/-- A step that makes one call of the store. -/
theorem stepKept_writing
    (hV : V.Lawful)
    {s : HandlerState σ}
    (hrun : s.db = runCalls V Tables.init log)
    (hsound : Sound V jobs now log)
    {call : StoreCall}
    (hbrings : call.Brings (Derived V))
    (htime : ∀ t, call.writeTime = some t → t = now)
    (hvouched : call.VouchedBy V (VerifiedBy V jobs log))
    {next : Stage σ Msg}
    (hkept : Sound V jobs now (log ++ [call]) → Kept V jobs (log ++ [call]) begun next) :
    StepKept V jobs now log begun (writing V s call next) := by
  have hcall := hsound.call hV hbrings htime hvouched
  refine ⟨?_, hcall, hkept hcall⟩
  show runCall V s.db call = _
  rw [hrun]
  exact (runCalls_append V Tables.init log [call]).symm

/-- A certificate leaves the store alone. -/
theorem filterCert_keeping
    (job : Job σ Msg)
    (res : VerifiedMessage)
    (existing : List HandleHintRow)
    (left : List Certificate)
    (acc : Collected)
    (cert : Certificate)
    (s : HandlerState σ) :
    ∃ s' : HandlerState σ, s'.db = s.db ∧ filterCert V job res existing left acc cert s =
      keeping s' (filterCert V job res existing left acc cert s).stage := by
  unfold filterCert
  cases judge V job.handler (job.batch res existing) cert with
  | charged space record =>
      exact ⟨{ s with limits := (job.handler.limiters.checkSpace space s.limits).2 }, rfl, rfl⟩
  | dropped =>
      exact ⟨s, rfl, rfl⟩
  | redelivered =>
      exact ⟨s, rfl, rfl⟩
  | gated =>
      exact ⟨s, rfl, rfl⟩
  | free record =>
      exact ⟨s, rfl, rfl⟩

/-- The step that stores the updates. -/
theorem stepKept_storing
    (hV : V.Lawful)
    {s : HandlerState σ}
    (hrun : s.db = runCalls V Tables.init log)
    (hsound : Sound V jobs now log)
    (hbegun : begun ≤ log.length)
    {acc : Collected}
    (h : Filtered V jobs log begun job res res.certificates acc (· ∈ acc.updates)) :
    StepKept V jobs now log begun (stepMessage V now (.storing job res acc) s) := by
  have hbrings : (StoreCall.updateHandles now acc.updates).Brings (Derived V) :=
    fun u hu => (h.collects.mem_updates hu).2.2
  have hvouched : (StoreCall.updateHandles now acc.updates).VouchedBy V (VerifiedBy V jobs log) :=
    h.collects.vouched_updates h.verified
  have hnow : ∀ t, (StoreCall.updateHandles now acc.updates).writeTime = some t → t = now :=
    fun t ht => (Option.some.inj ht).symm
  unfold stepMessage
  dsimp only
  cases hupdate : updateHandles V now s.db acc.updates with
  | error e =>
      refine stepKept_writing hV hrun hsound hbrings hnow hvouched ?_
      exact fun _ => trivial
  | ok out =>
      refine stepKept_writing hV hrun hsound hbrings hnow hvouched (fun hsound' => ?_)
      refine ⟨h.verified.longer _, h.collects, fun cert hcert => ?_⟩
      refine ((h.dealt cert hcert).longer _).settle (fun u hu => .inr (fun space => ?_))
      have hlength : begun ≤ (log ++ [StoreCall.updateHandles now acc.updates]).length := by
        rw [List.length_append]
        omega
      rw [hrun] at hupdate
      refine During.now hsound' hlength
        (.brought log now acc.updates out.1 out.2 rfl hupdate hu (fun u' hu' hhandle => ?_))
      have hzone := (h.collects.mem_updates hu).2.1
      rw [← hhandle, (h.collects.mem_updates hu').2.1] at hzone
      exact Option.some.inj hzone

/-- **A step of a call keeps the store sound**, and knows what its next stage needs. -/
theorem kept_step
    (hV : V.Lawful)
    {s : HandlerState σ}
    (hrun : s.db = runCalls V Tables.init log)
    (hsound : Sound V jobs now log)
    (hbegun : begun ≤ log.length)
    {stage : Stage σ Msg}
    (h : Kept V jobs log begun stage) :
    StepKept V jobs now log begun (stepMessage V now stage s) := by
  cases stage with
  | counting job =>
      have hcounted : (tick job.handler s).db = runCalls V Tables.init log := hrun
      refine stepKept_keeping hcounted hsound ?_
      exact h
  | loading job =>
      unfold stepMessage
      dsimp only
      cases hzones : getZones V s.db (job.handler.spaces job.msg) with
      | error e =>
          refine stepKept_keeping hrun hsound ?_
          exact trivial
      | ok ctx =>
          refine stepKept_keeping hrun hsound ?_
          rw [hrun] at hzones
          exact ⟨h, log, List.prefix_refl _, hzones⟩
  | verifying job ctx =>
      obtain ⟨hjob, before, hbefore, hctx⟩ := h
      unfold stepMessage
      dsimp only
      cases hverify : job.handler.verify job.handler.devMode ctx job.msg with
      | error e =>
          refine stepKept_keeping hrun hsound ?_
          exact trivial
      | ok res =>
          refine stepKept_keeping hrun hsound ?_
          exact ⟨job, hjob, before, ctx, hbefore, hctx, hverify⟩
  | hinting job res =>
      refine stepKept_keeping hrun hsound ?_
      refine ⟨During.now hsound hbegun (by rw [hrun]), [], rfl, h, ?_, List.forall_mem_nil _⟩
      exact ⟨rfl, rfl, List.forall_mem_nil _⟩
  | filtering job res existing left acc =>
      obtain ⟨hhints, done, hcerts, hfiltered⟩ := h
      cases left with
      | nil =>
          rw [List.append_nil] at hcerts
          subst hcerts
          refine stepKept_keeping hrun hsound ?_
          exact hfiltered
      | cons cert left =>
          have hkept := kept_filterCert hhints hcerts hfiltered s
          obtain ⟨s', hdb, heq⟩ := filterCert_keeping (V := V) job res existing
            left (index V res.zones acc cert) cert s
          show StepKept V jobs now log begun
            (filterCert V job res existing left (index V res.zones acc cert) cert s)
          rw [heq]
          exact stepKept_keeping (hdb.trans hrun) hsound hkept
  | charging job res existing left acc record =>
      obtain ⟨hhints, done, hcerts, hbundled, hfate, hfiltered⟩ := h
      unfold stepMessage
      dsimp only
      have hrun' : ∀ limits, ({ s with limits := limits } : HandlerState σ).db =
        runCalls V Tables.init log := fun _ => hrun
      refine stepKept_keeping (hrun' _) hsound ?_
      refine ⟨hhints, done, hcerts, ?_⟩
      split_ifs
      · refine ⟨hfiltered.verified, collects_push hfiltered.collects hbundled, fun cert hcert => ?_⟩
        refine (hfiltered.dealt cert hcert).settle (fun u hu => .inl ?_)
        rcases hu with hu | rfl
        · exact List.mem_append_left _ hu
        · exact List.mem_append_right _ List.mem_cons_self
      · refine ⟨hfiltered.verified, hfiltered.collects, fun cert hcert => ?_⟩
        refine (hfiltered.dealt cert hcert).settle (fun u hu => ?_)
        rcases hu with hu | rfl
        · exact .inl hu
        · exact .inr hfate
  | storing job res acc =>
      exact stepKept_storing hV hrun hsound hbegun h
  | reversing job res acc result =>
      have hvouched : (StoreCall.setRevs now acc.revs).VouchedBy V (VerifiedBy V jobs log) :=
        h.collects.vouched_revs h.verified
      refine stepKept_writing hV hrun hsound ?_ ?_ hvouched ?_
      · exact trivial
      · exact fun t ht => by cases ht
      · exact fun _ => Filtered.longer h _
  | indexing job res acc left result =>
      cases left with
      | nil =>
          refine stepKept_keeping hrun hsound ?_
          exact h.dealt
      | cons handle left =>
          unfold stepMessage
          dsimp only
          cases hentry : acc.addrsFor handle with
          | none =>
              refine stepKept_keeping hrun hsound ?_
              exact h
          | some entry =>
              obtain ⟨cert, zone, hcertifies, hzone⟩ := h.collects.certifies_addrsFor hentry
              refine stepKept_writing hV hrun hsound ?_ ?_ ?_ ?_
              · exact trivial
              · exact fun t ht => by cases ht
              · exact ⟨res, cert, zone, h.verified, hcertifies, hzone⟩
              · exact fun _ => Filtered.longer h _
  | returned job res result =>
      refine stepKept_keeping hrun hsound ?_
      exact h
  | failed e =>
      refine stepKept_keeping hrun hsound ?_
      exact trivial

end Steps

section Runs

variable (V : Crates) {σ Msg : Type}

/-- Every interleaving keeps what a step of a call keeps. -/
theorem kept_runTasks
    {V : Crates}
    (hV : V.Lawful)
    (limits : σ)
    (clock : ℕ)
    (events : List (ℕ × Event σ Msg)) :
    let w := runTasks V limits clock events
    (w.shared.db = runCalls V Tables.init w.log ∧ Sound V (arrivals events) w.clock w.log) ∧
      ∀ i begun stage, w.calls i = some (begun, stage) →
        begun ≤ w.log.length ∧ Kept V (arrivals events) w.log begun stage := by
  let I := fun now log (s : HandlerState σ) =>
    s.db = runCalls V Tables.init log ∧ Sound V (arrivals events) now log
  let J := fun log begun (stage : Stage σ Msg) =>
    begun ≤ log.length ∧ Kept V (arrivals events) log begun stage
  let Begins := fun stage : Stage σ Msg => ∃ job ∈ arrivals events, stage = .counting job
  have hlater : ∀ now later log s, now ≤ later → I now log s → I later log s :=
    fun now later log s hle h => ⟨h.1, h.2.later hle⟩
  have hbegin : ∀ log stage, Begins stage → J log log.length stage := by
    rintro log stage ⟨job, hjob, rfl⟩
    exact ⟨le_rfl, hjob⟩
  have hlonger : ∀ log entries begun stage, J log begun stage →
      J (log ++ entries) begun stage := by
    intro log entries begun stage h
    refine ⟨?_, h.2.longer entries⟩
    rw [List.length_append]
    exact h.1.trans (Nat.le_add_right _ _)
  have hstep : ∀ now log begun stage s, I now log s → J log begun stage →
      I now (log ++ (stepMessage V now stage s).entries) (stepMessage V now stage s).shared ∧
        J (log ++ (stepMessage V now stage s).entries) begun
          (stepMessage V now stage s).stage := by
    intro now log begun stage s hI hJ
    have hkept := kept_step hV hI.1 hI.2 hJ.1 hJ.2
    refine ⟨⟨hkept.run, hkept.sound⟩, ?_, hkept.kept⟩
    rw [List.length_append]
    exact hJ.1.trans (Nat.le_add_right _ _)
  have houtside : ∀ now log a s, I now log s →
      I now (log ++ (outside V now a s).2) (outside V now a s).1 := by
    intro now log a s hI
    refine ⟨?_, hI.2.call hV ?_ ?_ ?_⟩
    · show runCall V s.db (a.call now) = _
      rw [hI.1]
      exact (runCalls_append V Tables.init log [a.call now]).symm
    · cases a <;> exact trivial
    · cases a <;> exact fun t ht => by cases ht
    · cases a <;> exact trivial
  refine invariant_of_turns hlater hbegin hlonger hstep
    houtside ⟨rfl, sound_init clock⟩ ?_ ?_
  · intro i begun stage h
    cases h
  · intro act hact i stage hbegin'
    obtain ⟨event, hevent, rfl⟩ := List.mem_map.1 hact
    obtain ⟨elapsed, event⟩ := event
    cases event with
    | arrive j job =>
        cases hbegin'
        exact ⟨job, List.mem_filterMap.2 ⟨_, hevent, rfl⟩, rfl⟩
    | proceed j =>
        cases hbegin'
    | write a =>
        cases hbegin'

/-- **Calls that interleave leave a sound store.**  However the steps of the calls, the
evictions and the watermark writes come between each other, the store is the result of its
calls in the order of the log; these bring sequence numbers derived from their zones, at times
that ascend; the columns of every row match its blobs; and every row of the three tables goes
back to a result that one of the calls has verified on root zones read in this run. -/
theorem interleaved_calls_sound
    {V : Crates}
    (hV : V.Lawful)
    (limits : σ)
    (clock : ℕ)
    (events : List (ℕ × Event σ Msg)) :
    let w := runTasks V limits clock events
    w.shared.db = runCalls V Tables.init w.log ∧
      (∀ call ∈ w.log, call.Brings (Derived V)) ∧ ClockAscends w.log ∧
      (∀ r ∈ w.shared.db.handles.rows, r.InStep V ∧ r.updatedAt ≤ w.clock) ∧
      Traced V (VerifiedBy V (arrivals events) w.log) w.shared.db := by
  obtain ⟨⟨hrun, hsound⟩, _⟩ := kept_runTasks hV limits clock events
  refine ⟨hrun, hsound.brings, hsound.ascends, ?_, ?_⟩
  · rw [hrun]
    exact fun r hr => ⟨hsound.inStep.inStep r hr, hsound.inStep.updatedAt_le r hr⟩
  · rw [hrun]
    exact hsound.traced

/-- A record whose call has returned has been dealt with, at an instant. -/
inductive Settled (job : Job σ Msg) (space : String) (record : HandleRecord)
    (before : List StoreCall) : Prop
  /-- The store is as good: its zone is not one that the record replaces. -/
  | asGood (zone : Zone)
      (hzone : storedZone V (runCalls V Tables.init before) record.handle = some zone)
      (h : replaces V record.zone zone = false)
  /-- The store has turned it down, more than six hours ahead of its clock. -/
  | early (earlier : List StoreCall) (now : ℕ) (updates : List HandleRecord)
      (hbefore : before = earlier ++ [.updateHandles now updates])
      (hmem : record ∈ updates) (h : ¬ Timely now record)
  /-- It is the first of its handle, and its space is gated. -/
  | gated (hnew : (runCalls V Tables.init before).handles.find? record.handle = none)
      (hgated : space ∈ job.gatedSpaces)
  /-- A row of its handle is there that has as late an epoch, and limits are charged. -/
  | limited (row : Row)
      (hrow : (runCalls V Tables.init before).handles.find? record.handle = some row)
      (hcharge : job.charge = true) (hdev : job.handler.devMode = false)
      (hchurn : record.epochHeight ≤ row.epochHeight)

variable {V} {job : Job σ Msg} {space : String} {record : HandleRecord}

/-- After updates that bring a record, the store is as good, unless it is early. -/
theorem storedZone_brought
    (hV : V.Lawful)
    (hbetter : V.KeepsFresher)
    {now : ℕ}
    {db db' : Tables}
    (hdb : RowsEncoded V db)
    {updates : List HandleRecord}
    {result : BulkStoreResult}
    (hok : updateHandles V now db updates = .ok (db', result))
    (hmem : record ∈ updates)
    (hsame : ∀ u ∈ updates, u.handle = record.handle → u.zone = record.zone)
    (htimely : Timely now record) :
    ∃ zone, storedZone V db' record.handle = some zone ∧
      replaces V record.zone zone = false := by
  have hstored := storedZone_updateHandles hV hdb hok record.handle
  cases hlast : lastAccepted V now db record.handle updates with
  | some u =>
      obtain ⟨hu, hhandle, _⟩ := lastAccepted_mem hlast
      rw [hlast] at hstored
      dsimp only at hstored
      rw [hsame u hu hhandle] at hstored
      exact ⟨_, hstored, not_replaces_storedAs hbetter _ _⟩
  | none =>
      rw [hlast] at hstored
      have hrejected := Fallible.lastMatch_eq_none.1 hlast record hmem
      rw [decide_eq_true rfl, Bool.true_and] at hrejected
      unfold accepts at hrejected
      rw [decide_eq_true htimely.1, decide_eq_true htimely.2, Bool.true_and, Bool.true_and]
        at hrejected
      cases hold : storedZone V db record.handle with
      | none =>
          rw [hold] at hrejected
          cases hrejected
      | some zone =>
          rw [hold] at hstored hrejected
          exact ⟨zone, hstored, hrejected⟩

/-- What has met its fate is dealt with. -/
theorem Fate.settled
    (hV : V.Lawful)
    (hbetter : V.KeepsFresher)
    (hsha : Function.Injective V.sha256)
    {jobs : List (Job σ Msg)}
    {now : ℕ}
    {before : List StoreCall}
    (hsound : Sound V jobs now before)
    (h : Fate V job space record before) :
    Settled V job space record before := by
  cases h with
  | redelivered handles hknown =>
      obtain ⟨hzone, _⟩ := storedZone_of_isRedelivery hV hsha hsound.inStep hknown
      exact .asGood record.zone hzone (not_replaces_self hbetter.irrefl record.zone)
  | gated hnew hgated =>
      exact .gated hnew hgated
  | limited row hrow hcharge hdev hchurn =>
      exact .limited row hrow hcharge hdev hchurn
  | brought earlier t updates db result hbefore hok hmem hsame =>
      by_cases htimely : Timely t record
      · have hencoded := reachable_rowsEncoded V ⟨earlier, rfl⟩
        obtain ⟨zone, hzone, hreplaces⟩ :=
          storedZone_brought hV hbetter hencoded hok hmem hsame htimely
        have hrun : runCalls V Tables.init before = db := by
          rw [hbefore, runCalls_append]
          exact deliver_of_ok V hok
        exact .asGood zone (hrun ▸ hzone) hreplaces
      · exact .early earlier t updates hbefore hmem htimely

/-- **No update is lost between the steps of calls.**  However they interleave, when a call
has returned, then each certificate of its message that has a zone within the size limit was
dealt with at some instant since the call began: the store was as good, or turned the record
down as early, or it was the first of its handle in a gated space, or churn that is charged. -/
theorem no_update_lost
    (hV : V.Lawful)
    (hbetter : V.KeepsFresher)
    (hsha : Function.Injective V.sha256)
    (limits : σ)
    (clock : ℕ)
    (events : List (ℕ × Event σ Msg))
    {i begun : ℕ}
    {res : VerifiedMessage}
    {result : BulkStoreResult}
    (hreturned : (runTasks V limits clock events).calls i =
      some (begun, .returned job res result))
    {cert : Certificate}
    (hcert : cert ∈ res.certificates)
    {zone : Zone}
    (hzone : zoneFor res.zones cert.subject.text = some zone)
    (hspace : V.space cert.subject = some space) :
    ∃ before, before <+: (runTasks V limits clock events).log ∧ begun ≤ before.length ∧
      Settled V job space (bundle V job.handler res.zones cert zone space) before := by
  obtain ⟨_, hcalls⟩ := kept_runTasks hV limits clock events
  obtain ⟨_, hkept⟩ := hcalls i begun _ hreturned
  rcases hkept cert hcert zone space hzone hspace with hfalse | hfate
  · cases hfalse
  · obtain ⟨before, now, hbefore, hbegun, hsound, hfate⟩ := hfate
    exact ⟨before, hbefore, hbegun, hfate.settled hV hbetter hsha hsound⟩

end Runs

section Sample

/-- A message with one zone of the sample handle, as a call. -/
def sampleJob (zone : Zone) : Job Unit VerifiedMessage where
  handler := sampleHandler
  gatedSpaces := []
  charge := true
  msg := ⟨[zone], [sampleCert]⟩

/-- Two calls in step: both have read the hints before either writes. -/
def sampleTasks : List (ℕ × Event Unit VerifiedMessage) :=
  [(0, .arrive 0 (sampleJob (sampleZone 5 1 0 0))),
    (0, .arrive 1 (sampleJob (sampleZone 3 1 0 0)))] ++
    (List.replicate 10 [(1, Event.proceed 0), (0, Event.proceed 1)]).flatten

/-- The sample run, in which the zone that loses the race brings an older sequence. -/
def sampleCrates : Crates :=
  Crates.ofTables [sampleCert] [sampleZone 5 1 0 0, sampleZone 3 1 0 0]

theorem sampleCrates_lawful : sampleCrates.Lawful :=
  Crates.ofTables_lawful (by decide) (by decide)

theorem interleaved_calls_sound_sample :
    let w := runTasks sampleCrates () 0 sampleTasks
    w.log.length = 4 ∧ w.shared.db.handles.rows.length = 1 ∧
      w.shared.db = runCalls sampleCrates Tables.init w.log := by
  intro w
  exact ⟨by decide +kernel, by decide +kernel,
    (interleaved_calls_sound sampleCrates_lawful () 0 sampleTasks).1⟩

theorem no_update_lost_sample :
    let w := runTasks sampleCrates () 0 sampleTasks
    let job := sampleJob (sampleZone 3 1 0 0)
    ∃ before, before <+: w.log ∧ Settled sampleCrates job "@bitcoin"
      (bundle sampleCrates job.handler [sampleZone 3 1 0 0] sampleCert (sampleZone 3 1 0 0)
        "@bitcoin") before := by
  intro w job
  have hreturned : w.calls 1 = some (0, .returned job ⟨[sampleZone 3 1 0 0], [sampleCert]⟩
    { stored := 0, skipped := 1, gated := 0, storedHandles := [] }) := by
    rfl
  obtain ⟨before, hbefore, _, hsettled⟩ := no_update_lost sampleCrates_lawful
    (Crates.ofTables_comparesLex _ _).keepsFresher (fun _ _ h => h) () 0 sampleTasks hreturned
    (List.mem_singleton.2 rfl) rfl rfl
  exact ⟨before, hbefore, hsettled⟩

end Sample

end MessageTasks
end CertRelay
