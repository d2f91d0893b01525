import CertRelay.Lib.Interleaving
import CertRelay.Relay.HandleMessage

/-!
# Messages handled at once

Every message is handled on a thread of its own.  A call of `handle_message_opts` locks the
store once for the root zones, once for the hints, once for its updates, and again for each
write of the two indexes; it asks the limiters certificate by certificate.  Between two of
these steps other calls run, and the sweep evicts.  So what a call writes was decided on a
store that is gone by then.

**Results.**
* `collectCert_eq_judge`: the body of the loop over certificates, by what it decides before
  it asks the limiters;
* `leads_handleMessageOpts`: a call that nothing comes between is `handleMessageOpts`.
-/

namespace CertRelay
namespace MessageTasks

open Interleaving

section Program

/-- One call of `handle_message_opts`. -/
structure Job (σ Msg : Type) where
  handler : Handler σ Msg
  gatedSpaces : List String
  charge : Bool
  msg : Msg

/-- Where a call stands, with what its earlier steps have left in its hands. -/
inductive Stage (σ Msg : Type)
  /-- Before `msg_count.fetch_add`. -/
  | counting (job : Job σ Msg)
  /-- Before `get_zones`. -/
  | loading (job : Job σ Msg)
  /-- Before `verify_with_options`. -/
  | verifying (job : Job σ Msg) (ctx : List Zone)
  /-- Before `get_handle_hints`. -/
  | hinting (job : Job σ Msg) (res : VerifiedMessage)
  /-- In the loop over certificates. -/
  | filtering (job : Job σ Msg) (res : VerifiedMessage) (existing : List HandleHintRow)
      (left : List Certificate) (acc : Collected)
  /-- In the loop, when the space of a record is within its limit. -/
  | charging (job : Job σ Msg) (res : VerifiedMessage) (existing : List HandleHintRow)
      (left : List Certificate) (acc : Collected) (record : HandleRecord)
  /-- Before `update_handles`. -/
  | storing (job : Job σ Msg) (res : VerifiedMessage) (acc : Collected)
  /-- Before `set_revs`. -/
  | reversing (job : Job σ Msg) (res : VerifiedMessage) (acc : Collected)
      (result : BulkStoreResult)
  /-- In the loop over stored handles. -/
  | indexing (job : Job σ Msg) (res : VerifiedMessage) (acc : Collected)
      (left : List String) (result : BulkStoreResult)
  | returned (job : Job σ Msg) (res : VerifiedMessage) (result : BulkStoreResult)
  | failed (e : String)

variable (V : Crates) {σ Msg : Type}

/-- What the loop reads besides the certificates. -/
def Job.batch (job : Job σ Msg) (res : VerifiedMessage) (existing : List HandleHintRow) :
    Batch where
  zones := res.zones
  existing := existing
  gatedSpaces := job.gatedSpaces
  chargeContentLimits := job.charge

/-- What the loop makes of a certificate before it asks the limiters. -/
inductive Judgement
  | dropped
  | redelivered
  | gated
  | charged (space : String) (record : HandleRecord)
  | free (record : HandleRecord)

/-- The filters on a certificate that do not write. -/
def judge (H : Handler σ Msg) (batch : Batch) (cert : Certificate) : Judgement :=
  match zoneFor batch.zones cert.subject.text with
  | none => .dropped
  | some zone =>
      match V.space cert.subject with
      | none => .dropped
      | some space =>
          let record := bundle V H batch.zones cert zone space
          let stored := hintOf batch.existing record.handle
          if isRedelivery V stored record then .redelivered
          else if stored.isNone && batch.gatedSpaces.contains space then .gated
          else if batch.chargeContentLimits && !H.devMode &&
              chargesChurn (stored.map HandleHintRow.epochHeight) record.epochHeight then
            .charged space record
          else .free record

/-- The entries of a certificate in the two indexes. -/
def index (zones : List Zone) (acc : Collected) (cert : Certificate) : Collected :=
  match zoneFor zones cert.subject.text with
  | none => acc
  | some zone => collectClaims V acc cert.subject.text zone

/-- One more update. -/
def push (acc : Collected) (record : HandleRecord) : Collected :=
  { acc with updates := acc.updates ++ [record] }

/-- A step that makes one call of the store. -/
def writing (s : HandlerState σ) (call : StoreCall) (next : Stage σ Msg) :
    Outcome (HandlerState σ) (Stage σ Msg) StoreCall :=
  ⟨next, { s with db := runCall V s.db call }, [call]⟩

/-- A step that leaves the store alone. -/
def keeping (s : HandlerState σ) (next : Stage σ Msg) :
    Outcome (HandlerState σ) (Stage σ Msg) StoreCall :=
  ⟨next, s, []⟩

/-- The step of the loop for one certificate, whose entries in the indexes are collected. -/
def filterCert (job : Job σ Msg) (res : VerifiedMessage) (existing : List HandleHintRow)
    (left : List Certificate) (acc : Collected) (cert : Certificate) (s : HandlerState σ) :
    Outcome (HandlerState σ) (Stage σ Msg) StoreCall :=
  let next := Stage.filtering job res existing left
  match judge V job.handler (job.batch res existing) cert with
  | .dropped => keeping s (next acc)
  | .redelivered => keeping s (next { acc with preskipped := acc.preskipped + 1 })
  | .gated => keeping s (next { acc with gated := acc.gated + 1 })
  | .free record => keeping s (next (push acc record))
  | .charged space record =>
      let (ok, limits) := job.handler.limiters.checkSpace space s.limits
      keeping { s with limits := limits }
        (if ok then .charging job res existing left acc record else next acc)

/-- One step of a call. -/
def stepMessage (now : ℕ) (stage : Stage σ Msg) (s : HandlerState σ) :
    Outcome (HandlerState σ) (Stage σ Msg) StoreCall :=
  match stage with
  | .counting job => keeping (tick job.handler s) (.loading job)
  | .loading job =>
      match getZones V s.db (job.handler.spaces job.msg) with
      | .error e => keeping s (.failed e)
      | .ok ctx => keeping s (.verifying job ctx)
  | .verifying job ctx =>
      match job.handler.verify job.handler.devMode ctx job.msg with
      | .error e => keeping s (.failed e)
      | .ok res => keeping s (.hinting job res)
  | .hinting job res =>
      let existing := getHandleHints s.db (res.certificates.map (fun c => c.subject.text))
      keeping s (.filtering job res existing res.certificates {})
  | .filtering job res existing left acc =>
      match left with
      | [] => keeping s (.storing job res acc)
      | cert :: left =>
          filterCert V job res existing left (index V res.zones acc cert) cert s
  | .charging job res existing left acc record =>
      let (ok, limits) := job.handler.limiters.checkHandle record.handle s.limits
      keeping { s with limits := limits }
        (.filtering job res existing left (if ok then push acc record else acc))
  | .storing job res acc =>
      match updateHandles V now s.db acc.updates with
      | .error e => writing V s (.updateHandles now acc.updates) (.failed e)
      | .ok (_, result) =>
          let result :=
            { result with
              skipped := result.skipped + acc.preskipped
              gated := result.gated + acc.gated }
          writing V s (.updateHandles now acc.updates) (.reversing job res acc result)
  | .reversing job res acc result =>
      writing V s (.setRevs now acc.revs) (.indexing job res acc result.storedHandles result)
  | .indexing job res acc left result =>
      match left with
      | [] => keeping s (.returned job res result)
      | handle :: left =>
          match acc.addrsFor handle with
          | some (rev, addrs) =>
              writing V s (.setAddrs now handle rev addrs) (.indexing job res acc left result)
          | none => keeping s (.indexing job res acc left result)
  | .returned job res result => keeping s (.returned job res result)
  | .failed e => keeping s (.failed e)

/-- What a call that is over has returned. -/
def Stage.answer : Stage σ Msg → Option (Except String BulkStoreResult)
  | .returned _ _ result => some (.ok result)
  | .failed e => some (.error e)
  | _ => none

/-- What writes the store besides the calls. -/
inductive Outside
  | evict (handles : List String)
  | setWatermark (peerUrl cursor : String)

/-- The call of the store that something outside makes. -/
def Outside.call (now : ℕ) : Outside → StoreCall
  | .evict handles => .deleteHandles handles
  | .setWatermark peerUrl cursor => .setWatermark now peerUrl cursor

/-- What something outside does. -/
def outside (now : ℕ) (a : Outside) (s : HandlerState σ) : HandlerState σ × List StoreCall :=
  ({ s with db := runCall V s.db (a.call now) }, [a.call now])

/-- A message comes in, a call takes a step, or something outside writes. -/
inductive Event (σ Msg : Type)
  | arrive (i : ℕ) (job : Job σ Msg)
  | proceed (i : ℕ)
  | write (a : Outside)

/-- An event as an act on the world. -/
def Event.act : Event σ Msg → Act (Stage σ Msg) Outside
  | .arrive i job => .begin i (.counting job)
  | .proceed i => .run i
  | .write a => .outside a

/-- The relay, its calls, and the log of the store. -/
abbrev Relay (σ Msg : Type) : Type :=
  Interleaving.World (HandlerState σ) (Stage σ Msg) StoreCall

/-- The relay after events, each some time after the one before. -/
def runTasks (limits : σ) (clock : ℕ) (events : List (ℕ × Event σ Msg)) : Relay σ Msg :=
  (events.map (fun e => (e.1, e.2.act))).foldl (turn (stepMessage V) (outside V))
    (starting (HandlerState.fresh limits) clock)

/-- The messages that have come in. -/
def arrivals (events : List (ℕ × Event σ Msg)) : List (Job σ Msg) :=
  events.filterMap fun e =>
    match e.2 with
    | .arrive _ job => some job
    | _ => none

end Program

section Alone

variable {V : Crates} {σ Msg : Type}

/-- The loop body of `handleMessageOpts`, by the judgement of the certificate. -/
theorem collectCert_eq_judge
    (H : Handler σ Msg)
    (batch : Batch)
    (acc : Collected)
    (limits : σ)
    (cert : Certificate) :
    collectCert V H batch (acc, limits) cert =
      let acc := index V batch.zones acc cert
      match judge V H batch cert with
      | .dropped => (acc, limits)
      | .redelivered => ({ acc with preskipped := acc.preskipped + 1 }, limits)
      | .gated => ({ acc with gated := acc.gated + 1 }, limits)
      | .free record => (push acc record, limits)
      | .charged space record =>
          let (ok, limits) := H.limiters.checkSpace space limits
          if ok then
            let (ok, limits) := H.limiters.checkHandle record.handle limits
            (if ok then push acc record else acc, limits)
          else (acc, limits) := by
  unfold collectCert judge index zoneFor
  cases hzone : zoneOf batch.zones cert.subject.text with
  | none =>
      rfl
  | some zone =>
      dsimp only
      by_cases hsize : maxRecordsSize < zone.records.slice.length
      · rw [if_pos hsize, Option.filter_some_neg (by simpa using hsize)]
      · rw [if_neg hsize, Option.filter_some_pos (by simpa using hsize)]
        cases V.space cert.subject with
        | none =>
            rfl
        | some space =>
            dsimp only
            generalize bundle V H batch.zones cert zone space = record
            unfold collectUpdate withinLimits
            dsimp only
            by_cases hknown : isRedelivery V (hintOf batch.existing record.handle) record = true
            · rw [if_pos hknown, if_pos hknown]
            rw [if_neg hknown, if_neg hknown]
            by_cases hgate : ((hintOf batch.existing record.handle).isNone &&
                batch.gatedSpaces.contains space) = true
            · rw [if_pos hgate, if_pos hgate]
            rw [if_neg hgate, if_neg hgate]
            by_cases hcharge : (batch.chargeContentLimits && !H.devMode && chargesChurn
                ((hintOf batch.existing record.handle).map HandleHintRow.epochHeight)
                record.epochHeight) = true
            · rw [if_pos hcharge, if_pos hcharge]
              dsimp only
              by_cases hspace : (H.limiters.checkSpace space limits).1 = true
              · rw [if_pos hspace, if_pos hspace]
                split_ifs <;> rfl
              · rw [if_neg hspace, if_neg hspace]
                rfl
            · rw [if_neg hcharge, if_neg hcharge]
              rfl

variable {job : Job σ Msg} {res : VerifiedMessage}

/-- One certificate. -/
theorem leads_filterCert
    (job : Job σ Msg)
    (res : VerifiedMessage)
    (existing : List HandleHintRow)
    (left : List Certificate)
    (acc : Collected)
    (cert : Certificate)
    (s : HandlerState σ) :
    let out := collectCert V job.handler (job.batch res existing) (acc, s.limits) cert
    Leads (stepMessage V) (.filtering job res existing (cert :: left) acc) s
      (.filtering job res existing left out.1) { s with limits := out.2 } := by
  have hstep : stepMessage V 0 (.filtering job res existing (cert :: left) acc) s =
    filterCert V job res existing left (index V res.zones acc cert) cert s := rfl
  dsimp only
  rw [collectCert_eq_judge]
  unfold filterCert at hstep
  cases hjudge : judge V job.handler (job.batch res existing) cert with
  | dropped =>
      rw [hjudge] at hstep
      exact Leads.of_step hstep
  | redelivered =>
      rw [hjudge] at hstep
      exact Leads.of_step hstep
  | gated =>
      rw [hjudge] at hstep
      exact Leads.of_step hstep
  | free record =>
      rw [hjudge] at hstep
      exact Leads.of_step hstep
  | charged space record =>
      rw [hjudge] at hstep
      dsimp only at hstep ⊢
      by_cases hspace : (job.handler.limiters.checkSpace space s.limits).1 = true
      · rw [if_pos hspace] at hstep ⊢
        have hcharge : ∀ limits, stepMessage V 0 (.charging job res existing left
            (index V res.zones acc cert) record) { s with limits := limits } =
          let out := job.handler.limiters.checkHandle record.handle limits
          keeping { s with limits := out.2 } (.filtering job res existing left
            (if out.1 then push (index V res.zones acc cert) record
              else index V res.zones acc cert)) := fun _ => rfl
        exact Leads.trans (Leads.of_step hstep) (Leads.of_step (hcharge _))
      · rw [if_neg hspace] at hstep ⊢
        exact Leads.of_step hstep

/-- The loop over certificates. -/
theorem leads_filtering
    (job : Job σ Msg)
    (res : VerifiedMessage)
    (existing : List HandleHintRow)
    (certs : List Certificate)
    (acc : Collected)
    (s : HandlerState σ) :
    let out := certs.foldl (collectCert V job.handler (job.batch res existing)) (acc, s.limits)
    Leads (stepMessage V) (.filtering job res existing certs acc) s
      (.storing job res out.1) { s with limits := out.2 } := by
  induction certs generalizing acc s with
  | nil =>
      have hstep : stepMessage V 0 (.filtering job res existing [] acc) s =
        keeping s (.storing job res acc) := rfl
      exact Leads.of_step hstep
  | cons cert certs ih =>
      exact Leads.trans (leads_filterCert job res existing certs acc cert s) (ih _ _)

/-- The loop over stored handles. -/
theorem leads_indexing
    (job : Job σ Msg)
    (res : VerifiedMessage)
    (acc : Collected)
    (result : BulkStoreResult)
    (stored : List (String × ℕ))
    (s : HandlerState σ) :
    Leads (stepMessage V) (.indexing job res acc (stored.map Prod.fst) result) s
      (.returned job res result) { s with db := writeAddrs acc stored s.db } := by
  induction stored generalizing s with
  | nil =>
      have hstep : stepMessage V 0 (.indexing job res acc [] result) s =
        keeping s (.returned job res result) := rfl
      exact Leads.of_step hstep
  | cons head stored ih =>
      obtain ⟨handle, now⟩ := head
      have hstep : stepMessage V now
          (.indexing job res acc (((handle, now) :: stored).map Prod.fst) result) s =
        match acc.addrsFor handle with
        | some (rev, addrs) => writing V s (.setAddrs now handle rev addrs)
            (.indexing job res acc (stored.map Prod.fst) result)
        | none => keeping s (.indexing job res acc (stored.map Prod.fst) result) := rfl
      unfold writeAddrs
      cases hentry : acc.addrsFor handle with
      | some entry =>
          rw [hentry] at hstep
          exact Leads.trans (Leads.of_step hstep) (ih _)
      | none =>
          rw [hentry] at hstep
          exact Leads.trans (Leads.of_step hstep) (ih s)

/-- The state after the writes of a call; a call that fails writes nothing. -/
def written (s : HandlerState σ) : Except String (Tables × BulkStoreResult) → HandlerState σ
  | .error _ => s
  | .ok (db, _) => { s with db := db }

theorem stepMessage_storing_error
    {now : ℕ}
    {acc : Collected}
    {s : HandlerState σ}
    {e : String}
    (h : updateHandles V now s.db acc.updates = .error e) :
    stepMessage V now (.storing job res acc) s =
      ⟨.failed e, s, [.updateHandles now acc.updates]⟩ := by
  have hdb : runCall V s.db (.updateHandles now acc.updates) = s.db := by
    show deliver V now s.db acc.updates = s.db
    unfold deliver
    rw [h]
  unfold stepMessage writing
  dsimp only
  rw [h, hdb]

theorem stepMessage_storing_ok
    {now : ℕ}
    {acc : Collected}
    {s : HandlerState σ}
    {db : Tables}
    {result : BulkStoreResult}
    (h : updateHandles V now s.db acc.updates = .ok (db, result)) :
    stepMessage V now (.storing job res acc) s =
      ⟨.reversing job res acc
        { result with
          skipped := result.skipped + acc.preskipped
          gated := result.gated + acc.gated },
        { s with db := db }, [.updateHandles now acc.updates]⟩ := by
  have hdb : runCall V s.db (.updateHandles now acc.updates) = db := deliver_of_ok V h
  unfold stepMessage writing
  dsimp only
  rw [h, hdb]

/-- From its updates on, a call writes what it has collected. -/
theorem leads_storing
    (job : Job σ Msg)
    (res : VerifiedMessage)
    (clock : ℕ → ℕ)
    (acc : Collected)
    (s : HandlerState σ) :
    ∃ stage, stage.answer = some ((applyCollected V clock s.db acc).map Prod.snd) ∧
      Leads (stepMessage V) (.storing job res acc) s stage
        (written s (applyCollected V clock s.db acc)) := by
  unfold applyCollected
  cases hupdate : updateHandles V (clock 0) s.db acc.updates with
  | error e =>
      exact ⟨.failed e, rfl, Leads.of_step (stepMessage_storing_error hupdate)⟩
  | ok out =>
      obtain ⟨db, result⟩ := out
      let stored := result.storedHandles.zipIdx.map (fun p => (p.1, clock (2 + p.2)))
      have hstored : stored.map Prod.fst = result.storedHandles := by
        rw [List.map_map]
        exact List.zipIdx_map_fst 0 result.storedHandles
      let total : BulkStoreResult :=
        { result with
          skipped := result.skipped + acc.preskipped
          gated := result.gated + acc.gated }
      refine ⟨.returned job res total, rfl, ?_⟩
      have hreverse : stepMessage V (clock 1) (.reversing job res acc total) { s with db := db } =
        writing V { s with db := db } (.setRevs (clock 1) acc.revs)
          (.indexing job res acc result.storedHandles total) := rfl
      have hindex := leads_indexing (V := V) job res acc total stored
        { s with db := setRevs (clock 1) db acc.revs }
      rw [hstored] at hindex
      exact Leads.trans (Leads.of_step (stepMessage_storing_ok hupdate))
        (Leads.trans (Leads.of_step hreverse) hindex)

/-- **A call that nothing comes between is `handleMessageOpts`**, whatever the clock. -/
theorem leads_handleMessageOpts
    (clock : ℕ → ℕ)
    (job : Job σ Msg)
    (s : HandlerState σ) :
    let out := handleMessageOpts V job.handler clock job.gatedSpaces job.charge job.msg s
    ∃ stage, stage.answer = some out.1 ∧
      Leads (stepMessage V) (.counting job) s stage out.2 := by
  have hcount : stepMessage V 0 (.counting job) s =
    keeping (tick job.handler s) (.loading job) := rfl
  have hload : stepMessage V 0 (.loading job) (tick job.handler s) =
    match getZones V s.db (job.handler.spaces job.msg) with
    | .error e => keeping (tick job.handler s) (.failed e)
    | .ok ctx => keeping (tick job.handler s) (.verifying job ctx) := rfl
  have hverify : ∀ ctx, stepMessage V 0 (.verifying job ctx) (tick job.handler s) =
    match job.handler.verify job.handler.devMode ctx job.msg with
    | .error e => keeping (tick job.handler s) (.failed e)
    | .ok res => keeping (tick job.handler s) (.hinting job res) := fun _ => rfl
  have hhint : ∀ res, stepMessage V 0 (.hinting job res) (tick job.handler s) =
    keeping (tick job.handler s) (.filtering job res
      (getHandleHints s.db (res.certificates.map (fun c => c.subject.text)))
      res.certificates {}) := fun _ => rfl
  unfold handleMessageOpts collectMessage verifyMessage
  dsimp only
  have hdb : (tick job.handler s).db = s.db := rfl
  rw [hdb]
  cases hzones : getZones V s.db (job.handler.spaces job.msg) with
  | error e =>
      rw [hzones] at hload
      exact ⟨.failed e, rfl, Leads.trans (Leads.of_step hcount) (Leads.of_step hload)⟩
  | ok ctx =>
      rw [hzones] at hload
      have hloaded := Leads.trans (Leads.of_step hcount) (Leads.of_step hload)
      have hverify := hverify ctx
      rw [Fallible.ok_bind]
      cases hresult : job.handler.verify job.handler.devMode ctx job.msg with
      | error e =>
          rw [hresult] at hverify
          exact ⟨.failed e, rfl, Leads.trans hloaded (Leads.of_step hverify)⟩
      | ok res =>
          rw [hresult] at hverify
          have hfilter := leads_filtering (V := V) job res
            (getHandleHints s.db (res.certificates.map (fun c => c.subject.text)))
            res.certificates {} (tick job.handler s)
          have hcollected := Leads.trans hloaded (Leads.trans (Leads.of_step hverify)
            (Leads.trans (Leads.of_step (hhint res)) hfilter))
          rw [Fallible.ok_bind]
          unfold collect
          dsimp only [Job.batch] at hcollected ⊢
          generalize res.certificates.foldl _ _ = out at hcollected ⊢
          obtain ⟨stage, hanswer, hstored⟩ := leads_storing (V := V) job res
            clock out.1 { tick job.handler s with limits := out.2 }
          have hall := Leads.trans hcollected hstored
          refine ⟨stage, ?_, ?_⟩
          · rw [hanswer]
            dsimp only
            rw [hdb]
            cases applyCollected V clock s.db out.1 <;> rfl
          · dsimp only at hall ⊢
            rw [hdb] at hall
            cases happly : applyCollected V clock s.db out.1 with
            | error e =>
                rw [happly] at hall
                exact hall
            | ok written =>
                rw [happly] at hall
                exact hall

end Alone

end MessageTasks
end CertRelay
