import CertRelay.Lib.Runs
import CertRelay.Lib.TokenBucket
import CertRelay.Relay.HandleMessage
import CertRelay.Relay.Redelivery

/-!
# The content limits

A message that replaces rows at the epoch that is stored, or at a lower one, is charged a
token of its space and a token of each of its handles.  The tokens are taken while the
certificates are filtered, before the store decides, and only exact duplicates are
exempt: a replay of an older zone that the store rejects takes tokens too.

**Results.**
* `limits_collect`: which tokens a message asks for, in which order;
* `unchanged_iff`: when a message of which nothing is stored leaves the limiters alone;
* `applyCollected_frame`: what a message stores does not depend on the side tables;
* `replays_starve_nobody`: replays that leave the limiters alone change nothing of what
  the other messages of a run store.
-/

namespace CertRelay

section Definitions

/-- The state of `space_rate` and `handle_rate`. -/
structure ContentLimits where
  spaceRate : Buckets String
  handleRate : Buckets String

/-- The quotas of `space_rate` and `handle_rate`. -/
structure ContentRates where
  space : Quota
  handle : Quota

/-- 100 updates a minute for a space; one in five minutes for a handle, three in a burst.
Time is in milliseconds. -/
def ContentRates.default : ContentRates where
  space := ⟨600, 100, by decide⟩
  handle := ⟨300000, 3, by decide⟩

/-- No key was charged yet. -/
def ContentLimits.fresh : ContentLimits :=
  ⟨Buckets.fresh, Buckets.fresh⟩

/-- Both limiters, as token buckets, at an instant. -/
def contentLimiters (rates : ContentRates) (now : Nat) : Limiters ContentLimits where
  checkSpace space limits :=
    let (ok, spaceRate) := limits.spaceRate.take rates.space now space
    (ok, { limits with spaceRate := spaceRate })
  checkHandle handle limits :=
    let (ok, handleRate) := limits.handleRate.take rates.handle now handle
    (ok, { limits with handleRate := handleRate })
  retainRecent limits := ⟨limits.spaceRate.forget now, limits.handleRate.forget now⟩

/-- Both limiters hold the same tokens from an instant on. -/
structure ContentLimits.Alike (now : Nat) (limits limits' : ContentLimits) : Prop where
  spaceRate : Buckets.Alike now limits.spaceRate limits'.spaceRate
  handleRate : Buckets.Alike now limits.handleRate limits'.handleRate

/-- A message that arrives at an instant, with what the handler calls then. -/
structure Arrival (Msg : Type) where
  time : Nat
  handler : Handler ContentLimits Msg
  clock : Nat → Nat
  gatedSpaces : List String
  charge : Bool
  msg : Msg
  /-- It is one of the replays that are inserted into a run. -/
  replay : Bool

variable (V : Crates) {Msg : Type} (rates : ContentRates)

/-- The handler with its limiters at the instant of the arrival. -/
def Arrival.handlerAt (a : Arrival Msg) : Handler ContentLimits Msg :=
  { a.handler with limiters := contentLimiters rates a.time }

/-- The message is handled. -/
def arrive (s : HandlerState ContentLimits) (a : Arrival Msg) :
    Except String BulkStoreResult × HandlerState ContentLimits :=
  handleMessageOpts V (a.handlerAt rates) a.clock a.gatedSpaces a.charge a.msg s

variable {σ : Type} (H : Handler σ Msg)

/-- The record that a certificate stands for. -/
def recordOf (zones : List Zone) (cert : Certificate) : Option HandleRecord :=
  (zoneFor zones cert.subject.text).bind fun zone =>
    (V.space cert.subject).map fun space => bundle V H zones cert zone space

/-- The space and the handle that the filters charge for a certificate: it is no
redelivery, and its record would replace a row at the stored epoch or a lower one. -/
def chargedKeys (batch : Batch) (cert : Certificate) : Option (String × String) :=
  (zoneFor batch.zones cert.subject.text).bind fun zone =>
    (V.space cert.subject).bind fun space =>
      let record := bundle V H batch.zones cert zone space
      let stored := hintOf batch.existing record.handle
      if !isRedelivery V stored record && (batch.chargeContentLimits && !H.devMode &&
          chargesChurn (stored.map HandleHintRow.epochHeight) record.epochHeight) then
        some (space, record.handle)
      else none

/-- A token of the space, and if there is one a token of the handle. -/
def chargeKeys (limits : σ) (keys : String × String) : σ :=
  let (ok, limits) := H.limiters.checkSpace keys.1 limits
  if ok then (H.limiters.checkHandle keys.2 limits).2 else limits

/-- What the loop over the certificates of a message reads. -/
def batchOf (db : Tables) (gatedSpaces : List String) (charge : Bool)
    (res : VerifiedMessage) : Batch where
  zones := res.zones
  existing := getHandleHints db (res.certificates.map (fun c => c.subject.text))
  gatedSpaces := gatedSpaces
  chargeContentLimits := charge

/-- `update_handles` would reject every record of the message. -/
def AllRejected (s : HandlerState ContentLimits) (a : Arrival Msg) : Prop :=
  ∀ res, verifyMessage V (a.handlerAt rates) a.msg s.db = .ok res →
    ∀ cert ∈ res.certificates, ∀ u ∈ recordOf V (a.handlerAt rates) res.zones cert,
      accepts V (a.clock 0) (storedZone V s.db u.handle) u = false

/-- No record of the message is charged while its space has a token. -/
def TakesNoToken (s : HandlerState ContentLimits) (a : Arrival Msg) : Prop :=
  ∀ res, verifyMessage V (a.handlerAt rates) a.msg s.db = .ok res →
    ∀ cert ∈ res.certificates,
      ∀ keys ∈ chargedKeys V (a.handlerAt rates) (batchOf s.db a.gatedSpaces a.charge res) cert,
      s.limits.spaceRate.tokens rates.space a.time keys.1 = 0

/-- The message leaves both limiters and the handles as they are. -/
structure LeavesUnchanged (s : HandlerState ContentLimits) (a : Arrival Msg) : Prop where
  limits : ContentLimits.Alike a.time s.limits (arrive V rates s a).2.limits
  handles : SameHandles s.db (arrive V rates s a).2.db

end Definitions

section Alike

variable {now : Nat} {limits limits' limits'' : ContentLimits}

theorem ContentLimits.Alike.refl
    (now : Nat)
    (limits : ContentLimits) :
    ContentLimits.Alike now limits limits :=
  ⟨.refl now _, .refl now _⟩

theorem ContentLimits.Alike.symm
    (h : ContentLimits.Alike now limits limits') :
    ContentLimits.Alike now limits' limits :=
  ⟨h.spaceRate.symm, h.handleRate.symm⟩

theorem ContentLimits.Alike.trans
    (h : ContentLimits.Alike now limits limits')
    (h' : ContentLimits.Alike now limits' limits'') :
    ContentLimits.Alike now limits limits'' :=
  ⟨h.spaceRate.trans h'.spaceRate, h.handleRate.trans h'.handleRate⟩

theorem ContentLimits.Alike.mono
    (h : ContentLimits.Alike now limits limits')
    {later : Nat}
    (hlater : now ≤ later) :
    ContentLimits.Alike later limits limits' :=
  ⟨h.spaceRate.mono hlater, h.handleRate.mono hlater⟩

/-- The periodic cleanup drops full buckets only. -/
theorem alike_tick
    {Msg : Type}
    (rates : ContentRates)
    (a : Arrival Msg)
    (s : HandlerState ContentLimits) :
    ContentLimits.Alike a.time (tick (a.handlerAt rates) s).limits s.limits := by
  unfold tick
  dsimp only
  split_ifs
  · exact ⟨Buckets.alike_forget a.time _, Buckets.alike_forget a.time _⟩
  · exact .refl _ _

theorem alike_checkSpace
    (rates : ContentRates)
    (h : ContentLimits.Alike now limits limits')
    (space : String) :
    ((contentLimiters rates now).checkSpace space limits).1 =
        ((contentLimiters rates now).checkSpace space limits').1 ∧
      ContentLimits.Alike now ((contentLimiters rates now).checkSpace space limits).2
        ((contentLimiters rates now).checkSpace space limits').2 :=
  have htake := Buckets.take_of_alike (q := rates.space) h.spaceRate space
  ⟨htake.1, htake.2, h.handleRate⟩

theorem alike_checkHandle
    (rates : ContentRates)
    (h : ContentLimits.Alike now limits limits')
    (handle : String) :
    ((contentLimiters rates now).checkHandle handle limits).1 =
        ((contentLimiters rates now).checkHandle handle limits').1 ∧
      ContentLimits.Alike now ((contentLimiters rates now).checkHandle handle limits).2
        ((contentLimiters rates now).checkHandle handle limits').2 :=
  have htake := Buckets.take_of_alike (q := rates.handle) h.handleRate handle
  ⟨htake.1, h.spaceRate, htake.2⟩

end Alike

section Charging

variable {V : Crates} {σ Msg : Type} {H : Handler σ Msg}

theorem limits_withinLimits
    (charge : Bool)
    (stored : Option HandleHintRow)
    (record : HandleRecord)
    (space : String)
    (limits : σ) :
    (withinLimits H charge stored record space limits).2 =
      if charge && !H.devMode &&
          chargesChurn (stored.map HandleHintRow.epochHeight) record.epochHeight then
        chargeKeys H limits (space, record.handle)
      else limits := by
  unfold withinLimits chargeKeys
  dsimp only
  split_ifs with hcharge hok
  · rfl
  · rfl
  · rfl

/-- The filters charge a record that is no redelivery and churns a row. -/
theorem limits_collectUpdate
    (batch : Batch)
    (space : String)
    (record : HandleRecord)
    (acc : Collected)
    (limits : σ) :
    (collectUpdate V H batch space record acc limits).2 =
      if !isRedelivery V (hintOf batch.existing record.handle) record &&
          (batch.chargeContentLimits && !H.devMode &&
            chargesChurn ((hintOf batch.existing record.handle).map
              HandleHintRow.epochHeight) record.epochHeight) then
        chargeKeys H limits (space, record.handle)
      else limits := by
  have hcharge := limits_withinLimits (H := H) batch.chargeContentLimits
    (hintOf batch.existing record.handle) record space limits
  unfold collectUpdate
  dsimp only
  cases isRedelivery V (hintOf batch.existing record.handle) record with
  | true =>
      rfl
  | false =>
      rw [Bool.not_false, Bool.true_and, if_neg Bool.false_ne_true, ← hcharge]
      by_cases hgate : (hintOf batch.existing record.handle).isNone &&
          batch.gatedSpaces.contains space
      · -- a gated record is a first insert, which is free
        have hnone : hintOf batch.existing record.handle = none :=
          Option.isNone_iff_eq_none.1 (Bool.and_eq_true_iff.1 hgate).1
        rw [if_pos hgate, hcharge, hnone]
        simp [chargesChurn]
      · rw [if_neg hgate]
        split_ifs <;> rfl

/-- One certificate is charged for its keys, if it has any. -/
theorem limits_collectCert
    (batch : Batch)
    (s : Collected × σ)
    (cert : Certificate) :
    (collectCert V H batch s cert).2 =
      (chargedKeys V H batch cert).elim s.2 (chargeKeys H s.2) := by
  unfold collectCert chargedKeys zoneFor
  cases zoneOf batch.zones cert.subject.text with
  | none =>
      rfl
  | some zone =>
      dsimp only
      by_cases hlong : maxRecordsSize < zone.records.slice.length
      · rw [if_pos hlong]
        simp [Option.filter, Nat.not_le.2 hlong]
      · rw [if_neg hlong]
        have hfilter : (some zone).filter
            (fun z => decide (z.records.slice.length ≤ maxRecordsSize)) = some zone := by
          simp [Option.filter, Nat.not_lt.1 hlong]
        rw [hfilter, Option.bind_some]
        cases V.space cert.subject with
        | none =>
            rfl
        | some space =>
            dsimp only
            rw [limits_collectUpdate, Option.bind_some]
            split_ifs <;> rfl

/-- **The tokens that a message asks for**: those of its charged certificates, in order. -/
theorem limits_collect
    (batch : Batch)
    (certs : List Certificate)
    (limits : σ) :
    (collect V H batch certs limits).2 =
      (certs.filterMap (chargedKeys V H batch)).foldl (chargeKeys H) limits := by
  unfold collect
  induction certs using List.reverseRecOn with
  | nil =>
      rfl
  | append_singleton certs cert ih =>
      rw [List.foldl_concat, limits_collectCert, ih, filterMap_concat, List.foldl_append]
      cases chargedKeys V H batch cert <;> rfl

end Charging

section Tokens

variable {Msg : Type} {rates : ContentRates} {a : Arrival Msg}

/-- The handle limiter is asked after the space limiter, and does not touch its state. -/
theorem spaceRate_chargeKeys
    (rates : ContentRates)
    (a : Arrival Msg)
    (limits : ContentLimits)
    (keys : String × String) :
    (chargeKeys (a.handlerAt rates) limits keys).spaceRate =
      (limits.spaceRate.take rates.space a.time keys.1).2 := by
  unfold chargeKeys Arrival.handlerAt contentLimiters
  dsimp only
  split_ifs <;> rfl

/-- Where the space has no token, nothing is taken. -/
theorem chargeKeys_of_empty
    {limits : ContentLimits}
    {keys : String × String}
    (h : limits.spaceRate.tokens rates.space a.time keys.1 = 0) :
    chargeKeys (a.handlerAt rates) limits keys = limits := by
  unfold chargeKeys Arrival.handlerAt contentLimiters
  dsimp only
  rw [Buckets.take_of_empty h]
  rfl

/-- Charges do not bring the instants of the spaces forward. -/
theorem due_le_foldl_chargeKeys
    (rates : ContentRates)
    (a : Arrival Msg)
    (charges : List (String × String))
    (limits : ContentLimits)
    (space : String) :
    limits.spaceRate.due a.time space ≤
      (charges.foldl (chargeKeys (a.handlerAt rates)) limits).spaceRate.due a.time space := by
  induction charges generalizing limits with
  | nil =>
      exact le_rfl
  | cons keys charges ih =>
      have hstep := Buckets.le_take rates.space a.time keys.1 limits.spaceRate space
      rw [← spaceRate_chargeKeys] at hstep
      exact hstep.trans (ih _)

/-- **Charges leave the limiters alone exactly if no space has a token for them.** -/
theorem alike_foldl_chargeKeys_iff
    (rates : ContentRates)
    (a : Arrival Msg)
    (charges : List (String × String))
    (limits : ContentLimits) :
    ContentLimits.Alike a.time limits
        (charges.foldl (chargeKeys (a.handlerAt rates)) limits) ↔
      ∀ keys ∈ charges, limits.spaceRate.tokens rates.space a.time keys.1 = 0 := by
  induction charges with
  | nil =>
      exact ⟨fun _ => List.forall_mem_nil _, fun _ => .refl _ _⟩
  | cons keys charges ih =>
      rw [List.foldl_cons, List.forall_mem_cons]
      rcases Nat.eq_zero_or_pos (limits.spaceRate.tokens rates.space a.time keys.1) with
        hempty | hpos
      · rw [chargeKeys_of_empty hempty, ih]
        exact ⟨fun h => ⟨hempty, h⟩, fun h => h.2⟩
      · have hlt := Buckets.due_lt_take hpos
        rw [← spaceRate_chargeKeys] at hlt
        have hle := due_le_foldl_chargeKeys rates a charges
          (chargeKeys (a.handlerAt rates) limits keys) keys.1
        constructor
        · intro h
          have hsame := h.spaceRate keys.1
          omega
        · intro h
          omega

end Tokens

section OneMessage

variable {V : Crates} {Msg : Type} {rates : ContentRates}

theorem limits_arrive_error
    {s : HandlerState ContentLimits}
    {a : Arrival Msg}
    {e : String}
    (h : verifyMessage V (a.handlerAt rates) a.msg s.db = .error e) :
    (arrive V rates s a).2.limits = (tick (a.handlerAt rates) s).limits := by
  have hsame : (tick (a.handlerAt rates) s).db = s.db := rfl
  unfold arrive handleMessageOpts
  dsimp only
  unfold collectMessage
  rw [hsame, h]
  rfl

/-- A verified message is charged whether it is stored or not. -/
theorem limits_arrive_ok
    {s : HandlerState ContentLimits}
    {a : Arrival Msg}
    {res : VerifiedMessage}
    (h : verifyMessage V (a.handlerAt rates) a.msg s.db = .ok res) :
    (arrive V rates s a).2.limits =
      (res.certificates.filterMap (chargedKeys V (a.handlerAt rates)
        (batchOf s.db a.gatedSpaces a.charge res))).foldl
        (chargeKeys (a.handlerAt rates)) (tick (a.handlerAt rates) s).limits := by
  have hsame : (tick (a.handlerAt rates) s).db = s.db := rfl
  rw [← limits_collect]
  unfold arrive handleMessageOpts
  dsimp only
  unfold collectMessage
  rw [hsame, h, Fallible.ok_bind]
  dsimp only
  cases applyCollected V a.clock s.db _ <;> rfl

/-- **What a message whose records are all rejected stores**: nothing. -/
theorem sameHandles_of_rejected
    {s : HandlerState ContentLimits}
    {a : Arrival Msg}
    (h : AllRejected V rates s a) :
    SameHandles s.db (arrive V rates s a).2.db := by
  rcases handleMessageOpts_cases (V := V) (H := a.handlerAt rates) a.clock a.gatedSpaces
    a.charge a.msg s with ⟨hdb, _⟩ | ⟨acc, hacc, hwritten⟩
  · show SameHandles s.db (handleMessageOpts V (a.handlerAt rates) a.clock a.gatedSpaces
      a.charge a.msg s).2.db
    rw [hdb]
    exact SameHandles.refl s.db
  · obtain ⟨res, hverify, hcollects⟩ := collectedFrom_collects hacc
    have hnone : toStore V (a.clock 0) s.db acc.updates = [] := by
      apply toStore_rejected
      intro u hu
      obtain ⟨cert, hcert, zone, space, hzone, hspace, hbundle⟩ := hcollects.updates u hu
      refine h res hverify cert hcert u ?_
      unfold recordOf
      rw [hzone, Option.bind_some, hspace, Option.map_some, hbundle]
      exact Option.mem_some_self _
    obtain ⟨mid, out, hupdate, hsame⟩ := hwritten.sameHandles
    obtain ⟨_, _, rows, hrows, rfl⟩ := updateHandles_cases V hupdate
    rw [hnone] at hrows hsame
    cases hrows
    exact hsame

/-- **When a message of which nothing is stored leaves the limiters alone.** -/
theorem unchanged_iff
    {s : HandlerState ContentLimits}
    {a : Arrival Msg}
    (h : AllRejected V rates s a) :
    LeavesUnchanged V rates s a ↔ TakesNoToken V rates s a := by
  have htick := alike_tick rates a s
  have hlimits : ContentLimits.Alike a.time s.limits (arrive V rates s a).2.limits ↔
      TakesNoToken V rates s a := by
    cases hverify : verifyMessage V (a.handlerAt rates) a.msg s.db with
    | error e =>
        rw [limits_arrive_error hverify]
        refine ⟨fun _ res hres => ?_, fun _ => htick.symm⟩
        rw [hverify] at hres
        cases hres
    | ok res =>
        have hcharges := alike_foldl_chargeKeys_iff rates a
          (res.certificates.filterMap (chargedKeys V (a.handlerAt rates)
            (batchOf s.db a.gatedSpaces a.charge res))) (tick (a.handlerAt rates) s).limits
        rw [← limits_arrive_ok hverify] at hcharges
        have hstart : ContentLimits.Alike a.time s.limits (arrive V rates s a).2.limits ↔
            ContentLimits.Alike a.time (tick (a.handlerAt rates) s).limits
              (arrive V rates s a).2.limits :=
          ⟨htick.trans, htick.symm.trans⟩
        rw [hstart, hcharges]
        constructor
        · intro hall res' hres' cert hcert keys hkeys
          rw [hverify] at hres'
          cases hres'
          rw [← htick.spaceRate.tokens_eq]
          exact hall keys (List.mem_filterMap.2 ⟨cert, hcert, hkeys⟩)
        · intro hall keys hmem
          obtain ⟨cert, hcert, hkeys⟩ := List.mem_filterMap.1 hmem
          rw [htick.spaceRate.tokens_eq]
          exact hall res hverify cert hcert keys hkeys
  exact ⟨fun hleaves => hlimits.1 hleaves.limits,
    fun hnone => ⟨hlimits.2 hnone, sameHandles_of_rejected h⟩⟩

end OneMessage

section Frame

variable {V : Crates}

/-- The same result, and tables with the same handles. -/
inductive SameOutcome : Except String (Tables × BulkStoreResult) →
    Except String (Tables × BulkStoreResult) → Prop
  | error (e : String) : SameOutcome (.error e) (.error e)
  | ok {db db' : Tables} (res : BulkStoreResult) (h : SameHandles db db') :
      SameOutcome (.ok (db, res)) (.ok (db', res))

/-- **What a message stores does not depend on the side tables.** -/
theorem applyCollected_frame
    {db db' : Tables}
    (h : SameHandles db db')
    (clock : Nat → Nat)
    (acc : Collected) :
    SameOutcome (applyCollected V clock db acc) (applyCollected V clock db' acc) := by
  have hframe := updateHandles_withSideTables V (clock 0) db db' acc.updates
  rw [← h.eq_withSideTables] at hframe
  unfold applyCollected
  rw [hframe]
  cases updateHandles V (clock 0) db acc.updates with
  | error e =>
      exact .error e
  | ok out =>
      exact .ok _ (((sameHandles_writes acc _ _ _ out.1).symm.trans
        (sameHandles_withSideTables out.1 db')).trans (sameHandles_writes acc _ _ _ _))

end Frame

section Congruence

variable {V : Crates} {σ Msg : Type} {H : Handler σ Msg} {L : σ → σ → Prop}

/-- The limiters answer alike in related states and keep them related. -/
structure Respects (limiters : Limiters σ) (L : σ → σ → Prop) : Prop where
  checkSpace : ∀ space l l', L l l' →
    (limiters.checkSpace space l).1 = (limiters.checkSpace space l').1 ∧
      L (limiters.checkSpace space l).2 (limiters.checkSpace space l').2
  checkHandle : ∀ handle l l', L l l' →
    (limiters.checkHandle handle l).1 = (limiters.checkHandle handle l').1 ∧
      L (limiters.checkHandle handle l).2 (limiters.checkHandle handle l').2

theorem withinLimits_congr
    (hL : Respects H.limiters L)
    (charge : Bool)
    (stored : Option HandleHintRow)
    (record : HandleRecord)
    (space : String)
    {l l' : σ}
    (h : L l l') :
    (withinLimits H charge stored record space l).1 =
        (withinLimits H charge stored record space l').1 ∧
      L (withinLimits H charge stored record space l).2
        (withinLimits H charge stored record space l').2 := by
  obtain ⟨hok, hnext⟩ := hL.checkSpace space l l' h
  unfold withinLimits
  dsimp only
  rw [hok]
  split_ifs
  · exact hL.checkHandle record.handle _ _ hnext
  · exact ⟨rfl, hnext⟩
  · exact ⟨rfl, h⟩

theorem collectUpdate_congr
    (hL : Respects H.limiters L)
    (batch : Batch)
    (space : String)
    (record : HandleRecord)
    (acc : Collected)
    {l l' : σ}
    (h : L l l') :
    (collectUpdate V H batch space record acc l).1 =
        (collectUpdate V H batch space record acc l').1 ∧
      L (collectUpdate V H batch space record acc l).2
        (collectUpdate V H batch space record acc l').2 := by
  obtain ⟨hok, hnext⟩ := withinLimits_congr hL batch.chargeContentLimits
    (hintOf batch.existing record.handle) record space h
  unfold collectUpdate
  dsimp only
  rw [hok]
  split_ifs
  · exact ⟨rfl, h⟩
  · exact ⟨rfl, h⟩
  · exact ⟨rfl, hnext⟩
  · exact ⟨rfl, hnext⟩

theorem collectCert_congr
    (hL : Respects H.limiters L)
    (batch : Batch)
    (acc : Collected)
    (cert : Certificate)
    {l l' : σ}
    (h : L l l') :
    (collectCert V H batch (acc, l) cert).1 = (collectCert V H batch (acc, l') cert).1 ∧
      L (collectCert V H batch (acc, l) cert).2 (collectCert V H batch (acc, l') cert).2 := by
  unfold collectCert
  cases zoneOf batch.zones cert.subject.text with
  | none =>
      exact ⟨rfl, h⟩
  | some zone =>
      dsimp only
      split_ifs
      · exact ⟨rfl, h⟩
      · cases V.space cert.subject with
        | none =>
            exact ⟨rfl, h⟩
        | some space =>
            exact collectUpdate_congr hL batch space _ _ h

/-- **What is collected does not depend on more than the answers of the limiters.** -/
theorem collect_congr
    (hL : Respects H.limiters L)
    (batch : Batch)
    (certs : List Certificate)
    {l l' : σ}
    (h : L l l') :
    (collect V H batch certs l).1 = (collect V H batch certs l').1 ∧
      L (collect V H batch certs l).2 (collect V H batch certs l').2 := by
  unfold collect
  induction certs using List.reverseRecOn with
  | nil =>
      exact ⟨rfl, h⟩
  | append_singleton certs cert ih =>
      rw [List.foldl_concat, List.foldl_concat]
      generalize certs.foldl (collectCert V H batch) ({}, l) = s at ih ⊢
      generalize certs.foldl (collectCert V H batch) ({}, l') = s' at ih ⊢
      obtain ⟨acc, m⟩ := s
      obtain ⟨acc', m'⟩ := s'
      obtain ⟨rfl, hm⟩ := ih
      exact collectCert_congr hL batch _ cert hm

end Congruence

section Runs

variable {V : Crates} {Msg : Type} {rates : ContentRates}

theorem respects_alike
    (rates : ContentRates)
    (a : Arrival Msg) :
    Respects (a.handlerAt rates).limiters (ContentLimits.Alike a.time) where
  checkSpace space _ _ h := alike_checkSpace rates h space
  checkHandle handle _ _ h := alike_checkHandle rates h handle

/-- The states of two runs that the rest of the handler cannot tell apart. -/
structure Indistinct (now : Nat) (s s' : HandlerState ContentLimits) : Prop where
  handles : SameHandles s.db s'.db
  limits : ContentLimits.Alike now s.limits s'.limits

/-- **A message is handled alike in states that cannot be told apart.** -/
theorem arrive_congr
    {s s' : HandlerState ContentLimits}
    {a : Arrival Msg}
    (h : Indistinct a.time s s') :
    (arrive V rates s a).1 = (arrive V rates s' a).1 ∧
      Indistinct a.time (arrive V rates s a).2 (arrive V rates s' a).2 := by
  have hlimits : ContentLimits.Alike a.time (tick (a.handlerAt rates) s).limits
      (tick (a.handlerAt rates) s').limits :=
    ((alike_tick rates a s).trans h.limits).trans (alike_tick rates a s').symm
  have hverify : verifyMessage V (a.handlerAt rates) a.msg s'.db =
      verifyMessage V (a.handlerAt rates) a.msg s.db := by
    unfold verifyMessage getZones
    rw [h.handles.handles]
  have hhints : ∀ handles, getHandleHints s'.db handles = getHandleHints s.db handles := by
    intro handles
    unfold getHandleHints
    rw [h.handles.handles]
  have hsame : (tick (a.handlerAt rates) s).db = s.db := rfl
  have hsame' : (tick (a.handlerAt rates) s').db = s'.db := rfl
  unfold arrive handleMessageOpts
  dsimp only
  unfold collectMessage
  rw [hsame, hsame', hverify]
  cases verifyMessage V (a.handlerAt rates) a.msg s.db with
  | error e =>
      exact ⟨rfl, h.handles, hlimits⟩
  | ok res =>
      rw [Fallible.ok_bind, Fallible.ok_bind]
      simp only [hhints]
      generalize Batch.mk res.zones
        (getHandleHints s.db (res.certificates.map (fun c => c.subject.text)))
        a.gatedSpaces a.charge = batch
      obtain ⟨hacc, hnext⟩ := collect_congr (V := V) (respects_alike rates a) batch
        res.certificates hlimits
      generalize collect V (a.handlerAt rates) batch res.certificates
        (tick (a.handlerAt rates) s).limits = out at hacc hnext ⊢
      generalize collect V (a.handlerAt rates) batch res.certificates
        (tick (a.handlerAt rates) s').limits = out' at hacc hnext ⊢
      have hstored := applyCollected_frame (V := V) h.handles a.clock out.1
      rw [← hacc]
      generalize applyCollected V a.clock s.db out.1 = stored at hstored ⊢
      generalize applyCollected V a.clock s'.db out.1 = stored' at hstored ⊢
      cases hstored with
      | error e =>
          exact ⟨rfl, h.handles, hnext⟩
      | ok result hhandles =>
          exact ⟨rfl, hhandles, hnext⟩

/-- The state of a run: the instant of the last arrival, and the handler. -/
def arriveNext (V : Crates) (rates : ContentRates) (s : Nat × HandlerState ContentLimits)
    (a : Arrival Msg) : Nat × HandlerState ContentLimits :=
  (a.time, (arrive V rates s.2 a).2)

/-- What the sender of a message is told. -/
def answer (V : Crates) (rates : ContentRates) (s : Nat × HandlerState ContentLimits)
    (a : Arrival Msg) : Except String BulkStoreResult :=
  (arrive V rates s.2 a).1

/-- Time does not go back, and every replay is rejected as a whole and takes no token. -/
structure Harmless (V : Crates) (rates : ContentRates)
    (s : Nat × HandlerState ContentLimits) (a : Arrival Msg) : Prop where
  time_le : s.1 ≤ a.time
  rejected : a.replay = true → AllRejected V rates s.2 a
  takesNoToken : a.replay = true → TakesNoToken V rates s.2 a

/-- A state of a run, and the state of the run without the replays. -/
def RunsAlike (s s' : Nat × HandlerState ContentLimits) : Prop :=
  Indistinct s.1 s.2 s'.2

/-- A harmless replay leaves the run where the other one is. -/
theorem runsAlike_replay
    {s s' : Nat × HandlerState ContentLimits}
    {a : Arrival Msg}
    (h : RunsAlike s s')
    (ha : Harmless V rates s a)
    (hreplay : a.replay = true) :
    RunsAlike (arriveNext V rates s a) s' := by
  have hleaves := (unchanged_iff (ha.rejected hreplay)).2 (ha.takesNoToken hreplay)
  exact ⟨hleaves.handles.symm.trans h.handles,
    hleaves.limits.symm.trans (h.limits.mono ha.time_le)⟩

/-- Any other message is answered alike, and both runs go on alike. -/
theorem runsAlike_message
    {s s' : Nat × HandlerState ContentLimits}
    {a : Arrival Msg}
    (h : RunsAlike s s')
    (ha : Harmless V rates s a) :
    answer V rates s a = answer V rates s' a ∧
      RunsAlike (arriveNext V rates s a) (arriveNext V rates s' a) :=
  arrive_congr ⟨h.handles, h.limits.mono ha.time_le⟩

/-- **Replays starve nobody.**  A message of which nothing would be stored leaves the
limiters and the handles alone exactly if none of its records is charged while its space
has a token; and replays that meet this can be inserted anywhere into a run: the other
messages are answered as without them, with the same records stored, and the handles and
the limiters end the same. -/
theorem replays_starve_nobody
    (V : Crates)
    (rates : ContentRates) :
    (∀ (s : HandlerState ContentLimits) (a : Arrival Msg), AllRejected V rates s a →
      (LeavesUnchanged V rates s a ↔ TakesNoToken V rates s a)) ∧
    ∀ (s : Nat × HandlerState ContentLimits) (run : List (Arrival Msg)),
      Runs.StepsMeet (arriveNext V rates) (Harmless V rates) s run →
      Runs.heard (arriveNext V rates) (answer V rates) Arrival.replay s run =
          Runs.heard (arriveNext V rates) (answer V rates) Arrival.replay s
            (Runs.purge Arrival.replay run) ∧
        RunsAlike (run.foldl (arriveNext V rates) s)
          ((Runs.purge Arrival.replay run).foldl (arriveNext V rates) s) := by
  constructor
  · intro s a hrejected
    exact unchanged_iff hrejected
  · intro s run hrun
    refine Runs.heard_purge (R := RunsAlike) ?_ ?_ hrun
      ⟨SameHandles.refl s.2.db, .refl s.1 s.2.limits⟩
    · intro s s' a halike ha hreplay
      exact runsAlike_replay halike ha hreplay
    · intro s s' a halike ha _
      exact runsAlike_message halike ha

/-- A message about one handle, in an epoch of its space, at the instant 0. -/
def sampleArrival (replay : Bool) (zone : Zone) (height : Nat) : Arrival VerifiedMessage where
  time := 0
  handler :=
    { devMode := false
      limiters := contentLimiters ContentRates.default 0
      spaces := fun _ => []
      verify := fun _ _ msg => .ok msg
      isSingleLabel := fun n => n.text.toList.head? = some '@' }
  clock := fun _ => 0
  gatedSpaces := []
  charge := true
  msg := ⟨[zone, { sampleZone 0 1 height 0 with canonical := ⟨"@bitcoin"⟩ }], [sampleCert]⟩
  replay := replay

/-- Of a sample message only the one record has to be looked at. -/
theorem allRejected_sample
    {V : Crates}
    {s : HandlerState ContentLimits}
    {replay : Bool}
    {zone : Zone}
    {height : Nat}
    (h : ∀ u ∈ recordOf V ((sampleArrival replay zone height).handlerAt .default)
        (sampleArrival replay zone height).msg.zones sampleCert,
      accepts V 0 (storedZone V s.db u.handle) u = false) :
    AllRejected V .default s (sampleArrival replay zone height) := by
  intro res hres
  cases hres
  exact List.forall_mem_singleton.2 h

theorem takesNoToken_sample
    {V : Crates}
    {s : HandlerState ContentLimits}
    {replay : Bool}
    {zone : Zone}
    {height : Nat}
    (h : ∀ keys ∈ chargedKeys V ((sampleArrival replay zone height).handlerAt .default)
        (batchOf s.db [] true (sampleArrival replay zone height).msg) sampleCert,
      s.limits.spaceRate.tokens ContentRates.default.space 0 keys.1 = 0) :
    TakesNoToken V .default s (sampleArrival replay zone height) := by
  intro res hres
  cases hres
  exact List.forall_mem_singleton.2 h

/-- A message that comes again between two messages of the owner. -/
theorem replays_starve_nobody_sample :
    let V := Crates.ofTables [sampleCert] [sampleZone 2 1 0 0, sampleZone 3 1 0 0]
    let first := sampleArrival false (sampleZone 2 1 0 0) 2
    let again := sampleArrival true (sampleZone 2 1 0 0) 2
    let next := sampleArrival false (sampleZone 3 1 0 0) 2
    let s : Nat × HandlerState ContentLimits := (0, .fresh .fresh)
    Runs.heard (arriveNext V .default) (answer V .default) Arrival.replay s
        [first, again, next] =
      Runs.heard (arriveNext V .default) (answer V .default) Arrival.replay s [first, next] := by
  intro V first again next s
  refine ((replays_starve_nobody V .default).2 s [first, again, next] ?_).1
  refine ⟨⟨le_rfl, ?_, ?_⟩, ⟨le_rfl, fun _ => ?_, fun _ => ?_⟩, ⟨le_rfl, ?_, ?_⟩, trivial⟩
  · intro h
    cases h
  · intro h
    cases h
  · exact allRejected_sample (by decide +kernel)
  · exact takesNoToken_sample (by decide +kernel)
  · intro h
    cases h
  · intro h
    cases h

/-- An older message of a lower epoch, replayed three times: nothing of it is stored, but
it takes the tokens of the handle, and the next message of the owner is dropped. -/
theorem replays_starve_owner :
    let V := Crates.ofTables [sampleCert]
      [sampleZone 1 1 0 0, sampleZone 2 1 0 0, sampleZone 3 1 0 0]
    let first := sampleArrival false (sampleZone 2 1 0 0) 2
    let older := sampleArrival true (sampleZone 1 1 0 0) 1
    let next := sampleArrival false (sampleZone 3 1 0 0) 2
    let s : Nat × HandlerState ContentLimits := (0, .fresh .fresh)
    let run := [first, older, older, older, next]
    Runs.StepsMeet (arriveNext V .default)
        (fun s a => a.replay = true → AllRejected V .default s.2 a) s run ∧
      ¬ LeavesUnchanged V .default (arriveNext V .default s first).2 older ∧
      storedZone V (run.foldl (arriveNext V .default) s).2.db "alice@bitcoin" =
        some (sampleZone 2 1 0 0) ∧
      storedZone V ((Runs.purge Arrival.replay run).foldl (arriveNext V .default) s).2.db
        "alice@bitcoin" = some (sampleZone 3 1 0 0) := by
  intro V first older next s run
  refine ⟨⟨?_, fun _ => ?_, fun _ => ?_, fun _ => ?_, ?_, trivial⟩, ?_, by decide +kernel,
    by decide +kernel⟩
  · intro h
    cases h
  · exact allRejected_sample (by decide +kernel)
  · exact allRejected_sample (by decide +kernel)
  · exact allRejected_sample (by decide +kernel)
  · intro h
    cases h
  · intro h
    exact absurd (h.limits.handleRate "alice@bitcoin") (by decide +kernel)

end Runs

end CertRelay
