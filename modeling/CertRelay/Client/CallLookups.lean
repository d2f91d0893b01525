import CertRelay.Client.CallTrust

/-!
# What lookups return

A zone that a client caches or returns was verified against anchors that were in use, in the
context of zones of which the same is true.

**Results.**
* `safe_sendLoop`: the answer to a query was verified in such a context;
* `safe_query`: what is cached then is vouched for;
* `safe_resolveLookup`, `safe_resolveById`, `safe_searchAddr`: what lookups return.
-/

namespace CertRelay
namespace Calls

open RootCache SendQuery Script

section Lookups

variable {ν Msg L α : Type} {K : CallCrates ν Msg L} {f₀ : Fabric ν} {calls : List Call}
  {log : List (Moment ν)}

theorem Safe.any
    {Q : List (Moment ν) → α → Prop}
    {x : Async ν α}
    (h : Safe K f₀ calls Q x log) :
    Safe K f₀ calls Any x log :=
  h.imp (fun _ _ _ _ _ => trivial)

theorem safe_askHints
    (q : String)
    (noCache : Bool)
    (batch : List String)
    (ranked : List (String × Hints.HintsResponse)) :
    Safe K f₀ calls Any (askHints q noCache batch ranked) log := by
  induction batch generalizing log ranked with
  | nil =>
      exact Keeps.pureOk trivial
  | cons url batch ih =>
      refine Keeps.bindOk (safe_ask (fun _ _ _ => trivial)) (fun _ answer _ => ?_)
      cases answer with
      | some hints =>
          exact ih _
      | none =>
          exact Keeps.bindOk (safe_markFailed url) (fun _ _ _ => ih ranked)

theorem safe_rankRelays
    (count : ℕ)
    (q : String)
    (noCache : Bool)
    (batches : List (List String))
    (ranked : List (String × Hints.HintsResponse)) :
    Safe K f₀ calls Any (rankRelays count q noCache batches ranked) log := by
  induction batches generalizing log ranked with
  | nil =>
      exact Keeps.pureOk trivial
  | cons batch batches ih =>
      unfold rankRelays
      split_ifs
      · exact Keeps.pureOk trivial
      · exact Keeps.bindOk (safe_askHints q noCache batch ranked) (fun _ ranked _ => ih ranked)

theorem safe_chooseRelays
    (preferLatest : Bool)
    (request : QueryRequest)
    (noCache : Bool) :
    Safe K f₀ calls Any (chooseRelays preferLatest request noCache) log := by
  cases preferLatest with
  | false =>
      exact safe_shuffledUrlsN 4
  | true =>
      refine Keeps.bindOk (safe_ask (fun _ _ _ => trivial)) (fun _ q _ => ?_)
      refine Keeps.bindOk (safe_shuffledUrlsN _) (fun _ shuffled _ => ?_)
      refine Keeps.bindOk (safe_rankRelays _ _ _ _ _) (fun _ ranked _ => ?_)
      exact safe_ask (fun _ _ _ => trivial)

/-- A round that takes an answer has verified it. -/
theorem verified_of_done
    {C : QueryCrates (List HandleZone) Msg VerifiedAnswer}
    {ctx : List HandleZone}
    {devMode : Bool}
    {x : String × Reply}
    {res : VerifiedAnswer × String}
    (h : rustAttempt C ctx devMode x = .done res) :
    ∃ msg, SendQuery.verified C ctx devMode msg = .ok res.1 := by
  rcases rustAttempt_cases C ctx devMode x with
    ⟨v, hgood, hdone⟩ | ⟨_, _, e, hstop⟩ | ⟨_, _, e, hskip⟩
  · rw [hdone] at h
    cases h
    unfold goodAnswer at hgood
    cases hx : x.2 with
    | unreachable e =>
        rw [hx] at hgood
        cases hgood
    | response status body broken =>
        rw [hx] at hgood
        cases broken with
        | some e =>
            cases hgood
        | none =>
            dsimp only at hgood
            split_ifs at hgood
            unfold bodyMessage at hgood
            obtain ⟨msg, _, hmsg⟩ := Fallible.bind_eq_ok.1 (Fallible.toOption_eq_some.1 hgood)
            exact ⟨msg, hmsg⟩
  · rw [hstop] at h
    cases h
  · rw [hskip] at h
    cases h

/-- **What a query returns is verified in the context of zones that are vouched for.** -/
theorem safe_sendLoop
    {ctx : List HandleZone}
    (hctx : ∀ z ∈ ctx, Vouched K f₀ log z)
    (request : QueryRequest)
    (noCache : Bool)
    (last : ClientError)
    (relays : List String) :
    Safe K f₀ calls (fun log res => Answered K f₀ log res.1)
      (sendLoop K ctx request noCache last relays) log := by
  induction relays generalizing log last with
  | nil =>
      exact Keeps.throw last
  | cons url relays ih =>
      refine Keeps.bindOk (safe_ask (fun _ _ _ => trivial)) (fun more reply _ => ?_)
      have hctx' : ∀ z ∈ ctx, Vouched K f₀ (log ++ more) z := fun z hz => (hctx z hz).longer more
      refine Keeps.bindOk (Q := fun log attempt => ∀ res, attempt = .done res →
        Answered K f₀ log res.1) (safe_look ?_) (fun more' attempt hattempt => ?_)
      · intro more' c hc res hres
        obtain ⟨msg, hverified⟩ := verified_of_done hres
        rw [hc.devMode] at hverified
        exact ⟨c.fabric.veritas, ctx, msg, hc.veritas, fun z hz => (hctx' z hz).longer more',
          hverified⟩
      · cases attempt with
        | skip e =>
            refine Keeps.bindOk (safe_markFailed url) (fun more'' _ _ => ?_)
            exact ih (fun z hz => ((hctx' z hz).longer more').longer more'') e
        | stop e =>
            exact Keeps.throw e
        | done res =>
            refine Keeps.bindOk (safe_markAlive url) (fun more'' _ _ => Keeps.pureOk ?_)
            exact (hattempt res rfl).longer more''

theorem safe_readCache
    (spaces : List String)
    {ctx : List HandleZone}
    (hctx : ∀ z ∈ ctx, Vouched K f₀ log z) :
    Safe K f₀ calls (fun log ctx => ∀ z ∈ ctx, Vouched K f₀ log z) (readCache spaces ctx) log := by
  induction spaces generalizing log ctx with
  | nil =>
      exact Keeps.pureOk hctx
  | cons space spaces ih =>
      refine Keeps.bindOk (safe_look (Q := fun log zone => ∀ z ∈ zone, Vouched K f₀ log z) ?_)
        (fun more zone hzone => ih (fun z hz => ?_))
      · intro more c hc z hz
        exact hc.cache z (KeyedTable.find?_eq_some_iff.1 hz).1
      · rcases List.mem_append.1 hz with hold | hnew
        · exact (hctx z hold).longer more
        · exact hzone z (Option.mem_toList.1 hnew)

theorem safe_writeCache
    {zones : List HandleZone}
    (hzones : ∀ z ∈ zones, Vouched K f₀ log z) :
    Safe K f₀ calls Any (writeCache zones) log := by
  induction zones generalizing log with
  | nil =>
      exact Keeps.pureOk trivial
  | cons z zones ih =>
      refine Keeps.bindOk (safe_change (fun more c hc => ?_))
        (fun more _ _ => ih (fun z' hz' => ?_))
      · exact hc.cached ((hzones z List.mem_cons_self).longer more) rfl
      · exact (hzones z' (List.mem_cons_of_mem z hz')).longer more

theorem safe_query
    (request : QueryRequest)
    (noCache : Bool) :
    Safe K f₀ calls (fun log res => Answered K f₀ log res.1) (query K request noCache) log := by
  refine Keeps.bindOk safe_bootstrap (fun _ _ _ => ?_)
  refine Keeps.bindOk (Q := fun log ctx => ∀ z ∈ ctx, Vouched K f₀ log z) ?_ (fun _ ctx hctx => ?_)
  · cases noCache with
    | true =>
        exact Keeps.pureOk (List.forall_mem_nil _)
    | false =>
        exact safe_readCache _ (List.forall_mem_nil _)
  refine Keeps.bindOk (safe_look (Q := Any) (fun _ _ _ => trivial)) (fun more preferLatest _ => ?_)
  refine Keeps.bindOk (safe_chooseRelays preferLatest request noCache) (fun more' relays _ => ?_)
  refine Keeps.bindOk (safe_sendLoop (fun z hz => ((hctx z hz).longer more).longer more') request
    noCache .noPeers relays) (fun _ answer hanswer => ?_)
  refine Keeps.bindOk (safe_ifNeeded (safe_writeCache (fun z hz => ?_)) (!noCache))
    (fun more'' _ _ => Keeps.pureOk (hanswer.longer more''))
  exact hanswer.vouched (List.mem_filter.1 hz).1

theorem safe_flatQueries
    (useHints : Bool)
    (bySpace : List (String × List String))
    (queries : List Query) :
    Safe K f₀ calls Any (flatQueries useHints bySpace queries) log := by
  induction bySpace generalizing log queries with
  | nil =>
      exact Keeps.pureOk trivial
  | cons entry bySpace ih =>
      refine Keeps.bindOk (Q := Any) ?_ (fun _ hint _ => ih _)
      cases useHints with
      | true =>
          unfold cachedEpoch
          rw [if_pos rfl]
          exact safe_look (fun _ _ _ => trivial)
      | false =>
          exact Keeps.pureOk trivial

theorem safe_resolveFlat
    (handles : List String)
    (hints noCache : Bool) :
    Safe K f₀ calls (fun log res => Answered K f₀ log res.1)
      (resolveFlat K handles hints noCache) log := by
  refine Keeps.bindOk (safe_ask (fun _ _ _ => trivial)) (fun _ split _ => ?_)
  refine Keeps.bindOk (safe_ask (fun _ _ _ => trivial)) (fun _ bySpace _ => ?_)
  refine Keeps.bindOk (safe_flatQueries _ bySpace []) (fun _ queries _ => ?_)
  exact safe_query _ noCache

/-- Zones that are vouched for, and certificates of verified messages. -/
def FoundVouched (K : CallCrates ν Msg L) (f₀ : Fabric ν) (log : List (Moment ν)) (found : Found) :
    Prop :=
  (∀ z ∈ found.zones, Vouched K f₀ log z) ∧ ∀ cert ∈ found.certs, Certified K f₀ log cert

theorem FoundVouched.longer
    {found : Found}
    (h : FoundVouched K f₀ log found)
    (more : List (Moment ν)) :
    FoundVouched K f₀ (log ++ more) found :=
  ⟨fun z hz => (h.1 z hz).longer more, fun cert hcert => (h.2 cert hcert).longer more⟩

/-- One more answer. -/
theorem FoundVouched.append
    {found : Found}
    (h : FoundVouched K f₀ log found)
    {res : VerifiedAnswer}
    (hres : Answered K f₀ log res)
    (wantCerts : Bool) :
    FoundVouched K f₀ log
      { zones := found.zones ++ res.zones
        certs := if wantCerts then found.certs ++ res.certificates else found.certs } := by
  refine ⟨fun z hz => ?_, fun cert hcert => ?_⟩
  · rcases List.mem_append.1 hz with hold | hnew
    · exact h.1 z hold
    · exact hres.vouched hnew
  · cases wantCerts with
    | false =>
        exact h.2 cert hcert
    | true =>
        rcases List.mem_append.1 hcert with hold | hnew
        · exact h.2 cert hold
        · exact ⟨res, hres, hnew⟩

theorem safe_lookupLoop
    (opts : LookupOpts)
    (rounds : ℕ)
    (lookup : L)
    (prevBatch batch : List SName)
    {found : Found}
    (hfound : FoundVouched K f₀ log found) :
    Safe K f₀ calls (fun log r => FoundVouched K f₀ log r.2)
      (lookupLoop K opts rounds lookup prevBatch batch found) log := by
  induction rounds generalizing log lookup prevBatch batch found with
  | zero =>
      trivial
  | succ rounds ih =>
      unfold lookupLoop
      by_cases hstop : (batch.isEmpty || batch == prevBatch) = true
      · rw [if_pos hstop]
        exact Keeps.pureOk hfound
      · rw [if_neg hstop]
        refine Keeps.bindOk (safe_resolveFlat _ _ _) (fun more answer hanswer => ?_)
        exact ih _ _ _ ((hfound.longer more).append hanswer opts.wantCerts)

/-- The expansion of zones that are vouched for, and certificates of verified messages. -/
def LookedUp (K : CallCrates ν Msg L) (f₀ : Fabric ν) (log : List (Moment ν))
    (found : Found) : Prop :=
  (∀ z ∈ found.zones, Expanded K f₀ log z) ∧ ∀ cert ∈ found.certs, Certified K f₀ log cert

theorem safe_resolveLookup
    (rounds : ℕ)
    (snames : List SName)
    (opts : LookupOpts) :
    Safe K f₀ calls (LookedUp K f₀) (resolveLookup K rounds snames opts) log := by
  have hempty : FoundVouched K f₀ log ⟨[], []⟩ :=
    ⟨List.forall_mem_nil _, List.forall_mem_nil _⟩
  refine Keeps.bindOk (safe_lookupLoop opts rounds _ [] _ hempty) (fun _ r hr => ?_)
  exact Keeps.pureOk ⟨fun z hz => ⟨r.1, r.2.zones, hr.1, hz⟩, hr.2⟩

/-- Every zone comes from an expansion. -/
def AllExpanded (K : CallCrates ν Msg L) (f₀ : Fabric ν) (log : List (Moment ν))
    (zones : List HandleZone) : Prop :=
  ∀ z ∈ zones, Expanded K f₀ log z

theorem safe_resolveAll
    (rounds : ℕ)
    (handles : List String)
    (noCache : Bool) :
    Safe K f₀ calls (AllExpanded K f₀)
      (resolveAll K rounds handles noCache) log :=
  Keeps.bindOk (safe_resolveLookup rounds _ _) (fun _ _ h => Keeps.pureOk h.1)

/-- The zone of a handle. -/
theorem find?_handle
    {zones : List HandleZone}
    {handle : String}
    {z : HandleZone}
    (h : zones.find? (fun z => z.1 = handle) = some z) :
    z.1 = handle ∧ z ∈ zones := by
  have hz := List.find?_some h
  exact ⟨of_decide_eq_true hz, List.mem_of_find?_eq_some h⟩

/-- A zone under the handle. -/
def ResolvedTo (K : CallCrates ν Msg L) (f₀ : Fabric ν) (handle : String) (log : List (Moment ν))
    (found : Option HandleZone) : Prop :=
  ∀ z ∈ found, z.1 = handle ∧ Expanded K f₀ log z

theorem safe_resolve
    (rounds : ℕ)
    (handle : String)
    (noCache : Bool) :
    Safe K f₀ calls (ResolvedTo K f₀ handle) (resolve K rounds handle noCache) log := by
  refine Keeps.bindOk (safe_resolveAll rounds _ _) (fun _ zones h => Keeps.pureOk ?_)
  intro z hz
  obtain ⟨hhandle, hmem⟩ := find?_handle hz
  exact ⟨hhandle, h z hmem⟩

/-- The bytes are the chain of a name with certificates of verified messages. -/
def ChainOf (K : CallCrates ν Msg L) (f₀ : Fabric ν) (handle : String) (log : List (Moment ν))
    (bytes : Bytes) : Prop :=
  ∃ sname certs, K.names.tryFrom handle = .ok sname ∧ bytes = K.names.chainToBytes sname certs ∧
    ∀ cert ∈ certs, Certified K f₀ log cert

theorem safe_exportChain
    (rounds : ℕ)
    (handle : String) :
    Safe K f₀ calls (ChainOf K f₀ handle) (exportChain K rounds handle) log := by
  refine Keeps.bindOk (safe_ask (fun _ _ h => Fallible.mapError_eq_ok.1 h))
    (fun _ sname hname => ?_)
  refine Keeps.bindOk (safe_resolveLookup rounds _ _) (fun _ found h => Keeps.pureOk ?_)
  exact ⟨sname, found.certs, hname, rfl, h.2⟩

/-- A zone of the handle, its parents, and its chain. -/
structure WithCerts (K : CallCrates ν Msg L) (f₀ : Fabric ν) (handle : String)
    (log : List (Moment ν)) (r : ResolvedWithCerts) : Prop where
  zone : r.zone.1 = handle ∧ Expanded K f₀ log r.zone
  parents : ∀ z ∈ r.parents, Expanded K f₀ log z ∧
    K.names.isSingleLabel z.2.canonical = true ∧ z.2.canonical ≠ r.zone.2.canonical
  certs : ChainOf K f₀ handle log r.certs

/-- What is found for the handle, if anything is. -/
def FoundWithCerts (K : CallCrates ν Msg L) (f₀ : Fabric ν) (handle : String)
    (log : List (Moment ν)) (found : Option ResolvedWithCerts) : Prop :=
  ∀ r ∈ found, WithCerts K f₀ handle log r

theorem safe_resolveWithCerts
    (rounds : ℕ)
    (handle : String) :
    Safe K f₀ calls (FoundWithCerts K f₀ handle)
      (resolveWithCerts K rounds handle) log := by
  refine Keeps.bindOk (safe_ask (fun _ _ h => Fallible.mapError_eq_ok.1 h))
    (fun _ sname hname => ?_)
  refine Keeps.bindOk (safe_resolveLookup rounds _ _) (fun _ found h => Keeps.pureOk ?_)
  intro r hr
  obtain ⟨leaf, hleaf, rfl⟩ := Option.map_eq_some_iff.1 hr
  obtain ⟨hhandle, hmem⟩ := find?_handle hleaf
  refine ⟨⟨hhandle, h.1 leaf hmem⟩, fun z hz => ?_, ⟨sname, found.certs, hname, rfl, h.2⟩⟩
  obtain ⟨hmem, hparent⟩ := List.mem_filter.1 (List.mem_reverse.1 hz)
  rw [Bool.and_eq_true, Bool.not_eq_true', decide_eq_false_iff_not] at hparent
  exact ⟨h.1 z hmem, hparent⟩

/-- A zone with the id. -/
def HasId (K : CallCrates ν Msg L) (f₀ : Fabric ν) (numId : String) (log : List (Moment ν))
    (found : Option HandleZone) : Prop :=
  ∀ z ∈ found, z.2.numId = some numId ∧ Expanded K f₀ log z

theorem safe_resolveByIdLoop
    (rounds : ℕ)
    (numId : String)
    (relays : List String)
    (lastErr : Option ClientError)
    (anyResponded : Bool) :
    Safe K f₀ calls (HasId K f₀ numId)
      (resolveByIdLoop K rounds numId relays lastErr anyResponded) log := by
  induction relays generalizing log lastErr anyResponded with
  | nil =>
      unfold resolveByIdLoop
      split_ifs
      · exact Keeps.pureOk (fun z hz => by cases hz)
      · exact Keeps.throw _
  | cons url relays ih =>
      refine Keeps.bindOk (safe_ask (fun _ _ _ => trivial)) (fun _ answer _ => ?_)
      cases answer with
      | none =>
          exact ih _ _
      | some records =>
          dsimp only
          cases records.find? (fun r => r.id = numId) with
          | none =>
              exact ih _ _
          | some entry =>
              refine Keeps.bindOk (Keeps.attempt (safe_resolve rounds entry.name false))
                (fun _ result hresult => ?_)
              rcases result with e | _ | zone
              · exact ih _ _
              · exact ih _ _
              · dsimp only
                split_ifs with hid
                · refine Keeps.pureOk (fun z hz => ?_)
                  cases hz
                  exact ⟨hid, (hresult _ rfl _ rfl).2⟩
                · exact ih _ _

theorem safe_resolveById
    (rounds : ℕ)
    (numId : String) :
    Safe K f₀ calls (HasId K f₀ numId) (resolveById K rounds numId) log :=
  Keeps.bindOk safe_bootstrap (fun _ _ _ => Keeps.bindOk (safe_shuffledUrlsN 4)
    (fun _ relays _ => safe_resolveByIdLoop rounds numId relays none false))

/-- Zones with the address, at least one. -/
def HaveAddr (K : CallCrates ν Msg L) (f₀ : Fabric ν) (name addr : String) (log : List (Moment ν))
    (zones : List HandleZone) : Prop :=
  zones ≠ [] ∧ ∀ z ∈ zones, hasAddr K name addr z.2 = true ∧ Expanded K f₀ log z

theorem safe_searchAddrLoop
    (rounds : ℕ)
    (name addr : String)
    (relays : List String)
    (lastErr : ClientError) :
    Safe K f₀ calls (HaveAddr K f₀ name addr)
      (searchAddrLoop K rounds name addr relays lastErr) log := by
  induction relays generalizing log lastErr with
  | nil =>
      exact Keeps.throw lastErr
  | cons url relays ih =>
      refine Keeps.bindOk (safe_ask (fun _ _ _ => trivial)) (fun _ answer _ => ?_)
      cases answer with
      | none =>
          exact ih _
      | some handles =>
          dsimp only
          split_ifs
          · exact ih _
          · refine Keeps.bindOk (Keeps.attempt (safe_resolveAll rounds _ false))
              (fun _ result hresult => ?_)
            cases result with
            | error e =>
                exact ih e
            | ok zones =>
                dsimp only
                split_ifs with hempty
                · exact ih _
                · refine Keeps.pureOk ⟨fun h => hempty (List.isEmpty_iff.2 h), fun z hz => ?_⟩
                  obtain ⟨hmem, haddr⟩ := List.mem_filter.1 hz
                  exact ⟨haddr, hresult zones rfl z hmem⟩

theorem safe_searchAddr
    (rounds : ℕ)
    (name addr : String) :
    Safe K f₀ calls (HaveAddr K f₀ name addr) (searchAddr K rounds name addr) log :=
  Keeps.bindOk safe_bootstrap (fun _ _ _ => Keeps.bindOk (safe_shuffledUrlsN 4)
    (fun _ relays _ => safe_searchAddrLoop rounds name addr relays .noPeers))

end Lookups

end Calls
end CertRelay
