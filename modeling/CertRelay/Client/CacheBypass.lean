import CertRelay.Client.CallSafety

/-!
# Calls that bypass the cache

A call with `no_cache` is for reading one's own write at once: it neither reads the cache of
zones, nor starts from it, nor writes it.  The same goes for all calls that change trust.  So
calls of these kinds, however they take turns, do the same whatever is cached.

**Results.**
* `ignores_script`: no step of such a call looks at the cache, or writes it;
* `cache_bypassed`: what they return does not depend on the cache, which stays as it is.
-/

namespace CertRelay
namespace Calls

open RootCache Script Fabric

section Scripts

variable {ν Msg L α : Type} {K : CallCrates ν Msg L}

/-- A client with another cache. -/
def withCache (cache : Cache) (c : Client ν) : Client ν :=
  { c with fabric := { c.fabric with rootCache := cache } }

/-- The script neither reads the cache nor writes it. -/
abbrev Bypasses (x : Async ν α) : Prop :=
  ∀ cache, Ignores (withCache cache) x.run

theorem bypasses_look
    {f : Fabric ν → α}
    (h : ∀ (g : Fabric ν) cache, f { g with rootCache := cache } = f g) :
    Bypasses (look f) :=
  fun cache => Ignores.step (fun c => by
    show (Except.ok (f (withCache cache c).fabric), withCache cache c) = _
    rw [show f (withCache cache c).fabric = f c.fabric from h c.fabric cache])

theorem bypasses_ask
    (f : Network → Except ClientError α) :
    Bypasses (ask f : Async ν α) :=
  fun _ => Ignores.step (fun _ => rfl)

theorem bypasses_change
    {f : Fabric ν → Fabric ν}
    (h : ∀ (g : Fabric ν) cache,
      f { g with rootCache := cache } = { f g with rootCache := cache }) :
    Bypasses (change f) :=
  fun cache => Ignores.step (fun c => by
    show (Except.ok PUnit.unit,
      { withCache cache c with fabric := f (withCache cache c).fabric }) = _
    rw [show f (withCache cache c).fabric = { f c.fabric with rootCache := cache } from
      h c.fabric cache]
    rfl)

theorem Bypasses.bind
    {β : Type}
    {x : Async ν α}
    {f : α → Async ν β}
    (hx : Bypasses x)
    (hf : ∀ a, Bypasses (f a)) :
    Bypasses (x >>= f) :=
  fun cache => Ignores.bindOk (hx cache) (fun a => hf a cache)

theorem bypasses_pure
    (a : α) :
    Bypasses (pure a : Async ν α) :=
  fun _ => trivial

theorem bypasses_throw
    (e : ClientError) :
    Bypasses (throw e : Async ν α) :=
  fun _ => trivial

theorem bypasses_shuffledUrlsN
    (n : ℕ) :
    Bypasses (shuffledUrlsN n : Async ν (List String)) :=
  fun _ => Ignores.step (fun _ => rfl)

theorem bypasses_markFailed
    (url : String) :
    Bypasses (markFailed url : Async ν PUnit) :=
  bypasses_change (fun _ _ => rfl)

theorem bypasses_markAlive
    (url : String) :
    Bypasses (markAlive url : Async ν PUnit) :=
  bypasses_change (fun _ _ => rfl)

theorem bypasses_ifNeeded
    {x : Async ν PUnit}
    (hx : Bypasses x)
    (needed : Bool) :
    Bypasses (ifNeeded needed x) := by
  cases needed with
  | false =>
      exact bypasses_pure _
  | true =>
      exact hx

theorem bypasses_gatherPeers
    (seeds urls : List String)
    (lastErr : Option ClientError) :
    Bypasses (gatherPeers seeds urls lastErr : Async ν _) := by
  induction seeds generalizing urls lastErr with
  | nil =>
      exact bypasses_pure _
  | cons seed seeds ih =>
      refine (bypasses_ask _).bind (fun answer => ?_)
      cases answer with
      | ok peers =>
          exact ih _ _
      | error e =>
          exact ih _ _

theorem bypasses_bootstrapPeers :
    Bypasses (bootstrapPeers : Async ν PUnit) := by
  refine (bypasses_look (fun _ _ => rfl)).bind (fun seeds => ?_)
  refine (bypasses_gatherPeers seeds seeds none).bind (fun found => ?_)
  split_ifs
  · cases found.2 with
    | none =>
        exact bypasses_change (fun _ _ => rfl)
    | some e =>
        exact bypasses_throw e
  · exact fun _ => Ignores.step (fun _ => rfl)

theorem rebuildVeritas_withCache
    (kind : TrustKind)
    (anchors : List RootAnchor)
    (g : Fabric ν)
    (cache : Cache) :
    rebuildVeritas K.client (poolWith kind anchors g.anchorPool) { g with rootCache := cache } =
      { rebuildVeritas K.client (poolWith kind anchors g.anchorPool) g with
        rootCache := cache } := by
  unfold rebuildVeritas
  cases K.client.withAnchors (poolWith kind anchors g.anchorPool).merged <;> rfl

theorem bypasses_rebuild
    (kind : TrustKind)
    (anchors : List RootAnchor) :
    Bypasses (change (fun f : Fabric ν =>
      rebuildVeritas K.client (poolWith kind anchors f.anchorPool) f)) :=
  bypasses_change (fun g cache => rebuildVeritas_withCache kind anchors g cache)

theorem bypasses_setTrust
    (kind : TrustKind)
    (set : TrustSet) :
    Bypasses (change (setTrust kind set : Fabric ν → Fabric ν)) :=
  bypasses_change (fun _ _ => by cases kind <;> rfl)

theorem bypasses_find
    (target : Target) :
    Bypasses (target.find K) := by
  cases target with
  | trusted id =>
      exact (bypasses_shuffledUrlsN 4).bind (fun _ => bypasses_pure _)
  | semiTrusted id =>
      exact (bypasses_shuffledUrlsN 4).bind (fun _ => bypasses_pure _)
  | observed =>
      exact (bypasses_look (fun _ _ => rfl)).bind (fun _ => bypasses_ask _)

theorem bypasses_updateAnchors
    (target : Target) :
    Bypasses (updateAnchors K target) :=
  (bypasses_find target).bind (fun _ => (bypasses_ask _).bind (fun _ =>
    (bypasses_rebuild _ _).bind (fun _ => bypasses_setTrust _ _)))

theorem bypasses_bootstrap :
    Bypasses (bootstrap K) :=
  (bypasses_look (fun _ _ => rfl)).bind (fun _ =>
    (bypasses_ifNeeded bypasses_bootstrapPeers _).bind (fun _ =>
      (bypasses_look (fun _ _ => rfl)).bind (fun _ =>
        bypasses_ifNeeded (bypasses_updateAnchors _) _)))

theorem bypasses_updateTrust
    (target : Target) :
    Bypasses (updateTrust K target) :=
  (bypasses_look (fun _ _ => rfl)).bind (fun _ =>
    (bypasses_ifNeeded bypasses_bootstrapPeers _).bind (fun _ => bypasses_updateAnchors target))

theorem bypasses_trustFromSet
    (entries : List RootAnchor) :
    Bypasses (trustFromSet K entries) := by
  refine Bypasses.bind (fun cache => Ignores.step (fun c => ?_)) (fun _ =>
    (bypasses_setTrust _ _).bind (fun _ => bypasses_pure _))
  unfold withCache
  dsimp only
  cases K.client.withAnchors { c.fabric.anchorPool with trusted := entries }.merged <;> rfl

theorem bypasses_refreshSemiTrusted :
    Bypasses (refreshSemiTrusted K) := by
  refine (bypasses_look (fun _ _ => rfl)).bind (fun config => ?_)
  refine (bypasses_ask _).bind (fun poll => ?_)
  have hkept : ∀ result : Option TrustId → SemiTrustResult,
      Bypasses (look semiTrustedId >>= fun kept : Option TrustId =>
        (pure (result kept) : Async ν SemiTrustResult)) :=
    fun result => (bypasses_look (fun _ _ => rfl)).bind (fun _ => bypasses_pure _)
  cases poll.1 with
  | none =>
      exact hkept _
  | some entry =>
      dsimp only
      split_ifs
      · exact (bypasses_ask _).bind (fun _ => (bypasses_rebuild _ _).bind (fun _ =>
          (bypasses_setTrust _ _).bind (fun _ => bypasses_pure _)))
      · exact hkept _

theorem bypasses_lookUnless
    (decided : Bool)
    {f : Fabric ν → Bool}
    (h : ∀ (g : Fabric ν) cache, f { g with rootCache := cache } = f g) :
    Bypasses (lookUnless decided f) := by
  cases decided with
  | false =>
      exact bypasses_look h
  | true =>
      exact bypasses_pure _

theorem bypasses_badge
    (zone : BadgeZone) :
    Bypasses (badge zone : Async ν Badge) := by
  refine (bypasses_look (fun _ _ => rfl)).bind (fun _ => ?_)
  refine (bypasses_lookUnless _ (fun _ _ => rfl)).bind (fun _ => ?_)
  refine (bypasses_lookUnless _ (fun _ _ => rfl)).bind (fun hasAnyPool => ?_)
  split_ifs
  · exact bypasses_pure _
  · refine (bypasses_look (fun _ _ => rfl)).bind (fun _ => ?_)
    refine (bypasses_lookUnless _ (fun _ _ => rfl)).bind (fun _ => ?_)
    refine (bypasses_lookUnless _ (fun _ _ => rfl)).bind (fun _ => ?_)
    split_ifs <;> exact bypasses_pure _

end Scripts

section Lookups

variable {ν Msg L : Type} {K : CallCrates ν Msg L}

theorem bypasses_askHints
    (q : String)
    (noCache : Bool)
    (batch : List String)
    (ranked : List (String × Hints.HintsResponse)) :
    Bypasses (askHints q noCache batch ranked : Async ν _) := by
  induction batch generalizing ranked with
  | nil =>
      exact bypasses_pure _
  | cons url batch ih =>
      refine (bypasses_ask _).bind (fun answer => ?_)
      cases answer with
      | some hints =>
          exact ih _
      | none =>
          exact (bypasses_markFailed url).bind (fun _ => ih ranked)

theorem bypasses_rankRelays
    (count : ℕ)
    (q : String)
    (noCache : Bool)
    (batches : List (List String))
    (ranked : List (String × Hints.HintsResponse)) :
    Bypasses (rankRelays count q noCache batches ranked : Async ν _) := by
  induction batches generalizing ranked with
  | nil =>
      exact bypasses_pure _
  | cons batch batches ih =>
      unfold rankRelays
      split_ifs
      · exact bypasses_pure _
      · exact (bypasses_askHints q noCache batch ranked).bind ih

theorem bypasses_chooseRelays
    (preferLatest : Bool)
    (request : QueryRequest)
    (noCache : Bool) :
    Bypasses (chooseRelays preferLatest request noCache : Async ν _) := by
  cases preferLatest with
  | false =>
      exact bypasses_shuffledUrlsN 4
  | true =>
      exact (bypasses_ask _).bind (fun _ => (bypasses_shuffledUrlsN _).bind (fun _ =>
        (bypasses_rankRelays _ _ _ _ _).bind (fun _ => bypasses_ask _)))

theorem bypasses_sendLoop
    (ctx : List HandleZone)
    (request : QueryRequest)
    (noCache : Bool)
    (last : ClientError)
    (relays : List String) :
    Bypasses (sendLoop K ctx request noCache last relays) := by
  induction relays generalizing last with
  | nil =>
      exact bypasses_throw last
  | cons url relays ih =>
      refine (bypasses_ask _).bind (fun _ => (bypasses_look (fun _ _ => rfl)).bind
        (fun attempt => ?_))
      cases attempt with
      | skip e =>
          exact (bypasses_markFailed url).bind (fun _ => ih e)
      | stop e =>
          exact bypasses_throw e
      | done res =>
          exact (bypasses_markAlive url).bind (fun _ => bypasses_pure _)

theorem bypasses_query
    (request : QueryRequest) :
    Bypasses (query K request true) := by
  refine bypasses_bootstrap.bind (fun _ => ?_)
  refine Bypasses.bind (bypasses_pure []) (fun ctx => ?_)
  refine (bypasses_look (fun _ _ => rfl)).bind (fun _ => ?_)
  refine (bypasses_chooseRelays _ request true).bind (fun _ => ?_)
  refine (bypasses_sendLoop ctx request true _ _).bind (fun _ => ?_)
  exact Bypasses.bind (bypasses_pure _) (fun _ => bypasses_pure _)

theorem bypasses_flatQueries
    (bySpace : List (String × List String))
    (queries : List Query) :
    Bypasses (flatQueries false bySpace queries : Async ν _) := by
  induction bySpace generalizing queries with
  | nil =>
      exact bypasses_pure _
  | cons entry bySpace ih =>
      exact Bypasses.bind (bypasses_pure none) (fun _ => ih _)

theorem bypasses_resolveFlat
    (handles : List String)
    (hints : Bool) :
    Bypasses (resolveFlat K handles hints true) := by
  refine (bypasses_ask _).bind (fun _ => (bypasses_ask _).bind (fun bySpace => ?_))
  rw [Bool.not_true, Bool.and_false]
  exact (bypasses_flatQueries bySpace []).bind (fun queries => bypasses_query _)

theorem bypasses_lookupLoop
    {opts : LookupOpts}
    (hopts : opts.noCache = true)
    (rounds : ℕ)
    (lookup : L)
    (prevBatch batch : List SName)
    (found : Found) :
    Bypasses (lookupLoop K opts rounds lookup prevBatch batch found) := by
  induction rounds generalizing lookup prevBatch batch found with
  | zero =>
      exact fun _ => trivial
  | succ rounds ih =>
      unfold lookupLoop
      by_cases hstop : (batch.isEmpty || batch == prevBatch) = true
      · rw [if_pos hstop]
        exact bypasses_pure _
      · rw [if_neg hstop, hopts]
        exact (bypasses_resolveFlat _ _).bind (fun _ => ih _ _ _ _)

theorem bypasses_resolveAll
    (rounds : ℕ)
    (handles : List String) :
    Bypasses (resolveAll K rounds handles true) :=
  ((bypasses_lookupLoop rfl rounds _ _ _ _).bind (fun _ => bypasses_pure _)).bind
    (fun _ => bypasses_pure _)

end Lookups

section Publishing

variable {ν Msg L : Type} {K : CallCrates ν Msg L}

theorem bypasses_proveLoop
    (body : Bytes)
    (last : ClientError)
    (relays : List String) :
    Bypasses (proveLoop K body last relays) := by
  induction relays generalizing last with
  | nil =>
      exact bypasses_throw last
  | cons url relays ih =>
      refine (bypasses_ask _).bind (fun reply => ?_)
      cases reply with
      | unreachable e =>
          exact (bypasses_markFailed url).bind (fun _ => ih _)
      | response status bytes broken =>
          dsimp only
          split_ifs
          · refine (bypasses_markAlive url).bind (fun _ => ?_)
            cases broken with
            | none =>
                exact bypasses_pure _
            | some e =>
                exact bypasses_throw _
          · exact (bypasses_markFailed url).bind (fun _ => ih _)

theorem bypasses_prove
    (request : ProofRequest) :
    Bypasses (prove K request) :=
  bypasses_bootstrap.bind (fun _ => (bypasses_ask _).bind (fun _ =>
    (bypasses_shuffledUrlsN 4).bind (fun _ => bypasses_proveLoop _ _ _)))

theorem bypasses_broadcastLoop
    (message : Bytes)
    (urls : List String)
    (sent : Bool × Option ClientError) :
    Bypasses (broadcastLoop K message urls sent) := by
  induction urls generalizing sent with
  | nil =>
      exact bypasses_pure sent
  | cons url urls ih =>
      refine (bypasses_ask _).bind (fun reply => ?_)
      cases reply with
      | unreachable e =>
          exact ih _
      | response status body broken =>
          dsimp only
          split_ifs <;> exact ih _

theorem bypasses_broadcast
    (message : Bytes) :
    Bypasses (broadcast K message) := by
  refine bypasses_bootstrap.bind (fun _ => (bypasses_shuffledUrlsN 4).bind (fun urls => ?_))
  split_ifs
  · exact bypasses_throw _
  · refine (bypasses_broadcastLoop message urls _).bind (fun sent => ?_)
    split_ifs
    · exact bypasses_pure _
    · exact bypasses_throw _

theorem bypasses_sign
    (cert : Bytes)
    (records : RecordSet)
    (secretKey : Hash32)
    (primary : Bool) :
    Bypasses (sign K cert records secretKey primary) :=
  (bypasses_ask _).bind (fun _ => (bypasses_prove _).bind (fun _ => bypasses_ask _))

theorem bypasses_peers :
    Bypasses (peers : Async ν _) := by
  refine (bypasses_shuffledUrlsN 1).bind (fun urls => ?_)
  cases urls.head? with
  | none =>
      exact bypasses_throw _
  | some url =>
      exact bypasses_ask _

theorem bypasses_refreshPeers :
    Bypasses (refreshPeers : Async ν _) := by
  refine (bypasses_look (fun _ _ => rfl)).bind (fun current => ?_)
  refine (bypasses_gatherPeers current [] none).bind (fun found => ?_)
  refine Bypasses.bind (fun _ => Ignores.step (fun _ => rfl)) (fun _ => ?_)
  refine (bypasses_look (fun _ _ => rfl)).bind (fun isEmpty => ?_)
  split_ifs
  · exact bypasses_throw _
  · exact bypasses_pure _

end Publishing

section Runs

open Interleaving

variable {ν Msg L : Type}

/-- The calls that have nothing to do with the cache: all but the cached lookups. -/
def Call.bypassesCache : Call → Bool
  | .resolveAll _ noCache | .resolve _ noCache => noCache
  | .resolveById _ | .searchAddr _ _ | .exportChain _ | .resolveWithCerts _ => false
  | _ => true

/-- **No step of such a call looks at the cache, or writes it.** -/
theorem ignores_script
    (K : CallCrates ν Msg L)
    (rounds : ℕ)
    {call : Call}
    (hcall : call.bypassesCache = true) :
    Bypasses (call.script K rounds) := by
  cases call with
  | bootstrap =>
      exact bypasses_bootstrap
  | trust id =>
      exact bypasses_updateTrust _
  | semiTrust id =>
      exact bypasses_updateTrust _
  | observe =>
      exact bypasses_updateTrust _
  | trustFromQr payload =>
      exact (bypasses_ask _).bind (fun _ => bypasses_updateTrust _)
  | semiTrustFromQr payload =>
      exact (bypasses_ask _).bind (fun _ => bypasses_updateTrust _)
  | trustFromSet entries =>
      exact bypasses_trustFromSet entries
  | clearTrusted =>
      exact bypasses_change (fun _ _ => rfl)
  | clearSemiTrusted =>
      exact bypasses_change (fun _ _ => rfl)
  | setSemiTrustedPool config =>
      exact bypasses_change (fun _ _ => rfl)
  | refreshSemiTrusted =>
      exact bypasses_refreshSemiTrusted
  | setPreferLatest latest =>
      have hchange : Bypasses (change (fun f : Fabric ν => { f with preferLatest := latest })) :=
        bypasses_change (fun _ _ => rfl)
      exact hchange
  | badge zone =>
      exact bypasses_badge zone
  | resolveAll handles noCache =>
      cases hcall
      exact bypasses_resolveAll rounds handles
  | resolve handle noCache =>
      cases hcall
      exact (bypasses_resolveAll rounds [handle]).bind (fun _ => bypasses_pure _)
  | prove request =>
      exact bypasses_prove request
  | sign cert records secretKey primary =>
      exact bypasses_sign cert records secretKey primary
  | broadcast message =>
      exact bypasses_broadcast message
  | publish cert records secretKey primary =>
      exact (bypasses_sign cert records secretKey primary).bind
        (fun message => bypasses_broadcast message)
  | peers =>
      exact bypasses_peers
  | refreshPeers =>
      exact bypasses_refreshPeers
  | _ =>
      cases hcall

/-- **Calls that bypass the cache do not depend on it.**  With another cache the same calls in
the same order return the same, and in the end each client has the cache that it began with. -/
theorem cache_bypassed
    (K : CallCrates ν Msg L)
    (rounds : ℕ)
    (c : Client ν)
    {events : List Event}
    (hevents : ∀ call ∈ begun events, call.bypassesCache = true)
    (cache : Cache) :
    let world := runCalls K rounds c events
    let world' := runCalls K rounds (withCache cache c) events
    world'.calls = world.calls ∧ world'.log = world.log ∧
      world'.shared = withCache cache world.shared ∧
      world.shared.fabric.rootCache = c.fabric.rootCache := by
  have hchanged : ∀ cache, runCalls K rounds (withCache cache c) events =
      changed (withCache cache) (runCalls K rounds c events) := by
    intro cache
    have houtside : ∀ now net (c : Client ν), outside now net (withCache cache c) =
        (withCache cache (outside now net c).1, (outside now net c).2) :=
      fun _ _ _ => rfl
    have hstart : AllIgnore (withCache cache) (starting c 0 : World ν) :=
      fun i begun p hcall => by cases hcall
    have hrecord : ∀ c : Client ν, record (withCache cache c) = record c := fun _ => rfl
    refine turns_changed hrecord houtside hstart (fun a ha i p hp => ?_)
    obtain ⟨e, he, rfl⟩ := List.mem_map.1 ha
    cases e with
    | begin j call =>
        cases hp
        exact ignores_script K rounds (hevents call (mem_begun he)) cache
    | proceed j =>
        cases hp
    | network net =>
        cases hp
  have hcache := hchanged cache
  have hown := congrArg (fun w : World ν => w.shared.fabric.rootCache)
    (hchanged c.fabric.rootCache)
  dsimp only
  rw [hcache]
  exact ⟨rfl, rfl, rfl, hown⟩

/-- A cache with another zone for Alice. -/
def staleCache : Cache :=
  KeyedTable.empty.insertOrReplace ("@bitcoin", sampleZone 9 0 5 0)

/-- The zone that is returned with one cache is returned with the other. -/
theorem cache_bypassed_sample :
    Returned (runCalls sampleCalls 2 (withCache staleCache sampleClient) freshLookup)
      (.resolve "alice@bitcoin" true) (some ("alice@bitcoin", sampleZone 0 0 0 0)) := by
  have hevents : ∀ call ∈ begun freshLookup, call.bypassesCache = true := by
    intro call hcall
    rw [List.mem_singleton.1 hcall]
    rfl
  obtain ⟨hcalls, _⟩ := cache_bypassed sampleCalls 2 sampleClient hevents staleCache
  have hreturned : (runCalls sampleCalls 2 sampleClient freshLookup).calls 0 =
      some (0, ⟨.resolve "alice@bitcoin" true,
        .done (.ok (some ("alice@bitcoin", sampleZone 0 0 0 0)))⟩) := rfl
  exact ⟨0, 0, (congrFun hcalls 0).trans hreturned⟩

end Runs

end Calls
end CertRelay
