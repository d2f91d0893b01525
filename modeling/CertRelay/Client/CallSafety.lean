import CertRelay.Client.CallLookups
import CertRelay.Client.CallPublishing

/-!
# What the calls of a client return

Each call is safe by itself, step by step, so in every interleaving of calls the client stays
sound, and what a call returns is what is known of it.

**Results.**
* `safe_script`: each call keeps what is known of the client;
* `lookups_vouched`: what is cached and what lookups return was verified;
* `trust_traced`: where the anchors in use, the trust sets and orange badges come from;
* `publish_accepted`: what is published is signed, and a relay has accepted it.
-/

namespace CertRelay
namespace Calls

open RootCache SendQuery Script Fabric

section Runs

open Interleaving

variable {ν Msg L : Type} {K : CallCrates ν Msg L} {f₀ : Fabric ν} {calls : List Call}

/-- What is known of the value that a call returns. -/
def Meets (K : CallCrates ν Msg L) (f₀ : Fabric ν) (calls : List Call) :
    (call : Call) → List (Moment ν) → call.Result → Prop
  | .badge zone, log, b => BadgeMeets K f₀ calls zone log b
  | .resolveAll _ _, log, zones => AllExpanded K f₀ log zones
  | .resolve handle _, log, found => ResolvedTo K f₀ handle log found
  | .resolveById numId, log, found => HasId K f₀ numId log found
  | .searchAddr name addr, log, zones => HaveAddr K f₀ name addr log zones
  | .exportChain handle, log, bytes => ChainOf K f₀ handle log bytes
  | .resolveWithCerts handle, log, found => FoundWithCerts K f₀ handle log found
  | .prove request, log, bytes => Proved log request bytes
  | .sign cert records secretKey primary, log, message =>
      SignedFor K cert records secretKey primary log message
  | .broadcast message, log, _ => Accepted log message
  | .publish cert records secretKey primary, log, _ =>
      Published K cert records secretKey primary log
  | .peers, log, infos => Listed log infos
  | _, _, _ => True

theorem ChainOf.longer
    {handle : String}
    {log : List (Moment ν)}
    {bytes : Bytes}
    (h : ChainOf K f₀ handle log bytes)
    (more : List (Moment ν)) :
    ChainOf K f₀ handle (log ++ more) bytes := by
  obtain ⟨sname, certs, hname, hbytes, hcerts⟩ := h
  exact ⟨sname, certs, hname, hbytes, fun cert hcert => (hcerts cert hcert).longer more⟩

theorem stable_meets
    (call : Call) :
    Stable (Meets K f₀ calls call) := by
  intro log more result h
  cases call with
  | badge zone =>
      exact BadgeMeets.longer h more
  | resolveAll handles noCache =>
      exact fun z hz => (h z hz).longer more
  | resolve handle noCache =>
      exact fun z hz => ⟨(h z hz).1, (h z hz).2.longer more⟩
  | resolveById numId =>
      exact fun z hz => ⟨(h z hz).1, (h z hz).2.longer more⟩
  | searchAddr name addr =>
      exact ⟨h.1, fun z hz => ⟨(h.2 z hz).1, (h.2 z hz).2.longer more⟩⟩
  | exportChain handle =>
      exact ChainOf.longer h more
  | resolveWithCerts handle =>
      intro r hr
      obtain ⟨hzone, hparents, hcerts⟩ := h r hr
      exact ⟨⟨hzone.1, hzone.2.longer more⟩,
        fun z hz => ⟨(hparents z hz).1.longer more, (hparents z hz).2⟩, hcerts.longer more⟩
  | prove request =>
      exact Proved.longer h more
  | sign cert records secretKey primary =>
      exact SignedFor.longer h more
  | broadcast message =>
      exact Accepted.longer h more
  | publish cert records secretKey primary =>
      obtain ⟨message, hsigned, haccepted⟩ := h
      exact ⟨message, hsigned.longer more, haccepted.longer more⟩
  | peers =>
      obtain ⟨net, url, hseen, hnet⟩ := h
      exact ⟨net, url, hseen.longer more, hnet⟩
  | _ =>
      trivial

/-- **Each call keeps what is known of the client, step by step.** -/
theorem safe_script
    (rounds : ℕ)
    {call : Call}
    (hcall : call ∈ calls)
    (log : List (Moment ν)) :
    Safe K f₀ calls (Meets K f₀ calls call) (call.script K rounds) log := by
  cases call with
  | bootstrap =>
      exact safe_bootstrap
  | trust id =>
      have htarget : (Target.trusted id).Requested K calls := ⟨_, hcall, rfl⟩
      exact safe_updateTrust htarget
  | semiTrust id =>
      have htarget : (Target.semiTrusted id).Requested K calls := ⟨_, hcall, rfl⟩
      exact safe_updateTrust htarget
  | observe =>
      have htarget : Target.observed.Requested K calls := trivial
      exact safe_updateTrust htarget
  | trustFromQr payload =>
      refine safe_trustFromQr (fun id hid => ⟨_, hcall, ?_⟩)
      unfold Call.asked
      dsimp only
      rw [hid]
      rfl
  | semiTrustFromQr payload =>
      refine safe_trustFromQr (fun id hid => ⟨_, hcall, ?_⟩)
      unfold Call.asked
      dsimp only
      rw [hid]
      rfl
  | trustFromSet entries =>
      exact safe_trustFromSet hcall
  | clearTrusted =>
      exact safe_change (fun _ c hc => hc.cleared (.inl rfl) rfl)
  | clearSemiTrusted =>
      exact safe_change (fun _ c hc => hc.cleared (.inr rfl) rfl)
  | setSemiTrustedPool config =>
      exact safe_change (fun _ c hc => hc.configured (.inr hcall) rfl)
  | refreshSemiTrusted =>
      exact safe_refreshSemiTrusted
  | setPreferLatest latest =>
      have hsame : ∀ f : Fabric ν, SameTrust f { f with preferLatest := latest } := fun f =>
        ⟨rfl, rfl, rfl, rfl, fun kind => by cases kind <;> rfl, rfl, rfl⟩
      have hchange : Safe K f₀ calls Any
          (change (fun f : Fabric ν => { f with preferLatest := latest })) log :=
        safe_change (fun _ c hc => hc.same (hsame c.fabric))
      exact hchange
  | badge zone =>
      exact safe_badge zone
  | resolveAll handles noCache =>
      exact safe_resolveAll rounds handles noCache
  | resolve handle noCache =>
      exact safe_resolve rounds handle noCache
  | resolveById numId =>
      exact safe_resolveById rounds numId
  | searchAddr name addr =>
      exact safe_searchAddr rounds name addr
  | exportChain handle =>
      exact safe_exportChain rounds handle
  | resolveWithCerts handle =>
      exact safe_resolveWithCerts rounds handle
  | prove request =>
      exact safe_prove request
  | sign cert records secretKey primary =>
      exact safe_sign cert records secretKey primary
  | broadcast message =>
      exact safe_broadcast message
  | publish cert records secretKey primary =>
      exact safe_publish cert records secretKey primary
  | peers =>
      exact safe_peers
  | refreshPeers =>
      exact safe_refreshPeers

/-- What is known of a client at the start. -/
theorem sound_start
    (c : Client ν) :
    Sound K c.fabric calls [] c where
  devMode := rfl
  seeds := rfl
  config := .inl rfl
  pool kind := .inl rfl
  sets kind set hset := .inl hset
  veritas := .inl rfl
  built v hv := by
    rcases hv with rfl | ⟨m, hmem, _⟩
    · exact .inl rfl
    · cases hmem
  cache z hz := .restored hz

theorem mem_begun
    {events : List Event}
    {i : ℕ}
    {call : Call}
    (h : .begin i call ∈ events) :
    call ∈ begun events :=
  List.mem_filterMap.2 ⟨.begin i call, h, rfl⟩

/-- **What is known of the client, and of what its calls return**, in every interleaving. -/
theorem runCalls_sound
    (K : CallCrates ν Msg L)
    (rounds : ℕ)
    (c : Client ν)
    (events : List Event) :
    let world := runCalls K rounds c events
    Sound K c.fabric (begun events) world.log world.shared ∧
      ∀ call result, Returned world call result →
        Meets K c.fabric (begun events) call world.log result := by
  have houtside : ∀ now log net c', Sound K c.fabric (begun events) log c' →
      Sound K c.fabric (begun events) (log ++ (outside now net c').2) (outside now net c').1 := by
    intro now log net c' hc
    have hsame : SameTrust c'.fabric ({ c' with net := net } : Client ν).fabric :=
      SameTrust.refl c'.fabric
    exact hc.longer hsame (List.forall_mem_nil _)
  have hacts : ∀ a ∈ events.map (fun e => (0, e.act K rounds)), ∀ i p, a.2 = .begin i p →
      p.1 ∈ begun events ∧ p = ⟨p.1, p.1.script K rounds⟩ := by
    intro a ha i p hp
    obtain ⟨e, he, rfl⟩ := List.mem_map.1 ha
    cases e with
    | begin j call =>
        cases hp
        exact ⟨mem_begun he, rfl⟩
    | proceed j =>
        cases hp
    | network net =>
        cases hp
  have hrun := @keeps_of_turns _ _ _ _ _ (Sound K c.fabric (begun events)) record outside
    (fun call => OnSuccess (Meets K c.fabric (begun events) call))
    (fun call => call.script K rounds) (fun call => call ∈ begun events)
    (fun call => (stable_meets call).onSuccess)
    (fun call hcall log => safe_script rounds hcall log) houtside c (sound_start c) 0 _ hacts
  refine ⟨hrun.1, fun call result hreturned => ?_⟩
  obtain ⟨i, begun, hcall⟩ := hreturned
  exact hrun.2 i begun call (.ok result) hcall result rfl

/-- Thirty-two zeros. -/
def sampleHash : Hash32 :=
  ⟨List.replicate 32 0, List.length_replicate⟩

/-- Every message is that Alice has her zone; lookups ask for all names at once. -/
def sampleCalls : CallCrates Unit Bytes (List SName) where
  client :=
    { hexDecode := fun _ => .error ""
      hexEncode := fun _ => ""
      computeTrustSet := fun _ => ⟨sampleHash, [sampleHash]⟩
      newVeritas := ()
      withAnchors := fun _ => .ok ()
      verifySpacesMessage := fun _ _ _ => false
      isXonlyPublicKey := fun _ => false }
  newestAnchor := fun _ => 1
  query := fun _ =>
    { decode := .ok
      verifyWithOptions := fun _ _ _ => .ok ⟨⟨[("alice@bitcoin", sampleZone 0 0 0 0)]⟩, []⟩
      text := fun _ => ""
      goParses := fun _ => true }
  names :=
    { tryFrom := fun s => .ok ⟨s⟩
      space := fun _ => some "@bitcoin"
      subspace := fun _ => some "alice"
      isSingleLabel := fun _ => false
      lookup := id
      start := id
      advance := fun lookup _ => (lookup, [])
      expandZones := fun _ zones => zones
      recordsIter := fun _ => .ok []
      chainToBytes := fun _ _ => [] }
  signing :=
    { Chain := Bytes
      Proof := Bytes
      Draft := Bytes
      Unsigned := Bytes
      chainFromSlice := .ok
      proofFromSlice := .ok
      chainProofRequest := fun chain _ => ⟨.ok chain⟩
      build := fun chain _ proof => .ok (chain ++ proof, [chain])
      withPrimaryFlag := fun unsigned => 1 :: unsigned
      canonical := fun _ => ⟨"alice@bitcoin"⟩
      signingId := fun _ => sampleHash
      packSig := fun unsigned sig => ⟨unsigned ++ sig⟩
      signSchnorr := fun _ key => .ok key.1
      setRecords := fun draft _ records => draft ++ records.slice
      toBytes := id }
  hex := ⟨fun _ => .ok [], rfl⟩
  text := fun _ => ""

/-- A relay that answers every query. -/
def sampleNetwork : Network where
  peers := fun _ => .ok []
  head := fun _ => .unreachable ""
  anchors := fun _ _ => .unreachable ""
  hints := fun _ => none
  query := fun _ => .response 200 [] none
  reverse := fun _ => none
  addrs := fun _ => none
  prove := fun _ _ => .response 200 [7] none
  message := fun _ _ => .response 200 [] none
  shuffle := HashOrder.inserted
  stringOrder := HashOrder.inserted
  voteOrder := HashOrder.inserted
  rootOrder := HashOrder.inserted
  spaceOrder := HashOrder.inserted
  ranking := HashOrder.inserted

def sampleClient : Client Unit where
  fabric :=
    { Fabric.withSeeds sampleCalls.client ["https://relay"] with preferLatest := false }
  net := sampleNetwork

/-- **What a client caches and returns was verified.**  In every interleaving of calls, and
whatever relays answer, each cached zone was restored or is part of a message that was verified
against a `Veritas` that was in use, in the context of such zones; lookups return what
`expand_zones` makes of such zones, under the handle, with the id or with the address that was
asked for; and certificates come from such messages. -/
theorem lookups_vouched
    (K : CallCrates ν Msg L)
    (rounds : ℕ)
    (c : Client ν)
    (events : List Event) :
    let world := runCalls K rounds c events
    (∀ z ∈ world.shared.fabric.rootCache.rows, Vouched K c.fabric world.log z) ∧
      ∀ call result, Returned world call result →
        Meets K c.fabric (begun events) call world.log result := by
  obtain ⟨hsound, hmeets⟩ := runCalls_sound K rounds c events
  exact ⟨hsound.cache, hmeets⟩

/-- A call that looks Alice up without the cache. -/
def freshLookup : List Event :=
  .begin 0 (.resolve "alice@bitcoin" true) :: List.replicate 17 (.proceed 0)

/-- The zone that the relay sends is returned, and it is one of a verified message. -/
theorem lookups_vouched_sample :
    ResolvedTo sampleCalls sampleClient.fabric "alice@bitcoin"
      (runCalls sampleCalls 2 sampleClient freshLookup).log
      (some ("alice@bitcoin", sampleZone 0 0 0 0)) :=
  (lookups_vouched sampleCalls 2 sampleClient freshLookup).2 (.resolve "alice@bitcoin" true)
    (some ("alice@bitcoin", sampleZone 0 0 0 0)) ⟨0, 0, rfl⟩

/-- **What is published** is signed, with a proof that a relay has given for it, and a relay has
accepted it. -/
theorem publish_accepted
    (K : CallCrates ν Msg L)
    (rounds : ℕ)
    (c : Client ν)
    (events : List Event)
    {cert : Bytes}
    {records : RecordSet}
    {secretKey : Hash32}
    {primary : Bool}
    (h : Returned (runCalls K rounds c events) (.publish cert records secretKey primary)
      PUnit.unit) :
    Published K cert records secretKey primary (runCalls K rounds c events).log :=
  (runCalls_sound K rounds c events).2 _ _ h

/-- A call that publishes the chain of Alice with the key of thirty-two zeros. -/
def samplePublishing : List Event :=
  .begin 0 (.publish [5] RecordSet.empty sampleHash true) :: List.replicate 20 (.proceed 0)

/-- The relay accepts a message with a signature. -/
theorem publish_accepted_sample :
    Published sampleCalls [5] RecordSet.empty sampleHash true
      (runCalls sampleCalls 2 sampleClient samplePublishing).log :=
  publish_accepted sampleCalls 2 sampleClient samplePublishing ⟨0, 0, rfl⟩

/-- If `expand_zones` changes nothing but handles, the zones are vouched for themselves. -/
theorem Expanded.vouched
    (hnames : ∀ lookup zones,
      (K.names.expandZones lookup zones).map Prod.snd = zones.map Prod.snd)
    {log : List (Moment ν)}
    {z : HandleZone}
    (h : Expanded K f₀ log z) :
    ∃ handle, Vouched K f₀ log (handle, z.2) := by
  obtain ⟨lookup, zones, hzones, hz⟩ := h
  have hsnd : z.2 ∈ (K.names.expandZones lookup zones).map Prod.snd := List.mem_map_of_mem hz
  rw [hnames] at hsnd
  obtain ⟨z', hz', heq⟩ := List.mem_map.1 hsnd
  exact ⟨z'.1, heq ▸ hzones z' hz'⟩

/-- **Where trust comes from.**  In every interleaving, each `Veritas` that is ever in use is
the one of the start, or is built of anchors that were there at the start, whose id a call asked
for, that enough relays of a policy had signed at some time of the run, or that the seeds had
reported then; the trust sets are of such sources too; and an orange badge is for a sovereign
zone at a root of a set that is pinned. -/
theorem trust_traced
    (K : CallCrates ν Msg L)
    (rounds : ℕ)
    (c : Client ν)
    (events : List Event) :
    let world := runCalls K rounds c events
    (∀ m ∈ world.log, Built K c.fabric (begun events) world.log m.veritas) ∧
      (∀ kind set, trustOf kind world.shared.fabric = some set →
        trustOf kind c.fabric = some set ∨
          Source K c.fabric (begun events) world.log kind set) ∧
      ∀ zone, Returned world (.badge zone) Badge.orange →
        zone.sovereignty = .sovereign ∧
          ∃ set, PinnedSet K c.fabric (begun events) world.log set ∧
            zone.anchorHash ∈ set.roots := by
  obtain ⟨hsound, hmeets⟩ := runCalls_sound K rounds c events
  refine ⟨fun m hm => hsound.built _ (.inr ⟨m, hm, rfl⟩), hsound.sets, fun zone hreturned => ?_⟩
  exact hmeets (.badge zone) Badge.orange hreturned rfl

/-- A call pins a set, and another one asks for the badge of a zone at its root. -/
def pinThenBadge : List Event :=
  [.begin 0 (.trustFromSet []), .proceed 0, .proceed 0,
    .begin 1 (.badge ⟨sampleHash, .sovereign⟩), .proceed 1, .proceed 1]

/-- A decoder that reads every text as thirty-two zeros. -/
def observingCalls : CallCrates Unit Bytes (List SName) :=
  { sampleCalls with
    client := { sampleCalls.client with hexDecode := fun _ => .ok sampleHash.val } }

/-- A client whose seed reports a set, and serves it. -/
def observingClient : Client Unit where
  fabric := Fabric.withSeeds observingCalls.client ["https://relay"]
  net :=
    { sampleNetwork with
      head := fun _ => .headers ⟨some "00", none, some "7"⟩
      anchors := fun _ _ => .set [] }

def observeOnce : List Event :=
  .begin 0 .observe :: List.replicate 9 (.proceed 0)

/-- The badge is orange, and its root is one of the set that was pinned; and the seed had
reported the set that is observed. -/
theorem trust_traced_sample :
    (∃ set, PinnedSet sampleCalls sampleClient.fabric (begun pinThenBadge)
        (runCalls sampleCalls 2 sampleClient pinThenBadge).log set ∧
      sampleHash ∈ set.roots) ∧
    Reported observingCalls observingClient.fabric
      (runCalls observingCalls 2 observingClient observeOnce).log sampleHash :=
  ⟨((trust_traced sampleCalls 2 sampleClient pinThenBadge).2.2 ⟨sampleHash, .sovereign⟩
      ⟨1, 2, rfl⟩).2,
    ((trust_traced observingCalls 2 observingClient observeOnce).2.1 .observed
      ⟨sampleHash, [sampleHash]⟩ rfl).resolve_left (fun h => by cases h)⟩

end Runs

end Calls
end CertRelay
