import CertRelay.Client.Calls
import CertRelay.Client.Persistence
import CertRelay.Client.SemiTrust

/-!
# Where the trust of a client comes from

However the calls of a client take turns, and whatever relays answer, the anchors that it
verifies against are those it started with, or anchors that a call asked for by their id, that
enough of the semi-trusted relays signed, or that its seeds reported.

What a call knows of the anchors, and of what relays say, it may know too late: by the time that
it returns, the anchors may have been replaced, and the relays may say something else.  So what
it knows is that this was so at some time of the run.

**Results.**
* `Sound.rebuilt`, `Sound.recorded`, `Sound.cached`: each kind of step keeps what is known of
  the client;
* `safe_updateAnchors`, `safe_refreshSemiTrusted`: so do the calls that change trust;
* `safe_badge`: an orange badge is for a root that was pinned.
-/

namespace CertRelay
namespace Calls

open RootCache SendQuery Script Fabric

section Trust

variable {ν Msg L : Type} (K : CallCrates ν Msg L) (f₀ : Fabric ν) (calls : List Call)

/-- A policy that the client starts with, or that a call sets. -/
def Configured (config : SemiTrustConfig) : Prop :=
  config = f₀.semiTrustConfig ∨ .setSemiTrustedPool config ∈ calls

/-- The relays have answered like this. -/
def Seen (log : List (Moment ν)) (net : Network) : Prop :=
  ∃ m ∈ log, m.net = net

/-- Enough relays of a policy have signed the root. -/
def Elected (log : List (Moment ν)) (root : TrustId) : Prop :=
  ∃ config net, Configured f₀ calls config ∧ Seen log net ∧
    0 < (votersOf K.client net.head config.relays root).length ∧
    Qualifies K.client net.head config root

/-- The seeds have reported the root. -/
def Reported (log : List (Moment ν)) (root : TrustId) : Prop :=
  ∃ net peers, Seen log net ∧
    fetchLatestTrustId K.client net.voteOrder
      (f₀.seeds.zipIdx.map (fun p => (p.1, net.head p.2))) = .ok (root, peers)

/-- The id that a call asks to fetch, and for which source. -/
def Call.asked : Call → Option (TrustKind × TrustId)
  | .trust id => some (.trusted, id)
  | .semiTrust id => some (.semiTrusted, id)
  | .trustFromQr payload => (scannedId K payload).toOption.map (Prod.mk .trusted)
  | .semiTrustFromQr payload => (scannedId K payload).toOption.map (Prod.mk .semiTrusted)
  | _ => none

/-- One of the calls asks for the id. -/
def Asked (kind : TrustKind) (id : TrustId) : Prop :=
  ∃ call ∈ calls, call.asked K = some (kind, id)

/-- What a source of trust may hold. -/
def Source (log : List (Moment ν)) : TrustKind → TrustSet → Prop
  | .trusted, set =>
      Asked K calls .trusted set.id ∨
        ∃ entries, .trustFromSet entries ∈ calls ∧ set = K.client.computeTrustSet entries
  | .semiTrusted, set => Asked K calls .semiTrusted set.id ∨ Elected K f₀ calls log set.id
  | .observed, set => Reported K f₀ log set.id

/-- Each source has the anchors that it started with, or the anchors of such a set. -/
def Traced (log : List (Moment ν)) (pool : AnchorPool) : Prop :=
  ∀ kind, anchorsOf kind pool = anchorsOf kind f₀.anchorPool ∨
    Source K f₀ calls log kind (K.client.computeTrustSet (anchorsOf kind pool))

/-- A `Veritas` that the client starts with, or that is built of such anchors. -/
def Built (log : List (Moment ν)) (v : ν) : Prop :=
  v = f₀.veritas ∨ ∃ pool, Traced K f₀ calls log pool ∧ K.client.withAnchors pool.merged = .ok v

/-- The `Veritas` has been in use. -/
def Held (log : List (Moment ν)) (v : ν) : Prop :=
  v = f₀.veritas ∨ ∃ m ∈ log, m.veritas = v

/-- The zone was in the cache at the start, or is in a message that was verified, against a
`Veritas` that was in use, in a context of zones of which the same is true. -/
inductive Vouched (log : List (Moment ν)) : HandleZone → Prop
  | restored
      {z : HandleZone}
      (hz : z ∈ f₀.rootCache.rows) :
      Vouched log z
  | verified
      {v : ν}
      {ctx : List HandleZone}
      {msg : Msg}
      {res : VerifiedAnswer}
      {z : HandleZone}
      (hheld : Held f₀ log v)
      (hctx : ∀ c ∈ ctx, Vouched log c)
      (hres : SendQuery.verified (K.query v) ctx f₀.devMode msg = .ok res)
      (hz : z ∈ res.zones) :
      Vouched log z

/-- The answer to a query: a message that was verified like that. -/
def Answered (log : List (Moment ν)) (res : VerifiedAnswer) : Prop :=
  ∃ v ctx msg, Held f₀ log v ∧ (∀ c ∈ ctx, Vouched K f₀ log c) ∧
    SendQuery.verified (K.query v) ctx f₀.devMode msg = .ok res

/-- One of the zones that `expand_zones` makes of zones that are vouched for. -/
def Expanded (log : List (Moment ν)) (z : HandleZone) : Prop :=
  ∃ lookup zones, (∀ z' ∈ zones, Vouched K f₀ log z') ∧ z ∈ K.names.expandZones lookup zones

/-- A certificate of a verified message. -/
def Certified (log : List (Moment ν)) (cert : Certificate) : Prop :=
  ∃ res, Answered K f₀ log res ∧ cert ∈ res.certificates

/-- What is known of the client. -/
structure Sound (log : List (Moment ν)) (c : Client ν) : Prop where
  devMode : c.fabric.devMode = f₀.devMode
  seeds : c.fabric.seeds = f₀.seeds
  config : Configured f₀ calls c.fabric.semiTrustConfig
  pool : Traced K f₀ calls log c.fabric.anchorPool
  sets : ∀ kind set, trustOf kind c.fabric = some set →
    trustOf kind f₀ = some set ∨ Source K f₀ calls log kind set
  veritas : Held f₀ log c.fabric.veritas
  built : ∀ v, Held f₀ log v → Built K f₀ calls log v
  cache : ∀ z ∈ c.fabric.rootCache.rows, Vouched K f₀ log z

end Trust

section Logs

variable {ν Msg L : Type} {K : CallCrates ν Msg L} {f₀ : Fabric ν} {calls : List Call}
  {log : List (Moment ν)}

theorem Held.longer
    {v : ν}
    (h : Held f₀ log v)
    (more : List (Moment ν)) :
    Held f₀ (log ++ more) v := by
  refine h.imp_right (fun hmem => ?_)
  obtain ⟨m, hm, hv⟩ := hmem
  exact ⟨m, List.mem_append_left more hm, hv⟩

theorem Seen.longer
    {net : Network}
    (h : Seen log net)
    (more : List (Moment ν)) :
    Seen (log ++ more) net := by
  obtain ⟨m, hm, hnet⟩ := h
  exact ⟨m, List.mem_append_left more hm, hnet⟩

theorem Elected.longer
    {root : TrustId}
    (h : Elected K f₀ calls log root)
    (more : List (Moment ν)) :
    Elected K f₀ calls (log ++ more) root := by
  obtain ⟨config, net, hconfig, hseen, hquorum⟩ := h
  exact ⟨config, net, hconfig, hseen.longer more, hquorum⟩

theorem Reported.longer
    {root : TrustId}
    (h : Reported K f₀ log root)
    (more : List (Moment ν)) :
    Reported K f₀ (log ++ more) root := by
  obtain ⟨net, peers, hseen, hfound⟩ := h
  exact ⟨net, peers, hseen.longer more, hfound⟩

theorem Source.longer
    {kind : TrustKind}
    {set : TrustSet}
    (h : Source K f₀ calls log kind set)
    (more : List (Moment ν)) :
    Source K f₀ calls (log ++ more) kind set := by
  cases kind with
  | trusted =>
      exact h
  | semiTrusted =>
      exact h.imp_right (fun helected => helected.longer more)
  | observed =>
      exact Reported.longer h more

theorem Traced.longer
    {pool : AnchorPool}
    (h : Traced K f₀ calls log pool)
    (more : List (Moment ν)) :
    Traced K f₀ calls (log ++ more) pool :=
  fun kind => (h kind).imp_right (fun hsource => hsource.longer more)

theorem Built.longer
    {v : ν}
    (h : Built K f₀ calls log v)
    (more : List (Moment ν)) :
    Built K f₀ calls (log ++ more) v := by
  refine h.imp_right (fun hload => ?_)
  obtain ⟨pool, hpool, hv⟩ := hload
  exact ⟨pool, hpool.longer more, hv⟩

theorem Vouched.longer
    {z : HandleZone}
    (h : Vouched K f₀ log z)
    (more : List (Moment ν)) :
    Vouched K f₀ (log ++ more) z := by
  induction h with
  | restored hz =>
      exact .restored hz
  | verified hheld _ hres hz ih =>
      exact .verified (hheld.longer more) ih hres hz

theorem Answered.longer
    {res : VerifiedAnswer}
    (h : Answered K f₀ log res)
    (more : List (Moment ν)) :
    Answered K f₀ (log ++ more) res := by
  obtain ⟨v, ctx, msg, hheld, hctx, hres⟩ := h
  exact ⟨v, ctx, msg, hheld.longer more, fun c hc => (hctx c hc).longer more, hres⟩

/-- The zones of an answer. -/
theorem Answered.vouched
    {res : VerifiedAnswer}
    (h : Answered K f₀ log res)
    {z : HandleZone}
    (hz : z ∈ res.zones) :
    Vouched K f₀ log z := by
  obtain ⟨v, ctx, msg, hheld, hctx, hres⟩ := h
  exact .verified hheld hctx hres hz

theorem Expanded.longer
    {z : HandleZone}
    (h : Expanded K f₀ log z)
    (more : List (Moment ν)) :
    Expanded K f₀ (log ++ more) z := by
  obtain ⟨lookup, zones, hzones, hz⟩ := h
  exact ⟨lookup, zones, fun z' hz' => (hzones z' hz').longer more, hz⟩

theorem Certified.longer
    {cert : Certificate}
    (h : Certified K f₀ log cert)
    (more : List (Moment ν)) :
    Certified K f₀ (log ++ more) cert := by
  obtain ⟨res, hres, hcert⟩ := h
  exact ⟨res, hres.longer more, hcert⟩

/-- What is known of a client is not about its pool of relays, nor about whether it prefers
the latest zones. -/
structure SameTrust (f f' : Fabric ν) : Prop where
  devMode : f'.devMode = f.devMode
  seeds : f'.seeds = f.seeds
  config : f'.semiTrustConfig = f.semiTrustConfig
  pool : f'.anchorPool = f.anchorPool
  sets : ∀ kind, trustOf kind f' = trustOf kind f
  veritas : f'.veritas = f.veritas
  cache : f'.rootCache = f.rootCache

variable {c c' : Client ν}

theorem Sound.longer
    (h : Sound K f₀ calls log c)
    (hsame : SameTrust c.fabric c'.fabric)
    {more : List (Moment ν)}
    (hmore : ∀ m ∈ more, m.veritas = c'.fabric.veritas) :
    Sound K f₀ calls (log ++ more) c' where
  devMode := hsame.devMode.trans h.devMode
  seeds := hsame.seeds.trans h.seeds
  config := hsame.config ▸ h.config
  pool := hsame.pool ▸ h.pool.longer more
  sets kind set hset := (h.sets kind set (hsame.sets kind ▸ hset)).imp_right
    (fun hsource => hsource.longer more)
  veritas := (hsame.veritas ▸ h.veritas).longer more
  built v hv := by
    rcases hv with hstart | ⟨m, hmem, rfl⟩
    · exact (h.built v (.inl hstart)).longer more
    · rcases List.mem_append.1 hmem with hold | hnew
      · exact (h.built _ (.inr ⟨m, hold, rfl⟩)).longer more
      · rw [hmore m hnew, hsame.veritas]
        exact (h.built _ h.veritas).longer more
  cache z hz := (h.cache z (hsame.cache ▸ hz)).longer more

/-- A step that leaves all of that alone. -/
theorem Sound.same
    (h : Sound K f₀ calls log c)
    (hsame : SameTrust c.fabric c'.fabric) :
    Sound K f₀ calls (log ++ record c') c' :=
  h.longer hsame (fun _ hm => congrArg Moment.veritas (List.mem_singleton.1 hm))

theorem SameTrust.refl
    (f : Fabric ν) :
    SameTrust f f :=
  ⟨rfl, rfl, rfl, rfl, fun _ => rfl, rfl, rfl⟩

theorem sameTrust_relays
    (f : Fabric ν)
    (pool : List RelayEntry) :
    SameTrust f { f with pool := pool } :=
  ⟨rfl, rfl, rfl, rfl, fun kind => by cases kind <;> rfl, rfl, rfl⟩

/-- A zone that is vouched for is cached. -/
theorem Sound.cached
    (h : Sound K f₀ calls log c)
    {z : HandleZone}
    (hz : Vouched K f₀ log z)
    (hc' : c' = { c with
      fabric := { c.fabric with rootCache := c.fabric.rootCache.insertOrReplace z } }) :
    Sound K f₀ calls (log ++ record c') c' := by
  subst hc'
  have hsame := h.same (SameTrust.refl c.fabric)
  refine { hsame with sets := fun kind => ?_, cache := fun z' hz' => ?_ }
  · cases kind
    exacts [hsame.sets .trusted, hsame.sets .semiTrusted, hsame.sets .observed]
  · rcases KeyedTable.mem_insertOrReplace.1 hz' with ⟨hold, _⟩ | rfl
    · exact hsame.cache z' hold
    · exact hz.longer _

/-- A policy that a call sets. -/
theorem Sound.configured
    (h : Sound K f₀ calls log c)
    {config : SemiTrustConfig}
    (hconfig : Configured f₀ calls config)
    (hc' : c' = { c with fabric := withSemiTrusted config c.fabric }) :
    Sound K f₀ calls (log ++ record c') c' := by
  subst hc'
  have hsame := h.same (SameTrust.refl c.fabric)
  refine { hsame with config := hconfig, sets := fun kind => ?_ }
  cases kind
  exacts [hsame.sets .trusted, hsame.sets .semiTrusted, hsame.sets .observed]

theorem traced_poolWith
    {pool : AnchorPool}
    (h : Traced K f₀ calls log pool)
    {kind : TrustKind}
    {anchors : List RootAnchor}
    (hsource : Source K f₀ calls log kind (K.client.computeTrustSet anchors)) :
    Traced K f₀ calls log (poolWith kind anchors pool) := by
  intro kind'
  by_cases hkind : kind' = kind
  · subst hkind
    rw [anchorsOf_poolWith]
    exact .inr hsource
  · rw [anchorsOf_poolWith_ne hkind]
    exact h kind'

/-- Anchors of a source, with the `Veritas` of the pool. -/
theorem Sound.loaded
    (h : Sound K f₀ calls log c)
    {pool : AnchorPool}
    (hpool : Traced K f₀ calls log pool)
    {v : ν}
    (hv : v = c.fabric.veritas ∨ K.client.withAnchors pool.merged = .ok v)
    (hc' : c' = { c with fabric := { c.fabric with anchorPool := pool, veritas := v } }) :
    Sound K f₀ calls (log ++ record c') c' := by
  subst hc'
  have hbuilt : Built K f₀ calls log v := by
    rcases hv with rfl | hload
    · exact h.built _ h.veritas
    · exact .inr ⟨pool, hpool, hload⟩
  exact
    { devMode := h.devMode
      seeds := h.seeds
      config := h.config
      pool := hpool.longer _
      sets := fun kind set hset => by
        have hold : trustOf kind c.fabric = some set := by
          cases kind <;> exact hset
        exact (h.sets kind set hold).imp_right (fun hsource => hsource.longer _)
      veritas := .inr ⟨_, List.mem_append_right log List.mem_cons_self, rfl⟩
      built := fun w hw => by
        rcases hw with hstart | ⟨m, hmem, rfl⟩
        · exact (h.built w (.inl hstart)).longer _
        · rcases List.mem_append.1 hmem with hold | hnew
          · exact (h.built _ (.inr ⟨m, hold, rfl⟩)).longer _
          · rw [List.mem_singleton.1 hnew]
            exact hbuilt.longer _
      cache := fun z hz => (h.cache z hz).longer _ }

theorem Sound.rebuilt
    (h : Sound K f₀ calls log c)
    {kind : TrustKind}
    {anchors : List RootAnchor}
    (hsource : Source K f₀ calls log kind (K.client.computeTrustSet anchors))
    (hc' : c' = { c with
      fabric := rebuildVeritas K.client (poolWith kind anchors c.fabric.anchorPool) c.fabric }) :
    Sound K f₀ calls (log ++ record c') c' := by
  have hpool := traced_poolWith h.pool hsource
  unfold rebuildVeritas at hc'
  cases hload : K.client.withAnchors (poolWith kind anchors c.fabric.anchorPool).merged with
  | error e =>
      rw [hload] at hc'
      exact h.loaded hpool (.inl rfl) hc'
  | ok v =>
      rw [hload] at hc'
      exact h.loaded hpool (.inr hload) hc'

/-- One of the trust sets is replaced. -/
theorem Sound.recorded
    (h : Sound K f₀ calls log c)
    {kind : TrustKind}
    {set : TrustSet}
    (hsource : Source K f₀ calls log kind set)
    (hc' : c' = { c with fabric := setTrust kind set c.fabric }) :
    Sound K f₀ calls (log ++ record c') c' := by
  subst hc'
  have hsame := h.same (SameTrust.refl c.fabric)
  have hsets : ∀ kind' set', trustOf kind' (setTrust kind set c.fabric) = some set' →
      trustOf kind' f₀ = some set' ∨
        Source K f₀ calls (log ++ record { c with fabric := c.fabric }) kind' set' := by
    intro kind' set' hset
    by_cases hkind : kind' = kind
    · subst hkind
      have heq : set = set' := by
        cases kind' <;> exact Option.some.inj hset
      exact .inr (heq ▸ hsource.longer _)
    · refine hsame.sets kind' set' ?_
      rw [← hset]
      cases kind <;> cases kind' <;> first | rfl | exact absurd rfl hkind
  cases kind
  all_goals exact { hsame with sets := hsets }

theorem Sound.cleared
    (h : Sound K f₀ calls log c)
    {f' : Fabric ν}
    (hf' : f' = clearTrusted c.fabric ∨ f' = clearSemiTrusted c.fabric)
    (hc' : c' = { c with fabric := f' }) :
    Sound K f₀ calls (log ++ record c') c' := by
  subst hc'
  have hsame := h.same (SameTrust.refl c.fabric)
  rcases hf' with rfl | rfl
  · refine { hsame with sets := fun kind set hset => ?_ }
    cases kind with
    | trusted =>
        cases hset
    | semiTrusted =>
        exact hsame.sets .semiTrusted set hset
    | observed =>
        exact hsame.sets .observed set hset
  · refine { hsame with sets := fun kind set hset => ?_ }
    cases kind with
    | trusted =>
        exact hsame.sets .trusted set hset
    | semiTrusted =>
        cases hset
    | observed =>
        exact hsame.sets .observed set hset

end Logs

section Trusting

variable {ν Msg L α : Type} {K : CallCrates ν Msg L} {f₀ : Fabric ν} {calls : List Call}
  {log : List (Moment ν)}

/-- Every step of the script keeps what is known of the client, and what it returns has a
property of the log. -/
abbrev Safe (K : CallCrates ν Msg L) (f₀ : Fabric ν) (calls : List Call)
    (Q : List (Moment ν) → α → Prop) (x : Async ν α) (log : List (Moment ν)) : Prop :=
  Keeps (Sound K f₀ calls) record (OnSuccess Q) x.run log

/-- Nothing is known of what is returned. -/
def Any (_ : List (Moment ν)) (_ : α) : Prop :=
  True

theorem safe_look
    {Q : List (Moment ν) → α → Prop}
    {f : Fabric ν → α}
    (h : ∀ more c, Sound K f₀ calls (log ++ more) c → Q (log ++ more) (f c.fabric)) :
    Safe K f₀ calls Q (look f) log := by
  refine Keeps.step (fun more c hc => ?_)
  have hnext := hc.same (SameTrust.refl c.fabric)
  refine ⟨hnext, fun a ha => ?_⟩
  cases ha
  rw [List.append_assoc] at hnext ⊢
  exact h _ c hnext

/-- What the relays answer is what they answer at that moment. -/
theorem safe_askSeen
    {Q : List (Moment ν) → α → Prop}
    {f : Network → Except ClientError α}
    (h : ∀ more net a, Seen (log ++ more) net → f net = .ok a → Q (log ++ more) a) :
    Safe K f₀ calls Q (ask f) log := by
  refine Keeps.step (fun more c hc => ⟨hc.same (SameTrust.refl c.fabric), fun a ha => ?_⟩)
  rw [List.append_assoc]
  refine h _ c.net a ⟨⟨c.fabric.veritas, c.net⟩, ?_, rfl⟩ ha
  exact List.mem_append_right log (List.mem_append_right more List.mem_cons_self)

theorem safe_ask
    {P : α → Prop}
    {f : Network → Except ClientError α}
    (h : ∀ net a, f net = .ok a → P a) :
    Safe K f₀ calls (fun _ => P) (ask f) log :=
  safe_askSeen (fun _ net a _ => h net a)

theorem safe_change
    {f : Fabric ν → Fabric ν}
    (h : ∀ more c, Sound K f₀ calls (log ++ more) c →
      Sound K f₀ calls (log ++ more ++ record { c with fabric := f c.fabric })
        { c with fabric := f c.fabric }) :
    Safe K f₀ calls Any (change f) log :=
  Keeps.step (fun more c hc => ⟨h more c hc, fun _ _ => trivial⟩)

/-- A step that changes the pool of relays only. -/
theorem safe_relays
    {f : Client ν → Except ClientError α × Client ν}
    {pool : Client ν → List RelayEntry}
    (h : ∀ c, (f c).2 = { c with fabric := { c.fabric with pool := pool c } }) :
    Safe K f₀ calls Any (Try.step f) log := by
  refine Keeps.step (fun more c hc => ⟨?_, fun _ _ => trivial⟩)
  rw [h c]
  exact hc.same (sameTrust_relays c.fabric (pool c))

theorem safe_shuffledUrlsN
    (n : ℕ) :
    Safe K f₀ calls Any (shuffledUrlsN n) log :=
  safe_relays (fun _ => rfl)

theorem safe_markFailed
    (url : String) :
    Safe K f₀ calls Any (markFailed url) log :=
  safe_relays (fun _ => rfl)

theorem safe_markAlive
    (url : String) :
    Safe K f₀ calls Any (markAlive url) log :=
  safe_relays (fun _ => rfl)

theorem safe_ifNeeded
    {x : Async ν PUnit}
    (h : Safe K f₀ calls Any x log)
    (needed : Bool) :
    Safe K f₀ calls Any (ifNeeded needed x) log := by
  cases needed with
  | false =>
      exact Keeps.pureOk trivial
  | true =>
      exact h

theorem safe_gatherPeers
    (seeds urls : List String)
    (lastErr : Option ClientError) :
    Safe K f₀ calls Any (gatherPeers seeds urls lastErr) log := by
  induction seeds generalizing log urls lastErr with
  | nil =>
      exact Keeps.pureOk trivial
  | cons seed seeds ih =>
      refine Keeps.bindOk (safe_ask (fun _ _ _ => trivial)) (fun more answer _ => ?_)
      cases answer with
      | ok peers =>
          exact ih (urls ++ peers.map PeerInfo.url) lastErr
      | error e =>
          exact ih urls (some e)

theorem safe_bootstrapPeers :
    Safe K f₀ calls Any bootstrapPeers log := by
  refine Keeps.bindOk (safe_look (Q := Any) (fun _ _ _ => trivial)) (fun more seeds _ => ?_)
  refine Keeps.bindOk (safe_gatherPeers seeds seeds none) (fun more' found _ => ?_)
  split_ifs
  · cases found.2 with
    | none =>
        exact safe_relays (fun _ => rfl)
    | some e =>
        exact Keeps.throw e
  · exact safe_relays (fun _ => rfl)

/-- The id of a target is one that a call of the run asks for. -/
def Target.Requested (K : CallCrates ν Msg L) (calls : List Call) : Target → Prop
  | .trusted id => Asked K calls .trusted id
  | .semiTrusted id => Asked K calls .semiTrusted id
  | .observed => True

/-- The id that is found may be fetched for its source. -/
theorem safe_find
    {target : Target}
    (htarget : target.Requested K calls) :
    Safe K f₀ calls (fun log found => ∀ set : TrustSet, set.id = found.1 →
      Source K f₀ calls log target.kind set) (target.find K) log := by
  cases target with
  | trusted id =>
      refine Keeps.bindOk (safe_shuffledUrlsN 4) (fun more peers _ => Keeps.pureOk ?_)
      rintro set rfl
      exact .inl htarget
  | semiTrusted id =>
      refine Keeps.bindOk (safe_shuffledUrlsN 4) (fun more peers _ => Keeps.pureOk ?_)
      rintro set rfl
      exact .inl htarget
  | observed =>
      refine Keeps.bindOk (safe_look (Q := fun _ seeds => seeds = f₀.seeds)
        (fun _ _ hc => hc.seeds)) (fun more seeds hseeds => ?_)
      subst hseeds
      refine safe_askSeen (fun _ net found hseen hfound set hset => ?_)
      exact ⟨net, found.2, hseen, hset ▸ hfound⟩

theorem safe_updateAnchors
    {target : Target}
    (htarget : target.Requested K calls) :
    Safe K f₀ calls Any (updateAnchors K target) log := by
  refine Keeps.bindOk (safe_find htarget) (fun more found hfound => ?_)
  refine Keeps.bindOk (safe_ask (fun net ab hab => fetchAnchorSet_ok K.client hab))
    (fun more' ab hab => ?_)
  have hsource := hfound ab.trustSet hab.2
  refine Keeps.bindOk (safe_change (fun later c hc =>
    hc.rebuilt (hab.1 ▸ (hsource.longer more').longer later) rfl)) (fun more'' _ _ => ?_)
  exact safe_change (fun later c hc =>
    hc.recorded (((hsource.longer more').longer more'').longer later) rfl)

theorem safe_bootstrap :
    Safe K f₀ calls Any (bootstrap K) log := by
  refine Keeps.bindOk (safe_look (Q := Any) (fun _ _ _ => trivial)) (fun _ needsPeers _ => ?_)
  refine Keeps.bindOk (safe_ifNeeded safe_bootstrapPeers needsPeers) (fun _ _ _ => ?_)
  refine Keeps.bindOk (safe_look (Q := Any) (fun _ _ _ => trivial)) (fun _ needsAnchors _ => ?_)
  have hobserved : Target.observed.Requested K calls := trivial
  exact safe_ifNeeded (safe_updateAnchors hobserved) needsAnchors

theorem safe_updateTrust
    {target : Target}
    (htarget : target.Requested K calls) :
    Safe K f₀ calls Any (updateTrust K target) log := by
  refine Keeps.bindOk (safe_look (Q := Any) (fun _ _ _ => trivial)) (fun _ needsPeers _ => ?_)
  refine Keeps.bindOk (safe_ifNeeded safe_bootstrapPeers needsPeers) (fun _ _ _ => ?_)
  exact safe_updateAnchors htarget

/-- The id of a scanned payload. -/
theorem safe_trustFromQr
    {target : TrustId → Target}
    {payload : String}
    (htarget : ∀ id, scannedId K payload = .ok id → (target id).Requested K calls) :
    Safe K f₀ calls Any (trustFromQr K target payload) log :=
  Keeps.bindOk (safe_ask (fun _ id hid => htarget id hid)) (fun _ _ h => safe_updateTrust h)

/-- A set that a caller has. -/
theorem safe_trustFromSet
    {entries : List RootAnchor}
    (hcall : .trustFromSet entries ∈ calls) :
    Safe K f₀ calls Any (trustFromSet K entries) log := by
  have hsource : ∀ later,
      Source K f₀ calls later .trusted (K.client.computeTrustSet entries) :=
    fun _ => .inr ⟨entries, hcall, rfl⟩
  refine Keeps.bindOk (Q := Any) (Keeps.step (fun more c hc => ?_)) (fun _ _ _ => ?_)
  · have hpool : Traced K f₀ calls (log ++ more)
        { c.fabric.anchorPool with trusted := entries } :=
      traced_poolWith hc.pool (hsource _)
    dsimp only
    cases hload : K.client.withAnchors
        { c.fabric.anchorPool with trusted := entries }.merged with
    | error e =>
        exact ⟨hc.loaded hpool (.inl rfl) rfl, fun _ h => by cases h⟩
    | ok v =>
        exact ⟨hc.loaded hpool (.inr hload) rfl, fun _ _ => trivial⟩
  · refine Keeps.bindOk (safe_change (fun _ c hc => hc.recorded (hsource _) rfl))
      (fun _ _ _ => ?_)
    exact Keeps.pureOk trivial

/-- What the winner of a poll is: its id may be fetched for the semi-trusted source. -/
theorem source_of_winner
    {config : SemiTrustConfig}
    (hconfig : Configured f₀ calls config)
    {net : Network}
    (hseen : Seen log net)
    {entry : RootVotes}
    (hwinner : winningRoot K.client net.rootOrder net.head config = some entry)
    (hquorum : 0 < entry.2.length ∧
      config.quorum.required config.relays.length ≤ entry.2.length)
    {set : TrustSet}
    (hset : set.id = entry.1) :
    Source K f₀ calls log .semiTrusted set := by
  have hmem := net.rootOrder.mem_arrange.1 (Tally.lastBest_mem hwinner).1
  have hlen : entry.2.length = (votersOf K.client net.head config.relays entry.1).length := by
    rw [(Tally.mem_tally.1 hmem).1, length_ballots_signedVotes]
  rw [hlen] at hquorum
  exact .inr ⟨config, net, hconfig, hseen, hset ▸ hquorum.1, hset ▸ hquorum.2⟩

theorem safe_refreshSemiTrusted :
    Safe K f₀ calls Any (refreshSemiTrusted K) log := by
  refine Keeps.bindOk (safe_look (Q := fun _ => Configured f₀ calls) (fun _ _ hc => hc.config))
    (fun _ config hconfig => ?_)
  refine Keeps.bindOk (Q := fun log poll => ∃ net, Seen log net ∧
    winningRoot K.client net.rootOrder net.head config = poll.1) (safe_askSeen ?_)
    (fun _ poll hpoll => ?_)
  · rintro _ net poll hseen hpoll
    cases hpoll
    exact ⟨net, hseen, rfl⟩
  obtain ⟨net, hseen, hwinner⟩ := hpoll
  cases hentry : poll.1 with
  | none =>
      exact Keeps.bindOk (safe_look (Q := Any) (fun _ _ _ => trivial))
        (fun _ _ _ => Keeps.pureOk trivial)
  | some entry =>
      rw [hentry] at hwinner
      dsimp only [Option.map_some, Option.getD_some]
      split_ifs with hquorum
      · refine Keeps.bindOk (safe_ask (fun net ab hab => fetchAnchorSet_ok K.client hab))
          (fun more ab hab => ?_)
        have hsource := (source_of_winner hconfig hseen hwinner hquorum hab.2).longer more
        refine Keeps.bindOk (safe_change (fun later c hc =>
          hc.rebuilt (hab.1 ▸ hsource.longer later) rfl)) (fun more' _ _ => ?_)
        exact Keeps.bindOk (safe_change (fun later c hc =>
          hc.recorded ((hsource.longer more').longer later) rfl))
          (fun _ _ _ => Keeps.pureOk trivial)
      · exact Keeps.bindOk (safe_look (Q := Any) (fun _ _ _ => trivial))
          (fun _ _ _ => Keeps.pureOk trivial)

/-- The set is one that the client starts with, or that a call pins. -/
def PinnedSet (K : CallCrates ν Msg L) (f₀ : Fabric ν) (calls : List Call)
    (log : List (Moment ν)) (set : TrustSet) : Prop :=
  f₀.trusted = some set ∨ Source K f₀ calls log .trusted set

/-- An orange badge is for a sovereign zone, at a root of a set that is pinned. -/
def BadgeMeets (K : CallCrates ν Msg L) (f₀ : Fabric ν) (calls : List Call) (zone : BadgeZone)
    (log : List (Moment ν)) (b : Badge) : Prop :=
  b = .orange → zone.sovereignty = .sovereign ∧
    ∃ set, PinnedSet K f₀ calls log set ∧ zone.anchorHash ∈ set.roots

theorem PinnedSet.longer
    {set : TrustSet}
    (h : PinnedSet K f₀ calls log set)
    (more : List (Moment ν)) :
    PinnedSet K f₀ calls (log ++ more) set :=
  h.imp_right (fun hsource => hsource.longer more)

theorem BadgeMeets.longer
    {zone : BadgeZone}
    {b : Badge}
    (h : BadgeMeets K f₀ calls zone log b)
    (more : List (Moment ν)) :
    BadgeMeets K f₀ calls zone (log ++ more) b := by
  intro horange
  obtain ⟨hsovereign, set, hset, hroot⟩ := h horange
  exact ⟨hsovereign, set, hset.longer more, hroot⟩

theorem safe_lookUnless
    (decided : Bool)
    (f : Fabric ν → Bool) :
    Safe K f₀ calls Any (lookUnless decided f) log := by
  cases decided with
  | false =>
      exact safe_look (fun _ _ _ => trivial)
  | true =>
      exact Keeps.pureOk trivial

theorem safe_badge
    (zone : BadgeZone) :
    Safe K f₀ calls (BadgeMeets K f₀ calls zone) (badge zone) log := by
  have hnot : ∀ later, ∀ b : Badge, b ≠ .orange → BadgeMeets K f₀ calls zone later b :=
    fun _ b hb horange => absurd horange hb
  refine Keeps.bindOk (safe_look (Q := Any) (fun _ _ _ => trivial)) (fun _ _ _ => ?_)
  refine Keeps.bindOk (safe_lookUnless _ _) (fun _ _ _ => ?_)
  refine Keeps.bindOk (safe_lookUnless _ _) (fun _ hasAnyPool _ => ?_)
  split_ifs
  · exact Keeps.pureOk (hnot _ _ (fun h => by cases h))
  · refine Keeps.bindOk (safe_look (Q := fun log isTrusted => isTrusted = true →
      ∃ set, PinnedSet K f₀ calls log set ∧ zone.anchorHash ∈ set.roots) ?_)
      (fun _ isTrusted htrusted => ?_)
    · intro log' c hc hin
      unfold areRootsIn at hin
      cases hset : c.fabric.trusted with
      | none =>
          rw [hset] at hin
          cases hin
      | some set =>
          rw [hset] at hin
          exact ⟨set, hc.sets .trusted set hset, by simpa using hin⟩
    · refine Keeps.bindOk (safe_lookUnless _ _) (fun more isObserved _ => ?_)
      refine Keeps.bindOk (safe_lookUnless _ _) (fun more' isSemiTrusted _ => ?_)
      split_ifs with horange
      · rw [Bool.and_eq_true, decide_eq_true_eq] at horange
        obtain ⟨set, hset, hroot⟩ := htrusted horange.1
        exact Keeps.pureOk (fun _ =>
          ⟨horange.2, set, (hset.longer more).longer more', hroot⟩)
      · exact Keeps.pureOk (hnot _ _ (fun h => by cases h))
      · exact Keeps.pureOk (hnot _ _ (fun h => by cases h))

end Trusting

end Calls
end CertRelay
