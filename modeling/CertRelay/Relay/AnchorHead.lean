import CertRelay.Client.AnchorSets
import CertRelay.Relay.Identity

/-!
# Signed anchor heads

A relay refreshes its anchors in the background: it fetches them, replaces the `Veritas`,
then the anchor store, and last signs the root of the latest set.  Each of these is a step
of its own, and `/anchors` may be asked between any two of them.  The headers of an answer
carry the cached signature only where it is one for the root and the height they report.

The process may start again at any point, with the key file that is there by then.

**Results.**
* `sound_step`: a cached signature is one by the key in the file;
* `current_advance`: between two refreshes it is one for the latest set;
* `served_heads_verify`: a client that pins the key takes every head with a signature, and
  every head that a refreshed relay serves between two refreshes has one.
-/

namespace CertRelay

/-- A cached signature, with what it is for. -/
structure AnchorSig where
  trustId : Hash32
  height : UInt32
  sig : { sig : Bytes // sig.length = 64 }

namespace AnchorHead

open AnchorSets

section Server

/-- How far `refresh_anchors` is. -/
inductive Phase (ν : Type)
  | resting
  | built (veritas : ν) (sets : AnchorSets) (order : HashOrder AnchorSet)
  | veritasSet (sets : AnchorSets) (order : HashOrder AnchorSet)
  | storeSet
  | latestRead (latest : AnchorSet)

/-- A running relay, as far as it serves anchors; `refreshed` tells which of its two loops the
refresh task is in.  The order is that of the map in the anchor store. -/
structure Server (ν : Type) (S : SigningCrates) where
  identity : Option (RelayIdentity S)
  veritas : ν
  anchorStore : AnchorSets
  order : HashOrder AnchorSet
  anchorSig : Option AnchorSig
  refreshed : Bool
  phase : Phase ν

/-- The key file of a relay, and the relay if it is running. -/
structure Host (ν : Type) (S : SigningCrates) where
  file : KeyFile
  server : Option (Server ν S)

/-- What happens next.  A fetch brings the anchors that spaced answers with. -/
inductive Action (S : SigningCrates)
  | start (config : List RootAnchor) (order : HashOrder AnchorSet) (draw : Draw S)
      (outcome : WriteOutcome)
  | stop
  | fetch (answer : Except String (List RootAnchor)) (order : HashOrder AnchorSet)
  | advance

variable {ν : Type} (C : ClientCrates ν) {S : SigningCrates} (rootAnchorsCount : ℕ)

/-- The latest set of a relay. -/
def Server.latest (s : Server ν S) : Option AnchorSet :=
  AnchorSets.latest s.order s.anchorStore

/-- The relay that `Relay::new` makes of the anchors in its configuration. -/
def new (config : List RootAnchor) (order : HashOrder AnchorSet)
    (identity : Option (RelayIdentity S)) (veritas : ν) : Server ν S where
  identity := identity
  veritas := veritas
  anchorStore := fromAnchors C config
  order := order
  anchorSig := none
  refreshed := false
  phase := .resting

/-- `get_root_anchors`, `from_anchors` and `create_relay_veritas` in `refresh_anchors`. -/
def fetch (answer : Except String (List RootAnchor)) (order : HashOrder AnchorSet)
    (s : Server ν S) : Server ν S :=
  match s.phase, answer with
  | .resting, .ok anchors =>
      match C.withAnchors (anchors.take rootAnchorsCount) with
      | .ok veritas => { s with phase := .built veritas (fromAnchors C anchors) order }
      | .error _ => s
  | _, _ => s

/-- `refresh_anchors` returns. -/
def done (s : Server ν S) : Server ν S :=
  { s with refreshed := true, phase := .resting }

/-- The cached signature is one for this root and this height. -/
def isFor (trustId : Hash32) (height : UInt32) (sig : AnchorSig) : Bool :=
  decide (sig.trustId = trustId) && decide (sig.height = height)

/-- `refresh_anchor_sig` from the latest set on. -/
def refreshAnchorSig (latest : AnchorSet) (s : Server ν S) : Server ν S :=
  match s.identity with
  | none => s
  | some identity =>
      let height := tipHeight latest.entries
      let trustId := (C.computeTrustSet latest.entries).id
      if s.anchorSig.any (isFor trustId height) then s
      else { s with anchorSig := some ⟨trustId, height, identity.signAnchor trustId height⟩ }

/-- The next step of `refresh_anchors`. -/
def advance (s : Server ν S) : Server ν S :=
  match s.phase with
  | .resting => s
  | .built veritas sets order => { s with veritas := veritas, phase := .veritasSet sets order }
  | .veritasSet sets order =>
      { s with anchorStore := sets, order := order, phase := .storeSet }
  | .storeSet =>
      match s.identity, s.latest with
      | some _, some latest => { s with phase := .latestRead latest }
      | _, _ => done s
  | .latestRead latest => done (refreshAnchorSig C latest s)

/-- One step of the host.  `Relay::new` fails where the configured anchors are refused, and
goes without an identity where the key cannot be loaded. -/
def step (h : Host ν S) : Action S → Host ν S
  | .start config order draw outcome =>
      match C.withAnchors config with
      | .error _ => { h with server := none }
      | .ok veritas =>
          let (identity, file) := loadOrCreate S draw outcome h.file
          ⟨file, some (new C config order identity.toOption veritas)⟩
  | .stop => { h with server := none }
  | .fetch answer order =>
      { h with server := h.server.map (fetch C rootAnchorsCount answer order) }
  | .advance => { h with server := h.server.map (advance C) }

end Server

section Serve

variable {ν : Type} (C : ClientCrates ν) {S : SigningCrates}

/-- The headers of an answer. -/
structure ServedHeaders where
  root : Option String
  height : Option String
  pubkey : Option String
  sig : Option String

/-- The headers that `handle_anchors` puts on any answer, none without a set. -/
def servedHeaders (s : Server ν S) : ServedHeaders :=
  match s.latest with
  | none => ⟨none, none, none, none⟩
  | some latest =>
      let height := tipHeight latest.entries
      let trustId := (C.computeTrustSet latest.entries).id
      { root := some (C.hexEncode trustId.val)
        height := some height.toNat.repr
        pubkey := s.identity.map (fun identity => C.hexEncode identity.pubkey.val)
        sig := s.identity.bind (fun _ =>
          (s.anchorSig.filter (isFor trustId height)).map (fun c => C.hexEncode c.sig.val)) }

/-- What a client sees of the answer to `HEAD /anchors`. -/
def headAnchors (s : Server ν S) : HeadAnswer :=
  match s.latest with
  | none => .failed 404
  | some _ =>
      let served := servedHeaders C s
      .headers ⟨served.root, served.sig, served.height⟩

/-- What a client sees of the answer to `GET /anchors?root=..`. -/
def getAnchors (s : Server ν S) (root : String) : AnchorAnswer :=
  match AnchorSets.handleAnchors C s.order s.anchorStore (some root) with
  | .invalidHex => .failed 400 "invalid hex"
  | .rootLength => .failed 400 "root must be 32 bytes"
  | .notFound => .failed 404 "anchor set not found"
  | .set anchors => .set anchors.entries

end Serve

section Steps

variable {ν : Type} {C : ClientCrates ν} {S : SigningCrates} {rootAnchorsCount : ℕ}
  {s : Server ν S}

/-- The cached signature is one by the key of the relay. -/
def SignedByKey (s : Server ν S) : Prop :=
  ∀ c, s.anchorSig = some c →
    ∃ identity, s.identity = some identity ∧ c.sig = identity.signAnchor c.trustId c.height

/-- The cached signature is one for the latest set. -/
def SignsLatest (C : ClientCrates ν) (s : Server ν S) : Prop :=
  ∀ latest, s.identity.isSome = true → s.latest = some latest →
    s.anchorSig.any (isFor (C.computeTrustSet latest.entries).id (tipHeight latest.entries)) = true

/-- Neither the store nor the cached signature is about to change without the other. -/
def Phase.settled : Phase ν → Bool
  | .storeSet => false
  | .latestRead _ => false
  | _ => true

/-- Between two refreshes the cached signature is one for the latest set; during one it will
be one for the set that was read. -/
structure Current (C : ClientCrates ν) (s : Server ν S) : Prop where
  settled : s.phase.settled = true → s.refreshed = true → SignsLatest C s
  latestRead : ∀ latest, s.phase = .latestRead latest → s.latest = some latest

/-- What a fetch can do. -/
theorem fetch_cases
    (C : ClientCrates ν)
    (rootAnchorsCount : ℕ)
    (answer : Except String (List RootAnchor))
    (order : HashOrder AnchorSet)
    (s : Server ν S) :
    fetch C rootAnchorsCount answer order s = s ∨
      ∃ veritas sets, s.phase = .resting ∧
        fetch C rootAnchorsCount answer order s =
          { s with phase := .built veritas sets order } := by
  unfold fetch
  cases hphase : s.phase with
  | resting =>
      cases answer with
      | error e =>
          exact .inl rfl
      | ok anchors =>
          dsimp only
          cases C.withAnchors (anchors.take rootAnchorsCount) with
          | error e =>
              exact .inl rfl
          | ok veritas =>
              exact .inr ⟨_, _, rfl, rfl⟩
  | built veritas sets order' =>
      exact .inl rfl
  | veritasSet sets order' =>
      exact .inl rfl
  | storeSet =>
      exact .inl rfl
  | latestRead latest =>
      exact .inl rfl

/-- Refreshing the signature signs the set that was read, or finds it signed. -/
theorem refreshAnchorSig_cases
    (C : ClientCrates ν)
    (latest : AnchorSet)
    (s : Server ν S) :
    (refreshAnchorSig C latest s = s ∧ (s.identity.isSome = true →
        s.anchorSig.any (isFor (C.computeTrustSet latest.entries).id
          (tipHeight latest.entries)) = true)) ∨
      ∃ identity, s.identity = some identity ∧
        refreshAnchorSig C latest s =
          { s with
            anchorSig := some
              ⟨(C.computeTrustSet latest.entries).id, tipHeight latest.entries,
                identity.signAnchor (C.computeTrustSet latest.entries).id
                  (tipHeight latest.entries)⟩ } := by
  unfold refreshAnchorSig
  cases hidentity : s.identity with
  | none =>
      exact .inl ⟨rfl, fun h => by cases h⟩
  | some identity =>
      dsimp only
      split_ifs with hunchanged
      · exact .inl ⟨rfl, fun _ => hunchanged⟩
      · exact .inr ⟨identity, rfl, rfl⟩

/-- The key of a relay stays. -/
@[simp] theorem identity_fetch
    (answer : Except String (List RootAnchor))
    (order : HashOrder AnchorSet) :
    (fetch C rootAnchorsCount answer order s).identity = s.identity := by
  rcases fetch_cases C rootAnchorsCount answer order s with h | ⟨veritas, sets, _, h⟩
  · rw [h]
  · rw [h]

@[simp] theorem identity_advance :
    (advance C s).identity = s.identity := by
  unfold advance
  cases s.phase with
  | resting =>
      rfl
  | built veritas sets order =>
      rfl
  | veritasSet sets order =>
      rfl
  | storeSet =>
      dsimp only
      split <;> rfl
  | latestRead latest =>
      show (refreshAnchorSig C latest s).identity = s.identity
      rcases refreshAnchorSig_cases C latest s with ⟨h, _⟩ | ⟨identity, _, h⟩
      · rw [h]
      · rw [h]

/-- A step of a refresh changes the cached signature only into one by the key. -/
theorem signedByKey_advance
    (hs : SignedByKey s) :
    SignedByKey (advance C s) := by
  unfold advance
  cases s.phase with
  | resting =>
      exact hs
  | built veritas sets order =>
      exact hs
  | veritasSet sets order =>
      exact hs
  | storeSet =>
      dsimp only
      split
      · exact hs
      · exact hs
  | latestRead latest =>
      dsimp only [done]
      rcases refreshAnchorSig_cases C latest s with ⟨h, _⟩ | ⟨identity, hidentity, h⟩
      · rw [h]
        exact hs
      · rw [h]
        intro c hc
        cases hc
        exact ⟨identity, hidentity, rfl⟩

theorem signedByKey_fetch
    (hs : SignedByKey s)
    (answer : Except String (List RootAnchor))
    (order : HashOrder AnchorSet) :
    SignedByKey (fetch C rootAnchorsCount answer order s) := by
  rcases fetch_cases C rootAnchorsCount answer order s with h | ⟨veritas, sets, _, h⟩
  · rw [h]
    exact hs
  · rw [h]
    exact hs

theorem current_fetch
    (hs : Current C s)
    (answer : Except String (List RootAnchor))
    (order : HashOrder AnchorSet) :
    Current C (fetch C rootAnchorsCount answer order s) := by
  rcases fetch_cases C rootAnchorsCount answer order s with h | ⟨veritas, sets, hphase, h⟩
  · rw [h]
    exact hs
  · rw [h]
    refine ⟨fun _ hrefreshed => ?_, fun latest hlatest => by cases hlatest⟩
    exact hs.settled (by rw [hphase]; rfl) hrefreshed

/-- **Each step of a refresh keeps the signature in step with the store.** -/
theorem current_advance
    (hs : Current C s) :
    Current C (advance C s) := by
  unfold advance
  cases hphase : s.phase with
  | resting =>
      dsimp only
      exact hs
  | built veritas sets order =>
      refine ⟨fun _ hrefreshed => ?_, fun latest hlatest => by cases hlatest⟩
      exact hs.settled (by rw [hphase]; rfl) hrefreshed
  | veritasSet sets order =>
      refine ⟨fun h => ?_, fun latest hlatest => ?_⟩
      · cases h
      · cases hlatest
  | storeSet =>
      dsimp only
      cases hidentity : s.identity with
      | none =>
          refine ⟨fun _ _ latest hsome _ => ?_, fun latest hlatest => by cases hlatest⟩
          rw [show (done s).identity = s.identity from rfl, hidentity] at hsome
          cases hsome
      | some identity =>
          cases hlatest : s.latest with
          | none =>
              refine ⟨fun _ _ latest _ hsome => ?_, fun latest h => by cases h⟩
              rw [show (done s).latest = s.latest from rfl, hlatest] at hsome
              cases hsome
          | some latest =>
              refine ⟨fun h => ?_, fun latest' h => ?_⟩
              · cases h
              · cases h
                exact hlatest
  | latestRead latest =>
      have hlatest := hs.latestRead latest hphase
      refine ⟨fun _ _ => ?_, fun latest' h => by cases h⟩
      dsimp only [done]
      rcases refreshAnchorSig_cases C latest s with ⟨h, hsigned⟩ | ⟨identity, hidentity, h⟩
      · rw [h]
        intro latest' hsome hread
        rw [show Server.latest { s with refreshed := true, phase := Phase.resting } = s.latest
          from rfl, hlatest, Option.some.injEq] at hread
        rw [← hread]
        exact hsigned hsome
      · rw [h]
        intro latest' _ hread
        have hsame : s.latest = some latest' := hread
        rw [hlatest, Option.some.injEq] at hsame
        subst hsame
        simp [isFor]

end Steps

section Runs

variable {ν : Type} {C : ClientCrates ν} {S : SigningCrates} {rootAnchorsCount : ℕ}
  {s : Server ν S} {h : Host ν S}

/-- A running relay has the key of the file, and a sound signature. -/
structure Sound (C : ClientCrates ν) (h : Host ν S) : Prop where
  key : ∀ s, h.server = some s → ∀ identity, s.identity = some identity →
    h.file = .contents identity.secret.val
  signed : ∀ s, h.server = some s → SignedByKey s
  current : ∀ s, h.server = some s → Current C s

/-- Nothing is running. -/
theorem sound_stopped
    (C : ClientCrates ν)
    (file : KeyFile) :
    Sound C (⟨file, none⟩ : Host ν S) where
  key s hs := by cases hs
  signed s hs := by cases hs
  current s hs := by cases hs

theorem current_new
    (config : List RootAnchor)
    (order : HashOrder AnchorSet)
    (identity : Option (RelayIdentity S))
    (veritas : ν) :
    Current C (new C config order identity veritas) where
  settled _ hrefreshed := by cases hrefreshed
  latestRead latest hlatest := by cases hlatest

theorem Sound.map
    (hs : Sound C h)
    {f : Server ν S → Server ν S}
    (hidentity : ∀ s, (f s).identity = s.identity)
    (hsigned : ∀ s, SignedByKey s → SignedByKey (f s))
    (hcurrent : ∀ s, Current C s → Current C (f s)) :
    Sound C { h with server := h.server.map f } where
  key s hserver identity hkey := by
    obtain ⟨s, hs', rfl⟩ := Option.map_eq_some_iff.1 hserver
    rw [hidentity] at hkey
    exact hs.key s hs' identity hkey
  signed s hserver := by
    obtain ⟨s, hs', rfl⟩ := Option.map_eq_some_iff.1 hserver
    exact hsigned s (hs.signed s hs')
  current s hserver := by
    obtain ⟨s, hs', rfl⟩ := Option.map_eq_some_iff.1 hserver
    exact hcurrent s (hs.current s hs')

/-- **Every step keeps the host sound.** -/
theorem sound_step
    (hs : Sound C h)
    (action : Action S) :
    Sound C (step C rootAnchorsCount h action) := by
  cases action with
  | start config order draw outcome =>
      unfold step
      dsimp only
      cases C.withAnchors config with
      | error e =>
          exact sound_stopped C h.file
      | ok veritas =>
          refine ⟨fun s hserver identity hkey => ?_, fun s hserver c hc => ?_,
            fun s hserver => ?_⟩
          · cases hserver
            exact loadOrCreate_ok (Fallible.toOption_eq_some.1 hkey)
          · cases hserver
            cases hc
          · cases hserver
            exact current_new config order _ veritas
  | stop =>
      exact sound_stopped C h.file
  | fetch answer order =>
      exact hs.map (fun s => identity_fetch answer order)
        (fun s hsigned => signedByKey_fetch hsigned answer order)
        (fun s hcurrent => current_fetch hcurrent answer order)
  | advance =>
      exact hs.map (fun s => identity_advance) (fun s => signedByKey_advance)
        (fun s => current_advance)

/-- No step writes a key file that exists. -/
theorem file_step
    (hfile : h.file ≠ .absent)
    (action : Action S) :
    (step C rootAnchorsCount h action).file = h.file := by
  cases action with
  | start config order draw outcome =>
      unfold step
      dsimp only
      cases C.withAnchors config with
      | error e =>
          rfl
      | ok veritas =>
          exact loadOrCreate_of_ne_absent hfile draw outcome
  | stop =>
      rfl
  | fetch answer order =>
      rfl
  | advance =>
      rfl

theorem file_foldl
    (hfile : h.file ≠ .absent)
    (actions : List (Action S)) :
    (actions.foldl (step C rootAnchorsCount) h).file = h.file :=
  List.foldlRecOn (motive := fun h' : Host ν S => h'.file = h.file) actions _ rfl
    (fun _ heq action _ => (file_step (heq ▸ hfile) action).trans heq)

theorem sound_run
    (C : ClientCrates ν)
    (rootAnchorsCount : ℕ)
    (file : KeyFile)
    (actions : List (Action S)) :
    Sound C (actions.foldl (step C rootAnchorsCount) ⟨file, none⟩) :=
  List.foldlRecOn (motive := Sound C) actions _ (sound_stopped C file)
    (fun _ hs action _ => sound_step hs action)

/-- A hex header of some bytes is read as these bytes. -/
theorem hexHeader_encode
    (hhex : ∀ bytes, C.hexDecode (C.hexEncode bytes) = .ok bytes)
    {n : ℕ}
    (wrongLength : ClientError)
    (a : { b : Bytes // b.length = n }) :
    hexHeader C n wrongLength (C.hexEncode a.val) = .ok a := by
  have harray : toArray n a.val = some a := dif_pos a.property
  unfold hexHeader
  rw [hhex]
  dsimp only
  rw [harray]

/-- What a client that pins a key gets of a relay's heads: each signature is taken, for the
root and the height of the set that the relay serves as its latest; and a relay with a key
signs the head of any set it has refreshed to, but for the moments in which it is at it. -/
structure Serves (C : ClientCrates ν) (key : Hash32) (url : String) (s : Server ν S) : Prop where
  pubkey : ∀ text, (servedHeaders C s).pubkey = some text → text = C.hexEncode key.val
  taken : ∀ text, (servedHeaders C s).sig = some text → ∃ latest, s.latest = some latest ∧
    fetchSignedAnchorHead C url key (headAnchors C s) =
      .ok ((C.computeTrustSet latest.entries).id, tipHeight latest.entries)
  signed : s.identity.isSome = true → s.refreshed = true → s.phase.settled = true →
    s.latest.isSome = true → (servedHeaders C s).sig.isSome = true

/-- A signature that a relay serves is taken. -/
theorem taken_of_signedByKey
    (hhex : ∀ bytes, C.hexDecode (C.hexEncode bytes) = .ok bytes)
    (hsign : ∀ secret pubkey message, S.publicKey secret = some pubkey →
      C.verifySpacesMessage message (S.sign secret message).val pubkey = true)
    (hs : SignedByKey s)
    {identity : RelayIdentity S}
    (hidentity : s.identity = some identity)
    {text : String}
    (hsig : (servedHeaders C s).sig = some text)
    (url : String) :
    ∃ latest, s.latest = some latest ∧
      fetchSignedAnchorHead C url identity.pubkey (headAnchors C s) =
        .ok ((C.computeTrustSet latest.entries).id, tipHeight latest.entries) := by
  unfold headAnchors
  dsimp only
  rw [hsig]
  unfold servedHeaders at hsig ⊢
  cases hlatest : s.latest with
  | none =>
      rw [hlatest] at hsig
      cases hsig
  | some latest =>
      rw [hlatest] at hsig
      dsimp only at hsig ⊢
      rw [hidentity, Option.bind_some] at hsig
      obtain ⟨c, hfilter, rfl⟩ := Option.map_eq_some_iff.1 hsig
      obtain ⟨hc, hfor⟩ := Option.filter_eq_some_iff.1 hfilter
      obtain ⟨identity', hidentity', hsigned⟩ := hs c hc
      rw [hidentity, Option.some.injEq] at hidentity'
      subst hidentity'
      unfold isFor at hfor
      rw [Bool.and_eq_true, decide_eq_true_eq, decide_eq_true_eq] at hfor
      refine ⟨latest, rfl, ?_⟩
      have hheight : (AnchorHeaders.mk
          (some (C.hexEncode (C.computeTrustSet latest.entries).id.val))
          (some (C.hexEncode c.sig.val))
          (some (tipHeight latest.entries).toNat.repr)).heightOr0 = tipHeight latest.entries := by
        unfold AnchorHeaders.heightOr0
        rw [Option.bind_some, parseU32_repr, Option.getD_some]
      have hverify : verifyAnchorSig C (C.computeTrustSet latest.entries).id
          (tipHeight latest.entries) c.sig.val identity.pubkey = true := by
        rw [hsigned, hfor.1, hfor.2]
        exact hsign identity.secret identity.pubkey _ identity.pubkey_eq
      unfold fetchSignedAnchorHead
      dsimp only
      rw [hexHeader_encode hhex, Fallible.ok_bind, hexHeader_encode hhex, Fallible.ok_bind,
        hheight, hverify]
      rfl

/-- A refreshed relay with a key signs the head of its latest set. -/
theorem signed_of_current
    (hs : Current C s)
    (hidentity : s.identity.isSome = true)
    (hrefreshed : s.refreshed = true)
    (hsettled : s.phase.settled = true)
    (hlatest : s.latest.isSome = true) :
    (servedHeaders C s).sig.isSome = true := by
  obtain ⟨identity, hidentity'⟩ := Option.isSome_iff_exists.1 hidentity
  obtain ⟨latest, hlatest'⟩ := Option.isSome_iff_exists.1 hlatest
  have hany := hs.settled hsettled hrefreshed latest hidentity hlatest'
  obtain ⟨c, hc, hfor⟩ := (Option.any_eq_true _ _).1 hany
  unfold servedHeaders
  rw [hlatest']
  dsimp only
  rw [hidentity', Option.bind_some, hc, Option.filter_some_pos hfor]
  rfl

/-- What a client gets that pins the key of the relay. -/
theorem serves_of_sound
    (hhex : ∀ bytes, C.hexDecode (C.hexEncode bytes) = .ok bytes)
    (hsign : ∀ secret pubkey message, S.publicKey secret = some pubkey →
      C.verifySpacesMessage message (S.sign secret message).val pubkey = true)
    (hs : Sound C h)
    (hserver : h.server = some s)
    {key : Hash32}
    (hkey : ∀ identity, s.identity = some identity → identity.pubkey = key)
    (url : String) :
    Serves C key url s where
  pubkey text htext := by
    unfold servedHeaders at htext
    cases hlatest : s.latest with
    | none =>
        rw [hlatest] at htext
        cases htext
    | some latest =>
        rw [hlatest] at htext
        obtain ⟨identity, hidentity, rfl⟩ := Option.map_eq_some_iff.1 htext
        rw [hkey identity hidentity]
  taken text htext := by
    have hsome : s.identity.isSome = true := by
      cases hidentity : s.identity with
      | none =>
          unfold servedHeaders at htext
          rw [hidentity] at htext
          cases hlatest : s.latest <;> simp [hlatest] at htext
      | some identity =>
          rfl
    obtain ⟨identity, hidentity⟩ := Option.isSome_iff_exists.1 hsome
    rw [← hkey identity hidentity]
    exact taken_of_signedByKey hhex hsign (hs.signed s hserver) hidentity htext url
  signed hidentity hrefreshed hsettled hlatest :=
    signed_of_current (hs.current s hserver) hidentity hrefreshed hsettled hlatest

/-- **Served heads verify.**  However a relay is stopped and started, also in the middle of
writing its key, and whenever it is asked while it refreshes its anchors: there is one key
such that a client which pins it takes every signed head, and the relay signs its head
whenever it has a key and is between two refreshes. -/
theorem served_heads_verify
    (C : ClientCrates ν)
    (S : SigningCrates)
    (hhex : ∀ bytes, C.hexDecode (C.hexEncode bytes) = .ok bytes)
    (hsign : ∀ secret pubkey message, S.publicKey secret = some pubkey →
      C.verifySpacesMessage message (S.sign secret message).val pubkey = true)
    (rootAnchorsCount : ℕ)
    (file : KeyFile)
    (actions : List (Action S))
    (url : String) :
    ∃ key, ∀ before after, actions = before ++ after → ∀ s,
      (before.foldl (step C rootAnchorsCount) ⟨file, none⟩).server = some s →
        Serves C key url s := by
  -- the key of any relay of the run is the one in the file at the end of it
  have hfinal : ∀ before after, actions = before ++ after → ∀ s,
      (before.foldl (step C rootAnchorsCount) ⟨file, none⟩).server = some s →
        ∀ identity, s.identity = some identity →
          (actions.foldl (step C rootAnchorsCount) ⟨file, none⟩).file =
            .contents identity.secret.val := by
    intro before after hactions s hserver identity hidentity
    have hfile := (sound_run C rootAnchorsCount file before).key s hserver identity hidentity
    rw [hactions, List.foldl_append, file_foldl (by rw [hfile]; exact fun h => by cases h), hfile]
  by_cases hkey : ∃ before after, actions = before ++ after ∧ ∃ s,
      (before.foldl (step C rootAnchorsCount) ⟨file, none⟩).server = some s ∧
        s.identity.isSome = true
  · obtain ⟨before₀, after₀, hactions₀, s₀, hserver₀, hsome₀⟩ := hkey
    obtain ⟨identity₀, hidentity₀⟩ := Option.isSome_iff_exists.1 hsome₀
    have hfile₀ := hfinal before₀ after₀ hactions₀ s₀ hserver₀ identity₀ hidentity₀
    refine ⟨identity₀.pubkey, fun before after hactions s hserver => ?_⟩
    have hsame : ∀ identity, s.identity = some identity →
        identity.pubkey = identity₀.pubkey := by
      intro identity hidentity
      have hfile := hfinal before after hactions s hserver identity hidentity
      rw [hfile₀, KeyFile.contents.injEq] at hfile
      exact (pubkey_eq_of_secret (Subtype.ext hfile)).symm
    exact serves_of_sound hhex hsign (sound_run C rootAnchorsCount file before) hserver hsame url
  · refine ⟨⟨List.replicate 32 0, List.length_replicate⟩, fun before after hactions s hserver => ?_⟩
    refine serves_of_sound hhex hsign (sound_run C rootAnchorsCount file before) hserver
      (fun identity hidentity => ?_) url
    exact absurd ⟨before, after, hactions, s, hserver, by rw [hidentity]; rfl⟩ hkey

end Runs

section Sample

/-- Toy signatures: a secret is its own public key, and a signature repeats it. -/
def SigningCrates.sample : SigningCrates where
  publicKey := some
  sign secret _ := ⟨secret.val ++ secret.val, by rw [List.length_append, secret.property]⟩

theorem length_sampleKey :
    (List.replicate 32 7 : Bytes).length = 32 :=
  List.length_replicate

/-- The first start stops once it has written its key, the second one reads it and refreshes. -/
def sampleStarts : List (Action SigningCrates.sample) :=
  let draw : Draw SigningCrates.sample := ⟨⟨List.replicate 32 7, length_sampleKey⟩, rfl⟩
  [.start [] .inserted draw (.stopped 32 "killed"), .stop, .start [] .inserted draw .written,
    .fetch (.ok [⟨[], 5⟩]) .inserted, .advance, .advance, .advance, .advance]

theorem served_heads_verify_sample :
    ∃ key s, (sampleStarts.foldl (step ClientCrates.sample 120) ⟨.absent, none⟩).server = some s ∧
      (servedHeaders ClientCrates.sample s).sig.isSome = true ∧
      Serves ClientCrates.sample key "https://relay" s := by
  obtain ⟨key, hkey⟩ := served_heads_verify ClientCrates.sample SigningCrates.sample
    sampleHexDecode_encode (fun secret pubkey _ h => by cases h; exact beq_self_eq_true _) 120
    .absent sampleStarts "https://relay"
  have hserves := hkey sampleStarts [] (List.append_nil _).symm _ rfl
  exact ⟨key, _, rfl, by decide +kernel, hserves⟩

end Sample

end AnchorHead
end CertRelay
