import CertRelay.Lib.Hex
import Mathlib.Data.List.Destutter
import Mathlib.Data.List.Sort
import CertRelay.Lib.Fallible
import CertRelay.Client.LatestTrustId
import CertRelay.Relay.Crates
import CertRelay.Relay.SyncCursor

/-!
# Anchors and how a client fetches them

Anchors are the roots of the spaces index at given heights.  A client keeps the anchors
of each trust source and merges them; it learns which set to fetch from the headers of
`HEAD /anchors`, signed or not, and fetches the set itself by its id from several peers.

`libveritas` and `hex` are not part of the repository: their functions are the fields of
`ClientCrates`.  What a relay answers is an input.

**Results.**
* `merged_eq_nil_iff`: merging loses no last anchor;
* `fetchAnchorSet_ok`: a fetched set hashes to the id asked for;
* `fetchSignedAnchorHead_ok`: a signed head carries a signature over its root and height.
-/

namespace CertRelay

/-- `[u8; 32]`. -/
abbrev Hash32 := { b : Bytes // b.length = 32 }

/-- A hash of one byte throughout. -/
def byteHash (n : UInt8) : Hash32 :=
  ⟨List.replicate 32 n, List.length_replicate⟩

/-- `try_into` an array of `n` bytes. -/
def toArray (n : Nat) (b : Bytes) : Option { b : Bytes // b.length = n } :=
  if h : b.length = n then some ⟨b, h⟩ else none

/-- A trust id is the hash of an anchor set. -/
abbrev TrustId := Hash32

/-- An anchor: its block height, and its hashes as one value. -/
structure RootAnchor where
  hashes : Bytes
  height : UInt32
deriving DecidableEq

/-- The id of an anchor set, and the roots it vouches for. -/
structure TrustSet where
  id : Hash32
  roots : List Hash32
deriving DecidableEq

/-- An anchor set with what it hashes to. -/
structure AnchorBundle where
  trustSet : TrustSet
  anchors : List RootAnchor
deriving DecidableEq

/-- The functions of other crates that the client calls. -/
structure ClientCrates (ν : Type) where
  /-- `hex::decode` and `hex::encode`. -/
  hexDecode : String → Except String Bytes
  hexEncode : Bytes → String
  /-- `compute_trust_set`. -/
  computeTrustSet : List RootAnchor → TrustSet
  /-- `Veritas::new()`, and `Veritas::new().with_anchors(..)`. -/
  newVeritas : ν
  withAnchors : List RootAnchor → Except String ν
  /-- `verify_spaces_message(message, sig, pubkey).is_ok()`. -/
  verifySpacesMessage : Bytes → Bytes → Hash32 → Bool
  /-- `XOnlyPublicKey::from_slice(key).is_ok()`. -/
  isXonlyPublicKey : Hash32 → Bool

/-- `AnchorSet::tip_height`: the height of the first anchor. -/
def tipHeight (anchors : List RootAnchor) : UInt32 :=
  (anchors.head?.map RootAnchor.height).getD 0

/-- Errors of the client. -/
inductive ClientError
  | decode (message : String)
  | verify (message : String)
  | relay (status : UInt16) (body : String)
  | noPeers
deriving DecidableEq

section Pool

/-- The anchors of each trust source. -/
structure AnchorPool where
  trusted : List RootAnchor
  semiTrusted : List RootAnchor
  observed : List RootAnchor
deriving DecidableEq

namespace AnchorPool

def empty : AnchorPool := ⟨[], [], []⟩

/-- `sort_by_key(Reverse(height))`, which is stable. -/
def sortByHeight (anchors : List RootAnchor) : List RootAnchor :=
  anchors.insertionSort (fun a b => b.height.toNat ≤ a.height.toNat)

/-- `merged`: of anchors of one height the first source wins. -/
def merged (pool : AnchorPool) : List RootAnchor :=
  (sortByHeight (pool.trusted ++ pool.semiTrusted ++ pool.observed)).destutter
    (fun a b => a.height ≠ b.height)

/-- **Merging loses no last anchor.** -/
theorem merged_eq_nil_iff
    {pool : AnchorPool} :
    pool.merged = [] ↔ pool.trusted = [] ∧ pool.semiTrusted = [] ∧ pool.observed = [] := by
  unfold merged sortByHeight
  rw [List.destutter_eq_nil, ← List.length_eq_zero_iff, List.length_insertionSort,
    List.length_eq_zero_iff, List.append_eq_nil_iff, List.append_eq_nil_iff, and_assoc]

end AnchorPool

end Pool

section Fetch

variable {ν : Type} (C : ClientCrates ν)

/-- The answer to `GET /anchors?root=..`. -/
inductive AnchorAnswer
  | unreachable (error : String)
  | failed (status : UInt16) (body : String)
  | undecodable (error : String)
  | set (entries : List RootAnchor)

/-- The loop of `fetch_anchor_set` from its `i`-th request on. -/
def fetchAnchorSetFrom (get : ℕ → String → AnchorAnswer) (trustId : TrustId) :
    ℕ → Option ClientError → List String → Except ClientError AnchorBundle
  | _, lastErr, [] => .error (lastErr.getD .noPeers)
  | i, _, url :: peers =>
      let anchorUrl := url ++ "/anchors?root=" ++ C.hexEncode trustId.val
      let next := fun e => fetchAnchorSetFrom get trustId (i + 1) (some e) peers
      match get i url with
      | .unreachable e => next (.decode ("GET " ++ anchorUrl ++ ": " ++ e))
      | .failed status body => next (.relay status body)
      | .undecodable e => next (.decode ("GET " ++ anchorUrl ++ ": " ++ e))
      | .set entries =>
          let ab : AnchorBundle := ⟨C.computeTrustSet entries, entries⟩
          if ab.trustSet.id ≠ trustId then
            next (.decode ("GET " ++ anchorUrl ++ ": anchor root mismatch"))
          else .ok ab

/-- `fetch_anchor_set`: the first peer whose set hashes to the id. -/
def fetchAnchorSet (get : ℕ → String → AnchorAnswer) (trustId : TrustId)
    (peers : List String) : Except ClientError AnchorBundle :=
  fetchAnchorSetFrom C get trustId 0 none peers

theorem fetchAnchorSetFrom_ok
    {get : ℕ → String → AnchorAnswer}
    {trustId : TrustId}
    {i : ℕ}
    {lastErr : Option ClientError}
    {peers : List String}
    {ab : AnchorBundle}
    (h : fetchAnchorSetFrom C get trustId i lastErr peers = .ok ab) :
    ab.trustSet = C.computeTrustSet ab.anchors ∧ ab.trustSet.id = trustId := by
  induction peers generalizing i lastErr with
  | nil =>
      cases h
  | cons url peers ih =>
      unfold fetchAnchorSetFrom at h
      cases hget : get i url with
      | set entries =>
          simp only [hget] at h
          split_ifs at h with hid
          · exact ih h
          · rw [Except.ok.injEq] at h
            subst h
            exact ⟨rfl, not_not.1 hid⟩
      | _ =>
          simp only [hget] at h
          exact ih h

/-- **A fetched set hashes to the id asked for.** -/
theorem fetchAnchorSet_ok
    {get : ℕ → String → AnchorAnswer}
    {trustId : TrustId}
    {peers : List String}
    {ab : AnchorBundle}
    (h : fetchAnchorSet C get trustId peers = .ok ab) :
    ab.trustSet = C.computeTrustSet ab.anchors ∧ ab.trustSet.id = trustId :=
  fetchAnchorSetFrom_ok C h

/-- The headers of an answer to `HEAD /anchors` that are text. -/
structure AnchorHeaders where
  root : Option String
  sig : Option String
  height : Option String

/-- The answer to `HEAD /anchors`. -/
inductive HeadAnswer
  | unreachable (error : String)
  | failed (status : UInt16)
  | headers (h : AnchorHeaders)

/-- `x-anchor-height`, 0 where it is missing or not a number. -/
def AnchorHeaders.heightOr0 (h : AnchorHeaders) : UInt32 :=
  (h.height.bind parseU32).getD 0

/-- `fetch_latest_trust_id`: what the seeds report, the choice, and its id. -/
def fetchLatestTrustId (order : HashOrder LatestTrustId.RustVote)
    (seeds : List (String × HeadAnswer)) : Except ClientError (TrustId × List String) :=
  let replies := seeds.filterMap fun p =>
    match p.2 with
    | .headers h => h.root.map (fun root => LatestTrustId.Reply.mk p.1 root h.heightOr0)
    | _ => none
  let lastErr := (seeds.filterMap fun p =>
    match p.2 with
    | .unreachable e =>
        some (ClientError.decode ("HEAD " ++ p.1 ++ "/anchors: " ++ e))
    | .failed status =>
        some (ClientError.relay status ("HEAD " ++ p.1 ++ "/anchors: " ++ status.toNat.repr))
    | .headers _ => none).getLast?
  match LatestTrustId.rustChoice order replies with
  | none => .error (lastErr.getD .noPeers)
  | some ((root, _), peers) =>
      match C.hexDecode root with
      | .error e => .error (.decode e)
      | .ok bytes =>
          match toArray 32 bytes with
          | none => .error (.decode "Invalid string length")
          | some id => .ok (id, peers)

/-- `ANCHOR_SIG_TAG`. -/
def anchorSigTag : Bytes :=
  "certrelay-anchor-sig-v1".toUTF8.toList

/-- `u32::to_be_bytes`. -/
def toBeBytes (n : UInt32) : Bytes :=
  [(n >>> 24).toUInt8, (n >>> 16).toUInt8, (n >>> 8).toUInt8, n.toUInt8]

/-- `anchor_sig_payload`. -/
def anchorSigPayload (trustId : Hash32) (height : UInt32) : Bytes :=
  anchorSigTag ++ trustId.val ++ toBeBytes height

/-- `verify_anchor_sig`. -/
def verifyAnchorSig (root : Hash32) (height : UInt32) (sig : Bytes) (pubkey : Hash32) : Bool :=
  C.verifySpacesMessage (anchorSigPayload root height) sig pubkey

/-- A header decoded from hex into `n` bytes. -/
def hexHeader (n : Nat) (wrongLength : ClientError) (text : String) :
    Except ClientError { b : Bytes // b.length = n } :=
  match C.hexDecode text with
  | .error e => .error (.decode e)
  | .ok bytes =>
      match toArray n bytes with
      | none => .error wrongLength
      | some a => .ok a

/-- `fetch_signed_anchor_head`, given the relay's answer. -/
def fetchSignedAnchorHead (relayUrl : String) (pubkey : Hash32) (answer : HeadAnswer) :
    Except ClientError (Hash32 × UInt32) :=
  let url := relayUrl ++ "/anchors"
  let invalid := fun message => ClientError.decode (url ++ ": " ++ message)
  match answer with
  | .unreachable e => .error (.decode ("HEAD " ++ url ++ ": " ++ e))
  | .failed status => .error (.relay status ("HEAD " ++ url))
  | .headers h =>
      match h.root, h.sig with
      | none, _ => .error (invalid "missing x-anchor-root")
      | some _, none => .error (invalid "missing x-anchor-sig")
      | some rootHex, some sigHex => do
          let root ← hexHeader C 32 (invalid "anchor root must be 32 bytes") rootHex
          let sig ← hexHeader C 64 (invalid "anchor sig must be 64 bytes") sigHex
          if verifyAnchorSig C root h.heightOr0 sig.val pubkey then
            return (root, h.heightOr0)
          else
            throw (invalid "anchor signature did not verify")

/-- **A signed head carries a signature over its root and height.** -/
theorem fetchSignedAnchorHead_ok
    {relayUrl : String}
    {pubkey : Hash32}
    {answer : HeadAnswer}
    {root : Hash32}
    {height : UInt32}
    (h : fetchSignedAnchorHead C relayUrl pubkey answer = .ok (root, height)) :
    ∃ sig, C.verifySpacesMessage (anchorSigPayload root height) sig pubkey = true := by
  unfold fetchSignedAnchorHead at h
  cases answer with
  | unreachable e =>
      cases h
  | failed status =>
      cases h
  | headers hs =>
      obtain ⟨root?, sig?, height?⟩ := hs
      cases root? with
      | none =>
          cases h
      | some rootHex =>
          cases sig? with
          | none =>
              cases h
          | some sigHex =>
              dsimp only at h
              obtain ⟨root', _, h⟩ := Fallible.bind_eq_ok.1 h
              obtain ⟨sig, _, h⟩ := Fallible.bind_eq_ok.1 h
              split_ifs at h with hverify
              cases h
              exact ⟨sig.val, hverify⟩

end Fetch

section Sample

/-- Bytes of pairs of hex digits. -/
def sampleHexDecode : List Char → Except String Bytes
  | [] => .ok []
  | [_] => .error "Odd number of digits"
  | a :: b :: rest => do
      let digit := fun c : Char =>
        if c.isDigit then some (c.toNat - 48)
        else if 'a' ≤ c ∧ c ≤ 'f' then some (c.toNat - 87)
        else if 'A' ≤ c ∧ c ≤ 'F' then some (c.toNat - 55)
        else none
      match digit a, digit b with
      | some x, some y => return UInt8.ofNat (16 * x + y) :: (← sampleHexDecode rest)
      | _, _ => throw "Invalid character"

/-- Crates of a client with toy hashes and signatures: an anchor set hashes to the number of
its anchors, a signature repeats the key, and `Veritas` takes any anchors. -/
def ClientCrates.sample : ClientCrates (List RootAnchor) where
  hexDecode := fun s => sampleHexDecode s.toList
  hexEncode := Hex.encode
  computeTrustSet := fun anchors =>
    let id : Hash32 := ⟨List.replicate 32 (UInt8.ofNat anchors.length), List.length_replicate⟩
    ⟨id, [id]⟩
  newVeritas := []
  withAnchors := .ok
  verifySpacesMessage := fun _ sig key => sig == key.val ++ key.val
  isXonlyPublicKey := fun _ => true

theorem sampleHexDecode_encode
    (bytes : Bytes) :
    ClientCrates.sample.hexDecode (ClientCrates.sample.hexEncode bytes) = .ok bytes := by
  have hdigit : ∀ n < 16,
      (if (Nat.digitChar n).isDigit then some ((Nat.digitChar n).toNat - 48)
      else if 'a' ≤ Nat.digitChar n ∧ Nat.digitChar n ≤ 'f' then
        some ((Nat.digitChar n).toNat - 87)
      else if 'A' ≤ Nat.digitChar n ∧ Nat.digitChar n ≤ 'F' then
        some ((Nat.digitChar n).toNat - 55)
      else none) = some n := by
    decide
  show sampleHexDecode (Hex.encode bytes).toList = .ok bytes
  unfold Hex.encode
  rw [String.toList_ofList]
  induction bytes with
  | nil =>
      rfl
  | cons b bytes ih =>
      have hlt := b.toNat_lt
      have hbyte : UInt8.ofNat (16 * (b.toNat / 16) + b.toNat % 16) = b := by
        rw [Nat.div_add_mod, UInt8.ofNat_toNat]
      rw [List.flatMap_cons, List.cons_append, List.cons_append, List.nil_append]
      unfold sampleHexDecode
      dsimp only
      rw [hdigit _ (by omega), hdigit _ (by omega)]
      dsimp only
      rw [ih, hbyte]
      rfl

end Sample

end CertRelay
