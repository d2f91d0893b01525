import CertRelay.Client.Anchors

/-!
# The signing identity of a relay

A relay signs the anchor roots it serves with a key that it keeps in a file.  The first
start draws the key and writes the file; every later start reads it.  The write may stop at
any byte, and so may the relay.

**Results.**
* `loadOrCreate_ok`: the key of a start is what it leaves in the file;
* `loadOrCreate_of_ne_absent`: a file that exists is not written.
-/

namespace CertRelay

/-- The functions of `secp256k1` and `libveritas` that a relay signs with. -/
structure SigningCrates where
  /-- `Keypair::from_seckey_slice(secret)`, down to its x-only public key. -/
  publicKey : Hash32 → Option Hash32
  /-- `sign_schnorr_no_aux_rand` of `hash_signable_message(message)`. -/
  sign : Hash32 → Bytes → { sig : Bytes // sig.length = 64 }

/-- A key pair. -/
structure RelayIdentity (S : SigningCrates) where
  secret : Hash32
  pubkey : Hash32
  pubkey_eq : S.publicKey secret = some pubkey

/-- The file `identity_key`. -/
inductive KeyFile
  | absent
  | unreadable (error : String)
  | contents (bytes : Bytes)
deriving DecidableEq

/-- How far `write_secret` gets. -/
inductive WriteOutcome
  | notCreated (error : String)
  | stopped (written : ℕ) (error : String)
  | written

section Load

variable (S : SigningCrates)

/-- A secret that `generate_secret` may return. -/
abbrev Draw := { secret : Hash32 // (S.publicKey secret).isSome = true }

/-- The identity of a secret. -/
def identityOf (secret : Hash32) : Except String (RelayIdentity S) :=
  match h : S.publicKey secret with
  | some pubkey => .ok ⟨secret, pubkey, h⟩
  | none => .error "identity_key is not a valid secp256k1 secret"

/-- `RelayIdentity::load_or_create`, and the file it leaves. -/
def loadOrCreate (draw : Draw S) (outcome : WriteOutcome) (file : KeyFile) :
    Except String (RelayIdentity S) × KeyFile :=
  match file with
  | .contents bytes =>
      match toArray 32 bytes with
      | some secret => (identityOf S secret, file)
      | none => (.error "identity_key must be 32 bytes", file)
  | .unreadable e => (.error e, file)
  | .absent =>
      match outcome with
      | .notCreated e => (.error e, .absent)
      | .stopped n e => (.error e, .contents (draw.val.val.take n))
      | .written => (identityOf S draw.val, .contents draw.val.val)

/-- `RelayIdentity::sign_anchor`. -/
def RelayIdentity.signAnchor {S : SigningCrates} (identity : RelayIdentity S)
    (trustId : Hash32) (height : UInt32) : { sig : Bytes // sig.length = 64 } :=
  S.sign identity.secret (anchorSigPayload trustId height)

variable {S}

theorem secret_identityOf
    {secret : Hash32}
    {identity : RelayIdentity S}
    (h : identityOf S secret = .ok identity) :
    identity.secret = secret := by
  unfold identityOf at h
  split at h
  · cases h
    rfl
  · cases h

theorem toArray_eq_some
    {n : ℕ}
    {bytes : Bytes}
    {a : { b : Bytes // b.length = n }}
    (h : toArray n bytes = some a) :
    a.val = bytes := by
  unfold toArray at h
  split_ifs at h
  cases h
  rfl

/-- **The key of a start is what it leaves in the file.** -/
theorem loadOrCreate_ok
    {draw : Draw S}
    {outcome : WriteOutcome}
    {file : KeyFile}
    {identity : RelayIdentity S}
    (h : (loadOrCreate S draw outcome file).1 = .ok identity) :
    (loadOrCreate S draw outcome file).2 = .contents identity.secret.val := by
  unfold loadOrCreate at h ⊢
  cases file with
  | contents bytes =>
      dsimp only at h ⊢
      cases harray : toArray 32 bytes with
      | none =>
          rw [harray] at h
          cases h
      | some secret =>
          rw [harray] at h
          dsimp only at h ⊢
          rw [secret_identityOf h, toArray_eq_some harray]
  | unreadable e =>
      cases h
  | absent =>
      cases outcome with
      | notCreated e =>
          cases h
      | stopped n e =>
          cases h
      | written =>
          dsimp only at h ⊢
          rw [secret_identityOf h]

/-- **A file that exists is not written.** -/
theorem loadOrCreate_of_ne_absent
    {file : KeyFile}
    (h : file ≠ .absent)
    (draw : Draw S)
    (outcome : WriteOutcome) :
    (loadOrCreate S draw outcome file).2 = file := by
  unfold loadOrCreate
  cases file with
  | contents bytes =>
      dsimp only
      cases toArray 32 bytes with
      | none =>
          rfl
      | some secret =>
          rfl
  | unreadable e =>
      rfl
  | absent =>
      exact absurd rfl h

/-- A secret has one public key. -/
theorem pubkey_eq_of_secret
    {identity identity' : RelayIdentity S}
    (h : identity.secret = identity'.secret) :
    identity.pubkey = identity'.pubkey := by
  have hkey := identity.pubkey_eq
  rw [h, identity'.pubkey_eq, Option.some.injEq] at hkey
  exact hkey.symm

end Load

end CertRelay
