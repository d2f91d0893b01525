import CertRelay.Lib.Js
import CertRelay.Client.Anchors

/-!
# Signed anchor heads in the JavaScript client

A relay signs its anchor root and height.  The JavaScript client rebuilds the signed
payload from the header texts: the root through `hexToBytes`, which calls `parseInt` on
each pair of code units, and the height through `parseInt` and `setUint32`.  It then
returns the root's text and the parsed height.

Verification is a parameter, assumed sound: a signature that verifies is one of the message
it verifies for, and a signature is of one message at most.

**Results.**
* `hexToBytes_of_strictHex`: on hex text `hexToBytes` decodes it;
* `anchorSigPayload_inj`: a payload determines its root and its height;
* `acceptsAsSigned_iff`: heads are accepted only as signed exactly if each one that
  verifies has a root of 64 hex digits and a height that fits 32 bits.
-/

namespace CertRelay
namespace SignedHeads

section Client

/-- `hexToBytes`: a code unit that is left over is ignored. -/
def hexToBytes : Js.Str → Bytes
  | a :: b :: rest => Js.toUint8 (Js.parseInt 16 [a, b]) :: hexToBytes rest
  | _ => []

/-- `anchorSigPayload`. -/
def anchorSigPayload (rootHex : Js.Str) (height : Js.Number) : Bytes :=
  anchorSigTag ++ hexToBytes rootHex ++ toBeBytes height.toUint32

/-- The headers of an answer to `HEAD /anchors`. -/
structure Headers where
  root : Option Js.Str
  height : Option Js.Str
  sig : Option Js.Str

/-- The text that the height is parsed from. -/
def Headers.heightText (h : Headers) : Js.Str :=
  h.height.getD (Js.Str.of "0")

variable (rounding : Js.Rounding) (verifySpacesMessage : Bytes → Bytes → Bytes → Bool)

/-- `fetchSignedAnchorHead` of a relay with a pinned key, given its answer; a failed request
is `none`, and a verification that throws is one that fails. -/
def fetchSignedAnchorHead (pubkey : Js.Str) (answer : Option Headers) :
    Option (Js.Str × Js.Number) := do
  let h ← answer
  let root ← h.root
  let sigHex ← h.sig
  if root.isEmpty || sigHex.isEmpty then none
  else
    let height := rounding.parseNumber 10 h.heightText
    let sig := hexToBytes sigHex
    let key := hexToBytes pubkey
    if sig.length ≠ 64 || key.length ≠ 32 then none
    else if !verifySpacesMessage (anchorSigPayload root height) sig key then none
    else some (root, height)

end Client

section Signed

/-- `hex::decode`. -/
def strictHex : Js.Str → Option Bytes
  | [] => some []
  | [_] => none
  | a :: b :: rest =>
      if Js.digitValue a < 16 ∧ Js.digitValue b < 16 then
        (strictHex rest).map (UInt8.ofNat (16 * Js.digitValue a + Js.digitValue b) :: ·)
      else none

/-- **On hex text `hexToBytes` decodes it.** -/
theorem hexToBytes_of_strictHex
    {s : Js.Str}
    {b : Bytes}
    (h : strictHex s = some b) :
    hexToBytes s = b := by
  induction s using strictHex.induct generalizing b with
  | case1 =>
      cases h
      rfl
  | case2 c =>
      cases h
  | case3 c d rest hdigits ih =>
      unfold strictHex at h
      rw [if_pos hdigits, Option.map_eq_some_iff] at h
      obtain ⟨bytes, hrest, rfl⟩ := h
      unfold hexToBytes
      rw [ih hrest, Js.parseInt_hexDigits hdigits.1 hdigits.2, Js.toUint8_natCast]
  | case4 c d rest hdigits =>
      unfold strictHex at h
      rw [if_neg hdigits] at h
      cases h

theorem toBeBytes_inj
    {m n : UInt32}
    (h : toBeBytes m = toBeBytes n) :
    m = n := by
  unfold toBeBytes at h
  simp only [List.cons.injEq, and_true] at h
  obtain ⟨h₁, h₂, h₃, h₄⟩ := h
  rw [← UInt8.toNat_inj] at h₁ h₂ h₃ h₄
  simp only [UInt32.toNat_toUInt8, UInt32.toNat_shiftRight, Nat.shiftRight_eq_div_pow,
    UInt32.reduceToNat, Nat.reduceMod, Nat.reducePow] at h₁ h₂ h₃ h₄
  have hm := m.toNat_lt
  have hn := n.toNat_lt
  rw [← UInt32.toNat_inj]
  omega

/-- **A payload determines its root and its height.** -/
theorem anchorSigPayload_inj
    {root root' : Hash32}
    {height height' : UInt32}
    (h : CertRelay.anchorSigPayload root height = CertRelay.anchorSigPayload root' height') :
    root = root' ∧ height = height' := by
  unfold CertRelay.anchorSigPayload at h
  obtain ⟨hfront, hheight⟩ := List.append_inj h (by simp [root.property, root'.property])
  exact ⟨Subtype.ext (List.append_cancel_left hfront), toBeBytes_inj hheight⟩

variable (rounding : Js.Rounding) (verifySpacesMessage : Bytes → Bytes → Bytes → Bool)
  (signedMessage : Bytes → Bytes → Option Bytes)

/-- The head is what the key signed: exactly this root at exactly this height. -/
def SignedAs (key sig : Bytes) (head : Js.Str × Js.Number) : Prop :=
  ∃ (root : Hash32) (height : UInt32),
    strictHex head.1 = some root.val ∧ head.2 = .int height.toNat ∧
      signedMessage key sig = some (CertRelay.anchorSigPayload root height)

/-- The signature bytes of an answer. -/
def signature (answer : Option Headers) : Bytes :=
  hexToBytes ((answer.bind Headers.sig).getD [])

/-- Of two answers each is accepted only as signed, and two different heights are never
accepted under one signature. -/
structure AcceptsAsSigned (pubkey : Js.Str) (answer answer' : Option Headers) : Prop where
  first : ∀ head, fetchSignedAnchorHead rounding verifySpacesMessage pubkey answer = some head →
    SignedAs signedMessage (hexToBytes pubkey) (signature answer) head
  second : ∀ head, fetchSignedAnchorHead rounding verifySpacesMessage pubkey answer' = some head →
    SignedAs signedMessage (hexToBytes pubkey) (signature answer') head
  heights : ∀ head head',
    fetchSignedAnchorHead rounding verifySpacesMessage pubkey answer = some head →
    fetchSignedAnchorHead rounding verifySpacesMessage pubkey answer' = some head' →
    signature answer = signature answer' → head.2 = head'.2

/-- The signature of an answer verifies for the payload built from its texts. -/
def Verifies (pubkey : Js.Str) (answer : Option Headers) : Prop :=
  ∃ h root sigHex, answer = some h ∧ h.root = some root ∧ h.sig = some sigHex ∧
    root ≠ [] ∧ sigHex ≠ [] ∧ (hexToBytes sigHex).length = 64 ∧ (hexToBytes pubkey).length = 32 ∧
    verifySpacesMessage (anchorSigPayload root (rounding.parseNumber 10 h.heightText))
      (hexToBytes sigHex) (hexToBytes pubkey) = true

/-- The root is 64 hex digits, and the height is an integer of 32 bits. -/
def Canonical (answer : Option Headers) : Prop :=
  ∃ h root, answer = some h ∧ h.root = some root ∧
    (∃ hash : Hash32, strictHex root = some hash.val) ∧
    ∃ n : UInt32, Js.parseInt 10 h.heightText = some n.toNat

theorem fetchSignedAnchorHead_eq_some
    {pubkey : Js.Str}
    {answer : Option Headers}
    {head : Js.Str × Js.Number} :
    fetchSignedAnchorHead rounding verifySpacesMessage pubkey answer = some head ↔
      ∃ h sigHex, answer = some h ∧ h.root = some head.1 ∧ h.sig = some sigHex ∧
        head.1 ≠ [] ∧ sigHex ≠ [] ∧ (hexToBytes sigHex).length = 64 ∧
        (hexToBytes pubkey).length = 32 ∧ head.2 = rounding.parseNumber 10 h.heightText ∧
        verifySpacesMessage (anchorSigPayload head.1 head.2) (hexToBytes sigHex)
          (hexToBytes pubkey) = true := by
  obtain ⟨root, height⟩ := head
  simp only [fetchSignedAnchorHead, Option.bind_eq_bind, Option.bind_eq_some_iff,
    Bool.or_eq_true, List.isEmpty_iff, decide_eq_true_eq, Bool.not_eq_true']
  constructor
  · rintro ⟨h, hanswer, root', hroot, sigHex, hsig, hhead⟩
    split_ifs at hhead with hempty hlength hverify
    obtain ⟨rfl, rfl⟩ := Prod.mk.inj (Option.some.inj hhead)
    rw [not_or] at hempty hlength
    exact ⟨h, sigHex, hanswer, hroot, hsig, hempty.1, hempty.2, not_not.1 hlength.1,
      not_not.1 hlength.2, rfl, Bool.eq_true_of_not_eq_false hverify⟩
  · rintro ⟨h, sigHex, hanswer, hroot, hsig, hne, hne', hlen, hlen', rfl, hverify⟩
    refine ⟨h, hanswer, root, hroot, sigHex, hsig, ?_⟩
    rw [if_neg (by simp [hne, hne']), if_neg (by simp [hlen, hlen']), if_neg (by simp [hverify])]

/-- An answer is accepted exactly if its signature verifies. -/
theorem verifies_iff
    {pubkey : Js.Str}
    {answer : Option Headers} :
    Verifies rounding verifySpacesMessage pubkey answer ↔
      ∃ head, fetchSignedAnchorHead rounding verifySpacesMessage pubkey answer = some head := by
  simp only [fetchSignedAnchorHead_eq_some]
  constructor
  · rintro ⟨h, root, sigHex, hanswer, hroot, hsig, hrest⟩
    exact ⟨(root, rounding.parseNumber 10 h.heightText), h, sigHex, hanswer, hroot, hsig,
      hrest.1, hrest.2.1, hrest.2.2.1, hrest.2.2.2.1, rfl, hrest.2.2.2.2⟩
  · rintro ⟨⟨root, _⟩, h, sigHex, hanswer, hroot, hsig, hne, hne', hlen, hlen', rfl, hverify⟩
    exact ⟨h, root, sigHex, hanswer, hroot, hsig, hne, hne', hlen, hlen', hverify⟩

variable {rounding verifySpacesMessage signedMessage}

/-- An accepted head that is as signed comes from canonical texts. -/
theorem canonical_of_signedAs
    {pubkey : Js.Str}
    {answer : Option Headers}
    {head : Js.Str × Js.Number}
    (haccept : fetchSignedAnchorHead rounding verifySpacesMessage pubkey answer = some head)
    {key sig : Bytes}
    (hsigned : SignedAs signedMessage key sig head) :
    Canonical answer := by
  obtain ⟨h, sigHex, hanswer, hroot, _, _, _, _, _, hheight, _⟩ :=
    (fetchSignedAnchorHead_eq_some rounding verifySpacesMessage).1 haccept
  obtain ⟨root, height, hhex, hint, _⟩ := hsigned
  refine ⟨h, head.1, hanswer, hroot, ⟨root, hhex⟩, height, ?_⟩
  have hlt := height.toNat_lt
  exact (rounding.parseNumber_eq_int (by omega)).1 (hheight.symm.trans hint)

/-- An accepted head from canonical texts is as signed. -/
theorem signedAs_of_canonical
    (hsound : ∀ message sig key,
      verifySpacesMessage message sig key = true → signedMessage key sig = some message)
    {pubkey : Js.Str}
    {answer : Option Headers}
    {head : Js.Str × Js.Number}
    (haccept : fetchSignedAnchorHead rounding verifySpacesMessage pubkey answer = some head)
    (hcanonical : Canonical answer) :
    SignedAs signedMessage (hexToBytes pubkey) (signature answer) head := by
  obtain ⟨h, sigHex, rfl, hroot, hsig, _, _, _, _, hheight, hverify⟩ :=
    (fetchSignedAnchorHead_eq_some rounding verifySpacesMessage).1 haccept
  obtain ⟨h', root, ⟨⟩, hroot', ⟨hash, hhex⟩, n, hn⟩ := hcanonical
  obtain rfl : root = head.1 := Option.some.inj (hroot'.symm.trans hroot)
  have hlt := n.toNat_lt
  have hint : head.2 = .int n.toNat := by
    rw [hheight]
    exact (rounding.parseNumber_eq_int (by omega)).2 hn
  refine ⟨hash, n, hhex, hint, ?_⟩
  have hmessage := hsound _ _ _ hverify
  rw [anchorSigPayload, hexToBytes_of_strictHex hhex, hint, Js.toUint32_int] at hmessage
  unfold signature
  rw [Option.bind_some, hsig, Option.getD_some]
  exact hmessage

/-- Heads that are as signed under one signature have one height. -/
theorem SignedAs.height_eq
    {key sig : Bytes}
    {head head' : Js.Str × Js.Number}
    (h : SignedAs signedMessage key sig head)
    (h' : SignedAs signedMessage key sig head') :
    head.2 = head'.2 := by
  obtain ⟨root, height, _, hint, hmessage⟩ := h
  obtain ⟨root', height', _, hint', hmessage'⟩ := h'
  rw [hmessage, Option.some.injEq] at hmessage'
  rw [hint, hint', (anchorSigPayload_inj hmessage').2]

/-- **Heads are accepted only as signed exactly if those that verify are canonical.** -/
theorem acceptsAsSigned_iff
    (hsound : ∀ message sig key,
      verifySpacesMessage message sig key = true → signedMessage key sig = some message)
    (pubkey : Js.Str)
    (answer answer' : Option Headers) :
    AcceptsAsSigned rounding verifySpacesMessage signedMessage pubkey answer answer' ↔
      (Verifies rounding verifySpacesMessage pubkey answer → Canonical answer) ∧
        (Verifies rounding verifySpacesMessage pubkey answer' → Canonical answer') := by
  rw [verifies_iff, verifies_iff]
  constructor
  · intro h
    constructor
    · rintro ⟨head, hhead⟩
      exact canonical_of_signedAs hhead (h.first head hhead)
    · rintro ⟨head, hhead⟩
      exact canonical_of_signedAs hhead (h.second head hhead)
  · rintro ⟨hfirst, hsecond⟩
    have h₁ : ∀ head, fetchSignedAnchorHead rounding verifySpacesMessage pubkey answer =
        some head → SignedAs signedMessage (hexToBytes pubkey) (signature answer) head :=
      fun head hhead => signedAs_of_canonical hsound hhead (hfirst ⟨head, hhead⟩)
    have h₂ : ∀ head, fetchSignedAnchorHead rounding verifySpacesMessage pubkey answer' =
        some head → SignedAs signedMessage (hexToBytes pubkey) (signature answer') head :=
      fun head hhead => signedAs_of_canonical hsound hhead (hsecond ⟨head, hhead⟩)
    refine ⟨h₁, h₂, fun head head' hhead hhead' hsig => ?_⟩
    have hsigned := h₁ head hhead
    rw [hsig] at hsigned
    exact hsigned.height_eq (h₂ head' hhead')

end Signed

section Sample

/-- The root that the sample relay has signed at height 5. -/
def sampleRoot : Hash32 :=
  ⟨List.replicate 32 1, List.length_replicate⟩

/-- Hex text of a byte below 10, so many times. -/
def sampleHex (digit : UInt16) (n : ℕ) : Js.Str :=
  (List.replicate n [48, 48 + digit]).flatten

/-- The sample relay's only signature: its key, twice. -/
def sampleSigned (key sig : Bytes) : Option Bytes :=
  if sig = key ++ key then some (CertRelay.anchorSigPayload sampleRoot 5) else none

def sampleVerify (message sig key : Bytes) : Bool :=
  sampleSigned key sig == some message

theorem sampleVerify_sound
    (message sig key : Bytes)
    (h : sampleVerify message sig key = true) :
    sampleSigned key sig = some message :=
  eq_of_beq h

/-- The signed root under a height text. -/
def sampleAnswer (height : String) : Option Headers :=
  some ⟨some (sampleHex 1 32), some (Js.Str.of height), some (sampleHex 7 64)⟩

/-- The signed head as the relay sent it. -/
theorem acceptsAsSigned_sample :
    AcceptsAsSigned Js.Rounding.sample sampleVerify sampleSigned (sampleHex 7 32)
      (sampleAnswer "5") (sampleAnswer "5") := by
  have hcanonical : Canonical (sampleAnswer "5") :=
    ⟨_, _, rfl, rfl, ⟨sampleRoot, by decide +kernel⟩, 5, by decide +kernel⟩
  exact (acceptsAsSigned_iff sampleVerify_sound _ _ _).2 ⟨fun _ => hcanonical, fun _ => hcanonical⟩

/-- The height header that a proxy has raised by `2^32` is accepted. -/
theorem raised_height_accepted :
    ¬ ∀ (rounding : Js.Rounding) (verifySpacesMessage : Bytes → Bytes → Bytes → Bool)
      (signedMessage : Bytes → Bytes → Option Bytes),
      (∀ message sig key,
        verifySpacesMessage message sig key = true → signedMessage key sig = some message) →
      ∀ pubkey answer answer', AcceptsAsSigned rounding verifySpacesMessage signedMessage pubkey
        answer answer' := by
  intro h
  have hsample := (h Js.Rounding.sample sampleVerify sampleSigned sampleVerify_sound
    (sampleHex 7 32) (sampleAnswer "4294967301") none).first
  have haccept : fetchSignedAnchorHead Js.Rounding.sample sampleVerify (sampleHex 7 32)
      (sampleAnswer "4294967301") = some (sampleHex 1 32, .int 4294967301) := by
    decide +kernel
  obtain ⟨root, height, _, hint, _⟩ := hsample _ haccept
  have hlt := height.toNat_lt
  rw [Js.Number.int.injEq] at hint
  omega

end Sample

end SignedHeads
end CertRelay
