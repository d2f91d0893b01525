import CertRelay.Lib.Attempts
import CertRelay.Client.Anchors

/-!
# Downloading an anchor set

A client asks peers in order for the anchor set of a trust id.  The Rust client checks in
its loop that a set hashes to the id and goes on if it does not.  The JavaScript, Go and
Python clients leave their loop with the first set that decodes and check afterwards; the
Python client also leaves it on a JSON body that is not an object, by an exception.

The caller names the id by a text.  The Rust client parses it; the others compare the text
itself with the lower-case digits of the set's id, so they refuse every set under an id that
is spelt otherwise.

What is done with a checked set (recording it, rebuilding the `Veritas`) is the parameter
`pin`.

**Results.**
* `fetchAnchorSetFrom_eq_ok`: the Rust client takes the first peer that serves the set;
* `download_eq_ok`: which set a client downloads;
* `download_ne_ok_of_spelling`: none, if it cannot read how the id is spelt;
* `survivesLiars_iff`: a client gets the set, wherever a peer serves it, exactly if the
  first answer that makes it leave its loop is that set and it can read how the id is spelt.
-/

namespace CertRelay
namespace AnchorDownload

open Attempts

section Answers

/-- The answer of a peer to `GET /anchors?root=..`. -/
inductive PeerAnswer
  | unreachable (error : String)
  | failed (status : UInt16) (reason body : String)
  /-- The body is not JSON, is `null` or another value that is not an object. -/
  | notJson (error : String)
  | null (error : String)
  | notObject (error : String)
  /-- The body is an object without entries, or these do not decode. -/
  | noEntries (error : String)
  | nullEntries (error : String)
  | badEntries (error : String)
  | set (entries : List RootAnchor)

/-- The answer as the Rust client decodes it. -/
def PeerAnswer.toRust : PeerAnswer → AnchorAnswer
  | .unreachable e => .unreachable e
  | .failed status _ body => .failed status body
  | .notJson e | .null e | .notObject e => .undecodable e
  | .noEntries e | .nullEntries e | .badEntries e => .undecodable e
  | .set entries => .set entries

/-- The peers, each with its answer. -/
abbrev Answers := List (String × PeerAnswer)

variable {ν : Type} (C : ClientCrates ν) (trustId : TrustId)

/-- The peer serves the set of the id. -/
def serves (x : String × PeerAnswer) : Bool :=
  match x.2 with
  | .set entries => decide ((C.computeTrustSet entries).id = trustId)
  | _ => false

end Answers

section Clients

/-- How the other clients fail: with a `FabricError`, or an exception of Python. -/
inductive Failure
  | fabric (code message : String) (status : Option UInt16)
  | attributeError
deriving DecidableEq

/-- The clients. -/
inductive Binding
  | rust
  | javascript
  | go
  | python
deriving DecidableEq

/-- The hex text of an id. -/
def toHex (b : Bytes) : String :=
  Hex.encode b

/-- One round of the loop in `fetchAnchors` of the JavaScript client. -/
def javascriptAttempt (x : String × PeerAnswer) : Attempt Failure (List RootAnchor) :=
  match x.2 with
  | .unreachable e => .skip (.fabric "http" ("http error: " ++ e) none)
  | .failed status _ body =>
      .skip (.fabric "relay" ("relay error (" ++ status.toNat.repr ++ "): " ++ body) (some status))
  | .notJson e | .null e | .notObject e => .skip (.fabric "http" ("http error: " ++ e) none)
  | .noEntries e | .nullEntries e | .badEntries e =>
      .skip (.fabric "http" ("http error: " ++ e) none)
  | .set entries => .done entries

/-- One round of the loop in `fetchAnchors` of the Go client; it decodes `null` into an
empty object. -/
def goAttempt (x : String × PeerAnswer) : Attempt Failure (List RootAnchor) :=
  match x.2 with
  | .unreachable e => .skip (.fabric "http" e none)
  | .failed status _ body => .skip (.fabric "relay" body (some status))
  | .notJson _ | .notObject _ => .skip (.fabric "decode" "invalid anchor response" none)
  | .null _ | .noEntries _ =>
      .skip (.fabric "decode" "missing entries in anchor response" none)
  | .nullEntries e | .badEntries e => .skip (.fabric "decode" ("parsing anchors: " ++ e) none)
  | .set entries => .done entries

/-- One round of the loop in `_fetch_anchors` of the Python client; `urlopen` raises for a
failed status, and `body.get` for a body that is not an object. -/
def pythonAttempt (x : String × PeerAnswer) : Attempt Failure (List RootAnchor) :=
  match x.2 with
  | .unreachable e | .notJson e => .skip (.fabric "http" e none)
  | .failed status reason _ =>
      .skip (.fabric "http" ("HTTP Error " ++ status.toNat.repr ++ ": " ++ reason) none)
  | .null _ | .notObject _ => .stop .attributeError
  | .noEntries _ | .nullEntries _ =>
      .skip (.fabric "decode" "missing entries in anchor response" none)
  | .badEntries e => .skip (.fabric "decode" ("parsing anchors: " ++ e) none)
  | .set entries => .done entries

variable {ν : Type} (C : ClientCrates ν) (idText : String)

/-- `fetchAnchors` and the check after it, which `updateAnchors` makes. -/
def fetchThenCheck (attempt : String × PeerAnswer → Attempt Failure (List RootAnchor))
    (answers : Answers) : Except Failure (List RootAnchor) :=
  match firstDone attempt (.fabric "no_peers" "no peers available" none) answers with
  | .error e => .error e
  | .ok entries =>
      if toHex (C.computeTrustSet entries).id.val ≠ idText then
        .error (.fabric "decode" "anchor root mismatch" none)
      else .ok entries

/-- What the Rust client gets from the `i`-th peer. -/
def rustGet (answers : Answers) (i : ℕ) (_ : String) : AnchorAnswer :=
  ((answers[i]?).map (fun x => x.2.toRust)).getD (.unreachable "")

/-- `fetch_anchor_set` of the Rust client, for the id that `TrustId::from_str` reads. -/
def rustDownload (answers : Answers) : Except ClientError (List RootAnchor) := do
  let trustId ← hexHeader C 32 (.decode "Invalid string length") idText
  (fetchAnchorSet C (rustGet answers) trustId (answers.map Prod.fst)).map AnchorBundle.anchors

/-- The set that a client downloads, or how it fails. -/
def download (b : Binding) (answers : Answers) :
    Except (ClientError ⊕ Failure) (List RootAnchor) :=
  match b with
  | .rust => (rustDownload C idText answers).mapError .inl
  | .javascript => (fetchThenCheck C idText javascriptAttempt answers).mapError .inr
  | .go => (fetchThenCheck C idText goAttempt answers).mapError .inr
  | .python => (fetchThenCheck C idText pythonAttempt answers).mapError .inr

/-- An update of a client's anchors: the set is downloaded, then pinned. -/
def update {σ : Type}
    (pin : List RootAnchor → σ → Except (ClientError ⊕ Failure) Unit × σ)
    (b : Binding) (answers : Answers) (s : σ) : Except (ClientError ⊕ Failure) Unit × σ :=
  match download C idText b answers with
  | .ok entries => pin entries s
  | .error e => (.error e, s)

end Clients

section Liars

variable {ν : Type} (C : ClientCrates ν) (trustId : TrustId) (idText : String)

/-- Wherever a peer serves the set the client downloads it; otherwise an update fails and
changes nothing. -/
structure SurvivesLiars (b : Binding) (answers : Answers) : Prop where
  served : (∃ x ∈ answers, serves C trustId x = true) →
    ∃ entries, download C idText b answers = .ok entries ∧
      (C.computeTrustSet entries).id = trustId
  unserved : (∀ x ∈ answers, serves C trustId x = false) →
    ∀ (σ : Type) (pin : List RootAnchor → σ → Except (ClientError ⊕ Failure) Unit × σ) (s : σ),
      ∃ e, update C idText pin b answers s = (.error e, s)

/-- The answer is a set. -/
def isSet (x : String × PeerAnswer) : Bool :=
  match x.2 with
  | .set _ => true
  | _ => false

/-- The answer is JSON, and not an object. -/
def isNotObject (x : String × PeerAnswer) : Bool :=
  match x.2 with
  | .null _ | .notObject _ => true
  | _ => false

/-- The answer makes the client leave its loop. -/
def leavesLoop (b : Binding) (x : String × PeerAnswer) : Bool :=
  match b with
  | .rust => serves C trustId x
  | .javascript | .go => isSet x
  | .python => isSet x || isNotObject x

/-- The client takes the text for the id: the Rust client always, the others if it is in
lower case. -/
def Reads (b : Binding) : Prop :=
  b = .rust ∨ idText = toHex trustId.val

/-- If a peer serves the set, so does the first that makes the client leave its loop, and the
client takes the text for the id. -/
def LeavesWithSet (b : Binding) (answers : Answers) : Prop :=
  (∃ x ∈ answers, serves C trustId x = true) →
    Reads trustId idText b ∧
      ∃ x, answers.find? (leavesLoop C trustId b) = some x ∧ serves C trustId x = true

variable {C trustId idText}

theorem serves_iff
    {x : String × PeerAnswer} :
    serves C trustId x = true ↔
      ∃ entries, x.2 = .set entries ∧ (C.computeTrustSet entries).id = trustId := by
  unfold serves
  cases x.2 <;> simp

/-- A text names one id. -/
theorem id_eq_of_toHex
    (hhex : ∀ bytes, C.hexDecode (toHex bytes) = .ok bytes)
    (hparse : C.hexDecode idText = .ok trustId.val)
    {id : Hash32}
    (h : toHex id.val = idText) :
    id = trustId := by
  have hid := hhex id.val
  rw [h, hparse] at hid
  exact Subtype.ext (Except.ok.inj hid).symm

/-- The clients that check after their loop get the set that made them leave it. -/
theorem fetchThenCheck_eq_ok
    {attempt : String × PeerAnswer → Attempt Failure (List RootAnchor)}
    {leaves : String × PeerAnswer → Bool}
    (hleaves : ∀ x, (attempt x).decides = leaves x)
    (hset : ∀ x entries, attempt x = .done entries ↔ x.2 = .set entries)
    {answers : Answers}
    {entries : List RootAnchor} :
    fetchThenCheck C idText attempt answers = .ok entries ↔
      ∃ x, answers.find? leaves = some x ∧ x.2 = .set entries ∧
        toHex (C.computeTrustSet entries).id.val = idText := by
  have hdecides : (fun x => (attempt x).decides) = leaves :=
    funext hleaves
  have hscan : fetchThenCheck C idText attempt answers = .ok entries ↔
      firstDone attempt (.fabric "no_peers" "no peers available" none) answers = .ok entries ∧
        toHex (C.computeTrustSet entries).id.val = idText := by
    unfold fetchThenCheck
    cases firstDone attempt (.fabric "no_peers" "no peers available" none) answers with
    | error e =>
        simp
    | ok entries' =>
        dsimp only
        rw [Except.ok.injEq]
        split_ifs with hid
        · constructor
          · intro h
            cases h
          · rintro ⟨rfl, hid'⟩
            exact absurd hid' hid
        · constructor
          · rintro ⟨⟩
            exact ⟨rfl, not_not.1 hid⟩
          · rintro ⟨rfl, _⟩
            rfl
  rw [hscan, firstDone_eq_ok, hdecides]
  constructor
  · rintro ⟨⟨x, hfind, hdone⟩, hid⟩
    exact ⟨x, hfind, (hset x entries).1 hdone, hid⟩
  · rintro ⟨x, hfind, hx, hid⟩
    exact ⟨⟨x, hfind, (hset x entries).2 hx⟩, hid⟩

/-- A set that such a client gets has the id, and the text is in lower case. -/
theorem checks_iff
    (hhex : ∀ bytes, C.hexDecode (toHex bytes) = .ok bytes)
    (hparse : C.hexDecode idText = .ok trustId.val)
    {id : Hash32} :
    toHex id.val = idText ↔ idText = toHex trustId.val ∧ id = trustId := by
  constructor
  · intro h
    have hid := id_eq_of_toHex hhex hparse h
    exact ⟨hid ▸ h.symm, hid⟩
  · rintro ⟨rfl, rfl⟩
    rfl

/-- **The Rust client takes the first peer that serves the set.** -/
theorem fetchAnchorSetFrom_eq_ok
    {get : ℕ → String → AnchorAnswer}
    {i : ℕ}
    {last : Option ClientError}
    {answers : Answers}
    (hget : ∀ j x, answers[j]? = some x → get (i + j) x.1 = x.2.toRust)
    {ab : AnchorBundle} :
    fetchAnchorSetFrom C get trustId i last (answers.map Prod.fst) = .ok ab ↔
      ∃ x entries, answers.find? (serves C trustId) = some x ∧ x.2 = .set entries ∧
        ab = ⟨C.computeTrustSet entries, entries⟩ := by
  induction answers generalizing i last with
  | nil =>
      simp [fetchAnchorSetFrom]
  | cons x answers ih =>
      have hfirst : get i x.1 = x.2.toRust := hget 0 x rfl
      have hrest : ∀ j y, answers[j]? = some y → get (i + 1 + j) y.1 = y.2.toRust := by
        intro j y hy
        rw [Nat.add_right_comm]
        exact hget (j + 1) y hy
      rw [List.map_cons, fetchAnchorSetFrom, hfirst]
      by_cases hserves : serves C trustId x = true
      · obtain ⟨entries, hset, hid⟩ := serves_iff.1 hserves
        rw [List.find?_cons_of_pos hserves, hset]
        simp [PeerAnswer.toRust, hid, hset, eq_comm]
      · rw [List.find?_cons_of_neg hserves]
        cases hx : x.2 with
        | set entries =>
            have hid : ¬ (C.computeTrustSet entries).id = trustId :=
              fun hid => hserves (serves_iff.2 ⟨entries, hx, hid⟩)
            dsimp only [PeerAnswer.toRust]
            rw [if_pos hid]
            exact ih hrest
        | _ =>
            exact ih hrest

/-- What the Rust client downloads under a text that it reads. -/
theorem rustDownload_eq_ok
    (hparse : C.hexDecode idText = .ok trustId.val)
    {answers : Answers}
    {entries : List RootAnchor} :
    rustDownload C idText answers = .ok entries ↔
      ∃ x, answers.find? (serves C trustId) = some x ∧ x.2 = .set entries := by
  have hget : ∀ j x, answers[j]? = some x → rustGet answers (0 + j) x.1 = x.2.toRust := by
    intro j x hx
    unfold rustGet
    rw [Nat.zero_add, hx]
    rfl
  have hid : hexHeader C 32 (.decode "Invalid string length") idText = .ok trustId := by
    unfold hexHeader
    rw [hparse]
    dsimp only
    rw [toArray, dif_pos trustId.property]
  have hfetch : rustDownload C idText answers = .ok entries ↔
      ∃ ab, fetchAnchorSet C (rustGet answers) trustId (answers.map Prod.fst) = .ok ab ∧
        ab.anchors = entries := by
    unfold rustDownload
    rw [hid, Fallible.ok_bind]
    cases fetchAnchorSet C (rustGet answers) trustId (answers.map Prod.fst) <;>
      simp [Except.map]
  rw [hfetch]
  unfold fetchAnchorSet
  simp only [fetchAnchorSetFrom_eq_ok hget]
  constructor
  · rintro ⟨_, ⟨x, entries', hfind, hset, rfl⟩, rfl⟩
    exact ⟨x, hfind, hset⟩
  · rintro ⟨x, hfind, hset⟩
    exact ⟨_, ⟨x, entries, hfind, hset, rfl⟩, rfl⟩

/-- **What a client downloads** is the set that makes it leave its loop, if it takes the text
for the id. -/
theorem download_eq_ok
    (hhex : ∀ bytes, C.hexDecode (toHex bytes) = .ok bytes)
    (hparse : C.hexDecode idText = .ok trustId.val)
    {b : Binding}
    {answers : Answers}
    {entries : List RootAnchor} :
    download C idText b answers = .ok entries ↔
      Reads trustId idText b ∧
        ∃ x, answers.find? (leavesLoop C trustId b) = some x ∧ x.2 = .set entries ∧
          (C.computeTrustSet entries).id = trustId := by
  -- the clients that check after their loop
  have hafter : ∀ {c : Binding} {leaves : String × PeerAnswer → Bool}, c ≠ .rust →
      ((∃ x, answers.find? leaves = some x ∧ x.2 = .set entries ∧
        toHex (C.computeTrustSet entries).id.val = idText) ↔
      Reads trustId idText c ∧ ∃ x, answers.find? leaves = some x ∧ x.2 = .set entries ∧
        (C.computeTrustSet entries).id = trustId) := by
    intro c leaves hc
    have hreads : Reads trustId idText c ↔ idText = toHex trustId.val :=
      or_iff_right hc
    rw [hreads]
    simp only [checks_iff hhex hparse]
    constructor
    · rintro ⟨x, hfind, hx, htext, hid⟩
      exact ⟨htext, x, hfind, hx, hid⟩
    · rintro ⟨htext, x, hfind, hx, hid⟩
      exact ⟨x, hfind, hx, htext, hid⟩
  cases b with
  | rust =>
      refine Fallible.mapError_eq_ok.trans ((rustDownload_eq_ok hparse).trans ?_)
      constructor
      · rintro ⟨x, hfind, hset⟩
        obtain ⟨entries', hset', hid⟩ := serves_iff.1 (List.find?_some hfind)
        rw [hset] at hset'
        cases hset'
        exact ⟨Or.inl rfl, x, hfind, hset, hid⟩
      · rintro ⟨_, x, hfind, hset, _⟩
        exact ⟨x, hfind, hset⟩
  | javascript =>
      exact (Fallible.mapError_eq_ok.trans (fetchThenCheck_eq_ok
        (fun x => by unfold javascriptAttempt leavesLoop isSet; cases x.2 <;> rfl)
        (fun x entries => by unfold javascriptAttempt; cases x.2 <;> simp))).trans
          (hafter (by decide))
  | go =>
      exact (Fallible.mapError_eq_ok.trans (fetchThenCheck_eq_ok
        (fun x => by unfold goAttempt leavesLoop isSet; cases x.2 <;> rfl)
        (fun x entries => by unfold goAttempt; cases x.2 <;> simp))).trans
          (hafter (by decide))
  | python =>
      exact (Fallible.mapError_eq_ok.trans (fetchThenCheck_eq_ok
        (fun x => by unfold pythonAttempt leavesLoop isSet isNotObject; cases x.2 <;> rfl)
        (fun x entries => by unfold pythonAttempt; cases x.2 <;> simp))).trans
          (hafter (by decide))

/-- Under an id that is spelt otherwise, the other clients take nothing from any peer. -/
theorem download_ne_ok_of_spelling
    (hhex : ∀ bytes, C.hexDecode (toHex bytes) = .ok bytes)
    (hparse : C.hexDecode idText = .ok trustId.val)
    {b : Binding}
    (hb : b ≠ .rust)
    (hspelling : idText ≠ toHex trustId.val)
    (answers : Answers)
    (entries : List RootAnchor) :
    download C idText b answers ≠ .ok entries := by
  intro hok
  obtain ⟨hrust | hlower, _⟩ := (download_eq_ok hhex hparse).1 hok
  · exact hb hrust
  · exact hspelling hlower

/-- **A client survives lying peers exactly if it leaves its loop with the set** and takes the
caller's text for the id, as the Rust client always does. -/
theorem survivesLiars_iff
    (hhex : ∀ bytes, C.hexDecode (toHex bytes) = .ok bytes)
    (hparse : C.hexDecode idText = .ok trustId.val)
    (answers : Answers) :
    (∀ b, SurvivesLiars C trustId idText b answers ↔
        LeavesWithSet C trustId idText b answers) ∧
      SurvivesLiars C trustId idText .rust answers := by
  have hiff : ∀ b, SurvivesLiars C trustId idText b answers ↔
      LeavesWithSet C trustId idText b answers := by
    intro b
    constructor
    · intro h hserved
      obtain ⟨entries, hok, _⟩ := h.served hserved
      obtain ⟨hreads, x, hfind, hset, hid⟩ := (download_eq_ok hhex hparse).1 hok
      exact ⟨hreads, x, hfind, serves_iff.2 ⟨entries, hset, hid⟩⟩
    · intro h
      constructor
      · intro hserved
        obtain ⟨hreads, x, hfind, hx⟩ := h hserved
        obtain ⟨entries, hset, hid⟩ := serves_iff.1 hx
        exact ⟨entries, (download_eq_ok hhex hparse).2 ⟨hreads, x, hfind, hset, hid⟩, hid⟩
      · intro hunserved σ pin s
        unfold update
        cases hdownload : download C idText b answers with
        | error e =>
            exact ⟨e, rfl⟩
        | ok entries =>
            obtain ⟨_, x, hfind, hset, hid⟩ := (download_eq_ok hhex hparse).1 hdownload
            have hno := hunserved x (List.mem_of_find?_eq_some hfind)
            rw [serves_iff.2 ⟨entries, hset, hid⟩] at hno
            cases hno
  refine ⟨hiff, (hiff .rust).2 (fun hserved => ⟨Or.inl rfl, ?_⟩)⟩
  obtain ⟨x, hx, hserves⟩ := hserved
  cases hfind : answers.find? (leavesLoop C trustId .rust) with
  | none =>
      exact absurd hserves (List.find?_eq_none.1 hfind x hx)
  | some y =>
      exact ⟨y, rfl, List.find?_some hfind⟩

/-- The toy id of a set of `n` anchors. -/
def sampleId (n : UInt8) : TrustId :=
  byteHash n

/-- A peer that does not answer before one that serves the set: the clients get it. -/
theorem survivesLiars_iff_sample :
    let answers := [("https://down", PeerAnswer.unreachable "timeout"),
      ("https://relay", .set [⟨[], 5⟩])]
    let survives (b : Binding) :=
      SurvivesLiars ClientCrates.sample (sampleId 1) (toHex (sampleId 1).val) b answers
    survives .javascript ∧ survives .go ∧ survives .python := by
  intro answers survives
  have hall : ∀ b, survives b := by
    intro b
    refine ((survivesLiars_iff sampleHexDecode_encode (sampleHexDecode_encode _) _).1 b).2
      (fun _ => ⟨Or.inr rfl, ("https://relay", .set [⟨[], 5⟩]), ?_, by decide⟩)
    cases b <;> rfl
  exact ⟨hall .javascript, hall .go, hall .python⟩

/-- A peer that serves another set before one that serves the right one. -/
def liarFirst : Answers :=
  [("https://liar", .set [⟨[], 5⟩, ⟨[], 4⟩]), ("https://relay", .set [⟨[], 5⟩])]

/-- The JavaScript client fails on the first peer's set and never asks the second. -/
theorem liar_blocks_download :
    ¬ ∀ (C : ClientCrates (List RootAnchor)) (trustId : TrustId) (idText : String) (b : Binding)
      (answers : Answers), (∀ bytes, C.hexDecode (toHex bytes) = .ok bytes) →
      C.hexDecode idText = .ok trustId.val → SurvivesLiars C trustId idText b answers := by
  intro h
  obtain ⟨entries, hok, _⟩ := (h ClientCrates.sample (sampleId 1) (toHex (sampleId 1).val)
    .javascript liarFirst sampleHexDecode_encode (sampleHexDecode_encode _)).served
      ⟨_, List.mem_cons_of_mem _ List.mem_cons_self, by decide⟩
  have hfail : (download ClientCrates.sample (toHex (sampleId 1).val)
      .javascript liarFirst).toOption = none := by
    decide
  rw [hok] at hfail
  cases hfail

end Liars

end AnchorDownload
end CertRelay
