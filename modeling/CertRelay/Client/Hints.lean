import Mathlib.Algebra.BigOperators.Group.List.Basic
import Mathlib.Order.Compare
import CertRelay.Lib.Fallible
import CertRelay.Lib.KeyedTable

/-!
# Freshness hints

A client that wants the latest records asks several relays for hints and ranks them.  The
relay sends, as JSON, its anchor tip and for each space its epoch tip, its sequences and
the sequences of its handles by epoch.  The Rust client compares two responses component
by component; the Go, Python and Kotlin clients decode other field names and compare a
weighted sum.

JSON is modelled by its values: what a parser makes of what the serializer writes.

**Results.**
* `score_eq`: the Rust score is the number of components in which one response is ahead
  less those in which it is behind;
* `decode_encode`: what the other clients decode is the anchor tip and nothing else;
* `agreesWithRust_iff`: their comparison agrees with the Rust one exactly if the anchor
  tips are ordered as the components are, where these differ at all.
-/

namespace CertRelay
namespace Hints

structure HandleHint where
  seq : UInt64
  name : String
deriving DecidableEq

structure EpochResult where
  epoch : UInt32
  res : List HandleHint
deriving DecidableEq

structure SpaceHint where
  epochTip : UInt32
  name : String
  seq : UInt64
  delegateSeq : UInt64
  epochs : List EpochResult
deriving DecidableEq

/-- What the relay sends. -/
structure HintsResponse where
  anchorTip : UInt32
  hints : List SpaceHint
deriving DecidableEq

section Rust

/-- `cmp_score`. -/
def cmpScore (a b : ℕ) : ℤ :=
  match compare a b with
  | .gt => 1
  | .lt => -1
  | .eq => 0

/-- Sequences by handle. -/
abbrev HandleSeqs := KeyedTable (String × ℕ) Prod.fst

/-- `flatten_handles`: the greatest sequence of each handle, if it is not 0. -/
def flattenHandles (space : SpaceHint) : HandleSeqs :=
  (space.epochs.flatMap EpochResult.res).foldl
    (fun map handle =>
      if ((map.find? handle.name).map Prod.snd).getD 0 < handle.seq.toNat then
        map.insertOrReplace (handle.name, handle.seq.toNat)
      else map)
    KeyedTable.empty

/-- A handle against the handles of the other response. -/
def handleScore (other : HandleSeqs) (handle : String × ℕ) : ℤ :=
  match other.find? handle.1 with
  | some otherHandle => cmpScore handle.2 otherHandle.2
  | none => 1

/-- The handles the first response does not have. -/
def missingHandles (self other : HandleSeqs) : List (String × ℕ) :=
  other.rows.filter (fun q => (self.find? q.1).isNone)

/-- The score of a space that both responses have. -/
def sharedScore (space other : SpaceHint) : ℤ :=
  cmpScore space.epochTip.toNat other.epochTip.toNat +
    cmpScore space.seq.toNat other.seq.toNat +
    cmpScore space.delegateSeq.toNat other.delegateSeq.toNat +
    ((flattenHandles space).rows.map (handleScore (flattenHandles other))).sum -
    (missingHandles (flattenHandles space) (flattenHandles other)).length

/-- A space against the spaces of the other response. -/
def spaceScore (other : HintsResponse) (space : SpaceHint) : ℤ :=
  match other.hints.find? (fun s => s.name == space.name) with
  | none => 1
  | some otherSpace => sharedScore space otherSpace

/-- The spaces the first response does not have. -/
def missingSpaces (self other : HintsResponse) : List SpaceHint :=
  other.hints.filter (fun o => !self.hints.any (fun s => s.name == o.name))

/-- The score of one response against another. -/
def score (self other : HintsResponse) : ℤ :=
  (self.hints.map (spaceScore other)).sum - (missingSpaces self other).length

/-- `HintsResponse::cmp`; the score is kept in an `i32`, which it fits for responses of fewer
than `2^31` components (`score_fits_i32`). -/
def cmp (self other : HintsResponse) : Ordering :=
  if score self other ≠ 0 then compare (score self other) 0
  else compare self.anchorTip.toNat other.anchorTip.toNat

end Rust

section Components

/-- 1 where the first number is ahead. -/
def ahead (a b : ℕ) : ℕ :=
  if b < a then 1 else 0

def handleLead (other : HandleSeqs) (handle : String × ℕ) : ℕ :=
  match other.find? handle.1 with
  | some otherHandle => ahead handle.2 otherHandle.2
  | none => 1

def handleTrail (other : HandleSeqs) (handle : String × ℕ) : ℕ :=
  match other.find? handle.1 with
  | some otherHandle => ahead otherHandle.2 handle.2
  | none => 0

/-- The components of a shared space in which the first response is ahead. -/
def sharedLeads (space other : SpaceHint) : ℕ :=
  ahead space.epochTip.toNat other.epochTip.toNat + ahead space.seq.toNat other.seq.toNat +
    ahead space.delegateSeq.toNat other.delegateSeq.toNat +
    ((flattenHandles space).rows.map (handleLead (flattenHandles other))).sum

/-- The components of a shared space in which it is behind. -/
def sharedTrails (space other : SpaceHint) : ℕ :=
  ahead other.epochTip.toNat space.epochTip.toNat + ahead other.seq.toNat space.seq.toNat +
    ahead other.delegateSeq.toNat space.delegateSeq.toNat +
    ((flattenHandles space).rows.map (handleTrail (flattenHandles other))).sum +
    (missingHandles (flattenHandles space) (flattenHandles other)).length

/-- A space that only the first response has is one component in which it is ahead. -/
def spaceLeads (other : HintsResponse) (space : SpaceHint) : ℕ :=
  match other.hints.find? (fun s => s.name == space.name) with
  | none => 1
  | some otherSpace => sharedLeads space otherSpace

def spaceTrails (other : HintsResponse) (space : SpaceHint) : ℕ :=
  match other.hints.find? (fun s => s.name == space.name) with
  | none => 0
  | some otherSpace => sharedTrails space otherSpace

/-- The components in which the first response is ahead. -/
def leads (self other : HintsResponse) : ℕ :=
  (self.hints.map (spaceLeads other)).sum

/-- The components in which the first response is behind. -/
def trails (self other : HintsResponse) : ℕ :=
  (self.hints.map (spaceTrails other)).sum + (missingSpaces self other).length

theorem cmpScore_eq
    (a b : ℕ) :
    cmpScore a b = ahead a b - ahead b a := by
  unfold cmpScore ahead
  rcases Nat.lt_trichotomy a b with h | rfl | h
  · rw [compare_lt_iff_lt.2 h, if_neg (by omega), if_pos h]
    rfl
  · simp
  · rw [compare_gt_iff_gt.2 h, if_pos h, if_neg (by omega)]
    rfl

/-- A sum of differences. -/
theorem sum_map_sub
    {α : Type}
    {f : α → ℤ}
    {g h : α → ℕ}
    (hf : ∀ a, f a = g a - h a)
    (l : List α) :
    (l.map f).sum = (l.map g).sum - (l.map h).sum := by
  induction l with
  | nil =>
      simp
  | cons a l ih =>
      simp only [List.map_cons, List.sum_cons, ih, hf a]
      push_cast
      ring

theorem handleScore_eq
    (other : HandleSeqs)
    (handle : String × ℕ) :
    handleScore other handle = handleLead other handle - handleTrail other handle := by
  unfold handleScore handleLead handleTrail
  cases other.find? handle.1 with
  | none =>
      rfl
  | some otherHandle =>
      exact cmpScore_eq handle.2 otherHandle.2

theorem sharedScore_eq
    (space other : SpaceHint) :
    sharedScore space other = sharedLeads space other - sharedTrails space other := by
  unfold sharedScore sharedLeads sharedTrails
  rw [sum_map_sub (handleScore_eq (flattenHandles other)), cmpScore_eq, cmpScore_eq,
    cmpScore_eq]
  push_cast
  ring

theorem spaceScore_eq
    (other : HintsResponse)
    (space : SpaceHint) :
    spaceScore other space = spaceLeads other space - spaceTrails other space := by
  unfold spaceScore spaceLeads spaceTrails
  cases other.hints.find? (fun s => s.name == space.name) with
  | none =>
      rfl
  | some otherSpace =>
      exact sharedScore_eq space otherSpace

/-- **The Rust score counts the components ahead less those behind.** -/
theorem score_eq
    (self other : HintsResponse) :
    score self other = leads self other - trails self other := by
  unfold score leads trails
  rw [sum_map_sub (spaceScore_eq other)]
  push_cast
  ring

end Components

section Wire

/-- JSON values; numbers are the unsigned ones the relay writes. -/
inductive Json
  | num (n : ℕ)
  | str (s : String)
  | arr (elems : List Json)
  | obj (fields : List (String × Json))

def HandleHint.toJson (h : HandleHint) : Json :=
  .obj [("seq", .num h.seq.toNat), ("name", .str h.name)]

def EpochResult.toJson (e : EpochResult) : Json :=
  .obj [("epoch", .num e.epoch.toNat), ("res", .arr (e.res.map HandleHint.toJson))]

def SpaceHint.toJson (s : SpaceHint) : Json :=
  .obj
    [("epoch_tip", .num s.epochTip.toNat), ("name", .str s.name), ("seq", .num s.seq.toNat),
      ("delegate_seq", .num s.delegateSeq.toNat),
      ("epochs", .arr (s.epochs.map EpochResult.toJson))]

/-- The response as the relay serializes it. -/
def HintsResponse.toJson (h : HintsResponse) : Json :=
  .obj [("anchor_tip", .num h.anchorTip.toNat), ("hints", .arr (h.hints.map SpaceHint.toJson))]

/-- The value of a field, if it is there. -/
def Json.field? (name : String) : Json → Option Json
  | .obj fields => (fields.find? (fun p => p.1 == name)).map Prod.snd
  | _ => none

end Wire

section Bindings

/-- The clients that compare sums. -/
inductive Binding
  | go
  | python
  | kotlin
deriving DecidableEq

structure ClientHandleHint where
  handle : String
  seq : ℤ

structure ClientEpochResult where
  epochTip : ℤ
  handles : List ClientHandleHint

structure ClientSpaceHint where
  space : String
  epochTip : ℤ
  seq : ℤ
  delegateSeq : ℤ

/-- What these clients decode a response into. -/
structure ClientHints where
  anchorTip : ℤ
  spaces : List ClientSpaceHint
  epochs : List ClientEpochResult

/-- Numbers that fit the client's integers: 64 bits, any size, 32 bits. -/
def fitsInt (b : Binding) (n : ℕ) : Bool :=
  match b with
  | .go => n < 2 ^ 63
  | .python => true
  | .kotlin => n < 2 ^ 31

/-- Read a field, or take its default where it has one. -/
def readField {α : Type} (name : String) (read : Json → Except String α) (default : Option α)
    (j : Json) : Except String α :=
  match j.field? name, default with
  | some v, _ => read v
  | none, some a => .ok a
  | none, none => .error ("missing field " ++ name)

/-- The zero value Go gives to a missing field; the others require it. -/
def zeroInGo {α : Type} (b : Binding) (zero : α) : Option α :=
  match b with
  | .go => some zero
  | _ => none

def readInt (b : Binding) : Json → Except String ℤ
  | .num n => if fitsInt b n then .ok n else .error "number out of range"
  | _ => .error "not a number"

def readString : Json → Except String String
  | .str s => .ok s
  | _ => .error "not a string"

def readList {α : Type} (read : Json → Except String α) : Json → Except String (List α)
  | .arr elems => elems.mapM read
  | _ => .error "not a list"

def readHandleHint (b : Binding) (j : Json) : Except String ClientHandleHint := do
  let handle ← readField "handle" readString (zeroInGo b "") j
  let seq ← readField "seq" (readInt b) (zeroInGo b 0) j
  return ⟨handle, seq⟩

def readEpochResult (b : Binding) (j : Json) : Except String ClientEpochResult := do
  let epochTip ← readField "epoch_tip" (readInt b) (zeroInGo b 0) j
  let handles ← readField "handles" (readList (readHandleHint b)) (some []) j
  return ⟨epochTip, handles⟩

def readSpaceHint (b : Binding) (j : Json) : Except String ClientSpaceHint := do
  let space ← readField "space" readString (zeroInGo b "") j
  let epochTip ← readField "epoch_tip" (readInt b) (zeroInGo b 0) j
  let seq ← readField "seq" (readInt b) (zeroInGo b 0) j
  let delegateSeq ← readField "delegate_seq" (readInt b) (zeroInGo b 0) j
  return ⟨space, epochTip, seq, delegateSeq⟩

/-- `fetchHints`: decode the body; fields of other names are ignored. -/
def decode (b : Binding) (j : Json) : Except String ClientHints := do
  let anchorTip ← readField "anchor_tip" (readInt b) (some 0) j
  let spaces ← readField "spaces" (readList (readSpaceHint b)) (some []) j
  let epochs ← readField "epochs" (readList (readEpochResult b)) (some []) j
  return ⟨anchorTip, spaces, epochs⟩

/-- Integer arithmetic of the client. -/
def wrapInt (b : Binding) (n : ℤ) : ℤ :=
  match b with
  | .go => n.bmod (2 ^ 64)
  | .python => n
  | .kotlin => n.bmod (2 ^ 32)

/-- `hintsScore`. -/
def hintsScore (b : Binding) (h : ClientHints) : ℤ :=
  wrapInt b ((h.spaces.map (fun s => s.epochTip * 1000 + s.seq + s.delegateSeq)).sum +
    (h.epochs.map (fun e => e.epochTip * 100 + (e.handles.map ClientHandleHint.seq).sum)).sum)

/-- `compareHints`. -/
def compareHints (b : Binding) (x y : ClientHints) : Ordering :=
  (compare (hintsScore b x) (hintsScore b y)).then (compare x.anchorTip y.anchorTip)

/-- The client decodes both responses and orders them as the Rust client does. -/
def AgreesWithRust (b : Binding) (x y : HintsResponse) : Prop :=
  ∃ hx hy, decode b x.toJson = .ok hx ∧ decode b y.toJson = .ok hy ∧
    compareHints b hx hy = cmp x y

/-- The anchor tips are ordered as the components are, where these differ at all. -/
def TipsFollow (x y : HintsResponse) : Prop :=
  leads x y = trails x y ∨
    (trails x y < leads x y ∧ y.anchorTip < x.anchorTip) ∨
    (leads x y < trails x y ∧ x.anchorTip < y.anchorTip)

/-- **The other clients decode the anchor tip and nothing else.** -/
theorem decode_encode
    (b : Binding)
    (x : HintsResponse)
    (h : ClientHints) :
    decode b x.toJson = .ok h ↔
      fitsInt b x.anchorTip.toNat = true ∧ h = ⟨x.anchorTip.toNat, [], []⟩ := by
  have hdecode : decode b x.toJson = (do
      let anchorTip ← readInt b (.num x.anchorTip.toNat)
      return ⟨anchorTip, [], []⟩) := rfl
  rw [hdecode, readInt]
  by_cases hfits : fitsInt b x.anchorTip.toNat = true
  · rw [if_pos hfits, Fallible.ok_bind]
    simp [hfits, pure, Except.pure, eq_comm]
  · rw [if_neg hfits]
    constructor
    · intro hok
      cases hok
    · rintro ⟨hok, _⟩
      exact absurd hok hfits

/-- Comparing what is decoded compares the anchor tips. -/
theorem compareHints_tips
    (b : Binding)
    (m n : ℕ) :
    compareHints b ⟨m, [], []⟩ ⟨n, [], []⟩ = compare m n := by
  have hscore : hintsScore b ⟨m, [], []⟩ = hintsScore b ⟨n, [], []⟩ := rfl
  unfold compareHints
  rw [hscore, compare_eq_iff_eq.2 rfl]
  change compare (m : ℤ) (n : ℤ) = compare m n
  rcases Nat.lt_trichotomy m n with h | rfl | h
  · rw [compare_lt_iff_lt.2 h, compare_lt_iff_lt, Nat.cast_lt]
    exact h
  · rw [compare_eq_iff_eq.2 rfl, compare_eq_iff_eq.2 rfl]
  · rw [compare_gt_iff_gt.2 h, compare_gt_iff_gt, Nat.cast_lt]
    exact h

/-- The Rust order follows the anchor tips exactly if the components do. -/
theorem cmp_eq_tips_iff
    (x y : HintsResponse) :
    compare x.anchorTip.toNat y.anchorTip.toNat = cmp x y ↔ TipsFollow x y := by
  unfold cmp TipsFollow
  rw [score_eq, UInt32.lt_iff_toNat_lt, UInt32.lt_iff_toNat_lt]
  rcases Nat.lt_trichotomy (leads x y) (trails x y) with h | h | h
  · rw [if_pos (by omega), compare_lt_iff_lt.2 (show (leads x y : ℤ) - trails x y < 0 by omega),
      compare_lt_iff_lt]
    omega
  · rw [if_neg (by omega)]
    simp [h]
  · rw [if_pos (by omega), compare_gt_iff_gt.2 (show (leads x y : ℤ) - trails x y > 0 by omega),
      compare_gt_iff_gt]
    omega

/-- **The comparison agrees with the Rust one exactly if the anchor tips follow the
components**, and in Kotlin if they also fit 31 bits. -/
theorem agreesWithRust_iff
    (b : Binding)
    (x y : HintsResponse) :
    AgreesWithRust b x y ↔
      (b = .kotlin → x.anchorTip.toNat < 2 ^ 31 ∧ y.anchorTip.toNat < 2 ^ 31) ∧
        TipsFollow x y := by
  have hfits : ∀ z : HintsResponse, fitsInt b z.anchorTip.toNat = true ↔
      (b = .kotlin → z.anchorTip.toNat < 2 ^ 31) := by
    intro z
    have hlt := z.anchorTip.toNat_lt
    cases b with
    | kotlin =>
        simp [fitsInt]
    | go =>
        simp only [fitsInt, reduceCtorEq, false_implies, iff_true, decide_eq_true_eq]
        omega
    | python =>
        simp [fitsInt]
  unfold AgreesWithRust
  rw [← cmp_eq_tips_iff]
  constructor
  · rintro ⟨hx, hy, hdx, hdy, hcompare⟩
    obtain ⟨hfx, rfl⟩ := (decode_encode b x hx).1 hdx
    obtain ⟨hfy, rfl⟩ := (decode_encode b y hy).1 hdy
    rw [compareHints_tips] at hcompare
    exact ⟨fun hb => ⟨(hfits x).1 hfx hb, (hfits y).1 hfy hb⟩, hcompare⟩
  · rintro ⟨hkotlin, hcompare⟩
    refine ⟨_, _, (decode_encode b x _).2 ⟨(hfits x).2 fun hb => (hkotlin hb).1, rfl⟩,
      (decode_encode b y _).2 ⟨(hfits y).2 fun hb => (hkotlin hb).2, rfl⟩, ?_⟩
    rw [compareHints_tips, hcompare]

/-- A space at two sequences under one anchor tip. -/
def hintsAt (seq : UInt64) : HintsResponse :=
  ⟨5, [⟨1, "@space", seq, 0, []⟩]⟩

/-- The newer record ranks no higher in Go. -/
theorem newer_record_not_ranked :
    ¬ ∀ (b : Binding) (x y : HintsResponse), AgreesWithRust b x y := by
  intro h
  obtain ⟨hx, hy, hdx, hdy, hcompare⟩ := h .go (hintsAt 2) (hintsAt 1)
  obtain ⟨_, rfl⟩ := (decode_encode .go _ hx).1 hdx
  obtain ⟨_, rfl⟩ := (decode_encode .go _ hy).1 hdy
  exact absurd hcompare (by decide)

end Bindings

end Hints
end CertRelay
