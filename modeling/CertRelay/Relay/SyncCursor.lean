import Mathlib.Algebra.Group.Int.Defs
import Mathlib.Algebra.Group.Nat.Defs
import Mathlib.Tactic.SplitIfs

/-!
# `SyncCursor` and its wire form

A cursor is a `u64` position in the write sequence of one relay.  It travels as a
decimal string, is read back by `u64::from_str`, and is cast to `i64` when it is
compared with `sync_seq`.

**Results.**
* `fromStr_display`: parsing inverts printing;
* `asI64_of_lt`: below `2^63` the cast is the identity;
* `parseU32_repr`: parsing inverts printing for numbers of 32 bits.
-/

namespace CertRelay

/-- A position in a relay's write sequence. -/
@[ext] structure SyncCursor where
  val : Nat
  val_lt : val < 2 ^ 64
deriving DecidableEq

namespace SyncCursor

/-- `SyncCursor(counter as u64)`. -/
def ofCounter (n : Nat) : SyncCursor :=
  ⟨n % 2 ^ 64, Nat.mod_lt _ (by decide)⟩

/-- `c.0 as i64`. -/
def asI64 (c : SyncCursor) : Int :=
  if c.val < 2 ^ 63 then c.val else (c.val : Int) - 2 ^ 64

/-- `to_string`. -/
def display (c : SyncCursor) : String :=
  c.val.repr

/-- Digits of a decimal number after an optional plus sign. -/
def digitsOf : List Char → List Char
  | '+' :: ds => ds
  | ds => ds

/-- `u64::from_str`: an optional plus sign, then at least one digit. -/
def parseU64 (s : String) : Option { n : Nat // n < 2 ^ 64 } :=
  let ds := digitsOf s.toList
  if ds.isEmpty || !ds.all Char.isDigit then none
  else
    let n := Nat.ofDigitChars 10 ds 0
    if h : n < 2 ^ 64 then some ⟨n, h⟩ else none

/-- `SyncCursor::from_str`. -/
def fromStr (s : String) : Except String SyncCursor :=
  match parseU64 s with
  | some n => .ok ⟨n.val, n.property⟩
  | none => .error "invalid cursor"

/-- No decimal digit is a plus sign. -/
theorem digitsOf_of_isDigit
    {ds : List Char}
    (h : ∀ c ∈ ds, c.isDigit = true) :
    digitsOf ds = ds := by
  unfold digitsOf
  split
  · next ds' =>
    exact absurd (h '+' (by simp)) (by decide)
  · rfl

theorem parseU64_display
    (c : SyncCursor) :
    parseU64 c.display = some ⟨c.val, c.val_lt⟩ := by
  have hdigit : ∀ d ∈ Nat.toDigits 10 c.val, d.isDigit = true :=
    fun d hd => Nat.isDigit_of_mem_toDigits (by decide) (by decide) hd
  have hself : Nat.ofDigitChars 10 (Nat.toDigits 10 c.val) 0 = c.val :=
    Nat.ofDigitChars_toDigits (by decide) (by decide)
  unfold parseU64 display
  rw [Nat.toList_repr, digitsOf_of_isDigit hdigit]
  have hall : (Nat.toDigits 10 c.val).all Char.isDigit = true :=
    List.all_eq_true.2 hdigit
  have hne : (Nat.toDigits 10 c.val).isEmpty = false := by
    rw [List.isEmpty_eq_false_iff]
    exact Nat.toDigits_ne_nil
  simp only [hall, hne, Bool.not_true, Bool.or_self, Bool.false_eq_true, if_false, hself]
  exact dif_pos c.val_lt

/-- **Parsing inverts printing.** -/
@[simp] theorem fromStr_display
    (c : SyncCursor) :
    fromStr c.display = .ok c := by
  unfold fromStr
  rw [parseU64_display]

theorem display_injective
    {c d : SyncCursor}
    (h : c.display = d.display) :
    c = d := by
  have hparse := fromStr_display c
  rw [h, fromStr_display] at hparse
  exact (Except.ok.inj hparse).symm

/-- A printed cursor is not the empty string, which parses to nothing. -/
theorem isEmpty_display
    (c : SyncCursor) :
    c.display.isEmpty = false := by
  rw [Bool.eq_false_iff]
  intro h
  have hparse := fromStr_display c
  rw [String.isEmpty_iff.1 h] at hparse
  cases hparse

theorem asI64_of_lt
    {c : SyncCursor}
    (h : c.val < 2 ^ 63) :
    c.asI64 = c.val :=
  if_pos h

theorem ofCounter_val
    {n : Nat}
    (h : n < 2 ^ 64) :
    (ofCounter n).val = n :=
  Nat.mod_eq_of_lt h

/-- The counter fits its column, and so the cursor. -/
theorem ofCounter_val_of_lt
    {n : Nat}
    (h : n < 2 ^ 63) :
    (ofCounter n).val = n :=
  ofCounter_val (by omega)

end SyncCursor

/-- `str::parse::<u32>`. -/
def parseU32 (s : String) : Option UInt32 :=
  (SyncCursor.parseU64 s).bind fun n =>
    if n.val < 2 ^ 32 then some (UInt32.ofNat n.val) else none

theorem parseU32_repr
    (n : UInt32) :
    parseU32 n.toNat.repr = some n := by
  have hword : n.toNat < 2 ^ 64 := Nat.lt_trans n.toNat_lt (by decide)
  have hparse : SyncCursor.parseU64 n.toNat.repr = some ⟨n.toNat, hword⟩ :=
    SyncCursor.parseU64_display ⟨n.toNat, hword⟩
  unfold parseU32
  rw [hparse, Option.bind_some, if_pos n.toNat_lt, UInt32.ofNat_toNat]

end CertRelay
