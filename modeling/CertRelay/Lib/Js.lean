import Mathlib.Algebra.Order.Ring.Int
import Mathlib.Data.Nat.Notation
import Mathlib.Tactic.SplitIfs

/-!
# JavaScript's `parseInt` and its integer conversions

Strings are lists of UTF-16 code units.  `parseInt` skips white space and a sign, reads as
many digits as there are and ignores the rest; its result is an integer, rounded to a
number, or not a number.  Writing a number into a typed array takes it modulo the size of
the element, and what is not a finite number as 0.
-/

namespace CertRelay
namespace Js

/-- A string, by its UTF-16 code units. -/
abbrev Str := List UInt16

/-- Text in the basic multilingual plane. -/
def Str.of (text : String) : Str :=
  text.toList.map (fun c => UInt16.ofNat c.toNat)

/-- White space and line terminators. -/
def isSpace (c : UInt16) : Bool :=
  let n := c.toNat
  (9 ≤ n && n ≤ 13) || n == 32 || n == 160 || n == 5760 || (8192 ≤ n && n ≤ 8202) ||
    n == 8232 || n == 8233 || n == 8239 || n == 8287 || n == 12288 || n == 65279

/-- The value of a digit or letter, 36 for anything else. -/
def digitValue (c : UInt16) : ℕ :=
  let n := c.toNat
  if 48 ≤ n ∧ n ≤ 57 then n - 48
  else if 97 ≤ n ∧ n ≤ 122 then n - 87
  else if 65 ≤ n ∧ n ≤ 90 then n - 55
  else 36

/-- A leading sign, true for a minus, and what follows it. -/
def dropSign : Str → Bool × Str
  | [] => (false, [])
  | c :: s => if c = 45 then (true, s) else if c = 43 then (false, s) else (false, c :: s)

/-- What follows a leading `0x` or `0X`. -/
def dropHexPrefix : Str → Str
  | a :: b :: s => if a = 48 ∧ (b = 120 ∨ b = 88) then s else a :: b :: s
  | s => s

/-- The value of some digits. -/
def ofDigits (radix : ℕ) (digits : Str) : ℕ :=
  digits.foldl (fun n c => n * radix + digitValue c) 0

/-- `parseInt(s, radix)` before it is rounded to a number; `none` is `NaN`. -/
def parseInt (radix : ℕ) (s : Str) : Option ℤ :=
  let signed := dropSign (s.dropWhile isSpace)
  let rest := if radix = 16 then dropHexPrefix signed.2 else signed.2
  let digits := rest.takeWhile (fun c => decide (digitValue c < radix))
  if digits.isEmpty then none
  else some (if signed.1 then -(ofDigits radix digits : ℤ) else ofDigits radix digits)

/-- The numbers that `parseInt` returns. -/
inductive Number
  | nan
  | infinite (negative : Bool)
  | int (z : ℤ)
deriving DecidableEq

/-- How integers become numbers.  Up to `2^53` they are exact; beyond, digits may be lost,
but no integer is rounded to one below. -/
structure Rounding where
  toNumber : ℤ → Number
  exact : ∀ z : ℤ, z.natAbs ≤ 2 ^ 53 → toNumber z = .int z
  far : ∀ z k : ℤ, toNumber z = .int k → k.natAbs < 2 ^ 53 → z = k

/-- A rounding that gives up beyond the exact integers. -/
def Rounding.sample : Rounding where
  toNumber z := if z.natAbs ≤ 2 ^ 53 then .int z else .infinite (decide (z < 0))
  exact z h := if_pos h
  far z k h _ := by
    split_ifs at h
    cases h
    rfl

/-- The number that `parseInt(s, radix)` returns. -/
def Rounding.parseNumber (rounding : Rounding) (radix : ℕ) (s : Str) : Number :=
  match parseInt radix s with
  | none => .nan
  | some z => rounding.toNumber z

/-- `ToUint32`, as `setUint32` applies it. -/
def Number.toUint32 : Number → UInt32
  | .int z => UInt32.ofNat (z % 2 ^ 32).toNat
  | _ => 0

/-- `ToUint8` of a parsed number that is exact or not a number. -/
def toUint8 : Option ℤ → UInt8
  | some z => UInt8.ofNat (z % 2 ^ 8).toNat
  | none => 0

theorem toUint32_int
    (n : UInt32) :
    (Number.int n.toNat).toUint32 = n := by
  have hlt := n.toNat_lt
  show UInt32.ofNat ((n.toNat : ℤ) % 2 ^ 32).toNat = n
  rw [Int.emod_eq_of_lt (by omega) (by omega), Int.toNat_natCast, UInt32.ofNat_toNat]

theorem toUint8_natCast
    (n : ℕ) :
    toUint8 (some (n : ℤ)) = UInt8.ofNat n := by
  show UInt8.ofNat ((n : ℤ) % 2 ^ 8).toNat = UInt8.ofNat n
  have hmod : ((n : ℤ) % 2 ^ 8).toNat = n % 2 ^ 8 := by
    omega
  rw [hmod, UInt8.ofNat_mod_size]

/-- A parsed number is a small integer exactly if that is what was written. -/
theorem Rounding.parseNumber_eq_int
    (rounding : Rounding)
    {radix : ℕ}
    {s : Str}
    {k : ℤ}
    (hk : k.natAbs < 2 ^ 53) :
    rounding.parseNumber radix s = .int k ↔ parseInt radix s = some k := by
  unfold parseNumber
  cases parseInt radix s with
  | none =>
      simp
  | some z =>
      rw [Option.some.injEq]
      constructor
      · intro h
        exact rounding.far z k h hk
      · rintro rfl
        exact rounding.exact z hk.le

section HexDigits

/-- A hex digit is a digit or a letter up to `f`. -/
theorem hexDigit_cases
    {c : UInt16}
    (h : digitValue c < 16) :
    (48 ≤ c.toNat ∧ c.toNat ≤ 57) ∨ (97 ≤ c.toNat ∧ c.toNat ≤ 102) ∨
      (65 ≤ c.toNat ∧ c.toNat ≤ 70) := by
  unfold digitValue at h
  dsimp only at h
  split_ifs at h <;> omega

/-- A hex digit is no white space, no sign and no `x`. -/
theorem hexDigit_plain
    {c : UInt16}
    (h : digitValue c < 16) :
    isSpace c = false ∧ c ≠ 45 ∧ c ≠ 43 ∧ c ≠ 120 ∧ c ≠ 88 := by
  have hcases := hexDigit_cases h
  refine ⟨?_, ?_, ?_, ?_, ?_⟩
  · rw [isSpace]
    simp only [Bool.or_eq_false_iff, Bool.and_eq_false_iff, decide_eq_false_iff_not,
      beq_eq_false_iff_ne]
    omega
  all_goals
    rintro rfl
    revert hcases
    decide

/-- **Two hex digits are read as the byte that they denote.** -/
theorem parseInt_hexDigits
    {a b : UInt16}
    (ha : digitValue a < 16)
    (hb : digitValue b < 16) :
    parseInt 16 [a, b] = some ((16 * digitValue a + digitValue b : ℕ) : ℤ) := by
  obtain ⟨hspace, hminus, hplus, _⟩ := hexDigit_plain ha
  obtain ⟨_, _, _, hx, hX⟩ := hexDigit_plain hb
  have hsign : dropSign [a, b] = (false, [a, b]) := by
    simp [dropSign, hminus, hplus]
  have hplain : dropHexPrefix [a, b] = [a, b] := by
    simp [dropHexPrefix, hx, hX]
  unfold parseInt
  rw [List.dropWhile_cons_of_neg (by simp [hspace]), hsign]
  simp [hplain, ha, hb, ofDigits, mul_comm]

end HexDigits

end Js
end CertRelay
