import Mathlib.Algebra.Group.Nat.Defs
import Mathlib.Data.Nat.Notation
import Mathlib.Tactic.Common

/-!
# Networks of addresses

The addresses whose first bits are those of a network, as written `10.0.0.0/8`, and words
masked by their first bits.  Both are facts about a quotient of the address, read as a
number, which leaves questions about ranges to linear arithmetic.

**Results.**
* `contains_iff`: the addresses of a network by a quotient;
* `Apart.not_contains`: networks that are apart have no address in common;
* `toNat_and_highMask`: a word of which only the first bits are kept.
-/

namespace CertRelay

variable {w : ℕ}

/-- The addresses that agree with `net` in the first `length` bits. -/
structure Cidr (w : ℕ) where
  net : BitVec w
  length : ℕ
deriving DecidableEq

namespace Cidr

/-- An address lies in a network. -/
def Contains (p : Cidr w) (a : BitVec w) : Prop :=
  a >>> (w - p.length) = p.net >>> (w - p.length)

instance (p : Cidr w) (a : BitVec w) : Decidable (p.Contains a) :=
  inferInstanceAs (Decidable (_ = _))

theorem contains_iff
    {p : Cidr w}
    {a : BitVec w} :
    p.Contains a ↔ a.toNat / 2 ^ (w - p.length) = p.net.toNat / 2 ^ (w - p.length) := by
  unfold Contains
  rw [← BitVec.toNat_inj, BitVec.toNat_ushiftRight, BitVec.toNat_ushiftRight,
    Nat.shiftRight_eq_div_pow, Nat.shiftRight_eq_div_pow]

/-- The addresses of a network lie in every wider one around it. -/
theorem Contains.widen
    {p : Cidr w}
    {a : BitVec w}
    (h : p.Contains a)
    {k : ℕ}
    (hk : k ≤ p.length) :
    a >>> (w - k) = p.net >>> (w - k) := by
  have hshift : w - k = (w - p.length) + (w - k - (w - p.length)) := by omega
  rw [hshift, BitVec.shiftRight_add, BitVec.shiftRight_add, show _ = _ from h]

/-- Two networks differ in bits that both fix. -/
def Apart (p q : Cidr w) : Prop :=
  p.net >>> (w - min p.length q.length) ≠ q.net >>> (w - min p.length q.length)

instance (p q : Cidr w) : Decidable (p.Apart q) :=
  inferInstanceAs (Decidable (_ ≠ _))

/-- **Networks that are apart have no address in common.** -/
theorem Apart.not_contains
    {p q : Cidr w}
    (h : p.Apart q)
    {a : BitVec w}
    (hp : p.Contains a) :
    ¬ q.Contains a := by
  intro hq
  refine h ?_
  rw [← hp.widen (Nat.min_le_left _ _), ← hq.widen (Nat.min_le_right _ _)]

/-- The mask of the first bits clears the others. -/
theorem and_highMask
    (x : BitVec w)
    (k : ℕ) :
    x &&& (BitVec.allOnes w <<< k) = (x >>> k) <<< k := by
  ext i hi
  simp only [BitVec.getElem_and, BitVec.getElem_shiftLeft, BitVec.getElem_allOnes,
    BitVec.getElem_ushiftRight]
  by_cases hk : i < k
  · simp [hk]
  · have hback : k + (i - k) = i := by omega
    simp [hk, hback, BitVec.getLsbD_eq_getElem hi]

theorem toNat_and_highMask
    (x : BitVec w)
    (k : ℕ) :
    (x &&& (BitVec.allOnes w <<< k)).toNat = x.toNat / 2 ^ k * 2 ^ k := by
  have hle : x.toNat / 2 ^ k * 2 ^ k < 2 ^ w := by
    calc x.toNat / 2 ^ k * 2 ^ k
        ≤ x.toNat := Nat.div_mul_le_self _ _
      _ < 2 ^ w := x.isLt
  rw [and_highMask, BitVec.toNat_shiftLeft, BitVec.toNat_ushiftRight, Nat.shiftRight_eq_div_pow,
    Nat.shiftLeft_eq, Nat.mod_eq_of_lt hle]

end Cidr
end CertRelay
