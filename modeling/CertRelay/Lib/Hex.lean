import Mathlib.Data.List.Basic

/-!
# Hexadecimal texts

Bytes written as two lower-case digits each.

**Results.**
* `encode_injective`: the text determines the bytes;
* `exists_digit_of_mem_encode`: it has no characters but the sixteen digits.
-/

namespace CertRelay
namespace Hex

/-- The text of some bytes. -/
def encode (bytes : List UInt8) : String :=
  String.ofList (bytes.flatMap fun b =>
    [Nat.digitChar (b.toNat / 16), Nat.digitChar (b.toNat % 16)])

theorem digitChar_inj :
    ∀ m < 16, ∀ n < 16, Nat.digitChar m = Nat.digitChar n → m = n := by
  decide

/-- **The text determines the bytes.** -/
theorem encode_injective
    {a b : List UInt8}
    (h : encode a = encode b) :
    a = b := by
  have hchars := congrArg String.toList h
  unfold encode at hchars
  rw [String.toList_ofList, String.toList_ofList] at hchars
  clear h
  induction a generalizing b with
  | nil =>
      cases b with
      | nil =>
          rfl
      | cons n b =>
          cases hchars
  | cons m a ih =>
      cases b with
      | nil =>
          cases hchars
      | cons n b =>
          simp only [List.flatMap_cons, List.cons_append, List.nil_append, List.cons.injEq]
            at hchars
          obtain ⟨hhigh, hlow, hrest⟩ := hchars
          have hm := m.toNat_lt
          have hn := n.toNat_lt
          have hdiv := digitChar_inj _ (by omega) _ (by omega) hhigh
          have hmod := digitChar_inj _ (by omega) _ (by omega) hlow
          have hmn : m = n := by
            rw [← UInt8.toNat_inj]
            omega
          rw [hmn, ih hrest]

/-- The characters of the text are digits. -/
theorem exists_digit_of_mem_encode
    {bytes : List UInt8}
    {c : Char}
    (h : c ∈ (encode bytes).toList) :
    ∃ n < 16, c = Nat.digitChar n := by
  unfold encode at h
  rw [String.toList_ofList, List.mem_flatMap] at h
  obtain ⟨b, _, hc⟩ := h
  have hb := b.toNat_lt
  rcases List.mem_pair.1 hc with rfl | rfl
  · exact ⟨_, by omega, rfl⟩
  · exact ⟨_, by omega, rfl⟩

end Hex
end CertRelay
