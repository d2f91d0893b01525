import Mathlib.Data.List.Infix
import Mathlib.Data.List.Basic

/-!
# Windows of a list

The contiguous parts of a given length, from the front.

**Results.**
* `mem_windows`: the windows are the contiguous parts of that length;
* `pairwise_windows`: their first elements are ordered as the list is.
-/

namespace CertRelay
namespace Windows

universe u

variable {α : Type u}

/-- The contiguous parts of length `n`, from the front. -/
def windows (n : ℕ) : List α → List (List α)
  | [] => []
  | a :: l => if n ≤ l.length + 1 then (a :: l).take n :: windows n l else []

theorem windows_of_lt
    {n : ℕ}
    {l : List α}
    (h : l.length < n) :
    windows n l = [] := by
  cases l with
  | nil =>
      rfl
  | cons a l =>
      exact if_neg (Nat.not_le_of_lt h)

theorem windows_of_le
    {n : ℕ}
    {a : α}
    {l : List α}
    (h : n ≤ (a :: l).length) :
    windows n (a :: l) = (a :: l).take n :: windows n l :=
  if_pos h

/-- **The windows are the contiguous parts of that length.** -/
theorem mem_windows
    {n : ℕ}
    (hn : 0 < n)
    {l w : List α} :
    w ∈ windows n l ↔ w.length = n ∧ w <:+: l := by
  induction l with
  | nil =>
      constructor
      · intro h
        cases h
      · rintro ⟨rfl, hw⟩
        rw [List.infix_nil.1 hw] at hn
        exact absurd hn (Nat.lt_irrefl 0)
  | cons a l ih =>
      by_cases hle : n ≤ (a :: l).length
      · rw [windows_of_le hle, List.mem_cons, ih, List.infix_cons_iff, List.prefix_iff_eq_take]
        constructor
        · rintro (rfl | ⟨hlength, hinfix⟩)
          · have hlength : ((a :: l).take n).length = n := List.length_take_of_le hle
            exact ⟨hlength, Or.inl (by rw [hlength])⟩
          · exact ⟨hlength, Or.inr hinfix⟩
        · rintro ⟨hlength, hfront | hinfix⟩
          · rw [hlength] at hfront
            exact Or.inl hfront
          · exact Or.inr ⟨hlength, hinfix⟩
      · rw [windows_of_lt (Nat.lt_of_not_le hle)]
        constructor
        · intro h
          cases h
        · rintro ⟨rfl, hinfix⟩
          exact absurd hinfix.length_le hle

/-- **The first elements of the windows are ordered as the list is.** -/
theorem pairwise_windows
    {n : ℕ}
    (hn : 0 < n)
    {R : α → α → Prop}
    {l : List α}
    (hl : l.Pairwise R) :
    (windows n l).Pairwise (fun v w => ∀ a ∈ v.head?, ∀ b ∈ w.head?, R a b) := by
  induction l with
  | nil =>
      exact List.Pairwise.nil
  | cons a l ih =>
      obtain ⟨ha, hl⟩ := List.pairwise_cons.1 hl
      by_cases hle : n ≤ (a :: l).length
      · rw [windows_of_le hle]
        refine List.pairwise_cons.2 ⟨fun w hw x hx b hb => ?_, ih hl⟩
        have hxa : x = a := by
          rw [List.head?_take, if_neg hn.ne', List.head?_cons] at hx
          exact (Option.some.inj hx).symm
        have hbl : b ∈ l :=
          ((mem_windows hn).1 hw).2.subset (List.mem_of_head? hb)
        rw [hxa]
        exact ha b hbl
      · rw [windows_of_lt (Nat.lt_of_not_le hle)]
        exact List.Pairwise.nil

end Windows
end CertRelay
