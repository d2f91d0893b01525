import Mathlib.Data.List.Basic
import Mathlib.Algebra.Order.Ring.Int
import Mathlib.Order.Compare

/-!
# Comparisons by margins

Two elements are compared by a margin, such as the number of components in which one is
ahead less the number in which it is behind, and by a second number where the margin is zero.
A margin alone does not order the elements: three of them may each be ahead of the next.

Some elements cover others, which they are nowhere behind.  Two elements that do not cover
each other are contested: the margin weighs what speaks for the one against what speaks for
the other.  A circle takes two contests at least, so there is none if every element is
contested with one other at most.

**Results.**
* `byMargin_ne_gt_iff`: when an element is not after another;
* `Margins.covers_of_le`: among elements of which one covers the other, it is the later one;
* `lawfulOn_byMargin`: the comparison is lawful if no element is contested with two others.
-/

namespace CertRelay
namespace Ranking

universe u

variable {α : Type u}

/-- What a sort relies on, for the elements of a list. -/
structure LawfulOn (cmp : α → α → Ordering) (l : List α) : Prop where
  swap : ∀ a ∈ l, ∀ b ∈ l, cmp b a = (cmp a b).swap
  trans : ∀ a ∈ l, ∀ b ∈ l, ∀ c ∈ l, cmp a b ≠ .gt → cmp b c ≠ .gt → cmp a c ≠ .gt

theorem LawfulOn.of_subset
    {cmp : α → α → Ordering}
    {l l' : List α}
    (h : LawfulOn cmp l)
    (hsubset : l' ⊆ l) :
    LawfulOn cmp l' where
  swap a ha b hb := h.swap a (hsubset ha) b (hsubset hb)
  trans a ha b hb c hc := h.trans a (hsubset ha) b (hsubset hb) c (hsubset hc)

/-- Compare by a margin, and by a number where that is zero. -/
def byMargin (margin : α → α → ℤ) (tie : α → ℕ) (a b : α) : Ordering :=
  if margin a b ≠ 0 then compare (margin a b) 0 else compare (tie a) (tie b)

/-- The margins of a list go with a relation of covering: who covers is not behind, and is
ahead unless covered in turn. -/
structure Margins (margin : α → α → ℤ) (covers : α → α → Prop) (l : List α) : Prop where
  swap : ∀ a ∈ l, ∀ b ∈ l, margin b a = -margin a b
  nonneg : ∀ a ∈ l, ∀ b ∈ l, covers a b → 0 ≤ margin a b
  strict : ∀ a ∈ l, ∀ b ∈ l, covers a b → margin a b = 0 → covers b a
  trans : ∀ a ∈ l, ∀ b ∈ l, ∀ c ∈ l, covers a b → covers b c → covers a c

/-- Neither element covers the other. -/
def Contested (covers : α → α → Prop) (a b : α) : Prop :=
  ¬ covers a b ∧ ¬ covers b a

variable {margin : α → α → ℤ} {covers : α → α → Prop} {tie : α → ℕ} {l : List α}

theorem Contested.symm
    {a b : α}
    (h : Contested covers a b) :
    Contested covers b a :=
  ⟨h.2, h.1⟩

theorem covers_or_of_not_contested
    {a b : α}
    (h : ¬ Contested covers a b) :
    covers a b ∨ covers b a := by
  by_contra hnone
  exact h (not_or.1 hnone)

theorem byMargin_ne_gt_iff
    {a b : α} :
    byMargin margin tie a b ≠ .gt ↔
      margin a b < 0 ∨ margin a b = 0 ∧ tie a ≤ tie b := by
  unfold byMargin
  split_ifs with hzero
  · rw [ne_eq, compare_gt_iff_gt]
    omega
  · rw [ne_eq, compare_gt_iff_gt]
    omega

theorem byMargin_swap
    {a b : α}
    (h : margin b a = -margin a b) :
    byMargin margin tie b a = (byMargin margin tie a b).swap := by
  unfold byMargin
  rw [h]
  split_ifs with hneg hzero hzero
  · rcases lt_trichotomy (margin a b) 0 with hlt | heq | hgt
    · rw [compare_lt_iff_lt.2 hlt, compare_gt_iff_gt.2 (by omega)]
      rfl
    · exact absurd heq hzero
    · rw [compare_gt_iff_gt.2 hgt, compare_lt_iff_lt.2 (by omega)]
      rfl
  · omega
  · omega
  · rw [Nat.compare_swap]

/-- Of two elements of which one covers the other, the later one does. -/
theorem Margins.covers_of_le
    (h : Margins margin covers l)
    {a b : α}
    (ha : a ∈ l)
    (hb : b ∈ l)
    (hline : ¬ Contested covers a b)
    (hle : margin a b ≤ 0) :
    covers b a := by
  rcases covers_or_of_not_contested hline with hcovers | hcovers
  · have hnonneg := h.nonneg a ha b hb hcovers
    exact h.strict a ha b hb hcovers (by omega)
  · exact hcovers

/-- **The comparison is lawful if no element is contested with two others**, up to elements
of the same margins. -/
theorem lawfulOn_byMargin
    {same : α → α → Prop}
    (h : Margins margin covers l)
    (hsame : ∀ a b, same a b → ∀ c, margin a c = margin b c)
    (hcontest : ∀ a ∈ l, ∀ b ∈ l, ∀ c ∈ l,
      Contested covers a b → Contested covers b c → same a c) :
    LawfulOn (byMargin margin tie) l := by
  refine ⟨fun a ha b hb => byMargin_swap (h.swap a ha b hb), ?_⟩
  intro a ha b hb c hc hab hbc
  rw [byMargin_ne_gt_iff] at hab hbc ⊢
  have hba := h.swap a ha b hb
  have hcb := h.swap b hb c hc
  have hca := h.swap a ha c hc
  have hbb := h.swap b hb b hb
  have hcc := h.swap c hc c hc
  by_cases hcab : Contested covers a b
  · by_cases hcbc : Contested covers b c
    · -- `a` and `c` stand alike to `b`
      have heq := hsame a c (hcontest a ha b hb c hc hcab hcbc)
      have hb' := heq b
      have hc' := heq c
      omega
    · by_cases hcac : Contested covers a c
      · have heq := hsame b c (hcontest b hb a ha c hc hcab.symm hcac)
        have ha' := heq a
        have hc' := heq c
        omega
      · -- were `c` before `a`, then `a` would cover `b` by way of `c`
        by_contra hafter
        have hac := h.covers_of_le hc ha (fun hcon => hcac hcon.symm) (by omega)
        have hcbCovers := h.covers_of_le hb hc hcbc (by omega)
        exact hcab.1 (h.trans a ha c hc b hb hac hcbCovers)
  · have hbaCovers := h.covers_of_le ha hb hcab (by omega)
    by_cases hcbc : Contested covers b c
    · by_cases hcac : Contested covers a c
      · have heq := hsame a b (hcontest a ha c hc b hb hcac hcbc.symm)
        have hb' := heq b
        have hc' := heq c
        omega
      · by_contra hafter
        have hac := h.covers_of_le hc ha (fun hcon => hcac hcon.symm) (by omega)
        exact hcbc.1 (h.trans b hb a ha c hc hbaCovers hac)
    · have hcbCovers := h.covers_of_le hb hc hcbc (by omega)
      have hcaCovers := h.trans c hc b hb a ha hcbCovers hbaCovers
      have hnonneg := h.nonneg c hc a ha hcaCovers
      rcases lt_or_eq_of_le hnonneg with hlt | hzero
      · omega
      · -- all three cover each other
        have hacCovers := h.strict c hc a ha hcaCovers hzero.symm
        have hab' := h.nonneg a ha b hb (h.trans a ha c hc b hb hacCovers hcbCovers)
        have hbc' := h.nonneg b hb c hc (h.trans b hb a ha c hc hbaCovers hacCovers)
        omega

end Ranking
end CertRelay
