import Mathlib.Data.List.Sort
import Mathlib.Tactic.SplitIfs

/-!
# The oldest elements

The first elements of a list that is sorted by age: only few elements of the list can be
older than one of them, and they hold an element of a kind if not too many of the others
come before it.
-/

namespace CertRelay
namespace Oldest

universe u

variable {α : Type u} {age : α → ℕ}

/-- In a sorted list the first elements come before the others. -/
theorem rel_of_mem_take_of_mem_drop
    {r : α → α → Prop}
    {l : List α}
    (hl : l.Pairwise r)
    {k : ℕ}
    {x y : α}
    (hx : x ∈ l.take k)
    (hy : y ∈ l.drop k) :
    r x y := by
  rw [← List.take_append_drop k l] at hl
  exact (List.pairwise_append.1 hl).2.2 x hx y hy

/-- Fewer than `k` elements are older than one of the first `k`. -/
theorem length_older_lt
    {l : List α}
    (hl : l.Pairwise (fun a b => age a ≤ age b))
    {k : ℕ}
    {x : α}
    (hx : x ∈ l.take k) :
    (l.filter (fun a => decide (age a < age x))).length < k := by
  have hdrop : (l.drop k).filter (fun a => decide (age a < age x)) = [] := by
    refine List.filter_eq_nil_iff.2 (fun b hb => ?_)
    have hle : age x ≤ age b := rel_of_mem_take_of_mem_drop hl hx hb
    simpa using hle
  have htake : ((l.take k).filter (fun a => decide (age a < age x))).length <
      (l.take k).length :=
    List.length_filter_lt_length_iff_exists.2 ⟨x, hx, by simp⟩
  calc (l.filter (fun a => decide (age a < age x))).length
      = ((l.take k).filter (fun a => decide (age a < age x))).length := by
        rw [← List.take_append_drop k l, List.filter_append, hdrop, List.append_nil,
          List.take_append_drop]
    _ < (l.take k).length := htake
    _ ≤ k := List.length_take_le k l

/-- Whether one of the first `k` elements does not satisfy `p` is a matter of how many come
before the first that does not. -/
theorem exists_mem_take_iff
    (p : α → Bool)
    (l : List α)
    (k : ℕ) :
    (∃ x ∈ l.take k, p x = false) ↔
      (∃ x ∈ l, p x = false) ∧ (l.takeWhile p).length < k := by
  induction l generalizing k with
  | nil =>
      simp
  | cons a l ih =>
      cases k with
      | zero =>
          simp
      | succ k =>
          cases ha : p a with
          | false =>
              simp [ha]
          | true =>
              simp [ha, ih]

end Oldest
end CertRelay
