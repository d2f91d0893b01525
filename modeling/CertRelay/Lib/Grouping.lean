import Mathlib.Data.List.Destutter
import Mathlib.Data.List.Nodup
import Mathlib.Data.List.Sort
import Mathlib.Order.Lattice

/-!
# Grouping by a key

The elements of a list that have one of several keys, gathered key by key, and equal
neighbours in a sorted list: their search, and their removal.

**Results.**
* `flatMap_filter_perm`: grouping by distinct keys keeps every element once;
* `firstRepeated_eq_none_iff`: in a sorted list equal elements are neighbours;
* `sortedDistinct_inj`: sorted and without repetitions, a list is determined by its elements.
-/

namespace CertRelay
namespace Grouping

universe u v

section Groups

variable {α : Type u} {κ : Type v}

/-- Elements that satisfy one of two exclusive conditions, by condition. -/
theorem filter_or_perm
    {p q : α → Bool}
    {l : List α}
    (hexcl : ∀ a ∈ l, p a = true → q a = false) :
    (l.filter (fun a => p a || q a)).Perm (l.filter p ++ l.filter q) := by
  induction l with
  | nil =>
      exact List.Perm.refl _
  | cons a l ih =>
      have hrest := ih (fun b hb => hexcl b (List.mem_cons_of_mem a hb))
      cases hp : p a with
      | true =>
          have hq : q a = false := hexcl a List.mem_cons_self hp
          rw [List.filter_cons_of_pos (by simp [hp]), List.filter_cons_of_pos hp,
            List.filter_cons_of_neg (by simp [hq])]
          exact hrest.cons a
      | false =>
          cases hq : q a with
          | true =>
              rw [List.filter_cons_of_pos (by simp [hq]), List.filter_cons_of_neg (by simp [hp]),
                List.filter_cons_of_pos hq]
              exact (hrest.cons a).trans List.perm_middle.symm
          | false =>
              rw [List.filter_cons_of_neg (by simp [hp, hq]),
                List.filter_cons_of_neg (by simp [hp]), List.filter_cons_of_neg (by simp [hq])]
              exact hrest

/-- **Grouping by distinct keys keeps every element once.** -/
theorem flatMap_filter_perm
    [DecidableEq κ]
    (key : α → κ)
    {keys : List κ}
    (hkeys : keys.Nodup)
    (l : List α) :
    (keys.flatMap (fun k => l.filter (fun a => decide (key a = k)))).Perm
      (l.filter (fun a => decide (key a ∈ keys))) := by
  induction keys with
  | nil =>
      simp
  | cons k keys ih =>
      obtain ⟨hk, hkeys⟩ := List.nodup_cons.1 hkeys
      have hor : l.filter (fun a => decide (key a ∈ k :: keys)) =
          l.filter (fun a => decide (key a = k) || decide (key a ∈ keys)) :=
        List.filter_congr (fun a _ => by simp)
      have hexcl : ∀ a ∈ l, decide (key a = k) = true → decide (key a ∈ keys) = false := by
        intro a _ ha
        rw [of_decide_eq_true ha]
        exact decide_eq_false hk
      rw [List.flatMap_cons, hor]
      exact ((ih hkeys).append_left _).trans (filter_or_perm hexcl).symm

end Groups

section Neighbours

variable {α : Type u}

/-- The first element that equals the next one. -/
def firstRepeated [DecidableEq α] : List α → Option α
  | a :: b :: l => if a = b then some a else firstRepeated (b :: l)
  | _ => none

/-- **In a sorted list equal elements are neighbours.** -/
theorem firstRepeated_eq_none_iff
    [DecidableEq α]
    [PartialOrder α]
    {l : List α}
    (hsorted : l.Pairwise (· ≤ ·)) :
    firstRepeated l = none ↔ l.Nodup := by
  induction l with
  | nil =>
      simp [firstRepeated]
  | cons a l ih =>
      cases l with
      | nil =>
          simp [firstRepeated]
      | cons b l =>
          obtain ⟨ha, hrest⟩ := List.pairwise_cons.1 hsorted
          unfold firstRepeated
          by_cases hab : a = b
          · subst hab
            simp
          · rw [if_neg hab, ih hrest, List.nodup_cons (a := a)]
            have hnew : a ∉ b :: l := by
              intro hmem
              rcases List.mem_cons.1 hmem with heq | hmem
              · exact hab heq
              · have hba : b ≤ a := (List.pairwise_cons.1 hrest).1 a hmem
                exact hab (le_antisymm (ha b List.mem_cons_self) hba)
            exact ⟨fun h => ⟨hnew, h⟩, fun h => h.2⟩

end Neighbours

section SortedDistinct

variable {α : Type u} [LinearOrder α]

/-- The elements of a list in order, each once. -/
def sortedDistinct (l : List α) : List α :=
  (l.insertionSort (· ≤ ·)).destutter (· ≠ ·)

theorem sortedDistinct_eq_dedup
    (l : List α) :
    sortedDistinct l = (l.insertionSort (· ≤ ·)).dedup :=
  (List.pairwise_insertionSort (· ≤ ·) l).destutter_eq_dedup

@[simp] theorem mem_sortedDistinct
    {l : List α}
    {a : α} :
    a ∈ sortedDistinct l ↔ a ∈ l := by
  rw [sortedDistinct_eq_dedup, List.mem_dedup, List.mem_insertionSort]

/-- **A sorted list without repetitions is determined by its elements.** -/
theorem sortedDistinct_inj
    {l m : List α} :
    sortedDistinct l = sortedDistinct m ↔ ∀ a, a ∈ l ↔ a ∈ m := by
  constructor
  · intro h a
    rw [← mem_sortedDistinct, h, mem_sortedDistinct]
  · intro h
    have hsorted : ∀ l : List α, (l.insertionSort (· ≤ ·)).dedup.Pairwise (· ≤ ·) :=
      fun l => (List.pairwise_insertionSort (· ≤ ·) l).sublist (List.dedup_sublist _)
    have hperm : (l.insertionSort (· ≤ ·)).dedup.Perm (m.insertionSort (· ≤ ·)).dedup := by
      refine (List.perm_ext_iff_of_nodup (List.nodup_dedup _) (List.nodup_dedup _)).2 ?_
      intro a
      simp [h a]
    rw [sortedDistinct_eq_dedup, sortedDistinct_eq_dedup]
    exact hperm.eq_of_pairwise' (hsorted l) (hsorted m)

end SortedDistinct

end Grouping
end CertRelay
