import Mathlib.Data.Finset.Card
import Mathlib.Data.Finset.Dedup
import Mathlib.Data.List.Infix

/-!
# Recency windows

What remains of a history when only its last part is remembered: few elements, but either all
that ever occurred or enough distinct ones.

**Results.**
* `IsWindow.mem_of_few_after`: an element with few distinct others after it is remembered.
-/

namespace CertRelay
namespace Recency

universe u

variable {α : Type u} [DecidableEq α]

/-- The last part of a history: at most `2 * cap` distinct elements, and all that occurred or
at least `cap` distinct ones. -/
structure IsWindow (cap : ℕ) (history recent : List α) : Prop where
  suffix : recent <:+ history
  atMost : recent.toFinset.card ≤ 2 * cap
  enough : (∀ a ∈ history, a ∈ recent) ∨ cap ≤ recent.toFinset.card

/-- **An element with fewer than `cap` distinct others after it is remembered.** -/
theorem IsWindow.mem_of_few_after
    {cap : ℕ}
    {history recent : List α}
    (h : IsWindow cap history recent)
    {before after : List α}
    {a : α}
    (hhistory : history = before ++ a :: after)
    (hfew : (after.toFinset.erase a).card < cap) :
    a ∈ recent := by
  rcases h.enough with hall | hcap
  · exact hall a (hhistory ▸ List.mem_append_right _ List.mem_cons_self)
  · by_contra hnot
    have hafter : recent <:+ after := by
      have hsuffix : a :: after <:+ history := hhistory ▸ List.suffix_append before _
      rcases List.suffix_or_suffix_of_suffix h.suffix hsuffix with hshort | hlong
      · rcases List.suffix_cons_iff.1 hshort with rfl | hshort
        · exact absurd List.mem_cons_self hnot
        · exact hshort
      · exact absurd (hlong.subset List.mem_cons_self) hnot
    have hsub : recent.toFinset ⊆ after.toFinset.erase a := by
      intro x hx
      rw [List.mem_toFinset] at hx
      rw [Finset.mem_erase, List.mem_toFinset]
      exact ⟨fun hxa => hnot (hxa ▸ hx), hafter.subset hx⟩
    exact absurd hfew (not_lt.2 (hcap.trans (Finset.card_le_card hsub)))

end Recency
end CertRelay
