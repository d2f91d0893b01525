import Mathlib.Data.List.Basic

/-!
# Framed fields

A concatenation of fields between fixed texts.  If no field that may stand in one place is the
beginning of another, the concatenation determines all fields.

**Results.**
* `frames_inj`: equal concatenations have equal fields;
* `prefixFree_or_marker`: words of one length, and a shorter marker that begins none of them.
-/

namespace CertRelay
namespace Framing

universe u v

variable {α : Type u} {κ : Type v}

/-- No word that satisfies `P` is the beginning of another. -/
def PrefixFree (P : List α → Prop) : Prop :=
  ∀ a b, P a → P b → ∀ s t, a ++ s = b ++ t → a = b

/-- The field of each key, after what comes before it and before what comes after. -/
def frames (before : κ → List α) (after : List α) (field : κ → List α) (keys : List κ) :
    List α :=
  keys.flatMap (fun k => before k ++ (field k ++ after))

/-- **Equal concatenations have equal fields.** -/
theorem frames_inj
    {P : List α → Prop}
    (hP : PrefixFree P)
    {before : κ → List α}
    {after : List α}
    {f g : κ → List α}
    {keys : List κ}
    (hf : ∀ k ∈ keys, P (f k))
    (hg : ∀ k ∈ keys, P (g k)) :
    frames before after f keys = frames before after g keys ↔ ∀ k ∈ keys, f k = g k := by
  constructor
  · intro h
    induction keys with
    | nil =>
        exact fun k hk => absurd hk List.not_mem_nil
    | cons k keys ih =>
        unfold frames at h
        simp only [List.flatMap_cons, List.append_assoc, List.append_cancel_left_eq] at h
        have hk : f k = g k :=
          hP _ _ (hf k List.mem_cons_self) (hg k List.mem_cons_self) _ _ h
        rw [hk, List.append_cancel_left_eq, List.append_cancel_left_eq] at h
        have hrest := ih (fun x hx => hf x (List.mem_cons_of_mem k hx))
          (fun x hx => hg x (List.mem_cons_of_mem k hx)) h
        intro x hx
        rcases List.mem_cons.1 hx with rfl | hx
        · exact hk
        · exact hrest x hx
  · intro h
    exact congrArg List.flatten (List.map_congr_left (fun k hk => by rw [h k hk]))

/-- Words of one length, and a shorter marker that begins none of them. -/
theorem prefixFree_or_marker
    (n : ℕ)
    {marker : List α}
    (hmarker : marker.length < n) :
    PrefixFree (fun w => w = marker ∨ w.length = n ∧ ¬ marker <+: w) := by
  intro a b ha hb s t h
  have hword : ∀ w r, w.length = n → ¬ marker <+: w → ∀ s, marker ++ s ≠ w ++ r := by
    intro w r hlength hno s hs
    exact hno (List.prefix_of_prefix_length_le (List.prefix_append marker s)
      (hs ▸ List.prefix_append w r) (by omega))
  rcases ha with rfl | ⟨ha, hano⟩
  · rcases hb with rfl | ⟨hb, hbno⟩
    · rfl
    · exact absurd h (hword b t hb hbno s)
  · rcases hb with rfl | ⟨hb, hbno⟩
    · exact absurd h.symm (hword a s ha hano t)
    · exact List.append_inj_left h (ha.trans hb.symm)

end Framing
end CertRelay
