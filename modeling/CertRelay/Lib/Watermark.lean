import Mathlib.Data.Set.Basic

/-!
# Marks over a numbered source

A source numbers its items from one counter.  Items may leave at any time; those that
enter are numbered past the counter.  A reader works through the numbers and keeps a
mark up to which it is done.  The source changes while the reader works.

**Results.**
* `Covers.grow`, `Segment.grow`: what was covered or read stays so as the source grows;
* `Covers.extend`: a mark moves to the end of a segment that was read from it;
* `Covers.of_le`: a mark may be taken back.
-/

namespace CertRelay
namespace Watermark

universe u

/-- The items that a source holds, and the last number it gave out. -/
structure Source (ρ : Type u) where
  stored : Set ρ
  counter : ℕ

variable {ρ : Type u} {seq : ρ → ℕ}

/-- Items leave, and those that enter are numbered past the counter. -/
structure Grows (seq : ρ → ℕ) (a b : Source ρ) : Prop where
  counter_le : a.counter ≤ b.counter
  stored_of : ∀ r ∈ b.stored, r ∈ a.stored ∨ a.counter < seq r

theorem Grows.refl
    (a : Source ρ) :
    Grows seq a a :=
  ⟨le_rfl, fun _ hr => Or.inl hr⟩

/-- The mark is within the source, and every stored item up to it is done. -/
structure Covers (seq : ρ → ℕ) (a : Source ρ) (done : Set ρ) (mark : ℕ) : Prop where
  le_counter : mark ≤ a.counter
  mem_done : ∀ r ∈ a.stored, seq r ≤ mark → r ∈ done

/-- Every stored item between two positions is in a part. -/
structure Segment (seq : ρ → ℕ) (a : Source ρ) (c n : ℕ) (part : Set ρ) : Prop where
  le_counter : n ≤ a.counter
  mem_part : ∀ r ∈ a.stored, c < seq r → seq r ≤ n → r ∈ part

variable {a b : Source ρ} {done done' part : Set ρ} {c n : ℕ}

theorem covers_zero
    (hpos : ∀ r ∈ a.stored, 0 < seq r) :
    Covers seq a done 0 := by
  refine ⟨Nat.zero_le _, fun r hr hle => ?_⟩
  exact absurd (hpos r hr) (not_lt.2 hle)

/-- **What was covered stays covered.** -/
theorem Covers.grow
    (h : Covers seq a done n)
    (hgrows : Grows seq a b)
    (hdone : done ⊆ done') :
    Covers seq b done' n := by
  refine ⟨h.le_counter.trans hgrows.counter_le, fun r hr hle => ?_⟩
  rcases hgrows.stored_of r hr with hold | hnew
  · exact hdone (h.mem_done r hold hle)
  · exact absurd (hle.trans h.le_counter) (not_le.2 hnew)

/-- **What was read stays what there is.** -/
theorem Segment.grow
    (h : Segment seq a c n part)
    (hgrows : Grows seq a b) :
    Segment seq b c n part := by
  refine ⟨h.le_counter.trans hgrows.counter_le, fun r hr hlt hle => ?_⟩
  rcases hgrows.stored_of r hr with hold | hnew
  · exact h.mem_part r hold hlt hle
  · exact absurd (hle.trans h.le_counter) (not_le.2 hnew)

/-- A mark may be taken back. -/
theorem Covers.of_le
    (h : Covers seq a done n)
    (hle : c ≤ n) :
    Covers seq a done c :=
  ⟨hle.trans h.le_counter, fun r hr hr' => h.mem_done r hr (hr'.trans hle)⟩

/-- **A mark moves to the end of a segment** once the segment is done. -/
theorem Covers.extend
    (h : Covers seq a done c)
    (hsegment : Segment seq a c n part)
    (hpart : part ⊆ done) :
    Covers seq a done n := by
  refine ⟨hsegment.le_counter, fun r hr hle => ?_⟩
  by_cases hbefore : seq r ≤ c
  · exact h.mem_done r hr hbefore
  · exact hpart (hsegment.mem_part r hr (not_le.1 hbefore) hle)

end Watermark
end CertRelay
