import Mathlib.Data.List.Basic

/-!
# Attempts in order

A list is tried element by element: an attempt may be skipped with an error, which is
remembered; it may end everything with an error; or it may yield a result.  If all are
skipped, the last error is the error of the whole.  A state may record what was skipped and
what was taken.

**Results.**
* `firstDone_eq_ok`: the first attempt that decides yields the result;
* `attemptAll_eq`: the state after a list whose first decisive attempt is known.
-/

namespace CertRelay
namespace Attempts

universe u v w

variable {ε : Type u} {α : Type v} {β : Type w}

/-- What one attempt comes to. -/
inductive Attempt (ε : Type u) (α : Type v)
  | skip (e : ε)
  | stop (e : ε)
  | done (a : α)

/-- The attempt decides the whole. -/
def Attempt.decides : Attempt ε α → Bool
  | .skip _ => false
  | _ => true

/-- Try the elements in order, with the error of the last attempt so far. -/
def firstDone (attempt : β → Attempt ε α) : ε → List β → Except ε α
  | last, [] => .error last
  | _, b :: rest =>
      match attempt b with
      | .skip e => firstDone attempt e rest
      | .stop e => .error e
      | .done a => .ok a

/-- **The first attempt that decides yields the result, or there is none.** -/
theorem firstDone_eq_ok
    {attempt : β → Attempt ε α}
    {last : ε}
    {l : List β}
    {a : α} :
    firstDone attempt last l = .ok a ↔
      ∃ b, l.find? (fun b => (attempt b).decides) = some b ∧ attempt b = .done a := by
  induction l generalizing last with
  | nil =>
      simp [firstDone]
  | cons b l ih =>
      unfold firstDone
      cases hb : attempt b with
      | skip e =>
          rw [List.find?_cons_of_neg (by simp [hb, Attempt.decides])]
          exact ih
      | stop e =>
          rw [List.find?_cons_of_pos (by simp [hb, Attempt.decides])]
          simp [hb]
      | done a' =>
          rw [List.find?_cons_of_pos (by simp [hb, Attempt.decides])]
          simp [hb]

/-- Whether there is a result, by what an element does to the loop. -/
theorem exists_firstDone_eq_ok
    {attempt : β → Attempt ε α}
    {ends takes : β → Bool}
    (hends : ∀ b, (attempt b).decides = ends b)
    (htakes : ∀ b, (∃ a, attempt b = .done a) ↔ takes b = true)
    (last : ε)
    (l : List β) :
    (∃ a, firstDone attempt last l = .ok a) ↔ ∃ b, l.find? ends = some b ∧ takes b = true := by
  have hdecides : (fun b => (attempt b).decides) = ends :=
    funext hends
  simp only [firstDone_eq_ok, hdecides]
  constructor
  · rintro ⟨a, b, hfind, hb⟩
    exact ⟨b, hfind, (htakes b).1 ⟨a, hb⟩⟩
  · rintro ⟨b, hfind, hb⟩
    obtain ⟨a, ha⟩ := (htakes b).2 hb
    exact ⟨a, b, hfind, ha⟩

section Recorded

variable {σ : Type*} (attempt : β → Attempt ε α) (skipped taken : β → σ → σ)

/-- Try the elements in order, and record in a state which are skipped and which is taken. -/
def attemptAll : ε → σ → List β → Except ε α × σ
  | last, s, [] => (.error last, s)
  | _, s, b :: rest =>
      match attempt b with
      | .skip e => attemptAll e (skipped b s) rest
      | .stop e => (.error e, s)
      | .done a => (.ok a, taken b s)

/-- The state after some elements are skipped. -/
def skipAll (s : σ) (l : List β) : σ :=
  l.foldl (fun s b => skipped b s) s

variable {attempt skipped taken}

/-- The record does not change the result. -/
theorem attemptAll_fst
    (last : ε)
    (s : σ)
    (l : List β) :
    (attemptAll attempt skipped taken last s l).1 = firstDone attempt last l := by
  induction l generalizing last s with
  | nil =>
      rfl
  | cons b l ih =>
      unfold attemptAll firstDone
      cases attempt b with
      | skip e =>
          exact ih e _
      | stop e =>
          rfl
      | done a =>
          rfl

/-- **What is skipped before the element that is taken is recorded, and nothing else.** -/
theorem attemptAll_eq
    {before after : List β}
    {b : β}
    {a : α}
    (hbefore : ∀ x ∈ before, (attempt x).decides = false)
    (hb : attempt b = .done a)
    (last : ε)
    (s : σ) :
    attemptAll attempt skipped taken last s (before ++ b :: after) =
      (.ok a, taken b (skipAll skipped s before)) := by
  induction before generalizing last s with
  | nil =>
      rw [List.nil_append]
      unfold attemptAll
      rw [hb]
      rfl
  | cons x before ih =>
      have hx := hbefore x List.mem_cons_self
      have hrest := ih (fun y hy => hbefore y (List.mem_cons_of_mem x hy))
      rw [List.cons_append]
      unfold attemptAll
      cases hattempt : attempt x with
      | skip e =>
          exact hrest e (skipped x s)
      | stop e =>
          rw [hattempt] at hx
          cases hx
      | done a' =>
          rw [hattempt] at hx
          cases hx

end Recorded

end Attempts
end CertRelay
