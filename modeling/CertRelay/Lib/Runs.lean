import Mathlib.Data.Finset.Card
import Mathlib.Data.Finset.Range
import Mathlib.Logic.Function.Iterate
import Mathlib.Order.Basic

/-!
# Runs of a step function

A run folds a step function over a list of inputs.

**Results.**
* `StepsMeet.invariant`: the invariant rule for runs whose steps all meet a
  condition on the state they start from;
* `StepsMeet.counted`: the same with a counter in the invariant;
* `good_iff`: a condition that is exact for one step is exact for runs;
* `invariant_of_crashes`: the invariant rule for a program that may crash at any step
  and then starts over on what is stored;
* `exists_stretch`: where an input lies in a run that is made of stretches;
* `heard_purge`: the unwinding rule for inputs that leave no trace;
* `iterate_reaches`: steps that lower a measure until they are done get done;
* `Ascends.never_returns`: a value that changes only upwards in some measure
  never takes a value again that it has given up;
* `Ascends.changes_lt_card`: it changes fewer times than it has values.
-/

namespace CertRelay
namespace Runs

universe u v

section Invariant

variable {σ : Type u} {α : Type v} (step : σ → α → σ)

/-- Every step of the run from a state meets `cond` where it starts. -/
def StepsMeet (cond : σ → α → Prop) : σ → List α → Prop
  | _, [] => True
  | s, a :: l => cond s a ∧ StepsMeet cond (step s a) l

instance decidableStepsMeet
    {cond : σ → α → Prop}
    [∀ s a, Decidable (cond s a)] :
    ∀ (s : σ) (l : List α), Decidable (StepsMeet step cond s l)
  | _, [] => isTrue trivial
  | s, a :: l => @instDecidableAnd _ _ _ (decidableStepsMeet (step s a) l)

variable {step} {cond cond' : σ → α → Prop}

theorem stepsMeet_append
    {s : σ}
    {l l' : List α} :
    StepsMeet step cond s (l ++ l') ↔
      StepsMeet step cond s l ∧ StepsMeet step cond (l.foldl step s) l' := by
  induction l generalizing s with
  | nil =>
      simp [StepsMeet]
  | cons a l ih =>
      simp [StepsMeet, ih, and_assoc]

/-- The condition holds at each position of the run. -/
theorem StepsMeet.at
    {s : σ}
    {l : List α}
    (h : StepsMeet step cond s l)
    {before after : List α}
    {a : α}
    (hl : l = before ++ a :: after) :
    cond (before.foldl step s) a := by
  subst hl
  exact (stepsMeet_append.1 h).2.1

theorem StepsMeet.take
    {s : σ}
    {l : List α}
    (h : StepsMeet step cond s l)
    (i : ℕ) :
    StepsMeet step cond s (l.take i) := by
  rw [← List.take_append_drop i l, stepsMeet_append] at h
  exact h.1

theorem StepsMeet.getElem
    {s : σ}
    {l : List α}
    (h : StepsMeet step cond s l)
    {i : ℕ}
    (hi : i < l.length) :
    cond ((l.take i).foldl step s) l[i] :=
  h.at (by rw [List.getElem_cons_drop, List.take_append_drop])

theorem foldl_take_succ
    {s : σ}
    {l : List α}
    {i : ℕ}
    (hi : i < l.length) :
    (l.take (i + 1)).foldl step s = step ((l.take i).foldl step s) l[i] := by
  rw [List.take_succ_eq_append_getElem hi, List.foldl_append]
  rfl

/-- A condition on the inputs alone. -/
theorem stepsMeet_of_mem
    {s : σ}
    {l : List α}
    (h : ∀ a ∈ l, ∀ s, cond s a) :
    StepsMeet step cond s l := by
  induction l generalizing s with
  | nil =>
      trivial
  | cons a l ih =>
      exact ⟨h a (by simp) s, ih (fun b hb => h b (List.mem_cons_of_mem a hb))⟩

/-- An invariant that every admitted step keeps holds at the end of the run. -/
theorem StepsMeet.invariant
    {Inv : σ → Prop}
    (hstep : ∀ s a, Inv s → cond s a → Inv (step s a))
    {s : σ}
    {l : List α}
    (h : StepsMeet step cond s l)
    (hs : Inv s) :
    Inv (l.foldl step s) := by
  induction l generalizing s with
  | nil =>
      exact hs
  | cons a l ih =>
      exact ih h.2 (hstep s a hs h.1)

/-- An invariant with a counter: the run counts the inputs that `counts` selects. -/
theorem StepsMeet.counted
    {Inv : ℕ → σ → Prop}
    (counts : α → Bool)
    (hstep : ∀ k s a, Inv k s → cond s a → Inv (k + if counts a then 1 else 0) (step s a))
    {k : ℕ}
    {s : σ}
    {l : List α}
    (h : StepsMeet step cond s l)
    (hs : Inv k s) :
    Inv (k + l.countP counts) (l.foldl step s) := by
  induction l generalizing k s with
  | nil =>
      exact hs
  | cons a l ih =>
      have hnext := ih h.2 (hstep k s a hs h.1)
      rw [Nat.add_right_comm, Nat.add_assoc, ← List.countP_cons] at hnext
      exact hnext

/-- Under an invariant, a run that meets one condition meets another. -/
theorem StepsMeet.imp
    {Inv : σ → Prop}
    (hstep : ∀ s a, Inv s → cond s a → Inv (step s a))
    (himp : ∀ s a, Inv s → cond s a → cond' s a)
    {s : σ}
    {l : List α}
    (h : StepsMeet step cond s l)
    (hs : Inv s) :
    StepsMeet step cond' s l := by
  induction l generalizing s with
  | nil =>
      trivial
  | cons a l ih =>
      exact ⟨himp s a hs h.1, ih h.2 (hstep s a hs h.1)⟩

/-- **Exact conditions.**  If under an invariant a step stays good only when it meets the
condition, and keeps the invariant when it does, then a run is good throughout exactly
if all its steps meet the condition.  Only inputs of the run matter. -/
theorem good_iff_of_mem
    {I G : σ → Prop}
    {P : α → Prop}
    (hgood : ∀ s, I s → G s)
    (hneeds : ∀ s a, P a → I s → G (step s a) → cond s a)
    (hkeeps : ∀ s a, P a → I s → cond s a → I (step s a))
    {s : σ}
    {l : List α}
    (hl : ∀ a ∈ l, P a)
    (hs : I s) :
    (∀ i, G ((l.take i).foldl step s)) ↔ StepsMeet step cond s l := by
  induction l generalizing s with
  | nil =>
      simp [StepsMeet, hgood s hs]
  | cons a l ih =>
      have ha := hl a (by simp)
      have hrest := fun b hb => hl b (List.mem_cons_of_mem a hb)
      constructor
      · intro hall
        have hcond := hneeds s a ha hs (hall 1)
        exact ⟨hcond, (ih hrest (hkeeps s a ha hs hcond)).1 fun i => hall (i + 1)⟩
      · rintro ⟨hcond, hmeet⟩ i
        cases i with
        | zero =>
            exact hgood s hs
        | succ i =>
            exact (ih hrest (hkeeps s a ha hs hcond)).2 hmeet i

theorem good_iff
    {I G : σ → Prop}
    (hgood : ∀ s, I s → G s)
    (hneeds : ∀ s a, I s → G (step s a) → cond s a)
    (hkeeps : ∀ s a, I s → cond s a → I (step s a))
    {s : σ}
    {l : List α}
    (hs : I s) :
    (∀ i, G ((l.take i).foldl step s)) ↔ StepsMeet step cond s l :=
  good_iff_of_mem (P := fun _ => True) hgood (fun s a _ => hneeds s a)
    (fun s a _ => hkeeps s a) (fun _ _ => trivial) hs

/-- Collecting the inputs of a run one by one collects the run. -/
theorem foldl_concat
    (l : List α) :
    l.foldl (fun done a => done ++ [a]) [] = l := by
  rw [List.foldl_append_eq_append, List.nil_append, ← List.flatMap_def, List.flatMap_singleton']

end Invariant

section Stretches

variable {α : Type u} {β : Type v}

/-- An input of a run that is made of stretches lies in one of them. -/
theorem exists_stretch
    {f : α → List β}
    {l : List α}
    {before after : List β}
    {b : β}
    (h : l.flatMap f = before ++ b :: after) :
    ∃ l₁ a l₂ f₁ f₂, l = l₁ ++ a :: l₂ ∧ f a = f₁ ++ b :: f₂ ∧
      before = l₁.flatMap f ++ f₁ ∧ after = f₂ ++ l₂.flatMap f := by
  induction l generalizing before with
  | nil =>
      rw [List.flatMap_nil] at h
      exact absurd h.symm (by simp)
  | cons a l ih =>
      have hlater : ∀ {before'}, l.flatMap f = before' ++ b :: after → before = f a ++ before' →
          ∃ l₁ a' l₂ f₁ f₂, a :: l = l₁ ++ a' :: l₂ ∧ f a' = f₁ ++ b :: f₂ ∧
            before = l₁.flatMap f ++ f₁ ∧ after = f₂ ++ l₂.flatMap f := by
        intro before' hrest hbefore
        obtain ⟨l₁, a', l₂, f₁, f₂, rfl, ha', rfl, hafter⟩ := ih hrest
        refine ⟨a :: l₁, a', l₂, f₁, f₂, rfl, ha', ?_, hafter⟩
        rw [hbefore, List.flatMap_cons, List.append_assoc]
      rw [List.flatMap_cons] at h
      rcases List.append_eq_append_iff.1 h with ⟨rest, hbefore, hrest⟩ | ⟨rest, ha, hafter⟩
      · exact hlater hrest hbefore
      · cases rest with
        | nil =>
            have hrest : l.flatMap f = [] ++ b :: after := hafter.symm
            exact hlater hrest (by rw [ha, List.append_nil, List.append_nil])
        | cons b' rest =>
            rw [List.cons_append] at hafter
            obtain ⟨rfl, rfl⟩ := List.cons.inj hafter
            exact ⟨[], a, l, before, rest, rfl, ha, rfl, rfl⟩

end Stretches

section Iteration

variable {σ : Type u} {step : σ → σ} (Inv Done : σ → Prop) (μ : σ → ℕ)

/-- **Steps that lower a measure until they are done get done**, and stay so. -/
theorem iterate_reaches
    (hinv : ∀ s, Inv s → Inv (step s))
    (hstays : ∀ s, Inv s → Done s → Done (step s))
    (hlowers : ∀ s, Inv s → ¬ Done s → Done (step s) ∨ μ (step s) < μ s)
    {n : ℕ}
    {s : σ}
    (hs : Inv s)
    (hn : Done s ∨ μ s < n) :
    Done (step^[n] s) := by
  induction n generalizing s with
  | zero =>
      exact hn.resolve_right (Nat.not_lt_zero _)
  | succ n ih =>
      rw [Function.iterate_succ_apply]
      apply ih (hinv s hs)
      by_cases hdone : Done s
      · exact Or.inl (hstays s hs hdone)
      · have hlt := hn.resolve_left hdone
        rcases hlowers s hs hdone with hnext | hless
        · exact Or.inl hnext
        · exact Or.inr (by omega)

end Iteration

section Silence

variable {σ : Type u} {α : Type v} {β : Type v}
variable (step : σ → α → σ) (out : σ → α → β) (silent : α → Bool)

/-- What the inputs of a run put out that are not silent. -/
def heard : σ → List α → List β
  | _, [] => []
  | s, a :: l => if silent a then heard (step s a) l else out s a :: heard (step s a) l

/-- The run without its silent inputs. -/
def purge (l : List α) : List α :=
  l.filter (fun a => !silent a)

variable {step out silent} {cond : σ → α → Prop} {R : σ → σ → Prop}

theorem heard_cons
    (s : σ)
    (a : α)
    (l : List α) :
    heard step out silent s (a :: l) =
      if silent a then heard step out silent (step s a) l
      else out s a :: heard step out silent (step s a) l := by
  rfl

theorem purge_cons_silent
    {a : α}
    (ha : silent a = true)
    (l : List α) :
    purge silent (a :: l) = purge silent l :=
  List.filter_cons_of_neg (by simp [ha])

theorem purge_cons_loud
    {a : α}
    (ha : silent a = false)
    (l : List α) :
    purge silent (a :: l) = a :: purge silent l :=
  List.filter_cons_of_pos (by simp [ha])

/-- **Unwinding.**  If a silent step stays in relation with the state before it, and the
other steps put out the same from related states and keep them related, then a run is
heard as the run without its silent inputs. -/
theorem heard_purge
    (hsilent : ∀ s s' a, R s s' → cond s a → silent a = true → R (step s a) s')
    (hloud : ∀ s s' a, R s s' → cond s a → silent a = false →
      out s a = out s' a ∧ R (step s a) (step s' a))
    {s s' : σ}
    {l : List α}
    (h : StepsMeet step cond s l)
    (hs : R s s') :
    heard step out silent s l = heard step out silent s' (purge silent l) ∧
      R (l.foldl step s) ((purge silent l).foldl step s') := by
  induction l generalizing s s' with
  | nil =>
      exact ⟨rfl, hs⟩
  | cons a l ih =>
      rw [heard_cons]
      cases ha : silent a with
      | true =>
          rw [purge_cons_silent ha, if_pos rfl]
          exact ih h.2 (hsilent s s' a hs h.1 ha)
      | false =>
          obtain ⟨hout, hnext⟩ := hloud s s' a hs h.1 ha
          obtain ⟨hheard, hrun⟩ := ih h.2 hnext
          rw [purge_cons_loud ha, heard_cons, ha, if_neg Bool.false_ne_true,
            if_neg Bool.false_ne_true, hout, hheard]
          exact ⟨rfl, hrun⟩

end Silence

section Restart

variable {π : Type u} {σ : Type v} (step : π × σ → π × σ) (start : π)

/-- A program either commits its next step or crashes and starts over on what is stored. -/
inductive Move
  | step
  | crash
deriving DecidableEq

/-- A position in the program with the stored state, after a move. -/
def move (s : π × σ) : Move → π × σ
  | .step => step s
  | .crash => (start, s.2)

variable {step start}

/-- **What steps keep, and what holds again at the start, survives any crashes.** -/
theorem invariant_of_crashes
    {I : π × σ → Prop}
    (hstep : ∀ s, I s → I (step s))
    (hstart : ∀ s, I s → I (start, s.2))
    {s : π × σ}
    (hs : I s)
    (moves : List Move) :
    I (moves.foldl (move step start) s) := by
  induction moves generalizing s with
  | nil =>
      exact hs
  | cons m moves ih =>
      cases m with
      | step =>
          exact ih (hstep s hs)
      | crash =>
          exact ih (hstart s hs)

end Restart

section Ascent

variable {α : Type u} {β : Type v} [Preorder β] {μ : α → β} {f : ℕ → α} {n : ℕ}

/-- Up to `n`, each step keeps the value or raises its measure. -/
def Ascends (μ : α → β) (f : ℕ → α) (n : ℕ) : Prop :=
  ∀ i, i < n → f (i + 1) = f i ∨ μ (f i) < μ (f (i + 1))

theorem Ascends.eq_or_lt
    (h : Ascends μ f n)
    {i j : ℕ}
    (hij : i ≤ j)
    (hj : j ≤ n) :
    f j = f i ∨ μ (f i) < μ (f j) := by
  induction j, hij using Nat.le_induction with
  | base =>
      exact Or.inl rfl
  | succ j hij ih =>
      rcases h j (by omega) with hkeep | hup
      · rw [hkeep]
        exact ih (by omega)
      · rcases ih (by omega) with hsame | hlt
        · rw [hsame] at hup
          exact Or.inr hup
        · exact Or.inr (hlt.trans hup)

/-- A value that was given up is never taken again. -/
theorem Ascends.never_returns
    (h : Ascends μ f n)
    {i j k : ℕ}
    (hij : i ≤ j)
    (hjk : j ≤ k)
    (hk : k ≤ n)
    (hne : f j ≠ f i) :
    f k ≠ f i := by
  intro hback
  rcases h.eq_or_lt hij (hjk.trans hk) with hsame | hlt
  · exact hne hsame
  · rcases h.eq_or_lt hjk hk with hsame' | hlt'
    · exact hne (hsame'.symm.trans hback)
    · rw [hback] at hlt'
      exact lt_irrefl _ (hlt.trans hlt')

variable [DecidableEq α]

/-- The positions at which the value changes. -/
def changes (f : ℕ → α) (n : ℕ) : Finset ℕ :=
  (Finset.range n).filter (fun i => f (i + 1) ≠ f i)

/-- The value changes fewer times than there are values. -/
theorem Ascends.changes_lt_card
    (h : Ascends μ f n)
    {S : Finset α}
    (hS : ∀ i, i ≤ n → f i ∈ S) :
    (changes f n).card < S.card := by
  have hinj : Set.InjOn (fun i => f (i + 1)) (changes f n : Set ℕ) := by
    -- of two changes the later one leads to a value the earlier one did not
    have hlt : ∀ i ∈ changes f n, ∀ j ∈ changes f n, i < j → f (i + 1) ≠ f (j + 1) := by
      intro i _ j hj hij he
      obtain ⟨hjn, hchange⟩ := Finset.mem_filter.1 hj
      rw [Finset.mem_range] at hjn
      rcases h j hjn with hkeep | hup
      · exact hchange hkeep
      · rcases h.eq_or_lt (i := i + 1) (j := j) hij hjn.le with hsame | hraise
        · rw [hsame, he] at hup
          exact lt_irrefl _ hup
        · rw [← he] at hup
          exact lt_irrefl _ (hraise.trans hup)
    intro i hi j hj he
    rcases Nat.lt_trichotomy i j with hij | rfl | hji
    · exact absurd he (hlt i hi j hj hij)
    · rfl
    · exact absurd he.symm (hlt j hj i hi hji)
  have hsub : (changes f n).image (fun i => f (i + 1)) ⊆ S.erase (f 0) := by
    intro a ha
    obtain ⟨i, hi, rfl⟩ := Finset.mem_image.1 ha
    obtain ⟨hin, hchange⟩ := Finset.mem_filter.1 hi
    rw [Finset.mem_range] at hin
    refine Finset.mem_erase.2 ⟨?_, hS (i + 1) hin⟩
    rcases h i hin with hkeep | hup
    · exact absurd hkeep hchange
    · intro hback
      rcases h.eq_or_lt (Nat.zero_le i) hin.le with hsame | hraise
      · rw [hback, hsame] at hup
        exact lt_irrefl _ hup
      · rw [hback] at hup
        exact lt_irrefl _ (hraise.trans hup)
  have h0 : f 0 ∈ S := hS 0 (Nat.zero_le n)
  have hcard := Finset.card_le_card hsub
  rw [Finset.card_image_of_injOn hinj, Finset.card_erase_of_mem h0] at hcard
  have hpos := Finset.card_pos.2 ⟨f 0, h0⟩
  omega

end Ascent

end Runs
end CertRelay
