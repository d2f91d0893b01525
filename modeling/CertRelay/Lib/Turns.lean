import Mathlib.Data.List.Basic

/-!
# Loops that emit batches

A bounded loop whose turns may fail, leave the loop, go on with a new state, or emit a batch
and then go on or leave.

**Results.**
* `run_induct`: the induction rule;
* `run_emits`: under an invariant of the turns, what holds of every batch and at the end;
* `run_emits_later`: what holds of every batch after the first, under an invariant that a
  batch establishes;
* `mem_emitted_iff`: a batch comes out at one of the turns that the loop gets to;
* `run_reaches`: a loop in which every turn makes progress gets to its goal.
-/

namespace CertRelay
namespace Turns

universe u v w

/-- What a turn does. -/
inductive Turn (σ : Type u) (β : Type v)
  | stop
  | skip (next : σ)
  | emit (batch : β) (next : σ) (goOn : Bool)

/-- How a loop ends, with its batches and its last state. -/
structure Outcome (σ : Type u) (β : Type v) (ε : Type w) where
  result : Except ε Unit
  emitted : List β
  final : σ

variable {σ : Type u} {β : Type v} {ε : Type w}

/-- A batch before those of the rest of the loop. -/
def Outcome.prepend (batch : β) (rest : Outcome σ β ε) : Outcome σ β ε :=
  { rest with emitted := batch :: rest.emitted }

variable (turn : ℕ → σ → Except ε (Turn σ β))

/-- At most `n` turns, from the `i`-th on. -/
def run : ℕ → ℕ → σ → Outcome σ β ε
  | 0, _, s => ⟨.ok (), [], s⟩
  | n + 1, i, s =>
      match turn i s with
      | .error e => ⟨.error e, [], s⟩
      | .ok .stop => ⟨.ok (), [], s⟩
      | .ok (.skip next) => run n (i + 1) next
      | .ok (.emit batch next false) => ⟨.ok (), [batch], next⟩
      | .ok (.emit batch next true) => (run n (i + 1) next).prepend batch

variable {turn}

/-- **The induction rule**, for a relation between the first state, the batches and the last
state. -/
theorem run_induct
    {R : σ → List β → σ → Prop}
    (hrefl : ∀ s, R s [] s)
    (hskip : ∀ i s next l f, turn i s = .ok (.skip next) → R next l f → R s l f)
    (hlast : ∀ i s b next, turn i s = .ok (.emit b next false) → R s [b] next)
    (hemit : ∀ i s b next l f, turn i s = .ok (.emit b next true) → R next l f →
      R s (b :: l) f)
    (n i : ℕ)
    (s : σ) :
    R s (run turn n i s).emitted (run turn n i s).final := by
  induction n generalizing i s with
  | zero =>
      exact hrefl s
  | succ n ih =>
      unfold run
      cases hturn : turn i s with
      | error e =>
          exact hrefl s
      | ok t =>
          cases t with
          | stop =>
              exact hrefl s
          | skip next =>
              exact hskip i s next _ _ hturn (ih (i + 1) next)
          | emit b next goOn =>
              cases goOn with
              | false =>
                  exact hlast i s b next hturn
              | true =>
                  exact hemit i s b next _ _ hturn (ih (i + 1) next)

/-- A loop whose first turn can only leave it does nothing. -/
theorem run_of_stuck
    {i : ℕ}
    {s : σ}
    (h : ∀ t, turn i s = .ok t → t = .stop)
    (n : ℕ) :
    (run turn n i s).emitted = [] ∧ (run turn n i s).final = s := by
  cases n with
  | zero =>
      exact ⟨rfl, rfl⟩
  | succ n =>
      unfold run
      cases hturn : turn i s with
      | error e =>
          exact ⟨rfl, rfl⟩
      | ok t =>
          rw [h t hturn]
          exact ⟨rfl, rfl⟩

section Invariant

variable {I : σ → Prop} {P : β → Prop}

/-- **What holds of every batch and at the end.** -/
theorem run_emits
    (hskip : ∀ i s next, I s → turn i s = .ok (.skip next) → I next)
    (hemit : ∀ i s b next goOn, I s → turn i s = .ok (.emit b next goOn) → P b ∧ I next)
    (n i : ℕ)
    {s : σ}
    (hs : I s) :
    (∀ b ∈ (run turn n i s).emitted, P b) ∧ I (run turn n i s).final := by
  have hrun := @run_induct _ _ _ turn (fun s l f => I s → (∀ b ∈ l, P b) ∧ I f)
    (fun s hs => ⟨fun b hb => absurd hb List.not_mem_nil, hs⟩)
    (fun i s next l f hturn hnext hs => hnext (hskip i s next hs hturn))
    (fun i s b next hturn hs => by
      obtain ⟨hb, hnext⟩ := hemit i s b next false hs hturn
      exact ⟨fun c hc => List.mem_singleton.1 hc ▸ hb, hnext⟩)
    (fun i s b next l f hturn hrest hs => by
      obtain ⟨hb, hnext⟩ := hemit i s b next true hs hturn
      obtain ⟨hl, hf⟩ := hrest hnext
      refine ⟨fun c hc => ?_, hf⟩
      rcases List.mem_cons.1 hc with rfl | hc
      · exact hb
      · exact hl c hc)
  exact hrun n i s hs

/-- **What holds of every batch after the first**: `J` holds once a batch is out. -/
theorem run_emits_later
    {J : σ → Prop}
    (hskip : ∀ i s next, J s → turn i s = .ok (.skip next) → J next)
    (hfirst : ∀ i s b next, turn i s = .ok (.emit b next true) → J next)
    (hemit : ∀ i s b next goOn, J s → turn i s = .ok (.emit b next goOn) → P b)
    (n i : ℕ)
    (s : σ) :
    ∀ b ∈ (run turn n i s).emitted.tail, P b := by
  have hrun := @run_induct _ _ _ turn
    (fun s l _ => (J s → ∀ b ∈ l, P b) ∧ ∀ b ∈ l.tail, P b)
    (fun s => ⟨fun _ b hb => absurd hb List.not_mem_nil, fun b hb => absurd hb List.not_mem_nil⟩)
    (fun i s next l f hturn hnext =>
      ⟨fun hs => hnext.1 (hskip i s next hs hturn), hnext.2⟩)
    (fun i s b next hturn =>
      ⟨fun hs c hc => List.mem_singleton.1 hc ▸ hemit i s b next false hs hturn,
        fun c hc => absurd hc List.not_mem_nil⟩)
    (fun i s b next l f hturn hrest => by
      have hl := hrest.1 (hfirst i s b next hturn)
      refine ⟨fun hs c hc => ?_, hl⟩
      rcases List.mem_cons.1 hc with rfl | hc
      · exact hemit i s c next true hs hturn
      · exact hl c hc)
  exact (hrun n i s).2

end Invariant

section Visits

/-- A loop gets to its `j`-th turn, in a state `t`. -/
inductive Visits (turn : ℕ → σ → Except ε (Turn σ β)) : ℕ → σ → ℕ → σ → Prop
  | here (i : ℕ) (s : σ) :
      Visits turn i s i s
  | skip {i j : ℕ} {s next t : σ}
      (hturn : turn i s = .ok (.skip next))
      (later : Visits turn (i + 1) next j t) :
      Visits turn i s j t
  | emit {i j : ℕ} {s next t : σ} {b : β}
      (hturn : turn i s = .ok (.emit b next true))
      (later : Visits turn (i + 1) next j t) :
      Visits turn i s j t

/-- A batch comes out at the `j`-th turn. -/
def EmittedAt (turn : ℕ → σ → Except ε (Turn σ β)) (i : ℕ) (s : σ) (j : ℕ) (b : β) : Prop :=
  ∃ t next goOn, Visits turn i s j t ∧ turn j t = .ok (.emit b next goOn)

theorem Visits.le
    {i j : ℕ}
    {s t : σ}
    (h : Visits turn i s j t) :
    i ≤ j := by
  induction h with
  | here i s =>
      exact Nat.le_refl i
  | skip _ _ ih =>
      exact Nat.le_of_succ_le ih
  | emit _ _ ih =>
      exact Nat.le_of_succ_le ih

/-- What the turns keep holds whenever the loop gets to a turn. -/
theorem Visits.invariant
    {I : σ → Prop}
    (hskip : ∀ i s next, I s → turn i s = .ok (.skip next) → I next)
    (hemit : ∀ i s b next, I s → turn i s = .ok (.emit b next true) → I next)
    {i j : ℕ}
    {s t : σ}
    (h : Visits turn i s j t)
    (hs : I s) :
    I t := by
  induction h with
  | here i s =>
      exact hs
  | skip hturn _ ih =>
      exact ih (hskip _ _ _ hs hturn)
  | emit hturn _ ih =>
      exact ih (hemit _ _ _ _ hs hturn)

/-- Nothing comes out of a loop that its first turn can only leave. -/
theorem not_emittedAt
    {i j : ℕ}
    {s : σ}
    {b : β}
    (hstuck : ∀ t, turn i s = .ok t → t = .stop) :
    ¬ EmittedAt turn i s j b := by
  rintro ⟨t, next, goOn, hvisits, hj⟩
  cases hvisits with
  | here => cases hstuck _ hj
  | skip hturn _ => cases hstuck _ hturn
  | emit hturn _ => cases hstuck _ hturn

theorem emittedAt_skip
    {i j : ℕ}
    {s next : σ}
    {b : β}
    (hturn : turn i s = .ok (.skip next)) :
    EmittedAt turn i s j b ↔ EmittedAt turn (i + 1) next j b := by
  constructor
  · rintro ⟨t, last, goOn, hvisits, hj⟩
    cases hvisits with
    | here => cases hturn.symm.trans hj
    | skip h later =>
        cases hturn.symm.trans h
        exact ⟨t, last, goOn, later, hj⟩
    | emit h _ => cases hturn.symm.trans h
  · rintro ⟨t, last, goOn, hvisits, hj⟩
    exact ⟨t, last, goOn, .skip hturn hvisits, hj⟩

theorem emittedAt_emit
    {i j : ℕ}
    {s next : σ}
    {b c : β}
    {goOn : Bool}
    (hturn : turn i s = .ok (.emit c next goOn)) :
    EmittedAt turn i s j b ↔
      (j = i ∧ b = c) ∨ (goOn = true ∧ EmittedAt turn (i + 1) next j b) := by
  constructor
  · rintro ⟨t, last, more, hvisits, hj⟩
    cases hvisits with
    | here =>
        cases hturn.symm.trans hj
        exact Or.inl ⟨rfl, rfl⟩
    | skip h _ => cases hturn.symm.trans h
    | emit h later =>
        cases hturn.symm.trans h
        exact Or.inr ⟨rfl, t, last, more, later, hj⟩
  · rintro (⟨rfl, rfl⟩ | ⟨rfl, t, last, more, hvisits, hj⟩)
    · exact ⟨s, next, goOn, .here _ _, hturn⟩
    · exact ⟨t, last, more, .emit hturn hvisits, hj⟩

/-- **A batch comes out at one of the turns that the loop gets to.** -/
theorem mem_emitted_iff
    {n i : ℕ}
    {s : σ}
    {b : β} :
    b ∈ (run turn n i s).emitted ↔ ∃ j, j < i + n ∧ EmittedAt turn i s j b := by
  induction n generalizing i s with
  | zero =>
      refine ⟨fun h => absurd h List.not_mem_nil, ?_⟩
      rintro ⟨j, hj, t, next, goOn, hvisits, _⟩
      exact absurd hj (Nat.not_lt_of_le hvisits.le)
  | succ n ih =>
      have hbound : i + (n + 1) = i + 1 + n := by
        omega
      rw [hbound]
      unfold run
      cases hturn : turn i s with
      | error e =>
          have hstuck : ∀ t, turn i s = .ok t → t = .stop :=
            fun t ht => by cases hturn.symm.trans ht
          exact ⟨fun h => absurd h List.not_mem_nil,
            fun ⟨j, _, hj⟩ => absurd hj (not_emittedAt hstuck)⟩
      | ok step =>
          cases step with
          | stop =>
              have hstuck : ∀ t, turn i s = .ok t → t = .stop :=
                fun t ht => by cases hturn.symm.trans ht; rfl
              exact ⟨fun h => absurd h List.not_mem_nil,
                fun ⟨j, _, hj⟩ => absurd hj (not_emittedAt hstuck)⟩
          | skip next =>
              simp only [emittedAt_skip hturn]
              exact ih
          | emit c next goOn =>
              have hfirst : i < i + 1 + n := by
                omega
              simp only [emittedAt_emit hturn]
              cases goOn with
              | false =>
                  simp [hfirst]
              | true =>
                  simp [Outcome.prepend, ih, and_or_left, exists_or, hfirst]

/-- A loop whose turns all succeed, as far as it gets to them, ends without an error. -/
theorem run_ok
    {i : ℕ}
    {s : σ}
    (h : ∀ j t, Visits turn i s j t → ∃ u, turn j t = .ok u)
    (n : ℕ) :
    (run turn n i s).result = .ok () := by
  induction n generalizing i s with
  | zero =>
      rfl
  | succ n ih =>
      unfold run
      obtain ⟨t, hturn⟩ := h i s (.here i s)
      rw [hturn]
      cases t with
      | stop =>
          rfl
      | skip next =>
          exact ih (fun j t hvisits => h j t (.skip hturn hvisits))
      | emit b next goOn =>
          cases goOn with
          | false =>
              rfl
          | true =>
              exact ih (fun j t hvisits => h j t (.emit hturn hvisits))

/-- **Progress.** If every turn short of the goal makes progress, and the goal is not lost,
then enough turns lead to the goal, unless one of them fails. -/
theorem run_reaches
    {I Goal : σ → Prop}
    {distance : σ → ℕ}
    (hfar : ∀ s, distance s = 0 → Goal s)
    (hstep : ∀ i s t, I s → ¬ Goal s → turn i s = .ok t →
      ∃ b next, t = .emit b next true ∧ I next ∧ distance next < distance s)
    (hgoal : ∀ i s t, I s → Goal s → turn i s = .ok t →
      t = .stop ∨ ∃ next, t = .skip next ∧ I next ∧ Goal next)
    (n i : ℕ)
    {s : σ}
    (hs : I s)
    (hn : Goal s ∨ distance s ≤ n)
    (hok : (run turn n i s).result = .ok ()) :
    Goal (run turn n i s).final := by
  induction n generalizing i s with
  | zero =>
      exact hn.elim id (fun h => hfar s (Nat.le_zero.1 h))
  | succ n ih =>
      unfold run at hok ⊢
      cases hturn : turn i s with
      | error e =>
          rw [hturn] at hok
          cases hok
      | ok t =>
          rw [hturn] at hok
          by_cases hthere : Goal s
          · rcases hgoal i s t hs hthere hturn with rfl | ⟨next, rfl, hnext, hgoalnext⟩
            · exact hthere
            · exact ih (i + 1) hnext (Or.inl hgoalnext) hok
          · obtain ⟨b, next, rfl, hnext, hless⟩ := hstep i s t hs hthere hturn
            have hleft : distance s ≤ n + 1 := hn.resolve_left hthere
            exact ih (i + 1) hnext (Or.inr (by omega)) hok

end Visits

end Turns
end CertRelay
