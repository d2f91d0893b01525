import Mathlib.Data.List.Infix
import Mathlib.Data.Nat.Notation
import Mathlib.Tactic.Common

/-!
# Calls that take turns on a shared state

Any number of calls run at once.  Each is a program with a stage of its own, and a step of it
reads and writes the shared state in one go; between two of its steps other calls may run,
and others outside may write too.  Steps leave entries in a log, which only grows.

What a call knows, it knows of the log: of the shared state it knows nothing once its step is
over.  So what each step keeps, of the state and of its own stage, every interleaving keeps.

**Results.**
* `invariant_of_turns`: the invariant rule for interleavings;
* `Leads.trans`: the steps of one call, when nothing comes between them.
-/

namespace CertRelay
namespace Interleaving

universe u v w x

/-- The shared state, the calls with the length of the log when they began, the log, and the
clock. -/
structure World (σ : Type u) (π : Type v) (ε : Type w) where
  shared : σ
  calls : ℕ → Option (ℕ × π)
  log : List ε
  clock : ℕ

/-- A call begins, a call takes a step, or something outside acts. -/
inductive Act (π : Type v) (ι : Type x)
  | begin (i : ℕ) (p : π)
  | run (i : ℕ)
  | outside (a : ι)

variable {σ : Type u} {π : Type v} {ε : Type w} {ι : Type x}

/-- What a step leaves: the stage, the shared state, and entries of the log. -/
structure Outcome (σ : Type u) (π : Type v) (ε : Type w) where
  stage : π
  shared : σ
  entries : List ε

variable (step : ℕ → π → σ → Outcome σ π ε) (outside : ℕ → ι → σ → σ × List ε)

/-- Calls with one of them set. -/
def setCall (calls : ℕ → Option (ℕ × π)) (i : ℕ) (call : ℕ × π) : ℕ → Option (ℕ × π) :=
  fun j => if j = i then some call else calls j

/-- The world after some time and an act.  A call begins only where there is none. -/
def turn (w : World σ π ε) (a : ℕ × Act π ι) : World σ π ε :=
  let now := w.clock + a.1
  match a.2 with
  | .begin i p =>
      match w.calls i with
      | some _ => { w with clock := now }
      | none => { w with clock := now, calls := setCall w.calls i (w.log.length, p) }
  | .run i =>
      match w.calls i with
      | none => { w with clock := now }
      | some (begun, p) =>
          let out := step now p w.shared
          { shared := out.shared
            calls := setCall w.calls i (begun, out.stage)
            log := w.log ++ out.entries
            clock := now }
  | .outside a =>
      let (shared, entries) := outside now a w.shared
      { w with shared := shared, log := w.log ++ entries, clock := now }

/-- A world in which nothing has begun. -/
def starting (s : σ) (clock : ℕ) : World σ π ε where
  shared := s
  calls := fun _ => none
  log := []
  clock := clock

/-- Steps of one call, with the instants at which they are taken. -/
def alone : List ℕ → Outcome σ π ε → Outcome σ π ε
  | [], out => out
  | now :: times, out =>
      let next := step now out.stage out.shared
      alone times ⟨next.stage, next.shared, out.entries ++ next.entries⟩

/-- The steps of one call lead from a stage and a shared state to others. -/
def Leads (p : π) (s : σ) (p' : π) (s' : σ) : Prop :=
  ∃ times entries, ∀ before,
    alone step times ⟨p, s, before⟩ = ⟨p', s', before ++ entries⟩

variable {step outside}

theorem alone_append
    (times more : List ℕ)
    (out : Outcome σ π ε) :
    alone step (times ++ more) out = alone step more (alone step times out) := by
  induction times generalizing out with
  | nil =>
      rfl
  | cons now times ih =>
      exact ih _

theorem Leads.refl
    (p : π)
    (s : σ) :
    Leads step p s p s :=
  ⟨[], [], fun before => by rw [List.append_nil]; rfl⟩

theorem Leads.trans
    {p p' p'' : π}
    {s s' s'' : σ}
    (h : Leads step p s p' s')
    (h' : Leads step p' s' p'' s'') :
    Leads step p s p'' s'' := by
  obtain ⟨times, entries, hrun⟩ := h
  obtain ⟨times', entries', hrun'⟩ := h'
  refine ⟨times ++ times', entries ++ entries', fun before => ?_⟩
  rw [alone_append, hrun, hrun', List.append_assoc]

/-- A step leads to its outcome. -/
theorem Leads.of_step
    {now : ℕ}
    {p p' : π}
    {s s' : σ}
    {entries : List ε}
    (h : step now p s = ⟨p', s', entries⟩) :
    Leads step p s p' s' := by
  refine ⟨[now], entries, fun before => ?_⟩
  unfold alone
  rw [h]
  rfl

theorem setCall_eq_some
    {calls : ℕ → Option (ℕ × π)}
    {i j : ℕ}
    {call call' : ℕ × π}
    (h : setCall calls i call j = some call') :
    call' = call ∨ calls j = some call' := by
  unfold setCall at h
  split_ifs at h with hj
  · exact Or.inl (Option.some.inj h).symm
  · exact Or.inr h

/-- **The invariant rule for interleavings.**  `I` is about the clock, the log and the shared
state, and `J` about the log and a call: a call that begins has `J`, a longer log keeps it, a
step of a call keeps both, and so does what acts outside. -/
theorem invariant_of_turns
    {I : ℕ → List ε → σ → Prop}
    {J : List ε → ℕ → π → Prop}
    {Begins : π → Prop}
    (hlater : ∀ now later log s, now ≤ later → I now log s → I later log s)
    (hbegin : ∀ log p, Begins p → J log log.length p)
    (hlonger : ∀ log entries begun p, J log begun p → J (log ++ entries) begun p)
    (hstep : ∀ now log begun p s, I now log s → J log begun p →
      I now (log ++ (step now p s).entries) (step now p s).shared ∧
        J (log ++ (step now p s).entries) begun (step now p s).stage)
    (houtside : ∀ now log a s, I now log s →
      I now (log ++ (outside now a s).2) (outside now a s).1)
    {w : World σ π ε}
    (hI : I w.clock w.log w.shared)
    (hJ : ∀ i begun p, w.calls i = some (begun, p) → J w.log begun p)
    {acts : List (ℕ × Act π ι)}
    (hacts : ∀ a ∈ acts, ∀ i p, a.2 = .begin i p → Begins p) :
    let w' := acts.foldl (turn step outside) w
    I w'.clock w'.log w'.shared ∧ ∀ i begun p, w'.calls i = some (begun, p) → J w'.log begun p := by
  induction acts generalizing w with
  | nil =>
      exact ⟨hI, hJ⟩
  | cons a acts ih =>
      have hrest := fun a' (ha' : a' ∈ acts) => hacts a' (List.mem_cons_of_mem a ha')
      have hhead := hacts a List.mem_cons_self
      have hnow := hlater w.clock (w.clock + a.1) w.log w.shared (Nat.le_add_right _ _) hI
      obtain ⟨elapsed, a⟩ := a
      suffices h : let w' := turn step outside w (elapsed, a)
          I w'.clock w'.log w'.shared ∧
            ∀ i begun p, w'.calls i = some (begun, p) → J w'.log begun p from
        ih h.1 h.2 hrest
      cases a with
      | begin i p =>
          unfold turn
          dsimp only
          split
          · exact ⟨hnow, hJ⟩
          · refine ⟨hnow, fun j begun p' hcall => ?_⟩
            rcases setCall_eq_some hcall with hnew | hold
            · cases hnew
              exact hbegin w.log p (hhead i p rfl)
            · exact hJ j begun p' hold
      | run i =>
          unfold turn
          dsimp only
          split
          · exact ⟨hnow, hJ⟩
          · next begun p hcall =>
            obtain ⟨hI', hJ'⟩ := hstep _ w.log begun p w.shared hnow (hJ i begun p hcall)
            refine ⟨hI', fun j begun' p' hcall' => ?_⟩
            rcases setCall_eq_some hcall' with hnew | hold
            · cases hnew
              exact hJ'
            · exact hlonger _ _ _ _ (hJ j begun' p' hold)
      | outside a =>
          refine ⟨houtside _ w.log a w.shared hnow, fun j begun p hcall => ?_⟩
          exact hlonger _ _ _ _ (hJ j begun p hcall)

end Interleaving
end CertRelay
