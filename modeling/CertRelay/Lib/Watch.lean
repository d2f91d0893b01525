import CertRelay.Lib.Fallible

/-!
# Watched computations

A watched computation keeps a log of events next to its state.  What it does `quietly`
is done to the state alone; a `note` writes one event and does nothing else.

`Erases x y` says that `x` without its log is `y`, and `Emits x P` that whatever `x`
appends to the log, together with what it returns, satisfies `P`.  Both come with one
rule for each way of composing computations.
-/

namespace CertRelay
namespace Fallible

universe u

section Watch

variable {ε σ E α β : Type u}

/-- A computation that keeps a log next to its state. -/
abbrev Watched (ε σ E α : Type u) := Task ε (σ × List E) α

/-- Act on the state and leave the log as it is. -/
def quietly (x : Task ε σ α) : Watched ε σ E α :=
  fun s => (((x s.1).1, ((x s.1).2, s.2)) : Except ε α × (σ × List E))

/-- Write an event to the log. -/
def note (e : E) : Watched ε σ E PUnit :=
  Task.always (fun s => (.unit, (s.1, s.2 ++ [e])))

theorem quietly_lift
    (a : α)
    (s : σ × List E) :
    quietly (ExceptT.mk (pure (.ok a)) : Task ε σ α) s = (.ok a, s) := by
  rfl

theorem quietly_always
    (step : σ → α × σ)
    (s : σ × List E) :
    quietly (Task.always step : Task ε σ α) s =
      (.ok (step s.1).1, ((step s.1).2, s.2)) := by
  rfl

theorem note_apply
    (e : E)
    (s : σ × List E) :
    (note e : Watched ε σ E PUnit) s = (.ok .unit, (s.1, s.2 ++ [e])) := by
  rfl

/-- Without its log the watched computation is the plain one. -/
def Erases (x : Watched ε σ E α) (y : Task ε σ α) : Prop :=
  ∀ s log, y s = ((x (s, log)).1, (x (s, log)).2.1)

/-- What the computation appends to the log, with what it returns, satisfies `P`. -/
def Emits (x : Watched ε σ E α) (P : List E → Except ε α → Prop) : Prop :=
  ∀ s log, ∃ evs, (x (s, log)).2.2 = log ++ evs ∧ P evs (x (s, log)).1

theorem Erases.pure
    (a : α) :
    Erases (pure a : Watched ε σ E α) (pure a) := by
  intro s log
  rfl

theorem Erases.throw
    (e : ε) :
    Erases (throw e : Watched ε σ E α) (throw e) := by
  intro s log
  rfl

theorem Erases.quiet
    (x : Task ε σ α) :
    Erases (quietly x : Watched ε σ E α) x := by
  intro s log
  rfl

theorem Erases.bind
    {x : Watched ε σ E α}
    {y : Task ε σ α}
    {f : α → Watched ε σ E β}
    {g : α → Task ε σ β}
    (hx : Erases x y)
    (hf : ∀ a, Erases (f a) (g a)) :
    Erases (x >>= f) (y >>= g) := by
  intro s log
  rw [Task.bind_apply, Task.bind_apply, hx s log]
  rcases x (s, log) with ⟨e | a, s₁, log₁⟩
  · rfl
  · exact hf a s₁ log₁

/-- A note leaves no trace in the plain computation. -/
theorem Erases.note_bind
    {e : E}
    {x : Watched ε σ E α}
    {y : Task ε σ α}
    (hx : Erases x y) :
    Erases (note e >>= fun _ => x) y := by
  intro s log
  rw [Task.bind_apply]
  exact hx s (log ++ [e])

theorem Emits.mono
    {x : Watched ε σ E α}
    {P Q : List E → Except ε α → Prop}
    (hx : Emits x P)
    (hPQ : ∀ evs r, P evs r → Q evs r) :
    Emits x Q := by
  intro s log
  obtain ⟨evs, hlog, hP⟩ := hx s log
  exact ⟨evs, hlog, hPQ _ _ hP⟩

/-- A computation that writes nothing, whatever it returns. -/
theorem Emits.quiet
    {x : Task ε σ α}
    {P : List E → Except ε α → Prop}
    (hP : ∀ r, P [] r) :
    Emits (quietly x) P := by
  intro s log
  exact ⟨[], (List.append_nil log).symm, hP _⟩

theorem Emits.pure
    {a : α}
    {P : List E → Except ε α → Prop}
    (hP : P [] (.ok a)) :
    Emits (pure a : Watched ε σ E α) P := by
  intro s log
  exact ⟨[], (List.append_nil log).symm, hP⟩

theorem Emits.throw
    {e : ε}
    {P : List E → Except ε α → Prop}
    (hP : P [] (.error e)) :
    Emits (throw e : Watched ε σ E α) P := by
  intro s log
  exact ⟨[], (List.append_nil log).symm, hP⟩

/-- The second part appends to what the first has written. -/
theorem Emits.bind
    {x : Watched ε σ E α}
    {f : α → Watched ε σ E β}
    {P : List E → Except ε α → Prop}
    {R : List E → Except ε β → Prop}
    (hx : Emits x P)
    (hfail : ∀ evs e, P evs (.error e) → R evs (.error e))
    (hnext : ∀ evs a, P evs (.ok a) → Emits (f a) (fun evs' r => R (evs ++ evs') r)) :
    Emits (x >>= f) R := by
  intro s log
  rw [Task.bind_apply]
  obtain ⟨evs, hlog, hP⟩ := hx s log
  generalize x (s, log) = out at hlog hP
  obtain ⟨r, s₁, log₁⟩ := out
  cases r with
  | error e =>
      exact ⟨evs, hlog, hfail _ _ hP⟩
  | ok a =>
      obtain ⟨evs', hlog', hR⟩ := hnext evs a hP s₁ log₁
      refine ⟨evs ++ evs', ?_, hR⟩
      rw [hlog', ← List.append_assoc, ← hlog]

/-- A quiet part may fail, and may return anything. -/
theorem Emits.quiet_bind
    {x : Task ε σ α}
    {f : α → Watched ε σ E β}
    {P : List E → Except ε β → Prop}
    (hfail : ∀ e, P [] (.error e))
    (hf : ∀ a, Emits (f a) P) :
    Emits (quietly x >>= f) P := by
  refine Emits.bind (P := fun evs _ => evs = []) (Emits.quiet fun _ => rfl) ?_ ?_
  · rintro _ e rfl
    exact hfail e
  · rintro _ a rfl
    exact hf a

/-- A result that was there before the computation started. -/
theorem Emits.lift_bind
    {x : Except ε α}
    {f : α → Watched ε σ E β}
    {P : List E → Except ε β → Prop}
    (hfail : ∀ e, P [] (.error e))
    (hf : ∀ a, x = .ok a → Emits (f a) P) :
    Emits (quietly (ExceptT.mk (Pure.pure x)) >>= f) P := by
  cases x with
  | error e =>
      intro s log
      exact ⟨[], (List.append_nil log).symm, hfail e⟩
  | ok a =>
      exact hf a rfl

theorem Emits.note_bind
    {e : E}
    {x : Watched ε σ E α}
    {P : List E → Except ε α → Prop}
    (hx : Emits x (fun evs r => P (e :: evs) r)) :
    Emits (note e >>= fun _ => x) P := by
  intro s log
  rw [Task.bind_apply]
  obtain ⟨evs, hlog, hP⟩ := hx s (log ++ [e])
  exact ⟨e :: evs, hlog.trans (List.append_cons log e evs).symm, hP⟩

end Watch

end Fallible
end CertRelay
