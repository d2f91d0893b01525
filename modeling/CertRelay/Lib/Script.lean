import CertRelay.Lib.Interleaving

/-!
# Scripts on a shared state

A script reads and writes a shared state in single steps, and returns a value when it comes
to its end.  Any number of calls of scripts take turns, and something outside acts between
them.  Every step records something about the state that it leaves in a log, so that a script
can rely on what was true of the state at an earlier time.

An assertion `Keeps` about a script is about the script alone: under an invariant, that holds
whenever it takes a step, each of its steps keeps the invariant, and the value that it returns
has a property of the log.  It says nothing of a script that never returns.

**Results.**
* `alone_bind`: what scripts do one after another, when nothing comes between their steps;
* `Keeps.bind`, `Keeps.bindOk`: assertions are put together as scripts are;
* `keeps_of_turns`: what is asserted of each script holds in every interleaving;
* `turns_changed`: what no script looks at makes no difference to a run.
-/

namespace CertRelay

universe u v w x y

/-- A script that works on a state in single steps. -/
inductive Script (σ : Type u) (α : Type v) : Type (max u v)
  | done (a : α)
  /-- A loop that never comes to its end. -/
  | diverge
  /-- A step: what it writes, and how the script goes on, for the state that it reads. -/
  | step (write : σ → σ) (next : σ → Script σ α)

namespace Script

section Semantics

variable {σ : Type u} {α β : Type v}

def bind : Script σ α → (α → Script σ β) → Script σ β
  | .done a, f => f a
  | .diverge, _ => .diverge
  | .step write next, f => .step write (fun s => (next s).bind f)

instance : Monad (Script σ) where
  pure := .done
  bind := bind

/-- One step that returns a value. -/
def atomic (f : σ → α × σ) : Script σ α :=
  .step (fun s => (f s).2) (fun s => .done (f s).1)

/-- What a script returns, and the state that it leaves, when nothing comes between its
steps. -/
def alone : Script σ α → σ → Option α × σ
  | .done a, s => (some a, s)
  | .diverge, s => (none, s)
  | .step write next, s => (next s).alone (write s)

@[simp] theorem alone_pure
    (a : α)
    (s : σ) :
    (pure a : Script σ α).alone s = (some a, s) := by
  rfl

@[simp] theorem alone_atomic
    (f : σ → α × σ)
    (s : σ) :
    (atomic f).alone s = (some (f s).1, (f s).2) := by
  rfl

/-- **Scripts one after another.** -/
theorem alone_bind
    (x : Script σ α)
    (f : α → Script σ β)
    (s : σ) :
    (x >>= f).alone s =
      match x.alone s with
      | (some a, s₁) => (f a).alone s₁
      | (none, s₁) => (none, s₁) := by
  induction x generalizing s with
  | done a =>
      rfl
  | diverge =>
      rfl
  | step write next ih =>
      exact ih s (write s)

/-- A script that may fail; what it has written by then stays. -/
abbrev Try (η : Type v) (σ : Type u) :=
  ExceptT η (Script σ)

variable {η : Type v}

/-- One step, which may fail. -/
def Try.step (f : σ → Except η α × σ) : Try η σ α :=
  ExceptT.mk (atomic f)

/-- One step that only reads. -/
def Try.get (f : σ → α) : Try η σ α :=
  Try.step (fun s => (.ok (f s), s))

/-- One step that only writes. -/
def Try.modify (f : σ → σ) : Try η σ PUnit.{v + 1} :=
  Try.step (fun s => (.ok ⟨⟩, f s))

/-- A script whose failure is looked at. -/
def Try.attempt (x : Try η σ α) : Try η σ (Except η α) :=
  ExceptT.mk (x.run >>= fun result => .done (.ok result))

/-- A loop that never ends. -/
def Try.diverge : Try η σ α :=
  ExceptT.mk Script.diverge

@[simp] theorem Try.alone_step
    (f : σ → Except η α × σ)
    (s : σ) :
    (Try.step f).run.alone s = (some (f s).1, (f s).2) := by
  rfl

theorem Try.alone_bind
    (x : Try η σ α)
    (f : α → Try η σ β)
    (s : σ) :
    (x >>= f).run.alone s =
      match x.run.alone s with
      | (some (.ok a), s₁) => (f a).run.alone s₁
      | (some (.error e), s₁) => (some (.error e), s₁)
      | (none, s₁) => (none, s₁) := by
  refine (Script.alone_bind x.run (ExceptT.bindCont f) s).trans ?_
  rcases x.run.alone s with ⟨_ | _ | a, s₁⟩ <;> rfl

/-- A first part that succeeds hands over its value and its state. -/
theorem Try.alone_bind_of_ok
    {x : Try η σ α}
    {a : α}
    {s s₁ : σ}
    (h : x.run.alone s = (some (.ok a), s₁))
    (f : α → Try η σ β) :
    (x >>= f).run.alone s = (f a).run.alone s₁ := by
  rw [Try.alone_bind, h]

theorem Try.alone_bind_of_error
    {x : Try η σ α}
    {e : η}
    {s s₁ : σ}
    (h : x.run.alone s = (some (.error e), s₁))
    (f : α → Try η σ β) :
    (x >>= f).run.alone s = (some (.error e), s₁) := by
  rw [Try.alone_bind, h]

end Semantics

section Assertions

variable {σ : Type u} {α β : Type v} {ε : Type w} {η : Type v}

/-- A property that a longer log keeps. -/
def Stable (Q : List ε → α → Prop) : Prop :=
  ∀ log more a, Q log a → Q (log ++ more) a

/-- A property of the value of a script that may fail. -/
def OnSuccess (Q : List ε → α → Prop) (log : List ε) (result : Except η α) : Prop :=
  ∀ a, result = .ok a → Q log a

theorem Stable.onSuccess
    {Q : List ε → α → Prop}
    (hQ : Stable Q) :
    Stable (OnSuccess (η := η) Q) :=
  fun log more _ h a ha => hQ log more a (h a ha)

variable (I : List ε → σ → Prop) (record : σ → List ε)

/-- From a log on, every step of the script keeps `I`, and what it returns has `Q`. -/
def Keeps (Q : List ε → α → Prop) : Script σ α → List ε → Prop
  | .done a, log => Q log a
  | .diverge, _ => True
  | .step write next, log =>
      ∀ more s, I (log ++ more) s →
        I (log ++ more ++ record (write s)) (write s) ∧
          Keeps Q (next s) (log ++ more ++ record (write s))

variable {I record} {Q : List ε → α → Prop} {R : List ε → β → Prop} {log : List ε}

theorem Keeps.pure
    {a : α}
    (h : Q log a) :
    Keeps I record Q (pure a) log :=
  h

theorem Keeps.atomic
    {f : σ → α × σ}
    (h : ∀ more s, I (log ++ more) s →
      I (log ++ more ++ record (f s).2) (f s).2 ∧ Q (log ++ more ++ record (f s).2) (f s).1) :
    Keeps I record Q (atomic f) log :=
  h

theorem Keeps.longer
    (hQ : Stable Q)
    {x : Script σ α}
    (h : Keeps I record Q x log)
    (more : List ε) :
    Keeps I record Q x (log ++ more) := by
  cases x with
  | done a =>
      exact hQ log more a h
  | diverge =>
      trivial
  | step write next =>
      intro more' s hs
      rw [List.append_assoc log more more'] at hs ⊢
      exact h (more ++ more') s hs

/-- What a script returns may be known to have more. -/
theorem Keeps.imp
    {Q' : List ε → α → Prop}
    {x : Script σ α}
    (h : Keeps I record Q x log)
    (himp : ∀ log a, Q log a → Q' log a) :
    Keeps I record Q' x log := by
  induction x generalizing log with
  | done a =>
      exact himp log a h
  | diverge =>
      trivial
  | step write next ih =>
      exact fun more s hs => ⟨(h more s hs).1, ih s (h more s hs).2⟩

/-- A script returns after it has begun. -/
theorem Keeps.later
    {x : Script σ α}
    (h : Keeps I record Q x log) :
    Keeps I record (fun log' a => log <+: log' ∧ Q log' a) x log := by
  induction x generalizing log with
  | done a =>
      exact ⟨List.prefix_refl log, h⟩
  | diverge =>
      trivial
  | step write next ih =>
      intro more s hs
      obtain ⟨hI, hnext⟩ := h more s hs
      refine ⟨hI, (ih s hnext).imp (fun log' a ha => ⟨?_, ha.2⟩)⟩
      exact ((List.prefix_append log _).trans (List.prefix_append _ _)).trans ha.1

/-- **Scripts one after another**: the second part begins with what the first has returned. -/
theorem Keeps.bind
    {x : Script σ α}
    {f : α → Script σ β}
    (hx : Keeps I record Q x log)
    (hf : ∀ more a, Q (log ++ more) a → Keeps I record R (f a) (log ++ more)) :
    Keeps I record R (x >>= f) log := by
  induction x generalizing log with
  | done a =>
      have ha := hf [] a
      rw [List.append_nil] at ha
      exact ha hx
  | diverge =>
      trivial
  | step write next ih =>
      intro more s hs
      obtain ⟨hI, hnext⟩ := hx more s hs
      refine ⟨hI, ih s hnext (fun more' a ha => ?_)⟩
      rw [List.append_assoc, List.append_assoc] at ha ⊢
      exact hf _ a ha

/-- The same for scripts that may fail: the second part begins if the first does not. -/
theorem Keeps.bindOk
    {x : Try η σ α}
    {f : α → Try η σ β}
    (hx : Keeps I record (OnSuccess Q) x.run log)
    (hf : ∀ more a, Q (log ++ more) a → Keeps I record (OnSuccess R) (f a).run (log ++ more)) :
    Keeps I record (OnSuccess R) (x >>= f).run log := by
  refine Keeps.bind hx (fun more result hresult => ?_)
  cases result with
  | error e =>
      exact fun b hb => by cases hb
  | ok a =>
      exact hf more a (hresult a rfl)

theorem Keeps.pureOk
    {a : α}
    (h : Q log a) :
    Keeps I record (OnSuccess Q) (Pure.pure a : Try η σ α).run log := by
  intro a' ha
  cases ha
  exact h

theorem Keeps.throw
    (e : η) :
    Keeps I record (OnSuccess Q) (throw e : Try η σ α).run log :=
  fun a ha => by cases ha

theorem Keeps.step
    {f : σ → Except η α × σ}
    (h : ∀ more s, I (log ++ more) s →
      I (log ++ more ++ record (f s).2) (f s).2 ∧
        ∀ a, (f s).1 = .ok a → Q (log ++ more ++ record (f s).2) a) :
    Keeps I record (OnSuccess Q) (Try.step f).run log :=
  h

theorem Keeps.attempt
    {x : Try η σ α}
    (h : Keeps I record (OnSuccess Q) x.run log) :
    Keeps I record (OnSuccess (OnSuccess (η := η) Q)) (Try.attempt x).run log := by
  refine Keeps.bind h (fun more result hresult => ?_)
  intro result' heq
  cases heq
  exact hresult

end Assertions

section Turns

open Interleaving

variable {σ : Type u} {κ : Type v} {α : κ → Type w} {ε : Type x} {ι : Type y}

/-- A call, with what is left of its script. -/
abbrev Running (σ : Type u) (α : κ → Type w) :=
  Σ k : κ, Script σ (α k)

/-- One step of a call. -/
def stepCall (record : σ → List ε) (_now : ℕ) (p : Running σ α) (s : σ) :
    Outcome σ (Running σ α) ε :=
  match p.2 with
  | .done _ => ⟨p, s, []⟩
  | .diverge => ⟨p, s, []⟩
  | .step write next => ⟨⟨p.1, next s⟩, write s, record (write s)⟩

variable {I : List ε → σ → Prop} {record : σ → List ε} {outside : ℕ → ι → σ → σ × List ε}
  {Q : ∀ k, List ε → α k → Prop}

theorem keeps_stepCall
    (hstable : ∀ k, Stable (Q k))
    {log : List ε}
    {p : Running σ α}
    {s : σ}
    (hI : I log s)
    (hp : Keeps I record (Q p.1) p.2 log)
    (now : ℕ) :
    let out := stepCall record now p s
    I (log ++ out.entries) out.shared ∧
      Keeps I record (Q out.stage.1) out.stage.2 (log ++ out.entries) := by
  obtain ⟨k, script⟩ := p
  cases script with
  | done a =>
      exact ⟨by rw [show (stepCall record now ⟨k, .done a⟩ s).entries = [] from rfl,
        List.append_nil]; exact hI, hp.longer (hstable k) _⟩
  | diverge =>
      exact ⟨by rw [show (stepCall record now (⟨k, .diverge⟩ : Running σ α) s).entries = [] from
        rfl, List.append_nil]; exact hI, trivial⟩
  | step write next =>
      have hstep := hp [] s
      rw [List.append_nil] at hstep
      exact hstep hI

/-- **The rule for interleavings.**  If the scripts of all calls are as asserted, and what acts
outside keeps the invariant, then in every interleaving the invariant holds, and every value
that a call has returned has the property that is asserted for the call. -/
theorem keeps_of_turns
    {body : ∀ k, Script σ (α k)}
    {Begins : κ → Prop}
    (hstable : ∀ k, Stable (Q k))
    (hbody : ∀ k, Begins k → ∀ log, Keeps I record (Q k) (body k) log)
    (houtside : ∀ now log a s, I log s →
      I (log ++ (outside now a s).2) (outside now a s).1)
    {s : σ}
    (hs : I [] s)
    (clock : ℕ)
    {acts : List (ℕ × Act (Running σ α) ι)}
    (hacts : ∀ a ∈ acts, ∀ i p, a.2 = .begin i p → Begins p.1 ∧ p = ⟨p.1, body p.1⟩) :
    let world := acts.foldl (turn (stepCall record) outside) (starting s clock)
    I world.log world.shared ∧
      ∀ i begun k a, world.calls i = some (begun, ⟨k, .done a⟩) → Q k world.log a := by
  have hrun := @invariant_of_turns _ _ _ _ (stepCall record) outside (fun _ => I)
    (fun log _ p => Keeps I record (Q p.1) p.2 log)
    (fun p => Begins p.1 ∧ p = ⟨p.1, body p.1⟩)
    (fun _ _ _ _ _ h => h)
    (fun log p hp => by
      rw [hp.2]
      exact hbody p.1 hp.1 log)
    (fun log entries _ p h => h.longer (hstable p.1) entries)
    (fun now log _ p s hI hp => keeps_stepCall hstable hI hp now)
    houtside (starting s clock) hs (fun i begun p hcall => by cases hcall) acts hacts
  exact ⟨hrun.1, fun i begun k a hcall => hrun.2 i begun ⟨k, .done a⟩ hcall⟩

end Turns

section Ignoring

open Interleaving

variable {σ : Type u} {α β : Type v} {η : Type v}

/-- The script does the same to a state that a change has been made to, and leaves the change
as it is. -/
def Ignores (change : σ → σ) : Script σ α → Prop
  | .done _ => True
  | .diverge => True
  | .step write next =>
      ∀ s, write (change s) = change (write s) ∧ next (change s) = next s ∧
        Ignores change (next s)

variable {change : σ → σ}

theorem Ignores.step
    {f : σ → Except η α × σ}
    (h : ∀ s, f (change s) = ((f s).1, change (f s).2)) :
    Ignores change (Try.step f).run := by
  intro s
  exact ⟨congrArg Prod.snd (h s), congrArg (fun r => Script.done r.1) (h s), trivial⟩

theorem Ignores.bind
    {x : Script σ α}
    {f : α → Script σ β}
    (hx : Ignores change x)
    (hf : ∀ a, Ignores change (f a)) :
    Ignores change (x >>= f) := by
  induction x with
  | done a =>
      exact hf a
  | diverge =>
      trivial
  | step write next ih =>
      intro s
      obtain ⟨hwrite, hnext, hrest⟩ := hx s
      exact ⟨hwrite, congrArg (fun x => x.bind f) hnext, ih s hrest⟩

theorem Ignores.bindOk
    {x : Try η σ α}
    {f : α → Try η σ β}
    (hx : Ignores change x.run)
    (hf : ∀ a, Ignores change (f a).run) :
    Ignores change (x >>= f).run := by
  refine Ignores.bind hx (fun result => ?_)
  cases result with
  | error e =>
      trivial
  | ok a =>
      exact hf a

variable {κ : Type v} {γ : κ → Type w} {ε : Type x} {ι : Type y} {record : σ → List ε}
  {outside : ℕ → ι → σ → σ × List ε}

/-- A world in which the change has been made. -/
def changed (change : σ → σ) (w : World σ (Running σ γ) ε) : World σ (Running σ γ) ε :=
  { w with shared := change w.shared }

/-- All calls ignore the change. -/
def AllIgnore (change : σ → σ) (w : World σ (Running σ γ) ε) : Prop :=
  ∀ i begun p, w.calls i = some (begun, p) → Ignores change p.2

theorem stepCall_changed
    (hrecord : ∀ s, record (change s) = record s)
    {p : Running σ γ}
    (hp : Ignores change p.2)
    (now : ℕ)
    (s : σ) :
    let out := stepCall record now p s
    stepCall record now p (change s) = ⟨out.stage, change out.shared, out.entries⟩ ∧
      Ignores change out.stage.2 := by
  obtain ⟨k, script⟩ := p
  cases script with
  | done a =>
      exact ⟨rfl, trivial⟩
  | diverge =>
      exact ⟨rfl, trivial⟩
  | step write next =>
      obtain ⟨hwrite, hnext, hrest⟩ := hp s
      refine ⟨?_, hrest⟩
      unfold stepCall
      dsimp only
      rw [hwrite, hnext, hrecord]

/-- **What all calls ignore changes nothing.**  A run from a state that the change has been
made to goes as the run from the state itself, and ends with the change made. -/
theorem turns_changed
    (hrecord : ∀ s, record (change s) = record s)
    (houtside : ∀ now a s,
      outside now a (change s) = (change (outside now a s).1, (outside now a s).2))
    {w : World σ (Running σ γ) ε}
    (hw : AllIgnore change w)
    {acts : List (ℕ × Act (Running σ γ) ι)}
    (hacts : ∀ a ∈ acts, ∀ i p, a.2 = .begin i p → Ignores change p.2) :
    acts.foldl (turn (stepCall record) outside) (changed change w) =
      changed change (acts.foldl (turn (stepCall record) outside) w) := by
  induction acts generalizing w with
  | nil =>
      rfl
  | cons a acts ih =>
      have hrest := fun a' (ha' : a' ∈ acts) => hacts a' (List.mem_cons_of_mem a ha')
      have hhead := hacts a List.mem_cons_self
      suffices h : turn (stepCall record) outside (changed change w) a =
          changed change (turn (stepCall record) outside w a) ∧
            AllIgnore change (turn (stepCall record) outside w a) by
        rw [List.foldl_cons, List.foldl_cons, h.1]
        exact ih h.2 hrest
      obtain ⟨elapsed, a⟩ := a
      cases a with
      | begin i p =>
          unfold turn changed
          dsimp only
          cases hcall : w.calls i with
          | some call =>
              exact ⟨rfl, hw⟩
          | none =>
              refine ⟨rfl, fun j begun p' hp' => ?_⟩
              rcases setCall_eq_some hp' with hnew | hold
              · cases hnew
                exact hhead i p rfl
              · exact hw j begun p' hold
      | run i =>
          unfold turn changed
          dsimp only
          cases hcall : w.calls i with
          | none =>
              exact ⟨rfl, hw⟩
          | some call =>
              obtain ⟨hstep, hstage⟩ :=
                stepCall_changed hrecord (hw i call.1 call.2 hcall) (w.clock + elapsed) w.shared
              refine ⟨?_, fun j begun p' hp' => ?_⟩
              · dsimp only
                rw [hstep]
              · rcases setCall_eq_some hp' with hnew | hold
                · cases hnew
                  exact hstage
                · exact hw j begun p' hold
      | outside a =>
          refine ⟨?_, hw⟩
          unfold turn changed
          dsimp only
          rw [houtside]

end Ignoring

end Script
end CertRelay
