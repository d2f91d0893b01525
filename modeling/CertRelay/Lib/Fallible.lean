import Mathlib.Data.List.Forall2

/-!
# Fallible computations over lists

Inversion rules for computations in `Except`, without and with a state: a bind
that succeeds has a successful first part, and a list traversal that succeeds
relates inputs and outputs position by position.  The last part is about the last
element of a list that satisfies a test, through such a relation.
-/

namespace CertRelay
namespace Fallible

universe u v w

section Inversion

variable {ε : Type u} {α β : Type v}

theorem bind_eq_ok
    {x : Except ε α}
    {f : α → Except ε β}
    {b : β} :
    (x >>= f) = .ok b ↔ ∃ a, x = .ok a ∧ f a = .ok b := by
  cases x with
  | error e =>
      constructor
      · intro h
        cases h
      · rintro ⟨a, h, _⟩
        cases h
  | ok a =>
      constructor
      · intro h
        exact ⟨a, rfl, h⟩
      · rintro ⟨a', h, hf⟩
        cases h
        exact hf

theorem ok_bind
    (a : α)
    (f : α → Except ε β) :
    ((.ok a : Except ε α) >>= f) = f a := by
  rfl

theorem mapError_eq_ok
    {ε' : Type u}
    {x : Except ε α}
    {f : ε → ε'}
    {a : α} :
    x.mapError f = .ok a ↔ x = .ok a := by
  cases x <;> simp [Except.mapError]

theorem toOption_eq_some
    {x : Except ε α}
    {a : α} :
    x.toOption = some a ↔ x = .ok a := by
  cases x <;> simp [Except.toOption]

theorem toOption_eq_none
    {x : Except ε α} :
    x.toOption = none ↔ ∀ a, ¬ x = .ok a := by
  cases x <;> simp [Except.toOption]

/-- A successful traversal relates inputs and outputs pointwise. -/
theorem mapM_eq_ok_iff
    {f : α → Except ε β}
    {l : List α}
    {m : List β} :
    l.mapM f = .ok m ↔ List.Forall₂ (fun a b => f a = .ok b) l m := by
  induction l generalizing m with
  | nil =>
      rw [List.mapM_nil, List.forall₂_nil_left_iff]
      constructor
      · intro h
        cases h
        rfl
      · rintro rfl
        rfl
  | cons a l ih =>
      rw [List.mapM_cons, bind_eq_ok, List.forall₂_cons_left_iff]
      constructor
      · rintro ⟨b, hb, htail⟩
        obtain ⟨bs, hbs, hm⟩ := bind_eq_ok.1 htail
        cases hm
        exact ⟨b, bs, hb, ih.1 hbs, rfl⟩
      · rintro ⟨b, bs, hb, hbs, rfl⟩
        exact ⟨b, hb, bind_eq_ok.2 ⟨bs, ih.2 hbs, rfl⟩⟩

/-- A fold whose step can only fail at the element is a traversal and then a fold. -/
theorem foldlM_eq_mapM
    {σ : Type v}
    (f : α → Except ε β)
    (g : σ → β → σ)
    (l : List α)
    (init : σ) :
    l.foldlM (fun s a => f a >>= fun b => pure (g s b)) init =
      (l.mapM f >>= fun bs => pure (bs.foldl g init)) := by
  induction l generalizing init with
  | nil =>
      rfl
  | cons a l ih =>
      rw [List.foldlM_cons, List.mapM_cons]
      cases f a with
      | error e =>
          rfl
      | ok b =>
          simp only [ok_bind, pure_bind, bind_assoc, List.foldl_cons]
          exact ih (g init b)

/-- A traversal of steps that all succeed succeeds. -/
theorem mapM_total
    {f : α → Except ε β}
    {l : List α}
    (h : ∀ a ∈ l, ∃ b, f a = .ok b) :
    ∃ m, l.mapM f = .ok m := by
  induction l with
  | nil =>
      exact ⟨[], rfl⟩
  | cons a l ih =>
      obtain ⟨b, hb⟩ := h a (by simp)
      obtain ⟨m, hm⟩ := ih (fun a' ha' => h a' (List.mem_cons_of_mem a ha'))
      exact ⟨b :: m, mapM_eq_ok_iff.2 (.cons hb (mapM_eq_ok_iff.1 hm))⟩

/-- What a traversal of steps that all succeed returns. -/
theorem mapM_eq_filterMap
    {f : α → Except ε β}
    {l : List α}
    (h : ∀ a ∈ l, ∃ b, f a = .ok b) :
    l.mapM f = .ok (l.filterMap (fun a => (f a).toOption)) := by
  induction l with
  | nil =>
      rfl
  | cons a l ih =>
      obtain ⟨b, hb⟩ := h a List.mem_cons_self
      have hcons : (a :: l).filterMap (fun a => (f a).toOption) =
          b :: l.filterMap (fun a => (f a).toOption) :=
        List.filterMap_cons_some (toOption_eq_some.2 hb)
      rw [List.mapM_cons, hb, ok_bind, ih (fun a' ha' => h a' (List.mem_cons_of_mem a ha')),
        ok_bind, hcons]
      rfl

/-- Leaving out steps that succeed does not change the error of a traversal. -/
theorem mapM_filter_eq_error
    {f : α → Except ε β}
    {keep : α → Bool}
    {l : List α}
    (hdrop : ∀ a ∈ l, keep a = false → ∃ b, f a = .ok b)
    {e : ε}
    (h : l.mapM f = .error e) :
    (l.filter keep).mapM f = .error e := by
  induction l with
  | nil =>
      cases h
  | cons a l ih =>
      have hrest := fun h => ih (fun b hb => hdrop b (List.mem_cons_of_mem a hb)) h
      rw [List.mapM_cons] at h
      cases hf : f a with
      | error e' =>
          rw [hf] at h
          cases h
          have hkeep : keep a = true := by
            by_contra hno
            obtain ⟨b, hb⟩ := hdrop a (by simp) (Bool.eq_false_iff.2 hno)
            rw [hf] at hb
            cases hb
          rw [List.filter_cons_of_pos hkeep, List.mapM_cons, hf]
          rfl
      | ok b =>
          rw [hf, ok_bind] at h
          have herror : l.mapM f = .error e := by
            cases hl : l.mapM f with
            | error e' =>
                rw [hl] at h
                cases h
                rfl
            | ok m =>
                rw [hl] at h
                cases h
          by_cases hkeep : keep a = true
          · rw [List.filter_cons_of_pos hkeep, List.mapM_cons, hf, ok_bind, hrest herror]
            rfl
          · rw [List.filter_cons_of_neg hkeep]
            exact hrest herror

theorem exists_of_forall₂_left
    {R : α → β → Prop}
    {l : List α}
    {m : List β}
    (h : List.Forall₂ R l m)
    {a : α}
    (ha : a ∈ l) :
    ∃ b ∈ m, R a b := by
  induction h with
  | nil =>
      cases ha
  | @cons a' b l m hab _ ih =>
      rcases List.mem_cons.1 ha with rfl | ha
      · exact ⟨b, by simp, hab⟩
      · obtain ⟨b', hb', hab'⟩ := ih ha
        exact ⟨b', List.mem_cons_of_mem b hb', hab'⟩

theorem exists_of_forall₂_right
    {R : α → β → Prop}
    {l : List α}
    {m : List β}
    (h : List.Forall₂ R l m)
    {b : β}
    (hb : b ∈ m) :
    ∃ a ∈ l, R a b := by
  obtain ⟨a, ha, hab⟩ := exists_of_forall₂_left h.flip hb
  exact ⟨a, ha, hab⟩

end Inversion

section Task

variable {ε σ α β : Type u}

/-- A fallible computation on a state; a failure leaves the state it has reached. -/
abbrev Task (ε σ α : Type u) := ExceptT ε (StateM σ) α

/-- A step that cannot fail. -/
def Task.always (step : σ → α × σ) : Task ε σ α :=
  fun s => ((.ok (step s).1, (step s).2) : Except ε α × σ)

theorem Task.pure_eq_ok
    {a b : α}
    {s s' : σ} :
    (pure a : Task ε σ α) s = (.ok b, s') ↔ a = b ∧ s = s' := by
  constructor
  · intro h
    cases h
    exact ⟨rfl, rfl⟩
  · rintro ⟨rfl, rfl⟩
    rfl

theorem Task.bind_apply
    (x : Task ε σ α)
    (f : α → Task ε σ β)
    (s : σ) :
    (x >>= f) s =
      match x s with
      | (.ok a, s₁) => f a s₁
      | (.error e, s₁) => (.error e, s₁) := by
  show (ExceptT.bindCont f (x s).1 (x s).2) = _
  rcases x s with ⟨_ | a, s₁⟩ <;> rfl

/-- A first part that succeeds hands over its value and its state. -/
theorem Task.bind_of_ok
    {x : Task ε σ α}
    {a : α}
    {s s₁ : σ}
    (h : x s = (.ok a, s₁))
    (f : α → Task ε σ β) :
    (x >>= f) s = f a s₁ := by
  rw [Task.bind_apply, h]

theorem Task.lift_ok
    (a : α)
    (s : σ) :
    (ExceptT.mk (pure (.ok a)) : Task ε σ α) s = (.ok a, s) := by
  rfl

theorem Task.adapt_of_ok
    {ε' : Type u}
    {x : Task ε σ α}
    {a : α}
    {s s₁ : σ}
    (h : x s = (.ok a, s₁))
    (f : ε → ε') :
    (ExceptT.adapt f x : Task ε' σ α) s = (.ok a, s₁) := by
  show ((x s).1.mapError f, (x s).2) = _
  rw [h]
  rfl

theorem Task.bind_eq_ok
    {x : Task ε σ α}
    {f : α → Task ε σ β}
    {b : β}
    {s s' : σ} :
    (x >>= f) s = (.ok b, s') ↔
      ∃ a s₁, x s = (.ok a, s₁) ∧ f a s₁ = (.ok b, s') := by
  rw [Task.bind_apply]
  rcases x s with ⟨e | a, s₁⟩
  · constructor
    · intro h
      cases h
    · rintro ⟨_, _, h, _⟩
      cases h
  · constructor
    · intro h
      exact ⟨a, s₁, rfl, h⟩
    · rintro ⟨_, _, h, hf⟩
      cases h
      exact hf

/-- Whatever a task returns, it leaves a state that is related to the one before it. -/
def Task.Steps (R : σ → σ → Prop) (x : Task ε σ α) : Prop :=
  ∀ s, R s (x s).2

variable {R : σ → σ → Prop}

theorem Task.Steps.always
    {step : σ → α × σ}
    (h : ∀ s, R s (step s).2) :
    Task.Steps R (Task.always step : Task ε σ α) :=
  h

theorem Task.Steps.unchanged
    (hrefl : ∀ s, R s s)
    (a : α) :
    Task.Steps R (pure a : Task ε σ α) :=
  hrefl

theorem Task.Steps.lift
    (hrefl : ∀ s, R s s)
    (r : Except ε α) :
    Task.Steps R (ExceptT.mk (pure r) : Task ε σ α) :=
  hrefl

theorem Task.Steps.adapt
    {ε' : Type u}
    {x : Task ε σ α}
    (h : Task.Steps R x)
    (f : ε → ε') :
    Task.Steps R (ExceptT.adapt f x : Task ε' σ α) :=
  h

theorem Task.Steps.bind
    (htrans : ∀ a b c, R a b → R b c → R a c)
    {x : Task ε σ α}
    (hx : Task.Steps R x)
    {f : α → Task ε σ β}
    (hf : ∀ a, Task.Steps R (f a)) :
    Task.Steps R (x >>= f) := by
  intro s
  have hfirst := hx s
  rw [Task.bind_apply]
  cases hrun : x s with
  | mk r s₁ =>
      rw [hrun] at hfirst
      cases r with
      | error e =>
          exact hfirst
      | ok a =>
          exact htrans s s₁ _ hfirst (hf a s₁)

end Task

section LastMatch

variable {α : Type u} {β : Type v}

/-- The last element of a list that satisfies `p`. -/
def lastMatch (p : α → Bool) (l : List α) : Option α :=
  (l.filter p).getLast?

@[simp] theorem lastMatch_nil
    (p : α → Bool) :
    lastMatch p [] = none := by
  rfl

theorem lastMatch_cons
    (p : α → Bool)
    (a : α)
    (l : List α) :
    lastMatch p (a :: l) =
      (lastMatch p l).or (if p a then some a else none) := by
  unfold lastMatch
  by_cases h : p a = true
  · rw [List.filter_cons_of_pos h, List.getLast?_cons, if_pos h]
    cases (l.filter p).getLast? <;> rfl
  · rw [List.filter_cons_of_neg h, if_neg h, Option.or_none]

theorem lastMatch_concat
    (p : α → Bool)
    (l : List α)
    (a : α) :
    lastMatch p (l ++ [a]) = if p a then some a else lastMatch p l := by
  unfold lastMatch
  rw [List.filter_append]
  by_cases h : p a = true
  · rw [List.filter_cons_of_pos h, if_pos h, List.filter_nil, List.getLast?_concat]
  · rw [List.filter_cons_of_neg h, if_neg h, List.filter_nil, List.append_nil]

/-- A loop that keeps what it finds keeps the last. -/
theorem foldl_or_eq_getLast?
    (f : α → Option β)
    (l : List α)
    (init : Option β) :
    l.foldl (fun acc a => (f a).or acc) init = ((l.filterMap f).getLast?).or init := by
  induction l generalizing init with
  | nil =>
      rfl
  | cons a l ih =>
      rw [List.foldl_cons, ih]
      cases hf : f a with
      | none =>
          rw [List.filterMap_cons_none hf, Option.none_or]
      | some b =>
          rw [List.filterMap_cons_some hf, List.getLast?_cons]
          cases (l.filterMap f).getLast? <;> rfl

theorem foldl_getD_eq_getLast?
    (f : α → Option β)
    (l : List α)
    (init : β) :
    l.foldl (fun acc a => (f a).getD acc) init = ((l.filterMap f).getLast?).getD init := by
  induction l generalizing init with
  | nil =>
      rfl
  | cons a l ih =>
      rw [List.foldl_cons, ih]
      cases hf : f a with
      | none =>
          rw [List.filterMap_cons_none hf, Option.getD_none]
      | some b =>
          rw [List.filterMap_cons_some hf, List.getLast?_cons]
          cases (l.filterMap f).getLast? <;> rfl

theorem lastMatch_mem
    {p : α → Bool}
    {l : List α}
    {a : α}
    (h : lastMatch p l = some a) :
    a ∈ l ∧ p a = true :=
  List.mem_filter.1 (List.mem_of_getLast? h)

theorem lastMatch_eq_none
    {p : α → Bool}
    {l : List α} :
    lastMatch p l = none ↔ ∀ a ∈ l, p a = false := by
  simp [lastMatch]

theorem lastMatch_congr
    {p q : α → Bool}
    {l : List α}
    (h : ∀ a ∈ l, p a = q a) :
    lastMatch p l = lastMatch q l := by
  unfold lastMatch
  rw [List.filter_congr h]

/-- Related lists have related last matches. -/
theorem lastMatch_rel
    {R : α → β → Prop}
    {p : α → Bool}
    {q : β → Bool}
    (hpq : ∀ a b, R a b → p a = q b)
    {l : List α}
    {m : List β}
    (h : List.Forall₂ R l m) :
    Option.Rel R (lastMatch p l) (lastMatch q m) := by
  induction h with
  | nil =>
      exact .none
  | @cons a b l m hab _ ih =>
      rw [lastMatch_cons, lastMatch_cons, hpq a b hab]
      generalize lastMatch p l = x at ih ⊢
      generalize lastMatch q m = y at ih ⊢
      cases ih with
      | some hrel =>
          exact .some hrel
      | none =>
          cases q b with
          | true =>
              exact .some hab
          | false =>
              exact .none

/-- The last match among the images is the image of the last match. -/
theorem lastMatch_filterMap
    {f : α → Option β}
    {p : α → Bool}
    {q : β → Bool}
    (hpq : ∀ a b, f a = some b → p a = q b)
    (l : List α) :
    lastMatch q (l.filterMap f) =
      (lastMatch (fun a => p a && (f a).isSome) l).bind f := by
  induction l with
  | nil =>
      rfl
  | cons a l ih =>
      rw [lastMatch_cons]
      cases hf : f a with
      | none =>
          rw [List.filterMap_cons_none hf, ih]
          simp
      | some b =>
          rw [List.filterMap_cons_some hf, lastMatch_cons, ih, hpq a b hf]
          cases hl : lastMatch (fun a => p a && (f a).isSome) l with
          | some a' =>
              have hmem := (lastMatch_mem hl).2
              rw [Bool.and_eq_true, Option.isSome_iff_exists] at hmem
              obtain ⟨b', hb'⟩ := hmem.2
              simp [hb']
          | none =>
              cases q b with
              | true =>
                  simp [hf]
              | false =>
                  simp

end LastMatch

end Fallible
end CertRelay
