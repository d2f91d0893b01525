import Mathlib.Logic.Function.Basic
import Mathlib.Order.Basic
import Mathlib.Order.Lattice
import Mathlib.Tactic.SplitIfs

/-!
# Keyed token buckets

A rate limiter holds a bucket of tokens for each key.  A bucket refills by one token each
period, up to its burst, and a request takes one token or is refused.  The state is kept
as one instant for each key: when its bucket will be full again.  A key that was never
used has a full bucket.

A limiter whose state is not known still goes by such instants if it runs the generic cell
rate algorithm; token buckets are one that does.

**Results.**
* `take_of_alike`: buckets that are full at the same instants answer alike and stay alike;
* `alike_forget`: dropping full buckets from the state changes nothing that can be seen;
* `take_of_empty`: a refused request changes nothing;
* `le_take`, `due_lt_take`: a granted one puts off the instant of its key, and no request
  brings one forward;
* `Buckets.gcra`: token buckets go by the generic cell rate algorithm;
* `Gcra.check_of_due`: a key goes by its own bucket;
* `Gcra.grants_le`: in a stretch of time a key is granted its burst, and one for each period.
-/

namespace CertRelay

universe u v

/-- One token each `period`, and at most `burst` of them. -/
structure Quota where
  period : ℕ
  burst : ℕ
  period_pos : 0 < period

/-- For each key, the instant at which its bucket is full again. -/
abbrev Buckets (κ : Type u) : Type u :=
  κ → ℕ

namespace Buckets

variable {κ : Type u}

/-- No key was used. -/
def fresh : Buckets κ :=
  fun _ => 0

/-- The instant at which a bucket is full, as seen at `now`. -/
def due (b : Buckets κ) (now : ℕ) (k : κ) : ℕ :=
  max (b k) now

/-- The tokens in a bucket at `now`. -/
def tokens (q : Quota) (b : Buckets κ) (now : ℕ) (k : κ) : ℕ :=
  (q.period * q.burst - (b.due now k - now)) / q.period

/-- Take a token if there is one. -/
def take [DecidableEq κ] (q : Quota) (now : ℕ) (k : κ) (b : Buckets κ) : Bool × Buckets κ :=
  if 0 < b.tokens q now k then (true, Function.update b k (b.due now k + q.period))
  else (false, b)

theorem due_mono
    (b : Buckets κ)
    {now later : ℕ}
    (h : now ≤ later)
    (k : κ) :
    b.due now k ≤ b.due later k := by
  unfold due
  omega

/-- Drop the buckets that are full. -/
def forget (now : ℕ) (b : Buckets κ) : Buckets κ :=
  fun k => if b k ≤ now then 0 else b k

/-- The buckets hold the same tokens at `now` and at any later instant. -/
def Alike (now : ℕ) (b b' : Buckets κ) : Prop :=
  ∀ k, b.due now k = b'.due now k

section Alike

variable {now : ℕ} {b b' b'' : Buckets κ}

theorem Alike.refl
    (now : ℕ)
    (b : Buckets κ) :
    Alike now b b :=
  fun _ => rfl

theorem Alike.symm
    (h : Alike now b b') :
    Alike now b' b :=
  fun k => (h k).symm

theorem Alike.trans
    (h : Alike now b b')
    (h' : Alike now b' b'') :
    Alike now b b'' :=
  fun k => (h k).trans (h' k)

/-- What is alike stays alike while time passes. -/
theorem Alike.mono
    (h : Alike now b b')
    {later : ℕ}
    (hlater : now ≤ later) :
    Alike later b b' := by
  intro k
  have hk := h k
  unfold due at hk ⊢
  omega

theorem alike_forget
    (now : ℕ)
    (b : Buckets κ) :
    Alike now (b.forget now) b := by
  intro k
  unfold due forget
  split_ifs <;> omega

theorem Alike.tokens_eq
    (h : Alike now b b')
    (q : Quota)
    (k : κ) :
    b.tokens q now k = b'.tokens q now k := by
  unfold tokens
  rw [h k]

end Alike

section Take

variable [DecidableEq κ] {q : Quota} {now : ℕ} {b b' : Buckets κ}

theorem due_update
    (b : Buckets κ)
    (now : ℕ)
    (k : κ)
    (instant : ℕ)
    (j : κ) :
    due (Function.update b k instant) now j =
      if j = k then max instant now else b.due now j := by
  unfold due
  rw [Function.update_apply]
  split_ifs <;> rfl

/-- A refused request changes nothing. -/
theorem take_of_empty
    {k : κ}
    (h : b.tokens q now k = 0) :
    b.take q now k = (false, b) := by
  unfold take
  rw [if_neg (by omega)]

theorem take_of_pos
    {k : κ}
    (h : 0 < b.tokens q now k) :
    b.take q now k = (true, Function.update b k (b.due now k + q.period)) := by
  unfold take
  rw [if_pos h]

/-- **Buckets that are alike answer alike and stay alike.** -/
theorem take_of_alike
    (h : Alike now b b')
    (k : κ) :
    (b.take q now k).1 = (b'.take q now k).1 ∧
      Alike now (b.take q now k).2 (b'.take q now k).2 := by
  have htokens := h.tokens_eq q k
  rcases Nat.eq_zero_or_pos (b.tokens q now k) with hempty | hpos
  · rw [take_of_empty hempty, take_of_empty (htokens.symm.trans hempty)]
    exact ⟨rfl, h⟩
  · rw [take_of_pos hpos, take_of_pos (htokens ▸ hpos)]
    refine ⟨rfl, fun j => ?_⟩
    rw [due_update, due_update, h k, h j]

/-- A request leaves the buckets of the other keys alone. -/
theorem due_take_of_ne
    {j k : κ}
    (h : j ≠ k)
    (b : Buckets κ) :
    (b.take q now k).2.due now j = b.due now j := by
  rcases Nat.eq_zero_or_pos (b.tokens q now k) with hempty | hpos
  · rw [take_of_empty hempty]
  · rw [take_of_pos hpos]
    show due (Function.update b k (b.due now k + q.period)) now j = b.due now j
    rw [due_update, if_neg h]

/-- No request brings the instant of a key forward. -/
theorem le_take
    (q : Quota)
    (now : ℕ)
    (k : κ)
    (b : Buckets κ)
    (j : κ) :
    b.due now j ≤ (b.take q now k).2.due now j := by
  rcases Nat.eq_zero_or_pos (b.tokens q now k) with hempty | hpos
  · rw [take_of_empty hempty]
  · rw [take_of_pos hpos]
    show b.due now j ≤ due (Function.update b k (b.due now k + q.period)) now j
    rw [due_update]
    split_ifs with hj
    · rw [hj]
      omega
    · exact le_rfl

/-- A granted request puts off the instant of its key. -/
theorem due_lt_take
    {k : κ}
    (h : 0 < b.tokens q now k) :
    b.due now k < (b.take q now k).2.due now k := by
  rw [take_of_pos h]
  show b.due now k < due (Function.update b k (b.due now k + q.period)) now k
  rw [due_update, if_pos rfl]
  have hperiod := q.period_pos
  omega

end Take

end Buckets

section Limiters

variable {κ : Type u} {σ : Type v}

/-- A limiter with a state: `check` answers a request of a key at an instant, and `retain` drops
what is not needed any more. -/
structure Keyed (κ : Type u) (σ : Type v) where
  check : ℕ → κ → σ → Bool × σ
  retain : ℕ → σ → σ

/-- A request of a key, or a cleanup, at an instant. -/
structure Use (κ : Type u) where
  time : ℕ
  key : Option κ

/-- Answer a request, or clean up. -/
def Keyed.serve (L : Keyed κ σ) (s : σ) (u : Use κ) : Bool × σ :=
  match u.key with
  | some k => L.check u.time k s
  | none => (false, L.retain u.time s)

/-- How often a key is granted its request in a run. -/
def Keyed.grants [DecidableEq κ] (L : Keyed κ σ) (k : κ) : σ → List (Use κ) → ℕ
  | _, [] => 0
  | s, u :: us =>
      (if u.key = some k ∧ (L.serve s u).1 = true then 1 else 0) +
        L.grants k (L.serve s u).2 us

theorem Keyed.grants_cons
    [DecidableEq κ]
    (L : Keyed κ σ)
    (k : κ)
    (s : σ)
    (u : Use κ)
    (us : List (Use κ)) :
    L.grants k s (u :: us) =
      (if u.key = some k ∧ (L.serve s u).1 = true then 1 else 0) +
        L.grants k (L.serve s u).2 us := by
  rfl

/-- The generic cell rate algorithm: a request is granted if, put off by a period, its key
is not further ahead than the burst allows; a granted one puts its key off by a period; nothing
else can be told from how it was. -/
structure Gcra (period burst : ℕ) (L : Keyed κ σ) (full : σ → Buckets κ) : Prop where
  period_pos : 0 < period
  granted : ∀ now k s, (L.check now k s).1 = true ↔
    (full s).due now k + period ≤ now + period * burst
  own : ∀ now k s, (full (L.check now k s).2).due now k =
    (full s).due now k + if (L.check now k s).1 then period else 0
  other : ∀ now k s j, j ≠ k → (full (L.check now k s).2).due now j = (full s).due now j
  retained : ∀ now s k, (full (L.retain now s)).due now k = (full s).due now k

/-- Token buckets go by it. -/
theorem Buckets.gcra
    [DecidableEq κ]
    (q : Quota) :
    Gcra q.period q.burst (⟨Buckets.take q, Buckets.forget⟩ : Keyed κ (Buckets κ)) id where
  period_pos := q.period_pos
  granted now k b := by
    have hnow : now ≤ b.due now k := le_max_right _ _
    have hroom : 0 < b.tokens q now k ↔ b.due now k + q.period ≤ now + q.period * q.burst := by
      unfold tokens
      rw [Nat.div_pos_iff]
      have hperiod := q.period_pos
      omega
    refine Iff.trans ?_ hroom
    rcases Nat.eq_zero_or_pos (b.tokens q now k) with hempty | hpos
    · simp [take_of_empty hempty, hempty]
    · simp [take_of_pos hpos, hpos]
  own now k b := by
    rcases Nat.eq_zero_or_pos (b.tokens q now k) with hempty | hpos
    · simp [take_of_empty hempty]
    · have hnow : now ≤ b.due now k := le_max_right _ _
      simp only [take_of_pos hpos, id_eq, due_update, if_true]
      omega
  other now k b j hne := due_take_of_ne hne b
  retained now b k := alike_forget now b k

namespace Gcra

variable {period burst : ℕ} {L : Keyed κ σ} {full : σ → Buckets κ}

/-- **A key goes by its own bucket.** -/
theorem check_of_due
    (h : Gcra period burst L full)
    {now : ℕ}
    {k : κ}
    {s s' : σ}
    (hdue : (full s).due now k = (full s').due now k) :
    (L.check now k s).1 = (L.check now k s').1 ∧
      (full (L.check now k s).2).due now k = (full (L.check now k s').2).due now k := by
  have hanswer : (L.check now k s).1 = (L.check now k s').1 := by
    rw [Bool.eq_iff_iff, h.granted, h.granted, hdue]
  refine ⟨hanswer, ?_⟩
  rw [h.own, h.own, hanswer, hdue]

/-- What one use does to the instant of a key: it is put off by a period, and no further than
the burst allows, or it stays. -/
theorem due_serve
    (h : Gcra period burst L full)
    (s : σ)
    (u : Use κ)
    (k : κ) :
    (u.key = some k ∧ (L.serve s u).1 = true ∧
        (full (L.serve s u).2).due u.time k = (full s).due u.time k + period ∧
        (full s).due u.time k + period ≤ u.time + period * burst) ∨
      (¬ (u.key = some k ∧ (L.serve s u).1 = true) ∧
        (full (L.serve s u).2).due u.time k = (full s).due u.time k) := by
  unfold Keyed.serve
  cases hkey : u.key with
  | none =>
      refine .inr ⟨?_, h.retained u.time s k⟩
      rintro ⟨hnone, _⟩
      cases hnone
  | some j =>
      dsimp only
      by_cases hjk : j = k
      · subst hjk
        have hown := h.own u.time j s
        cases hcheck : (L.check u.time j s).1 with
        | true =>
            rw [hcheck, if_pos rfl] at hown
            exact .inl ⟨rfl, rfl, hown, (h.granted u.time j s).1 hcheck⟩
        | false =>
            rw [hcheck, if_neg Bool.false_ne_true] at hown
            exact .inr ⟨fun hand => Bool.false_ne_true hand.2, hown⟩
      · exact .inr ⟨fun hand => hjk (Option.some.inj hand.1),
          h.other u.time j s k (Ne.symm hjk)⟩

variable [DecidableEq κ]

/-- Every grant puts the instant of the key off, which ends no later than the burst allows. -/
theorem grants_due_le
    (h : Gcra period burst L full)
    {k : κ}
    {s : σ}
    {uses : List (Use κ)}
    (hsorted : uses.Pairwise (fun u v => u.time ≤ v.time))
    {now stop : ℕ}
    (hnow : ∀ u ∈ uses, now ≤ u.time)
    (hstop : ∀ u ∈ uses, u.time ≤ stop) :
    L.grants k s uses = 0 ∨
      L.grants k s uses * period + (full s).due now k ≤ stop + period * burst := by
  induction uses generalizing s now with
  | nil =>
      exact .inl rfl
  | cons u us ih =>
      obtain ⟨hfirst, hrest⟩ := List.pairwise_cons.1 hsorted
      have htime := hnow u List.mem_cons_self
      have hend := hstop u List.mem_cons_self
      have hdue := Buckets.due_mono (full s) htime k
      have hnext := ih (s := (L.serve s u).2) hrest (fun v hv => hfirst v hv)
        (fun v hv => hstop v (List.mem_cons_of_mem _ hv))
      rw [Keyed.grants_cons]
      rcases h.due_serve s u k with ⟨hkey, hgranted, hput, hroom⟩ | ⟨hnot, hsame⟩
      · rw [if_pos ⟨hkey, hgranted⟩]
        right
        rcases hnext with hzero | hle
        · rw [hzero]
          omega
        · rw [hput] at hle
          rw [Nat.add_mul, Nat.one_mul]
          omega
      · rw [if_neg hnot, Nat.zero_add]
        rcases hnext with hzero | hle
        · exact .inl hzero
        · right
          rw [hsame] at hle
          omega

/-- **In a stretch of time a key is granted its burst, and one for each period**, whatever
the other keys ask and whenever the limiter is cleaned up. -/
theorem grants_le
    (h : Gcra period burst L full)
    (k : κ)
    (s : σ)
    {uses : List (Use κ)}
    (hsorted : uses.Pairwise (fun u v => u.time ≤ v.time))
    {start stop : ℕ}
    (hstart : ∀ u ∈ uses, start ≤ u.time)
    (hstop : ∀ u ∈ uses, u.time ≤ stop) :
    L.grants k s uses ≤ burst + (stop - start) / period := by
  rcases h.grants_due_le (k := k) (s := s) hsorted hstart hstop with hzero | hle
  · rw [hzero]
    exact Nat.zero_le _
  · have hdue : start ≤ (full s).due start k := le_max_right _ _
    have hmul : L.grants k s uses * period ≤ (stop - start) + burst * period := by
      rw [Nat.mul_comm burst]
      omega
    calc L.grants k s uses
        ≤ ((stop - start) + burst * period) / period :=
          (Nat.le_div_iff_mul_le h.period_pos).2 hmul
      _ = burst + (stop - start) / period := by
          rw [Nat.add_mul_div_right _ _ h.period_pos, Nat.add_comm]

end Gcra

end Limiters
end CertRelay
