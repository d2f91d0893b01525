import CertRelay.Lib.KeyedTable

/-!
# Cooldowns

A table holds the last time of each key.  A key whose last time is less than a cooldown ago
has to wait; otherwise its time is recorded, and times older than some horizon are dropped.
If the horizon is not shorter than the cooldown, dropping them is not noticed.

**Results.**
* `Remembers.later`: time passes;
* `Remembers.record`: recording a key that need not wait keeps the times of each key a
  cooldown apart.
-/

namespace CertRelay
namespace Cooldown

universe u

variable {κ : Type u} [DecidableEq κ] {cooldown horizon now : ℕ}

/-- The last time of each key. -/
abbrev Times (κ : Type u) [DecidableEq κ] : Type u :=
  KeyedTable (κ × ℕ) Prod.fst

/-- The last time of a key is less than the cooldown ago. -/
def waits (cooldown now : ℕ) (k : κ) (times : Times κ) : Bool :=
  (times.find? k).any (fun e => decide (now - e.2 < cooldown))

/-- Record the time of a key, and drop old times. -/
def record (horizon now : ℕ) (k : κ) (times : Times κ) : Times κ :=
  (times.insertOrReplace (k, now)).filter (fun e => decide (now - e.2 < horizon))

/-- The times of each key are a cooldown apart. -/
def Paced (cooldown : ℕ) (starts : List (κ × ℕ)) : Prop :=
  starts.Pairwise (fun a b => a.1 = b.1 → a.2 + cooldown ≤ b.2)

/-- The times so far are paced, and the table has those that still matter. -/
structure Remembers (cooldown now : ℕ) (starts : List (κ × ℕ)) (times : Times κ) : Prop where
  paced : Paced cooldown starts
  past : ∀ e ∈ starts, e.2 ≤ now
  recent : ∀ e ∈ starts, now < e.2 + cooldown → ∃ t, times.find? e.1 = some (e.1, t) ∧ e.2 ≤ t

theorem remembers_nil
    (times : Times κ) :
    Remembers cooldown now [] times :=
  ⟨List.Pairwise.nil, by simp, by simp⟩

theorem Remembers.later
    {starts : List (κ × ℕ)}
    {times : Times κ}
    (h : Remembers cooldown now starts times)
    {now' : ℕ}
    (hle : now ≤ now') :
    Remembers cooldown now' starts times :=
  ⟨h.paced, fun e he => (h.past e he).trans hle,
    fun e he hlt => h.recent e he (hle.trans_lt hlt)⟩

/-- A time that is recorded without a start makes keys wait longer only. -/
theorem Remembers.insert
    {starts : List (κ × ℕ)}
    {times : Times κ}
    (h : Remembers cooldown now starts times)
    (k : κ) :
    Remembers cooldown now starts (times.insertOrReplace (k, now)) := by
  refine ⟨h.paced, h.past, fun e he hlt => ?_⟩
  by_cases hkey : e.1 = k
  · rw [hkey]
    exact ⟨now, times.find?_insertOrReplace_self (k, now), h.past e he⟩
  · obtain ⟨t, hfind, hle⟩ := h.recent e he hlt
    have hother : k ≠ e.1 := fun heq => hkey heq.symm
    exact ⟨t, (times.find?_insertOrReplace_ne hother).trans hfind, hle⟩

/-- A key that need not wait was last met a cooldown ago. -/
theorem Remembers.due
    {starts : List (κ × ℕ)}
    {times : Times κ}
    (h : Remembers cooldown now starts times)
    {k : κ}
    (hk : waits cooldown now k times = false)
    {e : κ × ℕ}
    (he : e ∈ starts)
    (hkey : e.1 = k) :
    e.2 + cooldown ≤ now := by
  by_contra hlt
  obtain ⟨t, hfind, hle⟩ := h.recent e he (Nat.lt_of_not_le hlt)
  have hpast := h.past e he
  unfold waits at hk
  rw [← hkey, hfind] at hk
  simp only [Option.any_some, decide_eq_false_iff_not] at hk
  omega

/-- **Recording a key that need not wait keeps the pace.** -/
theorem Remembers.record
    {starts : List (κ × ℕ)}
    {times : Times κ}
    (h : Remembers cooldown now starts times)
    {k : κ}
    (hk : waits cooldown now k times = false)
    (hhorizon : cooldown ≤ horizon) :
    Remembers cooldown now (starts ++ [(k, now)]) (record horizon now k times) := by
  have hkept : ∀ e : κ × ℕ, e.2 ≤ now → now < e.2 + cooldown →
      ∀ r ∈ (times.insertOrReplace (k, now)).rows, e.2 ≤ r.2 →
        (Cooldown.record horizon now k times).find? r.1 = some r := by
    intro e _ hlt r hr hle
    refine KeyedTable.find?_key (KeyedTable.mem_filter.2 ⟨hr, decide_eq_true ?_⟩)
    omega
  refine ⟨?_, ?_, ?_⟩
  · refine List.pairwise_append.2 ⟨h.paced, List.pairwise_singleton _ _, ?_⟩
    intro e he b hb hkey
    rw [List.mem_singleton.1 hb] at hkey ⊢
    exact h.due hk he hkey
  · intro e he
    rcases List.mem_append.1 he with he | he
    · exact h.past e he
    · rw [List.mem_singleton.1 he]
  · intro e he hlt
    have hpast : e.2 ≤ now := by
      rcases List.mem_append.1 he with he | he
      · exact h.past e he
      · rw [List.mem_singleton.1 he]
    by_cases hkey : e.1 = k
    · have hr : (k, now) ∈ (times.insertOrReplace (k, now)).rows :=
        KeyedTable.mem_insertOrReplace.2 (.inr rfl)
      rw [hkey]
      exact ⟨now, hkept e hpast hlt _ hr hpast, hpast⟩
    · have hold : e ∈ starts := by
        rcases List.mem_append.1 he with he | he
        · exact he
        · rw [List.mem_singleton.1 he] at hkey
          exact absurd rfl hkey
      obtain ⟨t, hfind, hle⟩ := h.recent e hold hlt
      have hr : (e.1, t) ∈ (times.insertOrReplace (k, now)).rows :=
        KeyedTable.mem_insertOrReplace.2
          (.inl ⟨(KeyedTable.find?_eq_some_iff.1 hfind).1, hkey⟩)
      exact ⟨t, hkept e hpast hlt _ hr hle, hle⟩

end Cooldown
end CertRelay
