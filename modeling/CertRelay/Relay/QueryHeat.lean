import CertRelay.Lib.Recency
import CertRelay.Relay.Retention

/-!
# The heat of handles

Handles that are asked for are noted in the younger of two sets; when it is full it becomes
the older one, whose handles are forgotten.

**Results.**
* `generations_foldl`: the two sets hold the last two parts of what was touched;
* `heat_window`: the hot handles are a recency window.
-/

namespace CertRelay

open Recency

/-- `QueryHeat::new`. -/
def QueryHeat.new : QueryHeat :=
  ⟨[], []⟩

/-- The capacity that `QueryHeat::new` keeps. -/
def QueryHeat.capOf (cap : ℕ) : ℕ :=
  max cap 1

/-- `QueryHeat::touch`. -/
def QueryHeat.touch (cap : ℕ) (heat : QueryHeat) (handle : String) : QueryHeat :=
  let heat := if cap ≤ heat.active.length then ⟨[], heat.active⟩ else heat
  { heat with active := heat.active.insert handle }

/-- `QueryHeat::default`. -/
def QueryHeat.defaultCap : ℕ := 50000

section Generations

variable {cap : ℕ}

/-- The sets hold the last two parts of a history; if that is not all of it, the older one
is full. -/
structure Generations (cap : ℕ) (history middle recent : List String) (heat : QueryHeat) :
    Prop where
  suffix : middle ++ recent <:+ history
  prev : ∀ h, h ∈ heat.prev ↔ h ∈ middle
  active : ∀ h, h ∈ heat.active ↔ h ∈ recent
  nodupPrev : heat.prev.Nodup
  nodupActive : heat.active.Nodup
  prev_le : heat.prev.length ≤ cap
  active_le : heat.active.length ≤ cap
  enough : middle ++ recent = history ∨ cap ≤ heat.prev.length

/-- One touch keeps the generations. -/
theorem generations_touch
    (hcap : 1 ≤ cap)
    {history middle recent : List String}
    {heat : QueryHeat}
    (h : Generations cap history middle recent heat)
    (handle : String) :
    ∃ middle' recent',
      Generations cap (history ++ [handle]) middle' recent' (heat.touch cap handle) := by
  unfold QueryHeat.touch
  dsimp only
  split_ifs with hfull
  · -- the younger set becomes the older one
    refine ⟨recent, [handle], ?_, h.active, fun x => by simp, h.nodupActive, by simp,
      h.active_le, by simpa using hcap, Or.inr hfull⟩
    have hsuffix : recent <:+ history := (List.suffix_append middle recent).trans h.suffix
    exact List.suffix_append_self_iff.2 hsuffix
  · refine ⟨middle, recent ++ [handle], ?_, h.prev, fun x => ?_, h.nodupPrev,
      h.nodupActive.insert, h.prev_le, ?_, ?_⟩
    · rw [← List.append_assoc]
      exact List.suffix_append_self_iff.2 h.suffix
    · rw [List.mem_insert_iff, h.active, List.mem_append, List.mem_singleton, or_comm]
    · rw [List.length_insert]
      split_ifs <;> omega
    · refine h.enough.imp_left (fun hall => ?_)
      rw [← hall, List.append_assoc]

/-- **The two sets hold the last two parts of what was touched.** -/
theorem generations_foldl
    (hcap : 1 ≤ cap)
    (touches : List String) :
    ∃ middle recent,
      Generations cap touches middle recent (touches.foldl (QueryHeat.touch cap) .new) := by
  induction touches using List.reverseRecOn with
  | nil =>
      exact ⟨[], [], List.suffix_rfl, fun _ => Iff.rfl, fun _ => Iff.rfl, List.nodup_nil,
        List.nodup_nil, Nat.zero_le _, Nat.zero_le _, Or.inl rfl⟩
  | append_singleton touches handle ih =>
      obtain ⟨middle, recent, h⟩ := ih
      rw [List.foldl_append]
      exact generations_touch hcap h handle

variable {history middle recent : List String} {heat : QueryHeat}

theorem Generations.isHot_iff
    (h : Generations cap history middle recent heat)
    (handle : String) :
    heat.isHot handle = true ↔ handle ∈ middle ++ recent := by
  unfold QueryHeat.isHot
  rw [Bool.or_eq_true, decide_eq_true_iff, decide_eq_true_iff, h.prev, h.active,
    List.mem_append, or_comm]

/-- Generations are a recency window. -/
theorem Generations.isWindow
    (h : Generations cap history middle recent heat) :
    IsWindow cap history (middle ++ recent) := by
  have hprev : middle.toFinset = heat.prev.toFinset := by
    ext x
    rw [List.mem_toFinset, List.mem_toFinset, h.prev]
  have hactive : recent.toFinset = heat.active.toFinset := by
    ext x
    rw [List.mem_toFinset, List.mem_toFinset, h.active]
  have hprevCard : middle.toFinset.card = heat.prev.length := by
    rw [hprev, List.toFinset_card_of_nodup h.nodupPrev]
  have hactiveCard : recent.toFinset.card = heat.active.length := by
    rw [hactive, List.toFinset_card_of_nodup h.nodupActive]
  have hprev_le := h.prev_le
  have hactive_le := h.active_le
  refine ⟨h.suffix, ?_, ?_⟩
  · have hunion := Finset.card_union_le middle.toFinset recent.toFinset
    rw [List.toFinset_append]
    omega
  · refine h.enough.imp (fun hall a ha => ?_) (fun hfull => ?_)
    · rw [hall]
      exact ha
    have hsub : middle.toFinset ⊆ (middle ++ recent).toFinset := by
      rw [List.toFinset_append]
      exact Finset.subset_union_left
    exact hfull.trans (hprevCard ▸ Finset.card_le_card hsub)

/-- **The hot handles are a recency window**, so a handle with few distinct others touched
after it is hot. -/
theorem heat_window
    {cap : ℕ}
    (hcap : 1 ≤ cap)
    (touches : List String) :
    (∃ recent, IsWindow cap touches recent ∧
      ∀ h, (touches.foldl (QueryHeat.touch (QueryHeat.capOf cap)) .new).isHot h = true ↔
        h ∈ recent) ∧
    ∀ before h after, touches = before ++ h :: after → (after.toFinset.erase h).card < cap →
      (touches.foldl (QueryHeat.touch (QueryHeat.capOf cap)) .new).isHot h = true := by
  rw [show QueryHeat.capOf cap = cap from max_eq_left hcap]
  obtain ⟨middle, recent, h⟩ := generations_foldl hcap touches
  refine ⟨⟨_, h.isWindow, h.isHot_iff⟩, fun before handle after htouches hfew => ?_⟩
  exact (h.isHot_iff handle).2 (h.isWindow.mem_of_few_after htouches hfew)

theorem heat_window_two :
    (∃ recent, IsWindow 2 ["a", "b", "c", "d", "e"] recent ∧
      ∀ h, (["a", "b", "c", "d", "e"].foldl (QueryHeat.touch (QueryHeat.capOf 2)) .new).isHot h =
        true ↔ h ∈ recent) ∧
    ∀ before h after, ["a", "b", "c", "d", "e"] = before ++ h :: after →
      (after.toFinset.erase h).card < 2 →
        (["a", "b", "c", "d", "e"].foldl (QueryHeat.touch (QueryHeat.capOf 2)) .new).isHot h =
          true :=
  heat_window (by decide) ["a", "b", "c", "d", "e"]

/-- In sets of two, five touches have made the first two handles cold. -/
example :
    ["a", "b", "c", "d", "e"].filter (fun h =>
      (["a", "b", "c", "d", "e"].foldl (QueryHeat.touch 2) .new).isHot h) = ["c", "d", "e"] := by
  decide

end Generations

end CertRelay
