import Mathlib.Data.List.Basic
import Mathlib.Order.Lattice

/-!
# Paging through a strictly ascending list

A list whose keys strictly ascend is served in pages.  A page after a cursor is a
prefix of what lies beyond the cursor, and the next cursor is the key of its last
element.

**Results.**
* `Ascending.lt_of_not_mem_prefix`: what a prefix leaves out lies beyond all it holds;
* `after_append`: beyond its last key lies exactly the rest;
* `IsPage.eq_between`: it is what lies between its cursor and its last key;
* `collect_eq`: if pages are empty only at the end, following the cursors stops
  and collects everything beyond the first cursor once, in order.
-/

namespace CertRelay
namespace Paging

universe u v

variable {α : Type u} {κ : Type v} [LinearOrder κ] {key : α → κ}

/-- The keys strictly ascend. -/
def Ascending (key : α → κ) (l : List α) : Prop :=
  l.Pairwise (fun a b => key a < key b)

/-- The elements beyond a cursor. -/
def after (key : α → κ) (c : κ) (l : List α) : List α :=
  l.filter (fun a => decide (c < key a))

theorem mem_after
    {c : κ}
    {l : List α}
    {a : α} :
    a ∈ after key c l ↔ a ∈ l ∧ c < key a := by
  simp [after]

theorem Ascending.after
    {l : List α}
    (h : Ascending key l)
    (c : κ) :
    Ascending key (Paging.after key c l) :=
  h.sublist List.filter_sublist

theorem Ascending.of_isPrefix
    {l p : List α}
    (h : Ascending key l)
    (hp : p <+: l) :
    Ascending key p :=
  h.sublist hp.sublist

theorem mem_of_getLast?
    {p : List α}
    {x : α}
    (h : p.getLast? = some x) :
    x ∈ p :=
  List.mem_of_getLast? h

/-- The last element of an ascending list has the highest key. -/
theorem Ascending.le_last
    {p : List α}
    (h : Ascending key p)
    {x y : α}
    (hlast : p.getLast? = some x)
    (hy : y ∈ p) :
    key y ≤ key x := by
  obtain ⟨q, rfl⟩ := List.getLast?_eq_some_iff.1 hlast
  rcases List.mem_append.1 hy with hq | hx
  · exact ((List.pairwise_append.1 h).2.2 y hq x (by simp)).le
  · rw [List.mem_singleton.1 hx]

/-- **What a prefix leaves out lies beyond all it holds.** -/
theorem Ascending.lt_of_not_mem_prefix
    {l p : List α}
    (h : Ascending key l)
    (hp : p <+: l)
    {x y : α}
    (hx : x ∈ p)
    (hy : y ∈ l)
    (hout : y ∉ p) :
    key x < key y := by
  obtain ⟨r, rfl⟩ := hp
  have hr : y ∈ r := (List.mem_append.1 hy).resolve_left hout
  exact (List.pairwise_append.1 h).2.2 x hx y hr

/-- **Beyond the last key of a page lies exactly the rest.** -/
theorem after_append
    {p r : List α}
    (h : Ascending key (p ++ r))
    {x : α}
    (hlast : p.getLast? = some x) :
    after key (key x) (p ++ r) = r := by
  unfold after
  rw [List.filter_append]
  have hp : p.filter (fun a => decide (key x < key a)) = [] := by
    rw [List.filter_eq_nil_iff]
    intro a ha
    have hle := (h.of_isPrefix (List.prefix_append p r)).le_last hlast ha
    simpa using hle
  have hr : r.filter (fun a => decide (key x < key a)) = r := by
    rw [List.filter_eq_self]
    intro a ha
    have hlt := (List.pairwise_append.1 h).2.2 x (mem_of_getLast? hlast) a ha
    simpa using hlt
  rw [hp, hr, List.nil_append]

theorem after_after
    {c d : κ}
    (h : c ≤ d)
    (l : List α) :
    after key d (after key c l) = after key d l := by
  unfold after
  rw [List.filter_filter]
  apply List.filter_congr
  intro a _
  by_cases hd : d < key a
  · simp [hd, h.trans_lt hd]
  · simp [hd]

/-- A page after a cursor: a prefix of what lies beyond, empty only at the end. -/
structure IsPage (key : α → κ) (l : List α) (c : κ) (p : List α) : Prop where
  isPrefix : p <+: after key c l
  nonempty : after key c l ≠ [] → p ≠ []

theorem IsPage.eq_nil_iff
    {l : List α}
    {c : κ}
    {p : List α}
    (h : IsPage key l c p) :
    p = [] ↔ after key c l = [] := by
  constructor
  · intro hp
    by_contra hne
    exact h.nonempty hne hp
  · intro hnone
    have hpre := h.isPrefix
    rw [hnone] at hpre
    exact List.prefix_nil.1 hpre

/-- The elements beyond one cursor and up to another. -/
def between (key : α → κ) (c d : κ) (l : List α) : List α :=
  (after key c l).filter (fun a => decide (key a ≤ d))

theorem mem_between
    {c d : κ}
    {l : List α}
    {a : α} :
    a ∈ between key c d l ↔ a ∈ l ∧ c < key a ∧ key a ≤ d := by
  simp [between, mem_after, and_assoc]

/-- **A page holds exactly the elements between its cursor and its last key**, in order. -/
theorem IsPage.eq_between
    {l : List α}
    {c : κ}
    {p : List α}
    (hl : Ascending key l)
    (h : IsPage key l c p)
    {x : α}
    (hlast : p.getLast? = some x) :
    p = between key c (key x) l := by
  obtain ⟨r, hr⟩ := h.isPrefix
  have hasc : Ascending key (p ++ r) := by
    rw [hr]
    exact hl.after c
  unfold between
  rw [← hr, List.filter_append]
  have hp : p.filter (fun a => decide (key a ≤ key x)) = p := by
    rw [List.filter_eq_self]
    intro a ha
    simpa using (hasc.of_isPrefix (List.prefix_append p r)).le_last hlast ha
  have hrest : r.filter (fun a => decide (key a ≤ key x)) = [] := by
    rw [List.filter_eq_nil_iff]
    intro a ha
    simpa using (List.pairwise_append.1 hasc).2.2 x (mem_of_getLast? hlast) a ha
  rw [hp, hrest, List.append_nil]

section Map

variable {β : Type u} {f : α → β} {key' : β → κ} (hf : ∀ a, key' (f a) = key a)
include hf

theorem after_map
    (c : κ)
    (l : List α) :
    after key' c (l.map f) = (after key c l).map f := by
  unfold after
  rw [List.filter_map]
  congr 1
  apply List.filter_congr
  intro a _
  simp [hf]

theorem between_map
    (c d : κ)
    (l : List α) :
    between key' c d (l.map f) = (between key c d l).map f := by
  unfold between
  rw [after_map hf, List.filter_map]
  congr 1
  apply List.filter_congr
  intro a _
  simp [hf]

theorem Ascending.map
    {l : List α}
    (h : Ascending key l) :
    Ascending key' (l.map f) := by
  unfold Ascending
  rw [List.pairwise_map]
  exact h.imp (fun {a b} hab => by rw [hf, hf]; exact hab)

end Map

/-- Follow the cursors of a pager until a page is empty. -/
def collect (key : α → κ) (pager : κ → List α) : ℕ → κ → Option (List (List α))
  | 0, _ => none
  | n + 1, c =>
      match (pager c).getLast? with
      | none => some []
      | some x => (collect key pager n (key x)).map (pager c :: ·)

/-- **Following the cursors collects everything once**, in order, and stops. -/
theorem collect_eq
    {P : κ → Prop}
    {pager : κ → List α}
    {l : List α}
    (hl : Ascending key l)
    (hP : ∀ a ∈ l, P (key a))
    (hpager : ∀ c, P c → IsPage key l c (pager c)) :
    ∀ n c, P c → (after key c l).length < n →
      ∃ pages, collect key pager n c = some pages ∧ pages.flatten = after key c l
  | 0, _, _, hn => by
      omega
  | n + 1, c, hc, hn => by
      have hpage := hpager c hc
      unfold collect
      cases hlast : (pager c).getLast? with
      | none =>
          rw [List.getLast?_eq_none_iff, hpage.eq_nil_iff] at hlast
          exact ⟨[], rfl, hlast.symm⟩
      | some x =>
          obtain ⟨r, hr⟩ := hpage.isPrefix
          have hx : x ∈ after key c l := by
            rw [← hr]
            exact List.mem_append_left r (mem_of_getLast? hlast)
          obtain ⟨hxl, hcx⟩ := mem_after.1 hx
          have hrest : after key (key x) l = r := by
            rw [← after_after hcx.le, ← hr]
            apply after_append _ hlast
            rw [hr]
            exact hl.after c
          have hne : pager c ≠ [] := by
            intro he
            rw [he] at hlast
            cases hlast
          have hlen : r.length < n := by
            have hsum := congrArg List.length hr
            rw [List.length_append] at hsum
            have hpos := List.length_pos_iff.2 hne
            omega
          obtain ⟨pages, hpages, hflat⟩ :=
            collect_eq hl hP hpager n (key x) (hP x hxl) (by rw [hrest]; exact hlen)
          refine ⟨pager c :: pages, ?_, ?_⟩
          · show (collect key pager n (key x)).map (pager c :: ·) = _
            rw [hpages, Option.map_some]
          · rw [List.flatten_cons, hflat, hrest, hr]

end Paging
end CertRelay
