import Mathlib.Data.List.Destutter
import Mathlib.Data.List.Perm.Basic
import Mathlib.Data.List.Sort

/-!
# The first element of each key

Two ways to keep, of each key, the first element of a list, in descending order of keys: a
stable sort followed by dropping neighbours of one key, and dropping elements whose key has
been seen followed by any sort.  Both give the list that is strictly descending and has the
first element of each key.

**Results.**
* `isFirsts_destutter`: the stable sort does;
* `arrange_keepFirst`: so does any sort of what the filter leaves.
-/

namespace CertRelay
namespace FirstOfKey

universe u v

variable {α : Type u} {κ : Type v} [LinearOrder κ] (key : α → κ)

/-- The first element of a key. -/
def first (k : κ) (l : List α) : Option α :=
  l.find? (fun a => decide (key a = k))

/-- The list has strictly descending keys, and the first element of each key. -/
structure IsFirsts (l m : List α) : Prop where
  descending : m.Pairwise (fun a b => key b < key a)
  mem_iff : ∀ a, a ∈ m ↔ first key (key a) l = some a

variable {key}

theorem first_cons
    (k : κ)
    (a : α)
    (l : List α) :
    first key k (a :: l) = if key a = k then some a else first key k l := by
  unfold first
  split_ifs with h
  · exact List.find?_cons_of_pos (by simpa using h)
  · exact List.find?_cons_of_neg (by simpa using h)

theorem first_append
    (k : κ)
    (l m : List α) :
    first key k (l ++ m) = (first key k l).or (first key k m) :=
  List.find?_append

theorem mem_of_first
    {k : κ}
    {l : List α}
    {a : α}
    (h : first key k l = some a) :
    a ∈ l ∧ key a = k :=
  ⟨List.mem_of_find?_eq_some h, by simpa using List.find?_some h⟩

theorem first_eq_none
    {k : κ}
    {l : List α}
    (h : ∀ a ∈ l, key a ≠ k) :
    first key k l = none :=
  List.find?_eq_none.2 (fun a ha hk => h a ha (of_decide_eq_true hk))

theorem isSome_first
    {k : κ}
    {l : List α} :
    (∃ a, first key k l = some a) ↔ ∃ a ∈ l, key a = k := by
  constructor
  · rintro ⟨a, h⟩
    exact ⟨a, mem_of_first h⟩
  · rintro ⟨a, ha, hk⟩
    cases h : first key k l with
    | none =>
        exact absurd hk (by simpa using List.find?_eq_none.1 h a ha)
    | some b =>
        exact ⟨b, rfl⟩

theorem IsFirsts.nodup
    {l m : List α}
    (h : IsFirsts key l m) :
    m.Nodup :=
  h.descending.imp (fun hlt heq => by simp [heq] at hlt)

theorem IsFirsts.eq_of_key
    {l m : List α}
    (h : IsFirsts key l m)
    {a b : α}
    (ha : a ∈ m)
    (hb : b ∈ m)
    (hkey : key a = key b) :
    a = b := by
  have hfirst := (h.mem_iff a).1 ha
  rw [hkey, (h.mem_iff b).1 hb] at hfirst
  exact (Option.some.inj hfirst).symm

/-- Each key that occurs has exactly one element, the first one. -/
theorem IsFirsts.existsUnique_iff
    {l m : List α}
    (h : IsFirsts key l m)
    (k : κ) :
    (∃! a, a ∈ m ∧ key a = k) ↔ ∃ a ∈ l, key a = k := by
  rw [← isSome_first]
  constructor
  · rintro ⟨a, ⟨ha, rfl⟩, _⟩
    exact ⟨a, (h.mem_iff a).1 ha⟩
  · rintro ⟨a, ha⟩
    obtain ⟨_, rfl⟩ := mem_of_first ha
    refine ⟨a, ⟨(h.mem_iff a).2 ha, rfl⟩, ?_⟩
    rintro b ⟨hb, hkey⟩
    exact h.eq_of_key hb ((h.mem_iff a).2 ha) hkey

section Stable

/-- Inserting into a sorted list puts an element before those of its key. -/
theorem filter_orderedInsert
    (k : κ)
    (a : α)
    (l : List α) :
    (l.orderedInsert (fun a b => key b ≤ key a) a).filter (fun b => decide (key b = k)) =
      (a :: l).filter (fun b => decide (key b = k)) := by
  induction l with
  | nil =>
      rfl
  | cons b l ih =>
      rw [List.orderedInsert_cons]
      split_ifs with hle
      · rfl
      · rw [List.filter_cons, ih, List.filter_cons, List.filter_cons, List.filter_cons]
        have hne : key a ≠ key b := fun heq => hle heq.ge
        by_cases ha : key a = k
        · have hb : key b ≠ k := fun hb => hne (ha.trans hb.symm)
          simp [ha, hb]
        · simp [ha]

/-- **Sorting is stable.** -/
theorem first_insertionSort
    (k : κ)
    (l : List α) :
    first key k (l.insertionSort (fun a b => key b ≤ key a)) = first key k l := by
  have hfilter : (l.insertionSort (fun a b => key b ≤ key a)).filter
      (fun b => decide (key b = k)) = l.filter (fun b => decide (key b = k)) := by
    induction l with
    | nil =>
        rfl
    | cons a l ih =>
        rw [List.insertionSort_cons, filter_orderedInsert, List.filter_cons, ih,
          List.filter_cons]
  unfold first
  rw [← List.head?_filter, hfilter, List.head?_filter]

theorem key_le_of_mem
    {a c : α}
    {l : List α}
    (hl : (a :: l).Pairwise (fun a b => key b ≤ key a))
    (hc : c ∈ a :: l) :
    key c ≤ key a := by
  rcases List.mem_cons.1 hc with rfl | hmem
  · exact le_rfl
  · exact (List.pairwise_cons.1 hl).1 c hmem

/-- Dropping neighbours of one key keeps the first of each. -/
theorem mem_destutter'
    {a : α}
    {l : List α}
    (hl : (a :: l).Pairwise (fun a b => key b ≤ key a))
    (x : α) :
    x ∈ l.destutter' (fun a b => key a ≠ key b) a ↔ first key (key x) (a :: l) = some x := by
  induction l generalizing a with
  | nil =>
      rw [List.destutter'_nil, List.mem_singleton, first_cons]
      constructor
      · rintro rfl
        exact if_pos rfl
      · intro h
        split_ifs at h with hkey
        · exact (Option.some.inj h).symm
        · cases h
  | cons b l ih =>
      obtain ⟨ha, hbl⟩ := List.pairwise_cons.1 hl
      by_cases hab : key a = key b
      · have hal : (a :: l).Pairwise (fun a b => key b ≤ key a) :=
          List.pairwise_cons.2 ⟨fun c hc => ha c (List.mem_cons_of_mem _ hc),
            (List.pairwise_cons.1 hbl).2⟩
        rw [List.destutter'_cons_neg _ (not_not.2 hab), ih hal, first_cons, first_cons,
          first_cons, ← hab]
        split_ifs with h
        · rfl
        · rfl
      · rw [List.destutter'_cons_pos _ hab, List.mem_cons, ih hbl, first_cons _ a]
        by_cases hax : key a = key x
        · -- the keys from `b` on are smaller
          have hnone : first key (key x) (b :: l) = none := by
            refine first_eq_none (fun c hc hcx => hab ?_)
            have hcb : key c ≤ key b := key_le_of_mem hbl hc
            exact le_antisymm (hax.trans_le (hcx ▸ hcb)) (ha b List.mem_cons_self)
          rw [if_pos hax, hnone]
          constructor
          · rintro (rfl | hx)
            · rfl
            · cases hx
          · intro hx
            exact Or.inl (Option.some.inj hx).symm
        · rw [if_neg hax]
          exact or_iff_right (fun hx => hax (by rw [hx]))

/-- Dropping neighbours of one key leaves no two elements of one key. -/
theorem descending_destutter'
    {a : α}
    {l : List α}
    (hl : (a :: l).Pairwise (fun a b => key b ≤ key a)) :
    (l.destutter' (fun a b => key a ≠ key b) a).Pairwise (fun a b => key b < key a) := by
  induction l generalizing a with
  | nil =>
      exact List.pairwise_singleton _ _
  | cons b l ih =>
      obtain ⟨ha, hbl⟩ := List.pairwise_cons.1 hl
      by_cases hab : key a = key b
      · rw [List.destutter'_cons_neg _ (not_not.2 hab)]
        exact ih (List.pairwise_cons.2 ⟨fun c hc => ha c (List.mem_cons_of_mem _ hc),
          (List.pairwise_cons.1 hbl).2⟩)
      · rw [List.destutter'_cons_pos _ hab]
        refine List.pairwise_cons.2 ⟨fun x hx => ?_, ih hbl⟩
        have hlt : key b < key a :=
          lt_of_le_of_ne (ha b List.mem_cons_self) (fun h => hab h.symm)
        exact (key_le_of_mem hbl (mem_of_first ((mem_destutter' hbl x).1 hx)).1).trans_lt hlt

/-- **A stable sort, then dropping neighbours of one key.** -/
theorem isFirsts_destutter
    (l : List α) :
    IsFirsts key l ((l.insertionSort (fun a b => key b ≤ key a)).destutter
      (fun a b => key a ≠ key b)) := by
  have hsorted : (l.insertionSort (fun a b => key b ≤ key a)).Pairwise
      (fun a b => key b ≤ key a) :=
    List.pairwise_insertionSort _ l
  have hfirst : ∀ k, first key k (l.insertionSort (fun a b => key b ≤ key a)) = first key k l :=
    fun k => first_insertionSort k l
  cases hs : l.insertionSort (fun a b => key b ≤ key a) with
  | nil =>
      refine ⟨List.Pairwise.nil, fun a => ?_⟩
      rw [← hfirst, hs]
      exact ⟨fun h => absurd h List.not_mem_nil, fun h => by cases h⟩
  | cons a m =>
      rw [hs] at hsorted
      refine ⟨descending_destutter' hsorted, fun x => ?_⟩
      rw [← hfirst, hs]
      exact mem_destutter' hsorted x

end Stable

section Seen

/-- Drop the elements whose key has been seen. -/
def keepFirst {κ : Type v} [DecidableEq κ] (key : α → κ) : List κ → List α → List α
  | _, [] => []
  | seen, a :: l =>
      if key a ∈ seen then keepFirst key seen l else a :: keepFirst key (key a :: seen) l

theorem mem_keepFirst
    {seen : List κ}
    {l : List α}
    (x : α) :
    x ∈ keepFirst key seen l ↔ key x ∉ seen ∧ first key (key x) l = some x := by
  induction l generalizing seen with
  | nil =>
      simp [keepFirst, first]
  | cons a l ih =>
      rw [first_cons, keepFirst]
      by_cases ha : key a ∈ seen
      · rw [if_pos ha, ih]
        refine and_congr_right (fun hx => ?_)
        rw [if_neg (fun h : key a = key x => hx (h ▸ ha))]
      · rw [if_neg ha, List.mem_cons, ih, List.mem_cons, not_or]
        by_cases hax : key a = key x
        · rw [if_pos hax, hax]
          constructor
          · rintro (rfl | ⟨⟨hne, _⟩, _⟩)
            · exact ⟨ha, rfl⟩
            · exact absurd rfl hne
          · rintro ⟨_, hx⟩
            exact Or.inl (Option.some.inj hx).symm
        · rw [if_neg hax]
          constructor
          · rintro (rfl | ⟨⟨_, hx⟩, hfirst⟩)
            · exact absurd rfl hax
            · exact ⟨hx, hfirst⟩
          · rintro ⟨hx, hfirst⟩
            exact Or.inr ⟨⟨fun h => hax h.symm, hx⟩, hfirst⟩

/-- No two elements kept have one key. -/
theorem nodup_keepFirst
    {seen : List κ}
    (l : List α) :
    ((keepFirst key seen l).map key).Nodup := by
  induction l generalizing seen with
  | nil =>
      exact List.nodup_nil
  | cons a l ih =>
      rw [keepFirst]
      split_ifs with ha
      · exact ih
      · rw [List.map_cons, List.nodup_cons]
        refine ⟨?_, ih⟩
        rintro hmem
        obtain ⟨x, hx, hkey⟩ := List.mem_map.1 hmem
        exact ((mem_keepFirst x).1 hx).1 (hkey ▸ List.mem_cons_self)

/-- Reading the keys of other values for the elements. -/
theorem keepFirst_map
    {β : Type*}
    {κ' : Type*}
    [DecidableEq κ']
    {read : β → κ'}
    {render : α → β}
    {g : κ → κ'}
    (hg : Function.Injective g)
    (hread : ∀ a, read (render a) = g (key a))
    (seen : List κ)
    (l : List α) :
    keepFirst read (seen.map g) (l.map render) = (keepFirst key seen l).map render := by
  induction l generalizing seen with
  | nil =>
      rfl
  | cons a l ih =>
      have hmem : g (key a) ∈ seen.map g ↔ key a ∈ seen := List.mem_map_of_injective hg
      have hcons := ih (key a :: seen)
      rw [List.map_cons] at hcons
      rw [List.map_cons, keepFirst, keepFirst, hread]
      by_cases ha : key a ∈ seen
      · rw [if_pos ha, if_pos (hmem.2 ha), ih]
      · rw [if_neg ha, if_neg (mt hmem.1 ha), hcons, List.map_cons]

/-- A sort of values of which some have a key: nothing is known about the order of equal
keys, or about lists with a value that has none. -/
structure DescendingSort {β : Type u} (read : β → Option κ) where
  arrange : List β → List β
  perm : ∀ l, (arrange l).Perm l
  sorted : ∀ l, (∀ b ∈ l, (read b).isSome) →
    (arrange l).Pairwise (fun a b => ∀ x ∈ read a, ∀ y ∈ read b, y ≤ x)

/-- **Dropping what has been seen, then any sort.** -/
theorem arrange_keepFirst
    {β : Type u}
    {read : β → Option κ}
    {render : α → β}
    {l m : List α}
    (sort : DescendingSort read)
    (hread : ∀ a, read (render a) = some (key a))
    (hm : IsFirsts key l m) :
    sort.arrange ((keepFirst key [] l).map render) = m.map render := by
  have hkept : (keepFirst key [] l).Perm m := by
    refine (List.perm_ext_iff_of_nodup (nodup_keepFirst l).of_map hm.nodup).2 (fun a => ?_)
    rw [mem_keepFirst, hm.mem_iff]
    exact and_iff_right List.not_mem_nil
  have hperm := (sort.perm ((keepFirst key [] l).map render)).trans (hkept.map render)
  have hsorted := sort.sorted ((keepFirst key [] l).map render) (fun b hb => by
    obtain ⟨a, _, rfl⟩ := List.mem_map.1 hb
    rw [hread]
    rfl)
  have hdesc : (m.map render).Pairwise
      (fun a b => ∀ x ∈ read a, ∀ y ∈ read b, y ≤ x) := by
    refine List.pairwise_map.2 (hm.descending.imp (fun hlt => ?_))
    intro x hx y hy
    rw [hread] at hx hy
    rw [← Option.some.inj hx, ← Option.some.inj hy]
    exact hlt.le
  refine hperm.eq_of_pairwise (fun b c hb hc hbc hcb => ?_) hsorted hdesc
  obtain ⟨a, ha, rfl⟩ := List.mem_map.1 (hperm.mem_iff.1 hb)
  obtain ⟨d, hd, rfl⟩ := List.mem_map.1 hc
  have hkey : key a = key d :=
    le_antisymm (hcb _ (hread d) _ (hread a)) (hbc _ (hread a) _ (hread d))
  rw [hm.eq_of_key ha hd hkey]

end Seen

end FirstOfKey
end CertRelay
