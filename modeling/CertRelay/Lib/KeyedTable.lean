import Mathlib.Data.List.Nodup
import Mathlib.Data.List.Perm.Subperm
import Mathlib.Tactic.Ring

/-!
# Keyed tables

A table of a relational store whose rows carry their own primary key.  The
primary-key constraint is a field of the type, so a table with two rows of one
key cannot be built.

**Operations.**
* `find?`: the row of a key;
* `erase` and `filter`: deletion by key and by predicate;
* `insertOrReplace`: the row of the same key is displaced, the new row is
  appended (`INSERT OR REPLACE`);
* `insertOrIgnore`: a row whose key is taken is dropped (`INSERT OR IGNORE`);
* `modify`: rewrite the row of a key, keeping the key (`UPDATE .. WHERE`).

**Results.**  Lookup, membership and the keys taken (`Has`) after each operation, the change of a
weighted total (`total w`) under insertion and deletion, and the number of rows
after each operation.  Totals are what trigger-maintained accounting has to follow.
-/

namespace CertRelay

universe u v

/-- Rows with pairwise distinct keys. -/
structure KeyedTable (ρ : Type u) {κ : Type v} (key : ρ → κ) where
  rows : List ρ
  nodup : (rows.map key).Nodup
deriving DecidableEq

namespace KeyedTable

variable {ρ : Type u} {κ : Type v} {key : ρ → κ}

@[ext] theorem ext
    {t s : KeyedTable ρ key}
    (h : t.rows = s.rows) :
    t = s := by
  cases t
  cases s
  simpa using h

/-- The empty table. -/
def empty : KeyedTable ρ key where
  rows := []
  nodup := List.nodup_nil

@[simp] theorem rows_empty :
    (empty : KeyedTable ρ key).rows = [] := by
  rfl

/-- Keep the rows that satisfy `p`. -/
def filter
    (t : KeyedTable ρ key)
    (p : ρ → Bool) :
    KeyedTable ρ key where
  rows := t.rows.filter p
  nodup := (List.filter_sublist.map key).nodup t.nodup

@[simp] theorem mem_filter
    {t : KeyedTable ρ key}
    {p : ρ → Bool}
    {r : ρ} :
    r ∈ (t.filter p).rows ↔ r ∈ t.rows ∧ p r = true := by
  simp [filter]

/-- Rewrite every row by a function that keeps keys. -/
def map
    (t : KeyedTable ρ key)
    (f : ρ → ρ)
    (hf : ∀ r, key (f r) = key r) :
    KeyedTable ρ key where
  rows := t.rows.map f
  nodup := by
    rw [List.map_map, show key ∘ f = key from funext hf]
    exact t.nodup

/-- Rows of one table with the same key are the same row. -/
theorem eq_of_key_eq
    (t : KeyedTable ρ key)
    {r s : ρ}
    (hr : r ∈ t.rows)
    (hs : s ∈ t.rows)
    (h : key r = key s) :
    r = s :=
  List.inj_on_of_nodup_map t.nodup hr hs h

/-- A table whose keys are among another's has no more rows of each kind of key. -/
theorem length_filter_key_le
    {σ : Type u}
    {key' : σ → κ}
    (t : KeyedTable ρ key)
    (s : KeyedTable σ key')
    (h : ∀ r ∈ t.rows, ∃ r' ∈ s.rows, key' r' = key r)
    (p : κ → Bool) :
    (t.rows.filter (fun r => p (key r))).length ≤
      (s.rows.filter (fun r => p (key' r))).length := by
  have hnodup : ((t.rows.filter (fun r => p (key r))).map key).Nodup :=
    (List.filter_sublist.map key).nodup t.nodup
  have hsub : (t.rows.filter (fun r => p (key r))).map key ⊆
      (s.rows.filter (fun r => p (key' r))).map key' := by
    intro k hk
    obtain ⟨r, hr, rfl⟩ := List.mem_map.1 hk
    obtain ⟨hr, hp⟩ := List.mem_filter.1 hr
    obtain ⟨r', hr', hkey⟩ := h r hr
    exact List.mem_map.2 ⟨r', List.mem_filter.2 ⟨hr', by rw [hkey]; exact hp⟩, hkey⟩
  simpa using (List.subperm_of_subset hnodup hsub).length_le

/-- A table that has every key of another is no smaller. -/
theorem length_le_of_keys
    {σ : Type u}
    {key' : σ → κ}
    (t : KeyedTable ρ key)
    (s : KeyedTable σ key')
    (h : ∀ r ∈ t.rows, ∃ r' ∈ s.rows, key' r' = key r) :
    t.rows.length ≤ s.rows.length := by
  have hlen := length_filter_key_le t s h (fun _ => true)
  rwa [List.filter_true, List.filter_true] at hlen

section Lookup

variable [DecidableEq κ]

/-- One more key, one more part. -/
theorem length_filter_mem_cons
    {k : κ}
    {ks : List κ}
    (hk : k ∉ ks)
    (l : List ρ) :
    (l.filter (fun r => decide (key r ∈ k :: ks))).length =
      (l.filter (fun r => decide (key r = k))).length +
        (l.filter (fun r => decide (key r ∈ ks))).length := by
  induction l with
  | nil =>
      rfl
  | cons r l ih =>
      simp only [List.mem_cons, Bool.decide_or] at ih ⊢
      by_cases hr : key r = k
      · simp [hr, hk, ih]
        omega
      · by_cases hmem : key r ∈ ks
        · simp [hr, hmem, ih]
          omega
        · simp [hr, hmem, ih]

/-- Rows counted key by key. -/
theorem sum_length_filter_key
    {ks : List κ}
    (hks : ks.Nodup)
    (l : List ρ) :
    (ks.map (fun k => (l.filter (fun r => decide (key r = k))).length)).sum =
      (l.filter (fun r => decide (key r ∈ ks))).length := by
  induction ks with
  | nil =>
      simp
  | cons k ks ih =>
      rw [List.nodup_cons] at hks
      rw [List.map_cons, List.sum_cons, ih hks.2, length_filter_mem_cons hks.1]

/-- The row of a key. -/
def find?
    (t : KeyedTable ρ key)
    (k : κ) :
    Option ρ :=
  t.rows.find? (fun r => decide (key r = k))

theorem find?_eq_some_iff
    {t : KeyedTable ρ key}
    {k : κ}
    {r : ρ} :
    t.find? k = some r ↔ r ∈ t.rows ∧ key r = k := by
  constructor
  · intro h
    exact ⟨List.mem_of_find?_eq_some h,
      by simpa using List.find?_some h⟩
  · rintro ⟨hr, rfl⟩
    cases hf : t.find? (key r) with
    | none =>
        have hnone := List.find?_eq_none.1 hf r hr
        simp at hnone
    | some s =>
        have hs := List.mem_of_find?_eq_some hf
        have hk : key s = key r := by
          simpa using List.find?_some hf
        rw [t.eq_of_key_eq hs hr hk]

theorem find?_eq_none_iff
    {t : KeyedTable ρ key}
    {k : κ} :
    t.find? k = none ↔ ∀ r ∈ t.rows, key r ≠ k := by
  simp [find?, List.find?_eq_none]

theorem find?_key
    {t : KeyedTable ρ key}
    {r : ρ}
    (hr : r ∈ t.rows) :
    t.find? (key r) = some r :=
  find?_eq_some_iff.2 ⟨hr, rfl⟩

/-- Lookup is decided by membership. -/
theorem find?_congr
    {t s : KeyedTable ρ key}
    {k : κ}
    (h : ∀ r, key r = k → (r ∈ t.rows ↔ r ∈ s.rows)) :
    t.find? k = s.find? k := by
  cases hs : s.find? k with
  | none =>
      rw [find?_eq_none_iff] at hs ⊢
      intro r hr hk
      exact hs r ((h r hk).1 hr) hk
  | some r =>
      rw [find?_eq_some_iff] at hs ⊢
      exact ⟨(h r hs.2).2 hs.1, hs.2⟩

/-- The rows that have one of some keys are those that the keys find. -/
theorem filter_mem_perm
    {t : KeyedTable ρ key}
    {ks : List κ}
    (hks : ks.Nodup) :
    (t.rows.filter (fun r => decide (key r ∈ ks))).Perm (ks.filterMap t.find?) := by
  have hinj : ∀ k k' r, r ∈ t.find? k → r ∈ t.find? k' → k = k' := by
    intro k k' r hk hk'
    rw [← (find?_eq_some_iff.1 hk).2, ← (find?_eq_some_iff.1 hk').2]
  refine (List.perm_ext_iff_of_nodup (t.nodup.of_map.filter _) (hks.filterMap hinj)).2 ?_
  intro r
  rw [List.mem_filter, List.mem_filterMap, decide_eq_true_eq]
  constructor
  · rintro ⟨hr, hk⟩
    exact ⟨key r, hk, find?_key hr⟩
  · rintro ⟨k, hk, hfind⟩
    obtain ⟨hr, rfl⟩ := find?_eq_some_iff.1 hfind
    exact ⟨hr, hk⟩

/-- Delete the row of a key. -/
def erase
    (t : KeyedTable ρ key)
    (k : κ) :
    KeyedTable ρ key :=
  t.filter (fun r => decide (key r ≠ k))

@[simp] theorem mem_erase
    {t : KeyedTable ρ key}
    {k : κ}
    {r : ρ} :
    r ∈ (t.erase k).rows ↔ r ∈ t.rows ∧ key r ≠ k := by
  simp [erase]

theorem erase_of_find?_none
    {t : KeyedTable ρ key}
    {k : κ}
    (h : t.find? k = none) :
    t.erase k = t := by
  rw [find?_eq_none_iff] at h
  ext1
  simp only [erase, filter]
  exact List.filter_eq_self.2 (fun r hr => by simpa using h r hr)

/-- Displace the row of the same key, if any, and append the new row. -/
def insertOrReplace
    (t : KeyedTable ρ key)
    (r : ρ) :
    KeyedTable ρ key where
  rows := (t.erase (key r)).rows ++ [r]
  nodup := by
    rw [List.map_append, List.nodup_append]
    refine ⟨(t.erase (key r)).nodup, by simp, ?_⟩
    intro a ha b hb
    obtain ⟨s, hs, rfl⟩ := List.mem_map.1 ha
    have hb' : b = key r := by simpa using hb
    rw [hb']
    exact (mem_erase.1 hs).2

@[simp] theorem mem_insertOrReplace
    {t : KeyedTable ρ key}
    {r s : ρ} :
    s ∈ (t.insertOrReplace r).rows ↔
      (s ∈ t.rows ∧ key s ≠ key r) ∨ s = r := by
  simp [insertOrReplace]

@[simp] theorem find?_insertOrReplace_self
    (t : KeyedTable ρ key)
    (r : ρ) :
    (t.insertOrReplace r).find? (key r) = some r :=
  find?_eq_some_iff.2 ⟨by simp, rfl⟩

theorem find?_insertOrReplace_ne
    (t : KeyedTable ρ key)
    {r : ρ}
    {k : κ}
    (h : key r ≠ k) :
    (t.insertOrReplace r).find? k = t.find? k := by
  apply find?_congr
  intro s hs
  rw [mem_insertOrReplace]
  constructor
  · rintro (⟨hmem, _⟩ | rfl)
    · exact hmem
    · exact absurd hs h
  · intro hmem
    exact Or.inl ⟨hmem, fun he => h (he.symm.trans hs)⟩

/-- Rows of distinct keys displace those of the same keys and stay themselves. -/
theorem mem_foldl_insertOrReplace
    {rows : List ρ}
    (hrows : (rows.map key).Nodup)
    {t : KeyedTable ρ key}
    {r : ρ} :
    r ∈ (rows.foldl insertOrReplace t).rows ↔
      r ∈ rows ∨ (r ∈ t.rows ∧ key r ∉ rows.map key) := by
  induction rows generalizing t with
  | nil =>
      simp
  | cons s rows ih =>
      rw [List.map_cons, List.nodup_cons] at hrows
      rw [List.foldl_cons, ih hrows.2, mem_insertOrReplace, List.mem_cons, List.map_cons,
        List.mem_cons, not_or]
      constructor
      · rintro (hr | ⟨⟨hr, hne⟩ | rfl, hnot⟩)
        · exact Or.inl (Or.inr hr)
        · exact Or.inr ⟨hr, hne, hnot⟩
        · exact Or.inl (Or.inl rfl)
      · rintro ((rfl | hr) | ⟨hr, hne, hnot⟩)
        · exact Or.inr ⟨Or.inr rfl, hrows.1⟩
        · exact Or.inl hr
        · exact Or.inr ⟨Or.inl ⟨hr, hne⟩, hnot⟩

/-- Of the rows with one key the last is found. -/
theorem find?_foldl_insertOrReplace
    (rows : List ρ)
    (t : KeyedTable ρ key)
    (k : κ) :
    (rows.foldl insertOrReplace t).find? k =
      ((rows.filter (fun r => decide (key r = k))).getLast?).or (t.find? k) := by
  induction rows generalizing t with
  | nil =>
      rfl
  | cons r rows ih =>
      rw [List.foldl_cons, ih]
      by_cases hr : key r = k
      · subst hr
        rw [find?_insertOrReplace_self, List.filter_cons_of_pos (by simp), List.getLast?_cons]
        cases (rows.filter (fun s => decide (key s = key r))).getLast? <;> rfl
      · rw [find?_insertOrReplace_ne _ hr, List.filter_cons_of_neg (by simp [hr])]

/-- Append a row unless its key is taken. -/
def insertOrIgnore
    (t : KeyedTable ρ key)
    (r : ρ) :
    KeyedTable ρ key :=
  match t.find? (key r) with
  | some _ => t
  | none => t.insertOrReplace r

theorem mem_insertOrIgnore
    {t : KeyedTable ρ key}
    {r s : ρ} :
    s ∈ (t.insertOrIgnore r).rows ↔
      s ∈ t.rows ∨ (s = r ∧ t.find? (key r) = none) := by
  unfold insertOrIgnore
  cases hf : t.find? (key r) with
  | some _ =>
      simp
  | none =>
      rw [find?_eq_none_iff] at hf
      rw [mem_insertOrReplace]
      constructor
      · rintro (⟨hs, _⟩ | rfl)
        · exact Or.inl hs
        · exact Or.inr ⟨rfl, rfl⟩
      · rintro (hs | ⟨rfl, _⟩)
        · exact Or.inl ⟨hs, hf s hs⟩
        · exact Or.inr rfl

end Lookup

section Modify

variable [DecidableEq κ]

/-- Rewrite the row of a key by a function that keeps keys. -/
def modify
    (t : KeyedTable ρ key)
    (k : κ)
    (f : ρ → ρ)
    (hf : ∀ r, key (f r) = key r) :
    KeyedTable ρ key where
  rows := t.rows.map (fun r => if key r = k then f r else r)
  nodup := by
    have hkeys :
        (t.rows.map (fun r => if key r = k then f r else r)).map key =
          t.rows.map key := by
      rw [List.map_map]
      apply List.map_congr_left
      intro r _
      simp only [Function.comp]
      split_ifs
      · exact hf r
      · rfl
    rw [hkeys]
    exact t.nodup

variable {f : ρ → ρ} (hf : ∀ r, key (f r) = key r)

theorem find?_modify
    (t : KeyedTable ρ key)
    (k k' : κ) :
    (t.modify k f hf).find? k' =
      (t.find? k').map (fun r => if k' = k then f r else r) := by
  cases hs : t.find? k' with
  | none =>
      rw [find?_eq_none_iff] at hs
      rw [Option.map_none, find?_eq_none_iff]
      intro s hmem
      obtain ⟨r, hr, rfl⟩ := List.mem_map.1 hmem
      split_ifs
      · rw [hf]
        exact hs r hr
      · exact hs r hr
  | some r =>
      obtain ⟨hr, hk⟩ := find?_eq_some_iff.1 hs
      rw [Option.map_some, find?_eq_some_iff]
      refine ⟨List.mem_map.2 ⟨r, hr, by rw [hk]⟩, ?_⟩
      split_ifs
      · rw [hf]
        exact hk
      · exact hk

/-- Rewrite the row of `r`'s key if there is one, else append `r`. -/
def upsert
    (t : KeyedTable ρ key)
    (r : ρ)
    (f : ρ → ρ)
    (hf : ∀ r, key (f r) = key r) :
    KeyedTable ρ key :=
  match t.find? (key r) with
  | some _ => t.modify (key r) f hf
  | none => t.insertOrReplace r

theorem find?_upsert_self
    (t : KeyedTable ρ key)
    (r : ρ) :
    (t.upsert r f hf).find? (key r) =
      some (((t.find? (key r)).map f).getD r) := by
  unfold upsert
  cases h : t.find? (key r) with
  | some s =>
      simp [find?_modify hf, h]
  | none =>
      simp

theorem find?_upsert_ne
    (t : KeyedTable ρ key)
    {r : ρ}
    {k : κ}
    (hk : key r ≠ k) :
    (t.upsert r f hf).find? k = t.find? k := by
  unfold upsert
  cases t.find? (key r) with
  | some s =>
      rw [find?_modify]
      simp [Ne.symm hk]
  | none =>
      exact t.find?_insertOrReplace_ne hk

end Modify

section Keys

/-- The key is taken. -/
def Has
    (t : KeyedTable ρ key)
    (k : κ) :
    Prop :=
  ∃ r ∈ t.rows, key r = k

@[simp] theorem not_has_empty
    (k : κ) :
    ¬ (empty : KeyedTable ρ key).Has k := by
  simp [Has]

theorem Has.of_filter
    {t : KeyedTable ρ key}
    {p : ρ → Bool}
    {k : κ}
    (h : (t.filter p).Has k) :
    t.Has k := by
  obtain ⟨r, hr, hk⟩ := h
  exact ⟨r, (mem_filter.1 hr).1, hk⟩

variable [DecidableEq κ]

theorem isSome_find?
    {t : KeyedTable ρ key}
    {k : κ} :
    (t.find? k).isSome = true ↔ t.Has k := by
  rw [Option.isSome_iff_exists]
  exact exists_congr fun r => find?_eq_some_iff

instance (t : KeyedTable ρ key) (k : κ) : Decidable (t.Has k) :=
  decidable_of_iff _ isSome_find?

theorem find?_eq_none
    {t : KeyedTable ρ key}
    {k : κ} :
    t.find? k = none ↔ ¬ t.Has k := by
  rw [← isSome_find?, Option.not_isSome_iff_eq_none]

theorem has_of_find?
    {t : KeyedTable ρ key}
    {k : κ}
    {r : ρ}
    (h : t.find? k = some r) :
    t.Has k :=
  ⟨r, find?_eq_some_iff.1 h⟩

@[simp] theorem has_erase
    {t : KeyedTable ρ key}
    {k k' : κ} :
    (t.erase k).Has k' ↔ t.Has k' ∧ k' ≠ k := by
  constructor
  · rintro ⟨r, hr, rfl⟩
    rw [mem_erase] at hr
    exact ⟨⟨r, hr.1, rfl⟩, hr.2⟩
  · rintro ⟨⟨r, hr, rfl⟩, hne⟩
    exact ⟨r, mem_erase.2 ⟨hr, hne⟩, rfl⟩

@[simp] theorem has_insertOrReplace
    {t : KeyedTable ρ key}
    {r : ρ}
    {k : κ} :
    (t.insertOrReplace r).Has k ↔ t.Has k ∨ k = key r := by
  constructor
  · rintro ⟨s, hs, rfl⟩
    rcases mem_insertOrReplace.1 hs with ⟨hmem, _⟩ | rfl
    · exact Or.inl ⟨s, hmem, rfl⟩
    · exact Or.inr rfl
  · intro h
    by_cases hk : k = key r
    · exact ⟨r, mem_insertOrReplace.2 (Or.inr rfl), hk.symm⟩
    · obtain ⟨s, hs, rfl⟩ := h.resolve_right hk
      exact ⟨s, mem_insertOrReplace.2 (Or.inl ⟨hs, hk⟩), rfl⟩

@[simp] theorem has_modify
    {f : ρ → ρ}
    (hf : ∀ r, key (f r) = key r)
    {t : KeyedTable ρ key}
    {k k' : κ} :
    (t.modify k f hf).Has k' ↔ t.Has k' := by
  rw [← isSome_find?, find?_modify, Option.isSome_map, isSome_find?]

@[simp] theorem has_insertOrIgnore
    {t : KeyedTable ρ key}
    {r : ρ}
    {k : κ} :
    (t.insertOrIgnore r).Has k ↔ t.Has k ∨ k = key r := by
  unfold insertOrIgnore
  cases h : t.find? (key r) with
  | none =>
      exact has_insertOrReplace
  | some s =>
      refine ⟨Or.inl, fun hor => hor.elim id ?_⟩
      rintro rfl
      exact has_of_find? h

@[simp] theorem has_upsert
    {f : ρ → ρ}
    (hf : ∀ r, key (f r) = key r)
    {t : KeyedTable ρ key}
    {r : ρ}
    {k : κ} :
    (t.upsert r f hf).Has k ↔ t.Has k ∨ k = key r := by
  unfold upsert
  cases h : t.find? (key r) with
  | none =>
      exact has_insertOrReplace
  | some s =>
      rw [has_modify]
      refine ⟨Or.inl, fun hor => hor.elim id ?_⟩
      rintro rfl
      exact has_of_find? h

theorem has_foldl_insertOrIgnore
    {rows : List ρ}
    {t : KeyedTable ρ key}
    {k : κ} :
    (rows.foldl insertOrIgnore t).Has k ↔ t.Has k ∨ ∃ r ∈ rows, key r = k := by
  induction rows generalizing t with
  | nil =>
      simp
  | cons r rows ih =>
      rw [List.foldl_cons, ih, has_insertOrIgnore, or_assoc, List.exists_mem_cons_iff,
        eq_comm (a := k)]

/-- Erasing one key leaves the rows of the others. -/
theorem find?_erase_ne
    (t : KeyedTable ρ key)
    {k k' : κ}
    (h : k' ≠ k) :
    (t.erase k).find? k' = t.find? k' :=
  find?_congr fun r hr => by rw [mem_erase, hr, and_iff_left h]

end Keys

section Total

/-- Sum of an integer weight over the rows. -/
def total
    (w : ρ → ℤ)
    (t : KeyedTable ρ key) :
    ℤ :=
  (t.rows.map w).sum

theorem total_one
    (t : KeyedTable ρ key) :
    total (fun _ => 1) t = t.rows.length := by
  simp [total]

theorem total_indicator
    (p : ρ → Prop)
    [DecidablePred p]
    (t : KeyedTable ρ key) :
    total (fun r => if p r then 1 else 0) t =
      (t.rows.filter (fun r => decide (p r))).length := by
  unfold total
  induction t.rows with
  | nil =>
      rfl
  | cons r rows ih =>
      by_cases h : p r
      · simp [h, ih]
        ring
      · simp [h, ih]

variable [DecidableEq κ]

/-- Dropping the one row of a key drops its weight from the sum. -/
theorem sum_filter_key_ne
    (w : ρ → ℤ)
    {r : ρ} :
    ∀ rows : List ρ,
      (rows.map key).Nodup →
      r ∈ rows →
      ((rows.filter (fun s => decide (key s ≠ key r))).map w).sum =
        (rows.map w).sum - w r
  | [], _, hmem => by
      simp at hmem
  | s :: rows, hnd, hmem => by
      rw [List.map_cons, List.nodup_cons] at hnd
      rcases List.mem_cons.1 hmem with rfl | hmem
      · have hrest :
            rows.filter (fun s => decide (key s ≠ key r)) = rows := by
          apply List.filter_eq_self.2
          intro s hs
          have hne : key s ≠ key r := fun he =>
            hnd.1 (he ▸ List.mem_map_of_mem hs)
          simpa using hne
        rw [List.filter_cons_of_neg (by simp), hrest]
        simp
      · have hne : key s ≠ key r := fun he =>
          hnd.1 (he ▸ List.mem_map_of_mem hmem)
        rw [List.filter_cons_of_pos (by simpa using hne)]
        simp only [List.map_cons, List.sum_cons]
        rw [sum_filter_key_ne w rows hnd.2 hmem]
        ring

/-- Deleting a row takes its weight off the total. -/
theorem total_erase
    (w : ρ → ℤ)
    (t : KeyedTable ρ key)
    {r : ρ}
    (hr : r ∈ t.rows) :
    total w (t.erase (key r)) = total w t - w r :=
  sum_filter_key_ne w t.rows t.nodup hr

/-- Replacing exchanges the displaced weight for the new one. -/
theorem total_insertOrReplace
    (w : ρ → ℤ)
    (t : KeyedTable ρ key)
    (r : ρ) :
    total w (t.insertOrReplace r) =
      total w (t.erase (key r)) + w r := by
  simp [total, insertOrReplace]

end Total

section Size

theorem length_filter_le
    (t : KeyedTable ρ key)
    (p : ρ → Bool) :
    (t.filter p).rows.length ≤ t.rows.length :=
  List.length_filter_le p t.rows

variable [DecidableEq κ]

theorem length_erase_le
    (t : KeyedTable ρ key)
    (k : κ) :
    (t.erase k).rows.length ≤ t.rows.length :=
  t.length_filter_le _

theorem length_erase_of_find?
    {t : KeyedTable ρ key}
    {k : κ}
    {r : ρ}
    (h : t.find? k = some r) :
    (t.erase k).rows.length + 1 = t.rows.length := by
  obtain ⟨hr, rfl⟩ := find?_eq_some_iff.1 h
  have htotal := total_erase (fun _ => 1) t hr
  rw [total_one, total_one] at htotal
  omega

theorem length_insertOrReplace_of_none
    {t : KeyedTable ρ key}
    {r : ρ}
    (h : t.find? (key r) = none) :
    (t.insertOrReplace r).rows.length = t.rows.length + 1 := by
  simp [insertOrReplace, erase_of_find?_none h]

@[simp] theorem length_modify
    {f : ρ → ρ}
    (hf : ∀ r, key (f r) = key r)
    (t : KeyedTable ρ key)
    (k : κ) :
    (t.modify k f hf).rows.length = t.rows.length := by
  simp [modify]

theorem length_upsert
    {f : ρ → ρ}
    (hf : ∀ r, key (f r) = key r)
    (t : KeyedTable ρ key)
    (r : ρ) :
    (t.upsert r f hf).rows.length =
      t.rows.length + if (t.find? (key r)).isNone then 1 else 0 := by
  unfold upsert
  cases h : t.find? (key r) with
  | some s =>
      simp
  | none =>
      simp [length_insertOrReplace_of_none h]

theorem length_insertOrIgnore
    (t : KeyedTable ρ key)
    (r : ρ) :
    (t.insertOrIgnore r).rows.length =
      t.rows.length + if (t.find? (key r)).isNone then 1 else 0 := by
  unfold insertOrIgnore
  cases h : t.find? (key r) with
  | some s =>
      simp
  | none =>
      simp [length_insertOrReplace_of_none h]

theorem find?_insertOrIgnore_ne
    (t : KeyedTable ρ key)
    {r : ρ}
    {k : κ}
    (h : key r ≠ k) :
    (t.insertOrIgnore r).find? k = t.find? k := by
  unfold insertOrIgnore
  cases t.find? (key r) with
  | some s =>
      rfl
  | none =>
      exact t.find?_insertOrReplace_ne h

/-- Rows of distinct keys make a table grow by those whose key is free. -/
theorem length_foldl_insertOrIgnore
    (rows : List ρ)
    (hrows : (rows.map key).Nodup)
    (t : KeyedTable ρ key) :
    (rows.foldl insertOrIgnore t).rows.length =
      t.rows.length + (rows.filter (fun r => (t.find? (key r)).isNone)).length := by
  induction rows generalizing t with
  | nil =>
      simp
  | cons r rows ih =>
      rw [List.map_cons, List.nodup_cons] at hrows
      obtain ⟨hfresh, hrest⟩ := hrows
      have hsame : rows.filter (fun s => ((t.insertOrIgnore r).find? (key s)).isNone) =
          rows.filter (fun s => (t.find? (key s)).isNone) := by
        apply List.filter_congr
        intro s hs
        have hne : key r ≠ key s := fun he => hfresh (he ▸ List.mem_map_of_mem hs)
        rw [t.find?_insertOrIgnore_ne hne]
      rw [List.foldl_cons, ih hrest, hsame, length_insertOrIgnore, List.filter_cons]
      split_ifs
      · rw [List.length_cons]
        omega
      · rfl

end Size

end KeyedTable
end CertRelay
