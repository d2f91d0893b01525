import Mathlib.Data.List.Perm.Basic
import Mathlib.Data.List.Nodup
import Mathlib.Data.Finset.Max
import Mathlib.Order.WithBot

/-!
# Registers with a version and a freshness

A replica holds at most one item.  It accepts an offer that has a higher version
*or* is fresher, and stores the offer merged with what it holds: the merge is as
fresh as the offer and has the higher of the two versions.

What is held before the first accepted offer need not be such an item.  A `Start`
says which offers replace it, and what version the first accepted one adds to.

**Results.**
* `fresh_le_run`: offers of no higher version only refresh;
* `Start.run_eq_of_top`: offers that include one with the strictly highest version,
  above the start, and the highest freshness leave exactly that one, in every order;
* `Start.orders_agree_iff`: for offers of distinct versions, all orders leave the same
  version and freshness if and only if none replaces the start, or a freshest one does
  which is also the newest, should any be newer than the start.
-/

namespace CertRelay

universe u v w

/-- The version and freshness of items, and the merge of an offer with a held item. -/
structure Register (ι : Type u) (ν : Type v) (φ : Type w) [LinearOrder ν] [LinearOrder φ] where
  version : ι → ν
  fresh : ι → φ
  merge : ι → ι → ι
  fresh_merge : ∀ offered held, fresh (merge offered held) = fresh offered
  version_merge : ∀ offered held,
    version (merge offered held) = max (version held) (version offered)
  merge_of_le : ∀ offered held, version held ≤ version offered → merge offered held = offered

namespace Register

variable {ι : Type u} {ν : Type v} {φ : Type w} [LinearOrder ν] [LinearOrder φ]
variable (R : Register ι ν φ)

/-- The offer is accepted over a held item. -/
def Accepts (held offered : ι) : Prop :=
  R.version held < R.version offered ∨ R.fresh held < R.fresh offered

instance (held offered : ι) : Decidable (R.Accepts held offered) :=
  inferInstanceAs (Decidable (_ ∨ _))

/-- One offer. -/
def offer (held offered : ι) : ι :=
  if R.Accepts held offered then R.merge offered held else held

/-- A sequence of offers. -/
def run (held : ι) (offers : List ι) : ι :=
  offers.foldl R.offer held

/-- What a held item shows: its version and its freshness. -/
def stamp (x : ι) : ν × φ :=
  (R.version x, R.fresh x)

variable {R}

section Items

theorem offer_of_accepts
    {x o : ι}
    (h : R.Accepts x o) :
    R.offer x o = R.merge o x :=
  if_pos h

theorem offer_of_not_accepts
    {x o : ι}
    (h : ¬ R.Accepts x o) :
    R.offer x o = x :=
  if_neg h

theorem offer_of_lt
    {x o : ι}
    (h : R.version x < R.version o) :
    R.offer x o = o := by
  rw [offer_of_accepts (Or.inl h), R.merge_of_le o x h.le]

/-- Whether accepted or not, an offer leaves the higher version. -/
theorem version_offer
    (x o : ι) :
    R.version (R.offer x o) = max (R.version x) (R.version o) := by
  by_cases hacc : R.Accepts x o
  · rw [offer_of_accepts hacc, R.version_merge]
  · obtain ⟨hge, _⟩ := not_or.1 hacc
    rw [offer_of_not_accepts hacc, max_eq_left (not_lt.1 hge)]

/-- The freshness shown is that of the held or of the offered item. -/
theorem fresh_offer_cases
    (x o : ι) :
    R.fresh (R.offer x o) = R.fresh x ∨ R.fresh (R.offer x o) = R.fresh o := by
  by_cases hacc : R.Accepts x o
  · rw [offer_of_accepts hacc, R.fresh_merge]
    exact Or.inr rfl
  · rw [offer_of_not_accepts hacc]
    exact Or.inl rfl

/-- An offer of no higher version leaves the higher freshness. -/
theorem fresh_offer_of_le
    {x o : ι}
    (h : R.version o ≤ R.version x) :
    R.fresh (R.offer x o) = max (R.fresh x) (R.fresh o) := by
  by_cases hacc : R.Accepts x o
  · have hlt : R.fresh x < R.fresh o := hacc.resolve_left (not_lt.2 h)
    rw [offer_of_accepts hacc, R.fresh_merge, max_eq_right hlt.le]
  · obtain ⟨_, hge⟩ := not_or.1 hacc
    rw [offer_of_not_accepts hacc, max_eq_left (not_lt.1 hge)]

theorem version_run_lt
    {top : ν}
    {x : ι}
    {offers : List ι}
    (hx : R.version x < top)
    (h : ∀ o ∈ offers, R.version o < top) :
    R.version (R.run x offers) < top := by
  induction offers generalizing x with
  | nil =>
      exact hx
  | cons o offers ih =>
      apply ih
      · rw [version_offer]
        exact max_lt hx (h o (by simp))
      · intro o' ho'
        exact h o' (List.mem_cons_of_mem o ho')

theorem exists_fresh_run
    (x : ι)
    (offers : List ι) :
    ∃ o ∈ x :: offers, R.fresh (R.run x offers) = R.fresh o := by
  induction offers generalizing x with
  | nil =>
      exact ⟨x, by simp, rfl⟩
  | cons o offers ih =>
      obtain ⟨e, he, hfresh⟩ := ih (R.offer x o)
      rcases List.mem_cons.1 he with rfl | he
      · rcases fresh_offer_cases (R := R) x o with hx | ho
        · exact ⟨x, by simp, hfresh.trans hx⟩
        · exact ⟨o, by simp, hfresh.trans ho⟩
      · exact ⟨e, by simp [he], hfresh⟩

/-- An item that no offer exceeds in either respect is kept. -/
theorem run_of_dominated
    {m : ι}
    {offers : List ι}
    (h : ∀ o ∈ offers, R.version o ≤ R.version m ∧ R.fresh o ≤ R.fresh m) :
    R.run m offers = m := by
  induction offers with
  | nil =>
      rfl
  | cons o offers ih =>
      have ho := h o (by simp)
      have hstay : R.offer m o = m := by
        apply offer_of_not_accepts
        rintro (hlt | hlt)
        · exact absurd hlt (not_lt.2 ho.1)
        · exact absurd hlt (not_lt.2 ho.2)
      show R.run (R.offer m o) offers = m
      rw [hstay]
      exact ih (fun o' ho' => h o' (List.mem_cons_of_mem o ho'))

theorem version_run_of_le
    {x : ι}
    {offers : List ι}
    (h : ∀ o ∈ offers, R.version o ≤ R.version x) :
    R.version (R.run x offers) = R.version x := by
  induction offers generalizing x with
  | nil =>
      rfl
  | cons o offers ih =>
      have hoffer : R.version (R.offer x o) = R.version x := by
        rw [version_offer, max_eq_left (h o (by simp))]
      show R.version (R.run (R.offer x o) offers) = R.version x
      rw [ih, hoffer]
      intro o' ho'
      rw [hoffer]
      exact h o' (List.mem_cons_of_mem o ho')

/-- Offers of no higher version only refresh: the result is as fresh as each of them. -/
theorem fresh_le_run
    {x : ι}
    {offers : List ι}
    (h : ∀ o ∈ offers, R.version o ≤ R.version x)
    {o : ι}
    (ho : o ∈ x :: offers) :
    R.fresh o ≤ R.fresh (R.run x offers) := by
  induction offers generalizing x o with
  | nil =>
      rw [List.mem_singleton.1 ho]
      exact le_rfl
  | cons e offers ih =>
      have he := h e (by simp)
      have hfresh : R.fresh (R.offer x e) = max (R.fresh x) (R.fresh e) :=
        fresh_offer_of_le he
      have hrest : ∀ o' ∈ offers, R.version o' ≤ R.version (R.offer x e) := by
        intro o' ho'
        rw [version_offer, max_eq_left he]
        exact h o' (List.mem_cons_of_mem e ho')
      have hhead : R.fresh (R.offer x e) ≤ R.fresh (R.run x (e :: offers)) :=
        ih hrest (by simp)
      rw [hfresh] at hhead
      rcases List.mem_cons.1 ho with rfl | ho
      · exact (le_max_left _ _).trans hhead
      · rcases List.mem_cons.1 ho with rfl | ho
        · exact (le_max_right _ _).trans hhead
        · exact ih hrest (by simp [ho])

end Items

variable (R)

/-- What is held before the offers: the offers that replace it, by what item, and the
version that the item adds to. -/
structure Start where
  enter : ι → Option ι
  base : WithBot ν
  fresh_enter : ∀ {o x}, enter o = some x → R.fresh x = R.fresh o
  version_enter : ∀ {o x}, enter o = some x → (R.version x : WithBot ν) = max base (R.version o)
  enter_of_le : ∀ {o x}, enter o = some x → base ≤ R.version o → x = o

variable {R}

namespace Start

variable (S : R.Start)

/-- A sequence of offers to what is held; `none` while it is not replaced. -/
def run : List ι → Option ι
  | [] => none
  | o :: offers =>
      match S.enter o with
      | none => run offers
      | some x => some (R.run x offers)

/-- Every order of the offers leaves the same version and freshness. -/
def OrdersAgree (offers : List ι) : Prop :=
  ∀ l₁ l₂ : List ι, l₁.Perm offers → l₂.Perm offers →
    (S.run l₁).map R.stamp = (S.run l₂).map R.stamp

/-- No offer replaces the start, or a freshest one does, which is also the newest if
any offer is newer than the start. -/
def FreshestIsNewest (offers : List ι) : Prop :=
  (∀ o ∈ offers, S.enter o = none) ∨
    ∃ m ∈ offers, S.enter m ≠ none ∧ (∀ o ∈ offers, R.fresh o ≤ R.fresh m) ∧
      ((∃ o ∈ offers, S.base < R.version o) → ∀ o ∈ offers, R.version o ≤ R.version m)

variable {S}

theorem run_cons_of_none
    {o : ι}
    (h : S.enter o = none)
    (offers : List ι) :
    S.run (o :: offers) = S.run offers := by
  rw [run, h]

theorem run_cons_of_some
    {o x : ι}
    (h : S.enter o = some x)
    (offers : List ι) :
    S.run (o :: offers) = some (R.run x offers) := by
  rw [run, h]

/-- The first offer that replaces the start. -/
theorem run_eq_some
    {offers : List ι}
    {y : ι}
    (h : S.run offers = some y) :
    ∃ before o after x, offers = before ++ o :: after ∧
      (∀ e ∈ before, S.enter e = none) ∧ S.enter o = some x ∧ y = R.run x after := by
  induction offers with
  | nil =>
      cases h
  | cons o offers ih =>
      cases ho : S.enter o with
      | none =>
          rw [run_cons_of_none ho] at h
          obtain ⟨before, e, after, x, rfl, hbefore, he, hy⟩ := ih h
          refine ⟨o :: before, e, after, x, rfl, ?_, he, hy⟩
          intro e' he'
          rcases List.mem_cons.1 he' with rfl | he'
          · exact ho
          · exact hbefore e' he'
      | some x =>
          rw [run_cons_of_some ho] at h
          cases h
          exact ⟨[], o, offers, x, rfl, by simp, ho, rfl⟩

theorem run_eq_none_iff
    {offers : List ι} :
    S.run offers = none ↔ ∀ o ∈ offers, S.enter o = none := by
  induction offers with
  | nil =>
      simp [run]
  | cons o offers ih =>
      cases ho : S.enter o with
      | none =>
          rw [run_cons_of_none ho, ih]
          simp [ho]
      | some x =>
          rw [run_cons_of_some ho]
          simp [ho]

theorem run_append_of_none
    {offers : List ι}
    (h : ∀ o ∈ offers, S.enter o = none)
    (more : List ι) :
    S.run (offers ++ more) = S.run more := by
  induction offers with
  | nil =>
      rfl
  | cons o offers ih =>
      rw [List.cons_append, run_cons_of_none (h o (by simp))]
      exact ih (fun o' ho' => h o' (List.mem_cons_of_mem o ho'))

theorem run_append_of_some
    {offers : List ι}
    {x : ι}
    (h : S.run offers = some x)
    (more : List ι) :
    S.run (offers ++ more) = some (R.run x more) := by
  induction offers with
  | nil =>
      cases h
  | cons o offers ih =>
      rw [List.cons_append]
      cases ho : S.enter o with
      | none =>
          rw [run_cons_of_none ho] at h ⊢
          exact ih h
      | some y =>
          rw [run_cons_of_some ho] at h ⊢
          cases h
          exact congrArg some List.foldl_append

section Newer

/-- Offers below a version that the start is below leave an item below it. -/
theorem version_run_lt
    {top : ν}
    {offers : List ι}
    (hbase : S.base < top)
    (h : ∀ o ∈ offers, R.version o < top)
    {y : ι}
    (hy : S.run offers = some y) :
    R.version y < top := by
  obtain ⟨before, o, after, x, rfl, _, ho, rfl⟩ := run_eq_some hy
  apply Register.version_run_lt
  · rw [← WithBot.coe_lt_coe, S.version_enter ho]
    exact max_lt hbase (WithBot.coe_lt_coe.2 (h o (by simp)))
  · intro e he
    exact h e (by simp [he])

/-- A newest offer that comes last is what is left. -/
theorem run_concat_of_top
    {m : ι}
    {rest : List ι}
    (hbase : S.base < R.version m)
    (htop : ∀ o ∈ rest, R.version o < R.version m)
    (henter : ∃ o ∈ rest ++ [m], S.enter o ≠ none) :
    S.run (rest ++ [m]) = some m := by
  cases hrest : S.run rest with
  | some y =>
      rw [run_append_of_some hrest]
      exact congrArg some (offer_of_lt (version_run_lt hbase htop hrest))
  | none =>
      rw [run_eq_none_iff] at hrest
      rw [run_append_of_none hrest]
      cases hm : S.enter m with
      | some x =>
          rw [run_cons_of_some hm, S.enter_of_le hm hbase.le]
          rfl
      | none =>
          obtain ⟨o, ho, hne⟩ := henter
          rcases List.mem_append.1 ho with ho | ho
          · exact absurd (hrest o ho) hne
          · rw [List.mem_singleton.1 ho] at hne
            exact absurd hm hne

/-- **The top offer wins in every order** when it is also the freshest. -/
theorem run_eq_of_top
    {m : ι}
    {offers : List ι}
    (hbase : S.base < R.version m)
    (henter : S.enter m ≠ none)
    (hm : m ∈ offers)
    (htop : ∀ o ∈ offers, o = m ∨ R.version o < R.version m)
    (hfresh : ∀ o ∈ offers, R.fresh o ≤ R.fresh m) :
    S.run offers = some m := by
  obtain ⟨before, after, rfl, hnot⟩ := List.eq_append_cons_of_mem hm
  have hbefore : ∀ o ∈ before, R.version o < R.version m := by
    intro o ho
    apply (htop o (by simp [ho])).resolve_left
    rintro rfl
    exact hnot ho
  have hfirst : S.run (before ++ [m]) = some m :=
    run_concat_of_top hbase hbefore ⟨m, by simp, henter⟩
  have hsplit : before ++ m :: after = (before ++ [m]) ++ after := by
    simp
  rw [hsplit, run_append_of_some hfirst]
  apply congrArg some
  apply run_of_dominated
  intro o ho
  have hmem : o ∈ before ++ m :: after := by
    simp [ho]
  refine ⟨?_, hfresh o hmem⟩
  rcases htop o hmem with rfl | hlt
  · exact le_rfl
  · exact hlt.le

end Newer

section Refresh

variable {offers : List ι} (h : ∀ o ∈ offers, (R.version o : WithBot ν) ≤ S.base)

include h

theorem version_run_of_le
    {y : ι}
    (hy : S.run offers = some y) :
    (R.version y : WithBot ν) = S.base := by
  obtain ⟨before, o, after, x, rfl, _, ho, rfl⟩ := run_eq_some hy
  have hx : (R.version x : WithBot ν) = S.base := by
    rw [S.version_enter ho, max_eq_left (h o (by simp))]
  rw [Register.version_run_of_le, hx]
  intro e he
  rw [← WithBot.coe_le_coe, hx]
  exact h e (by simp [he])

theorem fresh_le_run
    {m y : ι}
    (hm : m ∈ offers)
    (henter : S.enter m ≠ none)
    (hy : S.run offers = some y) :
    R.fresh m ≤ R.fresh y := by
  obtain ⟨before, o, after, x, rfl, hbefore, ho, rfl⟩ := run_eq_some hy
  have hx : (R.version x : WithBot ν) = S.base := by
    rw [S.version_enter ho, max_eq_left (h o (by simp))]
  have hle : ∀ e ∈ after, R.version e ≤ R.version x := by
    intro e he
    rw [← WithBot.coe_le_coe, hx]
    exact h e (by simp [he])
  rcases List.mem_append.1 hm with hm | hm
  · exact absurd (hbefore m hm) henter
  · rcases List.mem_cons.1 hm with rfl | hm
    · rw [← S.fresh_enter ho]
      exact Register.fresh_le_run hle (by simp)
    · exact Register.fresh_le_run hle (by simp [hm])

end Refresh

/-- What is left is as fresh as one of the offers. -/
theorem exists_fresh_run
    {offers : List ι}
    {y : ι}
    (hy : S.run offers = some y) :
    ∃ o ∈ offers, R.fresh y = R.fresh o := by
  obtain ⟨before, o, after, x, rfl, _, ho, rfl⟩ := run_eq_some hy
  obtain ⟨e, he, hfresh⟩ := Register.exists_fresh_run (R := R) x after
  rcases List.mem_cons.1 he with rfl | he
  · exact ⟨o, by simp, hfresh.trans (S.fresh_enter ho)⟩
  · exact ⟨e, by simp [he], hfresh⟩

section Agreement

variable {offers : List ι}

/-- Among distinct versions the others are strictly below a highest one. -/
theorem eq_or_lt_of_top
    (hdistinct : (offers.map R.version).Nodup)
    {m : ι}
    (hm : m ∈ offers)
    (htop : ∀ o ∈ offers, R.version o ≤ R.version m) :
    ∀ o ∈ offers, o = m ∨ R.version o < R.version m := by
  intro o ho
  rcases (htop o ho).eq_or_lt with heq | hlt
  · exact Or.inl (List.inj_on_of_nodup_map hdistinct ho hm heq)
  · exact Or.inr hlt

/-- With a freshest offer that is the newest, all orders leave that offer. -/
theorem run_perm_of_top
    (hdistinct : (offers.map R.version).Nodup)
    {m : ι}
    (hm : m ∈ offers)
    (henter : S.enter m ≠ none)
    (hfresh : ∀ o ∈ offers, R.fresh o ≤ R.fresh m)
    (hnewer : ∃ o ∈ offers, S.base < R.version o)
    (htop : ∀ o ∈ offers, R.version o ≤ R.version m)
    {l : List ι}
    (hl : l.Perm offers) :
    S.run l = some m := by
  obtain ⟨o, ho, hlt⟩ := hnewer
  have hbase : S.base < R.version m :=
    hlt.trans_le (WithBot.coe_le_coe.2 (htop o ho))
  exact run_eq_of_top hbase henter (hl.mem_iff.2 hm)
    (fun o ho => eq_or_lt_of_top hdistinct hm htop o (hl.mem_iff.1 ho))
    (fun o ho => hfresh o (hl.mem_iff.1 ho))

/-- Where none is newer than the start, all orders leave the same, if a freshest offer
replaces the start. -/
theorem stamp_run_of_fresh
    (hle : ∀ o ∈ offers, (R.version o : WithBot ν) ≤ S.base)
    {m : ι}
    (hm : m ∈ offers)
    (henter : S.enter m ≠ none)
    (hfresh : ∀ o ∈ offers, R.fresh o ≤ R.fresh m)
    {l : List ι}
    (hl : l.Perm offers) :
    ∃ y, S.run l = some y ∧ (R.version y : WithBot ν) = S.base ∧ R.fresh y = R.fresh m := by
  have hle' : ∀ o ∈ l, (R.version o : WithBot ν) ≤ S.base :=
    fun o ho => hle o (hl.mem_iff.1 ho)
  cases hrun : S.run l with
  | none =>
      exact absurd (run_eq_none_iff.1 hrun m (hl.mem_iff.2 hm)) henter
  | some y =>
      refine ⟨y, rfl, version_run_of_le hle' hrun, ?_⟩
      obtain ⟨o, ho, heq⟩ := exists_fresh_run hrun
      apply le_antisymm
      · rw [heq]
        exact hfresh o (hl.mem_iff.1 ho)
      · exact fresh_le_run hle' (hl.mem_iff.2 hm) henter hrun

theorem ordersAgree_of_freshestIsNewest
    (hdistinct : (offers.map R.version).Nodup)
    (h : S.FreshestIsNewest offers) :
    S.OrdersAgree offers := by
  intro l₁ l₂ h₁ h₂
  rcases h with hnone | ⟨m, hm, henter, hfresh, hnewest⟩
  · have hrun : ∀ l : List ι, l.Perm offers → S.run l = none :=
      fun l hl => run_eq_none_iff.2 (fun o ho => hnone o (hl.mem_iff.1 ho))
    rw [hrun l₁ h₁, hrun l₂ h₂]
  · by_cases hnewer : ∃ o ∈ offers, S.base < R.version o
    · rw [run_perm_of_top hdistinct hm henter hfresh hnewer (hnewest hnewer) h₁,
        run_perm_of_top hdistinct hm henter hfresh hnewer (hnewest hnewer) h₂]
    · have hle : ∀ o ∈ offers, (R.version o : WithBot ν) ≤ S.base :=
        fun o ho => not_lt.1 (fun hlt => hnewer ⟨o, ho, hlt⟩)
      obtain ⟨y₁, hy₁, hv₁, hf₁⟩ := stamp_run_of_fresh hle hm henter hfresh h₁
      obtain ⟨y₂, hy₂, hv₂, hf₂⟩ := stamp_run_of_fresh hle hm henter hfresh h₂
      have hversion : R.version y₁ = R.version y₂ :=
        WithBot.coe_inj.1 (hv₁.trans hv₂.symm)
      rw [hy₁, hy₂, Option.map_some, Option.map_some]
      exact congrArg some (Prod.ext hversion (hf₁.trans hf₂.symm))

/-- The offers can be ordered with those that are refused first. -/
theorem exists_refused_first
    (S : R.Start)
    (offers : List ι) :
    ∃ refused entering : List ι, (refused ++ entering).Perm offers ∧
      (∀ o ∈ refused, S.enter o = none) ∧ ∀ o ∈ entering, o ∈ offers ∧ S.enter o ≠ none := by
  refine ⟨_, _, List.filter_append_perm (fun o => (S.enter o).isNone) offers, ?_, ?_⟩
  · intro o ho
    exact Option.isNone_iff_eq_none.1 (List.mem_filter.1 ho).2
  · intro o ho
    obtain ⟨hmem, hsome⟩ := List.mem_filter.1 ho
    exact ⟨hmem, fun hnone => by simp [hnone] at hsome⟩

variable [DecidableEq ι]

/-- A nonempty list of offers has one of the highest version. -/
theorem exists_top
    (h : offers ≠ []) :
    ∃ m ∈ offers, ∀ o ∈ offers, R.version o ≤ R.version m := by
  obtain ⟨m, hm, hmax⟩ :=
    Finset.exists_max_image offers.toFinset R.version (List.toFinset_nonempty_iff offers |>.2 h)
  exact ⟨m, List.mem_toFinset.1 hm, fun o ho => hmax o (List.mem_toFinset.2 ho)⟩

/-- If all orders agree, a newest offer above the start replaces it and is the freshest:
the orders that offer it last and first show it. -/
theorem top_fresh_of_ordersAgree
    (hdistinct : (offers.map R.version).Nodup)
    (hagree : S.OrdersAgree offers)
    (henter : ∃ o ∈ offers, S.enter o ≠ none)
    {m : ι}
    (hm : m ∈ offers)
    (htop : ∀ o ∈ offers, R.version o ≤ R.version m)
    (hbase : S.base < R.version m) :
    S.enter m ≠ none ∧ ∀ o ∈ offers, R.fresh o ≤ R.fresh m := by
  have hothers : ∀ o ∈ offers.erase m, R.version o < R.version m := by
    intro o ho
    have hne : o ≠ m := by
      rintro rfl
      exact List.Nodup.not_mem_erase (List.Nodup.of_map _ hdistinct) ho
    exact (eq_or_lt_of_top hdistinct hm htop o (List.mem_of_mem_erase ho)).resolve_left hne
  have hfirst : (m :: offers.erase m).Perm offers := (List.perm_cons_erase hm).symm
  have hlast : (offers.erase m ++ [m]).Perm offers :=
    (List.perm_append_singleton m _).trans hfirst
  have hrunLast : S.run (offers.erase m ++ [m]) = some m := by
    obtain ⟨o, ho, hne⟩ := henter
    exact run_concat_of_top hbase hothers ⟨o, hlast.mem_iff.2 ho, hne⟩
  have hsame := hagree _ _ hlast hfirst
  rw [hrunLast] at hsame
  cases hmEnter : S.enter m with
  | none =>
      -- offered first, the newest is refused, and nothing reaches its version
      rw [run_cons_of_none hmEnter] at hsame
      cases hrest : S.run (offers.erase m) with
      | none =>
          rw [hrest] at hsame
          cases hsame
      | some y =>
          rw [hrest, Option.map_some, Option.map_some, Option.some_inj] at hsame
          have hlt : R.version y < R.version m := version_run_lt hbase hothers hrest
          exact absurd (congrArg Prod.fst hsame).symm hlt.ne
  | some x =>
      have hx : x = m := S.enter_of_le hmEnter hbase.le
      subst hx
      rw [run_cons_of_some hmEnter, Option.map_some, Option.map_some, Option.some_inj] at hsame
      have hfresh : R.fresh x = R.fresh (R.run x (offers.erase x)) := congrArg Prod.snd hsame
      refine ⟨Option.some_ne_none x, ?_⟩
      intro o ho
      rw [hfresh]
      exact Register.fresh_le_run (fun e he => (hothers e he).le) (hfirst.mem_iff.2 ho)

/-- If all orders agree and no offer is newer than the start, a freshest offer replaces it:
the order that offers first what is refused shows it. -/
theorem fresh_enters_of_ordersAgree
    (hagree : S.OrdersAgree offers)
    (henter : ∃ o ∈ offers, S.enter o ≠ none)
    (hle : ∀ o ∈ offers, (R.version o : WithBot ν) ≤ S.base) :
    ∃ m ∈ offers, S.enter m ≠ none ∧ ∀ o ∈ offers, R.fresh o ≤ R.fresh m := by
  obtain ⟨e, he, hne⟩ := henter
  obtain ⟨refused, entering, hperm, hrefused, hentering⟩ := exists_refused_first S offers
  have hfirst : (e :: offers.erase e).Perm offers := (List.perm_cons_erase he).symm
  have hsame := hagree _ _ hperm hfirst
  rw [run_append_of_none hrefused] at hsame
  obtain ⟨x, hx⟩ := Option.ne_none_iff_exists'.1 hne
  rw [run_cons_of_some hx, Option.map_some] at hsame
  obtain ⟨y, hy, hstamp⟩ := Option.map_eq_some_iff.1 hsame
  obtain ⟨m, hm, hfresh⟩ := exists_fresh_run hy
  refine ⟨m, (hentering m hm).1, (hentering m hm).2, ?_⟩
  intro o ho
  have hxBase : (R.version x : WithBot ν) = S.base := by
    rw [S.version_enter hx, max_eq_left (hle e he)]
  have hrest : ∀ o' ∈ offers.erase e, R.version o' ≤ R.version x := by
    intro o' ho'
    rw [← WithBot.coe_le_coe, hxBase]
    exact hle o' (List.mem_of_mem_erase ho')
  have hreach : R.fresh o ≤ R.fresh (R.run x (offers.erase e)) := by
    rcases List.mem_cons.1 (hfirst.mem_iff.2 ho) with rfl | ho
    · rw [← S.fresh_enter hx]
      exact Register.fresh_le_run hrest (by simp)
    · exact Register.fresh_le_run hrest (by simp [ho])
  calc R.fresh o ≤ R.fresh (R.run x (offers.erase e)) := hreach
    _ = R.fresh y := (congrArg Prod.snd hstamp).symm
    _ = R.fresh m := hfresh

/-- **When the order of offers does not matter.** -/
theorem orders_agree_iff
    (hdistinct : (offers.map R.version).Nodup) :
    S.OrdersAgree offers ↔ S.FreshestIsNewest offers := by
  refine ⟨fun hagree => ?_, ordersAgree_of_freshestIsNewest hdistinct⟩
  by_cases henter : ∃ o ∈ offers, S.enter o ≠ none
  · right
    by_cases hnewer : ∃ o ∈ offers, S.base < R.version o
    · obtain ⟨e, he, hlt⟩ := hnewer
      obtain ⟨m, hm, htop⟩ := exists_top (R := R) (List.ne_nil_of_mem he)
      obtain ⟨hmEnter, hfresh⟩ := top_fresh_of_ordersAgree hdistinct hagree henter hm htop
        (hlt.trans_le (WithBot.coe_le_coe.2 (htop e he)))
      exact ⟨m, hm, hmEnter, hfresh, fun _ => htop⟩
    · obtain ⟨m, hm, hmEnter, hfresh⟩ := fresh_enters_of_ordersAgree hagree henter
        (fun o ho => not_lt.1 (fun hlt => hnewer ⟨o, ho, hlt⟩))
      exact ⟨m, hm, hmEnter, hfresh, fun h => absurd h hnewer⟩
  · left
    intro o ho
    by_contra hne
    exact henter ⟨o, ho, hne⟩

end Agreement

end Start

end Register
end CertRelay
