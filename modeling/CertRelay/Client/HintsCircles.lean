import CertRelay.Client.HintsOrder
import Mathlib.Data.Fintype.EquivFin
import Mathlib.Data.List.Forall2
import Mathlib.Data.Set.Finite.Basic

/-!
# Circles of hints responses

A contest between two responses is decided by the number of components, and a third response
that differs from both decides it anew.  If the two list the same components, one that has
almost nothing of what both list, and enough that neither does, is not after the one that
lost, and is after the one that won.

**Results.**
* `score_thirdOf`: how responses compare with the third one;
* `exists_circle`: two contested responses with the same components are in a circle;
* `cmp_lawful_where_uncontested`: the comparison is lawful on responses that list each space
  once if none is contested with two others, and with the same components one contest is
  too many.
-/

namespace CertRelay
namespace Hints

open Ranking

section Components

/-- Two hints of one space list the same components, which are those that are not 0. -/
structure SameComponents (sa sb : SpaceHint) : Prop where
  name : sa.name = sb.name
  epochTip : sa.epochTip = 0 ↔ sb.epochTip = 0
  seq : sa.seq = 0 ↔ sb.seq = 0
  delegateSeq : sa.delegateSeq = 0 ↔ sb.delegateSeq = 0
  handles : ∀ name, topSeq name (handlesOf sa) = 0 ↔ topSeq name (handlesOf sb) = 0

theorem SameComponents.symm
    {sa sb : SpaceHint}
    (h : SameComponents sa sb) :
    SameComponents sb sa where
  name := h.name.symm
  epochTip := h.epochTip.symm
  seq := h.seq.symm
  delegateSeq := h.delegateSeq.symm
  handles name := (h.handles name).symm

/-- The handles of a space, those of sequence 0 aside. -/
theorem mem_names_flattenHandles
    {s : SpaceHint}
    {name : String} :
    name ∈ (flattenHandles s).rows.map Prod.fst ↔ topSeq name (handlesOf s) ≠ 0 := by
  rw [List.mem_map]
  constructor
  · rintro ⟨row, hrow, rfl⟩
    obtain ⟨hpos, htop⟩ := mem_flattenHandles.1 hrow
    omega
  · intro hne
    exact ⟨(name, _), mem_flattenHandles.2 ⟨Nat.pos_of_ne_zero hne, rfl⟩, rfl⟩

theorem SameComponents.length_flattenHandles
    {sa sb : SpaceHint}
    (h : SameComponents sa sb) :
    (flattenHandles sa).rows.length = (flattenHandles sb).rows.length := by
  have hperm : ((flattenHandles sa).rows.map Prod.fst).Perm
      ((flattenHandles sb).rows.map Prod.fst) := by
    refine (List.perm_ext_iff_of_nodup (flattenHandles sa).nodup (flattenHandles sb).nodup).2 ?_
    intro name
    rw [mem_names_flattenHandles, mem_names_flattenHandles, ne_eq, ne_eq, h.handles name]
  simpa using hperm.length_eq

/-- The element of a key counts once. -/
theorem sum_indicator
    {α : Type}
    {l : List α}
    {key : α → String}
    (hkeys : (l.map key).Nodup)
    {k : String}
    (hk : k ∈ l.map key) :
    (l.map (fun x => if key x = k then 1 else 0)).sum = 1 := by
  have hfind := elim_find?_eq_sum hkeys k (fun _ => 1)
  rw [← hfind]
  obtain ⟨x, hx, hxk⟩ := List.mem_map.1 hk
  cases h : l.find? (fun b => decide (key b = k)) with
  | none =>
      exact absurd (decide_eq_true hxk) (List.find?_eq_none.1 h x hx)
  | some y =>
      rfl

/-- The handles in which a space is ahead of another. -/
theorem sum_handleLead
    (s m : SpaceHint) :
    ((flattenHandles s).rows.map (handleLead (flattenHandles m))).sum =
      ((flattenHandles s).rows.map
        (fun row => ahead row.2 (topSeq row.1 (handlesOf m)))).sum := by
  refine congrArg List.sum (List.map_congr_left (fun row hrow => ?_))
  obtain ⟨hpos, _⟩ := mem_flattenHandles.1 hrow
  unfold handleLead
  rw [find?_flattenHandles]
  split_ifs with hother
  · rfl
  · rw [Nat.eq_zero_of_not_pos hother]
    exact (if_pos hpos).symm

/-- It is ahead in all its handles. -/
theorem sum_handleLead_of_ahead
    {s m : SpaceHint}
    (h : ∀ name, topSeq name (handlesOf s) ≠ 0 →
      topSeq name (handlesOf m) < topSeq name (handlesOf s)) :
    ((flattenHandles s).rows.map (handleLead (flattenHandles m))).sum =
      (flattenHandles s).rows.length := by
  rw [sum_handleLead, List.map_congr_left (g := fun _ => 1), List.map_const', List.sum_replicate]
  · simp
  · intro row hrow
    obtain ⟨hpos, htop⟩ := mem_flattenHandles.1 hrow
    exact if_pos (htop ▸ h row.1 (by omega))

/-- It is ahead in all its handles but one. -/
theorem sum_handleLead_of_level
    {s m : SpaceHint}
    {level : String}
    (hlevel : topSeq level (handlesOf s) ≠ 0)
    (heq : topSeq level (handlesOf m) = topSeq level (handlesOf s))
    (h : ∀ name, name ≠ level → topSeq name (handlesOf m) = 0) :
    ((flattenHandles s).rows.map (handleLead (flattenHandles m))).sum + 1 =
      (flattenHandles s).rows.length := by
  have hone := sum_indicator (flattenHandles s).nodup (mem_names_flattenHandles.2 hlevel)
  rw [sum_handleLead, ← hone, ← List.sum_map_add, List.map_congr_left (g := fun _ => 1),
    List.map_const', List.sum_replicate]
  · simp
  · intro row hrow
    obtain ⟨hpos, htop⟩ := mem_flattenHandles.1 hrow
    by_cases hname : row.1 = level
    · rw [if_pos hname, hname, heq, ← hname, ← htop, ahead_eq_zero (Nat.le_refl _)]
    · rw [if_neg hname, h row.1 hname]
      exact if_pos hpos

end Components

section Markers

/-- A space without any component. -/
def bareSpace (name : String) : SpaceHint :=
  ⟨0, name, 0, 0, []⟩

/-- A space that two others cover, and in which the second is ahead of it in one component
more than the first. -/
structure Marks (sa sb m : SpaceHint) : Prop where
  first : SpaceCovers sa m
  second : SpaceCovers sb m
  more : sharedLeads sb m = sharedLeads sa m + 1

variable {sa sb : SpaceHint}

theorem ahead_zero_congr
    {m n : ℕ}
    (h : m = 0 ↔ n = 0) :
    ahead m 0 = ahead n 0 := by
  unfold ahead
  split_ifs <;> omega

theorem spaceCovers_bareSpace
    (s : SpaceHint) :
    SpaceCovers s (bareSpace s.name) where
  name := rfl
  epochTip := UInt32.zero_le
  seq := UInt64.zero_le
  delegateSeq := UInt64.zero_le
  handles _ h := absurd h List.not_mem_nil

/-- The components that are numbers, against zeros. -/
theorem SameComponents.numbers
    (h : SameComponents sa sb) :
    ahead sa.epochTip.toNat 0 = ahead sb.epochTip.toNat 0 ∧
      ahead sa.seq.toNat 0 = ahead sb.seq.toNat 0 ∧
      ahead sa.delegateSeq.toNat 0 = ahead sb.delegateSeq.toNat 0 := by
  refine ⟨ahead_zero_congr ?_, ahead_zero_congr ?_, ahead_zero_congr ?_⟩
  · simpa [← UInt32.toNat_inj] using h.epochTip
  · simpa [← UInt64.toNat_inj] using h.seq
  · simpa [← UInt64.toNat_inj] using h.delegateSeq

/-- Against a space without handles both are ahead in all of theirs. -/
theorem SameComponents.sum_handleLead_nil
    (h : SameComponents sa sb)
    {m : SpaceHint}
    (hm : handlesOf m = []) :
    ((flattenHandles sb).rows.map (handleLead (flattenHandles m))).sum =
      ((flattenHandles sa).rows.map (handleLead (flattenHandles m))).sum := by
  have hall : ∀ s : SpaceHint, ∀ name, topSeq name (handlesOf s) ≠ 0 →
      topSeq name (handlesOf m) < topSeq name (handlesOf s) := by
    intro s name hne
    rw [hm]
    exact Nat.pos_of_ne_zero hne
  rw [sum_handleLead_of_ahead (hall sa), sum_handleLead_of_ahead (hall sb),
    h.length_flattenHandles]

/-- Both are ahead of a bare space in the same components. -/
theorem SameComponents.sharedLeads_bareSpace
    (h : SameComponents sa sb)
    (name : String) :
    sharedLeads sb (bareSpace name) = sharedLeads sa (bareSpace name) := by
  obtain ⟨hepoch, hseq, hdelegate⟩ := h.numbers
  have hhandles := h.sum_handleLead_nil (m := bareSpace name) rfl
  unfold sharedLeads
  rw [hhandles]
  simp only [bareSpace, UInt32.toNat_zero, UInt64.toNat_zero, hepoch, hseq, hdelegate]

/-- A mark without handles. -/
theorem SameComponents.marks
    (h : SameComponents sa sb)
    {m : SpaceHint}
    (hm : handlesOf m = [])
    (hname : sb.name = m.name)
    (hepoch : m.epochTip ≤ sa.epochTip ∧ m.epochTip ≤ sb.epochTip)
    (hseq : m.seq ≤ sa.seq ∧ m.seq ≤ sb.seq)
    (hdelegate : m.delegateSeq ≤ sa.delegateSeq ∧ m.delegateSeq ≤ sb.delegateSeq)
    (hmore : ahead sb.epochTip.toNat m.epochTip.toNat + ahead sb.seq.toNat m.seq.toNat +
        ahead sb.delegateSeq.toNat m.delegateSeq.toNat =
      ahead sa.epochTip.toNat m.epochTip.toNat + ahead sa.seq.toNat m.seq.toNat +
        ahead sa.delegateSeq.toNat m.delegateSeq.toNat + 1) :
    Marks sa sb m := by
  have hhandles := h.sum_handleLead_nil hm
  refine ⟨⟨h.name.trans hname, hepoch.1, hseq.1, hdelegate.1, ?_⟩,
    ⟨hname, hepoch.2, hseq.2, hdelegate.2, ?_⟩, ?_⟩
  · rw [hm]
    exact fun _ hmem => absurd hmem List.not_mem_nil
  · rw [hm]
    exact fun _ hmem => absurd hmem List.not_mem_nil
  · unfold sharedLeads
    omega

/-- A mark with the handle in which the second is ahead, at the sequence of the first. -/
theorem SameComponents.marks_handle
    (h : SameComponents sa sb)
    {handle : HandleHint}
    (hmem : handle ∈ handlesOf sa)
    (htop : handle.seq.toNat = topSeq handle.name (handlesOf sa))
    (hpos : topSeq handle.name (handlesOf sa) ≠ 0)
    (hlt : topSeq handle.name (handlesOf sa) < topSeq handle.name (handlesOf sb)) :
    Marks sa sb ⟨0, sb.name, 0, 0, [⟨0, [handle]⟩]⟩ := by
  obtain ⟨hepoch, hseq, hdelegate⟩ := h.numbers
  have htopSeq : ∀ name, topSeq name [handle] =
      if handle.name = name then handle.seq.toNat else 0 := by
    intro name
    rw [topSeq_cons, topSeq_nil, Nat.max_zero]
  have hother : ∀ name, name ≠ handle.name → topSeq name [handle] = 0 := by
    intro name hname
    rw [htopSeq, if_neg (Ne.symm hname)]
  have hself : topSeq handle.name [handle] = topSeq handle.name (handlesOf sa) := by
    rw [htopSeq, if_pos rfl, htop]
  have hsa := sum_handleLead_of_level (s := sa) (m := ⟨0, sb.name, 0, 0, [⟨0, [handle]⟩]⟩)
    hpos hself hother
  have hsb := sum_handleLead_of_ahead (s := sb) (m := ⟨0, sb.name, 0, 0, [⟨0, [handle]⟩]⟩) (by
    intro name hne
    change topSeq name [handle] < _
    by_cases hname : name = handle.name
    · rw [hname, hself]
      exact hlt
    · rw [hother name hname]
      exact Nat.pos_of_ne_zero hne)
  obtain ⟨handle', hmem', hname', hseq'⟩ := exists_of_topSeq_pos (Nat.zero_lt_of_lt hlt)
  refine ⟨⟨h.name, UInt32.zero_le, UInt64.zero_le, UInt64.zero_le, ?_⟩,
    ⟨rfl, UInt32.zero_le, UInt64.zero_le, UInt64.zero_le, ?_⟩, ?_⟩
  · intro hint hhint _
    rw [List.mem_singleton.1 hhint]
    exact ⟨handle, hmem, rfl, UInt64.le_refl _⟩
  · intro hint hhint _
    rw [List.mem_singleton.1 hhint]
    exact ⟨handle', hmem', hname', UInt64.le_iff_toNat_le.2 (by omega)⟩
  · have hlength := h.length_flattenHandles
    unfold sharedLeads
    simp only [UInt32.toNat_zero, UInt64.toNat_zero]
    omega

/-- **A space in which one is ahead** of the other has a mark of it. -/
theorem SameComponents.exists_marks
    (h : SameComponents sa sb)
    (hahead : ¬ SpaceCovers sa sb) :
    ∃ m, m.name = sb.name ∧ Marks sa sb m := by
  obtain ⟨hepoch, hseq, hdelegate⟩ := h.numbers
  have hlevel : ∀ n : ℕ, ahead n n = 0 := fun n => ahead_eq_zero (Nat.le_refl n)
  by_cases hepochLe : sb.epochTip ≤ sa.epochTip
  · by_cases hseqLe : sb.seq ≤ sa.seq
    · by_cases hdelegateLe : sb.delegateSeq ≤ sa.delegateSeq
      · -- the handles decide
        have hhandles : ¬ ∀ name, topSeq name (handlesOf sb) ≤ topSeq name (handlesOf sa) :=
          fun hle => hahead ⟨h.name, hepochLe, hseqLe, hdelegateLe, topSeq_le_iff.1 hle⟩
        obtain ⟨name, hlt⟩ := not_forall.1 hhandles
        rw [Nat.not_le] at hlt
        have hpos : topSeq name (handlesOf sa) ≠ 0 := by
          rw [ne_eq, h.handles name]
          omega
        obtain ⟨handle, hmem, rfl, htop⟩ := exists_of_topSeq_pos (Nat.pos_of_ne_zero hpos)
        refine ⟨_, ?_, h.marks_handle hmem htop hpos hlt⟩
        rfl
      · have hlt := UInt64.not_le.1 hdelegateLe
        refine ⟨{ bareSpace sb.name with delegateSeq := sa.delegateSeq }, rfl,
          h.marks rfl rfl ⟨UInt32.zero_le, UInt32.zero_le⟩ ⟨UInt64.zero_le, UInt64.zero_le⟩
            ⟨UInt64.le_refl _, UInt64.le_of_lt hlt⟩ ?_⟩
        have hone : ahead sb.delegateSeq.toNat sa.delegateSeq.toNat = 1 :=
          if_pos (UInt64.lt_iff_toNat_lt.1 hlt)
        simp only [bareSpace, UInt32.toNat_zero, UInt64.toNat_zero, hlevel]
        omega
    · have hlt := UInt64.not_le.1 hseqLe
      refine ⟨{ bareSpace sb.name with seq := sa.seq }, rfl,
        h.marks rfl rfl ⟨UInt32.zero_le, UInt32.zero_le⟩
          ⟨UInt64.le_refl _, UInt64.le_of_lt hlt⟩ ⟨UInt64.zero_le, UInt64.zero_le⟩ ?_⟩
      have hone : ahead sb.seq.toNat sa.seq.toNat = 1 :=
        if_pos (UInt64.lt_iff_toNat_lt.1 hlt)
      simp only [bareSpace, UInt32.toNat_zero, UInt64.toNat_zero, hlevel]
      omega
  · have hlt := UInt32.not_le.1 hepochLe
    refine ⟨{ bareSpace sb.name with epochTip := sa.epochTip }, rfl,
      h.marks rfl rfl ⟨UInt32.le_refl _, UInt32.le_of_lt hlt⟩
        ⟨UInt64.zero_le, UInt64.zero_le⟩ ⟨UInt64.zero_le, UInt64.zero_le⟩ ?_⟩
    have hone : ahead sb.epochTip.toNat sa.epochTip.toNat = 1 :=
      if_pos (UInt32.lt_iff_toNat_lt.1 hlt)
    simp only [bareSpace, UInt64.toNat_zero, hlevel]
    omega

end Markers

section Third

/-- The mark at its space, and a bare space elsewhere. -/
def markAt (m : SpaceHint) (name : String) : SpaceHint :=
  if m.name = name then m else bareSpace name

/-- The third response: the mark, the other spaces bare, and spaces that are new. -/
def thirdOf (m : SpaceHint) (names fresh : List String) : HintsResponse :=
  ⟨0, names.map (markAt m) ++ fresh.map bareSpace⟩

@[simp] theorem name_markAt
    (m : SpaceHint)
    (name : String) :
    (markAt m name).name = name := by
  unfold markAt
  split_ifs with h
  · exact h
  · rfl

theorem names_thirdOf
    (m : SpaceHint)
    (names fresh : List String) :
    (thirdOf m names fresh).hints.map SpaceHint.name = names ++ fresh := by
  have hbare : SpaceHint.name ∘ bareSpace = id := rfl
  have hmark : SpaceHint.name ∘ markAt m = id := funext (name_markAt m)
  unfold thirdOf
  rw [List.map_append, List.map_map, List.map_map, hbare, hmark, List.map_id, List.map_id]

/-- As many new names as are wanted. -/
theorem exists_fresh
    (names : List String)
    (k : ℕ) :
    ∃ fresh : List String, fresh.length = k ∧ fresh.Nodup ∧ List.Disjoint names fresh := by
  have hinfinite : (Set.compl {name | name ∈ names}).Infinite :=
    (List.finite_toSet names).infinite_compl
  obtain ⟨fresh, hsubset, hcard⟩ := hinfinite.exists_subset_card_eq k
  refine ⟨fresh.toList, (Finset.length_toList fresh).trans hcard, fresh.nodup_toList, ?_⟩
  intro name hname hfresh
  exact hsubset (Finset.mem_toList.1 hfresh) hname

variable {x : HintsResponse} {m : SpaceHint} {fresh : List String}

/-- **How a response compares with the third one**: it is ahead in components of the spaces
that it lists, and behind in the new ones. -/
theorem score_thirdOf
    (hx : (x.hints.map SpaceHint.name).Nodup)
    (hfresh : fresh.Nodup)
    (hdisjoint : List.Disjoint (x.hints.map SpaceHint.name) fresh)
    (hcovers : ∀ s ∈ x.hints, SpaceCovers s (markAt m s.name)) :
    score x (thirdOf m (x.hints.map SpaceHint.name) fresh) =
      (x.hints.map (fun s => sharedLeads s (markAt m s.name))).sum - fresh.length := by
  have hthird :
      ((thirdOf m (x.hints.map SpaceHint.name) fresh).hints.map SpaceHint.name).Nodup := by
    rw [names_thirdOf]
    exact List.nodup_append'.2 ⟨hx, hfresh, hdisjoint⟩
  have hleads : leads x (thirdOf m (x.hints.map SpaceHint.name) fresh) =
      (x.hints.map (fun s => sharedLeads s (markAt m s.name))).sum := by
    unfold leads
    refine congrArg List.sum (List.map_congr_left (fun s hs => ?_))
    have hmem : markAt m s.name ∈ (thirdOf m (x.hints.map SpaceHint.name) fresh).hints :=
      List.mem_append_left _ (List.mem_map_of_mem (List.mem_map_of_mem hs))
    unfold spaceLeads
    rw [find?_space hthird hmem (name_markAt m s.name)]
  have htrails : leads (thirdOf m (x.hints.map SpaceHint.name) fresh) x = fresh.length := by
    unfold leads thirdOf
    rw [List.map_append, List.sum_append, List.map_map, List.map_map, List.map_map]
    have hold : ∀ s ∈ x.hints,
        ((spaceLeads x ∘ markAt m) ∘ SpaceHint.name) s = 0 := by
      intro s hs
      have hfind := find?_space hx hs (name_markAt m s.name).symm
      change spaceLeads x (markAt m s.name) = 0
      unfold spaceLeads
      rw [hfind]
      exact (sharedLeads_eq_zero_iff (name_markAt m s.name).symm).2 (hcovers s hs)
    have hnew : ∀ name ∈ fresh, (spaceLeads x ∘ bareSpace) name = 1 := by
      intro name hname
      change spaceLeads x (bareSpace name) = 1
      unfold spaceLeads
      cases hfind : x.hints.find? (fun s => s.name == (bareSpace name).name) with
      | none =>
          rfl
      | some s =>
          have hs : s.name = (bareSpace name).name := by
            simpa using List.find?_some hfind
          change s.name = name at hs
          exact absurd hname
            (hdisjoint (hs ▸ List.mem_map_of_mem (List.mem_of_find?_eq_some hfind)))
    rw [sum_map_eq_zero hold, List.map_congr_left hnew]
    simp
  rw [score_eq, trails_swap hx hthird, hleads, htrails]

end Third

section Circles

/-- Two responses list the same spaces in one order, and in each the same components. -/
def Alike (a b : HintsResponse) : Prop :=
  List.Forall₂ SameComponents a.hints b.hints

variable {a b : HintsResponse}

theorem Alike.symm
    (h : Alike a b) :
    Alike b a :=
  List.Forall₂.flip (h.imp (fun _ _ hs => hs.symm))

theorem Alike.names_eq
    (h : Alike a b) :
    a.hints.map SpaceHint.name = b.hints.map SpaceHint.name := by
  unfold Alike at h
  generalize a.hints = as at h
  generalize b.hints = bs at h
  induction h with
  | nil =>
      rfl
  | cons hs _ ih =>
      rw [List.map_cons, List.map_cons, hs.name, ih]

theorem Alike.exists_pairs
    (h : Alike a b) :
    ∃ pairs : List (SpaceHint × SpaceHint), a.hints = pairs.map Prod.fst ∧
      b.hints = pairs.map Prod.snd ∧ ∀ p ∈ pairs, SameComponents p.1 p.2 := by
  have hlength : a.hints.length = b.hints.length := h.length_eq
  exact ⟨a.hints.zip b.hints, (List.map_fst_zip hlength.le).symm,
    (List.map_snd_zip hlength.ge).symm, fun p hp => List.forall₂_zip h hp⟩

/-- **The mark of one pair of spaces** tells the responses apart, and nothing else does. -/
theorem Alike.exists_mark
    (h : Alike a b)
    (hb : (b.hints.map SpaceHint.name).Nodup)
    (hahead : ¬ Covers a b) :
    ∃ m, (∀ s ∈ a.hints, SpaceCovers s (markAt m s.name)) ∧
      (∀ s ∈ b.hints, SpaceCovers s (markAt m s.name)) ∧
      (b.hints.map (fun s => sharedLeads s (markAt m s.name))).sum =
        (a.hints.map (fun s => sharedLeads s (markAt m s.name))).sum + 1 := by
  obtain ⟨pairs, hfst, hsnd, hpairs⟩ := h.exists_pairs
  have hnames : (pairs.map (fun p => p.2.name)).Nodup := by
    rw [hsnd, List.map_map] at hb
    exact hb
  have hmarked : ∃ p ∈ pairs, ¬ SpaceCovers p.1 p.2 := by
    by_contra hall
    push Not at hall
    refine hahead (fun sb hsb => ?_)
    rw [hsnd] at hsb
    obtain ⟨p, hp, rfl⟩ := List.mem_map.1 hsb
    exact ⟨p.1, hfst ▸ List.mem_map_of_mem hp, hall p hp⟩
  obtain ⟨marked, hmem, hnot⟩ := hmarked
  obtain ⟨m, hm, hmarks⟩ := (hpairs marked hmem).exists_marks hnot
  have hpair : ∀ p ∈ pairs, SpaceCovers p.1 (markAt m p.1.name) ∧
      SpaceCovers p.2 (markAt m p.2.name) ∧
      sharedLeads p.2 (markAt m p.2.name) =
        sharedLeads p.1 (markAt m p.1.name) + if p.2.name = m.name then 1 else 0 := by
    intro p hp
    have hname := (hpairs p hp).name
    unfold markAt
    by_cases hp' : p.2.name = m.name
    · have heq : p = marked := List.inj_on_of_nodup_map hnames hp hmem (hp'.trans hm)
      rw [hname, if_pos hp'.symm, if_pos hp', heq]
      exact ⟨hmarks.first, hmarks.second, hmarks.more⟩
    · rw [hname, if_neg (Ne.symm hp'), if_neg hp']
      exact ⟨hname ▸ spaceCovers_bareSpace p.1, spaceCovers_bareSpace p.2,
        (hpairs p hp).sharedLeads_bareSpace p.2.name⟩
  have hone : (pairs.map (fun p => if p.2.name = m.name then 1 else 0)).sum = 1 :=
    sum_indicator hnames (hm ▸ List.mem_map_of_mem hmem)
  refine ⟨m, ?_, ?_, ?_⟩
  · rw [hfst]
    exact List.forall_mem_map.2 (fun p hp => (hpair p hp).1)
  · rw [hsnd]
    exact List.forall_mem_map.2 (fun p hp => (hpair p hp).2.1)
  · rw [hfst, hsnd, List.map_map, List.map_map, ← hone, ← List.sum_map_add]
    exact congrArg List.sum (List.map_congr_left (fun p hp => (hpair p hp).2.2))

theorem cmp_ne_gt_iff :
    cmp a b ≠ .gt ↔
      score a b < 0 ∨ score a b = 0 ∧ a.anchorTip.toNat ≤ b.anchorTip.toNat := by
  rw [cmp_eq_byMargin]
  exact byMargin_ne_gt_iff

/-- **A circle.**  Where one response is not after another alike, though ahead of it
somewhere, a third is not after the first, and after the second. -/
theorem Alike.exists_circle_of_le
    (h : Alike a b)
    (ha : (a.hints.map SpaceHint.name).Nodup)
    (hb : (b.hints.map SpaceHint.name).Nodup)
    (hahead : ¬ Covers a b)
    (hle : cmp b a ≠ .gt) :
    ∃ c, (c.hints.map SpaceHint.name).Nodup ∧ ¬ LawfulOn cmp [a, b, c] := by
  obtain ⟨m, hcoversA, hcoversB, hmore⟩ := h.exists_mark hb hahead
  obtain ⟨fresh, hlength, hfresh, hdisjoint⟩ := exists_fresh (b.hints.map SpaceHint.name)
    (b.hints.map (fun s => sharedLeads s (markAt m s.name))).sum
  have hscoreB := score_thirdOf hb hfresh hdisjoint hcoversB
  have hscoreA := score_thirdOf ha hfresh (h.names_eq ▸ hdisjoint) hcoversA
  rw [h.names_eq] at hscoreA
  have hthird : ((thirdOf m (b.hints.map SpaceHint.name) fresh).hints.map
      SpaceHint.name).Nodup := by
    rw [names_thirdOf]
    exact List.nodup_append'.2 ⟨hb, hfresh, hdisjoint⟩
  refine ⟨thirdOf m (b.hints.map SpaceHint.name) fresh, hthird, fun hlawful => ?_⟩
  have hswapB := score_swap hb hthird
  have hswapA := score_swap ha hthird
  have hleB : cmp (thirdOf m (b.hints.map SpaceHint.name) fresh) b ≠ .gt :=
    cmp_ne_gt_iff.2 (Or.inr ⟨by omega, Nat.zero_le _⟩)
  have hleA := hlawful.trans (thirdOf m (b.hints.map SpaceHint.name) fresh) (by simp) b (by simp)
    a (by simp) hleB hle
  rcases cmp_ne_gt_iff.1 hleA with hlt | ⟨hzero, _⟩
  · omega
  · omega

/-- **Two contested responses with the same components are in a circle.** -/
theorem Alike.exists_circle
    (h : Alike a b)
    (ha : (a.hints.map SpaceHint.name).Nodup)
    (hb : (b.hints.map SpaceHint.name).Nodup)
    (hcontest : Contested Covers a b) :
    ∃ c, (c.hints.map SpaceHint.name).Nodup ∧ ¬ LawfulOn cmp [a, b, c] := by
  by_cases hle : cmp b a ≠ .gt
  · exact h.exists_circle_of_le ha hb hcontest.1 hle
  · have hswap : cmp a b = (cmp b a).swap := by
      rw [cmp_eq_byMargin]
      exact byMargin_swap (score_swap hb ha)
    have hle' : cmp a b ≠ .gt := by
      rw [hswap, not_not.1 hle]
      decide
    obtain ⟨c, hc, hnot⟩ := h.symm.exists_circle_of_le hb ha hcontest.2 hle'
    refine ⟨c, hc, fun hlawful => hnot (hlawful.of_subset ?_)⟩
    simp

/-- **Where the comparison is lawful**: on responses that list each space once, if none is
contested with two others of different hints.  With the same components one contest is enough
for a circle with some further response. -/
theorem cmp_lawful_where_uncontested
    {responses : List HintsResponse}
    (hnames : ∀ x ∈ responses, (x.hints.map SpaceHint.name).Nodup) :
    ((∀ a ∈ responses, ∀ b ∈ responses, ∀ c ∈ responses,
      Contested Covers a b → Contested Covers b c → a.hints = c.hints) →
        LawfulOn cmp responses) ∧
      ∀ a ∈ responses, ∀ b ∈ responses, Alike a b → Contested Covers a b →
        ∃ c, (c.hints.map SpaceHint.name).Nodup ∧ ¬ LawfulOn cmp (c :: responses) := by
  refine ⟨cmp_lawfulOn hnames, fun a ha b hb halike hcontest => ?_⟩
  obtain ⟨c, hc, hcircle⟩ := halike.exists_circle (hnames a ha) (hnames b hb) hcontest
  refine ⟨c, hc, fun hlawful => hcircle (hlawful.of_subset ?_)⟩
  simp [ha, hb]

/-- Two relays that are ahead of each other in one component, and a third that has caught up
with both; some other response makes a circle with the two. -/
theorem cmp_lawful_where_uncontested_sample :
    let responses := [spaceAt 1 3 2, spaceAt 2 1 2, spaceAt 2 3 2]
    LawfulOn cmp responses ∧ ∃ c, ¬ LawfulOn cmp (c :: responses) := by
  intro responses
  obtain ⟨hlawful, hcircle⟩ :=
    cmp_lawful_where_uncontested (show ∀ x ∈ responses, (x.hints.map SpaceHint.name).Nodup by
      decide)
  have hsame : SameComponents ⟨1, "@space", 3, 2, []⟩ ⟨2, "@space", 1, 2, []⟩ :=
    ⟨rfl, by decide, by decide, by decide, fun _ => Iff.rfl⟩
  obtain ⟨c, _, hc⟩ := hcircle (spaceAt 1 3 2) (by decide) (spaceAt 2 1 2) (by decide)
    (.cons hsame .nil) (by decide)
  exact ⟨hlawful (by decide), c, hc⟩

end Circles

end Hints
end CertRelay
