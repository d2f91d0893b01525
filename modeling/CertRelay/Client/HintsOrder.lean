import CertRelay.Client.Hints
import CertRelay.Lib.Ranking
import Mathlib.Algebra.Order.BigOperators.Group.List

/-!
# The order of hints responses

`pick_relays` sorts the responses it got by `HintsResponse::cmp`.  The comparison counts
components, and a majority of components need not be transitive: three relays may each
beat the next.  It takes two contests among the three, pairs of responses of which each has
something that the other lacks, or has it fresher.

The order also looks at handles only after `flatten_handles`, whose default for a handle
it has not met is the sequence 0, so that a handle hint of sequence 0 is left out.

**Results.**
* `find?_flattenHandles`: a flattened space has the greatest sequence of each handle;
* `trails_swap`: among responses that list each space once, one is behind where the other
  is ahead;
* `score_fits_i32`: the score of responses of fewer than `2^31` components;
* `leads_eq_zero_iff`: a response is ahead in nothing that the other covers;
* `cmp_lawfulOn`: the comparison is lawful on responses that list each space once, if none is
  contested with two others;
* `cmp_of_dominates`: a response that has all of another's hints, at least as fresh, ranks
  higher exactly if it has something more that is not a handle hint of sequence 0, or a
  higher anchor tip.
-/

namespace CertRelay
namespace Hints

open Ranking

section Majority

/-- More components ahead than behind; if as many, a higher anchor tip. -/
def Beats (a b : HintsResponse) : Prop :=
  trails a b < leads a b ∨ leads a b = trails a b ∧ b.anchorTip < a.anchorTip

theorem cmp_eq_gt_iff
    (a b : HintsResponse) :
    cmp a b = .gt ↔ Beats a b := by
  unfold cmp Beats
  rw [score_eq, UInt32.lt_iff_toNat_lt]
  split_ifs with h
  · rw [compare_gt_iff_gt]
    omega
  · rw [compare_gt_iff_gt]
    omega

/-- A space at an epoch tip, a sequence and a delegate sequence. -/
def spaceAt (epochTip : UInt32) (seq delegateSeq : UInt64) : HintsResponse :=
  ⟨5, [⟨epochTip, "@space", seq, delegateSeq, []⟩]⟩

/-- Three relays of which each beats the next in two components of three. -/
theorem cmp_not_transitive :
    ¬ ∀ a b c : HintsResponse, cmp b a = (cmp a b).swap ∧
      (cmp a b ≠ .gt → cmp b c ≠ .gt → cmp a c ≠ .gt) := by
  intro h
  have htrans := (h (spaceAt 1 3 2) (spaceAt 2 1 3) (spaceAt 3 2 1)).2
  exact absurd (htrans (by decide) (by decide)) (by decide)

end Majority

section Flattened

/-- The handle hints of a space, over all its epochs. -/
def handlesOf (space : SpaceHint) : List HandleHint :=
  space.epochs.flatMap EpochResult.res

/-- The greatest sequence among the hints of a handle, and 0 if there is none. -/
def topSeq (name : String) (handles : List HandleHint) : ℕ :=
  ((handles.filter (fun h => decide (h.name = name))).map (fun h => h.seq.toNat)).foldr max 0

/-- The sequence that a map has for a handle; the default is 0. -/
def seqOf (map : HandleSeqs) (name : String) : ℕ :=
  ((map.find? name).map Prod.snd).getD 0

/-- One round of `flatten_handles`. -/
def recordHandle (map : HandleSeqs) (handle : HandleHint) : HandleSeqs :=
  if seqOf map handle.name < handle.seq.toNat then
    map.insertOrReplace (handle.name, handle.seq.toNat)
  else map

theorem flattenHandles_eq
    (space : SpaceHint) :
    flattenHandles space = (handlesOf space).foldl recordHandle KeyedTable.empty := by
  rfl

@[simp] theorem topSeq_nil
    (name : String) :
    topSeq name [] = 0 := by
  rfl

theorem topSeq_cons
    (name : String)
    (h : HandleHint)
    (handles : List HandleHint) :
    topSeq name (h :: handles) =
      if h.name = name then max h.seq.toNat (topSeq name handles)
      else topSeq name handles := by
  unfold topSeq
  by_cases heq : h.name = name
  · rw [List.filter_cons_of_pos (by simp [heq]), if_pos heq]
    rfl
  · rw [List.filter_cons_of_neg (by simp [heq]), if_neg heq]

theorem le_topSeq
    {handles : List HandleHint}
    {h : HandleHint}
    (hh : h ∈ handles) :
    h.seq.toNat ≤ topSeq h.name handles := by
  induction handles with
  | nil =>
      cases hh
  | cons g handles ih =>
      rw [topSeq_cons]
      rcases List.mem_cons.1 hh with rfl | hmem
      · rw [if_pos rfl]
        exact le_max_left _ _
      · split_ifs
        · exact (ih hmem).trans (le_max_right _ _)
        · exact ih hmem

theorem exists_of_topSeq_pos
    {name : String}
    {handles : List HandleHint}
    (hpos : 0 < topSeq name handles) :
    ∃ h ∈ handles, h.name = name ∧ h.seq.toNat = topSeq name handles := by
  induction handles with
  | nil =>
      cases hpos
  | cons g handles ih =>
      rw [topSeq_cons] at hpos ⊢
      split_ifs at hpos ⊢ with hname
      · rcases le_total (topSeq name handles) g.seq.toNat with hle | hle
        · exact ⟨g, List.mem_cons_self, hname, (max_eq_left hle).symm⟩
        · rw [max_eq_right hle] at hpos ⊢
          obtain ⟨h, hh, hrest⟩ := ih hpos
          exact ⟨h, List.mem_cons_of_mem g hh, hrest⟩
      · obtain ⟨h, hh, hrest⟩ := ih hpos
        exact ⟨h, List.mem_cons_of_mem g hh, hrest⟩

theorem seqOf_recordHandle
    (map : HandleSeqs)
    (handle : HandleHint)
    (name : String) :
    seqOf (recordHandle map handle) name =
      if handle.name = name then max (seqOf map name) handle.seq.toNat
      else seqOf map name := by
  unfold recordHandle
  by_cases hname : handle.name = name
  · subst hname
    rw [if_pos rfl]
    split_ifs with hlt
    · rw [max_eq_right hlt.le]
      unfold seqOf
      rw [map.find?_insertOrReplace_self (handle.name, handle.seq.toNat)]
      rfl
    · exact (max_eq_left (not_lt.1 hlt)).symm
  · rw [if_neg hname]
    split_ifs with hlt
    · unfold seqOf
      rw [map.find?_insertOrReplace_ne hname]
    · rfl

theorem seqOf_foldl
    (handles : List HandleHint)
    (map : HandleSeqs)
    (name : String) :
    seqOf (handles.foldl recordHandle map) name =
      max (seqOf map name) (topSeq name handles) := by
  induction handles generalizing map with
  | nil =>
      exact (max_eq_left (Nat.zero_le _)).symm
  | cons h handles ih =>
      rw [List.foldl_cons, ih, seqOf_recordHandle, topSeq_cons]
      split_ifs
      · rw [max_assoc]
      · rfl

/-- A sequence in the map is never 0. -/
theorem pos_of_mem_foldl
    (handles : List HandleHint)
    {map : HandleSeqs}
    (hmap : ∀ row ∈ map.rows, 0 < row.2) :
    ∀ row ∈ (handles.foldl recordHandle map).rows, 0 < row.2 := by
  induction handles generalizing map with
  | nil =>
      exact hmap
  | cons h handles ih =>
      rw [List.foldl_cons]
      refine ih (fun row hrow => ?_)
      unfold recordHandle at hrow
      split_ifs at hrow with hlt
      · rcases KeyedTable.mem_insertOrReplace.1 hrow with ⟨hmem, _⟩ | rfl
        · exact hmap row hmem
        · exact Nat.zero_lt_of_lt hlt
      · exact hmap row hrow

/-- **A flattened space has the greatest sequence of each handle**, unless that is 0. -/
theorem find?_flattenHandles
    (space : SpaceHint)
    (name : String) :
    (flattenHandles space).find? name =
      if 0 < topSeq name (handlesOf space) then
        some (name, topSeq name (handlesOf space))
      else none := by
  have hseq : seqOf (flattenHandles space) name = topSeq name (handlesOf space) := by
    rw [flattenHandles_eq, seqOf_foldl]
    exact max_eq_right (Nat.zero_le _)
  have hpos : ∀ row ∈ (flattenHandles space).rows, 0 < row.2 := by
    rw [flattenHandles_eq]
    exact pos_of_mem_foldl (handlesOf space) (fun _ h => absurd h List.not_mem_nil)
  unfold seqOf at hseq
  cases hfind : (flattenHandles space).find? name with
  | none =>
      rw [hfind] at hseq
      rw [← hseq]
      rfl
  | some row =>
      obtain ⟨hmem, hkey⟩ := KeyedTable.find?_eq_some_iff.1 hfind
      rw [hfind] at hseq
      change row.2 = _ at hseq
      rw [← hseq, if_pos (hpos row hmem), ← hkey]

/-- The rows of a flattened space. -/
theorem mem_flattenHandles
    {space : SpaceHint}
    {row : String × ℕ} :
    row ∈ (flattenHandles space).rows ↔
      0 < row.2 ∧ row.2 = topSeq row.1 (handlesOf space) := by
  have hfind := find?_flattenHandles space row.1
  constructor
  · intro hmem
    rw [KeyedTable.find?_eq_some_iff.2 ⟨hmem, rfl⟩] at hfind
    split_ifs at hfind with hpos
    have heq := congrArg Prod.snd (Option.some.inj hfind)
    exact ⟨heq ▸ hpos, heq⟩
  · rintro ⟨hpos, heq⟩
    rw [← heq, if_pos hpos] at hfind
    exact (KeyedTable.find?_eq_some_iff.1 hfind).1

end Flattened

section Symmetry

@[simp] theorem ahead_pos
    (m n : ℕ) :
    0 < ahead m n ↔ n < m := by
  unfold ahead
  split_ifs with h <;> simp [h]

theorem ahead_eq_zero
    {m n : ℕ}
    (h : m ≤ n) :
    ahead m n = 0 :=
  if_neg (not_lt.2 h)

theorem sum_map_pos
    {α : Type}
    {f : α → ℕ}
    {l : List α} :
    0 < (l.map f).sum ↔ ∃ a ∈ l, 0 < f a := by
  rw [List.sum_pos_iff_exists_pos_nat]
  simp

theorem sum_map_eq_zero
    {α : Type}
    {f : α → ℕ}
    {l : List α}
    (h : ∀ a ∈ l, f a = 0) :
    (l.map f).sum = 0 := by
  rw [List.sum_eq_zero_iff_forall_eq_nat]
  simpa using h

variable {α β κ : Type} [DecidableEq κ] {ka : α → κ} {kb : β → κ}

/-- A sum over two lists may be taken in either order. -/
theorem sum_map_sum_comm
    (as : List α)
    (bs : List β)
    (f : α → β → ℕ) :
    (as.map (fun a => (bs.map (f a)).sum)).sum =
      (bs.map (fun b => (as.map (fun a => f a b)).sum)).sum := by
  induction as with
  | nil =>
      simp
  | cons a as ih =>
      simp only [List.map_cons, List.sum_cons, List.sum_map_add, ih]

/-- The value at the element of a key, as a sum. -/
theorem elim_find?_eq_sum
    {bs : List β}
    (hbs : (bs.map kb).Nodup)
    (k : κ)
    (g : β → ℕ) :
    (bs.find? (fun b => decide (kb b = k))).elim 0 g =
      (bs.map (fun b => if kb b = k then g b else 0)).sum := by
  induction bs with
  | nil =>
      rfl
  | cons b bs ih =>
      obtain ⟨hnew, hbs⟩ := List.nodup_cons.1 hbs
      rw [List.map_cons, List.sum_cons]
      by_cases hk : kb b = k
      · have hrest : (bs.map (fun b => if kb b = k then g b else 0)).sum = 0 := by
          refine sum_map_eq_zero (fun c hc => if_neg (fun hck => hnew ?_))
          exact List.mem_map.2 ⟨c, hc, hck.trans hk.symm⟩
        simp only [List.find?_cons, decide_eq_true hk, if_pos hk, hrest]
        rfl
      · simp only [List.find?_cons, decide_eq_false hk, if_neg hk, Nat.zero_add]
        exact ih hbs

/-- **Matching two lists by their keys** is the same from both sides. -/
theorem sum_matches_comm
    {as : List α}
    {bs : List β}
    (has : (as.map ka).Nodup)
    (hbs : (bs.map kb).Nodup)
    (f : α → β → ℕ) :
    (as.map (fun a => (bs.find? (fun b => decide (kb b = ka a))).elim 0 (f a))).sum =
      (bs.map (fun b => (as.find? (fun a => decide (ka a = kb b))).elim 0
        (fun a => f a b))).sum := by
  simp only [elim_find?_eq_sum hbs, elim_find?_eq_sum has]
  rw [sum_map_sum_comm]
  simp only [eq_comm]

/-- What counts 1 where there is no match. -/
theorem sum_elim_one
    (as : List α)
    (found : α → Option β)
    (f : α → β → ℕ) :
    (as.map (fun a => (found a).elim 1 (f a))).sum =
      (as.map (fun a => (found a).elim 0 (f a))).sum +
        (as.filter (fun a => (found a).isNone)).length := by
  induction as with
  | nil =>
      rfl
  | cons a as ih =>
      rw [List.map_cons, List.sum_cons, List.map_cons, List.sum_cons, ih, List.filter_cons]
      cases found a with
      | none =>
          simp only [Option.elim_none, Option.isNone_none, if_true, List.length_cons]
          omega
      | some b =>
          simp only [Option.elim_some, Option.isNone_some, Bool.false_eq_true, if_false]
          omega

theorem sharedTrails_swap
    (space other : SpaceHint) :
    sharedTrails space other = sharedLeads other space := by
  have hlead : handleLead (flattenHandles space) = fun row =>
      ((flattenHandles space).find? row.1).elim 1 (fun row' => ahead row.2 row'.2) := by
    funext row
    unfold handleLead
    cases (flattenHandles space).find? row.1 <;> rfl
  have htrail : handleTrail (flattenHandles other) = fun row =>
      ((flattenHandles other).find? row.1).elim 0 (fun row' => ahead row'.2 row.2) := by
    funext row
    unfold handleTrail
    cases (flattenHandles other).find? row.1 <;> rfl
  have hmatch := sum_matches_comm (flattenHandles space).nodup (flattenHandles other).nodup
    (fun row row' => ahead row'.2 row.2)
  unfold sharedTrails sharedLeads missingHandles
  rw [hlead, htrail, sum_elim_one]
  unfold KeyedTable.find?
  rw [hmatch]
  omega

/-- **One response is behind where the other is ahead.** -/
theorem trails_swap
    {a b : HintsResponse}
    (ha : (a.hints.map SpaceHint.name).Nodup)
    (hb : (b.hints.map SpaceHint.name).Nodup) :
    trails a b = leads b a := by
  have hlead : spaceLeads a = fun sb =>
      (a.hints.find? (fun s => decide (s.name = sb.name))).elim 1 (sharedLeads sb) := by
    funext sb
    unfold spaceLeads
    cases a.hints.find? (fun s => s.name == sb.name) <;> rfl
  have htrail : spaceTrails b = fun sa =>
      (b.hints.find? (fun s => decide (s.name = sa.name))).elim 0
        (fun sb => sharedLeads sb sa) := by
    funext sa
    unfold spaceTrails
    cases b.hints.find? (fun s => s.name == sa.name) with
    | none =>
        rfl
    | some sb =>
        exact sharedTrails_swap sa sb
  have hmissing : missingSpaces a b =
      b.hints.filter (fun sb => (a.hints.find? (fun s => decide (s.name = sb.name))).isNone) := by
    unfold missingSpaces
    congr 1
    funext sb
    rw [Bool.eq_iff_iff]
    simp [List.find?_eq_none]
  unfold trails leads
  rw [hlead, htrail, hmissing, sum_elim_one, sum_matches_comm ha hb]

/-- A handle counts where its greatest sequence does. -/
theorem handleLead_pos
    {sa sb : SpaceHint} :
    0 < ((flattenHandles sa).rows.map (handleLead (flattenHandles sb))).sum ↔
      ∃ name, topSeq name (handlesOf sb) < topSeq name (handlesOf sa) := by
  have hlead : ∀ row ∈ (flattenHandles sa).rows,
      0 < handleLead (flattenHandles sb) row ↔
        topSeq row.1 (handlesOf sb) < topSeq row.1 (handlesOf sa) := by
    intro row hrow
    obtain ⟨hpos, htop⟩ := mem_flattenHandles.1 hrow
    unfold handleLead
    rw [find?_flattenHandles, ← htop]
    split_ifs with hother
    · exact ahead_pos _ _
    · simp only [Nat.zero_lt_one, true_iff]
      omega
  rw [sum_map_pos]
  constructor
  · rintro ⟨row, hrow, hpos⟩
    exact ⟨row.1, (hlead row hrow).1 hpos⟩
  · rintro ⟨name, hlt⟩
    have hrow : (name, topSeq name (handlesOf sa)) ∈ (flattenHandles sa).rows :=
      mem_flattenHandles.2 ⟨Nat.zero_lt_of_lt hlt, rfl⟩
    exact ⟨_, hrow, (hlead _ hrow).2 hlt⟩

/-- The space of a name, among distinct ones. -/
theorem find?_space
    {x : HintsResponse}
    (hx : (x.hints.map SpaceHint.name).Nodup)
    {space s : SpaceHint}
    (hs : s ∈ x.hints)
    (hname : s.name = space.name) :
    x.hints.find? (fun t => t.name == space.name) = some s := by
  cases hfind : x.hints.find? (fun t => t.name == space.name) with
  | none =>
      have hno := List.find?_eq_none.1 hfind s hs
      simp [hname] at hno
  | some t =>
      have ht := List.mem_of_find?_eq_some hfind
      have htname : t.name = space.name := by
        simpa using List.find?_some hfind
      rw [List.inj_on_of_nodup_map hx ht hs (htname.trans hname.symm)]

end Symmetry

section Components

/-- The components of a response: three for each space, and its handle hints. -/
def components (x : HintsResponse) : ℕ :=
  (x.hints.map (fun s => 3 + (handlesOf s).length)).sum

theorem length_flattenHandles_le
    (space : SpaceHint) :
    (flattenHandles space).rows.length ≤ (handlesOf space).length := by
  have hsubset : (flattenHandles space).rows.map Prod.fst ⊆
      (handlesOf space).map HandleHint.name := by
    intro name hname
    obtain ⟨row, hrow, rfl⟩ := List.mem_map.1 hname
    obtain ⟨hpos, htop⟩ := mem_flattenHandles.1 hrow
    obtain ⟨h, hh, hname', _⟩ := exists_of_topSeq_pos (htop ▸ hpos)
    exact List.mem_map.2 ⟨h, hh, hname'⟩
  have hlength := (List.subperm_of_subset (flattenHandles space).nodup hsubset).length_le
  rwa [List.length_map, List.length_map] at hlength

theorem ahead_le_one
    (m n : ℕ) :
    ahead m n ≤ 1 := by
  unfold ahead
  split_ifs <;> omega

/-- A response is ahead in its own components at most. -/
theorem leads_le_components
    (a b : HintsResponse) :
    leads a b ≤ components a := by
  unfold leads components
  refine List.sum_le_sum (fun sa _ => ?_)
  unfold spaceLeads
  cases b.hints.find? (fun s => s.name == sa.name) with
  | none =>
      exact Nat.le_add_right_of_le (Nat.one_le_of_lt (Nat.lt_add_one 2))
  | some sb =>
      have hrow : ∀ row ∈ (flattenHandles sa).rows,
          handleLead (flattenHandles sb) row ≤ 1 := by
        intro row _
        unfold handleLead
        cases (flattenHandles sb).find? row.1 with
        | none =>
            exact Nat.le_refl 1
        | some other =>
            exact ahead_le_one _ _
      have hsum : ((flattenHandles sa).rows.map (handleLead (flattenHandles sb))).sum ≤
          (flattenHandles sa).rows.length := by
        have hle := List.sum_le_card_nsmul
          ((flattenHandles sa).rows.map (handleLead (flattenHandles sb))) 1
          (List.forall_mem_map.2 hrow)
        simpa using hle
      have hlength := length_flattenHandles_le sa
      have hepoch := ahead_le_one sa.epochTip.toNat sb.epochTip.toNat
      have hseq := ahead_le_one sa.seq.toNat sb.seq.toNat
      have hdelegate := ahead_le_one sa.delegateSeq.toNat sb.delegateSeq.toNat
      dsimp only
      unfold sharedLeads
      omega

/-- **The score fits an `i32`**, and so do its parts on the way. -/
theorem score_fits_i32
    {a b : HintsResponse}
    (ha : (a.hints.map SpaceHint.name).Nodup)
    (hb : (b.hints.map SpaceHint.name).Nodup)
    (hsizeA : components a < 2 ^ 31)
    (hsizeB : components b < 2 ^ 31) :
    leads a b < 2 ^ 31 ∧ trails a b < 2 ^ 31 ∧
      -2 ^ 31 < score a b ∧ score a b < 2 ^ 31 := by
  have hleads := leads_le_components a b
  have htrails := leads_le_components b a
  rw [score_eq, trails_swap ha hb]
  omega

end Components

section Contests

/-- One space has the handle hints of another, those of sequence 0 aside, and everything at
least as fresh. -/
structure SpaceCovers (sa sb : SpaceHint) : Prop where
  name : sa.name = sb.name
  epochTip : sb.epochTip ≤ sa.epochTip
  seq : sb.seq ≤ sa.seq
  delegateSeq : sb.delegateSeq ≤ sa.delegateSeq
  handles : ∀ hb ∈ handlesOf sb, hb.seq ≠ 0 →
    ∃ ha ∈ handlesOf sa, ha.name = hb.name ∧ hb.seq ≤ ha.seq

/-- One response has all spaces of another, and covers each. -/
def Covers (a b : HintsResponse) : Prop :=
  ∀ sb ∈ b.hints, ∃ sa ∈ a.hints, SpaceCovers sa sb

instance
    (sa sb : SpaceHint) :
    Decidable (SpaceCovers sa sb) :=
  decidable_of_iff
    (sa.name = sb.name ∧ sb.epochTip ≤ sa.epochTip ∧ sb.seq ≤ sa.seq ∧
      sb.delegateSeq ≤ sa.delegateSeq ∧ ∀ hb ∈ handlesOf sb, hb.seq ≠ 0 →
        ∃ ha ∈ handlesOf sa, ha.name = hb.name ∧ hb.seq ≤ ha.seq)
    ⟨fun ⟨h₁, h₂, h₃, h₄, h₅⟩ => ⟨h₁, h₂, h₃, h₄, h₅⟩,
      fun ⟨h₁, h₂, h₃, h₄, h₅⟩ => ⟨h₁, h₂, h₃, h₄, h₅⟩⟩

instance
    (a b : HintsResponse) :
    Decidable (Covers a b) :=
  inferInstanceAs (Decidable (∀ sb ∈ b.hints, ∃ sa ∈ a.hints, SpaceCovers sa sb))

instance
    (a b : HintsResponse) :
    Decidable (Contested Covers a b) :=
  inferInstanceAs (Decidable (_ ∧ _))

theorem SpaceCovers.trans
    {sa sb sc : SpaceHint}
    (h : SpaceCovers sa sb)
    (h' : SpaceCovers sb sc) :
    SpaceCovers sa sc where
  name := h.name.trans h'.name
  epochTip := UInt32.le_trans h'.epochTip h.epochTip
  seq := UInt64.le_trans h'.seq h.seq
  delegateSeq := UInt64.le_trans h'.delegateSeq h.delegateSeq
  handles hc hmem hseq := by
    obtain ⟨hb, hmem', hname, hle⟩ := h'.handles hc hmem hseq
    have hseq' : hb.seq ≠ 0 := by
      intro hzero
      rw [hzero] at hle
      exact hseq (UInt64.le_zero_iff.1 hle)
    obtain ⟨ha, hmem'', hname', hle'⟩ := h.handles hb hmem' hseq'
    exact ⟨ha, hmem'', hname'.trans hname, UInt64.le_trans hle hle'⟩

theorem Covers.trans
    {a b c : HintsResponse}
    (h : Covers a b)
    (h' : Covers b c) :
    Covers a c := by
  intro sc hsc
  obtain ⟨sb, hsb, hcovers⟩ := h' sc hsc
  obtain ⟨sa, hsa, hcovers'⟩ := h sb hsb
  exact ⟨sa, hsa, hcovers'.trans hcovers⟩

/-- Handle hints are covered where the greatest sequences are. -/
theorem topSeq_le_iff
    {ha hb : List HandleHint} :
    (∀ name, topSeq name hb ≤ topSeq name ha) ↔
      ∀ h ∈ hb, h.seq ≠ 0 → ∃ g ∈ ha, g.name = h.name ∧ h.seq ≤ g.seq := by
  constructor
  · intro hle h hh hseq
    have htop := (le_topSeq hh).trans (hle h.name)
    have hpos : 0 < topSeq h.name ha :=
      lt_of_lt_of_le (Nat.pos_of_ne_zero (fun h0 => hseq (UInt64.toNat_inj.1 h0))) htop
    obtain ⟨g, hg, hname, hgseq⟩ := exists_of_topSeq_pos hpos
    exact ⟨g, hg, hname, UInt64.le_iff_toNat_le.2 (hgseq ▸ htop)⟩
  · intro hcovered name
    rcases Nat.eq_zero_or_pos (topSeq name hb) with hzero | hpos
    · rw [hzero]
      exact Nat.zero_le _
    · obtain ⟨h, hh, rfl, hseq⟩ := exists_of_topSeq_pos hpos
      have hne : h.seq ≠ 0 := by
        intro hzero
        rw [← hseq, hzero] at hpos
        exact absurd hpos (Nat.lt_irrefl 0)
      obtain ⟨g, hg, hname, hle⟩ := hcovered h hh hne
      rw [← hseq, ← hname]
      exact (UInt64.le_iff_toNat_le.1 hle).trans (le_topSeq hg)

/-- A space is ahead in nothing exactly if the other covers it. -/
theorem sharedLeads_eq_zero_iff
    {sa sb : SpaceHint}
    (hname : sa.name = sb.name) :
    sharedLeads sb sa = 0 ↔ SpaceCovers sa sb := by
  have hahead : ∀ m n : ℕ, ahead m n = 0 ↔ m ≤ n := by
    intro m n
    rw [← Nat.not_lt, ← ahead_pos, Nat.pos_iff_ne_zero, not_not]
  have hhandles : ((flattenHandles sb).rows.map (handleLead (flattenHandles sa))).sum = 0 ↔
      ∀ hb ∈ handlesOf sb, hb.seq ≠ 0 →
        ∃ ha ∈ handlesOf sa, ha.name = hb.name ∧ hb.seq ≤ ha.seq := by
    rw [← topSeq_le_iff, ← not_iff_not, ← ne_eq, ← Nat.pos_iff_ne_zero, handleLead_pos,
      not_forall]
    simp only [Nat.not_le]
  unfold sharedLeads
  rw [Nat.add_eq_zero_iff, Nat.add_eq_zero_iff, Nat.add_eq_zero_iff, hahead, hahead, hahead,
    hhandles, ← UInt32.le_iff_toNat_le, ← UInt64.le_iff_toNat_le, ← UInt64.le_iff_toNat_le]
  constructor
  · rintro ⟨⟨⟨hepoch, hseq⟩, hdelegate⟩, hcovered⟩
    exact ⟨hname, hepoch, hseq, hdelegate, hcovered⟩
  · intro h
    exact ⟨⟨⟨h.epochTip, h.seq⟩, h.delegateSeq⟩, h.handles⟩

/-- **A response is ahead in nothing exactly if the other covers it.** -/
theorem leads_eq_zero_iff
    {a b : HintsResponse}
    (ha : (a.hints.map SpaceHint.name).Nodup) :
    leads b a = 0 ↔ Covers a b := by
  unfold leads Covers
  rw [List.sum_eq_zero_iff_forall_eq_nat, List.forall_mem_map]
  refine forall₂_congr (fun sb hsb => ?_)
  unfold spaceLeads
  cases hfind : a.hints.find? (fun s => s.name == sb.name) with
  | none =>
      have hnone := List.find?_eq_none.1 hfind
      refine iff_of_false Nat.one_ne_zero ?_
      rintro ⟨sa, hsa, hcovers⟩
      exact hnone sa hsa (by simpa using hcovers.name)
  | some sa =>
      have hname : sa.name = sb.name := by
        simpa using List.find?_some hfind
      dsimp only
      rw [sharedLeads_eq_zero_iff hname]
      constructor
      · intro hcovers
        exact ⟨sa, List.mem_of_find?_eq_some hfind, hcovers⟩
      · rintro ⟨sa', hsa', hcovers⟩
        rw [find?_space ha hsa' hcovers.name] at hfind
        cases hfind
        exact hcovers

theorem score_swap
    {a b : HintsResponse}
    (ha : (a.hints.map SpaceHint.name).Nodup)
    (hb : (b.hints.map SpaceHint.name).Nodup) :
    score b a = -score a b := by
  rw [score_eq, score_eq, trails_swap ha hb, trails_swap hb ha]
  omega

/-- The counts of components are margins, and they go with covering. -/
theorem margins_score
    {responses : List HintsResponse}
    (hnames : ∀ x ∈ responses, (x.hints.map SpaceHint.name).Nodup) :
    Margins score Covers responses where
  swap a ha b hb := score_swap (hnames a ha) (hnames b hb)
  nonneg a ha b hb hcovers := by
    rw [score_eq, trails_swap (hnames a ha) (hnames b hb),
      (leads_eq_zero_iff (hnames a ha)).2 hcovers]
    omega
  strict a ha b hb hcovers hzero := by
    rw [score_eq, trails_swap (hnames a ha) (hnames b hb),
      (leads_eq_zero_iff (hnames a ha)).2 hcovers] at hzero
    exact (leads_eq_zero_iff (hnames b hb)).1 (by omega)
  trans a _ b _ c _ := Covers.trans

theorem cmp_eq_byMargin :
    cmp = byMargin score (fun x => x.anchorTip.toNat) := by
  rfl

/-- **The comparison is lawful on responses that list each space once**, if none of them is
contested with two others of different hints. -/
theorem cmp_lawfulOn
    {responses : List HintsResponse}
    (hnames : ∀ x ∈ responses, (x.hints.map SpaceHint.name).Nodup)
    (hcontest : ∀ a ∈ responses, ∀ b ∈ responses, ∀ c ∈ responses,
      Contested Covers a b → Contested Covers b c → a.hints = c.hints) :
    LawfulOn cmp responses := by
  have hsame : ∀ a b : HintsResponse, a.hints = b.hints → ∀ c, score a c = score b c := by
    intro a b heq c
    unfold score missingSpaces
    rw [heq]
  rw [cmp_eq_byMargin]
  exact lawfulOn_byMargin (margins_score hnames) hsame hcontest

end Contests

section Dominance

/-- The names of the spaces, and of the handles of each space, are distinct. -/
structure Distinct (x : HintsResponse) : Prop where
  spaces : (x.hints.map SpaceHint.name).Nodup
  handles : ∀ s ∈ x.hints, ((handlesOf s).map HandleHint.name).Nodup

/-- One space has all handle hints of another, and everything at least as fresh. -/
structure SpaceDominates (sa sb : SpaceHint) : Prop where
  name : sa.name = sb.name
  epochTip : sb.epochTip ≤ sa.epochTip
  seq : sb.seq ≤ sa.seq
  delegateSeq : sb.delegateSeq ≤ sa.delegateSeq
  handles : ∀ hb ∈ handlesOf sb, ∃ ha ∈ handlesOf sa, ha.name = hb.name ∧ hb.seq ≤ ha.seq

/-- One response has all spaces and handle hints of another, at least as fresh. -/
def Dominates (a b : HintsResponse) : Prop :=
  ∀ sb ∈ b.hints, ∃ sa ∈ a.hints, SpaceDominates sa sb

/-- Some component of a shared space is strictly larger. -/
def SpaceAhead (sa sb : SpaceHint) : Prop :=
  sb.epochTip < sa.epochTip ∨ sb.seq < sa.seq ∨ sb.delegateSeq < sa.delegateSeq ∨
    ∃ ha ∈ handlesOf sa, ∃ hb ∈ handlesOf sb, ha.name = hb.name ∧ hb.seq < ha.seq

/-- There is an additional handle hint that counts. -/
def AddsHandle (counts : HandleHint → Prop) (sa sb : SpaceHint) : Prop :=
  ∃ ha ∈ handlesOf sa, counts ha ∧ ∀ hb ∈ handlesOf sb, hb.name ≠ ha.name

/-- A strictly larger component, an additional space, or an additional handle hint that
counts. -/
def Fresher (counts : HandleHint → Prop) (a b : HintsResponse) : Prop :=
  (∃ sa ∈ a.hints, ∀ sb ∈ b.hints, sb.name ≠ sa.name) ∨
    ∃ sa ∈ a.hints, ∃ sb ∈ b.hints, sa.name = sb.name ∧
      (SpaceAhead sa sb ∨ AddsHandle counts sa sb)

/-- The handle hints whose sequence is not 0. -/
def NonzeroSeq (h : HandleHint) : Prop :=
  h.seq ≠ 0

/-- With distinct names a hint is the only one of its handle. -/
theorem topSeq_of_mem
    {handles : List HandleHint}
    (hnames : (handles.map HandleHint.name).Nodup)
    {h : HandleHint}
    (hh : h ∈ handles) :
    topSeq h.name handles = h.seq.toNat := by
  refine le_antisymm ?_ (le_topSeq hh)
  rcases Nat.eq_zero_or_pos (topSeq h.name handles) with hzero | hpos
  · rw [hzero]
    exact Nat.zero_le _
  · obtain ⟨g, hg, hname, hseq⟩ := exists_of_topSeq_pos hpos
    rw [List.inj_on_of_nodup_map hnames hg hh hname] at hseq
    exact hseq.ge

theorem SpaceDominates.topSeq_le
    {sa sb : SpaceHint}
    (h : SpaceDominates sa sb)
    (name : String) :
    topSeq name (handlesOf sb) ≤ topSeq name (handlesOf sa) := by
  rcases Nat.eq_zero_or_pos (topSeq name (handlesOf sb)) with hzero | hpos
  · rw [hzero]
    exact Nat.zero_le _
  · obtain ⟨hb, hmem, rfl, hseq⟩ := exists_of_topSeq_pos hpos
    obtain ⟨ha, hmem', hname, hle⟩ := h.handles hb hmem
    rw [← hseq, ← hname]
    exact (UInt64.le_iff_toNat_le.1 hle).trans (le_topSeq hmem')

/-- A space is behind in nothing that it dominates. -/
theorem SpaceDominates.sharedTrails_eq_zero
    {sa sb : SpaceHint}
    (h : SpaceDominates sa sb) :
    sharedTrails sa sb = 0 := by
  have htrail : ∀ row ∈ (flattenHandles sa).rows, handleTrail (flattenHandles sb) row = 0 := by
    intro row hrow
    unfold handleTrail
    rw [find?_flattenHandles]
    split_ifs
    · apply ahead_eq_zero
      rw [(mem_flattenHandles.1 hrow).2]
      exact h.topSeq_le row.1
    · rfl
  have hmissing : missingHandles (flattenHandles sa) (flattenHandles sb) = [] := by
    unfold missingHandles
    rw [List.filter_eq_nil_iff]
    intro row hrow
    obtain ⟨hpos, htop⟩ := mem_flattenHandles.1 hrow
    rw [find?_flattenHandles, if_pos (hpos.trans_le (htop ▸ h.topSeq_le row.1))]
    simp
  unfold sharedTrails
  rw [sum_map_eq_zero htrail, hmissing,
    ahead_eq_zero (UInt32.le_iff_toNat_le.1 h.epochTip),
    ahead_eq_zero (UInt64.le_iff_toNat_le.1 h.seq),
    ahead_eq_zero (UInt64.le_iff_toNat_le.1 h.delegateSeq)]
  rfl

/-- The handles of one space that are ahead of those of another. -/
theorem exists_topSeq_lt_iff
    {ha hb : List HandleHint}
    (hbNames : (hb.map HandleHint.name).Nodup) :
    (∃ name, topSeq name hb < topSeq name ha) ↔
      (∃ h ∈ ha, ∃ g ∈ hb, h.name = g.name ∧ g.seq < h.seq) ∨
        ∃ h ∈ ha, NonzeroSeq h ∧ ∀ g ∈ hb, g.name ≠ h.name := by
  constructor
  · rintro ⟨name, hlt⟩
    obtain ⟨h, hh, rfl, hseq⟩ := exists_of_topSeq_pos (Nat.zero_lt_of_lt hlt)
    by_cases hshared : ∃ g ∈ hb, g.name = h.name
    · obtain ⟨g, hg, hname⟩ := hshared
      refine Or.inl ⟨h, hh, g, hg, hname.symm, ?_⟩
      rw [UInt64.lt_iff_toNat_lt, hseq]
      exact (hname ▸ le_topSeq hg).trans_lt hlt
    · refine Or.inr ⟨h, hh, ?_, fun g hg hname => hshared ⟨g, hg, hname⟩⟩
      intro hzero
      rw [hzero] at hseq
      exact absurd (hseq ▸ hlt) (Nat.not_lt_zero _)
  · rintro (⟨h, hh, g, hg, hname, hlt⟩ | ⟨h, hh, hseq, hnone⟩)
    · refine ⟨g.name, ?_⟩
      rw [topSeq_of_mem hbNames hg]
      exact (UInt64.lt_iff_toNat_lt.1 hlt).trans_le (hname ▸ le_topSeq hh)
    · refine ⟨h.name, ?_⟩
      have hzero : topSeq h.name hb = 0 := by
        by_contra hne
        obtain ⟨g, hg, hname, _⟩ := exists_of_topSeq_pos (Nat.pos_of_ne_zero hne)
        exact hnone g hg hname
      rw [hzero]
      exact lt_of_lt_of_le (Nat.pos_of_ne_zero (fun h0 => hseq (UInt64.toNat_inj.1 h0)))
        (le_topSeq hh)

theorem sharedLeads_pos
    {sa sb : SpaceHint}
    (hsb : ((handlesOf sb).map HandleHint.name).Nodup) :
    0 < sharedLeads sa sb ↔ SpaceAhead sa sb ∨ AddsHandle NonzeroSeq sa sb := by
  unfold sharedLeads SpaceAhead AddsHandle
  rw [UInt32.lt_iff_toNat_lt, UInt64.lt_iff_toNat_lt, UInt64.lt_iff_toNat_lt,
    ← ahead_pos sa.epochTip.toNat, ← ahead_pos sa.seq.toNat, ← ahead_pos sa.delegateSeq.toNat,
    or_assoc, or_assoc, or_assoc, ← exists_topSeq_lt_iff hsb, ← handleLead_pos]
  omega

/-- **A response is behind in nothing that it dominates.** -/
theorem trails_of_dominates
    {a b : HintsResponse}
    (ha : Distinct a)
    (h : Dominates a b) :
    trails a b = 0 := by
  have htrail : ∀ sa ∈ a.hints, spaceTrails b sa = 0 := by
    intro sa hsa
    unfold spaceTrails
    cases hfind : b.hints.find? (fun s => s.name == sa.name) with
    | none =>
        rfl
    | some sb =>
        have hname : sb.name = sa.name := by
          simpa using List.find?_some hfind
        obtain ⟨sa', hsa', hdom⟩ := h sb (List.mem_of_find?_eq_some hfind)
        have hsame : sa' = sa :=
          List.inj_on_of_nodup_map ha.spaces hsa' hsa (hdom.name.trans hname)
        subst hsame
        exact hdom.sharedTrails_eq_zero
  have hmissing : missingSpaces a b = [] := by
    unfold missingSpaces
    rw [List.filter_eq_nil_iff]
    intro sb hsb
    obtain ⟨sa, hsa, hdom⟩ := h sb hsb
    simpa using ⟨sa, hsa, hdom.name⟩
  unfold trails
  rw [sum_map_eq_zero htrail, hmissing]
  rfl

/-- **It is ahead where it is fresher**, up to handle hints of sequence 0. -/
theorem leads_pos
    {a b : HintsResponse}
    (hb : Distinct b) :
    0 < leads a b ↔ Fresher NonzeroSeq a b := by
  unfold leads Fresher
  rw [sum_map_pos]
  constructor
  · rintro ⟨sa, hsa, hpos⟩
    unfold spaceLeads at hpos
    cases hfind : b.hints.find? (fun s => s.name == sa.name) with
    | none =>
        refine Or.inl ⟨sa, hsa, fun sb hsb => ?_⟩
        simpa using List.find?_eq_none.1 hfind sb hsb
    | some sb =>
        rw [hfind] at hpos
        have hsb := List.mem_of_find?_eq_some hfind
        have hname : sb.name = sa.name := by
          simpa using List.find?_some hfind
        exact Or.inr ⟨sa, hsa, sb, hsb, hname.symm, (sharedLeads_pos (hb.handles sb hsb)).1 hpos⟩
  · rintro (⟨sa, hsa, hnone⟩ | ⟨sa, hsa, sb, hsb, hname, hahead⟩)
    · refine ⟨sa, hsa, ?_⟩
      have hfind : b.hints.find? (fun s => s.name == sa.name) = none := by
        rw [List.find?_eq_none]
        intro sb hsb
        simpa using hnone sb hsb
      unfold spaceLeads
      rw [hfind]
      exact Nat.one_pos
    · refine ⟨sa, hsa, ?_⟩
      unfold spaceLeads
      rw [find?_space hb.spaces hsb hname.symm]
      exact (sharedLeads_pos (hb.handles sb hsb)).2 hahead

/-- **A response that dominates another ranks higher exactly if it is fresher by more than
handle hints of sequence 0, or has the higher anchor tip.** -/
theorem cmp_of_dominates
    {a b : HintsResponse}
    (ha : Distinct a)
    (hb : Distinct b)
    (h : Dominates a b) :
    (Fresher (fun _ => True) a b → cmp a b = .gt) ↔
      (Fresher (fun _ => True) a b →
        Fresher NonzeroSeq a b ∨ b.anchorTip < a.anchorTip) := by
  refine imp_congr_right (fun _ => ?_)
  rw [cmp_eq_gt_iff, Beats, trails_of_dominates ha h, leads_pos hb]
  constructor
  · rintro (hlead | ⟨_, htip⟩)
    · exact Or.inl hlead
    · exact Or.inr htip
  · rintro (hlead | htip)
    · exact Or.inl hlead
    · rcases Nat.eq_zero_or_pos (leads a b) with hzero | hpos
      · exact Or.inr ⟨hzero, htip⟩
      · exact Or.inl ((leads_pos hb).1 hpos)

/-- A space with some handles. -/
def spaceWith (handles : List HandleHint) : HintsResponse :=
  ⟨5, [⟨1, "@space", 1, 0, [⟨1, handles⟩]⟩]⟩

theorem distinct_spaceWith
    {handles : List HandleHint}
    (h : (handles.map HandleHint.name).Nodup) :
    Distinct (spaceWith handles) where
  spaces := List.nodup_singleton _
  handles := by
    intro s hs
    obtain rfl := List.mem_singleton.1 hs
    simpa [handlesOf] using h

theorem dominates_spaceWith
    (handle : HandleHint)
    (handles : List HandleHint) :
    Dominates (spaceWith (handle :: handles)) (spaceWith handles) := by
  intro sb hsb
  obtain rfl := List.mem_singleton.1 hsb
  refine ⟨_, List.mem_cons_self, rfl, UInt32.le_refl _, UInt64.le_refl _, UInt64.le_refl _,
    fun hb hmem => ⟨hb, ?_, rfl, UInt64.le_refl _⟩⟩
  simp only [handlesOf, List.flatMap_cons, List.flatMap_nil, List.append_nil] at hmem ⊢
  exact List.mem_cons_of_mem handle hmem

theorem fresher_spaceWith
    {counts : HandleHint → Prop}
    {handle : HandleHint}
    {handles : List HandleHint}
    (h : counts handle)
    (hnew : ∀ g ∈ handles, g.name ≠ handle.name) :
    Fresher counts (spaceWith (handle :: handles)) (spaceWith handles) := by
  refine Or.inr ⟨_, List.mem_cons_self, _, List.mem_cons_self, rfl,
    Or.inr ⟨handle, List.mem_cons_self, h, fun g hg => hnew g ?_⟩⟩
  simpa [handlesOf] using hg

/-- One more handle, of sequence 1, ranks higher. -/
theorem one_more_handle :
    cmp (spaceWith [⟨1, "alice@space"⟩, ⟨3, "bob@space"⟩]) (spaceWith [⟨3, "bob@space"⟩]) =
      .gt := by
  refine (cmp_of_dominates (distinct_spaceWith (by decide)) (distinct_spaceWith (by decide))
    (dominates_spaceWith _ _)).2 (fun _ => Or.inl ?_) (fresher_spaceWith trivial (by decide))
  exact fresher_spaceWith (by simp [NonzeroSeq]) (by decide)

/-- One more handle, of sequence 0, does not. -/
theorem seq_zero_not_counted :
    ¬ ∀ a b : HintsResponse, Distinct a → Distinct b → Dominates a b →
      Fresher (fun _ => True) a b → cmp a b = .gt := by
  intro h
  have hgt := h (spaceWith [⟨0, "alice@space"⟩]) (spaceWith [])
    (distinct_spaceWith (by decide)) (distinct_spaceWith (by decide))
    (dominates_spaceWith _ _) (fresher_spaceWith trivial (by decide))
  exact absurd hgt (by decide)

end Dominance

end Hints
end CertRelay
