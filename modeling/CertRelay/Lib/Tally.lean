import Mathlib.Data.List.Basic
import Mathlib.Data.List.MinMax
import Mathlib.Data.List.Nodup
import Mathlib.Order.Lattice.Nat

/-!
# Counting votes

Votes are keyed values.  A tally groups them by key, keys in the order of their first
vote and the votes of a key in the order in which they came; this is a map from keys to
lists that is filled vote by vote.  A choice is the first entry of the highest score, or
the last.

**Results.**
* `mem_tally`: the entries of a tally are the keys with all their votes;
* `precedes_tally`: they come in the order of the first votes;
* `majority_unique`: two keys with more than half of the votes are the same;
* `firstBest_iff`: when the choice is one of the wanted entries.
-/

namespace CertRelay
namespace Tally

universe u v

section Order

variable {α : Type u} [DecidableEq α]

/-- `x` comes before `y`, or occurs where `y` does not. -/
def Precedes (l : List α) (x y : α) : Prop :=
  l.idxOf x < l.idxOf y

/-- What is appended does not change which of two elements comes first. -/
theorem precedes_append
    {l r : List α}
    {x y : α}
    (hx : x ∈ l) :
    Precedes (l ++ r) x y ↔ Precedes l x y := by
  unfold Precedes
  rw [List.idxOf_append_of_mem hx]
  by_cases hy : y ∈ l
  · rw [List.idxOf_append_of_mem hy]
  · have hlt := List.idxOf_lt_length_of_mem hx
    rw [List.idxOf_append_of_notMem hy, List.idxOf_of_notMem hy]
    omega

/-- The last element comes before those that do not occur. -/
theorem precedes_concat
    {l : List α}
    {x y : α}
    (hx : x ∉ l) :
    Precedes (l ++ [x]) x y ↔ y ∉ l ∧ y ≠ x := by
  unfold Precedes
  rw [List.idxOf_append_of_notMem hx, List.idxOf_cons_self]
  by_cases hy : y ∈ l
  · have hlt := List.idxOf_lt_length_of_mem hy
    rw [List.idxOf_append_of_mem hy]
    simp only [hy, not_true_eq_false, false_and, iff_false]
    omega
  · rw [List.idxOf_append_of_notMem hy]
    by_cases hyx : y = x
    · simp [hyx]
    · rw [List.idxOf_cons_ne _ (Ne.symm hyx)]
      simp [hy, hyx]

/-- Nothing comes before an element of a part that lacks it. -/
theorem not_precedes_append
    {l r : List α}
    {x y : α}
    (hx : x ∉ l)
    (hy : y ∈ l) :
    ¬ Precedes (l ++ r) x y := by
  unfold Precedes
  have hlt := List.idxOf_lt_length_of_mem hy
  rw [List.idxOf_append_of_notMem hx, List.idxOf_append_of_mem hy]
  omega

/-- Leaving out others does not change which of two elements comes first. -/
theorem precedes_filter
    {p : α → Bool}
    {x y : α}
    (hx : p x = true)
    (hy : p y = true)
    (l : List α) :
    Precedes (l.filter p) x y ↔ Precedes l x y := by
  unfold Precedes
  induction l with
  | nil =>
      rfl
  | cons a l ih =>
      by_cases hax : a = x
      · subst hax
        rw [List.filter_cons_of_pos hx, List.idxOf_cons_self, List.idxOf_cons_self]
        by_cases hay : a = y
        · rw [hay, List.idxOf_cons_self, List.idxOf_cons_self]
        · rw [List.idxOf_cons_ne _ hay, List.idxOf_cons_ne _ hay]
          simp
      · by_cases hay : a = y
        · subst hay
          rw [List.filter_cons_of_pos hy, List.idxOf_cons_self, List.idxOf_cons_self]
          simp
        · rw [List.idxOf_cons_ne _ hax, List.idxOf_cons_ne _ hay, Nat.succ_lt_succ_iff, ← ih]
          by_cases ha : p a = true
          · rw [List.filter_cons_of_pos ha, List.idxOf_cons_ne _ hax, List.idxOf_cons_ne _ hay,
              Nat.succ_lt_succ_iff]
          · rw [List.filter_cons_of_neg ha]

theorem idxOf_map_of_inj
    {β : Type v}
    [DecidableEq β]
    {f : α → β}
    {x : α}
    {l : List α}
    (h : ∀ z ∈ l, f z = f x → z = x) :
    (l.map f).idxOf (f x) = l.idxOf x := by
  induction l with
  | nil =>
      rfl
  | cons z l ih =>
      rw [List.map_cons]
      by_cases hz : z = x
      · rw [hz, List.idxOf_cons_self, List.idxOf_cons_self]
      · have hfz : f z ≠ f x := fun he => hz (h z List.mem_cons_self he)
        rw [List.idxOf_cons_ne _ hz, List.idxOf_cons_ne _ hfz,
          ih (fun z' hz' => h z' (List.mem_cons_of_mem _ hz'))]

/-- Renaming does not change which of two elements comes first. -/
theorem precedes_map
    {β : Type v}
    [DecidableEq β]
    {f : α → β}
    {l : List α}
    {x y : α}
    (hx : ∀ z ∈ l, f z = f x → z = x)
    (hy : ∀ z ∈ l, f z = f y → z = y) :
    Precedes (l.map f) (f x) (f y) ↔ Precedes l x y := by
  unfold Precedes
  rw [idxOf_map_of_inj hx, idxOf_map_of_inj hy]

end Order

section Votes

variable {κ : Type u} {ν : Type v} [DecidableEq κ]

/-- The votes of one key. -/
def ballots (k : κ) (votes : List (κ × ν)) : List ν :=
  (votes.filter (fun p => decide (p.1 = k))).map Prod.snd

/-- Add a vote to the entry of its key, or a new entry at the end. -/
def addVote (k : κ) (x : ν) : List (κ × List ν) → List (κ × List ν)
  | [] => [(k, [x])]
  | (k', xs) :: rest =>
      if k' = k then (k', xs ++ [x]) :: rest else (k', xs) :: addVote k x rest

/-- The tally of some votes. -/
def tally (votes : List (κ × ν)) : List (κ × List ν) :=
  votes.foldl (fun t p => addVote p.1 p.2 t) []

theorem tally_concat
    (votes : List (κ × ν))
    (p : κ × ν) :
    tally (votes ++ [p]) = addVote p.1 p.2 (tally votes) :=
  List.foldl_concat _ _ _ _

theorem ballots_concat
    (k : κ)
    (votes : List (κ × ν))
    (p : κ × ν) :
    ballots k (votes ++ [p]) = ballots k votes ++ if p.1 = k then [p.2] else [] := by
  unfold ballots
  rw [List.filter_append, List.map_append]
  by_cases h : p.1 = k <;> simp [h]

theorem map_fst_addVote
    (k : κ)
    (x : ν)
    (t : List (κ × List ν)) :
    (addVote k x t).map Prod.fst =
      if k ∈ t.map Prod.fst then t.map Prod.fst else t.map Prod.fst ++ [k] := by
  induction t with
  | nil =>
      simp [addVote]
  | cons entry t ih =>
      obtain ⟨k', xs⟩ := entry
      unfold addVote
      by_cases hk : k' = k
      · simp [hk]
      · have hk' : ¬ k = k' := Ne.symm hk
        simp only [if_neg hk, List.map_cons, ih, List.mem_cons, hk', false_or]
        split_ifs <;> rfl

/-- No key has two entries. -/
theorem nodup_tally
    (votes : List (κ × ν)) :
    ((tally votes).map Prod.fst).Nodup := by
  induction votes using List.reverseRecOn with
  | nil =>
      exact List.nodup_nil
  | append_singleton votes p ih =>
      rw [tally_concat, map_fst_addVote]
      split_ifs with hmem
      · exact ih
      · rw [List.nodup_append]
        refine ⟨ih, List.nodup_singleton _, ?_⟩
        intro a ha b hb hab
        rw [List.mem_singleton.1 hb] at hab
        exact hmem (hab ▸ ha)

/-- What one vote does to the entries. -/
theorem mem_addVote
    {k : κ}
    {x : ν}
    {t : List (κ × List ν)}
    (hnodup : (t.map Prod.fst).Nodup)
    {k' : κ}
    {xs : List ν} :
    (k', xs) ∈ addVote k x t ↔
      (k' ≠ k ∧ (k', xs) ∈ t) ∨
        (k' = k ∧ ∃ ys, ((k, ys) ∈ t ∨ (k ∉ t.map Prod.fst ∧ ys = [])) ∧ xs = ys ++ [x]) := by
  induction t with
  | nil =>
      simp [addVote]
  | cons entry t ih =>
      obtain ⟨k₀, zs⟩ := entry
      rw [List.map_cons, List.nodup_cons] at hnodup
      obtain ⟨hfresh, hrest⟩ := hnodup
      unfold addVote
      by_cases hk : k₀ = k
      · subst hk
        rw [if_pos rfl]
        have hother : ∀ ys, (k₀, ys) ∉ t := fun ys hys =>
          hfresh (List.mem_map.2 ⟨(k₀, ys), hys, rfl⟩)
        by_cases hk' : k' = k₀
        · subst hk'
          simp [hother]
        · simp [hk']
      · rw [if_neg hk]
        have hk₀ : ¬ k = k₀ := Ne.symm hk
        rw [List.mem_cons, ih hrest]
        by_cases hk' : k' = k
        · subst hk'
          simp [hk₀]
        · simp [hk']

/-- **The entries of a tally are the keys with all their votes.** -/
theorem mem_tally
    {votes : List (κ × ν)}
    {k : κ}
    {xs : List ν} :
    (k, xs) ∈ tally votes ↔ xs = ballots k votes ∧ xs ≠ [] := by
  induction votes using List.reverseRecOn generalizing k xs with
  | nil =>
      simp [tally, ballots]
  | append_singleton votes p ih =>
      rw [tally_concat, mem_addVote (nodup_tally votes), ballots_concat]
      by_cases hk : k = p.1
      · subst hk
        have hkey : p.1 ∉ (tally votes).map Prod.fst ↔ ballots p.1 votes = [] := by
          rw [← not_iff_not, not_not, List.mem_map]
          constructor
          · rintro ⟨⟨k', ys⟩, hys, rfl⟩
            obtain ⟨rfl, hne⟩ := ih.1 hys
            exact hne
          · intro hne
            exact ⟨(p.1, ballots p.1 votes), ih.2 ⟨rfl, hne⟩, rfl⟩
        simp only [ne_eq, not_true_eq_false, false_and, true_and, false_or, if_true, ih, hkey]
        constructor
        · rintro ⟨ys, ⟨rfl, _⟩ | ⟨hnone, rfl⟩, rfl⟩
          · simp
          · simp [hnone]
        · rintro ⟨rfl, _⟩
          refine ⟨ballots p.1 votes, ?_, rfl⟩
          by_cases hnone : ballots p.1 votes = []
          · exact Or.inr ⟨hnone, hnone⟩
          · exact Or.inl ⟨rfl, hnone⟩
      · have hk' : ¬ p.1 = k := Ne.symm hk
        simp [hk, hk', ih]

theorem mem_keys_tally
    {votes : List (κ × ν)}
    {k : κ} :
    k ∈ (tally votes).map Prod.fst ↔ k ∈ votes.map Prod.fst := by
  induction votes using List.reverseRecOn generalizing k with
  | nil =>
      simp [tally]
  | append_singleton votes p ih =>
      rw [tally_concat, map_fst_addVote, List.map_append, List.mem_append]
      split_ifs with hmem
      · rw [ih]
        refine ⟨Or.inl, fun h => h.elim id (fun hlast => ?_)⟩
        rw [List.mem_singleton.1 hlast]
        exact ih.1 hmem
      · rw [List.mem_append, ih]
        rfl

/-- **The keys of a tally come in the order of their first votes.** -/
theorem precedes_keys_tally
    {votes : List (κ × ν)}
    {k : κ}
    (hk : k ∈ votes.map Prod.fst)
    (k' : κ) :
    Precedes ((tally votes).map Prod.fst) k k' ↔ Precedes (votes.map Prod.fst) k k' := by
  induction votes using List.reverseRecOn with
  | nil =>
      cases hk
  | append_singleton votes p ih =>
      have hkeys : ∀ k, k ∈ (tally votes).map Prod.fst ↔ k ∈ votes.map Prod.fst :=
        fun _ => mem_keys_tally
      rw [tally_concat, map_fst_addVote, List.map_append, List.map_cons, List.map_nil]
      by_cases hold : k ∈ votes.map Prod.fst
      · rw [precedes_append hold, ← ih hold]
        split_ifs
        · exact Iff.rfl
        · exact precedes_append ((hkeys k).2 hold)
      · have hlast : k = p.1 := by
          rw [List.map_append, List.mem_append] at hk
          exact List.mem_singleton.1 (hk.resolve_left hold)
        subst hlast
        have hnew : p.1 ∉ (tally votes).map Prod.fst := fun h => hold ((hkeys _).1 h)
        rw [if_neg hnew, precedes_concat hold, precedes_concat hnew, hkeys]

/-- The entries of a tally come in the order of their keys. -/
theorem precedes_tally
    [DecidableEq ν]
    {votes : List (κ × ν)}
    {e e' : κ × List ν}
    (he : e ∈ tally votes)
    (he' : e' ∈ tally votes) :
    Precedes (tally votes) e e' ↔ Precedes (votes.map Prod.fst) e.1 e'.1 := by
  have hinj : ∀ {x y : κ × List ν}, x ∈ tally votes → y ∈ tally votes → x.1 = y.1 → x = y := by
    intro x y hx hy hkey
    rw [Prod.ext_iff]
    refine ⟨hkey, ?_⟩
    rw [(mem_tally.1 hx).1, (mem_tally.1 hy).1, hkey]
  rw [← precedes_keys_tally (mem_keys_tally.1 (List.mem_map_of_mem he)),
    precedes_map (fun z hz => hinj hz he) (fun z hz => hinj hz he')]

/-- Two keys share no vote. -/
theorem length_ballots_add_le
    {k k' : κ}
    (h : k ≠ k')
    (votes : List (κ × ν)) :
    (ballots k votes).length + (ballots k' votes).length ≤ votes.length := by
  induction votes using List.reverseRecOn with
  | nil =>
      simp [ballots]
  | append_singleton votes p ih =>
      rw [ballots_concat, ballots_concat]
      by_cases hk : p.1 = k
      · have hk' : ¬ p.1 = k' := fun he => h (hk.symm.trans he)
        simp only [if_pos hk, if_neg hk', List.length_append, List.length_cons,
          List.length_nil]
        omega
      · simp only [if_neg hk, List.length_append, List.length_cons, List.length_nil]
        split_ifs
        · simp only [List.length_cons, List.length_nil]
          omega
        · simp only [List.length_nil]
          omega

/-- **Two keys with more than half of the votes are the same**, also when more were
entitled to vote than did. -/
theorem majority_unique
    {votes : List (κ × ν)}
    {total : Nat}
    (htotal : votes.length ≤ total)
    {k k' : κ}
    (h : total / 2 + 1 ≤ (ballots k votes).length)
    (h' : total / 2 + 1 ≤ (ballots k' votes).length) :
    k = k' := by
  by_contra hne
  have hsum := length_ballots_add_le hne votes
  omega

/-- **An entry with the most votes is that of a key with more than half of them.** -/
theorem eq_of_majority
    {votes : List (κ × ν)}
    {entry : κ × List ν}
    (hentry : entry ∈ tally votes)
    (hmost : ∀ other ∈ tally votes, other.2.length ≤ entry.2.length)
    {k : κ}
    (hk : votes.length < 2 * (ballots k votes).length) :
    entry = (k, ballots k votes) := by
  have hvotes : entry.2 = ballots entry.1 votes ∧ entry.2 ≠ [] := mem_tally.1 hentry
  have hne : ballots k votes ≠ [] := by
    rintro hnil
    rw [hnil, List.length_nil] at hk
    omega
  have hle := hmost (k, ballots k votes) (mem_tally.2 ⟨rfl, hne⟩)
  have hkey : entry.1 = k := by
    by_contra hother
    have hsum := length_ballots_add_le hother votes
    rw [← hvotes.1] at hsum
    dsimp only at hle
    omega
  rw [← hkey, ← hvotes.1]

end Votes

section Choice

variable {α : Type u} [DecidableEq α] {β : Type v} [LinearOrder β]

/-- The first element of the highest score. -/
def firstBest (score : α → β) (l : List α) : Option α :=
  l.argmax score

omit [DecidableEq α] in
@[simp] theorem firstBest_eq_none
    {score : α → β}
    {l : List α} :
    firstBest score l = none ↔ l = [] :=
  List.argmax_eq_none

omit [DecidableEq α] in
theorem firstBest_mem
    {score : α → β}
    {l : List α}
    {m : α}
    (h : firstBest score l = some m) :
    m ∈ l ∧ ∀ a ∈ l, score a ≤ score m :=
  ⟨List.argmax_mem h, fun _ ha => List.le_of_mem_argmax ha h⟩

/-- An element of the list scores above another, or as much and comes before it. -/
def Beats (score : α → β) (l : List α) (m a : α) : Prop :=
  score a < score m ∨ (score a = score m ∧ Precedes l m a)

/-- **When the choice is wanted**: some wanted element beats every unwanted one. -/
theorem firstBest_iff
    {score : α → β}
    {l : List α}
    {wanted : α → Prop} :
    (∃ m, firstBest score l = some m ∧ wanted m) ↔
      ∃ m ∈ l, wanted m ∧ ∀ a ∈ l, ¬ wanted a → Beats score l m a := by
  constructor
  · rintro ⟨m, hm, hwanted⟩
    obtain ⟨hmem, hmax, hfirst⟩ := List.argmax_eq_some_iff.1 hm
    refine ⟨m, hmem, hwanted, ?_⟩
    intro a ha hunwanted
    rcases (hmax a ha).lt_or_eq with hlt | heq
    · exact Or.inl hlt
    · refine Or.inr ⟨heq, lt_of_le_of_ne (hfirst a ha heq.ge) fun hidx => ?_⟩
      have hsame : m = a := (List.idxOf_inj hmem).1 hidx
      exact hunwanted (hsame ▸ hwanted)
  · rintro ⟨m, hmem, _, hbeats⟩
    have hsome : (firstBest score l).isSome := by
      rw [Option.isSome_iff_ne_none]
      intro hnone
      rw [List.argmax_eq_none.1 hnone] at hmem
      cases hmem
    obtain ⟨best, hbest⟩ := Option.isSome_iff_exists.1 hsome
    refine ⟨best, hbest, ?_⟩
    obtain ⟨hbestmem, hmax, hfirst⟩ := List.argmax_eq_some_iff.1 hbest
    by_contra hunwanted
    rcases hbeats best hbestmem hunwanted with hlt | ⟨heq, hidx⟩
    · exact absurd (hmax m hmem) (not_le_of_gt hlt)
    · exact absurd (hfirst m hmem heq.le) (Nat.not_le_of_lt hidx)

/-- The last element of the highest score. -/
def lastBest (score : α → β) (l : List α) : Option α :=
  firstBest score l.reverse

omit [DecidableEq α] in
theorem lastBest_mem
    {score : α → β}
    {l : List α}
    {m : α}
    (h : lastBest score l = some m) :
    m ∈ l ∧ ∀ a ∈ l, score a ≤ score m := by
  obtain ⟨hmem, hmax⟩ := firstBest_mem h
  exact ⟨List.mem_reverse.1 hmem, fun a ha => hmax a (List.mem_reverse.2 ha)⟩

omit [DecidableEq α] in
theorem lastBest_eq_none
    {score : α → β}
    {l : List α} :
    lastBest score l = none ↔ l = [] :=
  firstBest_eq_none.trans List.reverse_eq_nil_iff

/-- An element of the highest score is chosen when it comes last. -/
theorem lastBest_concat
    {score : α → β}
    {l : List α}
    {m : α}
    (h : ∀ a ∈ l, score a ≤ score m) :
    lastBest score (l ++ [m]) = some m := by
  unfold lastBest firstBest
  rw [List.reverse_append, List.reverse_singleton, List.singleton_append,
    List.argmax_eq_some_iff]
  refine ⟨List.mem_cons_self, ?_, ?_⟩
  · intro a ha
    rcases List.mem_cons.1 ha with rfl | ha
    · exact le_rfl
    · exact h a (List.mem_reverse.1 ha)
  · intro a _ _
    rw [List.idxOf_cons_self]
    exact Nat.zero_le _

/-- One step of a loop that keeps the best element seen and its score. -/
def keepBest (score : α → β) (best : Option α × β) (a : α) : Option α × β :=
  if best.2 < score a then (some a, score a) else best

omit [DecidableEq α] in
/-- **The loop finds the first best** among the elements above the score it starts from. -/
theorem foldl_keepBest
    (score : α → β)
    (start : β)
    (l : List α) :
    (l.foldl (keepBest score) (none, start)).1 =
      firstBest score (l.filter (fun a => decide (start < score a))) := by
  have hinv : ∀ l : List α,
      (l.foldl (keepBest score) (none, start)) =
        ((firstBest score (l.filter (fun a => decide (start < score a)))),
          ((firstBest score (l.filter (fun a => decide (start < score a)))).map score).getD
            start) := by
    intro l
    induction l using List.reverseRecOn with
    | nil =>
        rfl
    | append_singleton l a ih =>
        rw [List.foldl_concat, ih, List.filter_append]
        unfold keepBest firstBest
        by_cases habove : start < score a
        · have hsingle : [a].filter (fun a => decide (start < score a)) = [a] := by
            simp [habove]
          rw [hsingle, List.argmax_concat]
          cases hbest : List.argmax score (l.filter (fun a => decide (start < score a))) with
          | none =>
              simp [habove]
          | some m =>
              simp only [Option.map_some, Option.getD_some]
              split_ifs <;> rfl
        · have hsingle : [a].filter (fun a => decide (start < score a)) = [] := by
            simp [habove]
          rw [hsingle, List.append_nil, if_neg]
          cases hbest : List.argmax score (l.filter (fun a => decide (start < score a))) with
          | none =>
              exact habove
          | some m =>
              have hm := (List.mem_filter.1 (List.argmax_mem hbest)).2
              rw [decide_eq_true_eq] at hm
              simp only [Option.map_some, Option.getD_some]
              exact fun hlt => habove (hm.trans hlt)
  rw [hinv l]

end Choice

end Tally
end CertRelay
