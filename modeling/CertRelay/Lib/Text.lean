import Mathlib.Data.List.DropRight
import Mathlib.Tactic.SplitIfs

/-!
# Text

Trimming of texts at either end, texts cut at a separator, and texts joined by one.

**Results.**
* `append_cons_inj`: where a separator occurs last fixes both parts;
* `takeWhile_append_cons`: what precedes the first separator;
* `trimMatches_eq_self`: trimming a text without such characters does not change it;
* `splitOnce_eq_some_iff`: a text cut at its first separator;
* `split_join`: parts without the separator are found again;
* `mem_join`: what joined parts consist of;
* `isEmpty_join`: parts that are not empty make a text that is not.
-/

namespace CertRelay
namespace Text

/-- Characters with the Unicode property `White_Space`. -/
def isWhitespace (c : Char) : Bool :=
  (0x9 ≤ c.toNat && c.toNat ≤ 0xD) || (0x2000 ≤ c.toNat && c.toNat ≤ 0x200A) ||
    c.toNat ∈ [0x20, 0x85, 0xA0, 0x1680, 0x2028, 0x2029, 0x202F, 0x205F, 0x3000]

/-- Drop the characters at the end that satisfy `p`. -/
def trimEndMatches (p : Char → Bool) (s : String) : String :=
  String.ofList (s.toList.rdropWhile p)

/-- Drop the characters at both ends that satisfy `p`. -/
def trimMatches (p : Char → Bool) (s : String) : String :=
  trimEndMatches p (String.ofList (s.toList.dropWhile p))

/-- Drop the white space at both ends. -/
def trim (s : String) : String :=
  trimEndMatches isWhitespace (String.ofList (s.toList.dropWhile isWhitespace))

universe u

variable {α : Type u} {c : α}

/-- Without the separator in the second part, both parts are determined. -/
theorem append_cons_inj
    {l l' r r' : List α}
    (hr : c ∉ r)
    (hr' : c ∉ r')
    (h : l ++ c :: r = l' ++ c :: r') :
    l = l' ∧ r = r' := by
  rcases List.append_eq_append_iff.1 h with ⟨d, rfl, hd⟩ | ⟨d, rfl, hd⟩
  · cases d with
    | nil =>
        exact ⟨(List.append_nil l).symm, (List.cons.inj hd).2⟩
    | cons x d =>
        rw [(List.cons.inj hd).2] at hr
        simp at hr
  · cases d with
    | nil =>
        exact ⟨List.append_nil l', (List.cons.inj hd).2.symm⟩
    | cons x d =>
        rw [(List.cons.inj hd).2] at hr'
        simp at hr'

theorem takeWhile_append_cons
    [DecidableEq α]
    (l r : List α) :
    (l ++ c :: r).takeWhile (fun x => x != c) = l.takeWhile (fun x => x != c) := by
  induction l with
  | nil =>
      simp
  | cons x l ih =>
      by_cases hx : x = c
      · simp [hx]
      · simp [hx, ih]

/-- A text without characters to drop is trimmed already. -/
theorem trimMatches_eq_self
    {p : Char → Bool}
    {s : String}
    (h : ∀ x ∈ s.toList, p x = false) :
    trimMatches p s = s := by
  have hfront : s.toList.dropWhile p = s.toList := by
    cases hs : s.toList with
    | nil =>
        rfl
    | cons x l =>
        exact List.dropWhile_cons_of_neg (by simp [h x (hs ▸ List.mem_cons_self)])
  have hback : s.toList.rdropWhile p = s.toList :=
    List.rdropWhile_eq_self_iff.2 (fun hne => by simp [h _ (List.getLast_mem hne)])
  unfold trimMatches trimEndMatches
  rw [hfront, String.ofList_toList, hback, String.ofList_toList]

theorem trim_eq_self
    {s : String}
    (h : ∀ x ∈ s.toList, isWhitespace x = false) :
    trim s = s :=
  trimMatches_eq_self h

section Splitting

/-- What follows a prefix. -/
def stripPrefix (start s : String) : Option String :=
  if start.toList.isPrefixOf s.toList then some (String.ofList (s.toList.drop start.length))
  else none

/-- The parts of a text between separators: one more than there are separators. -/
def split (c : Char) (s : String) : List String :=
  (s.toList.splitOn c).map String.ofList

/-- The parts with a separator between each two. -/
def join (c : Char) (parts : List String) : String :=
  String.ofList ([c].intercalate (parts.map String.toList))

/-- What is before and after the first separator. -/
def cutOnce [DecidableEq α] (c : α) : List α → Option (List α × List α)
  | [] => none
  | x :: l => if x = c then some ([], l) else (cutOnce c l).map (fun p => (x :: p.1, p.2))

/-- A text cut at the first separator. -/
def splitOnce (c : Char) (s : String) : Option (String × String) :=
  (cutOnce c s.toList).map (fun p => (String.ofList p.1, String.ofList p.2))

/-- A text cut at the first separators, into at most `n` parts. -/
def splitN (c : Char) : ℕ → String → List String
  | 0, _ => []
  | 1, s => [s]
  | n + 2, s =>
      match splitOnce c s with
      | some (part, rest) => part :: splitN c (n + 1) rest
      | none => [s]

/-- What follows a prefix that was put there. -/
theorem stripPrefix_append
    (start s : String) :
    stripPrefix start (start ++ s) = some s := by
  have hstart : start.toList.isPrefixOf (start.toList ++ s.toList) :=
    List.isPrefixOf_iff_prefix.2 (List.prefix_append _ _)
  unfold stripPrefix
  rw [String.toList_append, if_pos hstart, ← String.length_toList, List.drop_left,
    String.ofList_toList]

theorem cutOnce_eq_some_iff
    [DecidableEq α]
    {l a b : List α} :
    cutOnce c l = some (a, b) ↔ c ∉ a ∧ l = a ++ c :: b := by
  induction l generalizing a with
  | nil =>
      simp [cutOnce]
  | cons x l ih =>
      unfold cutOnce
      split_ifs with hx
      · subst hx
        cases a with
        | nil =>
            simp [eq_comm]
        | cons y a =>
            refine iff_of_false (by simp) ?_
            rintro ⟨hnot, heq⟩
            exact hnot ((List.cons.inj heq).1 ▸ List.mem_cons_self)
      · rw [Option.map_eq_some_iff]
        constructor
        · rintro ⟨⟨a', b'⟩, hcut, heq⟩
          cases heq
          obtain ⟨hnot, rfl⟩ := ih.1 hcut
          exact ⟨fun hmem => (List.mem_cons.1 hmem).elim (fun h => hx h.symm) hnot, rfl⟩
        · rintro ⟨hnot, heq⟩
          cases a with
          | nil =>
              exact absurd (List.cons.inj heq).1 hx
          | cons y a =>
              obtain ⟨rfl, rfl⟩ := List.cons.inj heq
              exact ⟨(a, b), ih.2 ⟨fun hmem => hnot (List.mem_cons_of_mem _ hmem), rfl⟩, rfl⟩

theorem cutOnce_eq_none_iff
    [DecidableEq α]
    {l : List α} :
    cutOnce c l = none ↔ c ∉ l := by
  induction l with
  | nil =>
      simp [cutOnce]
  | cons x l ih =>
      unfold cutOnce
      split_ifs with hx
      · simp [hx]
      · simp [ih, Ne.symm hx]

/-- **A text cut at its first separator.** -/
theorem splitOnce_eq_some_iff
    {c : Char}
    {s a b : String} :
    splitOnce c s = some (a, b) ↔ c ∉ a.toList ∧ s.toList = a.toList ++ c :: b.toList := by
  unfold splitOnce
  rw [← cutOnce_eq_some_iff, Option.map_eq_some_iff]
  constructor
  · rintro ⟨⟨x, y⟩, hcut, heq⟩
    cases heq
    rw [String.toList_ofList, String.toList_ofList, hcut]
  · intro hcut
    exact ⟨_, hcut, by rw [String.ofList_toList, String.ofList_toList]⟩

theorem splitOnce_eq_none_iff
    {c : Char}
    {s : String} :
    splitOnce c s = none ↔ c ∉ s.toList := by
  unfold splitOnce
  rw [Option.map_eq_none_iff, cutOnce_eq_none_iff]

/-- **Parts without the separator are found again.** -/
theorem split_join
    {c : Char}
    {parts : List String}
    (hparts : ∀ p ∈ parts, c ∉ p.toList)
    (hne : parts ≠ []) :
    split c (join c parts) = parts := by
  unfold split join
  rw [String.toList_ofList, List.splitOn_intercalate c (by simpa using hparts) (by simpa using hne),
    List.map_map]
  simp

/-- A text without separators is its only part. -/
theorem split_eq_singleton
    {c : Char}
    {s : String}
    (h : c ∉ s.toList) :
    split c s = [s] := by
  unfold split
  rw [List.splitOn_eq_singleton h, List.map_singleton, String.ofList_toList]

theorem mem_intercalate
    {sep x : α}
    {parts : List (List α)}
    (h : x ∈ [sep].intercalate parts) :
    x = sep ∨ ∃ part ∈ parts, x ∈ part := by
  induction parts with
  | nil =>
      cases h
  | cons part parts ih =>
      cases parts with
      | nil =>
          rw [List.intercalate_singleton] at h
          exact .inr ⟨part, List.mem_cons_self, h⟩
      | cons next parts =>
          rw [List.intercalate_cons_cons, List.append_assoc] at h
          rcases List.mem_append.1 h with hpart | hrest
          · exact .inr ⟨part, List.mem_cons_self, hpart⟩
          · rcases List.mem_append.1 hrest with hsep | hrest
            · exact .inl (List.mem_singleton.1 hsep)
            · rcases ih hrest with hsep | ⟨part', hpart', hx⟩
              · exact .inl hsep
              · exact .inr ⟨part', List.mem_cons_of_mem _ hpart', hx⟩

/-- A character of joined parts is the separator or one of a part. -/
theorem mem_join
    {sep c : Char}
    {parts : List String}
    (h : c ∈ (join sep parts).toList) :
    c = sep ∨ ∃ part ∈ parts, c ∈ part.toList := by
  unfold join at h
  rw [String.toList_ofList] at h
  refine (mem_intercalate h).imp_right (fun hpart => ?_)
  obtain ⟨_, hmem, hc⟩ := hpart
  obtain ⟨part, hpart, rfl⟩ := List.mem_map.1 hmem
  exact ⟨part, hpart, hc⟩

/-- Parts that are not empty make a text that is not. -/
theorem isEmpty_join
    {c : Char}
    {parts : List String}
    (hparts : ∀ p ∈ parts, p ≠ "")
    (hne : parts ≠ []) :
    (join c parts).isEmpty = false := by
  obtain ⟨p, rest, rfl⟩ := List.exists_cons_of_ne_nil hne
  have hp : p.toList ≠ [] := fun hnil =>
    hparts p List.mem_cons_self (String.toList_inj.1 hnil)
  rw [Bool.eq_false_iff]
  intro hempty
  have hnil : [c].intercalate ((p :: rest).map String.toList) = [] := by
    have htext := congrArg String.toList (String.isEmpty_iff.1 hempty)
    unfold join at htext
    rwa [String.toList_ofList] at htext
  cases rest with
  | nil =>
      exact hp (by simpa [List.intercalate] using hnil)
  | cons q rest =>
      simp [List.intercalate] at hnil

end Splitting

end Text
end CertRelay
