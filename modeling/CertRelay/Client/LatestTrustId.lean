import Mathlib.Tactic.Linarith
import CertRelay.Lib.Tally
import CertRelay.Lib.Text
import CertRelay.Relay.SyncPage

/-!
# The latest trust id

A client asks its seeds for the root and height of their newest anchor set and follows
the reply given most often.  The Rust client counts replies by the pair of root and
height and takes a maximum of votes, then height.  The other clients key their votes by
the text `root:height` and fold both numbers into one score.

A seed that does not answer, or sends no root, casts no vote.

**Results.**
* `isMajority_iff_rust`: the majority votes are the ones the Rust client may choose;
* `mem_votes`: the votes a client counts are those of the replies;
* `picksMajority_iff`: a client picks the majority, in every order of iteration, exactly
  if every reply without a majority yields to one with a majority;
* `weight_lt_iff`: with exact arithmetic, a reply weighs less exactly if its height leads
  by less than a million for each seed it lacks.
-/

namespace CertRelay
namespace LatestTrustId

open Tally

/-- What one seed reports. -/
structure Reply where
  seed : String
  root : String
  height : UInt32

section Rust

/-- The vote of the Rust client: the seeds of a pair of root and height. -/
abbrev RustVote := (String × Nat) × List String

def rustVotes (replies : List Reply) : List RustVote :=
  tally (replies.map (fun r => ((r.root, r.height.toNat), r.seed)))

/-- `(peers.len(), *height)`, compared lexicographically. -/
def rustRank (v : RustVote) : ℕ ×ₗ ℕ :=
  toLex (v.2.length, v.1.2)

/-- The vote `fetch_latest_trust_id` of the Rust client goes by: the last maximum of
the iteration. -/
def rustChoice (order : HashOrder RustVote) (replies : List Reply) : Option RustVote :=
  lastBest rustRank (order.arrange (rustVotes replies))

/-- The pair of root and height has the most votes and, of such pairs, the greatest
height. -/
def IsMajority (replies : List Reply) (choice : String × Nat) : Prop :=
  ∃ v ∈ rustVotes replies, v.1 = choice ∧ ∀ w ∈ rustVotes replies, rustRank w ≤ rustRank v

instance (replies : List Reply) (choice : String × Nat) :
    Decidable (IsMajority replies choice) :=
  inferInstanceAs (Decidable (∃ v ∈ rustVotes replies, _))

/-- **The majority votes are the ones the Rust client may choose.** -/
theorem isMajority_iff_rust
    {replies : List Reply}
    {choice : String × Nat} :
    IsMajority replies choice ↔
      ∃ order peers, rustChoice order replies = some (choice, peers) := by
  constructor
  · rintro ⟨v, hv, rfl, hmax⟩
    -- an iteration that comes to the vote last
    let order : HashOrder RustVote :=
      ⟨fun l => if v ∈ l then l.erase v ++ [v] else l, fun l => by
        split_ifs with hmem
        · exact (List.perm_append_singleton _ _).trans (List.perm_cons_erase hmem).symm
        · exact List.Perm.refl l⟩
    refine ⟨order, v.2, ?_⟩
    have harrange : order.arrange (rustVotes replies) = (rustVotes replies).erase v ++ [v] :=
      if_pos hv
    unfold rustChoice
    rw [harrange]
    exact lastBest_concat fun a ha => hmax a (List.mem_of_mem_erase ha)
  · rintro ⟨order, peers, hchoice⟩
    obtain ⟨hmem, hmax⟩ := lastBest_mem hchoice
    exact ⟨_, order.mem_arrange.1 hmem, rfl, fun w hw => hmax w (order.mem_arrange.2 hw)⟩

end Rust

section Bindings

/-- The clients in other languages. -/
inductive Binding
  | js
  | go
  | python
  | kotlin
  | swift
deriving DecidableEq

/-- The height a client reads; `toIntOrNull` knows 32-bit integers only. -/
def readHeight (b : Binding) (height : UInt32) : Nat :=
  match b with
  | .kotlin => if height.toNat < 2 ^ 31 then height.toNat else 0
  | _ => height.toNat

/-- An empty root is no reply, except to the Swift client. -/
def countsRoot (b : Binding) (root : String) : Bool :=
  match b with
  | .swift => true
  | _ => root != ""

/-- The key `root:height`. -/
def voteKey (root : String) (height : Nat) : String :=
  root ++ ":" ++ height.repr

/-- A vote: its key and, for each reply, the height and the seed. -/
abbrev Vote := String × List (Nat × String)

/-- The height recorded when the vote was entered. -/
def voteHeight (v : Vote) : Nat :=
  (v.2.head?.map Prod.fst).getD 0

/-- The seeds of a vote. -/
def votePeers (v : Vote) : List String :=
  v.2.map Prod.snd

/-- The root a client reads back: the key up to the first colon. -/
def voteRoot (v : Vote) : String :=
  String.ofList (v.1.toList.takeWhile (fun c => c != ':'))

/-- The map of votes a client fills. -/
def votes (b : Binding) (replies : List Reply) : List Vote :=
  tally ((replies.filter (fun r => countsRoot b r.root)).map (fun r =>
    (voteKey r.root (readHeight b r.height), (readHeight b r.height, r.seed))))

/-- The maps of Go and Swift have no order of their own. -/
def iterate (b : Binding) (order : HashOrder Vote) (vs : List Vote) : List Vote :=
  match b with
  | .go => order.arrange vs
  | .swift => order.arrange vs
  | _ => vs

/-- `votes * 1_000_000 + height`, in 32 bits in Kotlin.  Elsewhere the numbers are exact:
as many seeds as fit in memory stay below the precision of a double and below 63 bits. -/
def score (b : Binding) (v : Vote) : ℤ :=
  match b with
  | .kotlin => ((votePeers v).length * 1000000 + voteHeight v : ℤ).bmod (2 ^ 32)
  | _ => (votePeers v).length * 1000000 + voteHeight v

/-- The vote a client goes by: `max(by:)` in Swift, elsewhere a loop that starts from a
best score of `-1`. -/
def choose (b : Binding) (order : HashOrder Vote) (replies : List Reply) : Option Vote :=
  let vs := iterate b order (votes b replies)
  match b with
  | .swift => firstBest (score b) vs
  | _ => (vs.foldl (keepBest (score b)) (none, -1)).1

/-- `fetchLatestTrustId`: the root and the seeds to fetch it from. -/
def fetchLatestTrustId (b : Binding) (order : HashOrder Vote) (replies : List Reply) :
    Except String (String × List String) :=
  match choose b order replies with
  | some v => .ok (voteRoot v, votePeers v)
  | none => .error "no peers available"

/-- The client chooses a majority vote, or fails when there is no vote at all. -/
def PicksMajority (b : Binding) (order : HashOrder Vote) (replies : List Reply) : Prop :=
  (∃ v, choose b order replies = some v ∧ IsMajority replies (voteRoot v, voteHeight v)) ∨
    (replies = [] ∧ choose b order replies = none)

/-- The votes a client can choose, in the order in which it comes to them. -/
def candidates (b : Binding) (order : HashOrder Vote) (replies : List Reply) : List Vote :=
  (iterate b order (votes b replies)).filter (fun v =>
    decide (b = .swift ∨ -1 < score b v))

/-- A majority vote has a higher score than each other vote, or the same score and an
earlier place. -/
def MajorityOutscores (b : Binding) (order : HashOrder Vote) (replies : List Reply) : Prop :=
  ∃ m ∈ candidates b order replies, IsMajority replies (voteRoot m, voteHeight m) ∧
    ∀ a ∈ candidates b order replies, ¬ IsMajority replies (voteRoot a, voteHeight a) →
      Beats (score b) (candidates b order replies) m a

/-- Every client takes the first of the best candidates. -/
theorem choose_eq
    (b : Binding)
    (order : HashOrder Vote)
    (replies : List Reply) :
    choose b order replies = firstBest (score b) (candidates b order replies) := by
  unfold choose candidates
  cases b <;> simp [foldl_keepBest]

@[simp] theorem mem_iterate
    (b : Binding)
    (order : HashOrder Vote)
    {vs : List Vote}
    {v : Vote} :
    v ∈ iterate b order vs ↔ v ∈ vs := by
  cases b <;> simp [iterate]

/-- Without replies there is no candidate. -/
theorem candidates_nil
    (b : Binding)
    (order : HashOrder Vote) :
    candidates b order [] = [] := by
  rw [List.eq_nil_iff_forall_not_mem]
  intro v hv
  have hvote := (mem_iterate b order).1 (List.mem_of_mem_filter hv)
  simp [votes, tally] at hvote

/-- A client chooses a majority vote exactly if one of them outscores every other vote. -/
theorem picksMajority_iff_outscores
    (b : Binding)
    (order : HashOrder Vote)
    (replies : List Reply) :
    PicksMajority b order replies ↔ replies = [] ∨ MajorityOutscores b order replies := by
  have hchoice : (∃ v, choose b order replies = some v ∧
        IsMajority replies (voteRoot v, voteHeight v)) ↔
      MajorityOutscores b order replies := by
    rw [choose_eq]
    unfold MajorityOutscores
    exact firstBest_iff
  unfold PicksMajority
  rw [hchoice]
  constructor
  · rintro (houtscores | ⟨hnil, _⟩)
    · exact Or.inr houtscores
    · exact Or.inl hnil
  · rintro (rfl | houtscores)
    · exact Or.inr ⟨rfl, by rw [choose_eq, candidates_nil, firstBest_eq_none]⟩
    · exact Or.inl houtscores

end Bindings

section Replies

/-- The replies a client counts. -/
def counted (b : Binding) (replies : List Reply) : List Reply :=
  replies.filter (fun r => countsRoot b r.root)

/-- What a client reads in a reply. -/
def readAs (b : Binding) (r : Reply) : String × Nat :=
  (r.root, readHeight b r.height)

/-- What a client returns when it goes by a reply: its root is cut at a colon. -/
def takenAs (b : Binding) (r : Reply) : String × Nat :=
  (String.ofList (r.root.toList.takeWhile (fun c => c != ':')), readHeight b r.height)

/-- The number of seeds that reply the same. -/
def backers (b : Binding) (replies : List Reply) (r : Reply) : Nat :=
  (counted b replies).countP (fun r' => decide (readAs b r' = readAs b r))

/-- A million for each backer and the height; in Kotlin in 32 bits. -/
def weight (b : Binding) (replies : List Reply) (r : Reply) : ℤ :=
  match b with
  | .kotlin => (backers b replies r * 1000000 + readHeight b r.height : ℤ).bmod (2 ^ 32)
  | _ => backers b replies r * 1000000 + readHeight b r.height

/-- The same was replied as in `m` before the same was replied as in `a`. -/
def HeardBefore (b : Binding) (replies : List Reply) (m a : Reply) : Prop :=
  Precedes ((counted b replies).map (readAs b)) (readAs b m) (readAs b a)

/-- A reply weighs less than `m`; or as much, if it was heard later by a client whose map
keeps the order of insertion. -/
def Yields (b : Binding) (replies : List Reply) (m a : Reply) : Prop :=
  weight b replies a < weight b replies m ∨
    (b ≠ .go ∧ b ≠ .swift ∧ weight b replies a = weight b replies m ∧
      HeardBefore b replies m a)

/-- Every reply without a majority yields to one with a majority, whose weight is not
negative (in Kotlin it may be). -/
def MinorityYields (b : Binding) (replies : List Reply) : Prop :=
  ∃ m ∈ counted b replies, IsMajority replies (takenAs b m) ∧
    (b = .swift ∨ -1 < weight b replies m) ∧
    ∀ a ∈ counted b replies, ¬ IsMajority replies (takenAs b a) → Yields b replies m a

variable {b : Binding} {replies : List Reply}

/-- A key is the root and the height it is made of. -/
theorem voteKey_inj
    {root root' : String}
    {height height' : Nat} :
    voteKey root height = voteKey root' height' ↔ root = root' ∧ height = height' := by
  constructor
  · intro h
    have hcolon : ∀ n : Nat, ':' ∉ Nat.toDigits 10 n := fun n hmem =>
      absurd (Nat.isDigit_of_mem_toDigits (by decide) (by decide) hmem) (by decide)
    have hlist := congrArg String.toList h
    simp only [voteKey, String.toList_append, Nat.toList_repr] at hlist
    have hsplit : root.toList ++ ':' :: Nat.toDigits 10 height =
        root'.toList ++ ':' :: Nat.toDigits 10 height' := by
      simpa using hlist
    obtain ⟨hroot, hdigits⟩ := Text.append_cons_inj (hcolon height) (hcolon height') hsplit
    refine ⟨String.toList_inj.1 hroot, ?_⟩
    rw [← Nat.ofDigitChars_toDigits (n := height) (by decide : 1 < 10) (by decide), hdigits,
      Nat.ofDigitChars_toDigits (by decide) (by decide)]
  · rintro ⟨rfl, rfl⟩
    rfl

/-- The key of a reply's vote. -/
def keyOf (b : Binding) (r : Reply) : String :=
  voteKey r.root (readHeight b r.height)

theorem keyOf_inj
    {r r' : Reply} :
    keyOf b r = keyOf b r' ↔ readAs b r = readAs b r' := by
  unfold keyOf readAs
  rw [voteKey_inj, Prod.mk.injEq]

/-- The entry of a reply in the map of votes. -/
def entryOf (b : Binding) (r : Reply) : String × (Nat × String) :=
  (keyOf b r, (readHeight b r.height, r.seed))

/-- The vote that a reply is counted for. -/
def voteOf (b : Binding) (replies : List Reply) (r : Reply) : Vote :=
  (keyOf b r, ballots (keyOf b r) ((counted b replies).map (entryOf b)))

theorem votes_eq
    (b : Binding)
    (replies : List Reply) :
    votes b replies = tally ((counted b replies).map (entryOf b)) := by
  rfl

/-- The ballots of a reply's vote are the replies that read the same. -/
theorem ballots_keyOf
    (b : Binding)
    (replies : List Reply)
    (r : Reply) :
    ballots (keyOf b r) ((counted b replies).map (entryOf b)) =
      ((counted b replies).filter (fun r' => decide (readAs b r' = readAs b r))).map
        (fun r' => (readHeight b r'.height, r'.seed)) := by
  unfold ballots
  rw [List.filter_map, List.map_map]
  congr 1
  apply List.filter_congr
  intro r' _
  exact decide_eq_decide.2 keyOf_inj

/-- **The votes are those of the replies.** -/
theorem mem_votes
    {v : Vote} :
    v ∈ votes b replies ↔ ∃ r ∈ counted b replies, voteOf b replies r = v := by
  obtain ⟨k, xs⟩ := v
  rw [votes_eq, mem_tally]
  constructor
  · rintro ⟨rfl, hne⟩
    obtain ⟨x, hx⟩ := List.exists_mem_of_ne_nil _ hne
    obtain ⟨e, he, _⟩ := List.mem_map.1 hx
    obtain ⟨hmem, hkey⟩ := List.mem_filter.1 he
    obtain ⟨r, hr, rfl⟩ := List.mem_map.1 hmem
    have hk : keyOf b r = k := of_decide_eq_true hkey
    exact ⟨r, hr, by rw [voteOf, hk]⟩
  · rintro ⟨r, hr, h⟩
    cases h
    refine ⟨rfl, ?_⟩
    rw [ballots_keyOf, Ne, List.map_eq_nil_iff, List.filter_eq_nil_iff]
    intro hnone
    exact hnone r hr (decide_eq_true rfl)

theorem length_votePeers_voteOf
    (b : Binding)
    (replies : List Reply)
    (r : Reply) :
    (votePeers (voteOf b replies r)).length = backers b replies r := by
  unfold votePeers voteOf backers
  rw [ballots_keyOf, List.length_map, List.length_map, List.countP_eq_length_filter]

theorem voteHeight_voteOf
    {r : Reply}
    (hr : r ∈ counted b replies) :
    voteHeight (voteOf b replies r) = readHeight b r.height := by
  unfold voteHeight voteOf
  rw [ballots_keyOf]
  cases hfilter : (counted b replies).filter (fun r' => decide (readAs b r' = readAs b r)) with
  | nil =>
      rw [List.filter_eq_nil_iff] at hfilter
      exact absurd (decide_eq_true rfl) (hfilter r hr)
  | cons r' rest =>
      have hmem : r' ∈ (counted b replies).filter
          (fun r' => decide (readAs b r' = readAs b r)) := by
        rw [hfilter]
        exact List.mem_cons_self
      have hsame : readAs b r' = readAs b r := of_decide_eq_true (List.mem_filter.1 hmem).2
      exact (Prod.mk.inj hsame).2

theorem voteRoot_voteOf
    (b : Binding)
    (replies : List Reply)
    (r : Reply) :
    voteRoot (voteOf b replies r) = (takenAs b r).1 := by
  have hkey : (keyOf b r).toList =
      r.root.toList ++ ':' :: (readHeight b r.height).repr.toList := by
    simp [keyOf, voteKey]
  show String.ofList ((keyOf b r).toList.takeWhile (fun c => c != ':')) = _
  rw [hkey, Text.takeWhile_append_cons]
  rfl

/-- What a client returns for the vote of a reply. -/
theorem taken_voteOf
    {r : Reply}
    (hr : r ∈ counted b replies) :
    (voteRoot (voteOf b replies r), voteHeight (voteOf b replies r)) = takenAs b r := by
  rw [voteRoot_voteOf, voteHeight_voteOf hr]
  rfl

theorem score_voteOf
    {r : Reply}
    (hr : r ∈ counted b replies) :
    score b (voteOf b replies r) = weight b replies r := by
  unfold score weight
  rw [length_votePeers_voteOf, voteHeight_voteOf hr]

/-- Votes come in the order in which they were first heard. -/
theorem precedes_votes
    {m a : Reply}
    (hm : m ∈ counted b replies)
    (ha : a ∈ counted b replies) :
    Precedes (votes b replies) (voteOf b replies m) (voteOf b replies a) ↔
      HeardBefore b replies m a := by
  have hkeys : ((counted b replies).map (entryOf b)).map Prod.fst =
      ((counted b replies).map (readAs b)).map (fun p => voteKey p.1 p.2) := by
    rw [List.map_map, List.map_map]
    rfl
  have hinj : ∀ p q : String × Nat, voteKey p.1 p.2 = voteKey q.1 q.2 → p = q := by
    intro p q h
    exact Prod.ext_iff.2 (voteKey_inj.1 h)
  have hmem : ∀ {r}, r ∈ counted b replies →
      voteOf b replies r ∈ tally ((counted b replies).map (entryOf b)) :=
    fun hr => mem_votes.2 ⟨_, hr, rfl⟩
  have hmap := precedes_map (f := fun p : String × Nat => voteKey p.1 p.2)
    (l := (counted b replies).map (readAs b)) (fun z _ => hinj z (readAs b m))
    (fun z _ => hinj z (readAs b a))
  rw [votes_eq, precedes_tally (hmem hm) (hmem ha), hkeys]
  exact hmap

/-- The order of iteration in which votes without a majority come first. -/
def minorityFirst (replies : List Reply) : HashOrder Vote where
  arrange l :=
    l.filter (fun v => !decide (IsMajority replies (voteRoot v, voteHeight v))) ++
      l.filter (fun v => decide (IsMajority replies (voteRoot v, voteHeight v)))
  perm l := List.perm_append_comm.trans (List.filter_append_perm _ l)

theorem mem_candidates
    {order : HashOrder Vote}
    {r : Reply}
    (hr : r ∈ counted b replies) :
    voteOf b replies r ∈ candidates b order replies ↔
      b = .swift ∨ -1 < weight b replies r := by
  unfold candidates
  rw [List.mem_filter, mem_iterate, score_voteOf hr, decide_eq_true_eq, and_iff_right_iff_imp]
  exact fun _ => mem_votes.2 ⟨r, hr, rfl⟩

/-- Candidates come in the order of the iteration. -/
theorem precedes_candidates_iff
    {order : HashOrder Vote}
    {v w : Vote}
    (hv : v ∈ candidates b order replies)
    (hw : w ∈ candidates b order replies) :
    Precedes (candidates b order replies) v w ↔
      Precedes (iterate b order (votes b replies)) v w :=
  precedes_filter (p := fun v => decide (b = .swift ∨ -1 < score b v))
    (List.mem_filter.1 hv).2 (List.mem_filter.1 hw).2 _

/-- Where the map keeps the order of insertion, candidates come in the order in which they
were first heard. -/
theorem precedes_candidates
    (hgo : b ≠ .go)
    (hswift : b ≠ .swift)
    (order : HashOrder Vote)
    {m a : Reply}
    (hm : m ∈ counted b replies)
    (ha : a ∈ counted b replies)
    (hmc : voteOf b replies m ∈ candidates b order replies)
    (hac : voteOf b replies a ∈ candidates b order replies) :
    Precedes (candidates b order replies) (voteOf b replies m) (voteOf b replies a) ↔
      HeardBefore b replies m a := by
  have hiterate : iterate b order (votes b replies) = votes b replies := by
    cases b with
    | go =>
        exact absurd rfl hgo
    | swift =>
        exact absurd rfl hswift
    | _ =>
        rfl
  rw [precedes_candidates_iff hmc hac, hiterate, precedes_votes hm ha]

/-- In every order of iteration, a reply outscores those that yield to it. -/
theorem beats_of_yields
    (order : HashOrder Vote)
    {m a : Reply}
    (hm : m ∈ counted b replies)
    (ha : a ∈ counted b replies)
    (hmc : voteOf b replies m ∈ candidates b order replies)
    (hac : voteOf b replies a ∈ candidates b order replies)
    (h : Yields b replies m a) :
    Beats (score b) (candidates b order replies) (voteOf b replies m) (voteOf b replies a) := by
  unfold Beats
  rw [score_voteOf hm, score_voteOf ha]
  rcases h with hlt | ⟨hgo, hswift, heq, hbefore⟩
  · exact Or.inl hlt
  · exact Or.inr ⟨heq, (precedes_candidates hgo hswift order hm ha hmc hac).2 hbefore⟩

/-- With the minority first, it outscores no others. -/
theorem yields_of_beats
    {m a : Reply}
    (hm : m ∈ counted b replies)
    (ha : a ∈ counted b replies)
    (hmc : voteOf b replies m ∈ candidates b (minorityFirst replies) replies)
    (hac : voteOf b replies a ∈ candidates b (minorityFirst replies) replies)
    (hmajority : IsMajority replies (takenAs b m))
    (hminority : ¬ IsMajority replies (takenAs b a))
    (h : Beats (score b) (candidates b (minorityFirst replies) replies) (voteOf b replies m)
      (voteOf b replies a)) :
    Yields b replies m a := by
  unfold Beats at h
  rw [score_voteOf hm, score_voteOf ha] at h
  rcases h with hlt | ⟨heq, hprecedes⟩
  · exact Or.inl hlt
  · by_cases hkeeps : b ≠ .go ∧ b ≠ .swift
    · exact Or.inr ⟨hkeeps.1, hkeeps.2, heq,
        (precedes_candidates hkeeps.1 hkeeps.2 _ hm ha hmc hac).1 hprecedes⟩
    · exfalso
      have hiterate : iterate b (minorityFirst replies) (votes b replies) =
          (minorityFirst replies).arrange (votes b replies) := by
        cases b with
        | go =>
            rfl
        | swift =>
            rfl
        | _ =>
            exact absurd ⟨by decide, by decide⟩ hkeeps
      rw [precedes_candidates_iff hmc hac, hiterate] at hprecedes
      refine not_precedes_append ?_ ?_ hprecedes
      · rw [List.mem_filter, taken_voteOf hm]
        simp [hmajority]
      · rw [List.mem_filter, taken_voteOf ha]
        exact ⟨mem_votes.2 ⟨a, ha, rfl⟩, by simp [hminority]⟩

/-- **A client picks the majority in every order of iteration exactly if the minority
yields.** -/
theorem picksMajority_iff
    (b : Binding)
    (replies : List Reply) :
    (∀ order, PicksMajority b order replies) ↔ replies = [] ∨ MinorityYields b replies := by
  constructor
  · intro h
    refine ((picksMajority_iff_outscores b (minorityFirst replies) replies).1 (h _)).imp_right ?_
    rintro ⟨v, hv, hmajority, hbeats⟩
    obtain ⟨m, hm, rfl⟩ := mem_votes.1 ((mem_iterate b _).1 (List.mem_of_mem_filter hv))
    rw [taken_voteOf hm] at hmajority
    have hpositive := (mem_candidates hm).1 hv
    refine ⟨m, hm, hmajority, hpositive, fun a ha hminority => ?_⟩
    by_cases hac : voteOf b replies a ∈ candidates b (minorityFirst replies) replies
    · apply yields_of_beats hm ha hv hac hmajority hminority
      exact hbeats _ hac (by rwa [taken_voteOf ha])
    · rw [mem_candidates ha, not_or] at hac
      have hlt := hpositive.resolve_left hac.1
      exact Or.inl (lt_of_le_of_lt (not_lt.1 hac.2) hlt)
  · rintro h order
    refine (picksMajority_iff_outscores b order replies).2 (h.imp_right ?_)
    rintro ⟨m, hm, hmajority, hpositive, hyields⟩
    have hmc : voteOf b replies m ∈ candidates b order replies := (mem_candidates hm).2 hpositive
    refine ⟨voteOf b replies m, hmc, by rwa [taken_voteOf hm], fun v hv hminority => ?_⟩
    obtain ⟨a, ha, rfl⟩ := mem_votes.1 ((mem_iterate b order).1 (List.mem_of_mem_filter hv))
    rw [taken_voteOf ha] at hminority
    exact beats_of_yields order hm ha hmc hv (hyields a ha hminority)

/-- Outside Kotlin, a reply weighs less exactly if its height leads by less than a million
for each backer it lacks. -/
theorem weight_lt_iff
    (hb : b ≠ .kotlin)
    (a m : Reply) :
    weight b replies a < weight b replies m ↔
      (readHeight b a.height : ℤ) - readHeight b m.height <
        1000000 * ((backers b replies m : ℤ) - backers b replies a) := by
  have hweight : ∀ r, weight b replies r =
      (backers b replies r : ℤ) * 1000000 + readHeight b r.height := by
    intro r
    cases b with
    | kotlin =>
        exact absurd rfl hb
    | _ =>
        rfl
  rw [hweight, hweight]
  constructor <;> intro h <;> linarith

end Replies
/-- Two seeds agree on one root; a third reports another of a far greater height. -/
def outvotedReplies : List Reply :=
  [⟨"https://a", "aa", 900000⟩, ⟨"https://b", "aa", 900000⟩, ⟨"https://c", "bb", 5000000⟩]

/-- One seed outvotes two. -/
theorem outvoted_by_height :
    ¬ ∀ (b : Binding) (order : HashOrder Vote) (replies : List Reply),
      PicksMajority b order replies := by
  intro h
  rcases h .js HashOrder.inserted outvotedReplies with ⟨v, hv, hmajority⟩ | ⟨hnil, _⟩
  · have hchoice : choose .js HashOrder.inserted outvotedReplies =
        some ("bb:5000000", [(5000000, "https://c")]) := by
      decide
    rw [hchoice, Option.some.injEq] at hv
    subst hv
    exact absurd hmajority (by decide)
  · exact absurd hnil (by decide)

end LatestTrustId
end CertRelay
