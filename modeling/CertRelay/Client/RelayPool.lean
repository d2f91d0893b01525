import CertRelay.Lib.Oldest
import CertRelay.Lib.Runs
import CertRelay.Client.Fabric

/-!
# Relay pools

Each binding of the client keeps the URLs of the relays it knows, with the failures it has
recorded for each.  A selection shuffles the pool and takes those with the fewest failures.
A refresh adds the URLs that are not in the pool yet; all bindings but one look them up in a
set that is made before the loop, so a URL that is new and repeated is added twice.

The shuffle is a parameter of each selection, and what the relays answer is one of each
refresh of the peers.

**Results.**
* `refresh_eq_refreshPool`: the pool that a saved state is restored to;
* `urls_step`: no URL is lost;
* `selects_shuffledUrls`: what a selection from a pool of distinct URLs is;
* `unrepeated_refreshPeers`: three bindings gather the peers in a set;
* `sound_run_iff`: when a pool holds each URL once, in every run.
-/

namespace CertRelay
namespace RelayPool

section Pools

inductive Binding
  | rust
  | go
  | python
  | js
  | kotlin
  | swift
deriving DecidableEq

/-- A URL and the failures recorded for it. -/
structure Entry where
  url : String
  failures : ℤ
deriving DecidableEq

abbrev Pool := List Entry

/-- `urls`. -/
def urls (pool : Pool) : List String :=
  pool.map Entry.url

/-- One failure more, in the integers of the language. -/
def recordFailure (b : Binding) (n : ℤ) : ℤ :=
  match b with
  | .rust => min (n + 1) (2 ^ 32 - 1)
  | .go => (n + 1).bmod (2 ^ 64)
  | .js => if n < 2 ^ 53 then n + 1 else n
  | .kotlin => (n + 1).bmod (2 ^ 32)
  | .python | .swift => n + 1

/-- Change the first entry of a URL. -/
def updateFirst (url : String) (f : ℤ → ℤ) : Pool → Pool
  | [] => []
  | e :: pool =>
      if e.url = url then { e with failures := f e.failures } :: pool
      else e :: updateFirst url f pool

/-- `mark_failed`. -/
def markFailed (b : Binding) (url : String) (pool : Pool) : Pool :=
  updateFirst url (recordFailure b) pool

/-- `mark_alive`. -/
def markAlive (url : String) (pool : Pool) : Pool :=
  updateFirst url (fun _ => 0) pool

/-- The loop of `refresh`; JavaScript alone adds to the set of existing URLs. -/
def refreshLoop (grows : Bool) : List String → Pool → List String → Pool
  | _, pool, [] => pool
  | existing, pool, url :: rest =>
      if url ∈ existing then refreshLoop grows existing pool rest
      else refreshLoop grows (if grows then url :: existing else existing)
        (pool ++ [⟨url, 0⟩]) rest

/-- `refresh`. -/
def refresh (b : Binding) (newUrls : List String) (pool : Pool) : Pool :=
  refreshLoop (b = .js) (urls pool) pool newUrls

/-- What a random shuffle does to a pool. -/
abbrev Shuffle := HashOrder Entry

/-- Up to which entry a pool of some size is read. -/
def limitOf (b : Binding) (n : ℤ) (size : ℕ) : ℕ :=
  match b with
  | .go | .python | .kotlin => if n ≤ 0 ∨ size < n then size else n.toNat
  | .js => if n < 0 then size - n.natAbs else n.toNat
  | .rust | .swift => n.toNat

/-- A stable sort by the number of failures. -/
def sortByFailures (pool : Pool) : Pool :=
  pool.insertionSort (fun x y => x.failures ≤ y.failures)

/-- `shuffled_urls`, which leaves the pool in the new order. -/
def shuffledUrls (b : Binding) (shuffle : Shuffle) (n : ℤ) (pool : Pool) :
    Pool × List String :=
  let entries := sortByFailures (shuffle.arrange pool)
  (entries, (entries.take (limitOf b n entries.length)).map Entry.url)

/-- The URLs that the relays of a pool answer with; some bindings gather them in a set. -/
def peerUrls (b : Binding) (order : HashOrder String) (answer : String → Option (List String))
    (pool : Pool) : List String :=
  let found := ((urls pool).filterMap answer).flatten
  match b with
  | .rust | .js | .swift => order.arrange found.dedup
  | .go | .python | .kotlin => found

/-- `refresh_peers`. -/
def refreshPeers (b : Binding) (order : HashOrder String)
    (answer : String → Option (List String)) (pool : Pool) : Pool :=
  refresh b (peerUrls b order answer pool) pool

/-- What is done to a pool. -/
inductive Op
  | refresh (newUrls : List String)
  | refreshPeers (order : HashOrder String) (answer : String → Option (List String))
  | markFailed (url : String)
  | markAlive (url : String)
  | select (shuffle : Shuffle) (n : ℤ)

def step (b : Binding) (pool : Pool) : Op → Pool
  | .refresh newUrls => refresh b newUrls pool
  | .refreshPeers order answer => refreshPeers b order answer pool
  | .markFailed url => markFailed b url pool
  | .markAlive url => markAlive url pool
  | .select shuffle n => (shuffledUrls b shuffle n pool).1

end Pools

section Urls

/-- The URLs that an operation offers to a pool. -/
def offered (b : Binding) (pool : Pool) : Op → List String
  | .refresh newUrls => newUrls
  | .refreshPeers order answer => peerUrls b order answer pool
  | _ => []

theorem urls_updateFirst
    (url : String)
    (f : ℤ → ℤ)
    (pool : Pool) :
    urls (updateFirst url f pool) = urls pool := by
  induction pool with
  | nil =>
      rfl
  | cons e pool ih =>
      unfold updateFirst
      split_ifs
      · rfl
      · exact congrArg (e.url :: ·) ih

theorem refreshLoop_known
    {grows : Bool}
    {existing : List String}
    {url : String}
    (hurl : url ∈ existing)
    (pool : Pool)
    (rest : List String) :
    refreshLoop grows existing pool (url :: rest) = refreshLoop grows existing pool rest :=
  if_pos hurl

theorem refreshLoop_new
    {grows : Bool}
    {existing : List String}
    {url : String}
    (hurl : url ∉ existing)
    (pool : Pool)
    (rest : List String) :
    refreshLoop grows existing pool (url :: rest) =
      refreshLoop grows (if grows then url :: existing else existing) (pool ++ [⟨url, 0⟩]) rest :=
  if_neg hurl

theorem urls_concat
    (pool : Pool)
    (url : String) :
    urls (pool ++ [⟨url, 0⟩]) = urls pool ++ [url] :=
  List.map_append

/-- With a fixed set, every URL that is not in it is added. -/
theorem refreshLoop_fixed
    (existing : List String)
    (pool : Pool)
    (newUrls : List String) :
    refreshLoop false existing pool newUrls =
      pool ++ (newUrls.filter (fun url => decide (url ∉ existing))).map (fun url => ⟨url, 0⟩) := by
  induction newUrls generalizing pool with
  | nil =>
      simp [refreshLoop]
  | cons url rest ih =>
      by_cases hurl : url ∈ existing
      · rw [refreshLoop_known hurl, ih, List.filter_cons_of_neg (by simpa using hurl)]
      · rw [refreshLoop_new hurl, if_neg Bool.false_ne_true, ih,
          List.filter_cons_of_pos (by simpa using hurl), List.append_assoc]
        rfl

theorem urls_refreshLoop_fixed
    (existing : List String)
    (pool : Pool)
    (newUrls : List String) :
    urls (refreshLoop false existing pool newUrls) =
      urls pool ++ newUrls.filter (fun url => decide (url ∉ existing)) := by
  rw [refreshLoop_fixed]
  unfold urls
  rw [List.map_append, List.map_map]
  exact congrArg _ (List.map_id _)

/-- With a set that grows along, the pool goes on with distinct URLs. -/
theorem nodup_refreshLoop_growing
    {existing : List String}
    {pool : Pool}
    (hpool : (urls pool).Nodup)
    (hsame : ∀ url, url ∈ urls pool ↔ url ∈ existing)
    (newUrls : List String) :
    (urls (refreshLoop true existing pool newUrls)).Nodup := by
  induction newUrls generalizing existing pool with
  | nil =>
      exact hpool
  | cons url rest ih =>
      by_cases hurl : url ∈ existing
      · rw [refreshLoop_known hurl]
        exact ih hpool hsame
      · rw [refreshLoop_new hurl, if_pos rfl]
        refine ih ?_ (fun u => ?_)
        · have hnew : url ∉ urls pool := mt (hsame url).1 hurl
          rw [urls_concat, ← List.concat_eq_append]
          exact hpool.concat hnew
        · rw [urls_concat, List.mem_append, hsame, List.mem_singleton, List.mem_cons, or_comm]

/-- A refresh adds what it is given to what is there. -/
theorem mem_urls_refreshLoop
    {grows : Bool}
    {existing : List String}
    {pool : Pool}
    (hsub : ∀ url ∈ existing, url ∈ urls pool)
    (newUrls : List String)
    (u : String) :
    u ∈ urls (refreshLoop grows existing pool newUrls) ↔ u ∈ urls pool ∨ u ∈ newUrls := by
  induction newUrls generalizing existing pool with
  | nil =>
      simp [refreshLoop]
  | cons url rest ih =>
      by_cases hurl : url ∈ existing
      · rw [refreshLoop_known hurl, ih hsub, List.mem_cons]
        constructor
        · rintro (hold | hrest)
          · exact .inl hold
          · exact .inr (.inr hrest)
        · rintro (hold | rfl | hrest)
          · exact .inl hold
          · exact .inl (hsub u hurl)
          · exact .inr hrest
      · rw [refreshLoop_new hurl, ih, urls_concat, List.mem_append, List.mem_singleton,
          List.mem_cons, or_assoc]
        intro v hv
        rw [urls_concat, List.mem_append, List.mem_singleton]
        cases grows with
        | false =>
            exact .inl (hsub v hv)
        | true =>
            rcases List.mem_cons.1 hv with rfl | hv
            · exact .inr rfl
            · exact .inl (hsub v hv)

theorem perm_shuffledUrls
    (b : Binding)
    (shuffle : Shuffle)
    (n : ℤ)
    (pool : Pool) :
    (shuffledUrls b shuffle n pool).1.Perm pool :=
  (List.perm_insertionSort _ _).trans (shuffle.perm pool)

/-- **No URL is lost**, and none that is offered is left out. -/
theorem urls_step
    (b : Binding)
    (pool : Pool)
    (op : Op)
    (u : String) :
    u ∈ urls (step b pool op) ↔ u ∈ urls pool ∨ u ∈ offered b pool op := by
  cases op with
  | refresh newUrls =>
      exact mem_urls_refreshLoop (fun _ h => h) newUrls u
  | refreshPeers order answer =>
      exact mem_urls_refreshLoop (fun _ h => h) _ u
  | markFailed url =>
      simp [step, markFailed, urls_updateFirst, offered]
  | markAlive url =>
      simp [step, markAlive, urls_updateFirst, offered]
  | select shuffle n =>
      rw [show offered b pool (.select shuffle n) = [] from rfl]
      simp only [List.not_mem_nil, or_false]
      exact ((perm_shuffledUrls b shuffle n pool).map Entry.url).mem_iff

/-- An entry of the client's pool. -/
def ofRelay (e : RelayEntry) : Entry :=
  ⟨e.url, e.failures⟩

/-- The client's pool is refreshed as the pool of the Rust binding. -/
theorem refresh_eq_refreshPool
    (entries : List RelayEntry)
    (newUrls : List String) :
    refresh .rust newUrls (entries.map ofRelay) = (refreshPool entries newUrls).map ofRelay := by
  have hurls : urls (entries.map ofRelay) = entries.map RelayEntry.url := by
    unfold urls
    rw [List.map_map]
    rfl
  have hfilter : newUrls.filter (fun url => decide (url ∉ entries.map RelayEntry.url)) =
      newUrls.filter (fun url => !(entries.map RelayEntry.url).contains url) :=
    List.filter_congr (fun url _ => by
      rw [List.contains_eq_mem, decide_not])
  unfold refresh refreshPool
  rw [show decide (Binding.rust = .js) = false from rfl, refreshLoop_fixed, hurls, hfilter,
    List.map_append, List.map_map]
  rfl

end Urls

section Selections

/-- Zero asks for all URLs. -/
def Binding.zeroIsAll : Binding → Bool
  | .go | .python | .kotlin => true
  | .rust | .js | .swift => false

/-- How many URLs of a pool are asked for by `n`. -/
def wanted (b : Binding) (n size : ℕ) : ℕ :=
  if n = 0 ∧ b.zeroIsAll then size else n

/-- Distinct URLs of a pool, as many as asked for, with the fewest failures. -/
structure Selects (pool : Pool) (n : ℕ) (chosen : List String) : Prop where
  distinct : chosen.Nodup
  count : chosen.length = min n pool.length
  known : ∀ url ∈ chosen, url ∈ urls pool
  fewest : ∀ e ∈ pool, ∀ e' ∈ pool, e.url ∈ chosen → e'.url ∉ chosen → e.failures ≤ e'.failures

theorem min_limitOf
    (b : Binding)
    (n size : ℕ) :
    min (limitOf b n size) size = min (wanted b n size) size := by
  cases b <;> simp [limitOf, wanted, Binding.zeroIsAll] <;> grind

/-- The first entries of a sorted pool. -/
theorem selects_take
    {pool entries : Pool}
    (hperm : entries.Perm pool)
    (hsorted : entries.Pairwise (fun x y => x.failures ≤ y.failures))
    (hpool : (urls pool).Nodup)
    (k : ℕ) :
    Selects pool k ((entries.take k).map Entry.url) := by
  have hurls : (urls entries).Nodup := (hperm.map Entry.url).nodup_iff.2 hpool
  refine ⟨?_, ?_, ?_, ?_⟩
  · exact hurls.sublist ((List.take_sublist k entries).map Entry.url)
  · rw [List.length_map, List.length_take, hperm.length_eq]
  · intro url hurl
    obtain ⟨e, he, rfl⟩ := List.mem_map.1 hurl
    exact List.mem_map_of_mem (hperm.mem_iff.1 (List.mem_of_mem_take he))
  · intro e he e' he' hin hout
    have hfirst : e ∈ entries.take k := by
      obtain ⟨x, hx, heq⟩ := List.mem_map.1 hin
      have hsame : x = e :=
        List.inj_on_of_nodup_map hurls (List.mem_of_mem_take hx) (hperm.mem_iff.2 he) heq
      rwa [hsame] at hx
    have hrest : e' ∈ entries.drop k := by
      have hmem : e' ∈ entries.take k ++ entries.drop k := by
        rw [List.take_append_drop]
        exact hperm.mem_iff.2 he'
      rcases List.mem_append.1 hmem with htake | hdrop
      · exact absurd (List.mem_map_of_mem htake) hout
      · exact hdrop
    exact Oldest.rel_of_mem_take_of_mem_drop hsorted hfirst hrest

/-- **A selection from a pool of distinct URLs.** -/
theorem selects_shuffledUrls
    {pool : Pool}
    (hpool : (urls pool).Nodup)
    (b : Binding)
    (shuffle : Shuffle)
    (n : ℕ) :
    Selects pool (wanted b n pool.length) (shuffledUrls b shuffle n pool).2 := by
  have hperm := perm_shuffledUrls b shuffle n pool
  have hsorted : (shuffledUrls b shuffle n pool).1.Pairwise
      (fun x y => x.failures ≤ y.failures) :=
    List.pairwise_insertionSort _ _
  have hchosen : (shuffledUrls b shuffle n pool).2 =
      ((shuffledUrls b shuffle n pool).1.take (wanted b n pool.length)).map Entry.url := by
    have hlimit := min_limitOf b n pool.length
    rw [← hperm.length_eq] at hlimit ⊢
    rw [List.take_eq_take_min, ← hlimit, ← List.take_eq_take_min]
    rfl
  rw [hchosen]
  exact selects_take hperm hsorted hpool _

end Selections

section Soundness

/-- A pool holds each URL once after an operation, has lost none, and a selection is one. -/
structure Sound (b : Binding) (pool : Pool) (op : Op) : Prop where
  distinct : (urls (step b pool op)).Nodup
  kept : ∀ url, url ∈ urls pool ∨ url ∈ offered b pool op → url ∈ urls (step b pool op)
  selects : ∀ shuffle, ∀ n : ℕ, op = .select shuffle n →
    Selects pool (wanted b n pool.length) (shuffledUrls b shuffle n pool).2

/-- No URL that is not in the pool yet is offered twice, unless by JavaScript. -/
def Unrepeated (b : Binding) (pool : Pool) (op : Op) : Prop :=
  b = .js ∨ ((offered b pool op).filter (fun url => decide (url ∉ urls pool))).Nodup

theorem nodup_refresh_iff
    {pool : Pool}
    (hpool : (urls pool).Nodup)
    (b : Binding)
    (newUrls : List String) :
    (urls (refresh b newUrls pool)).Nodup ↔
      b = .js ∨ (newUrls.filter (fun url => decide (url ∉ urls pool))).Nodup := by
  unfold refresh
  by_cases hb : b = .js
  · rw [decide_eq_true hb]
    exact iff_of_true (nodup_refreshLoop_growing hpool (fun _ => Iff.rfl) newUrls) (.inl hb)
  · rw [decide_eq_false hb, urls_refreshLoop_fixed, List.nodup_append']
    have hdisjoint : List.Disjoint (urls pool)
        (newUrls.filter (fun url => decide (url ∉ urls pool))) := by
      intro url hold hnew
      exact of_decide_eq_true (List.mem_filter.1 hnew).2 hold
    constructor
    · exact fun h => .inr h.2.1
    · exact fun h => ⟨hpool, h.resolve_left hb, hdisjoint⟩

/-- What keeps the URLs of a pool distinct. -/
theorem nodup_step_iff
    {pool : Pool}
    (hpool : (urls pool).Nodup)
    (b : Binding)
    (op : Op) :
    (urls (step b pool op)).Nodup ↔ Unrepeated b pool op := by
  cases op with
  | refresh newUrls =>
      exact nodup_refresh_iff hpool b newUrls
  | refreshPeers order answer =>
      exact nodup_refresh_iff hpool b _
  | markFailed url =>
      refine iff_of_true ?_ (.inr List.nodup_nil)
      exact (urls_updateFirst url (recordFailure b) pool).symm ▸ hpool
  | markAlive url =>
      refine iff_of_true ?_ (.inr List.nodup_nil)
      exact (urls_updateFirst url (fun _ => 0) pool).symm ▸ hpool
  | select shuffle n =>
      refine iff_of_true ?_ (.inr List.nodup_nil)
      exact ((perm_shuffledUrls b shuffle n pool).map Entry.url).nodup_iff.2 hpool

/-- Bindings that gather the peers in a set offer each of them once. -/
theorem unrepeated_refreshPeers
    {b : Binding}
    (hb : b = .rust ∨ b = .js ∨ b = .swift)
    (pool : Pool)
    (order : HashOrder String)
    (answer : String → Option (List String)) :
    Unrepeated b pool (.refreshPeers order answer) := by
  have hset : (peerUrls b order answer pool).Nodup := by
    rcases hb with rfl | rfl | rfl <;>
      exact (order.perm _).nodup_iff.2 (List.nodup_dedup _)
  exact .inr (hset.filter _)

theorem sound_of_unrepeated
    {b : Binding}
    {pool : Pool}
    (hpool : (urls pool).Nodup)
    {op : Op}
    (hop : Unrepeated b pool op) :
    Sound b pool op := by
  refine ⟨(nodup_step_iff hpool b op).2 hop, fun url => (urls_step b pool op url).2, ?_⟩
  rintro shuffle n rfl
  exact selects_shuffledUrls hpool b shuffle n

/-- **Pools hold each URL once**, in every run of operations and at each of them, exactly if
no refresh offers a new URL twice, or the binding is that of JavaScript. -/
theorem sound_run_iff
    (b : Binding)
    (ops : List Op) :
    (∀ i, ∀ hi : i < ops.length, Sound b ((ops.take i).foldl (step b) []) ops[i]) ↔
      Runs.StepsMeet (step b) (Unrepeated b) [] ops := by
  have hempty : (urls []).Nodup := List.nodup_nil
  have hkeeps : ∀ pool op, (urls pool).Nodup → Unrepeated b pool op →
      (urls (step b pool op)).Nodup :=
    fun _ op hpool hop => (nodup_step_iff hpool b op).2 hop
  constructor
  · intro hsound
    have hgood : ∀ i, (urls ((ops.take i).foldl (step b) [])).Nodup := by
      have hwithin : ∀ i ≤ ops.length, (urls ((ops.take i).foldl (step b) [])).Nodup := by
        intro i hi
        cases i with
        | zero =>
            exact hempty
        | succ i =>
            rw [Runs.foldl_take_succ hi]
            exact (hsound i hi).distinct
      intro i
      rcases Nat.le_total i ops.length with hi | hi
      · exact hwithin i hi
      · rw [List.take_of_length_le hi, ← List.take_length (l := ops)]
        exact hwithin _ le_rfl
    exact (Runs.good_iff (I := fun pool => (urls pool).Nodup) (fun _ h => h)
      (fun _ op hpool hnext => (nodup_step_iff hpool b op).1 hnext)
      hkeeps hempty).1 hgood
  · intro hmeet i hi
    have hpool : (urls ((ops.take i).foldl (step b) [])).Nodup :=
      (hmeet.take i).invariant hkeeps hempty
    exact sound_of_unrepeated hpool (hmeet.getElem hi)

/-- Two relays that know the same third one: Go adds it twice. -/
theorem refreshPeers_repeats :
    ¬ ∀ (b : Binding) (ops : List Op) (i : ℕ) (hi : i < ops.length),
      Sound b ((ops.take i).foldl (step b) []) ops[i] := by
  intro h
  have hdistinct := (h .go [.refresh ["https://a", "https://b"],
    .refreshPeers HashOrder.inserted (fun _ => some ["https://c"])] 1 (by decide)).distinct
  exact absurd hdistinct (by decide)

end Soundness

end RelayPool
end CertRelay
