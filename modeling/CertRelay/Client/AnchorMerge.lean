import CertRelay.Lib.Fallible
import CertRelay.Lib.FirstOfKey
import CertRelay.Client.Anchors

/-!
# Merging anchors in each binding

The Rust client sorts all anchors by height, stably, and drops neighbours of one height.
The other bindings keep raw JSON entries per source; they drop entries whose height has
been seen and sort what is left, with a sort that need not be stable.

A JSON value is known by what a binding reads of it, and a JSON text by its array; the sort
is a parameter too.

**Results.**
* `firstsByHeight_rendered`: filtering the rendered anchors before any sort gives `merged`;
* `merged_respectsPriority`: `merged` respects the order of the sources, and every binding
  computes it.
-/

namespace CertRelay
namespace AnchorMerge

open FirstOfKey

section Bindings

/-- What a binding reads of JSON. -/
structure JsonReader (ρ : Type) where
  /-- The elements of a text that is an array. -/
  parseArray : String → Option (List ρ)
  /-- The number at `block.height`, if there is one; an error where the path meets a value of
  another kind. -/
  blockHeight : ρ → Except String (Option ℕ)
  /-- The number at `height`. -/
  ownHeight : ρ → Option ℕ

/-- What a binding keeps for each trust source. -/
structure Sources (τ : Type) where
  trusted : τ
  semiTrusted : τ
  observed : τ

/-- An entry and the height read of it. -/
abbrev Entry (ρ : Type) := ρ × Option ℕ

/-- A sort by descending height. -/
abbrev HeightSort (ρ : Type) := DescendingSort (Prod.snd : Entry ρ → Option ℕ)

variable {ρ τ : Type} (J : JsonReader ρ) (sort : HeightSort ρ)

/-- All entries, in the order of trust. -/
def Sources.entries (read : τ → List ρ) (sources : Sources τ) : List ρ :=
  read sources.trusted ++ read sources.semiTrusted ++ read sources.observed

/-- The entries of a text; an empty text and one that is no array have none. -/
def JsonReader.textEntries (text : String) : List ρ :=
  if text = "" then [] else (J.parseArray text).getD []

/-- An entry with the height that a binding takes for it. -/
def JsonReader.readEntry (height : ρ → Option ℕ → Option ℕ) (e : ρ) :
    Except String (Entry ρ) :=
  (J.blockHeight e).map (fun h => (e, height e h))

/-- Keep the first entry of each height, then sort. -/
def firstsByHeight (entries : List (Entry ρ)) : List ρ :=
  (sort.arrange (keepFirst Prod.snd [] entries)).map Prod.fst

/-- A height that is missing is 0. -/
def orZero (_ : ρ) (height : Option ℕ) : Option ℕ :=
  some (height.getD 0)

/-- `rebuildVeritas`: the entries it builds a `Veritas` of, if any. -/
def javascriptMerged (anchorEntries : Sources (Option (List ρ))) :
    Except String (Option (List ρ)) :=
  let allEntries := anchorEntries.entries (fun entries => entries.getD [])
  if allEntries.isEmpty then .ok none
  else do
    let read ← allEntries.mapM (J.readEntry (fun e h => h.or (J.ownHeight e)))
    return some (firstsByHeight sort read)

/-- `merged` of `fabric.go`: an entry that does not decode is left out. -/
def goMerged (p : Sources String) : List ρ :=
  let allEntries := p.entries J.textEntries
  firstsByHeight sort (allEntries.filterMap (fun e => (J.readEntry orZero e).toOption))

/-- Merging where a height that cannot be read ends it by an exception. -/
def strictMerged (allEntries : List ρ) : Except String (List ρ) := do
  let read ← allEntries.mapM (J.readEntry orZero)
  return firstsByHeight sort read

/-- `merged` of `client.py`. -/
def pythonMerged (pool : Sources (List ρ)) : Except String (List ρ) :=
  strictMerged J sort (pool.entries id)

/-- `merged` of `Fabric.kt`. -/
def kotlinMerged (pool : Sources String) : Except String (List ρ) :=
  strictMerged J sort (pool.entries J.textEntries)

/-- `merged` of `Fabric.swift`, which reads a value of another kind as no height. -/
def swiftMerged (pool : Sources String) : Option (List ρ) :=
  let all := pool.entries J.textEntries
  if all.isEmpty then none
  else some (firstsByHeight sort
    (all.map (fun e => (e, orZero e ((J.blockHeight e).toOption.getD none)))))

end Bindings

section Priority

/-- The first anchor of a height. -/
def firstAt (height : UInt32) (anchors : List RootAnchor) : Option RootAnchor :=
  anchors.find? (fun a => decide (a.height = height))

/-- All anchors, in the order of trust. -/
def allAnchors (pool : AnchorPool) : List RootAnchor :=
  pool.trusted ++ pool.semiTrusted ++ pool.observed

/-- One anchor for each height, from the first source that has one, in descending order. -/
structure RespectsPriority (pool : AnchorPool) (merged : List RootAnchor) : Prop where
  descending : merged.Pairwise (fun a b => b.height < a.height)
  one_per_height : ∀ height,
    (∃! a, a ∈ merged ∧ a.height = height) ↔ ∃ a ∈ allAnchors pool, a.height = height
  priority : ∀ a ∈ merged,
    ((firstAt a.height pool.trusted).or (firstAt a.height pool.semiTrusted)).or
      (firstAt a.height pool.observed) = some a

/-- The height of an anchor as a number. -/
def heightOf (a : RootAnchor) : ℕ :=
  a.height.toNat

theorem firstAt_eq
    (height : UInt32)
    (anchors : List RootAnchor) :
    firstAt height anchors = first heightOf height.toNat anchors := by
  unfold firstAt first heightOf
  simp only [UInt32.toNat_inj]

theorem merged_isFirsts
    (pool : AnchorPool) :
    IsFirsts heightOf (allAnchors pool) pool.merged := by
  have h : IsFirsts heightOf (allAnchors pool) _ := isFirsts_destutter (allAnchors pool)
  unfold heightOf at h
  simp only [ne_eq, UInt32.toNat_inj] at h
  exact h

/-- `merged` respects the order of the sources. -/
theorem respectsPriority_merged
    (pool : AnchorPool) :
    RespectsPriority pool pool.merged := by
  have h := merged_isFirsts pool
  refine ⟨h.descending, fun height => ?_, fun a ha => ?_⟩
  · have hiff := h.existsUnique_iff height.toNat
    unfold heightOf at hiff
    simpa only [UInt32.toNat_inj] using hiff
  · rw [firstAt_eq, firstAt_eq, firstAt_eq, ← first_append, ← first_append]
    exact (h.mem_iff a).1 ha

end Priority

section Rendered

variable {ρ τ : Type} {J : JsonReader ρ} {render : RootAnchor → ρ}

/-- The sources hold the anchors of a pool, each rendered as an entry. -/
structure Sources.Holds (read : τ → List ρ) (render : RootAnchor → ρ) (sources : Sources τ)
    (pool : AnchorPool) : Prop where
  trusted : read sources.trusted = pool.trusted.map render
  semiTrusted : read sources.semiTrusted = pool.semiTrusted.map render
  observed : read sources.observed = pool.observed.map render

/-- A rendered anchor with its height. -/
def entryOf (render : RootAnchor → ρ) (a : RootAnchor) : Entry ρ :=
  (render a, some (heightOf a))

theorem Sources.Holds.entries_eq
    {read : τ → List ρ}
    {sources : Sources τ}
    {pool : AnchorPool}
    (h : sources.Holds read render pool) :
    sources.entries read = (allAnchors pool).map render := by
  unfold Sources.entries allAnchors
  rw [h.trusted, h.semiTrusted, h.observed, List.map_append, List.map_append]

/-- **Filtering before any sort gives `merged`.** -/
theorem firstsByHeight_rendered
    (sort : HeightSort ρ)
    (render : RootAnchor → ρ)
    (pool : AnchorPool) :
    firstsByHeight sort ((allAnchors pool).map (entryOf render)) =
      pool.merged.map render := by
  have hread : ∀ a, (entryOf render a).2 = some (heightOf a) :=
    fun _ => rfl
  have hkeep : keepFirst Prod.snd [] ((allAnchors pool).map (entryOf render)) =
      (keepFirst heightOf [] (allAnchors pool)).map (entryOf render) :=
    keepFirst_map (Option.some_injective ℕ) hread [] (allAnchors pool)
  unfold firstsByHeight
  rw [hkeep, arrange_keepFirst sort hread (merged_isFirsts pool), List.map_map]
  rfl

theorem readEntry_render
    (hrender : ∀ a, J.blockHeight (render a) = .ok (some (heightOf a)))
    {height : ρ → Option ℕ → Option ℕ}
    (hheight : ∀ e n, height e (some n) = some n)
    (a : RootAnchor) :
    J.readEntry height (render a) = .ok (entryOf render a) := by
  unfold JsonReader.readEntry entryOf
  rw [hrender]
  exact congrArg (fun h => Except.ok (render a, h)) (hheight (render a) (heightOf a))

/-- Reading rendered anchors gives each with its height. -/
theorem mapM_readEntry
    (hrender : ∀ a, J.blockHeight (render a) = .ok (some (heightOf a)))
    {height : ρ → Option ℕ → Option ℕ}
    (hheight : ∀ e n, height e (some n) = some n)
    (anchors : List RootAnchor) :
    (anchors.map render).mapM (J.readEntry height) = .ok (anchors.map (entryOf render)) := by
  rw [Fallible.mapM_eq_ok_iff, List.forall₂_map_left_iff, List.forall₂_map_right_iff,
    List.forall₂_same]
  exact fun a _ => readEntry_render hrender hheight a

/-- A pool without anchors has none merged. -/
theorem isEmpty_merged
    (pool : AnchorPool) :
    ((allAnchors pool).map render).isEmpty = pool.merged.isEmpty := by
  rw [Bool.eq_iff_iff, List.isEmpty_iff, List.isEmpty_iff, List.map_eq_nil_iff,
    AnchorPool.merged_eq_nil_iff]
  unfold allAnchors
  rw [List.append_eq_nil_iff, List.append_eq_nil_iff, and_assoc]

theorem javascriptMerged_eq
    (sort : HeightSort ρ)
    (hrender : ∀ a, J.blockHeight (render a) = .ok (some (heightOf a)))
    {pool : AnchorPool}
    {anchorEntries : Sources (Option (List ρ))}
    (hholds : anchorEntries.Holds (fun entries => entries.getD []) render pool) :
    javascriptMerged J sort anchorEntries =
      .ok (if pool.merged.isEmpty then none else some (pool.merged.map render)) := by
  unfold javascriptMerged
  dsimp only
  rw [hholds.entries_eq, isEmpty_merged]
  split_ifs with hempty
  · rfl
  · rw [mapM_readEntry hrender (fun _ _ => rfl), Fallible.ok_bind, firstsByHeight_rendered]
    rfl

theorem goMerged_eq
    (sort : HeightSort ρ)
    (hrender : ∀ a, J.blockHeight (render a) = .ok (some (heightOf a)))
    {pool : AnchorPool}
    {p : Sources String}
    (hholds : p.Holds J.textEntries render pool) :
    goMerged J sort p = pool.merged.map render := by
  have hread : ((allAnchors pool).map render).filterMap
      (fun e => (J.readEntry orZero e).toOption) = (allAnchors pool).map (entryOf render) := by
    rw [List.filterMap_map, ← List.filterMap_eq_map]
    refine List.filterMap_congr (fun a _ => ?_)
    rw [Function.comp_apply, readEntry_render hrender (fun _ _ => rfl)]
    rfl
  unfold goMerged
  dsimp only
  rw [hholds.entries_eq, hread, firstsByHeight_rendered]

theorem strictMerged_eq
    (sort : HeightSort ρ)
    (hrender : ∀ a, J.blockHeight (render a) = .ok (some (heightOf a)))
    {pool : AnchorPool}
    {read : τ → List ρ}
    {sources : Sources τ}
    (hholds : sources.Holds read render pool) :
    strictMerged J sort (sources.entries read) = .ok (pool.merged.map render) := by
  unfold strictMerged
  rw [hholds.entries_eq, mapM_readEntry hrender (fun _ _ => rfl), Fallible.ok_bind,
    firstsByHeight_rendered]
  rfl

theorem swiftMerged_eq
    (sort : HeightSort ρ)
    (hrender : ∀ a, J.blockHeight (render a) = .ok (some (heightOf a)))
    {pool : AnchorPool}
    {p : Sources String}
    (hholds : p.Holds J.textEntries render pool) :
    swiftMerged J sort p =
      if pool.merged.isEmpty then none else some (pool.merged.map render) := by
  have hread : ((allAnchors pool).map render).map
      (fun e => (e, orZero e ((J.blockHeight e).toOption.getD none))) =
        (allAnchors pool).map (entryOf render) := by
    rw [List.map_map]
    refine List.map_congr_left (fun a _ => ?_)
    rw [Function.comp_apply, hrender]
    rfl
  unfold swiftMerged
  dsimp only
  rw [hholds.entries_eq, isEmpty_merged, hread, firstsByHeight_rendered]

end Rendered

section Main

/-- **Merging respects trust, in every binding.** -/
theorem merged_respectsPriority
    {ρ : Type}
    (J : JsonReader ρ)
    (sort : HeightSort ρ)
    (render : RootAnchor → ρ)
    (hrender : ∀ a, J.blockHeight (render a) = .ok (some (heightOf a)))
    (pool : AnchorPool)
    (entries : Sources (Option (List ρ)))
    (lists : Sources (List ρ))
    (texts : Sources String)
    (hentries : entries.Holds (fun entries => entries.getD []) render pool)
    (hlists : lists.Holds id render pool)
    (htexts : texts.Holds J.textEntries render pool) :
    RespectsPriority pool pool.merged ∧
      javascriptMerged J sort entries =
        .ok (if pool.merged.isEmpty then none else some (pool.merged.map render)) ∧
      goMerged J sort texts = pool.merged.map render ∧
      pythonMerged J sort lists = .ok (pool.merged.map render) ∧
      kotlinMerged J sort texts = .ok (pool.merged.map render) ∧
      swiftMerged J sort texts =
        if pool.merged.isEmpty then none else some (pool.merged.map render) :=
  ⟨respectsPriority_merged pool,
    javascriptMerged_eq sort hrender hentries,
    goMerged_eq sort hrender htexts,
    strictMerged_eq sort hrender hlists,
    strictMerged_eq sort hrender htexts,
    swiftMerged_eq sort hrender htexts⟩

/-- Insertion sort, as a sort by descending height. -/
def insertionByHeight (ρ : Type) : HeightSort ρ where
  arrange l := l.insertionSort (fun a b => b.2.getD 0 ≤ a.2.getD 0)
  perm l := List.perm_insertionSort _ l
  sorted l _ := by
    refine (List.pairwise_insertionSort _ l).imp (fun {a b} hle x hx y hy => ?_)
    rw [Option.mem_def] at hx hy
    rwa [hx, hy] at hle

/-- An observed anchor of height 5 and a semi-trusted one against a trusted one. -/
def conflictingPool : AnchorPool where
  trusted := [⟨[1], 5⟩]
  semiTrusted := [⟨[2], 5⟩, ⟨[2], 7⟩]
  observed := [⟨[3], 7⟩, ⟨[3], 6⟩, ⟨[3], 5⟩]

/-- The text of an anchor as an entry. -/
def sampleEntry (a : RootAnchor) : String :=
  "\x7b\"hashes\":" ++ toString (a.hashes.map UInt8.toNat) ++
    ",\"block\":\x7b\"height\":" ++ toString a.height.toNat ++ "\x7d\x7d"

def sampleText (anchors : List RootAnchor) : String :=
  "[" ++ ",".intercalate (anchors.map sampleEntry) ++ "]"

/-- A reader that knows the texts of the sample. -/
def sampleReader : JsonReader RootAnchor where
  parseArray text :=
    [conflictingPool.trusted, conflictingPool.semiTrusted, conflictingPool.observed].find?
      (fun anchors => decide (sampleText anchors = text))
  blockHeight a := .ok (some a.height.toNat)
  ownHeight _ := none

/-- The texts that keep the pool. -/
def conflictingTexts : Sources String where
  trusted := sampleText conflictingPool.trusted
  semiTrusted := sampleText conflictingPool.semiTrusted
  observed := sampleText conflictingPool.observed

theorem merged_respectsPriority_conflictingPool :
    conflictingPool.merged = [⟨[2], 7⟩, ⟨[3], 6⟩, ⟨[1], 5⟩] ∧
      RespectsPriority conflictingPool conflictingPool.merged ∧
      javascriptMerged sampleReader (insertionByHeight RootAnchor)
        ⟨some conflictingPool.trusted, some conflictingPool.semiTrusted,
          some conflictingPool.observed⟩ =
        .ok (if conflictingPool.merged.isEmpty then none
          else some (conflictingPool.merged.map id)) ∧
      goMerged sampleReader (insertionByHeight RootAnchor) conflictingTexts =
        conflictingPool.merged.map id ∧
      pythonMerged sampleReader (insertionByHeight RootAnchor)
        ⟨conflictingPool.trusted, conflictingPool.semiTrusted, conflictingPool.observed⟩ =
        .ok (conflictingPool.merged.map id) ∧
      kotlinMerged sampleReader (insertionByHeight RootAnchor) conflictingTexts =
        .ok (conflictingPool.merged.map id) ∧
      swiftMerged sampleReader (insertionByHeight RootAnchor) conflictingTexts =
        if conflictingPool.merged.isEmpty then none
        else some (conflictingPool.merged.map id) :=
  ⟨by decide +kernel,
    merged_respectsPriority sampleReader (insertionByHeight RootAnchor) id (fun _ => rfl)
      conflictingPool _ _ _ ⟨rfl, rfl, rfl⟩ ⟨rfl, rfl, rfl⟩
      ⟨by decide +kernel, by decide +kernel, by decide +kernel⟩⟩

end Main

end AnchorMerge
end CertRelay
