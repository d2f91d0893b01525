import CertRelay.Lib.Tally
import CertRelay.Lib.Windows
import CertRelay.Client.Anchors

/-!
# Sets of anchors

A relay keeps every window of 60 anchors under the hash of the window, or the whole list if
it is shorter, and serves each by its hash, or the one of the highest tip.

The map of sets is a keyed table; the order in which its values come is a parameter.

**Results.**
* `mem_anchorWindows`: what is inserted;
* `mem_fromAnchors`: what is stored, where no two windows share a hash;
* `fromAnchors_resolvable`: every window is found under its hash, and the latest is the
  first;
* `handleAnchors_window`: a request for the hash of a window is answered with it.
-/

namespace CertRelay

open Windows

section Model

variable {ν : Type} (C : ClientCrates ν)

/-- Anchors as a relay serves them. -/
structure AnchorSet where
  entries : List RootAnchor
deriving DecidableEq

/-- `ANCHOR_SET_SIZE`. -/
def anchorSetSize : ℕ := 60

/-- `HashMap<TrustId, AnchorSet>`. -/
abbrev AnchorSets := KeyedTable (TrustId × AnchorSet) Prod.fst

namespace AnchorSets

/-- A window, under its trust id. -/
def entryOf (window : List RootAnchor) : TrustId × AnchorSet :=
  ((C.computeTrustSet window).id, ⟨window⟩)

/-- The closure `insert` of `from_anchors`. -/
def insert (sets : AnchorSets) (window : List RootAnchor) : AnchorSets :=
  sets.insertOrReplace (entryOf C window)

def fromAnchors (raw : List RootAnchor) : AnchorSets :=
  if raw.length < anchorSetSize then
    if ¬ raw.isEmpty then insert C KeyedTable.empty raw else KeyedTable.empty
  else (windows anchorSetSize raw).foldl (insert C) KeyedTable.empty

def get (sets : AnchorSets) (key : TrustId) : Option AnchorSet :=
  (sets.find? key).map Prod.snd

/-- `latest`: of the highest tips, `max_by_key` takes the last in the order of the map. -/
def latest (order : HashOrder AnchorSet) (sets : AnchorSets) : Option AnchorSet :=
  Tally.lastBest (fun s => (tipHeight s.entries).toNat)
    (order.arrange (sets.rows.map Prod.snd))

/-- What `GET /anchors` answers. -/
inductive Answer
  | invalidHex
  | rootLength
  | notFound
  | set (anchors : AnchorSet)

/-- The body of `handle_anchors` under the lock. -/
def handleAnchors (order : HashOrder AnchorSet) (store : AnchorSets) (root : Option String) :
    Answer :=
  let served : Option AnchorSet → Answer
    | some anchors => .set anchors
    | none => .notFound
  match root with
  | none => served (latest order store)
  | some hexRoot =>
      match C.hexDecode hexRoot with
      | .error _ => .invalidHex
      | .ok bytes =>
          match toArray 32 bytes with
          | none => .rootLength
          | some root => served (get store root)

end AnchorSets

end Model

namespace AnchorSets

section Stored

variable {ν : Type} (C : ClientCrates ν)

/-- The windows that are inserted. -/
def anchorWindows (raw : List RootAnchor) : List (List RootAnchor) :=
  if raw.length < anchorSetSize then
    if ¬ raw.isEmpty then [raw] else []
  else windows anchorSetSize raw

/-- A contiguous part of 60 anchors, or all of them if they are fewer. -/
def IsAnchorWindow (raw w : List RootAnchor) : Prop :=
  w ≠ [] ∧ w <:+: raw ∧ w.length = min anchorSetSize raw.length

theorem fromAnchors_eq
    (raw : List RootAnchor) :
    fromAnchors C raw =
      ((anchorWindows raw).map (entryOf C)).foldl KeyedTable.insertOrReplace
        KeyedTable.empty := by
  unfold fromAnchors anchorWindows
  rw [List.foldl_map]
  split_ifs <;> rfl

theorem anchorSetSize_pos :
    0 < anchorSetSize := by
  decide

/-- **What is inserted.** -/
theorem mem_anchorWindows
    {raw w : List RootAnchor} :
    w ∈ anchorWindows raw ↔ IsAnchorWindow raw w := by
  unfold anchorWindows IsAnchorWindow
  by_cases hlt : raw.length < anchorSetSize
  · rw [if_pos hlt, min_eq_right hlt.le]
    cases raw with
    | nil =>
        constructor
        · intro h
          cases h
        · rintro ⟨hne, hinfix, _⟩
          exact absurd (List.infix_nil.1 hinfix) hne
    | cons a l =>
        rw [if_pos (by simp), List.mem_singleton]
        constructor
        · rintro rfl
          exact ⟨List.cons_ne_nil a l, List.infix_refl _, rfl⟩
        · rintro ⟨_, hinfix, hlength⟩
          exact hinfix.eq_of_length hlength
  · rw [if_neg hlt, mem_windows anchorSetSize_pos, min_eq_left (Nat.le_of_not_lt hlt)]
    constructor
    · rintro ⟨hlength, hinfix⟩
      exact ⟨List.ne_nil_of_length_pos (hlength ▸ anchorSetSize_pos), hinfix, hlength⟩
    · rintro ⟨_, hinfix, hlength⟩
      exact ⟨hlength, hinfix⟩

/-- The tips of the windows are descending. -/
theorem pairwise_anchorWindows
    {raw : List RootAnchor}
    (hraw : raw.Pairwise (fun a b => b.height < a.height)) :
    (anchorWindows raw).Pairwise
      (fun v w => ∀ a ∈ v.head?, ∀ b ∈ w.head?, b.height < a.height) := by
  unfold anchorWindows
  split_ifs
  · exact List.Pairwise.nil
  · exact List.pairwise_singleton _ _
  · exact pairwise_windows anchorSetSize_pos hraw

/-- The first window starts at the first anchor. -/
theorem anchorWindows_of_ne_nil
    {raw : List RootAnchor}
    (hne : raw ≠ []) :
    ∃ rest, anchorWindows raw = raw.take anchorSetSize :: rest := by
  unfold anchorWindows
  cases raw with
  | nil =>
      exact absurd rfl hne
  | cons a l =>
      by_cases hlt : (a :: l).length < anchorSetSize
      · refine ⟨[], ?_⟩
        rw [if_pos hlt, if_pos (by simp), List.take_of_length_le hlt.le]
      · exact ⟨_, by rw [if_neg hlt, windows_of_le (Nat.le_of_not_lt hlt)]⟩

theorem nodup_anchorWindows
    {raw : List RootAnchor}
    (hraw : raw.Pairwise (fun a b => b.height < a.height)) :
    (anchorWindows raw).Nodup := by
  refine (pairwise_anchorWindows hraw).imp_of_mem (fun {v w} hv _ hheads heq => ?_)
  have hne := (mem_anchorWindows.1 hv).1
  have hhead := List.head?_eq_some_head hne
  exact absurd (hheads _ hhead _ (heq ▸ hhead)) (UInt32.lt_irrefl _)

/-- The hash tells the windows of a list apart. -/
def SeparatesWindows (raw : List RootAnchor) : Prop :=
  ∀ v w, IsAnchorWindow raw v → IsAnchorWindow raw w →
    (C.computeTrustSet v).id = (C.computeTrustSet w).id → v = w

variable {C}

/-- **What is stored**: the windows, each under its hash. -/
theorem mem_fromAnchors
    {raw : List RootAnchor}
    (hraw : raw.Pairwise (fun a b => b.height < a.height))
    (hinj : SeparatesWindows C raw)
    {e : TrustId × AnchorSet} :
    e ∈ (fromAnchors C raw).rows ↔ ∃ w, IsAnchorWindow raw w ∧ entryOf C w = e := by
  have hkeys : (((anchorWindows raw).map (entryOf C)).map Prod.fst).Nodup := by
    rw [List.map_map]
    refine List.Nodup.map_on (fun v hv w hw hid => ?_) (nodup_anchorWindows hraw)
    exact hinj v w (mem_anchorWindows.1 hv) (mem_anchorWindows.1 hw) hid
  rw [fromAnchors_eq, KeyedTable.mem_foldl_insertOrReplace hkeys, List.mem_map]
  constructor
  · rintro (⟨w, hw, rfl⟩ | ⟨hnone, _⟩)
    · exact ⟨w, mem_anchorWindows.1 hw, rfl⟩
    · exact absurd hnone List.not_mem_nil
  · rintro ⟨w, hw, rfl⟩
    exact Or.inl ⟨w, mem_anchorWindows.2 hw, rfl⟩

theorem get_window
    {raw w : List RootAnchor}
    (hraw : raw.Pairwise (fun a b => b.height < a.height))
    (hinj : SeparatesWindows C raw)
    (hw : IsAnchorWindow raw w) :
    get (fromAnchors C raw) (C.computeTrustSet w).id = some ⟨w⟩ := by
  have hmem : entryOf C w ∈ (fromAnchors C raw).rows :=
    (mem_fromAnchors hraw hinj).2 ⟨w, hw, rfl⟩
  unfold get
  rw [show (fromAnchors C raw).find? (C.computeTrustSet w).id = some (entryOf C w) from
    KeyedTable.find?_key hmem]
  rfl

/-- No other window has as high a tip as the first. -/
theorem eq_take_of_tip_le
    {raw w : List RootAnchor}
    (hraw : raw.Pairwise (fun a b => b.height < a.height))
    (hne : raw ≠ [])
    (hw : IsAnchorWindow raw w)
    (hle : (tipHeight (raw.take anchorSetSize)).toNat ≤ (tipHeight w).toNat) :
    w = raw.take anchorSetSize := by
  obtain ⟨rest, hrest⟩ := anchorWindows_of_ne_nil hne
  have hpairwise := pairwise_anchorWindows hraw
  have hmem := mem_anchorWindows.2 hw
  have hfirst : (raw.take anchorSetSize) ≠ [] :=
    (mem_anchorWindows.1 (hrest ▸ List.mem_cons_self)).1
  rw [hrest] at hpairwise hmem
  rcases List.mem_cons.1 hmem with heq | hlater
  · exact heq
  · have hlt := (List.pairwise_cons.1 hpairwise).1 w hlater _
      (List.head?_eq_some_head hfirst) _ (List.head?_eq_some_head hw.1)
    unfold tipHeight at hle
    rw [List.head?_eq_some_head hfirst, List.head?_eq_some_head hw.1] at hle
    exact absurd hle (Nat.not_le_of_lt hlt)

/-- The latest set is the first window. -/
theorem latest_fromAnchors
    (order : HashOrder AnchorSet)
    {raw : List RootAnchor}
    (hraw : raw.Pairwise (fun a b => b.height < a.height))
    (hinj : SeparatesWindows C raw) :
    latest order (fromAnchors C raw) =
      if raw = [] then none else some ⟨raw.take anchorSetSize⟩ := by
  have hvalue : ∀ s, s ∈ order.arrange ((fromAnchors C raw).rows.map Prod.snd) ↔
      IsAnchorWindow raw s.entries := by
    intro s
    rw [order.mem_arrange, List.mem_map]
    constructor
    · rintro ⟨e, he, rfl⟩
      obtain ⟨w, hw, rfl⟩ := (mem_fromAnchors hraw hinj).1 he
      exact hw
    · intro hs
      exact ⟨entryOf C s.entries, (mem_fromAnchors hraw hinj).2 ⟨_, hs, rfl⟩, rfl⟩
  unfold latest
  split_ifs with hnil
  · rw [Tally.lastBest_eq_none, List.eq_nil_iff_forall_not_mem]
    intro s hs
    obtain ⟨hne, hinfix, _⟩ := (hvalue s).1 hs
    rw [hnil] at hinfix
    exact hne (List.infix_nil.1 hinfix)
  · obtain ⟨rest, hrest⟩ := anchorWindows_of_ne_nil hnil
    have hfirst := (hvalue ⟨raw.take anchorSetSize⟩).2
      (mem_anchorWindows.1 (hrest ▸ List.mem_cons_self))
    cases hbest : Tally.lastBest (fun s : AnchorSet => (tipHeight s.entries).toNat)
        (order.arrange ((fromAnchors C raw).rows.map Prod.snd)) with
    | none =>
        rw [Tally.lastBest_eq_none.1 hbest] at hfirst
        exact absurd hfirst List.not_mem_nil
    | some s =>
        obtain ⟨hmem, hmax⟩ := Tally.lastBest_mem hbest
        have hs : s.entries = raw.take anchorSetSize :=
          eq_take_of_tip_le hraw hnil ((hvalue s).1 hmem) (hmax _ hfirst)
        rw [← hs]

/-- **Anchor windows stay resolvable.** -/
theorem fromAnchors_resolvable
    {ν : Type}
    (C : ClientCrates ν)
    (order : HashOrder AnchorSet)
    (raw : List RootAnchor)
    (hraw : raw.Pairwise (fun a b => b.height < a.height))
    (hinj : SeparatesWindows C raw) :
    (∀ w, IsAnchorWindow raw w →
      get (fromAnchors C raw) (C.computeTrustSet w).id = some ⟨w⟩) ∧
      (∀ id set, (id, set) ∈ (fromAnchors C raw).rows →
        (C.computeTrustSet set.entries).id = id ∧ IsAnchorWindow raw set.entries) ∧
      latest order (fromAnchors C raw) =
        if raw = [] then none else some ⟨raw.take anchorSetSize⟩ := by
  refine ⟨fun w hw => get_window hraw hinj hw, fun id set hmem => ?_,
    latest_fromAnchors order hraw hinj⟩
  obtain ⟨w, hw, heq⟩ := (mem_fromAnchors hraw hinj).1 hmem
  cases heq
  exact ⟨rfl, hw⟩

/-- A hash that reads the tip. -/
def tipCrates : ClientCrates (List RootAnchor) :=
  { ClientCrates.sample with
    computeTrustSet := fun anchors =>
      let id : Hash32 :=
        ⟨List.replicate 32 (UInt8.ofNat (tipHeight anchors).toNat), List.length_replicate⟩
      ⟨id, [id]⟩ }

/-- Anchors of the heights 62 to 1. -/
def sixtyTwo : List RootAnchor :=
  (List.range 62).map (fun i => ⟨[], UInt32.ofNat (62 - i)⟩)

theorem fromAnchors_resolvable_sixtyTwo :
    (anchorWindows sixtyTwo).length = 3 ∧
      (∀ w, IsAnchorWindow sixtyTwo w →
        get (fromAnchors tipCrates sixtyTwo) (tipCrates.computeTrustSet w).id = some ⟨w⟩) ∧
      (∀ id set, (id, set) ∈ (fromAnchors tipCrates sixtyTwo).rows →
        (tipCrates.computeTrustSet set.entries).id = id ∧
          IsAnchorWindow sixtyTwo set.entries) ∧
      latest HashOrder.inserted (fromAnchors tipCrates sixtyTwo) =
        if sixtyTwo = [] then none else some ⟨sixtyTwo.take anchorSetSize⟩ := by
  have hids : ∀ v ∈ anchorWindows sixtyTwo, ∀ w ∈ anchorWindows sixtyTwo,
      (tipCrates.computeTrustSet v).id = (tipCrates.computeTrustSet w).id → v = w := by
    decide +kernel
  exact ⟨by decide +kernel,
    fromAnchors_resolvable tipCrates HashOrder.inserted sixtyTwo (by decide +kernel)
      (fun v w hv hw => hids v (mem_anchorWindows.2 hv) w (mem_anchorWindows.2 hw))⟩

/-- **A request for the hash of a window is answered with it.** -/
theorem handleAnchors_window
    (order : HashOrder AnchorSet)
    {raw w : List RootAnchor}
    (hraw : raw.Pairwise (fun a b => b.height < a.height))
    (hinj : SeparatesWindows C raw)
    (hw : IsAnchorWindow raw w)
    {hexRoot : String}
    (hhex : C.hexDecode hexRoot = .ok (C.computeTrustSet w).id.val) :
    handleAnchors C order (fromAnchors C raw) (some hexRoot) = .set ⟨w⟩ := by
  have hroot : toArray 32 (C.computeTrustSet w).id.val = some (C.computeTrustSet w).id :=
    dif_pos (C.computeTrustSet w).id.property
  unfold handleAnchors
  dsimp only
  rw [hhex]
  dsimp only
  rw [hroot]
  dsimp only
  rw [get_window hraw hinj hw]

end Stored

end AnchorSets

end CertRelay
