import CertRelay.Relay.SyncWithPeer
import Mathlib.Algebra.Group.Action.Defs
import Mathlib.Algebra.Order.BigOperators.Group.List
import Mathlib.Tactic.Ring

/-!
# The encoded size of a served page

The server counts the certificates and zones of a page against its byte caps.  The
puller measures the encoded page, which also carries a handle, its lengths and its
numbers for every record, and compares it with a limit derived from the configured
message size.  A page of one row is never trimmed, and its appended root may be as
large as the row.

**Results.**
* `payload_cases`: what the caps leave of the payload of a page;
* `borshLen_syncPage_le`: a bound on the encoded page;
* `borshLen_fullPage`: the bound is attained;
* `pagesAccepted_iff`: the message sizes for which every page is accepted.
-/

namespace CertRelay

/-- `FileConfig::sync_config`: the page size accepted by a puller. -/
def maxPageBytesOf (maxMessageSize : UInt64) : UInt64 :=
  2 * maxSyncPageBytes + maxMessageSize

/-- The certificates and zones that a page carries. -/
def SyncPage.payload (page : SyncPage) : Nat :=
  (page.records.map SyncRecord.bytes).sum

/-- What the tables of a relay hold under a message size limit and a limit on the
length of names. -/
structure RowsFit (maxMessageSize : UInt64) (maxName : Nat) (db : Tables) : Prop where
  i64 : I64Range db
  bytes : ∀ r ∈ db.handles.rows, r.record.bytes ≤ maxMessageSize.toNat
  names : ∀ r ∈ db.handles.rows, r.handle.utf8ByteSize ≤ maxName

/-- Every page served is accepted by a puller of the same configuration. -/
def PagesAccepted (maxMessageSize : UInt64) (maxName : Nat) : Prop :=
  ∀ (order : HashOrder SyncRecord) (db : Tables) (cursor : Option SyncCursor)
    (limit : UInt64), RowsFit maxMessageSize maxName db → 1 ≤ limit → limit ≤ 1000 →
    (syncPage order db cursor limit maxSyncPageBytes).borshLen ≤
      (maxPageBytesOf maxMessageSize).toNat

section Text

theorem utf8ByteSize_ofList
    (l : List Char) :
    (String.ofList l).utf8ByteSize = (l.map Char.utf8Size).sum := by
  induction l with
  | nil =>
      simp
  | cons c l ih =>
      rw [String.ofList_cons, String.utf8ByteSize_append, ih]
      simp

theorem utf8Size_of_isDigit
    {c : Char}
    (h : c.isDigit = true) :
    c.utf8Size = 1 := by
  have hle : c.val ≤ 57 := by
    simp only [Char.isDigit, Bool.and_eq_true, decide_eq_true_eq] at h
    exact h.2
  exact Char.utf8Size_eq_one_iff.2 (UInt32.le_trans hle (by decide))

/-- A decimal number is encoded with one byte a digit. -/
theorem utf8ByteSize_repr
    (n : Nat) :
    n.repr.utf8ByteSize = n.repr.length := by
  have hone : (Nat.toDigits 10 n).map Char.utf8Size =
      List.replicate (Nat.toDigits 10 n).length 1 := by
    apply List.eq_replicate_iff.2
    refine ⟨List.length_map _, fun k hk => ?_⟩
    obtain ⟨c, hc, rfl⟩ := List.mem_map.1 hk
    exact utf8Size_of_isDigit (Nat.isDigit_of_mem_toDigits (by decide) (by decide) hc)
  rw [Nat.repr_eq_ofList_toDigits, utf8ByteSize_ofList, hone, List.sum_replicate,
    String.length_ofList]
  simp

/-- The space of a sub-handle is a shorter text than the handle. -/
theorem utf8ByteSize_spaceNameOf_lt
    {handle : String}
    (h : handle ≠ spaceNameOf handle) :
    (spaceNameOf handle).utf8ByteSize < handle.utf8ByteSize := by
  obtain ⟨l, rfl⟩ := handle.exists_eq_ofList
  unfold spaceNameOf at h ⊢
  rw [String.toList_ofList] at h ⊢
  have hsuffix := List.dropWhile_suffix (l := l) (fun c => c != '@' && c != '#')
  cases hdrop : l.dropWhile (fun c => c != '@' && c != '#') with
  | nil =>
      rw [hdrop] at h
      exact absurd rfl h
  | cons c cs =>
      rw [hdrop] at h hsuffix
      obtain ⟨front, hfront⟩ := hsuffix
      simp only [← hfront, utf8ByteSize_ofList, List.map_append, List.sum_append]
      cases front with
      | nil =>
          exact absurd (by rw [← hfront, List.nil_append]) h
      | cons d ds =>
          have hpos := d.utf8Size_pos
          simp only [List.map_cons, List.sum_cons]
          omega

end Text

theorem SyncRecord.borshLen_eq
    (r : SyncRecord) :
    r.borshLen = 32 + r.handle.utf8ByteSize + r.bytes := by
  simp only [borshLen, borshBlobLen, bytes]
  omega

/-- The encoded records: payload, names and a fixed part for each record. -/
theorem sum_borshLen
    (records : List SyncRecord) :
    (records.map SyncRecord.borshLen).sum =
      32 * records.length + (records.map (fun r => r.handle.utf8ByteSize)).sum +
        (records.map SyncRecord.bytes).sum := by
  induction records with
  | nil =>
      rfl
  | cons r records ih =>
      simp only [List.map_cons, List.sum_cons, List.length_cons, ih,
        SyncRecord.borshLen_eq]
      omega

section Bound

/-- After trimming, a page of two rows or more fits under the hard cap. -/
theorem trim_fits
    (hardCap : Nat)
    (main : List (SyncRecord × Nat))
    (roots : Roots) :
    (trim hardCap main roots).1.length ≤ 1 ∨
      total (trim hardCap main roots).1 (trim hardCap main roots).2 ≤ hardCap := by
  fun_induction trim hardCap main roots with
  | case1 popped row rest roots hcap ih =>
      exact ih
  | case2 popped row rest roots hcap =>
      exact Or.inr (Nat.le_of_not_lt hcap)
  | case3 main roots hshort =>
      left
      rcases main with _ | ⟨popped, _ | ⟨row, rest⟩⟩
      · simp
      · simp
      · exact absurd rfl (hshort popped row rest)

theorem total_reverse
    (main : List (SyncRecord × Nat))
    (roots : Roots) :
    total main.reverse roots = total main roots := by
  have hneeded : neededRoots main.reverse roots.rows = neededRoots main roots.rows := by
    apply List.filter_congr
    intro r _
    simp [mem_subSpaces]
  simp only [total, hneeded, List.map_reverse, List.sum_reverse]

variable (order : HashOrder SyncRecord) (db : Tables) (cursor : Option SyncCursor)
  (limit maxBytes : UInt64)

theorem payload_syncPage :
    (syncPage order db cursor limit maxBytes).payload =
      ((mainOf db cursor limit maxBytes).map (fun r => r.1.bytes)).sum +
        ((appendedOf order db cursor limit maxBytes).map SyncRecord.bytes).sum := by
  unfold SyncPage.payload
  rw [syncPage_records, List.map_append, List.sum_append, List.map_map]
  rfl

/-- A page of two rows or more keeps the hard cap. -/
theorem payload_le_hardCap
    (h : 1 < (mainOf db cursor limit maxBytes).length) :
    (syncPage order db cursor limit maxBytes).payload ≤ hardCapOf maxBytes := by
  have hperm : (appendedOf order db cursor limit maxBytes).Perm
      (neededRoots (mainOf db cursor limit maxBytes)
        (trimmed db (afterOf cursor) limit maxBytes).2.rows) :=
    (order.perm _).filter _
  have htotal : (syncPage order db cursor limit maxBytes).payload =
      total (mainOf db cursor limit maxBytes)
        (trimmed db (afterOf cursor) limit maxBytes).2 := by
    rw [payload_syncPage, (hperm.map SyncRecord.bytes).sum_eq]
    rfl
  rw [htotal]
  rcases trim_fits (hardCapOf maxBytes) (readRows db (afterOf cursor) limit maxBytes).reverse
    (readRoots db (afterOf cursor) (readRows db (afterOf cursor) limit maxBytes))
    with hshort | hfits
  · simp only [mainOf, trimmed, List.length_reverse] at h
    omega
  · rw [← total_reverse] at hfits
    exact hfits

theorem length_mainOf_le
    (hlimit : limit ≤ 1000) :
    (mainOf db cursor limit maxBytes).length ≤ limit.toNat := by
  have hle : limit.toNat ≤ 1000 := UInt64.le_iff_toNat_le.1 hlimit
  obtain ⟨popped, hread, _⟩ := trimmed_cases db (afterOf cursor) limit maxBytes
  have hmain : (mainOf db cursor limit maxBytes).length ≤
      (readRows db (afterOf cursor) limit maxBytes).length := by
    rw [hread, List.length_append]
    exact Nat.le_add_right _ _
  refine hmain.trans ((cutBytes_isPrefix _ _ _).length_le.trans ?_)
  unfold sqlLimit
  rw [if_pos (by omega), List.length_map, List.length_take]
  exact Nat.min_le_left _ _

/-- A page appends at most one root for each of its rows. -/
theorem length_appendedOf_le :
    (appendedOf order db cursor limit maxBytes).length ≤
      (mainOf db cursor limit maxBytes).length := by
  have hnodup : ((appendedOf order db cursor limit maxBytes).map SyncRecord.handle).Nodup := by
    have hall := ((order.perm (trimmed db (afterOf cursor) limit maxBytes).2.rows).map
      SyncRecord.handle).nodup_iff.2 (trimmed db (afterOf cursor) limit maxBytes).2.nodup
    exact hall.sublist (List.filter_sublist.map _)
  have hsubset : (appendedOf order db cursor limit maxBytes).map SyncRecord.handle ⊆
      subSpaces (mainOf db cursor limit maxBytes) := by
    intro handle hhandle
    obtain ⟨r, hr, rfl⟩ := List.mem_map.1 hhandle
    simpa using (List.mem_filter.1 hr).2
  have hlen := (hnodup.subperm hsubset).length_le
  rw [List.length_map, subSpaces, List.length_map] at hlen
  exact hlen.trans (List.length_filter_le _ _)

variable {order db cursor limit maxBytes}

/-- An appended root is a stored row, and a row of the page is a sub-handle of it. -/
theorem mem_appendedOf_of
    {rec : SyncRecord}
    (h : rec ∈ appendedOf order db cursor limit maxBytes) :
    (∃ r ∈ db.handles.rows, r.record = rec) ∧
      ∃ m ∈ mainOf db cursor limit maxBytes, m.1.IsSub ∧ m.1.spaceName = rec.handle := by
  obtain ⟨hmem, hneeded⟩ := List.mem_filter.1 h
  refine ⟨?_, mem_subSpaces.1 (by simpa using hneeded)⟩
  obtain ⟨popped, hread, _, hroots⟩ := trimmed_cases db (afterOf cursor) limit maxBytes
  rw [order.mem_arrange, hroots] at hmem
  rcases mem_foldl_rehome_of hmem with hfound | ⟨_, p, hp, rfl⟩
  · obtain ⟨r, hr, hrec, _⟩ := mem_readRoots.1 hfound
    exact ⟨r, hr, hrec⟩
  · have hpread : p ∈ readRows db (afterOf cursor) limit maxBytes := by
      rw [hread]
      exact List.mem_append_right _ (List.mem_reverse.2 hp)
    obtain ⟨r, hr, rfl⟩ := exists_row_of_mem_readRows hpread
    exact ⟨r, hr, rfl⟩

theorem sum_map_le
    {α : Type}
    {l : List α}
    {f : α → Nat}
    {bound : Nat}
    (h : ∀ a ∈ l, f a ≤ bound) :
    (l.map f).sum ≤ l.length * bound := by
  have hsum := List.sum_le_card_nsmul (l.map f) bound (by
    intro k hk
    obtain ⟨a, ha, rfl⟩ := List.mem_map.1 hk
    exact h a ha)
  simpa using hsum

variable (order cursor limit maxBytes)
variable {maxMessageSize : UInt64} {maxName : Nat} (hfit : RowsFit maxMessageSize maxName db)
include hfit

/-- A page of one row is bounded by two messages, a longer one by the hard cap too. -/
theorem payload_cases :
    (syncPage order db cursor limit maxBytes).payload ≤
        2 * (mainOf db cursor limit maxBytes).length * maxMessageSize.toNat ∧
      ((mainOf db cursor limit maxBytes).length ≤ 1 ∨
        (syncPage order db cursor limit maxBytes).payload ≤ hardCapOf maxBytes) := by
  constructor
  · have hmain : ((mainOf db cursor limit maxBytes).map (fun r => r.1.bytes)).sum ≤
        (mainOf db cursor limit maxBytes).length * maxMessageSize.toNat := by
      apply sum_map_le
      intro m hm
      obtain ⟨r, hr, rfl⟩ := stored_of_mem_mainOf hm
      exact hfit.bytes r hr
    have happended :
        ((appendedOf order db cursor limit maxBytes).map SyncRecord.bytes).sum ≤
          (appendedOf order db cursor limit maxBytes).length * maxMessageSize.toNat := by
      apply sum_map_le
      intro rec hrec
      obtain ⟨⟨r, hr, rfl⟩, _⟩ := mem_appendedOf_of hrec
      exact hfit.bytes r hr
    have hlen := Nat.mul_le_mul_right maxMessageSize.toNat
      (length_appendedOf_le order db cursor limit maxBytes)
    rw [payload_syncPage, Nat.mul_assoc]
    omega
  · by_cases hlong : 1 < (mainOf db cursor limit maxBytes).length
    · exact Or.inr (payload_le_hardCap order db cursor limit maxBytes hlong)
    · exact Or.inl (Nat.le_of_not_lt hlong)

/-- The names of a page: one for each row, and a shorter one for each appended root. -/
theorem sum_names_le :
    ((syncPage order db cursor limit maxBytes).records.map
        (fun r => r.handle.utf8ByteSize)).sum ≤
      (mainOf db cursor limit maxBytes).length * maxName +
        (appendedOf order db cursor limit maxBytes).length * (maxName - 1) := by
  rw [syncPage_records, List.map_append, List.sum_append, List.map_map]
  refine Nat.add_le_add (sum_map_le ?_) (sum_map_le ?_)
  · intro m hm
    obtain ⟨r, hr, rfl⟩ := stored_of_mem_mainOf hm
    exact hfit.names r hr
  · intro rec hrec
    obtain ⟨_, m, hm, hsub, hspace⟩ := mem_appendedOf_of hrec
    obtain ⟨r, hr, rfl⟩ := stored_of_mem_mainOf hm
    have hname := hfit.names r hr
    have hlt : rec.handle.utf8ByteSize < r.handle.utf8ByteSize := by
      rw [← hspace]
      exact utf8ByteSize_spaceNameOf_lt hsub
    omega

theorem utf8ByteSize_nextCursor_le
    {text : String}
    (h : (syncPage order db cursor limit maxBytes).nextCursor = some text) :
    text.utf8ByteSize ≤ 19 := by
  rw [syncPage_nextCursor, Option.map_eq_some_iff] at h
  obtain ⟨m, hm, rfl⟩ := h
  obtain ⟨r, hr, rfl⟩ := stored_of_mem_mainOf (List.mem_of_getLast? hm)
  have hseq := hfit.i64.rows r hr
  have hval : (SyncCursor.ofCounter r.syncSeq).val = r.syncSeq :=
    SyncCursor.ofCounter_val (by omega)
  rw [Row.served_snd, SyncCursor.display, hval, utf8ByteSize_repr,
    Nat.length_repr_le_iff (by decide)]
  omega

/-- **A bound on the encoded page** by its rows and its payload. -/
theorem borshLen_syncPage_le
    (hname : 1 ≤ maxName) :
    (syncPage order db cursor limit maxBytes).borshLen ≤
      28 + (mainOf db cursor limit maxBytes).length * (2 * maxName + 63) +
        (syncPage order db cursor limit maxBytes).payload := by
  have hnames := sum_names_le order cursor limit maxBytes hfit
  have hlen := length_appendedOf_le order db cursor limit maxBytes
  have hcursor : (syncPage order db cursor limit maxBytes).borshLen ≤
      28 + ((syncPage order db cursor limit maxBytes).records.map
        SyncRecord.borshLen).sum := by
    unfold SyncPage.borshLen
    cases h : (syncPage order db cursor limit maxBytes).nextCursor with
    | none =>
        simp only
        omega
    | some text =>
        have htext := utf8ByteSize_nextCursor_le order cursor limit maxBytes hfit h
        simp only [borshBlobLen]
        omega
  have hrecords : (syncPage order db cursor limit maxBytes).records.length =
      (mainOf db cursor limit maxBytes).length +
        (appendedOf order db cursor limit maxBytes).length := by
    rw [syncPage_records, List.length_append, List.length_map]
  have hroots := Nat.mul_le_mul_right (maxName - 1 + 32) hlen
  have hsplit : (mainOf db cursor limit maxBytes).length * (2 * maxName + 63) =
      (mainOf db cursor limit maxBytes).length * maxName +
        (mainOf db cursor limit maxBytes).length * (maxName - 1 + 32) +
        32 * (mainOf db cursor limit maxBytes).length := by
    obtain ⟨k, rfl⟩ := Nat.exists_eq_add_of_le' hname
    simp only [Nat.add_sub_cancel]
    ring
  rw [Nat.mul_add] at hroots
  rw [sum_borshLen, hrecords] at hcursor
  unfold SyncPage.payload
  omega

end Bound

section FullPage

/-- Three decimal digits. -/
def threeDigits (i : Nat) : List Char :=
  [(i / 100 % 10).digitChar, (i / 10 % 10).digitChar, (i % 10).digitChar]

/-- The name of the `i`-th root after its first character. -/
def rootText (maxName i : Nat) : List Char :=
  threeDigits i ++ List.replicate (maxName - 5) 'a'

/-- The `i`-th root, of the longest name that has a sub-handle. -/
def longRoot (maxName seq size i : Nat) : Row :=
  ⟨String.ofList ('@' :: rootText maxName i), String.ofList ('@' :: rootText maxName i),
    [], List.replicate size 0, 1, 1, 0, seq + 1, [0], 0, Nat.succ_pos seq⟩

/-- A sub-handle of the `i`-th root, of the longest name. -/
def longSub (maxName seq size i : Nat) : Row :=
  ⟨String.ofList ('a' :: '@' :: rootText maxName i),
    String.ofList ('@' :: rootText maxName i),
    [], List.replicate size 0, 1, 1, 0, seq + 1, [0], 0, Nat.succ_pos seq⟩

theorem digitChar_injOn :
    ∀ i < 10, ∀ j < 10, Nat.digitChar i = Nat.digitChar j → i = j := by
  decide

theorem rootText_injOn
    {maxName i j : Nat}
    (hi : i < 1000)
    (hj : j < 1000)
    (h : rootText maxName i = rootText maxName j) :
    i = j := by
  have hdigits : threeDigits i = threeDigits j := List.append_cancel_right h
  simp only [threeDigits, List.cons.injEq, and_true] at hdigits
  obtain ⟨hhundreds, htens, hones⟩ := hdigits
  have h₁ := digitChar_injOn _ (Nat.mod_lt _ (by omega)) _ (Nat.mod_lt _ (by omega)) hhundreds
  have h₂ := digitChar_injOn _ (Nat.mod_lt _ (by omega)) _ (Nat.mod_lt _ (by omega)) htens
  have h₃ := digitChar_injOn _ (Nat.mod_lt _ (by omega)) _ (Nat.mod_lt _ (by omega)) hones
  omega

theorem isDigit_digitChar :
    ∀ i < 10, (Nat.digitChar i).isDigit = true := by
  decide

theorem utf8Size_rootText
    {maxName : Nat}
    (hname : 5 ≤ maxName)
    (i : Nat) :
    ((rootText maxName i).map Char.utf8Size).sum = maxName - 2 := by
  have hdigit : ∀ k : Nat, (Nat.digitChar (k % 10)).utf8Size = 1 := fun k =>
    utf8Size_of_isDigit (isDigit_digitChar _ (Nat.mod_lt _ (by omega)))
  have ha : Char.utf8Size 'a' = 1 := by
    decide
  simp only [rootText, threeDigits, List.map_append, List.map_cons, List.map_nil,
    List.map_replicate, List.sum_append, List.sum_cons, List.sum_nil, List.sum_replicate,
    hdigit, ha, smul_eq_mul]
  omega

theorem spaceNameOf_sub
    (text : List Char) :
    spaceNameOf (String.ofList ('a' :: '@' :: text)) = String.ofList ('@' :: text) := by
  simp [spaceNameOf]

variable (maxName : Nat) (size : Nat → Nat) (n : Nat)

/-- `n` sub-handles of as many spaces, their `sync_seq` of 19 digits. -/
def fullSubs : List Row :=
  (List.range n).map (fun i => longSub maxName (10 ^ 18 + i) (size i) i)

/-- Their roots, all republished after them. -/
def fullRoots : List Row :=
  (List.range n).map (fun i => longRoot maxName (10 ^ 18 + n + i) (size i) i)

variable {n}

theorem nodup_fullRows
    (hn : n ≤ 1000) :
    ((fullSubs maxName size n ++ fullRoots maxName size n).map Row.handle).Nodup := by
  rw [List.map_append, List.nodup_append, fullSubs, fullRoots, List.map_map, List.map_map]
  refine ⟨?_, ?_, ?_⟩
  · refine List.nodup_range.map_on fun i hi j hj h => ?_
    have htext := (List.cons.inj (List.cons.inj (String.ofList_injective h)).2).2
    rw [List.mem_range] at hi hj
    exact rootText_injOn (by omega) (by omega) htext
  · refine List.nodup_range.map_on fun i hi j hj h => ?_
    have htext := (List.cons.inj (String.ofList_injective h)).2
    rw [List.mem_range] at hi hj
    exact rootText_injOn (by omega) (by omega) htext
  · intro a ha b hb h
    obtain ⟨i, _, rfl⟩ := List.mem_map.1 ha
    obtain ⟨j, _, rfl⟩ := List.mem_map.1 hb
    have hhead := (List.cons.inj (String.ofList_injective h)).1
    exact absurd hhead (by decide)

/-- A store whose first page of `n` rows is as large as it can be. -/
def fullStore (hn : n ≤ 1000) : Tables :=
  { Tables.init with
    handles :=
      { rows := fullSubs maxName size n ++ fullRoots maxName size n
        nodup := nodup_fullRows maxName size hn }
    syncCounter := 10 ^ 18 + 2 * n }

theorem handles_fullStore
    (hn : n ≤ 1000) :
    (fullStore maxName size hn).handles.rows =
      fullSubs maxName size n ++ fullRoots maxName size n := by
  rfl

theorem ascending_fullRows :
    (fullSubs maxName size n ++ fullRoots maxName size n).Pairwise
      (fun a b => a.syncSeq ≤ b.syncSeq) := by
  have hrange : (List.range n).Pairwise (· < ·) := List.pairwise_lt_range
  rw [List.pairwise_append, fullSubs, fullRoots, List.pairwise_map, List.pairwise_map]
  refine ⟨hrange.imp fun h => ?_, hrange.imp fun h => ?_, ?_⟩
  · simp only [longSub]
    omega
  · simp only [longRoot]
    omega
  · intro a ha b hb
    obtain ⟨i, hi, rfl⟩ := List.mem_map.1 ha
    obtain ⟨j, _, rfl⟩ := List.mem_map.1 hb
    rw [List.mem_range] at hi
    simp only [longSub, longRoot]
    omega

/-- The reading loop keeps every row if all but the last stay under the bound. -/
theorem cutBytes_eq_self
    {maxBytes bytes : Nat}
    {rows : List (SyncRecord × Nat)}
    (h : bytes + (rows.dropLast.map (fun r => r.1.bytes)).sum ≤ maxBytes) :
    cutBytes maxBytes bytes rows = rows := by
  induction rows generalizing bytes with
  | nil =>
      rfl
  | cons row rows ih =>
      cases rows with
      | nil =>
          simp [cutBytes]
      | cons next rows =>
          rw [List.dropLast_cons_cons, List.map_cons, List.sum_cons] at h
          rw [cutBytes, if_neg (by omega), ih (by omega)]

/-- A page that fits, and a page of one row, stays as it was read. -/
theorem trim_eq_self
    {hardCap : Nat}
    {main : List (SyncRecord × Nat)}
    {roots : Roots}
    (h : main.length ≤ 1 ∨ total main roots ≤ hardCap) :
    trim hardCap main roots = (main, roots) := by
  rcases main with _ | ⟨popped, _ | ⟨row, rest⟩⟩
  · rfl
  · rfl
  · rcases h with hshort | hfits
    · simp at hshort
    · rw [trim, if_neg (Nat.not_lt_of_le hfits)]

theorem selection_fullStore
    (hn : n ≤ 1000) :
    selection (fullStore maxName size hn) 0 =
      fullSubs maxName size n ++ fullRoots maxName size n := by
  have hall : (fullStore maxName size hn).handles.rows.filter
      (fun r => decide ((0 : Int) < (r.syncSeq : Int))) =
      (fullStore maxName size hn).handles.rows := by
    apply List.filter_eq_self.2
    intro r _
    have := r.syncSeq_pos
    simpa using this
  unfold selection orderBySyncSeq
  rw [hall, handles_fullStore]
  exact (ascending_fullRows maxName size).insertionSort_eq

theorem readRows_fullStore
    (hn : n ≤ 1000)
    {maxBytes : UInt64}
    (hbytes : ((List.range n).dropLast.map size).sum ≤ maxBytes.toNat) :
    readRows (fullStore maxName size hn) 0 (UInt64.ofNat n) maxBytes =
      (fullSubs maxName size n).map Row.served := by
  have htoNat : (UInt64.ofNat n).toNat = n :=
    UInt64.toNat_ofNat_of_lt' (lt_of_le_of_lt hn (by decide))
  unfold readRows sqlLimit
  rw [htoNat, if_pos (by omega), selection_fullStore]
  have hlen : (fullSubs maxName size n).length = n := by
    simp [fullSubs]
  rw [List.take_left' hlen]
  apply cutBytes_eq_self
  simp only [fullSubs, List.map_map, ← List.map_dropLast, Nat.zero_add]
  refine le_of_eq_of_le (congrArg List.sum (List.map_congr_left fun i _ => ?_)) hbytes
  simp [longSub, Row.served, Row.record, SyncRecord.bytes]

theorem subSpaces_fullSubs :
    subSpaces ((fullSubs maxName size n).map Row.served) =
      (fullRoots maxName size n).map Row.handle := by
  have hsub : ((fullSubs maxName size n).map Row.served).filter
      (fun r => decide r.1.IsSub) = (fullSubs maxName size n).map Row.served := by
    apply List.filter_eq_self.2
    intro m hm
    simp only [fullSubs, List.map_map, List.mem_map] at hm
    obtain ⟨i, _, rfl⟩ := hm
    simp only [decide_eq_true_eq]
    show String.ofList ('a' :: '@' :: rootText maxName i) ≠
      spaceNameOf (String.ofList ('a' :: '@' :: rootText maxName i))
    rw [spaceNameOf_sub]
    intro h
    exact absurd (List.cons.inj (String.ofList_injective h)).1 (by decide)
  unfold subSpaces
  rw [hsub, fullSubs, fullRoots, List.map_map, List.map_map, List.map_map]
  apply List.map_congr_left
  intro i _
  simp only [Function.comp_apply, Row.served, SyncRecord.spaceName, longSub, longRoot]
  exact spaceNameOf_sub (rootText maxName i)

theorem getLast?_fullSubs
    (hpos : 1 ≤ n) :
    ((fullSubs maxName size n).map Row.served).getLast?.map Prod.snd = some (10 ^ 18 + n) := by
  obtain ⟨k, rfl⟩ := Nat.exists_eq_add_of_le' hpos
  simp [fullSubs, List.range_succ, longSub, Row.served, Nat.add_assoc]

theorem rows_readRoots_fullStore
    (hn : n ≤ 1000)
    (hpos : 1 ≤ n) :
    (readRoots (fullStore maxName size hn) 0 ((fullSubs maxName size n).map Row.served)).rows =
      (fullRoots maxName size n).map Row.record := by
  have hlast : lastSeq 0 ((fullSubs maxName size n).map Row.served) = ((10 ^ 18 + n : ℕ) : ℤ) := by
    have hseq := getLast?_fullSubs maxName size hpos
    obtain ⟨row, hrow, hsnd⟩ := Option.map_eq_some_iff.1 hseq
    simp only [lastSeq, hrow, hsnd]
  have hne : ((fullRoots maxName size n).map Row.handle).isEmpty = false := by
    obtain ⟨k, rfl⟩ := Nat.exists_eq_add_of_le' hpos
    simp [fullRoots, List.range_succ]
  unfold readRoots
  rw [subSpaces_fullSubs, hne, if_neg (by decide), hlast]
  show List.map Row.record (List.filter _ (fullStore maxName size hn).handles.rows) = _
  rw [handles_fullStore, List.filter_append]
  have hsubs : (fullSubs maxName size n).filter (fun r =>
      decide (r.handle ∈ (fullRoots maxName size n).map Row.handle) &&
        decide (r.handle = r.space) &&
        decide (((10 ^ 18 + n : ℕ) : ℤ) < (r.syncSeq : ℤ))) = [] := by
    apply List.filter_eq_nil_iff.2
    intro r hr
    obtain ⟨i, _, rfl⟩ := List.mem_map.1 hr
    have hne : (longSub maxName (10 ^ 18 + i) (size i) i).handle ≠
        (longSub maxName (10 ^ 18 + i) (size i) i).space := by
      intro h
      exact absurd (List.cons.inj (String.ofList_injective h)).1 (by decide)
    simp only [decide_eq_false hne, Bool.and_false, Bool.false_and, Bool.false_eq_true,
      not_false_eq_true]
  have hroots : (fullRoots maxName size n).filter (fun r =>
      decide (r.handle ∈ (fullRoots maxName size n).map Row.handle) &&
        decide (r.handle = r.space) &&
        decide (((10 ^ 18 + n : ℕ) : ℤ) < (r.syncSeq : ℤ))) = fullRoots maxName size n := by
    apply List.filter_eq_self.2
    intro r hr
    have hmem := List.mem_map_of_mem (f := Row.handle) hr
    obtain ⟨i, _, rfl⟩ := List.mem_map.1 hr
    have hlt : 10 ^ 18 + n < (longRoot maxName (10 ^ 18 + n + i) (size i) i).syncSeq := by
      simp only [longRoot]
      omega
    simp only [Bool.and_eq_true, decide_eq_true_eq, Nat.cast_lt]
    exact ⟨⟨hmem, rfl⟩, hlt⟩
  rw [hsubs, hroots, List.nil_append]

theorem bytes_longRows
    (seq i : Nat) :
    (longSub maxName seq (size i) i).record.bytes = size i ∧
      (longRoot maxName seq (size i) i).record.bytes = size i := by
  simp [longSub, longRoot, Row.record, SyncRecord.bytes]

theorem sum_bytes_fullRows :
    ((fullSubs maxName size n).map (fun r => r.record.bytes)).sum =
        ((List.range n).map size).sum ∧
      ((fullRoots maxName size n).map (fun r => r.record.bytes)).sum =
        ((List.range n).map size).sum := by
  simp only [fullSubs, fullRoots, List.map_map]
  constructor
  · exact congrArg List.sum
      (List.map_congr_left fun i _ => (bytes_longRows maxName size _ i).1)
  · exact congrArg List.sum
      (List.map_congr_left fun i _ => (bytes_longRows maxName size _ i).2)

theorem neededRoots_fullRoots :
    neededRoots ((fullSubs maxName size n).map Row.served)
        ((fullRoots maxName size n).map Row.record) =
      (fullRoots maxName size n).map Row.record := by
  apply List.filter_eq_self.2
  intro rec hrec
  obtain ⟨r, hr, rfl⟩ := List.mem_map.1 hrec
  rw [subSpaces_fullSubs]
  simpa using ⟨r, hr, rfl⟩

/-- The first page of the store ships all sub-handles and all roots. -/
theorem syncPage_fullStore
    (hn : n ≤ 1000)
    (hpos : 1 ≤ n)
    {maxBytes : UInt64}
    (hbytes : ((List.range n).dropLast.map size).sum ≤ maxBytes.toNat)
    (hcap : n = 1 ∨ 2 * ((List.range n).map size).sum ≤ hardCapOf maxBytes) :
    syncPage HashOrder.inserted (fullStore maxName size hn) none (UInt64.ofNat n) maxBytes =
      { records := (fullSubs maxName size n).map Row.record ++
          (fullRoots maxName size n).map Row.record
        nextCursor := some (10 ^ 18 + n : ℕ).repr } := by
  have hread : readRows (fullStore maxName size hn) (afterOf none) (UInt64.ofNat n) maxBytes =
      (fullSubs maxName size n).map Row.served :=
    readRows_fullStore maxName size hn hbytes
  have hroots := rows_readRoots_fullStore maxName size hn hpos
  have htotal : total ((fullSubs maxName size n).map Row.served)
      (readRoots (fullStore maxName size hn) 0 ((fullSubs maxName size n).map Row.served)) =
        2 * ((List.range n).map size).sum := by
    have hsum := sum_bytes_fullRows maxName size (n := n)
    unfold total
    rw [hroots, neededRoots_fullRoots, List.map_map, List.map_map, two_mul]
    exact congrArg₂ _ hsum.1 hsum.2
  have hcap' : ((fullSubs maxName size n).map Row.served).reverse.length ≤ 1 ∨
      total ((fullSubs maxName size n).map Row.served).reverse
        (readRoots (fullStore maxName size hn) 0
          ((fullSubs maxName size n).map Row.served)) ≤ hardCapOf maxBytes := by
    rw [total_reverse, htotal]
    exact hcap.imp_left fun h => by simp [fullSubs, h]
  have htrimmed : trimmed (fullStore maxName size hn) (afterOf none) (UInt64.ofNat n) maxBytes =
      ((fullSubs maxName size n).map Row.served,
        readRoots (fullStore maxName size hn) 0 ((fullSubs maxName size n).map Row.served)) := by
    unfold trimmed
    rw [hread]
    show ((trim (hardCapOf maxBytes) _ (readRoots _ 0 _)).1.reverse,
      (trim (hardCapOf maxBytes) _ (readRoots _ 0 _)).2) = _
    rw [trim_eq_self hcap', List.reverse_reverse]
  have hseq : (SyncCursor.ofCounter (10 ^ 18 + n)).val = 10 ^ 18 + n :=
    SyncCursor.ofCounter_val (by omega)
  obtain ⟨row, hrow, hsnd⟩ := Option.map_eq_some_iff.1 (getLast?_fullSubs maxName size hpos)
  unfold syncPage
  rw [htrimmed]
  show SyncPage.mk (_ ++ neededRoots _ (readRoots _ 0 _).rows) _ = _
  rw [hroots, neededRoots_fullRoots, hrow, List.map_map]
  simp only [Option.map_some, hsnd, SyncCursor.display, hseq]
  rfl

/-- The counter of a full store has as many digits as a counter can have. -/
theorem utf8ByteSize_fullCounter
    (hn : n ≤ 1000) :
    (10 ^ 18 + n : ℕ).repr.utf8ByteSize = 19 := by
  rw [utf8ByteSize_repr]
  have hle : (10 ^ 18 + n : ℕ).repr.length ≤ 19 :=
    (Nat.length_repr_le_iff (by decide)).2 (by omega)
  have hlt : ¬ (10 ^ 18 + n : ℕ).repr.length ≤ 18 := fun h =>
    absurd ((Nat.length_repr_le_iff (by decide)).1 h) (by omega)
  omega

theorem handleSizes_fullSubs
    (hname : 5 ≤ maxName) :
    ((fullSubs maxName size n).map Row.record).map (fun r => r.handle.utf8ByteSize) =
      List.replicate n maxName := by
  apply List.eq_replicate_iff.2
  refine ⟨by simp [fullSubs], fun k hk => ?_⟩
  simp only [fullSubs, List.map_map, List.mem_map] at hk
  obtain ⟨i, _, rfl⟩ := hk
  have htext := utf8Size_rootText hname i
  have hab : Char.utf8Size 'a' + Char.utf8Size '@' = 2 := by
    decide
  simp only [Function.comp_apply, Row.record, longSub, utf8ByteSize_ofList,
    List.map_cons, List.sum_cons, htext]
  omega

theorem handleSizes_fullRoots
    (hname : 5 ≤ maxName) :
    ((fullRoots maxName size n).map Row.record).map (fun r => r.handle.utf8ByteSize) =
      List.replicate n (maxName - 1) := by
  apply List.eq_replicate_iff.2
  refine ⟨by simp [fullRoots], fun k hk => ?_⟩
  simp only [fullRoots, List.map_map, List.mem_map] at hk
  obtain ⟨i, _, rfl⟩ := hk
  have htext := utf8Size_rootText hname i
  have hat : Char.utf8Size '@' = 1 := by
    decide
  simp only [Function.comp_apply, Row.record, longRoot, utf8ByteSize_ofList,
    List.map_cons, List.sum_cons, htext]
  omega

/-- **The bound on the encoded page is attained.** -/
theorem borshLen_fullPage
    (hn : n ≤ 1000)
    (hpos : 1 ≤ n)
    (hname : 5 ≤ maxName)
    (maxBytes : UInt64)
    (hbytes : ((List.range n).dropLast.map size).sum ≤ maxBytes.toNat)
    (hcap : n = 1 ∨ 2 * ((List.range n).map size).sum ≤ hardCapOf maxBytes) :
    (syncPage HashOrder.inserted (fullStore maxName size hn) none (UInt64.ofNat n)
        maxBytes).borshLen =
      28 + n * (2 * maxName + 63) + 2 * ((List.range n).map size).sum := by
  have hsum := sum_bytes_fullRows maxName size (n := n)
  rw [syncPage_fullStore maxName size hn hpos hbytes hcap, SyncPage.borshLen, sum_borshLen]
  simp only [List.map_append, List.sum_append, List.length_append, List.length_map,
    handleSizes_fullSubs maxName size hname, handleSizes_fullRoots maxName size hname,
    List.sum_replicate, smul_eq_mul, borshBlobLen, utf8ByteSize_fullCounter hn]
  rw [List.map_map, List.map_map]
  have hbytes₁ : ((fullSubs maxName size n).map (SyncRecord.bytes ∘ Row.record)).sum =
      ((List.range n).map size).sum := hsum.1
  have hbytes₂ : ((fullRoots maxName size n).map (SyncRecord.bytes ∘ Row.record)).sum =
      ((List.range n).map size).sum := hsum.2
  have hlen₁ : (fullSubs maxName size n).length = n := by
    simp [fullSubs]
  have hlen₂ : (fullRoots maxName size n).length = n := by
    simp [fullRoots]
  rw [hbytes₁, hbytes₂, hlen₁, hlen₂]
  obtain ⟨k, rfl⟩ := Nat.exists_eq_add_of_le' (le_trans (by decide : 1 ≤ 5) hname)
  simp only [Nat.add_sub_cancel]
  ring

theorem rowsFit_fullStore
    {maxMessageSize : UInt64}
    (hn : n ≤ 1000)
    (hname : 5 ≤ maxName)
    (hsize : ∀ i < n, size i ≤ maxMessageSize.toNat) :
    RowsFit maxMessageSize maxName (fullStore maxName size hn) := by
  have hrows : ∀ r ∈ (fullStore maxName size hn).handles.rows, ∃ i < n,
      r = longSub maxName (10 ^ 18 + i) (size i) i ∨
        r = longRoot maxName (10 ^ 18 + n + i) (size i) i := by
    intro r hr
    rw [handles_fullStore] at hr
    rcases List.mem_append.1 hr with hsub | hroot
    · obtain ⟨i, hi, rfl⟩ := List.mem_map.1 hsub
      exact ⟨i, List.mem_range.1 hi, Or.inl rfl⟩
    · obtain ⟨i, hi, rfl⟩ := List.mem_map.1 hroot
      exact ⟨i, List.mem_range.1 hi, Or.inr rfl⟩
  have hchars : Char.utf8Size 'a' = 1 ∧ Char.utf8Size '@' = 1 := by
    decide
  constructor
  · constructor
    · show 10 ^ 18 + 2 * n < 2 ^ 63
      omega
    · intro r hr
      obtain ⟨i, hi, rfl | rfl⟩ := hrows r hr
      · show 10 ^ 18 + i + 1 < 2 ^ 63
        omega
      · show 10 ^ 18 + n + i + 1 < 2 ^ 63
        omega
  · intro r hr
    obtain ⟨i, hi, rfl | rfl⟩ := hrows r hr
    · rw [(bytes_longRows maxName size _ i).1]
      exact hsize i hi
    · rw [(bytes_longRows maxName size _ i).2]
      exact hsize i hi
  · intro r hr
    obtain ⟨i, _, rfl | rfl⟩ := hrows r hr
    · simp only [longSub, utf8ByteSize_ofList, List.map_cons, List.sum_cons,
        utf8Size_rootText hname, hchars.1, hchars.2]
      omega
    · simp only [longRoot, utf8ByteSize_ofList, List.map_cons, List.sum_cons,
        utf8Size_rootText hname, hchars.2]
      omega

end FullPage

section Acceptance

theorem maxPageBytesOf_le
    (maxMessageSize : UInt64) :
    (maxPageBytesOf maxMessageSize).toNat ≤ 4194304 + maxMessageSize.toNat := by
  unfold maxPageBytesOf maxSyncPageBytes
  rw [UInt64.toNat_add]
  exact Nat.mod_le _ _

theorem maxPageBytesOf_eq
    {maxMessageSize : UInt64}
    (h : maxMessageSize.toNat ≤ 4194304) :
    (maxPageBytesOf maxMessageSize).toNat = 4194304 + maxMessageSize.toNat := by
  unfold maxPageBytesOf maxSyncPageBytes
  rw [UInt64.toNat_add]
  exact Nat.mod_eq_of_lt (by simp; omega)

theorem hardCapOf_maxSyncPageBytes : hardCapOf maxSyncPageBytes = 4194304 := by
  decide

/-- A sub-handle and its root, both as large as a message. -/
theorem lt_borshLen_pair
    {maxMessageSize : UInt64}
    {maxName : Nat}
    (hname : 5 ≤ maxName)
    (h : 4194304 < maxMessageSize.toNat + 2 * maxName + 91) :
    ∃ db, RowsFit maxMessageSize maxName db ∧
      (maxPageBytesOf maxMessageSize).toNat <
        (syncPage HashOrder.inserted db none 1 maxSyncPageBytes).borshLen := by
  refine ⟨fullStore maxName (fun _ => maxMessageSize.toNat) (by decide : 1 ≤ 1000),
    rowsFit_fullStore _ _ _ hname (fun _ _ => le_rfl), ?_⟩
  have hlen := borshLen_fullPage maxName (fun _ => maxMessageSize.toNat)
    (by decide : 1 ≤ 1000) le_rfl hname maxSyncPageBytes
    (by simp) (Or.inl rfl)
  have hle := maxPageBytesOf_le maxMessageSize
  rw [show (1 : UInt64) = UInt64.ofNat 1 from rfl, hlen]
  simp
  omega

/-- Sizes that differ by one add up to any total. -/
theorem sum_spread
    (a k n : Nat) :
    ((List.range n).map (fun i => if i < k then a + 1 else a)).sum = n * a + min n k := by
  induction n with
  | zero =>
      simp
  | succ n ih =>
      rw [List.range_succ, List.map_append, List.sum_append, ih]
      simp only [List.map_cons, List.map_nil, List.sum_cons, List.sum_nil, Nat.add_mul]
      split_ifs with h <;> omega

/-- Sizes of a thousand rows, none above a message and together what the soft cap
allows. -/
theorem exists_sizes
    (m : Nat) :
    ∃ size : Nat → Nat, (∀ i < 1000, size i ≤ m) ∧
      ((List.range 1000).map size).sum = min 2097152 (1000 * m) := by
  by_cases hm : m ≤ 2097
  · refine ⟨fun _ => m, fun _ _ => le_rfl, ?_⟩
    rw [List.map_const', List.sum_replicate, List.length_range, smul_eq_mul]
    omega
  · refine ⟨fun i => if i < 152 then 2097 + 1 else 2097, fun i _ => ?_, ?_⟩
    · dsimp only
      split_ifs <;> omega
    · rw [sum_spread]
      omega

/-- A thousand sub-handles of a thousand spaces, all of the longest name, whose
rows share the bytes that the caps allow. -/
theorem lt_borshLen_thousand
    {maxMessageSize : UInt64}
    {maxName : Nat}
    (hname : 5 ≤ maxName)
    (h : 4194304 + maxMessageSize.toNat <
      28 + 1000 * (2 * maxName + 63) + min 4194304 (2000 * maxMessageSize.toNat)) :
    ∃ db, RowsFit maxMessageSize maxName db ∧
      (maxPageBytesOf maxMessageSize).toNat <
        (syncPage HashOrder.inserted db none 1000 maxSyncPageBytes).borshLen := by
  obtain ⟨size, hsize, hsum⟩ := exists_sizes maxMessageSize.toNat
  have hcap : 2 * ((List.range 1000).map size).sum ≤ hardCapOf maxSyncPageBytes := by
    rw [hsum, hardCapOf_maxSyncPageBytes]
    omega
  have hbytes : ((List.range 1000).dropLast.map size).sum ≤ maxSyncPageBytes.toNat := by
    have hsub : ((List.range 1000).dropLast.map size).Sublist ((List.range 1000).map size) :=
      (List.dropLast_sublist _).map size
    have hle := hsub.sum_le_sum (fun _ _ => Nat.zero_le _)
    have hsoft : maxSyncPageBytes.toNat = 2097152 := rfl
    omega
  refine ⟨fullStore maxName size (le_refl 1000), rowsFit_fullStore _ _ _ hname hsize, ?_⟩
  have hlen := borshLen_fullPage maxName size (le_refl 1000) (by decide) hname
    maxSyncPageBytes hbytes (Or.inr hcap)
  have hle := maxPageBytesOf_le maxMessageSize
  rw [show (1000 : UInt64) = UInt64.ofNat 1000 from rfl, hlen, hsum]
  omega

/-- **The message sizes for which every page is accepted**: a row and its root may
both be as large as a message, and a thousand records with their names and lengths
must fit into the slack of one message. -/
theorem pagesAccepted_iff
    (maxMessageSize : UInt64)
    {maxName : Nat}
    (hname : 5 ≤ maxName) :
    PagesAccepted maxMessageSize maxName ↔
      maxMessageSize.toNat + 2 * maxName + 91 ≤ 4194304 ∧
        28 + 1000 * (2 * maxName + 63) + min 4194304 (2000 * maxMessageSize.toNat) ≤
          4194304 + maxMessageSize.toNat := by
  constructor
  · intro haccepted
    constructor
    · by_contra hlt
      obtain ⟨db, hfit, hlong⟩ := lt_borshLen_pair hname (Nat.lt_of_not_le hlt)
      exact absurd (haccepted .inserted db none 1 hfit (by decide) (by decide))
        (Nat.not_le_of_lt hlong)
    · by_contra hlt
      obtain ⟨db, hfit, hlong⟩ := lt_borshLen_thousand hname (Nat.lt_of_not_le hlt)
      exact absurd (haccepted .inserted db none 1000 hfit (by decide) (by decide))
        (Nat.not_le_of_lt hlong)
  · rintro ⟨hpair, hthousand⟩ order db cursor limit hfit _ hlimit
    have hrows : (mainOf db cursor limit maxSyncPageBytes).length ≤ 1000 :=
      (length_mainOf_le db cursor limit maxSyncPageBytes hlimit).trans
        (UInt64.le_iff_toNat_le.1 hlimit)
    have hbound := borshLen_syncPage_le order cursor limit maxSyncPageBytes hfit
      (le_trans (by decide) hname)
    obtain ⟨hmessages, hcap⟩ := payload_cases order cursor limit maxSyncPageBytes hfit
    rw [hardCapOf_maxSyncPageBytes] at hcap
    rw [maxPageBytesOf_eq (by omega)]
    rcases hcap with hone | hcap
    · -- at most one row: two messages and their names
      have hnames := Nat.mul_le_mul_right (2 * maxName + 63) hone
      have hbytes := Nat.mul_le_mul_right (2 * maxMessageSize.toNat) hone
      have hcomm : 2 * (mainOf db cursor limit maxSyncPageBytes).length *
          maxMessageSize.toNat =
          (mainOf db cursor limit maxSyncPageBytes).length * (2 * maxMessageSize.toNat) := by
        ring
      omega
    · have hnames := Nat.mul_le_mul_right (2 * maxName + 63) hrows
      have hbytes := Nat.mul_le_mul_right (2 * maxMessageSize.toNat) hrows
      have hcomm : 2 * (mainOf db cursor limit maxSyncPageBytes).length *
          maxMessageSize.toNat =
          (mainOf db cursor limit maxSyncPageBytes).length * (2 * maxMessageSize.toNat) := by
        ring
      have hmin : (syncPage order db cursor limit maxSyncPageBytes).payload ≤
          min 4194304 (2000 * maxMessageSize.toNat) :=
        Nat.le_min.2 ⟨hcap, by omega⟩
      omega

/-- At the default message size names of up to 230 bytes are accepted. -/
theorem pagesAccepted_default :
    PagesAccepted (512 * 1024) 230 :=
  (pagesAccepted_iff (512 * 1024) (by decide)).2 (by decide)

/-- At a message size of 5 MiB the page of one sub-handle and its root is too large. -/
theorem rejectedPage_of_raised_limit :
    RowsFit (5 * 1024 * 1024) 5 (fullStore 5 (fun _ => 5 * 1024 * 1024)
        (by decide : 1 ≤ 1000)) ∧
      (maxPageBytesOf (5 * 1024 * 1024)).toNat <
        (syncPage HashOrder.inserted (fullStore 5 (fun _ => 5 * 1024 * 1024)
          (by decide : 1 ≤ 1000)) none 1 maxSyncPageBytes).borshLen := by
  refine ⟨rowsFit_fullStore _ _ _ le_rfl (fun _ _ => by decide), ?_⟩
  have hlen := borshLen_fullPage 5 (fun _ => 5 * 1024 * 1024) (by decide : 1 ≤ 1000)
    le_rfl le_rfl maxSyncPageBytes (by simp) (Or.inl rfl)
  rw [show (1 : UInt64) = UInt64.ofNat 1 from rfl, hlen]
  decide

end Acceptance

end CertRelay
