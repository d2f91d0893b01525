import CertRelay.Lib.Framing
import CertRelay.Relay.HandleQuery
import CertRelay.Relay.PreSkip

/-!
# The entity tags of queries

The tag of a query is a hash over the handles that it covers, each with the hash of its
stored zone or a mark that nothing is stored.  The handles stand in order and once each, so
the tag depends on the set of handles and on the stored hashes only.

`SHA-256` has 32 bytes; that it does not collide is assumed of the two texts that are
compared, and of the stored hashes that none begins with the mark.

**Results.**
* `mem_versionHandles`: the handles that a query covers;
* `hashesStored_of_reachable`: every reachable store has the hashes of its zones;
* `versionText_inj`: what is hashed determines the stored hashes;
* `conditional_queries_fresh`: when two tags agree, and when a request with a tag is answered
  by its status only.
-/

namespace CertRelay
namespace HandleQuery

open Framing

section Stores

variable (V : Crates)

/-- The stored hash of a handle's zone. -/
def storedHash (db : Tables) (handle : String) : Option Bytes :=
  (db.handles.find? handle).map Row.zoneHash

/-- Every row has the hash of its zone. -/
def HashesStored (db : Tables) : Prop :=
  ∀ r ∈ db.handles.rows, r.zoneHash = zoneHash V r.zoneData

/-- A store whose hashes can stand in a version: they are those of the zones, and none begins
with the mark of an absent handle. -/
structure Versioned (db : Tables) : Prop where
  hashed : HashesStored V db
  unmarked : ∀ r ∈ db.handles.rows, ¬ absent <+: r.zoneHash

/-- Two texts do not collide. -/
def NoCollision (a b : Bytes) : Prop :=
  V.sha256 a = V.sha256 b → a = b

variable {V}

theorem hashesStored_runCall
    {db : Tables}
    (hdb : HashesStored V db)
    (call : StoreCall) :
    HashesStored V (runCall V db call) :=
  forall_rows_runCall V hdb (fun _ _ _ _ r hr => by rw [hr.zoneHash, hr.zoneData]) call

/-- **Every reachable store has the hashes of its zones.** -/
theorem hashesStored_of_reachable
    {db : Tables}
    (h : Reachable V db) :
    HashesStored V db := by
  obtain ⟨calls, rfl⟩ := h
  exact List.foldlRecOn calls (runCall V) (List.forall_mem_nil _)
    (fun _ hdb call _ => hashesStored_runCall hdb call)

end Stores

section Covered

/-- A query covers the spaces of its parts and the handles below them. -/
def Covers (q handle : String) : Prop :=
  ∃ part ∈ requestedHandles q, ∃ space label, spaceAndLabel part = some (space, label) ∧
    (handle = space ∨ handle = part)

theorem mem_coveredNames
    {bySpace : List (String × List String)}
    {handle : String} :
    handle ∈ coveredNames bySpace ↔ ∃ space labels, (space, labels) ∈ bySpace ∧
      (handle = space ∨ ∃ l ∈ labels, l ≠ "" ∧ handle = l ++ space) := by
  unfold coveredNames
  rw [List.mem_flatMap, Prod.exists]
  refine exists_congr (fun space => exists_congr (fun labels => and_congr_right (fun _ => ?_)))
  rw [List.mem_cons, List.mem_map]
  refine or_congr_right (exists_congr (fun l => ?_))
  rw [List.mem_filter, Bool.not_eq_true', Bool.eq_false_iff, Ne, String.isEmpty_iff, and_assoc,
    @eq_comm _ handle]

/-- **The handles whose hashes make the version of a query** are those that it covers. -/
theorem mem_versionHandles
    {order : HashOrder (String × List String)}
    {q handle : String} :
    handle ∈ versionHandles order q ↔ Covers q handle := by
  unfold versionHandles
  rw [Grouping.mem_sortedDistinct, mem_coveredNames]
  constructor
  · rintro ⟨space, labels, hentry, hhandle⟩
    rw [HashOrder.mem_arrange] at hentry
    rcases hhandle with rfl | ⟨l, hl, _, rfl⟩
    · obtain ⟨l, hl⟩ := List.exists_mem_of_ne_nil _ (Tally.mem_tally.1 hentry).2
      obtain ⟨part, hpart, heq⟩ := List.mem_filterMap.1 ((mem_bySpaceOf hentry).1 hl)
      exact ⟨part, hpart, handle, l, heq, Or.inl rfl⟩
    · obtain ⟨part, hpart, heq⟩ := List.mem_filterMap.1 ((mem_bySpaceOf hentry).1 hl)
      exact ⟨part, hpart, space, l, heq, Or.inr (label_append_space heq)⟩
  · rintro ⟨part, hpart, space, label, heq, hhandle⟩
    have hvote : (space, label) ∈ (requestedHandles q).filterMap spaceAndLabel :=
      List.mem_filterMap.2 ⟨part, hpart, heq⟩
    have hkey : space ∈ (bySpaceOf (requestedHandles q)).map Prod.fst :=
      Tally.mem_keys_tally.2 (List.mem_map.2 ⟨_, hvote, rfl⟩)
    obtain ⟨⟨space, labels⟩, hentry, rfl⟩ := List.mem_map.1 hkey
    refine ⟨space, labels, order.mem_arrange.2 hentry, ?_⟩
    rcases hhandle with rfl | rfl
    · exact Or.inl rfl
    · by_cases hlabel : label = ""
      · left
        rw [← label_append_space heq, hlabel, String.empty_append]
      · exact Or.inr ⟨label, (mem_bySpaceOf hentry).2 hvote, hlabel,
          (label_append_space heq).symm⟩

/-- Queries that cover the same have the same version handles. -/
theorem versionHandles_congr
    (o o' : HashOrder (String × List String))
    {q q' : String}
    (h : ∀ handle, Covers q handle ↔ Covers q' handle) :
    versionHandles o q = versionHandles o' q' := by
  refine Grouping.sortedDistinct_inj.2 (fun handle => ?_)
  have hnames : ∀ (o : HashOrder (String × List String)) q,
      handle ∈ coveredNames (o.arrange (bySpaceOf (requestedHandles q))) ↔ Covers q handle :=
    fun _ _ => Grouping.mem_sortedDistinct.symm.trans mem_versionHandles
  rw [hnames, hnames]
  exact h handle

end Covered

section Versions

variable {V : Crates} {db db' : Tables} {handles : List String} {handle : String}

theorem versionField_eq
    (h : handle ∈ handles) :
    versionField db handles handle = (storedHash db handle).getD absent := by
  unfold versionField storedHash
  cases hhint : hintOf (getHandleHints db handles) handle with
  | some row =>
      obtain ⟨r, hr, rfl⟩ := hintOf_getHandleHints hhint
      rw [hr]
      rfl
  | none =>
      have hnone : db.handles.find? handle = none := by
        refine KeyedTable.find?_eq_none_iff.2 (fun r hr hhandle => ?_)
        have hrow : r.hint ∈ getHandleHints db handles :=
          List.mem_map_of_mem (List.mem_filter.2 ⟨hr, decide_eq_true (hhandle ▸ h)⟩)
        exact of_decide_eq_false (Fallible.lastMatch_eq_none.1 hhint _ hrow) hhandle
      rw [hnone]
      rfl

/-- A stored hash has 32 bytes and does not begin with the mark. -/
theorem Versioned.word
    (hlength : ∀ b, (V.sha256 b).length = 32)
    (h : Versioned V db)
    {hash : Bytes}
    (hhash : storedHash db handle = some hash) :
    hash.length = 32 ∧ ¬ absent <+: hash := by
  unfold storedHash at hhash
  obtain ⟨r, hr, rfl⟩ := Option.map_eq_some_iff.1 hhash
  have hrow := (KeyedTable.find?_eq_some_iff.1 hr).1
  refine ⟨?_, h.unmarked r hrow⟩
  rw [h.hashed r hrow]
  exact hlength _

/-- The field of a handle is the mark, or a hash. -/
theorem Versioned.field
    (hlength : ∀ b, (V.sha256 b).length = 32)
    (h : Versioned V db)
    (hmem : handle ∈ handles) :
    versionField db handles handle = absent ∨
      (versionField db handles handle).length = 32 ∧
        ¬ absent <+: versionField db handles handle := by
  rw [versionField_eq hmem]
  cases hhash : storedHash db handle with
  | none =>
      exact Or.inl rfl
  | some hash =>
      exact Or.inr (h.word hlength hhash)

/-- The mark is told from every hash. -/
theorem getD_absent_inj
    {a b : Option Bytes}
    (ha : ∀ hash, a = some hash → ¬ absent <+: hash)
    (hb : ∀ hash, b = some hash → ¬ absent <+: hash)
    (h : a.getD absent = b.getD absent) :
    a = b := by
  cases a with
  | none =>
      cases b with
      | none =>
          rfl
      | some y =>
          rw [Option.getD_none, Option.getD_some] at h
          exact absurd (h ▸ List.prefix_rfl) (hb y rfl)
  | some x =>
      cases b with
      | none =>
          rw [Option.getD_none, Option.getD_some] at h
          exact absurd (h ▸ List.prefix_rfl) (ha x rfl)
      | some y =>
          exact congrArg some h

/-- **What is hashed determines the stored hashes.** -/
theorem versionText_inj
    (hlength : ∀ b, (V.sha256 b).length = 32)
    (h : Versioned V db)
    (h' : Versioned V db')
    (handles : List String) :
    versionText db handles = versionText db' handles ↔
      ∀ handle ∈ handles, storedHash db handle = storedHash db' handle := by
  have hmark : absent.length < 32 := by
    decide
  have hframes : versionText db handles = versionText db' handles ↔
      ∀ handle ∈ handles,
        versionField db handles handle = versionField db' handles handle := by
    show frames (fun handle => UrlEncoded.utf8 handle ++ [0]) [0xff] _ handles =
      frames _ _ _ handles ↔ _
    exact frames_inj (prefixFree_or_marker 32 hmark)
      (fun handle hmem => h.field hlength hmem) (fun handle hmem => h'.field hlength hmem)
  refine hframes.trans (forall₂_congr (fun handle hmem => ?_))
  rw [versionField_eq hmem, versionField_eq hmem]
  refine ⟨getD_absent_inj ?_ ?_, fun hsame => by rw [hsame]⟩
  · exact fun hash hhash => (h.word hlength hhash).2
  · exact fun hash hhash => (h'.word hlength hhash).2

end Versions

section Tags

/-- A hash as a tag. -/
def quoted (hash : Bytes) : String :=
  "\"" ++ Hex.encode hash ++ "\""

theorem quoted_inj
    {a b : Bytes} :
    quoted a = quoted b ↔ a = b := by
  constructor
  · intro h
    have hchars := congrArg String.toList h
    unfold quoted at hchars
    simp only [String.toList_append, List.append_cancel_right_eq, List.append_cancel_left_eq]
      at hchars
    exact Hex.encode_injective (String.toList_inj.1 hchars)
  · exact congrArg quoted

theorem mem_quoted
    {hash : Bytes}
    {c : Char}
    (h : c ∈ (quoted hash).toList) :
    c = '"' ∨ ∃ n < 16, c = Nat.digitChar n := by
  unfold quoted at h
  rw [String.toList_append, String.toList_append, List.mem_append, List.mem_append] at h
  rcases h with (h | h) | h
  · exact Or.inl (List.mem_singleton.1 h)
  · exact Or.inr (Hex.exists_digit_of_mem_encode h)
  · exact Or.inl (List.mem_singleton.1 h)

/-- **A tag matches itself and no other tag.** -/
theorem etagMatches_quoted
    {a b : Bytes} :
    etagMatches (quoted a) (quoted b) = true ↔ quoted a = quoted b := by
  have hplain : ∀ c ∈ (quoted a).toList, c ≠ ',' ∧ Text.isWhitespace c = false := by
    have hdigits : ∀ n < 16, Nat.digitChar n ≠ ',' ∧
        Text.isWhitespace (Nat.digitChar n) = false := by
      decide
    intro c hc
    rcases mem_quoted hc with rfl | ⟨n, hn, rfl⟩
    · decide
    · exact hdigits n hn
  have hfirst : (quoted a).toList.head? = some '"' := by
    unfold quoted
    rw [String.toList_append, String.toList_append]
    rfl
  have hstar : (quoted a == "*") = false := by
    rw [beq_eq_false_iff_ne]
    intro h
    rw [h] at hfirst
    cases hfirst
  have hweak : Text.stripPrefix "W/" (quoted a) = none := by
    unfold Text.stripPrefix
    rw [if_neg]
    intro h
    obtain ⟨rest, hrest⟩ := List.isPrefixOf_iff_prefix.1 h
    rw [← hrest] at hfirst
    cases hfirst
  unfold etagMatches
  rw [hstar, Text.split_eq_singleton (fun hc => (hplain _ hc).1 rfl), Bool.false_or,
    List.any_cons, List.any_nil, Bool.or_false, Text.trim_eq_self (fun c hc => (hplain c hc).2),
    hweak]
  simp

end Tags

section Conditional

variable {V : Crates} {σ Proof Msg : Type} {env env' : QueryEnv σ Proof Msg}
  {request request' : HttpQuery} {s s' : QueryState σ}

/-- The parameter `q` of a request. -/
def HttpQuery.q (request : HttpQuery) : String :=
  request.params.q.getD ""

/-- The stored hashes of all that a query covers are the same in both stores. -/
def SameHashes (q : String) (db db' : Tables) : Prop :=
  ∀ handle, Covers q handle → storedHash db handle = storedHash db' handle

theorem currentEtag_eq_some_iff
    {etag : String} :
    currentEtag V env request s = some etag ↔ env.storeAnswers = true ∧
      etag = quoted (V.sha256 (versionText s.db (versionHandles env.spaceOrder request.q))) := by
  unfold currentEtag queryEtag
  cases env.storeAnswers with
  | false =>
      simp
  | true =>
      rw [if_pos rfl, Option.some.injEq]
      exact ⟨fun h => ⟨rfl, h.symm⟩, fun h => h.2.symm⟩

/-- Two tags agree if and only if the stored hashes do. -/
theorem quoted_version_inj
    (hlength : ∀ b, (V.sha256 b).length = 32)
    (hs : Versioned V s.db)
    (hs' : Versioned V s'.db)
    (hcovers : ∀ handle, Covers request.q handle ↔ Covers request'.q handle)
    (hsha : NoCollision V (versionText s.db (versionHandles env.spaceOrder request.q))
      (versionText s'.db (versionHandles env'.spaceOrder request'.q))) :
    quoted (V.sha256 (versionText s.db (versionHandles env.spaceOrder request.q))) =
        quoted (V.sha256 (versionText s'.db (versionHandles env'.spaceOrder request'.q))) ↔
      SameHashes request.q s.db s'.db := by
  rw [versionHandles_congr env.spaceOrder env'.spaceOrder hcovers] at hsha ⊢
  have htexts := versionText_inj hlength hs hs' (versionHandles env'.spaceOrder request'.q)
  rw [quoted_inj]
  refine ⟨fun h handle hcovered => ?_, fun h => ?_⟩
  · exact htexts.1 (hsha h) handle (mem_versionHandles.2 ((hcovers handle).1 hcovered))
  · exact congrArg V.sha256 (htexts.2 (fun handle hmem =>
      h handle ((hcovers handle).2 (mem_versionHandles.1 hmem))))

/-- **Conditional queries never serve stale content.**  Of two requests that cover the same,
the tags agree if and only if the stored hashes of all that is covered do.  A request that
presents the tag of an earlier answer is answered by a status exactly if, besides, it is
read and the store answers. -/
theorem conditional_queries_fresh
    (hlength : ∀ b, (V.sha256 b).length = 32)
    (hs : Versioned V s.db)
    (hs' : Versioned V s'.db)
    (hcovers : ∀ handle, Covers request.q handle ↔ Covers request'.q handle)
    (hsha : NoCollision V (versionText s.db (versionHandles env.spaceOrder request.q))
      (versionText s'.db (versionHandles env'.spaceOrder request'.q))) :
    (∀ etag etag', currentEtag V env request s = some etag →
      currentEtag V env' request' s' = some etag' →
        (etag = etag' ↔ SameHashes request.q s.db s'.db)) ∧
    ∀ N etag, (handleQuery V N env request s).1.etag = some etag →
      request'.ifNoneMatch = some etag →
        ((handleQuery V N env' request' s').1.status = 304 ↔
          (env'.overRead request'.ip s'.limits).1 = false ∧
          (∃ queries, readQuery env'.spaceOrder request'.params = .ok queries) ∧
          env'.storeAnswers = true ∧ SameHashes request.q s.db s'.db) := by
  have hinj := quoted_version_inj hlength hs hs' hcovers hsha
  constructor
  · intro etag etag' hetag hetag'
    rw [(currentEtag_eq_some_iff.1 hetag).2, (currentEtag_eq_some_iff.1 hetag').2]
    exact hinj
  · intro N etag hetag hgiven
    have hearlier := (currentEtag_eq_some_iff.1 (etag_handleQuery hetag)).2
    rw [status_handleQuery]
    refine and_congr_right (fun _ => and_congr_right (fun _ => ?_))
    constructor
    · rintro ⟨now, given, hnow, hgiven', hmatch⟩
      obtain ⟨hanswers, rfl⟩ := currentEtag_eq_some_iff.1 hnow
      rw [hgiven, Option.some.injEq] at hgiven'
      rw [← hgiven', hearlier, etagMatches_quoted] at hmatch
      exact ⟨hanswers, hinj.1 hmatch⟩
    · rintro ⟨hanswers, hsame⟩
      refine ⟨_, etag, currentEtag_eq_some_iff.2 ⟨hanswers, rfl⟩, hgiven, ?_⟩
      rw [hearlier, etagMatches_quoted]
      exact hinj.2 hsame

/-- The sample crates, with hashes of 32 bytes. -/
def wideCrates : Crates :=
  { Crates.ofTables [sampleCert] [sampleZone 1 1 1 0] with
    sha256 := fun b => (b ++ List.replicate 32 0).take 32 }

/-- The same names in another order and twice are answered by a status while their zones are
stored, and no more when they are not. -/
theorem conditional_queries_fresh_sample :
    let db := deliver wideCrates 0 Tables.init [sampleRecord (sampleZone 1 1 1 0)]
    let etag := quoted (wideCrates.sha256 (versionText db ["@bitcoin", "alice@bitcoin"]))
    let request : HttpQuery := ⟨.v4 0, ⟨some "alice@bitcoin,@bitcoin", none⟩, none⟩
    let request' : HttpQuery := ⟨.v4 0, ⟨some "@bitcoin, alice@bitcoin, ", none⟩, some etag⟩
    (handleQuery wideCrates sampleNames sampleQueryEnv request (sampleQueryState db)).1.etag =
        some etag ∧
      (handleQuery wideCrates sampleNames sampleQueryEnv request'
        (sampleQueryState db)).1.status = 304 ∧
      (handleQuery wideCrates sampleNames sampleQueryEnv request'
        (sampleQueryState Tables.init)).1.status ≠ 304 := by
  intro db etag request request'
  have hlength : ∀ b, (wideCrates.sha256 b).length = 32 := by
    intro b
    simp [wideCrates]
  have hstored : Versioned wideCrates db :=
    ⟨hashesStored_of_reachable
      ⟨[.updateHandles 0 [sampleRecord (sampleZone 1 1 1 0)]], rfl⟩, by decide +kernel⟩
  have hinit : Versioned wideCrates Tables.init :=
    ⟨List.forall_mem_nil _, List.forall_mem_nil _⟩
  have hcovers : ∀ handle, Covers request.q handle ↔ Covers request'.q handle := by
    have hnames : versionHandles .inserted request.q = versionHandles .inserted request'.q := by
      decide +kernel
    intro handle
    rw [← mem_versionHandles, hnames, mem_versionHandles]
  have hetag : (handleQuery wideCrates sampleNames sampleQueryEnv request
      (sampleQueryState db)).1.etag = some etag := by
    decide +kernel
  have hread : ∃ queries, readQuery .inserted request'.params = .ok queries := ⟨_, rfl⟩
  have hsame : (handleQuery wideCrates sampleNames sampleQueryEnv request'
      (sampleQueryState db)).1.status = 304 ↔ _ :=
    (conditional_queries_fresh hlength hstored hstored hcovers
      (fun _ => by decide +kernel)).2 sampleNames etag hetag rfl
  have hgone : (handleQuery wideCrates sampleNames sampleQueryEnv request'
      (sampleQueryState Tables.init)).1.status = 304 ↔ _ :=
    (conditional_queries_fresh hlength hstored hinit hcovers
      (fun h => absurd h (by decide +kernel))).2 sampleNames etag hetag rfl
  refine ⟨hetag, hsame.2 ⟨rfl, hread, rfl, fun _ _ => rfl⟩, fun h => ?_⟩
  have hmissing := (hgone.1 h).2.2.2 "alice@bitcoin"
    ((@mem_versionHandles .inserted _ _).1 (by decide +kernel))
  revert hmissing
  decide +kernel

end Conditional

end HandleQuery
end CertRelay
