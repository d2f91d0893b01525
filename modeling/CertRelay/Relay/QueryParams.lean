import CertRelay.Lib.Tally
import CertRelay.Lib.Text
import CertRelay.Relay.SyncCursor
import CertRelay.Relay.SyncPage

/-!
# The parameters of a query

A client writes the spaces and handles that it asks for into one parameter of a URL, and the
epochs that it knows into another.  The relay takes both apart, and groups the handles by
space.  The parameters reach the relay as the client wrote them; the order in which the relay
goes through its table of spaces is a parameter.

**Results.**
* `mem_votes_qParam`: the handles that a relay finds, with their spaces;
* `find?_hintMap`: the hint that it finds for a space;
* `readAs_parsedQueries`: what a relay reads is what was asked for;
* `readQuery_encode`: the same for a request to the relay.
-/

namespace CertRelay

structure EpochHint where
  root : String
  height : UInt32
deriving DecidableEq

structure Query where
  space : String
  handles : List String
  epochHint : Option EpochHint
deriving DecidableEq

structure QueryRequest where
  queries : List Query
deriving DecidableEq

/-- The parameters of a request that `handle_query` reads. -/
structure QueryParams where
  q : Option String
  hints : Option String

section Encoding

/-- The handles of a query that are sent. -/
def Query.sent (query : Query) : List String :=
  query.handles.filter (fun h => !h.isEmpty)

/-- The `q_parts` of `send_query`. -/
def QueryRequest.qParts (request : QueryRequest) : List String :=
  request.queries.flatMap (fun query =>
    query.space :: query.sent.map (fun h => h ++ query.space))

/-- A hint in the form `space:root:height`. -/
def hintPart (space : String) (hint : EpochHint) : String :=
  String.ofList (space.toList ++ ':' :: (hint.root.toList ++ ':' :: hint.height.toNat.repr.toList))

/-- The `hint_parts` of `send_query`. -/
def QueryRequest.hintParts (request : QueryRequest) : List String :=
  request.queries.filterMap (fun query => query.epochHint.map (hintPart query.space))

/-- The parameters that `send_query` sends. -/
def QueryRequest.encode (request : QueryRequest) : QueryParams where
  q := some (Text.join ',' request.qParts)
  hints :=
    let hintsParam := Text.join ',' request.hintParts
    if hintsParam.isEmpty then none else some hintsParam

end Encoding

section Reading

def maxHandles : ℕ := 6

/-- The handles in the parameter `q`. -/
def requestedHandles (q : String) : List String :=
  ((Text.split ',' q).map Text.trim).filter (fun s => !s.isEmpty)

/-- A part of the parameter `hints`. -/
def parseHint (part : String) : Option (String × EpochHint) :=
  match Text.splitN ':' 3 part with
  | [space, root, height] => (parseU32 height).map (fun height => (space, ⟨root, height⟩))
  | _ => none

abbrev HintMap := KeyedTable (String × EpochHint) Prod.fst

/-- The table of hints. -/
def hintMap (hints : Option String) : HintMap :=
  (((hints.map (Text.split ',')).getD []).filterMap parseHint).foldl
    KeyedTable.insertOrReplace KeyedTable.empty

def isSeparator (c : Char) : Bool :=
  c == '@' || c == '#'

/-- The space of a handle and the label before it, if it has a separator. -/
def spaceAndLabel (handle : String) : Option (String × String) :=
  let label := handle.toList.takeWhile (fun c => !isSeparator c)
  let space := handle.toList.dropWhile (fun c => !isSeparator c)
  if space.isEmpty then none else some (String.ofList space, String.ofList label)

/-- The labels by space. -/
def bySpaceOf (handles : List String) : List (String × List String) :=
  Tally.tally (handles.filterMap spaceAndLabel)

/-- The queries of a request. -/
def parsedQueries (order : HashOrder (String × List String)) (q : String)
    (hints : Option String) : List Query :=
  (order.arrange (bySpaceOf (requestedHandles q))).map (fun entry =>
    { space := entry.1
      handles := entry.2.filter (fun l => !l.isEmpty)
      epochHint := ((hintMap hints).find? entry.1).map Prod.snd })

/-- The parsing in `handle_query`, with the status and text of its errors. -/
def readQuery (order : HashOrder (String × List String)) (params : QueryParams) :
    Except (ℕ × String) (List Query) :=
  match params.q with
  | none => .error (400, "missing q parameter")
  | some q =>
      if q.isEmpty then .error (400, "missing q parameter")
      else if maxHandles < (requestedHandles q).length then
        .error (400, "too many handles (max 6)")
      else .ok (parsedQueries order q params.hints)

end Reading

section WellFormed

/-- Characters that neither a label nor a space name after its separator has. -/
def Plain (s : List Char) : Prop :=
  ∀ c ∈ s, isSeparator c = false ∧ c ≠ ',' ∧ c ≠ ':' ∧ Text.isWhitespace c = false

/-- A separator and plain characters. -/
def IsSpaceName (s : String) : Prop :=
  ∃ c l, s.toList = c :: l ∧ isSeparator c = true ∧ Plain l

/-- Requests that survive the way to the relay. -/
structure QueryRequest.Sendable (request : QueryRequest) : Prop where
  distinct : (request.queries.map Query.space).Nodup
  space : ∀ query ∈ request.queries, IsSpaceName query.space
  handles : ∀ query ∈ request.queries, ∀ h ∈ query.handles, Plain h.toList
  roots : ∀ query ∈ request.queries, ∀ hint, query.epochHint = some hint →
    ',' ∉ hint.root.toList ∧ ':' ∉ hint.root.toList

/-- Some queries ask for what a request asks for. -/
structure QueryRequest.ReadAs (request : QueryRequest) (parsed : List Query) : Prop where
  distinct : (parsed.map Query.space).Nodup
  asked : ∀ p ∈ parsed, ∃ query ∈ request.queries, query.space = p.space
  read : ∀ query ∈ request.queries, ∃ p ∈ parsed, p.space = query.space ∧
    (∀ h, h ∈ p.handles ↔ h ∈ query.handles ∧ h ≠ "") ∧ p.epochHint = query.epochHint

end WellFormed

section Handles

/-- Characters that are kept when the parameters are taken apart. -/
def Kept (s : List Char) : Prop :=
  ∀ c ∈ s, c ≠ ',' ∧ c ≠ ':' ∧ Text.isWhitespace c = false

theorem Plain.kept
    {s : List Char}
    (h : Plain s) :
    Kept s :=
  fun c hc => (h c hc).2

theorem isSeparator_iff
    {c : Char} :
    isSeparator c = true ↔ c = '@' ∨ c = '#' := by
  simp [isSeparator]

theorem IsSpaceName.kept
    {s : String}
    (h : IsSpaceName s) :
    Kept s.toList := by
  obtain ⟨c, l, hs, hc, hl⟩ := h
  rw [hs]
  intro x hx
  rcases List.mem_cons.1 hx with rfl | hx
  · rcases isSeparator_iff.1 hc with rfl | rfl <;> decide
  · exact hl.kept x hx

theorem Kept.append
    {s l : List Char}
    (hs : Kept s)
    (hl : Kept l) :
    Kept (s ++ l) :=
  fun c hc => (List.mem_append.1 hc).elim (hs c) (hl c)

/-- A handle is taken apart at the separator of its space. -/
theorem spaceAndLabel_append
    {label space : String}
    (hlabel : Plain label.toList)
    (hspace : IsSpaceName space) :
    spaceAndLabel (label ++ space) = some (space, label) := by
  obtain ⟨c, l, hs, hc, _⟩ := hspace
  have hnot : ∀ x ∈ label.toList, (!isSeparator x) = true :=
    fun x hx => by rw [(hlabel x hx).1]; rfl
  have htake : (label ++ space).toList.takeWhile (fun c => !isSeparator c) = label.toList := by
    rw [String.toList_append, hs, List.takeWhile_append_of_pos hnot]
    simp [hc]
  have hdrop : (label ++ space).toList.dropWhile (fun c => !isSeparator c) = space.toList := by
    rw [String.toList_append, hs, List.dropWhile_append_of_pos hnot]
    simp [hc]
  have hsome : space.toList.isEmpty = false := by
    rw [hs]
    rfl
  unfold spaceAndLabel
  rw [htake, hdrop]
  dsimp only
  rw [hsome, String.ofList_toList, String.ofList_toList]
  rfl

/-- A part is its label followed by its space. -/
theorem label_append_space
    {part space label : String}
    (h : spaceAndLabel part = some (space, label)) :
    label ++ space = part := by
  unfold spaceAndLabel at h
  dsimp only at h
  split_ifs at h
  cases h
  rw [← String.ofList_append, List.takeWhile_append_dropWhile, String.ofList_toList]

variable {request : QueryRequest}

theorem mem_sent
    {query : Query}
    {h : String} :
    h ∈ query.sent ↔ h ∈ query.handles ∧ h ≠ "" := by
  unfold Query.sent
  rw [List.mem_filter]
  simp

/-- A part is a handle of a query, with the empty label for its space. -/
theorem mem_qParts
    {part : String} :
    part ∈ request.qParts ↔
      ∃ query ∈ request.queries, ∃ l, (l = "" ∨ l ∈ query.sent) ∧ part = l ++ query.space := by
  unfold QueryRequest.qParts
  rw [List.mem_flatMap]
  refine exists_congr (fun query => and_congr_right (fun _ => ?_))
  rw [List.mem_cons, List.mem_map]
  constructor
  · rintro (rfl | ⟨l, hl, rfl⟩)
    · exact ⟨"", Or.inl rfl, String.empty_append.symm⟩
    · exact ⟨l, Or.inr hl, rfl⟩
  · rintro ⟨l, rfl | hl, rfl⟩
    · exact Or.inl String.empty_append
    · exact Or.inr ⟨l, hl, rfl⟩

theorem QueryRequest.Sendable.plain
    (hs : request.Sendable)
    {query : Query}
    (hquery : query ∈ request.queries)
    {l : String}
    (hl : l = "" ∨ l ∈ query.sent) :
    Plain l.toList := by
  rcases hl with rfl | hl
  · exact fun c hc => absurd hc List.not_mem_nil
  · exact hs.handles query hquery l (mem_sent.1 hl).1

theorem QueryRequest.Sendable.kept
    (hs : request.Sendable)
    {part : String}
    (hpart : part ∈ request.qParts) :
    Kept part.toList ∧ part ≠ "" := by
  obtain ⟨query, hquery, l, hl, rfl⟩ := mem_qParts.1 hpart
  have hspace := hs.space query hquery
  rw [String.toList_append]
  refine ⟨(hs.plain hquery hl).kept.append hspace.kept, fun hempty => ?_⟩
  obtain ⟨c, rest, hc, _⟩ := hspace
  have hnil := congrArg String.toList hempty
  rw [String.toList_append, hc] at hnil
  simp at hnil

/-- The relay finds the parts again. -/
theorem requestedHandles_qParam
    (hs : request.Sendable)
    (hne : request.qParts ≠ []) :
    requestedHandles (Text.join ',' request.qParts) = request.qParts := by
  unfold requestedHandles
  rw [Text.split_join (fun p hp hc => ((hs.kept hp).1 _ hc).1 rfl) hne]
  have htrim : request.qParts.map Text.trim = request.qParts.map id :=
    List.map_congr_left (fun p hp => Text.trim_eq_self (fun c hc => ((hs.kept hp).1 c hc).2.2))
  rw [htrim, List.map_id]
  refine List.filter_eq_self.2 (fun p hp => ?_)
  simpa using (hs.kept hp).2

/-- **The handles that a relay finds, with their spaces.** -/
theorem mem_votes_qParam
    (hs : request.Sendable)
    {space l : String} :
    (space, l) ∈ request.qParts.filterMap spaceAndLabel ↔
      ∃ query ∈ request.queries, query.space = space ∧ (l = "" ∨ l ∈ query.sent) := by
  rw [List.mem_filterMap]
  constructor
  · rintro ⟨part, hpart, heq⟩
    obtain ⟨query, hquery, l', hl', rfl⟩ := mem_qParts.1 hpart
    rw [spaceAndLabel_append (hs.plain hquery hl') (hs.space query hquery)] at heq
    cases heq
    exact ⟨query, hquery, rfl, hl'⟩
  · rintro ⟨query, hquery, rfl, hl⟩
    exact ⟨l ++ query.space, mem_qParts.2 ⟨query, hquery, l, hl, rfl⟩,
      spaceAndLabel_append (hs.plain hquery hl) (hs.space query hquery)⟩

end Handles

section Hints

theorem parseHint_hintPart
    {space : String}
    {hint : EpochHint}
    (hspace : ':' ∉ space.toList)
    (hroot : ':' ∉ hint.root.toList) :
    parseHint (hintPart space hint) = some (space, hint) := by
  have hfirst : Text.splitOnce ':' (hintPart space hint) = some (space,
      String.ofList (hint.root.toList ++ ':' :: hint.height.toNat.repr.toList)) :=
    Text.splitOnce_eq_some_iff.2 ⟨hspace, by
      unfold hintPart
      rw [String.toList_ofList, String.toList_ofList]⟩
  have hsecond : Text.splitOnce ':'
      (String.ofList (hint.root.toList ++ ':' :: hint.height.toNat.repr.toList)) =
        some (hint.root, hint.height.toNat.repr) :=
    Text.splitOnce_eq_some_iff.2 ⟨hroot, String.toList_ofList⟩
  have hparts : Text.splitN ':' 3 (hintPart space hint) =
      [space, hint.root, hint.height.toNat.repr] := by
    unfold Text.splitN
    rw [hfirst]
    dsimp only
    unfold Text.splitN
    rw [hsecond]
    rfl
  unfold parseHint
  rw [hparts]
  dsimp only
  rw [parseU32_repr]
  rfl

variable {request : QueryRequest}

/-- The hints of a request, by space. -/
def QueryRequest.hints (request : QueryRequest) : List (String × EpochHint) :=
  request.queries.filterMap (fun query => query.epochHint.map (fun hint => (query.space, hint)))

theorem mem_hints
    {space : String}
    {hint : EpochHint} :
    (space, hint) ∈ request.hints ↔
      ∃ query ∈ request.queries, query.space = space ∧ query.epochHint = some hint := by
  unfold QueryRequest.hints
  rw [List.mem_filterMap]
  refine exists_congr (fun query => and_congr_right (fun _ => ?_))
  rw [Option.map_eq_some_iff]
  constructor
  · rintro ⟨hint', hhint, heq⟩
    cases heq
    exact ⟨rfl, hhint⟩
  · rintro ⟨rfl, hhint⟩
    exact ⟨hint, hhint, rfl⟩

theorem hintParts_eq
    (request : QueryRequest) :
    request.hintParts = request.hints.map (fun p => hintPart p.1 p.2) := by
  unfold QueryRequest.hintParts QueryRequest.hints
  rw [List.map_filterMap]
  refine List.filterMap_congr (fun query _ => ?_)
  rw [Option.map_map]
  rfl

theorem QueryRequest.Sendable.hint
    (hs : request.Sendable)
    {p : String × EpochHint}
    (hp : p ∈ request.hints) :
    (',' ∉ p.1.toList ∧ ':' ∉ p.1.toList) ∧ ',' ∉ p.2.root.toList ∧ ':' ∉ p.2.root.toList := by
  obtain ⟨query, hquery, hspace, hhint⟩ := mem_hints.1 hp
  have hkept := (hs.space query hquery).kept
  rw [hspace] at hkept
  exact ⟨⟨fun hc => (hkept _ hc).1 rfl, fun hc => (hkept _ hc).2.1 rfl⟩,
    hs.roots query hquery p.2 hhint⟩

theorem comma_not_mem_hintPart
    {space : String}
    {hint : EpochHint}
    (hspace : ',' ∉ space.toList)
    (hroot : ',' ∉ hint.root.toList) :
    ',' ∉ (hintPart space hint).toList := by
  have hdigits : ',' ∉ Nat.toDigits 10 hint.height.toNat := by
    intro hmem
    have hdigit : ','.isDigit = true :=
      Nat.isDigit_of_mem_toDigits (by decide) (by decide) hmem
    revert hdigit
    decide
  unfold hintPart
  rw [String.toList_ofList, Nat.toList_repr]
  simp [hspace, hroot, hdigits]

theorem hintPart_ne_empty
    (space : String)
    (hint : EpochHint) :
    hintPart space hint ≠ "" := by
  intro hempty
  have hnil := congrArg String.toList hempty
  unfold hintPart at hnil
  rw [String.toList_ofList] at hnil
  simp at hnil

/-- The hints are all found again. -/
theorem hintMap_encode
    (hs : request.Sendable) :
    hintMap request.encode.hints =
      request.hints.foldl KeyedTable.insertOrReplace KeyedTable.empty := by
  have hencode : request.encode.hints =
      if (Text.join ',' request.hintParts).isEmpty then none
      else some (Text.join ',' request.hintParts) := rfl
  have hcomma : ∀ part ∈ request.hintParts, ',' ∉ part.toList := by
    intro part hpart
    rw [hintParts_eq] at hpart
    obtain ⟨p, hp, rfl⟩ := List.mem_map.1 hpart
    exact comma_not_mem_hintPart (hs.hint hp).1.1 (hs.hint hp).2.1
  unfold hintMap
  congr 1
  rw [hencode]
  by_cases hnone : request.hintParts = []
  · have hhints : request.hints = [] := by
      rw [hintParts_eq] at hnone
      exact List.map_eq_nil_iff.1 hnone
    rw [hnone, hhints]
    rfl
  · have hfound := Text.split_join hcomma hnone
    have hsome : (Text.join ',' request.hintParts).isEmpty = false := by
      refine Text.isEmpty_join (fun part hpart => ?_) hnone
      rw [hintParts_eq] at hpart
      obtain ⟨p, _, rfl⟩ := List.mem_map.1 hpart
      exact hintPart_ne_empty _ _
    rw [hsome, if_neg Bool.false_ne_true, Option.map_some, Option.getD_some, hfound,
      hintParts_eq, List.filterMap_map]
    have hparse : request.hints.filterMap (parseHint ∘ fun p => hintPart p.1 p.2) =
        request.hints.filterMap some := by
      refine List.filterMap_congr (fun p hp => ?_)
      rw [Function.comp_apply, parseHint_hintPart (hs.hint hp).1.2 (hs.hint hp).2.2]
    rw [hparse, List.filterMap_some]

theorem nodup_keys_hints
    (hs : request.Sendable) :
    (request.hints.map Prod.fst).Nodup := by
  have hkeys : request.hints.map Prod.fst =
      (request.queries.filter (fun query => query.epochHint.isSome)).map Query.space := by
    unfold QueryRequest.hints
    induction request.queries with
    | nil =>
        rfl
    | cons query queries ih =>
        cases hhint : query.epochHint with
        | none =>
            simp [hhint, ih]
        | some hint =>
            simp [hhint, ih]
  rw [hkeys]
  exact (List.filter_sublist.map Query.space).nodup hs.distinct

/-- **The hint that a relay finds for a space.** -/
theorem find?_hintMap
    (hs : request.Sendable)
    {query : Query}
    (hquery : query ∈ request.queries) :
    ((hintMap request.encode.hints).find? query.space).map Prod.snd = query.epochHint := by
  have hmem : ∀ p, p ∈ (hintMap request.encode.hints).rows ↔ p ∈ request.hints := by
    intro p
    rw [hintMap_encode hs, KeyedTable.mem_foldl_insertOrReplace (nodup_keys_hints hs)]
    simp
  refine Option.ext (fun hint => ?_)
  rw [Option.map_eq_some_iff]
  constructor
  · rintro ⟨⟨space, hint'⟩, hfind, rfl⟩
    obtain ⟨hrow, rfl⟩ := KeyedTable.find?_eq_some_iff.1 hfind
    obtain ⟨query', hquery', hspace, hhint⟩ := mem_hints.1 ((hmem _).1 hrow)
    rw [List.inj_on_of_nodup_map hs.distinct hquery hquery' hspace.symm]
    exact hhint
  · intro hhint
    have hrow : (query.space, hint) ∈ request.hints :=
      mem_hints.2 ⟨query, hquery, rfl, hhint⟩
    exact ⟨_, KeyedTable.find?_eq_some_iff.2 ⟨(hmem _).2 hrow, rfl⟩, rfl⟩

end Hints

section RoundTrip

variable {request : QueryRequest}

theorem mem_bySpaceOf
    {handles : List String}
    {space l : String}
    {labels : List String}
    (h : (space, labels) ∈ bySpaceOf handles) :
    l ∈ labels ↔ (space, l) ∈ handles.filterMap spaceAndLabel := by
  obtain ⟨rfl, _⟩ := Tally.mem_tally.1 h
  unfold Tally.ballots
  rw [List.mem_map]
  constructor
  · rintro ⟨⟨space', l'⟩, hvote, rfl⟩
    obtain ⟨hvote, hspace⟩ := List.mem_filter.1 hvote
    rwa [← of_decide_eq_true hspace]
  · intro hvote
    exact ⟨(space, l), List.mem_filter.2 ⟨hvote, decide_eq_true rfl⟩, rfl⟩

/-- **What a relay reads is what was asked for.** -/
theorem readAs_parsedQueries
    (order : HashOrder (String × List String))
    (hs : request.Sendable)
    (hne : request.qParts ≠ []) :
    request.ReadAs (parsedQueries order (Text.join ',' request.qParts) request.encode.hints) := by
  unfold parsedQueries
  rw [requestedHandles_qParam hs hne]
  constructor
  · rw [List.map_map]
    exact ((order.perm _).map Prod.fst).nodup_iff.2 (Tally.nodup_tally _)
  · intro p hp
    obtain ⟨⟨space, labels⟩, hentry, rfl⟩ := List.mem_map.1 hp
    rw [HashOrder.mem_arrange] at hentry
    obtain ⟨l, hl⟩ := List.exists_mem_of_ne_nil _ (Tally.mem_tally.1 hentry).2
    obtain ⟨query, hquery, hspace, _⟩ := (mem_votes_qParam hs).1 ((mem_bySpaceOf hentry).1 hl)
    exact ⟨query, hquery, hspace⟩
  · intro query hquery
    have hvote : (query.space, "") ∈ request.qParts.filterMap spaceAndLabel :=
      (mem_votes_qParam hs).2 ⟨query, hquery, rfl, Or.inl rfl⟩
    have hkey : query.space ∈ (bySpaceOf request.qParts).map Prod.fst :=
      Tally.mem_keys_tally.2 (List.mem_map.2 ⟨_, hvote, rfl⟩)
    obtain ⟨⟨space, labels⟩, hentry, rfl⟩ := List.mem_map.1 hkey
    refine ⟨_, List.mem_map.2 ⟨_, order.mem_arrange.2 hentry, rfl⟩, rfl, fun h => ?_, ?_⟩
    · dsimp only
      rw [List.mem_filter, mem_bySpaceOf hentry, mem_votes_qParam hs, Bool.not_eq_true',
        Bool.eq_false_iff, Ne, String.isEmpty_iff, ← Ne]
      constructor
      · rintro ⟨⟨query', hquery', hspace, hl⟩, hlabel⟩
        rw [List.inj_on_of_nodup_map hs.distinct hquery' hquery hspace] at hl
        exact mem_sent.1 (hl.resolve_left hlabel)
      · intro hh
        exact ⟨⟨query, hquery, rfl, Or.inr (mem_sent.2 hh)⟩, hh.2⟩
    · dsimp only
      exact find?_hintMap hs hquery

/-- **The relay reads back every query that a client sends.** -/
theorem readQuery_encode
    (order : HashOrder (String × List String))
    {request : QueryRequest}
    (hs : request.Sendable)
    (hmax : request.qParts.length ≤ maxHandles) :
    (request.queries = [] →
      readQuery order request.encode = .error (400, "missing q parameter")) ∧
    (request.queries ≠ [] →
      ∃ parsed, readQuery order request.encode = .ok parsed ∧ request.ReadAs parsed) := by
  constructor
  · intro hnone
    have hparts : request.qParts = [] := by
      unfold QueryRequest.qParts
      rw [hnone]
      rfl
    unfold readQuery QueryRequest.encode
    rw [hparts]
    rfl
  · intro hsome
    obtain ⟨query, hquery⟩ := List.exists_mem_of_ne_nil _ hsome
    have hparts : request.qParts ≠ [] := List.ne_nil_of_mem
      (mem_qParts.2 ⟨query, hquery, "", Or.inl rfl, rfl⟩)
    have hq : (Text.join ',' request.qParts).isEmpty = false :=
      Text.isEmpty_join (fun p hp => (hs.kept hp).2) hparts
    refine ⟨_, ?_, readAs_parsedQueries order hs hparts⟩
    unfold readQuery
    have hencode : request.encode.q = some (Text.join ',' request.qParts) := rfl
    rw [hencode]
    dsimp only
    rw [hq, if_neg Bool.false_ne_true, requestedHandles_qParam hs hparts,
      if_neg (Nat.not_lt_of_le hmax)]

/-- Two handles below one space, one of them empty, and another space. -/
def sampleRequest : QueryRequest where
  queries := [⟨"@a", ["x", ""], some ⟨"ab", 7⟩⟩, ⟨"#b", [], none⟩]

theorem plain_singleton
    {c : Char}
    (h : isSeparator c = false ∧ c ≠ ',' ∧ c ≠ ':' ∧ Text.isWhitespace c = false) :
    Plain [c] := by
  intro x hx
  rw [List.mem_singleton.1 hx]
  exact h

theorem sendable_sampleRequest :
    sampleRequest.Sendable where
  distinct := by decide
  space query hquery := by
    rcases List.mem_pair.1 hquery with rfl | rfl
    · exact ⟨'@', ['a'], rfl, rfl, plain_singleton (by decide)⟩
    · exact ⟨'#', ['b'], rfl, rfl, plain_singleton (by decide)⟩
  handles query hquery h hh := by
    rcases List.mem_pair.1 hquery with rfl | rfl
    · rcases List.mem_pair.1 hh with rfl | rfl
      · exact plain_singleton (by decide)
      · exact fun c hc => absurd hc List.not_mem_nil
    · exact absurd hh List.not_mem_nil
  roots query hquery hint hhint := by
    rcases List.mem_pair.1 hquery with rfl | rfl
    · cases hhint
      decide
    · cases hhint

theorem readQuery_encode_sampleRequest :
    sampleRequest.encode.q = some "@a,x@a,#b" ∧ sampleRequest.encode.hints = some "@a:ab:7" ∧
      ∃ parsed, readQuery HashOrder.inserted sampleRequest.encode = .ok parsed ∧
        sampleRequest.ReadAs parsed :=
  ⟨by decide, by decide,
    (readQuery_encode HashOrder.inserted sendable_sampleRequest (by decide)).2 (by decide)⟩

end RoundTrip

end CertRelay
