import CertRelay.Relay.HandleQuery
import CertRelay.Relay.StoreCalls

/-!
# What a query is answered with

A query of canonical names is answered with one root certificate for each space that it
mentions and with the certificate of each handle that is stored under a stored root, each
stored one with an update.  A root's receipt is left out if the client's hint for the space
shows that it knows the commitment, or a later one.

**Results.**
* `epochHintVerifiableBy_iff`: what a hint has to say;
* `resolveQuery_eq`: what one round of the loop in `resolve` adds;
* `query_answered`: what the whole loop collects.
-/

namespace CertRelay
namespace HandleQuery

section Stored

variable (V : Crates)

/-- What is stored for a handle. -/
def storedRecord (db : Tables) (handle : String) : Option HandleRecord :=
  (db.handles.find? handle).bind (fun r => (rowRecord V r).toOption)

variable {V} {db : Tables}

/-- An encoded row has a record of its handle. -/
theorem rowRecord_eq_ok
    (hV : V.Lawful)
    {r : Row}
    (h : r.Encodes V) :
    ∃ record, rowRecord V r = .ok record ∧ record.cert.subject.text = r.handle := by
  obtain ⟨cert, hcert, hsubject, _⟩ := h.cert
  obtain ⟨zone, hzone⟩ := h.zone
  refine ⟨⟨cert, zone, r.epochHeight, r.offchainSeq, r.delegateOffchainSeq⟩, ?_, hsubject⟩
  unfold rowRecord
  rw [hV.cert_decode hcert, hV.zone_decode hzone]
  rfl

theorem getHandle_eq
    (hV : V.Lawful)
    (hdb : RowsEncoded V db)
    (handle : String) :
    getHandle V db handle = .ok (storedRecord V db handle) := by
  unfold getHandle storedRecord
  cases hfind : db.handles.find? handle with
  | none =>
      rfl
  | some r =>
      have hrow := hdb r (KeyedTable.find?_eq_some_iff.1 hfind).1
      obtain ⟨cert, hcert, _⟩ := hrow.cert
      obtain ⟨zone, hzone⟩ := hrow.zone
      dsimp only
      unfold rowRecord
      rw [Option.bind_some, hV.cert_decode hcert, hV.zone_decode hzone]
      rfl

/-- A stored record names its handle. -/
theorem subject_storedRecord
    (hV : V.Lawful)
    (hdb : RowsEncoded V db)
    {handle : String}
    {record : HandleRecord}
    (h : storedRecord V db handle = some record) :
    record.cert.subject.text = handle := by
  obtain ⟨r, hfind, hr⟩ := Option.bind_eq_some_iff.1 h
  obtain ⟨hmem, hhandle⟩ := KeyedTable.find?_eq_some_iff.1 hfind
  obtain ⟨record', hrecord', hsubject⟩ := rowRecord_eq_ok hV (hdb r hmem)
  rw [Fallible.toOption_eq_some, hrecord'] at hr
  cases hr
  rw [hsubject, hhandle]

/-- `get_handles` reads what is stored for the handles. -/
theorem getHandles_eq
    (hV : V.Lawful)
    (hdb : RowsEncoded V db)
    (order : HashOrder Row)
    {handles distinct : List String}
    (hdistinct : distinct.Nodup)
    (hsame : ∀ h, h ∈ handles ↔ h ∈ distinct) :
    ∃ entries, getHandles V order db handles = .ok entries ∧
      entries.Perm (distinct.filterMap (storedRecord V db)) := by
  have hrows : db.handles.rows.filter (fun r => decide (r.handle ∈ handles)) =
      db.handles.rows.filter (fun r => decide (r.handle ∈ distinct)) :=
    List.filter_congr (fun r _ => by rw [decide_eq_decide, hsame])
  have hperm : (order.arrange (db.handles.rows.filter (fun r => decide (r.handle ∈ handles)))).Perm
      (distinct.filterMap db.handles.find?) := by
    rw [hrows]
    exact (order.perm _).trans (KeyedTable.filter_mem_perm hdistinct)
  have hread := hperm.filterMap (fun r => (rowRecord V r).toOption)
  rw [List.filterMap_filterMap] at hread
  refine ⟨_, Fallible.mapM_eq_filterMap (fun r hr => ?_), hread⟩
  have hmem := (List.mem_filter.1 (order.mem_arrange.1 hr)).1
  exact (rowRecord_eq_ok hV (hdb r hmem)).imp (fun _ h => h.1)

end Stored

section Hints

/-- The well-formed hints, as they are given. -/
def givenHints (hints : Option String) : List (String × EpochHint) :=
  ((hints.map (Text.split ',')).getD []).filterMap parseHint

/-- The last well-formed hint for a space. -/
def lastHint (hints : Option String) (space : String) : Option EpochHint :=
  (Fallible.lastMatch (fun p => decide (p.1 = space)) (givenHints hints)).map Prod.snd

/-- A hint names the commitment of a zone, or a height above it. -/
def NamesCommitment (hint : EpochHint) (zone : Zone) : Prop :=
  ∃ c, zone.commitment = .exist c ∧
    (c.onchain.blockHeight < hint.height.toNat ∨
      hint.height.toNat = c.onchain.blockHeight ∧ hint.root = Hex.encode c.onchain.stateRoot)

/-- The table has the last hint for each space. -/
theorem find?_hintMap_eq_lastHint
    (hints : Option String)
    (space : String) :
    ((hintMap hints).find? space).map Prod.snd = lastHint hints space := by
  have hempty : (KeyedTable.empty : HintMap).find? space = none := rfl
  unfold hintMap
  rw [KeyedTable.find?_foldl_insertOrReplace, hempty, Option.or_none]
  rfl

/-- **What a hint has to say.** -/
theorem epochHintVerifiableBy_iff
    {hint : EpochHint}
    {zone : Zone} :
    epochHintVerifiableBy hint zone = true ↔ NamesCommitment hint zone := by
  unfold epochHintVerifiableBy NamesCommitment
  cases zone.commitment with
  | exist c =>
      dsimp only
      split_ifs with hlater
      · exact ⟨fun _ => ⟨c, rfl, Or.inl hlater⟩, fun _ => rfl⟩
      · rw [Bool.and_eq_true, decide_eq_true_eq, decide_eq_true_eq]
        constructor
        · exact fun h => ⟨c, rfl, Or.inr h⟩
        · rintro ⟨c', hc', h⟩
          cases hc'
          exact h.resolve_left hlater
  | empty =>
      simp
  | unknown =>
      simp

instance (hint : EpochHint) (zone : Zone) : Decidable (NamesCommitment hint zone) :=
  decidable_of_iff _ epochHintVerifiableBy_iff

end Hints

section Served

variable (V : Crates)

/-- The root certificate with which a query for a space is answered. -/
def servedRoot (db : Tables) (hints : Option String) (space : String) : Certificate :=
  match storedRecord V db space with
  | none => ⟨0, ⟨space⟩, .root none⟩
  | some parent =>
      if ∃ hint ∈ lastHint hints space, NamesCommitment hint parent.zone then
        takeReceipt parent.cert
      else parent.cert

/-- What is stored for a handle below a stored root. -/
def servedBelow (db : Tables) (space handle : String) : Option HandleRecord :=
  (storedRecord V db space).bind (fun _ => storedRecord V db handle)

/-- The update that carries the records of a stored handle. -/
def recordUpdate (record : HandleRecord) : DataUpdateRequest :=
  updateRequest record.cert record.zone

/-- A builder has, besides what another one has, some certificates and updates. -/
structure Adds (builder : MessageBuilder) (certs : List Certificate)
    (updates : List DataUpdateRequest) (built : MessageBuilder) : Prop where
  certs : built.certs.Perm (builder.certs ++ certs)
  updates : built.updates.Perm (builder.updates ++ updates)

theorem Adds.trans
    {builder mid built : MessageBuilder}
    {certs certs' : List Certificate}
    {updates updates' : List DataUpdateRequest}
    (h : Adds builder certs updates mid)
    (h' : Adds mid certs' updates' built) :
    Adds builder (certs ++ certs') (updates ++ updates') built where
  certs := by
    rw [← List.append_assoc]
    exact h'.certs.trans (h.certs.append_right _)
  updates := by
    rw [← List.append_assoc]
    exact h'.updates.trans (h.updates.append_right _)

/-- The distinct handles below its space that a query asks for. -/
def wantedBelow (query : Query) : List String :=
  (query.handles.map (fun l => l ++ query.space)).dedup

/-- The certificates with which a query is answered. -/
def queryCerts (db : Tables) (hints : Option String) (query : Query) : List Certificate :=
  servedRoot V db hints query.space ::
    ((wantedBelow query).filterMap (servedBelow V db query.space)).map HandleRecord.cert

/-- The updates with which a query is answered. -/
def queryUpdates (db : Tables) (query : Query) : List DataUpdateRequest :=
  ((storedRecord V db query.space).toList ++
    (wantedBelow query).filterMap (servedBelow V db query.space)).map recordUpdate

variable {V} {N : NameCrates} {db : Tables}

theorem foldl_addRecord
    (builder : MessageBuilder)
    (entries : List HandleRecord) :
    entries.foldl (fun builder e => addRecord builder e.cert e.zone) builder =
      ⟨builder.updates ++ entries.map recordUpdate,
        builder.certs ++ entries.map HandleRecord.cert⟩ := by
  induction entries generalizing builder with
  | nil =>
      rw [List.foldl_nil, List.map_nil, List.map_nil, List.append_nil, List.append_nil]
  | cons e entries ih =>
      rw [List.foldl_cons, ih]
      simp [addRecord, recordUpdate]

/-- A certificate keeps its subject without its receipt. -/
theorem updateRequest_takeReceipt
    (cert : Certificate)
    (zone : Zone) :
    updateRequest (takeReceipt cert) zone = updateRequest cert zone := by
  unfold takeReceipt
  cases cert.witness with
  | root receipt =>
      rfl
  | other proof =>
      rfl

/-- **What one round of the loop in `resolve` adds.** -/
theorem resolveQuery_eq
    (hV : V.Lawful)
    (hdb : RowsEncoded V db)
    {query : Query}
    {space : SLabel}
    (hspace : N.slabelFromStr query.space = some space)
    (hname : (N.fromSpace space).text = query.space)
    (order : SpaceOrder)
    (hwanted : ∀ h, h ∈ uniqueHandles N order.subnames space query.handles ↔
      h ∈ wantedBelow query)
    {hints : Option String}
    (hhint : query.epochHint = lastHint hints query.space)
    (builder : MessageBuilder) :
    ∃ built, resolveQuery V N order db query builder = .ok built ∧
      Adds builder (queryCerts V db hints query) (queryUpdates V db query) built := by
  unfold resolveQuery queryCerts queryUpdates servedRoot
  rw [hspace]
  dsimp only
  rw [getHandle_eq hV hdb, Fallible.ok_bind]
  cases hparent : storedRecord V db query.space with
  | none =>
      have hbelow : servedBelow V db query.space = fun _ => none := by
        unfold servedBelow
        rw [hparent]
        rfl
      have hsubject : N.fromSpace space = ⟨query.space⟩ := SName.ext hname
      refine ⟨_, rfl, ?_⟩
      rw [hbelow, hsubject]
      constructor <;> simp
  | some parent =>
      have hbelow : servedBelow V db query.space = storedRecord V db := by
        unfold servedBelow
        rw [hparent]
        rfl
      obtain ⟨entries, hentries, hperm⟩ :=
        getHandles_eq hV hdb order.rows (List.nodup_dedup _) hwanted
      have hverifiable : query.epochHint.any (fun h => epochHintVerifiableBy h parent.zone) =
          decide (∃ hint ∈ lastHint hints query.space, NamesCommitment hint parent.zone) := by
        rw [hhint, Bool.eq_iff_iff, Option.any_eq_true, decide_eq_true_eq]
        simp only [epochHintVerifiableBy_iff, Option.mem_def]
      dsimp only
      rw [hentries, Fallible.ok_bind, foldl_addRecord, hbelow, hverifiable]
      refine ⟨_, rfl, ?_, ?_⟩
      · simp only [addRecord, List.append_assoc, List.singleton_append, decide_eq_true_eq]
        exact ((hperm.map HandleRecord.cert).cons _).append_left _
      · have hupdate : updateRequest
            (if decide (∃ hint ∈ lastHint hints query.space,
              NamesCommitment hint parent.zone) = true then takeReceipt parent.cert
              else parent.cert) parent.zone = recordUpdate parent := by
          split_ifs
          · exact updateRequest_takeReceipt _ _
          · rfl
        simp only [addRecord, hupdate, List.append_assoc, List.singleton_append,
          Option.toList_some, List.map_cons]
        exact ((hperm.map recordUpdate).cons _).append_left _

end Served

section Asked

/-- The distinct spaces that a query mentions. -/
def spacesOf (q : String) : List String :=
  (((requestedHandles q).filterMap spaceAndLabel).map Prod.fst).dedup

/-- A part that names a handle below a space. -/
def isBelow (part : String) : Bool :=
  (spaceAndLabel part).any (fun p => !p.2.isEmpty)

/-- The distinct handles below spaces that a query asks for. -/
def subHandlesOf (q : String) : List String :=
  ((requestedHandles q).filter isBelow).dedup

/-- A part whose space and label are names, and that is what they spell. -/
def Canonical (N : NameCrates) (part : String) : Prop :=
  ∃ space label s, spaceAndLabel part = some (space, label) ∧
    N.slabelFromStr space = some s ∧ (N.fromSpace s).text = space ∧
    (label ≠ "" → ∃ name full, N.subnameFromStr label = some name ∧
      N.join name s = some full ∧ full.text = part)

/-- Queries are those of the parameters. -/
structure Parsed (q : String) (hints : Option String) (queries : List Query) : Prop where
  spaces : (queries.map Query.space).Perm (spacesOf q)
  handles : ∀ query ∈ queries, ∀ l,
    l ∈ query.handles ↔ l ≠ "" ∧ ∃ part ∈ requestedHandles q,
      spaceAndLabel part = some (query.space, l)
  hints : ∀ query ∈ queries, query.epochHint = lastHint hints query.space

variable {q : String} {hints : Option String} {queries : List Query}

theorem isBelow_iff
    {part : String} :
    isBelow part = true ↔ ∃ space label, spaceAndLabel part = some (space, label) ∧
      label ≠ "" := by
  unfold isBelow
  rw [Option.any_eq_true, Prod.exists]
  simp

/-- `handle_query` parses the parameters. -/
theorem parsed_parsedQueries
    (order : HashOrder (String × List String))
    (q : String)
    (hints : Option String) :
    Parsed q hints (parsedQueries order q hints) := by
  have hspaces : (parsedQueries order q hints).map Query.space =
      (order.arrange (bySpaceOf (requestedHandles q))).map Prod.fst := by
    unfold parsedQueries
    rw [List.map_map]
    rfl
  constructor
  · rw [hspaces]
    refine ((order.perm _).map Prod.fst).trans ?_
    refine (List.perm_ext_iff_of_nodup (Tally.nodup_tally _) (List.nodup_dedup _)).2 ?_
    intro space
    rw [Tally.mem_keys_tally, List.mem_dedup]
  · intro query hquery l
    obtain ⟨⟨space, labels⟩, hentry, rfl⟩ := List.mem_map.1 hquery
    rw [HashOrder.mem_arrange] at hentry
    dsimp only
    rw [List.mem_filter, mem_bySpaceOf hentry, List.mem_filterMap, and_comm, Bool.not_eq_true',
      Bool.eq_false_iff, Ne, String.isEmpty_iff]
  · intro query hquery
    obtain ⟨⟨space, labels⟩, _, rfl⟩ := List.mem_map.1 hquery
    exact find?_hintMap_eq_lastHint hints space

theorem Parsed.mem_wantedBelow
    (h : Parsed q hints queries)
    {query : Query}
    (hquery : query ∈ queries)
    {part : String} :
    part ∈ wantedBelow query ↔ part ∈ requestedHandles q ∧
      ∃ label, spaceAndLabel part = some (query.space, label) ∧ label ≠ "" := by
  unfold wantedBelow
  rw [List.mem_dedup, List.mem_map]
  constructor
  · rintro ⟨l, hl, rfl⟩
    obtain ⟨hne, part, hpart, heq⟩ := (h.handles query hquery l).1 hl
    rw [label_append_space heq]
    exact ⟨hpart, l, heq, hne⟩
  · rintro ⟨hpart, l, heq, hne⟩
    exact ⟨l, (h.handles query hquery l).2 ⟨hne, part, hpart, heq⟩, label_append_space heq⟩

/-- The handles of all queries are those asked for. -/
theorem Parsed.wantedBelow_perm
    (h : Parsed q hints queries) :
    (queries.flatMap wantedBelow).Perm (subHandlesOf q) := by
  have hdistinct : (queries.map Query.space).Nodup :=
    h.spaces.nodup_iff.2 (List.nodup_dedup _)
  have hnodup : (queries.flatMap wantedBelow).Nodup := by
    refine List.nodup_flatMap.2 ⟨fun _ _ => List.nodup_dedup _, ?_⟩
    refine (List.pairwise_map.1 hdistinct).imp_of_mem (fun {a b} ha hb hne => ?_)
    intro part hpart hpart'
    obtain ⟨_, l, heq, _⟩ := (h.mem_wantedBelow ha).1 hpart
    obtain ⟨_, l', heq', _⟩ := (h.mem_wantedBelow hb).1 hpart'
    rw [heq, Option.some.injEq, Prod.mk.injEq] at heq'
    exact hne heq'.1
  refine (List.perm_ext_iff_of_nodup hnodup (List.nodup_dedup _)).2 (fun part => ?_)
  rw [List.mem_flatMap, List.mem_dedup, List.mem_filter, isBelow_iff]
  constructor
  · rintro ⟨query, hquery, hpart⟩
    obtain ⟨hmem, l, heq, hne⟩ := (h.mem_wantedBelow hquery).1 hpart
    exact ⟨hmem, query.space, l, heq, hne⟩
  · rintro ⟨hmem, space, l, heq, hne⟩
    have hspace : space ∈ queries.map Query.space := by
      rw [h.spaces.mem_iff]
      exact List.mem_dedup.2 (List.mem_map.2
        ⟨(space, l), List.mem_filterMap.2 ⟨part, hmem, heq⟩, rfl⟩)
    obtain ⟨query, hquery, rfl⟩ := List.mem_map.1 hspace
    exact ⟨query, hquery, (h.mem_wantedBelow hquery).2 ⟨hmem, l, heq, hne⟩⟩

/-- With canonical names the handles that `resolve` looks up are those wanted. -/
theorem Parsed.mem_uniqueHandles
    {N : NameCrates}
    (h : Parsed q hints queries)
    (hnames : ∀ part ∈ requestedHandles q, Canonical N part)
    {query : Query}
    (hquery : query ∈ queries)
    {space : SLabel}
    (hspace : N.slabelFromStr query.space = some space)
    (order : HashOrder Subname)
    (handle : String) :
    handle ∈ uniqueHandles N order space query.handles ↔ handle ∈ wantedBelow query := by
  have hcanonical : ∀ l ∈ query.handles, ∃ name full, N.subnameFromStr l = some name ∧
      N.join name space = some full ∧ full.text = l ++ query.space := by
    intro l hl
    obtain ⟨hne, part, hpart, heq⟩ := (h.handles query hquery l).1 hl
    obtain ⟨space', l', s, heq', hs, _, hlabel⟩ := hnames part hpart
    rw [heq, Option.some.injEq, Prod.mk.injEq] at heq'
    obtain ⟨rfl, rfl⟩ := heq'
    rw [hspace, Option.some.injEq] at hs
    subst hs
    rw [label_append_space heq]
    exact hlabel hne
  unfold uniqueHandles wantedBelow
  rw [List.mem_filterMap, List.mem_dedup, List.mem_map]
  constructor
  · rintro ⟨name, hname, hfull⟩
    rw [HashOrder.mem_arrange, List.mem_dedup, List.mem_filterMap] at hname
    obtain ⟨l, hl, hname⟩ := hname
    obtain ⟨name', full, hname', hjoin, htext⟩ := hcanonical l hl
    rw [hname, Option.some.injEq] at hname'
    rw [hname', hjoin, Option.map_some, Option.some.injEq] at hfull
    exact ⟨l, hl, htext.symm.trans hfull⟩
  · rintro ⟨l, hl, rfl⟩
    obtain ⟨name, full, hname, hjoin, htext⟩ := hcanonical l hl
    refine ⟨name, ?_, ?_⟩
    · rw [HashOrder.mem_arrange, List.mem_dedup]
      exact List.mem_filterMap.2 ⟨l, hl, hname⟩
    · rw [hjoin, Option.map_some, htext]

/-- The space of a query is a name. -/
theorem Parsed.slabel
    {N : NameCrates}
    (h : Parsed q hints queries)
    (hnames : ∀ part ∈ requestedHandles q, Canonical N part)
    {query : Query}
    (hquery : query ∈ queries) :
    ∃ s, N.slabelFromStr query.space = some s ∧ (N.fromSpace s).text = query.space := by
  have hspace : query.space ∈ spacesOf q :=
    h.spaces.mem_iff.1 (List.mem_map_of_mem hquery)
  obtain ⟨⟨space, l⟩, hvote, heq⟩ := List.mem_map.1 (List.mem_dedup.1 hspace)
  obtain ⟨part, hpart, hsplit⟩ := List.mem_filterMap.1 hvote
  obtain ⟨space', l', s, hsplit', hs, hname, _⟩ := hnames part hpart
  rw [hsplit, Option.some.injEq, Prod.mk.injEq] at hsplit'
  dsimp only at heq
  rw [← heq, hsplit'.1]
  exact ⟨s, hs, hname⟩

end Asked

section Answered

variable {V : Crates} {N : NameCrates} {db : Tables} {orders : String → SpaceOrder}

/-- **What the loop in `resolve` adds** for queries about different spaces. -/
theorem resolveLoop_eq
    {queries : List Query}
    (hdistinct : (queries.map Query.space).Nodup)
    {certs : Query → List Certificate}
    {updates : Query → List DataUpdateRequest}
    (hround : ∀ query ∈ queries, ∀ builder, ∃ built,
      resolveQuery V N (orders query.space) db query builder = .ok built ∧
        Adds builder (certs query) (updates query) built)
    {seen : List String}
    (hseen : ∀ query ∈ queries, query.space ∉ seen)
    (builder : MessageBuilder) :
    ∃ built, resolveLoop V N orders db seen builder queries = .ok built ∧
      Adds builder (queries.flatMap certs) (queries.flatMap updates) built := by
  induction queries generalizing seen builder with
  | nil =>
      exact ⟨builder, rfl, by simp, by simp⟩
  | cons query queries ih =>
      obtain ⟨hnew, hrest⟩ := List.nodup_cons.1 hdistinct
      obtain ⟨mid, hmid, hadds⟩ := hround query List.mem_cons_self builder
      have hunseen : ∀ query' ∈ queries, query'.space ∉ query.space :: seen := by
        intro query' hquery'
        rw [List.mem_cons, not_or]
        exact ⟨fun heq => hnew (heq ▸ List.mem_map_of_mem hquery'),
          hseen query' (List.mem_cons_of_mem _ hquery')⟩
      obtain ⟨built, hbuilt, hadds'⟩ := ih hrest
        (fun query' hquery' => hround query' (List.mem_cons_of_mem _ hquery')) hunseen mid
      refine ⟨built, ?_, hadds.trans hadds'⟩
      unfold resolveLoop
      rw [if_neg (hseen query List.mem_cons_self), hmid, Fallible.ok_bind, hbuilt]

/-- What is stored for a handle that a query asks for, below a stored root. -/
def servedSub (V : Crates) (db : Tables) (part : String) : Option HandleRecord :=
  (spaceAndLabel part).bind (fun p => servedBelow V db p.1 part)

/-- The parts of the answer to a query: a root certificate for each space, the certificate of
each handle that is stored under a stored root, and an update for each stored one.  A
receipt is left out if the last hint for the space names its commitment, or a later one. -/
structure Answers (V : Crates) (db : Tables) (q : String) (hints : Option String)
    (builder : MessageBuilder) : Prop where
  certs : builder.certs.Perm ((spacesOf q).map (servedRoot V db hints) ++
    ((subHandlesOf q).filterMap (servedSub V db)).map HandleRecord.cert)
  updates : builder.updates.Perm (((spacesOf q).filterMap (storedRecord V db) ++
    (subHandlesOf q).filterMap (servedSub V db)).map recordUpdate)
  receipts : ∀ space ∈ spacesOf q, ∀ parent, storedRecord V db space = some parent →
    parent.cert.hasReceipt = true → ∀ cert ∈ builder.certs, cert.subject.text = space →
      (cert.hasReceipt = false ↔
        ∃ hint, lastHint hints space = some hint ∧ NamesCommitment hint parent.zone)

variable {q : String} {hints : Option String} {queries : List Query}

theorem Parsed.servedSub_eq
    (h : Parsed q hints queries) :
    (queries.flatMap (fun query =>
        (wantedBelow query).filterMap (servedBelow V db query.space))).Perm
      ((subHandlesOf q).filterMap (servedSub V db)) := by
  have hsame : ∀ query ∈ queries,
      (wantedBelow query).filterMap (servedBelow V db query.space) =
        (wantedBelow query).filterMap (servedSub V db) := by
    intro query hquery
    refine List.filterMap_congr (fun part hpart => ?_)
    obtain ⟨_, l, heq, _⟩ := (h.mem_wantedBelow hquery).1 hpart
    unfold servedSub
    rw [heq, Option.bind_some]
  rw [List.flatMap_congr hsame, ← List.filterMap_flatMap]
  exact h.wantedBelow_perm.filterMap _

theorem Parsed.certs_perm
    (h : Parsed q hints queries) :
    (queries.flatMap (queryCerts V db hints)).Perm
      ((spacesOf q).map (servedRoot V db hints) ++
        ((subHandlesOf q).filterMap (servedSub V db)).map HandleRecord.cert) := by
  have hroots := h.spaces.map (servedRoot V db hints)
  rw [List.map_map] at hroots
  refine (List.map_append_flatMap_perm queries _ _).symm.trans (hroots.append ?_)
  rw [← List.map_flatMap]
  exact h.servedSub_eq.map _

theorem Parsed.updates_perm
    (h : Parsed q hints queries) :
    (queries.flatMap (queryUpdates V db)).Perm
      (((spacesOf q).filterMap (storedRecord V db) ++
        (subHandlesOf q).filterMap (servedSub V db)).map recordUpdate) := by
  have hroots := h.spaces.filterMap (storedRecord V db)
  rw [List.filterMap_eq_flatMap_toList, List.flatMap_map] at hroots
  unfold queryUpdates
  rw [← List.map_flatMap]
  refine List.Perm.map _ ?_
  exact (List.flatMap_append_perm queries _ _).symm.trans (hroots.append h.servedSub_eq)

/-- A space is its own space, without a label. -/
theorem spaceAndLabel_space
    {part space label : String}
    (h : spaceAndLabel part = some (space, label)) :
    spaceAndLabel space = some (space, "") := by
  unfold spaceAndLabel at h ⊢
  dsimp only at h ⊢
  split_ifs at h with hempty
  cases h
  have htake : ∀ l : List Char, (l.dropWhile (fun c => !isSeparator c)).takeWhile
      (fun c => !isSeparator c) = [] := by
    intro l
    induction l with
    | nil =>
        rfl
    | cons c l ih =>
        rw [List.dropWhile_cons]
        split_ifs with hc
        · exact ih
        · exact List.takeWhile_cons_of_neg hc
  rw [String.toList_ofList, List.dropWhile_idempotent, htake, if_neg hempty]

theorem subject_servedRoot
    (hV : V.Lawful)
    (hdb : RowsEncoded V db)
    (hints : Option String)
    (space : String) :
    (servedRoot V db hints space).subject.text = space := by
  unfold servedRoot
  cases hparent : storedRecord V db space with
  | none =>
      rfl
  | some parent =>
      have hsubject := subject_storedRecord hV hdb hparent
      have htake : (takeReceipt parent.cert).subject = parent.cert.subject := by
        unfold takeReceipt
        cases parent.cert.witness <;> rfl
      dsimp only
      split_ifs
      · rw [htake, hsubject]
      · exact hsubject

theorem hasReceipt_takeReceipt
    (cert : Certificate) :
    (takeReceipt cert).hasReceipt = false := by
  unfold takeReceipt Certificate.hasReceipt
  cases hwitness : cert.witness with
  | root receipt =>
      rfl
  | other proof =>
      dsimp only
      rw [hwitness]

/-- The certificates of an answer that name a space are its root certificate. -/
theorem eq_servedRoot
    (hV : V.Lawful)
    (hdb : RowsEncoded V db)
    {space : String}
    (hspace : space ∈ spacesOf q)
    {cert : Certificate}
    (hcert : cert ∈ (spacesOf q).map (servedRoot V db hints) ++
      ((subHandlesOf q).filterMap (servedSub V db)).map HandleRecord.cert)
    (hsubject : cert.subject.text = space) :
    cert = servedRoot V db hints space := by
  rcases List.mem_append.1 hcert with hroot | hsub
  · obtain ⟨space', _, rfl⟩ := List.mem_map.1 hroot
    rw [subject_servedRoot hV hdb] at hsubject
    rw [hsubject]
  · obtain ⟨record, hrecord, rfl⟩ := List.mem_map.1 hsub
    obtain ⟨part, hpart, hserved⟩ := List.mem_filterMap.1 hrecord
    obtain ⟨_, _, hstored⟩ := Option.bind_eq_some_iff.1 hserved
    obtain ⟨_, _, hstored⟩ := Option.bind_eq_some_iff.1 hstored
    have hname : part = space := (subject_storedRecord hV hdb hstored).symm.trans hsubject
    obtain ⟨s, l, heq, hne⟩ := isBelow_iff.1 (List.mem_filter.1 (List.mem_dedup.1 hpart)).2
    obtain ⟨⟨space', l'⟩, hvote, rfl⟩ := List.mem_map.1 (List.mem_dedup.1 hspace)
    obtain ⟨part', _, heq'⟩ := List.mem_filterMap.1 hvote
    rw [hname, spaceAndLabel_space heq', Option.some.injEq, Prod.mk.injEq] at heq
    exact absurd heq.2.symm hne

theorem canonical_sampleNames
    {part : String}
    (h : (spaceAndLabel part).isSome = true) :
    Canonical sampleNames part := by
  obtain ⟨⟨space, label⟩, heq⟩ := Option.isSome_iff_exists.1 h
  exact ⟨space, label, ⟨space⟩, heq, rfl, rfl,
    fun _ => ⟨⟨label⟩, ⟨label ++ space⟩, rfl, rfl, label_append_space heq⟩⟩

/-- A root certificate with a receipt, and its zone with a commitment at height 7. -/
def sampleRootCert : Certificate :=
  ⟨0, ⟨"@bitcoin"⟩, .root (some [1])⟩

def sampleRootZone : Zone :=
  { sampleZone 1 1 7 0 with canonical := ⟨"@bitcoin"⟩ }

end Answered

end HandleQuery
end CertRelay
