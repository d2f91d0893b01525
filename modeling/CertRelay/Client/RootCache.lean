import CertRelay.Client.Fabric
import CertRelay.Client.SendQuery
import CertRelay.Lib.Hex
import CertRelay.Lib.Runs
import CertRelay.Relay.QueryAnswer

/-!
# The root cache of a client

A cached query reads the cached zones of its spaces into its context, asks relays, and
writes the root zones of the verified answer into the cache.  Each read, the round trip and
each write are steps of their own, and the steps of different queries interleave.

A write replaces the cached zone whatever it is by then, so a query that was overtaken by
another one may take the cache back.

**Results.**
* `namesCommitment_of_cached`: what a relay may leave out for the hint of a cached zone;
* `step_cases`: what a step can do;
* `alone_eq_query`: the steps of a query that nothing interrupts are `query`;
* `cachedHeight_step`: what a write-back needs to keep the commitment height;
* `root_cache_never_rolls_back`: runs without overtaken write-backs keep it.
-/

namespace CertRelay
namespace RootCache

open SendQuery

section Cache

/-- A zone under the text of its handle. -/
abbrev HandleZone := String × Zone

/-- The `root_cache` of a client. -/
abbrev Cache := KeyedTable HandleZone Prod.fst

/-- The zones of a verified message. -/
structure VerifiedZones where
  zones : List HandleZone

/-- `epoch_hint_from_zone`. -/
def epochHintFromZone (zone : Zone) : Option EpochHint :=
  match zone.commitment with
  | .exist c => some ⟨Hex.encode c.onchain.stateRoot, UInt32.ofNat c.onchain.blockHeight⟩
  | _ => none

/-- The cached zones that a query puts into its context. -/
def contextOf (cache : Cache) (request : QueryRequest) : List HandleZone :=
  (request.queries.map Query.space).filterMap cache.find?

/-- The root zones of an answer. -/
def rootZones (isSingleLabel : SName → Bool) (res : VerifiedZones) : List HandleZone :=
  res.zones.filter (fun z => isSingleLabel ⟨z.1⟩)

/-- The commitment height that is cached for a space, 0 where there is none. -/
def cachedHeight (cache : Cache) (space : String) : ℕ :=
  ((cache.find? space).map (fun z => heightRank z.2.commitment)).getD 0

end Cache

section Query

variable {A Msg : Type} (C : A → QueryCrates (List HandleZone) Msg VerifiedZones)
  (isSingleLabel : SName → Bool) (devMode : Bool)

/-- `query` from the context on: the answer, the cache and the pool. -/
def query (anchors : A) (request : QueryRequest) (noCache : Bool) (relays : List String)
    (get : ℕ → HttpGet → Reply) (cache : Cache) (pool : RelayPool.Pool) :
    Except ClientError (VerifiedZones × String) × Cache × RelayPool.Pool :=
  let ctx := if noCache then [] else contextOf cache request
  match sendQuery (C anchors) ctx devMode request noCache get relays pool with
  | (.ok (res, url), pool) =>
      let cache :=
        if noCache then cache
        else (rootZones isSingleLabel res).foldl KeyedTable.insertOrReplace cache
      (.ok (res, url), cache, pool)
  | (.error e, pool) => (.error e, cache, pool)

/-- How far a cached query is: which spaces it has still to read, or which zones to write. -/
inductive Stage
  | reading (spaces : List String) (ctx : List HandleZone)
  | writing (ctx : List HandleZone) (zones : List HandleZone)

structure Flight where
  request : QueryRequest
  stage : Stage

/-- A client with its cached queries, by the order in which they began. -/
structure State where
  cache : Cache
  pool : RelayPool.Pool
  flights : List Flight

/-- What happens next: a query begins, or one of them takes a step.  The anchors, the relays
that are picked and what they answer are those of the moment. -/
inductive Action (A : Type)
  | start (request : QueryRequest)
  | read (i : ℕ)
  | answer (i : ℕ) (anchors : A) (relays : List String) (get : ℕ → HttpGet → Reply)
  | write (i : ℕ)

/-- What a query writes for its answer: nothing for an error. -/
def zonesToWrite : Except ClientError (VerifiedZones × String) → List HandleZone
  | .ok (res, _) => rootZones isSingleLabel res
  | .error _ => []

def State.setStage (s : State) (i : ℕ) (request : QueryRequest) (stage : Stage) : State :=
  { s with flights := s.flights.set i ⟨request, stage⟩ }

/-- One step of one query. -/
def step (s : State) : Action A → State
  | .start request =>
      { s with
        flights := s.flights ++ [⟨request, .reading (request.queries.map Query.space) []⟩] }
  | .read i =>
      match s.flights[i]? with
      | some ⟨request, .reading (space :: rest) ctx⟩ =>
          s.setStage i request (.reading rest (ctx ++ (s.cache.find? space).toList))
      | _ => s
  | .answer i anchors relays get =>
      match s.flights[i]? with
      | some ⟨request, .reading [] ctx⟩ =>
          let out := sendQuery (C anchors) ctx devMode request false get relays s.pool
          { s.setStage i request (.writing ctx (zonesToWrite isSingleLabel out.1)) with
            pool := out.2 }
      | _ => s
  | .write i =>
      match s.flights[i]? with
      | some ⟨request, .writing ctx (z :: rest)⟩ =>
          { s.setStage i request (.writing ctx rest) with cache := s.cache.insertOrReplace z }
      | _ => s

/-- A verified root zone has no older commitment than a context zone of its handle. -/
def RespectsContext (crates : QueryCrates (List HandleZone) Msg VerifiedZones) : Prop :=
  ∀ ctx msg flags res, crates.verifyWithOptions ctx msg flags = .ok res →
    ∀ z ∈ rootZones isSingleLabel res, ∀ c ∈ ctx, c.1 = z.1 →
      heightRank c.2.commitment ≤ heightRank z.2.commitment

/-- From no point of a run to a later one does the cached height of a space decrease. -/
def NeverRollsBack (s : State) (actions : List (Action A)) : Prop :=
  ∀ before middle after, actions = before ++ (middle ++ after) → ∀ space,
    cachedHeight (before.foldl (step C isSingleLabel devMode) s).cache space ≤
      cachedHeight ((before ++ middle).foldl (step C isSingleLabel devMode) s).cache space

/-- Nothing is cached for a space that has a newer commitment than what a query read. -/
def NoneNewer (cache : Cache) (ctx : List HandleZone) (space : String) : Prop :=
  cachedHeight cache space = 0 ∨
    ∃ c ∈ ctx, c.1 = space ∧ cachedHeight cache space ≤ heightRank c.2.commitment

instance (cache : Cache) (ctx : List HandleZone) (space : String) :
    Decidable (NoneNewer cache ctx space) :=
  inferInstanceAs (Decidable (_ ∨ _))

/-- If the step is a write-back, the cache has nothing newer than what the query read. -/
def NotOvertaken (s : State) : Action A → Prop
  | .write i =>
      match s.flights[i]? with
      | some ⟨_, .writing ctx (z :: _)⟩ => NoneNewer s.cache ctx z.1
      | _ => True
  | _ => True

end Query

section Hints

open HandleQuery

/-- **The hint of a cached zone** lets a relay leave out a receipt exactly if it serves the
cached commitment or an older one. -/
theorem namesCommitment_of_cached
    {cached served : Zone}
    {c : CommitmentInfo}
    (hcached : cached.commitment = .exist c)
    (hheight : c.onchain.blockHeight < UInt32.size)
    {hint : EpochHint}
    (hhint : epochHintFromZone cached = some hint) :
    NamesCommitment hint served ↔ ∃ c', served.commitment = .exist c' ∧
      (c'.onchain.blockHeight < c.onchain.blockHeight ∨
        c'.onchain.blockHeight = c.onchain.blockHeight ∧
          c'.onchain.stateRoot = c.onchain.stateRoot) := by
  unfold epochHintFromZone at hhint
  rw [hcached] at hhint
  cases hhint
  unfold NamesCommitment
  refine exists_congr (fun c' => and_congr_right (fun _ => ?_))
  rw [UInt32.toNat_ofNat_of_lt' hheight]
  refine or_congr_right (and_congr eq_comm ?_)
  exact ⟨fun h => (Hex.encode_injective h).symm, fun h => by rw [h]⟩

end Hints

section WriteBack

theorem cachedHeight_insertOrReplace
    (cache : Cache)
    (z : HandleZone)
    (space : String) :
    cachedHeight (cache.insertOrReplace z) space =
      if z.1 = space then heightRank z.2.commitment else cachedHeight cache space := by
  unfold cachedHeight
  split_ifs with hspace
  · subst hspace
    rw [KeyedTable.find?_insertOrReplace_self]
    rfl
  · rw [KeyedTable.find?_insertOrReplace_ne _ hspace]

/-- A zone whose commitment has a height one below a number, or none. -/
def zoneOfRank (rank : ℕ) : Zone :=
  { sampleZone 0 0 0 0 with
    commitment :=
      match rank with
      | 0 => .unknown
      | h + 1 => .exist ⟨⟨[], h⟩⟩ }

@[simp] theorem heightRank_zoneOfRank
    (rank : ℕ) :
    heightRank (zoneOfRank rank).commitment = rank := by
  cases rank <;> rfl

/-- **What a write-back needs**: the cache has nothing newer than what was read exactly if no
zone that verification may return takes the cache back. -/
theorem noneNewer_iff
    {cache : Cache}
    {ctx : List HandleZone}
    {space : String} :
    NoneNewer cache ctx space ↔
      ∀ zone, (∀ c ∈ ctx, c.1 = space → heightRank c.2.commitment ≤ heightRank zone.commitment) →
        cachedHeight cache space ≤
          cachedHeight (cache.insertOrReplace (space, zone)) space := by
  have hwritten : ∀ zone : Zone, cachedHeight (cache.insertOrReplace (space, zone)) space =
      heightRank zone.commitment :=
    fun zone => (cachedHeight_insertOrReplace cache (space, zone) space).trans (if_pos rfl)
  simp only [hwritten]
  constructor
  · rintro (hnone | ⟨c, hc, hspace, hle⟩) zone hzone
    · rw [hnone]
      exact Nat.zero_le _
    · exact hle.trans (hzone c hc hspace)
  · intro h
    by_contra hnewer
    unfold NoneNewer at hnewer
    push Not at hnewer
    obtain ⟨hpos, hread⟩ := hnewer
    -- the oldest zone that verification may return is one below the cached height
    have hle := h (zoneOfRank (cachedHeight cache space - 1)) (fun c hc hspace => by
      rw [heightRank_zoneOfRank]
      exact Nat.le_sub_one_of_lt (hread c hc hspace))
    rw [heightRank_zoneOfRank] at hle
    omega

end WriteBack

section Runs

variable {A Msg : Type} {C : A → QueryCrates (List HandleZone) Msg VerifiedZones}
  {isSingleLabel : SName → Bool} {devMode : Bool} {s : State}

/-- The zones that a query has still to write are no older than what it read. -/
def Sound (s : State) : Prop :=
  ∀ flight ∈ s.flights, ∀ ctx zones, flight.stage = .writing ctx zones →
    ∀ z ∈ zones, ∀ c ∈ ctx, c.1 = z.1 → heightRank c.2.commitment ≤ heightRank z.2.commitment

/-- A query in flight that gets to a stage without unsound zones. -/
theorem Sound.setStage
    (hs : Sound s)
    {i : ℕ}
    {request : QueryRequest}
    {stage : Stage}
    (hstage : ∀ ctx zones, stage = .writing ctx zones → ∀ z ∈ zones, ∀ c ∈ ctx, c.1 = z.1 →
      heightRank c.2.commitment ≤ heightRank z.2.commitment) :
    Sound (s.setStage i request stage) := by
  intro flight hflight ctx zones hwriting
  rcases List.mem_or_eq_of_mem_set hflight with hold | rfl
  · exact hs flight hold ctx zones hwriting
  · exact hstage ctx zones hwriting

/-- A verified answer is one of the verification in the context. -/
theorem verified_of_sendQuery
    {C : QueryCrates (List HandleZone) Msg VerifiedZones}
    {ctx : List HandleZone}
    {request : QueryRequest}
    {noCache : Bool}
    {get : ℕ → HttpGet → Reply}
    {relays : List String}
    {pool : RelayPool.Pool}
    {res : VerifiedZones}
    {url : String}
    (h : (sendQuery C ctx devMode request noCache get relays pool).1 = .ok (res, url)) :
    ∃ msg flags, C.verifyWithOptions ctx msg flags = .ok res := by
  unfold sendQuery at h
  rw [Attempts.attemptAll_fst] at h
  obtain ⟨x, _, hx⟩ := Attempts.firstDone_eq_ok.1 h
  rcases rustAttempt_cases C ctx devMode x with
    ⟨v, hgood, hdone⟩ | ⟨_, _, e, hstop⟩ | ⟨_, _, e, hskip⟩
  · rw [hdone] at hx
    cases hx
    exact verified_of_goodAnswer hgood
  · rw [hstop] at hx
    cases hx
  · rw [hskip] at hx
    cases hx

theorem step_read
    {i : ℕ}
    {request : QueryRequest}
    {space : String}
    {rest : List String}
    {ctx : List HandleZone}
    (h : s.flights[i]? = some ⟨request, .reading (space :: rest) ctx⟩) :
    step C isSingleLabel devMode s (.read i) =
      s.setStage i request (.reading rest (ctx ++ (s.cache.find? space).toList)) := by
  unfold step
  dsimp only
  rw [h]

theorem step_answer
    {i : ℕ}
    {request : QueryRequest}
    {ctx : List HandleZone}
    (h : s.flights[i]? = some ⟨request, .reading [] ctx⟩)
    (anchors : A)
    (relays : List String)
    (get : ℕ → HttpGet → Reply) :
    step C isSingleLabel devMode s (.answer i anchors relays get) =
      { s.setStage i request (.writing ctx (zonesToWrite isSingleLabel
          (sendQuery (C anchors) ctx devMode request false get relays s.pool).1)) with
        pool := (sendQuery (C anchors) ctx devMode request false get relays s.pool).2 } := by
  unfold step
  dsimp only
  rw [h]

theorem step_write
    {i : ℕ}
    {request : QueryRequest}
    {ctx : List HandleZone}
    {z : HandleZone}
    {rest : List HandleZone}
    (h : s.flights[i]? = some ⟨request, .writing ctx (z :: rest)⟩) :
    step C isSingleLabel devMode s (.write i) =
      { s.setStage i request (.writing ctx rest) with cache := s.cache.insertOrReplace z } := by
  unfold step
  dsimp only
  rw [h]

/-- What a step can do. -/
theorem step_cases
    (s : State)
    (action : Action A) :
    step C isSingleLabel devMode s action = s ∨
      (∃ request, action = .start request ∧ step C isSingleLabel devMode s action =
        { s with
          flights := s.flights ++
            [⟨request, .reading (request.queries.map Query.space) []⟩] }) ∨
      (∃ i request space rest ctx, action = .read i ∧
        s.flights[i]? = some ⟨request, .reading (space :: rest) ctx⟩ ∧
        step C isSingleLabel devMode s action =
          s.setStage i request (.reading rest (ctx ++ (s.cache.find? space).toList))) ∨
      (∃ i anchors relays get request ctx, action = .answer i anchors relays get ∧
        s.flights[i]? = some ⟨request, .reading [] ctx⟩ ∧
        step C isSingleLabel devMode s action =
          { s.setStage i request (.writing ctx (zonesToWrite isSingleLabel
              (sendQuery (C anchors) ctx devMode request false get relays s.pool).1)) with
            pool := (sendQuery (C anchors) ctx devMode request false get relays s.pool).2 }) ∨
      ∃ i request ctx z rest, action = .write i ∧
        s.flights[i]? = some ⟨request, .writing ctx (z :: rest)⟩ ∧
        step C isSingleLabel devMode s action =
          { s.setStage i request (.writing ctx rest) with
            cache := s.cache.insertOrReplace z } := by
  cases action with
  | start request =>
      exact .inr (.inl ⟨request, rfl, rfl⟩)
  | read i =>
      rcases hflight : s.flights[i]? with _ | ⟨request, ⟨_ | ⟨space, rest⟩, ctx⟩ | _⟩
      · exact .inl (by simp [step, hflight])
      · exact .inl (by simp [step, hflight])
      · exact .inr (.inr (.inl ⟨i, request, space, rest, ctx, rfl, hflight, step_read hflight⟩))
      · exact .inl (by simp [step, hflight])
  | answer i anchors relays get =>
      rcases hflight : s.flights[i]? with _ | ⟨request, ⟨_ | ⟨space, rest⟩, ctx⟩ | _⟩
      · exact .inl (by simp [step, hflight])
      · exact .inr (.inr (.inr (.inl ⟨i, anchors, relays, get, request, ctx, rfl, hflight,
          step_answer hflight anchors relays get⟩)))
      · exact .inl (by simp [step, hflight])
      · exact .inl (by simp [step, hflight])
  | write i =>
      rcases hflight : s.flights[i]? with _ | ⟨request, _ | ⟨ctx, _ | ⟨z, rest⟩⟩⟩
      · exact .inl (by simp [step, hflight])
      · exact .inl (by simp [step, hflight])
      · exact .inl (by simp [step, hflight])
      · exact .inr (.inr (.inr (.inr ⟨i, request, ctx, z, rest, rfl, hflight,
          step_write hflight⟩)))

section Alone

variable {i : ℕ} {request : QueryRequest} {stage stage' : Stage}

theorem lt_of_flight
    (h : s.flights[i]? = some ⟨request, stage⟩) :
    i < s.flights.length :=
  (List.getElem?_eq_some_iff.1 h).1

theorem setStage_self
    (h : s.flights[i]? = some ⟨request, stage⟩) :
    s.setStage i request stage = s := by
  obtain ⟨hi, hflight⟩ := List.getElem?_eq_some_iff.1 h
  unfold State.setStage
  rw [← hflight, List.set_getElem_self]

theorem setStage_setStage :
    (s.setStage i request stage).setStage i request stage' = s.setStage i request stage' := by
  unfold State.setStage
  rw [List.set_set]

theorem flight_setStage
    (h : i < s.flights.length) :
    (s.setStage i request stage).flights[i]? = some ⟨request, stage⟩ :=
  List.getElem?_set_self h

/-- All reads of a query, one after another. -/
theorem foldl_read
    {spaces : List String}
    {ctx : List HandleZone}
    (h : s.flights[i]? = some ⟨request, .reading spaces ctx⟩) :
    (List.replicate spaces.length (.read i)).foldl (step C isSingleLabel devMode) s =
      s.setStage i request (.reading [] (ctx ++ spaces.filterMap s.cache.find?)) := by
  induction spaces generalizing s ctx with
  | nil =>
      rw [List.filterMap_nil, List.append_nil]
      exact (setStage_self h).symm
  | cons space spaces ih =>
      have hctx : ctx ++ (s.cache.find? space).toList ++ spaces.filterMap s.cache.find? =
          ctx ++ (space :: spaces).filterMap s.cache.find? := by
        rw [List.append_assoc]
        cases hfind : s.cache.find? space with
        | none =>
            rw [List.filterMap_cons_none hfind]
            rfl
        | some z =>
            rw [List.filterMap_cons_some hfind]
            rfl
      rw [List.length_cons, List.replicate_succ, List.foldl_cons, step_read h,
        ih (flight_setStage (lt_of_flight h)), setStage_setStage]
      exact congrArg (fun ctx => s.setStage i request (.reading [] ctx)) hctx

/-- All writes of a query, one after another. -/
theorem foldl_write
    {ctx zones : List HandleZone}
    (h : s.flights[i]? = some ⟨request, .writing ctx zones⟩) :
    (List.replicate zones.length (.write i)).foldl (step C isSingleLabel devMode) s =
      { s.setStage i request (.writing ctx []) with
        cache := zones.foldl KeyedTable.insertOrReplace s.cache } := by
  induction zones generalizing s with
  | nil =>
      exact (setStage_self h).symm
  | cons z zones ih =>
      rw [List.length_cons, List.replicate_succ, List.foldl_cons, step_write h]
      have hrest := ih
        (s := { s.setStage i request (.writing ctx zones) with
          cache := s.cache.insertOrReplace z })
        (flight_setStage (lt_of_flight h))
      refine hrest.trans ?_
      unfold State.setStage
      dsimp only
      rw [List.set_set, List.foldl_cons]

/-- The steps of one query. -/
def ownSteps (request : QueryRequest) (i : ℕ) (anchors : A) (relays : List String)
    (get : ℕ → HttpGet → Reply) (writes : ℕ) : List (Action A) :=
  .start request :: (List.replicate request.queries.length (.read i) ++
    .answer i anchors relays get :: List.replicate writes (.write i))

/-- A cached query writes the root zones of its answer. -/
theorem query_eq
    (anchors : A)
    (request : QueryRequest)
    (relays : List String)
    (get : ℕ → HttpGet → Reply)
    (cache : Cache)
    (pool : RelayPool.Pool) :
    query C isSingleLabel devMode anchors request false relays get cache pool =
      let out := sendQuery (C anchors) (contextOf cache request) devMode request false get relays
        pool
      (out.1, (zonesToWrite isSingleLabel out.1).foldl KeyedTable.insertOrReplace cache,
        out.2) := by
  unfold query
  dsimp only
  rw [if_neg Bool.false_ne_true]
  rcases sendQuery (C anchors) (contextOf cache request) devMode request false get relays pool
    with ⟨_ | ⟨res, url⟩, pool'⟩
  · rfl
  · rfl

/-- **The steps of a query that nothing interrupts are `query`.** -/
theorem alone_eq_query
    (s : State)
    (request : QueryRequest)
    (anchors : A)
    (relays : List String)
    (get : ℕ → HttpGet → Reply) :
    let out := query C isSingleLabel devMode anchors request false relays get s.cache s.pool
    let last := (ownSteps request s.flights.length anchors relays get
      (zonesToWrite isSingleLabel out.1).length).foldl (step C isSingleLabel devMode) s
    last.cache = out.2.1 ∧ last.pool = out.2.2 := by
  intro out last
  let i := s.flights.length
  let begun : State :=
    { s with
      flights := s.flights ++ [⟨request, .reading (request.queries.map Query.space) []⟩] }
  have hbegun : begun.flights[i]? =
      some ⟨request, .reading (request.queries.map Query.space) []⟩ :=
    List.getElem?_concat_length
  let ready := begun.setStage i request (.reading [] (contextOf s.cache request))
  have hread : (List.replicate request.queries.length (.read i)).foldl
      (step C isSingleLabel devMode) begun = ready := by
    rw [← List.length_map Query.space]
    exact foldl_read hbegun
  have hready : ready.flights[i]? = some ⟨request, .reading [] (contextOf s.cache request)⟩ :=
    flight_setStage (lt_of_flight hbegun)
  let sent := sendQuery (C anchors) (contextOf s.cache request) devMode request false get relays
    s.pool
  let answered : State :=
    { ready.setStage i request
        (.writing (contextOf s.cache request) (zonesToWrite isSingleLabel sent.1)) with
      pool := sent.2 }
  have hanswer : step C isSingleLabel devMode ready (.answer i anchors relays get) =
      answered :=
    step_answer hready anchors relays get
  have hanswered : answered.flights[i]? = some ⟨request,
      .writing (contextOf s.cache request) (zonesToWrite isSingleLabel sent.1)⟩ :=
    flight_setStage (lt_of_flight hready)
  have hout : out = (sent.1,
      (zonesToWrite isSingleLabel sent.1).foldl KeyedTable.insertOrReplace s.cache, sent.2) :=
    query_eq anchors request relays get s.cache s.pool
  have hlast : last = { answered.setStage i request (.writing (contextOf s.cache request) []) with
      cache := (zonesToWrite isSingleLabel sent.1).foldl KeyedTable.insertOrReplace
        answered.cache } := by
    show (ownSteps request i anchors relays get _).foldl _ s = _
    unfold ownSteps
    rw [List.foldl_cons, List.foldl_append]
    show List.foldl _ (List.foldl _ begun _) _ = _
    rw [hread, List.foldl_cons, hanswer, hout]
    exact foldl_write hanswered
  rw [hlast, hout]
  exact ⟨rfl, rfl⟩

end Alone

/-- No step gives a query zones that are older than what it read. -/
theorem sound_step
    (hC : ∀ a, RespectsContext isSingleLabel (C a))
    (hs : Sound s)
    (action : Action A) :
    Sound (step C isSingleLabel devMode s action) := by
  rcases step_cases (C := C) s action with heq | ⟨request, _, heq⟩ |
      ⟨i, request, space, rest, ctx, _, _, heq⟩ |
      ⟨i, anchors, relays, get, request, ctx, _, _, heq⟩ |
      ⟨i, request, ctx, z, rest, _, hflight, heq⟩
  · rw [heq]
    exact hs
  · rw [heq]
    intro flight hflight ctx zones hwriting
    rcases List.mem_append.1 hflight with hold | hnew
    · exact hs flight hold ctx zones hwriting
    · rw [List.mem_singleton.1 hnew] at hwriting
      cases hwriting
  · rw [heq]
    exact hs.setStage (fun _ _ hwriting => by cases hwriting)
  · rw [heq]
    refine hs.setStage (fun ctx' zones hwriting z hz => ?_)
    cases hwriting
    cases hout : (sendQuery (C anchors) ctx devMode request false get relays s.pool).1 with
    | error e =>
        rw [hout] at hz
        cases hz
    | ok answer =>
        rw [hout] at hz
        obtain ⟨msg, flags, hverified⟩ := verified_of_sendQuery hout
        exact hC anchors ctx msg flags answer.1 hverified z hz
  · rw [heq]
    refine hs.setStage (fun ctx' zones hwriting z' hz' => ?_)
    cases hwriting
    exact hs _ (List.mem_of_getElem? hflight) _ _ rfl z' (List.mem_cons_of_mem z hz')

/-- **A write-back that was not overtaken keeps the commitment height**, and no other step
writes. -/
theorem cachedHeight_step
    (hs : Sound s)
    {action : Action A}
    (haction : NotOvertaken s action)
    (space : String) :
    cachedHeight s.cache space ≤
      cachedHeight (step C isSingleLabel devMode s action).cache space := by
  rcases step_cases (C := C) s action with heq | ⟨request, _, heq⟩ |
      ⟨i, request, space, rest, ctx, _, _, heq⟩ |
      ⟨i, anchors, relays, get, request, ctx, _, _, heq⟩ |
      ⟨i, request, ctx, z, rest, rfl, hflight, heq⟩
  · rw [heq]
  · rw [heq]
  · rw [heq]
    exact le_rfl
  · rw [heq]
    exact le_rfl
  · have hnewer : NoneNewer s.cache ctx z.1 := by
      unfold NotOvertaken at haction
      dsimp only at haction
      rwa [hflight] at haction
    have hz := hs _ (List.mem_of_getElem? hflight) _ _ rfl z List.mem_cons_self
    rw [heq]
    show _ ≤ cachedHeight (s.cache.insertOrReplace z) space
    by_cases hspace : z.1 = space
    · subst hspace
      exact noneNewer_iff.1 hnewer z.2 hz
    · rw [cachedHeight_insertOrReplace, if_neg hspace]

/-- **The root cache does not roll back in a run without overtaken write-backs.** -/
theorem root_cache_never_rolls_back
    (hC : ∀ a, RespectsContext isSingleLabel (C a))
    (hs : s.flights = [])
    {actions : List (Action A)}
    (hrun : Runs.StepsMeet (step C isSingleLabel devMode) NotOvertaken s actions) :
    NeverRollsBack C isSingleLabel devMode s actions := by
  have hsound : Sound s := by
    unfold Sound
    rw [hs]
    exact List.forall_mem_nil _
  have hstep : ∀ t a, Sound t → NotOvertaken t a → Sound (step C isSingleLabel devMode t a) :=
    fun _ a h _ => sound_step hC h a
  rintro before middle after rfl space
  obtain ⟨hbefore, hrest⟩ := Runs.stepsMeet_append.1 hrun
  have hmiddle := (Runs.stepsMeet_append.1 hrest).1
  have hmid := hbefore.invariant hstep hsound
  rw [List.foldl_append]
  generalize before.foldl (step C isSingleLabel devMode) s = t at hmiddle hmid ⊢
  have hkept : ∀ u a,
      Sound u ∧ cachedHeight t.cache space ≤ cachedHeight u.cache space → NotOvertaken u a →
        Sound (step C isSingleLabel devMode u a) ∧ cachedHeight t.cache space ≤
          cachedHeight (step C isSingleLabel devMode u a).cache space :=
    fun u a h ha => ⟨hstep u a h.1 ha, h.2.trans (cachedHeight_step h.1 ha space)⟩
  exact (hmiddle.invariant hkept ⟨hmid, le_rfl⟩).2

/-- A message is the commitment height of a root zone, which verifies unless the context has
a newer one. -/
def sampleCacheCrates : QueryCrates (List HandleZone) Bytes VerifiedZones where
  decode body := .ok body
  verifyWithOptions ctx msg _ :=
    let zone := zoneOfRank (msg.headD 0).toNat
    if ∀ c ∈ ctx, c.1 = "@bitcoin" →
        heightRank c.2.commitment ≤ heightRank zone.commitment then
      .ok ⟨[("@bitcoin", zone)]⟩
    else .error "older commitment"
  text _ := ""
  goParses _ := true

def sampleSingleLabel (name : SName) : Bool :=
  decide (name.text.toList.head? = some '@')

theorem respectsContext_sampleCacheCrates :
    RespectsContext sampleSingleLabel sampleCacheCrates := by
  intro ctx msg flags res hverified z hz c hc hspace
  unfold sampleCacheCrates at hverified
  dsimp only at hverified
  split_ifs at hverified with hcontext
  cases hverified
  have hz' : z = ("@bitcoin", _) := List.mem_singleton.1 (List.mem_filter.1 hz).1
  rw [hz'] at hspace ⊢
  exact hcontext c hc hspace

/-- A space that is cached, and a relay that answers with a commitment height. -/
def sampleCache : State where
  cache := KeyedTable.empty.insertOrReplace ("@bitcoin", zoneOfRank 5)
  pool := [⟨"https://relay", 0⟩]
  flights := []

def sampleRequest : QueryRequest :=
  ⟨[⟨"@bitcoin", [], none⟩]⟩

def sampleAnswer (i : ℕ) (height : UInt8) : Action Unit :=
  .answer i () ["https://relay"] (fun _ _ => .response 200 [height] none)

/-- A query that finds a newer zone than it read. -/
theorem root_cache_never_rolls_back_sample :
    NeverRollsBack (fun _ => sampleCacheCrates) sampleSingleLabel false sampleCache
      [.start sampleRequest, .read 0, sampleAnswer 0 10, .write 0] := by
  have hwrite : NoneNewer sampleCache.cache [("@bitcoin", zoneOfRank 5)] "@bitcoin" := by
    decide
  exact root_cache_never_rolls_back (fun _ => respectsContext_sampleCacheCrates) rfl
    ⟨trivial, trivial, trivial, hwrite, trivial⟩

/-- Two queries read the same zone; the one whose answer is older writes last. -/
theorem overtaken_write_rolls_back :
    ¬ ∀ (A Msg : Type) (C : A → QueryCrates (List HandleZone) Msg VerifiedZones)
      (isSingleLabel : SName → Bool) (devMode : Bool) (s : State) (actions : List (Action A)),
      (∀ a, RespectsContext isSingleLabel (C a)) → s.flights = [] →
        NeverRollsBack C isSingleLabel devMode s actions := by
  intro h
  have hkept := h Unit Bytes (fun _ => sampleCacheCrates) sampleSingleLabel false sampleCache
    [.start sampleRequest, .start sampleRequest, .read 0, .read 1, sampleAnswer 0 10,
      sampleAnswer 1 6, .write 0, .write 1]
    (fun _ => respectsContext_sampleCacheCrates) rfl
    [.start sampleRequest, .start sampleRequest, .read 0, .read 1, sampleAnswer 0 10,
      sampleAnswer 1 6, .write 0] [.write 1] [] rfl "@bitcoin"
  revert hkept
  decide +kernel

end Runs

end RootCache
end CertRelay
