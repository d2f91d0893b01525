import CertRelay.Lib.Fallible
import CertRelay.Lib.KeyedTable
import CertRelay.Lib.UrlEncoded
import CertRelay.Client.Anchors

/-!
# Scan URIs

A QR code holds a URI `veritas://scan?id=...`, and each binding of the client has its own
parser for it.  They trim different characters, some decode the parameters and some do not,
and of several ids some take the first and some the last.

Texts are texts of Unicode scalar values.  How Swift divides a text into Characters is a
parameter, as is the decoder of hexadecimal digits.

**Results.**
* `parseGo_eq_ok`, `parsePython_eq_ok`, `parseJavaScript_eq_ok`, `parseKotlin_eq_ok`,
  `parseSwift_eq_ok`, `parseRust_eq_ok`: which id each binding reads.
-/

namespace CertRelay
namespace ScanUri

section Spaces

/-- `str.isspace` of Python. -/
def isPythonSpace (c : Char) : Bool :=
  Text.isWhitespace c || (0x1C ≤ c.toNat && c.toNat ≤ 0x1F)

/-- White space and line terminators of JavaScript. -/
def isJavaScriptSpace (c : Char) : Bool :=
  (Text.isWhitespace c && c.toNat != 0x85) || c.toNat == 0xFEFF

/-- `Char.isWhitespace` of Kotlin. -/
def isKotlinSpace (c : Char) : Bool :=
  (Text.isWhitespace c && c.toNat != 0x85) || (0x1C ≤ c.toNat && c.toNat ≤ 0x1F)

/-- `CharacterSet.whitespaces`: tabulators and the general category `Zs`. -/
def isSwiftSpace (c : Char) : Bool :=
  (0x2000 ≤ c.toNat && c.toNat ≤ 0x200A) ||
    c.toNat ∈ [0x9, 0x20, 0xA0, 0x1680, 0x202F, 0x205F, 0x3000]

end Spaces

section Parsers

/-- How a parser fails. -/
inductive ScanError
  | decode (message : String)
  | hex (message : String)
  | indexOutOfBounds
deriving DecidableEq

def scanPrefix : String :=
  "veritas://scan?"

def expectedScheme : ScanError :=
  .decode "expected veritas://scan?... URI"

def missingId : ScanError :=
  .decode "missing id parameter"

/-- The query of a URI that is trimmed first. -/
def queryOf (isSpace : Char → Bool) (uri : String) : Option String :=
  Text.stripPrefix scanPrefix (Text.trimMatches isSpace uri)

/-- `hex::decode`. -/
structure HexDecoder where
  decode : String → Except String Bytes
  decode_empty : decode "" = .ok []

variable (hex : HexDecoder)

/-- `TrustId::from_str`. -/
def trustIdFromStr (s : String) : Except String TrustId :=
  match hex.decode s with
  | .error e => .error e
  | .ok bytes =>
      match toArray 32 bytes with
      | none => .error "Invalid string length"
      | some id => .ok id

/-- The id of a parameter, checked as soon as it is met. -/
def rustParameter (pair : String) : Except ScanError (Option TrustId) :=
  match Text.splitOnce '=' pair with
  | some (key, value) =>
      if key = "id" then ((trustIdFromStr hex value).mapError .hex).map some else .ok none
  | none => .ok none

/-- `ScanParams::parse`. -/
def parseRust (uri : String) : Except ScanError TrustId :=
  match queryOf Text.isWhitespace uri with
  | none => .error expectedScheme
  | some query => do
      let id ← (Text.split '&' query).foldlM
        (fun id pair => rustParameter hex pair >>= fun found => pure (found.or id)) none
      match id with
      | some id => .ok id
      | none => .error missingId

/-- The loop of `ParseScanURI`. -/
def goStep (id pair : String) : String :=
  match Text.splitN '=' 2 pair with
  | [key, value] => if key = "id" then value else id
  | _ => id

/-- `ParseScanURI`. -/
def parseGo (uri : String) : Except ScanError String :=
  match queryOf Text.isWhitespace uri with
  | none => .error expectedScheme
  | some query =>
      let id := (Text.split '&' query).foldl goStep ""
      if id.isEmpty then .error missingId else .ok id

/-- A table of parameters. -/
abbrev Params := KeyedTable (String × String) Prod.fst

/-- The loop of Python's `ScanParams.parse`. -/
def pythonStep (params : Params) (pair : String) : Params :=
  match Text.splitOnce '=' pair with
  | some entry => params.insertOrReplace entry
  | none => params

/-- `ScanParams.parse` of Python. -/
def parsePython (uri : String) : Except ScanError String :=
  match queryOf isPythonSpace uri with
  | none => .error expectedScheme
  | some query =>
      let params := (Text.split '&' query).foldl pythonStep KeyedTable.empty
      match (params.find? "id").map Prod.snd with
      | some id => if id.isEmpty then .error missingId else .ok id
      | none => .error missingId

/-- `new URLSearchParams(query)`, which drops a leading question mark. -/
def urlSearchParams (query : String) : List (String × String) :=
  UrlEncoded.parsePairs ((Text.stripPrefix "?" query).getD query)

/-- `parseScanUri` of JavaScript. -/
def parseJavaScript (uri : String) : Except ScanError String :=
  match queryOf isJavaScriptSpace uri with
  | none => .error expectedScheme
  | some query =>
      match ((urlSearchParams query).find? (fun p => decide (p.1 = "id"))).map Prod.snd with
      | some id => if id.isEmpty then .error missingId else .ok id
      | none => .error missingId

/-- The destructuring of a pair; there may be no second component. -/
def kotlinPair (pair : String) : Except ScanError (String × String) :=
  match Text.splitN '=' 2 pair with
  | [k, v] => .ok (k, v)
  | _ => .error .indexOutOfBounds

/-- `parseScanUri` of Kotlin. -/
def parseKotlin (uri : String) : Except ScanError String :=
  match queryOf isKotlinSpace uri with
  | none => .error expectedScheme
  | some query => do
      let params ← (Text.split '&' query).foldlM
        (fun params pair => kotlinPair pair >>= fun entry => pure (params.insertOrReplace entry))
        (KeyedTable.empty : Params)
      match (params.find? "id").map Prod.snd with
      | some id => .ok id
      | none => .error missingId

/-- How a text is divided into Characters; each printable ASCII character is one. -/
structure Graphemes where
  characters : List Char → List (List Char)
  flatten : ∀ s, (characters s).flatten = s
  ascii : ∀ s, (∀ c ∈ s, 0x20 ≤ c.toNat ∧ c.toNat < 0x7F) → characters s = s.map (fun c => [c])

variable (graphemes : Graphemes)

/-- What follows the prefix, which must end between two Characters. -/
def swiftQuery (uri : String) : Option (List Char) :=
  let trimmed := graphemes.characters (Text.trimMatches isSwiftSpace uri).toList
  let start := graphemes.characters scanPrefix.toList
  if start.isPrefixOf trimmed then some (trimmed.drop start.length).flatten else none

/-- `split(separator: "=", maxSplits: 1)`, which leaves out empty parts. -/
def swiftParts (pair : List (List Char)) : List (List (List Char)) :=
  match Text.cutOnce ['='] (pair.dropWhile (fun c => decide (c = ['=']))) with
  | some (first, rest) => if rest.isEmpty then [first] else [first, rest]
  | none => [pair.dropWhile (fun c => decide (c = ['=']))].filter (fun part => !part.isEmpty)

/-- The id of a parameter. -/
def swiftParameter (pair : List (List Char)) : Option String :=
  match swiftParts pair with
  | [key, value] => if key.flatten = "id".toList then some (String.ofList value.flatten) else none
  | _ => none

/-- The parameters of a query that are not empty. -/
def swiftPairs (query : List Char) : List (List (List Char)) :=
  ((graphemes.characters query).splitOn ['&']).filter (fun pair => !pair.isEmpty)

/-- `ScanParams.parse` of Swift. -/
def parseSwift (uri : String) : Except ScanError String :=
  match swiftQuery graphemes uri with
  | none => .error expectedScheme
  | some query =>
      match (swiftPairs graphemes query).foldl
          (fun id pair => (swiftParameter pair).or id) none with
      | some id => .ok id
      | none => .error missingId

end Parsers

section Readings

/-- The value of a parameter that is called `id`. -/
def idValue (pair : String) : Option String :=
  match Text.splitOnce '=' pair with
  | some (key, value) => if key = "id" then some value else none
  | none => none

/-- The ids of a query, undecoded. -/
def rawIds (query : String) : List String :=
  (Text.split '&' query).filterMap idValue

/-- The last of them. -/
def lastId (query : String) : Option String :=
  (rawIds query).getLast?

/-- Every parameter of a query has a value. -/
def Assigned (query : String) : Prop :=
  ∀ pair ∈ Text.split '&' query, '=' ∈ pair.toList

/-- The first id of a query, decoded. -/
def firstFormId (query : String) : Option String :=
  ((urlSearchParams query).find? (fun p => decide (p.1 = "id"))).map Prod.snd

/-- The last id of a query in Characters. -/
def lastSwiftId (graphemes : Graphemes) (query : List Char) : Option String :=
  ((swiftPairs graphemes query).filterMap swiftParameter).getLast?

/-- A text is a trust id. -/
def IsTrustId (hex : HexDecoder) (s : String) : Prop :=
  ∃ id, trustIdFromStr hex s = .ok id

theorem splitN_two
    (pair : String) :
    Text.splitN '=' 2 pair =
      ((Text.splitOnce '=' pair).map (fun p => [p.1, p.2])).getD [pair] := by
  unfold Text.splitN
  cases Text.splitOnce '=' pair with
  | none =>
      rfl
  | some p =>
      rfl

theorem idValue_eq
    (pair : String) :
    idValue pair =
      (Text.splitOnce '=' pair).bind (fun p => if p.1 = "id" then some p.2 else none) := by
  unfold idValue
  cases Text.splitOnce '=' pair with
  | none =>
      rfl
  | some p =>
      rfl

theorem ok_of_filled
    {id v : String}
    {e : ScanError} :
    (if id.isEmpty then .error e else .ok id : Except ScanError String) = .ok v ↔
      id = v ∧ v ≠ "" := by
  split_ifs with hempty
  · refine iff_of_false (fun h => by cases h) ?_
    rintro ⟨rfl, hne⟩
    exact hne (String.isEmpty_iff.1 hempty)
  · constructor
    · intro h
      cases h
      exact ⟨rfl, fun h => hempty (String.isEmpty_iff.2 h)⟩
    · rintro ⟨rfl, _⟩
      rfl

theorem goStep_eq
    (id pair : String) :
    goStep id pair = (idValue pair).getD id := by
  unfold goStep
  rw [splitN_two, idValue_eq]
  cases Text.splitOnce '=' pair with
  | none =>
      rfl
  | some p =>
      dsimp only [Option.map_some, Option.getD_some, Option.bind_some]
      split_ifs <;> rfl

/-- **The id that Go reads.** -/
theorem parseGo_eq_ok
    {uri v : String} :
    parseGo uri = .ok v ↔
      ∃ query, queryOf Text.isWhitespace uri = some query ∧ lastId query = some v ∧ v ≠ "" := by
  unfold parseGo
  cases queryOf Text.isWhitespace uri with
  | none =>
      simp
  | some query =>
      have hloop : (Text.split '&' query).foldl goStep "" = (lastId query).getD "" := by
        have hstep : goStep = fun id pair => (idValue pair).getD id :=
          funext (fun id => funext (fun pair => goStep_eq id pair))
        rw [hstep]
        exact Fallible.foldl_getD_eq_getLast? idValue _ ""
      dsimp only
      rw [hloop, ok_of_filled]
      simp only [Option.some.injEq, exists_eq_left']
      cases lastId query with
      | none =>
          simp [eq_comm]
      | some id =>
          simp

/-- The ids among the parameters with a value. -/
theorem filterMap_idValue
    (pairs : List String) :
    pairs.filterMap idValue =
      ((pairs.filterMap (Text.splitOnce '=')).filter (fun p => decide (p.1 = "id"))).map
        Prod.snd := by
  induction pairs with
  | nil =>
      rfl
  | cons pair pairs ih =>
      rw [List.filterMap_cons, List.filterMap_cons, idValue_eq]
      cases Text.splitOnce '=' pair with
      | none =>
          exact ih
      | some p =>
          dsimp only [Option.bind_some]
          by_cases hp : p.1 = "id"
          · simp [hp, ih]
          · simp [hp, ih]

/-- A table of parameters holds the last id. -/
theorem find?_params
    (entries : List (String × String)) :
    ((entries.foldl KeyedTable.insertOrReplace (KeyedTable.empty : Params)).find? "id").map
        Prod.snd =
      ((entries.filter (fun p => decide (p.1 = "id"))).map Prod.snd).getLast? := by
  rw [KeyedTable.find?_foldl_insertOrReplace, List.getLast?_map]
  cases (entries.filter (fun p => decide (p.1 = "id"))).getLast? <;> rfl

/-- The id in the table of the parameters of a query. -/
theorem find?_lastId
    (query : String) :
    ((((Text.split '&' query).filterMap (Text.splitOnce '=')).foldl
        KeyedTable.insertOrReplace (KeyedTable.empty : Params)).find? "id").map Prod.snd =
      lastId query := by
  rw [find?_params, ← filterMap_idValue]
  rfl

theorem foldl_pythonStep
    (pairs : List String)
    (params : Params) :
    pairs.foldl pythonStep params =
      (pairs.filterMap (Text.splitOnce '=')).foldl KeyedTable.insertOrReplace params := by
  induction pairs generalizing params with
  | nil =>
      rfl
  | cons pair pairs ih =>
      rw [List.foldl_cons, ih, List.filterMap_cons]
      unfold pythonStep
      cases Text.splitOnce '=' pair <;> rfl

/-- **The id that Python reads.** -/
theorem parsePython_eq_ok
    {uri v : String} :
    parsePython uri = .ok v ↔
      ∃ query, queryOf isPythonSpace uri = some query ∧ lastId query = some v ∧ v ≠ "" := by
  unfold parsePython
  cases queryOf isPythonSpace uri with
  | none =>
      simp
  | some query =>
      have hloop : (((Text.split '&' query).foldl pythonStep KeyedTable.empty).find? "id").map
          Prod.snd = lastId query := by
        rw [foldl_pythonStep, find?_lastId]
      dsimp only
      rw [hloop]
      simp only [Option.some.injEq, exists_eq_left']
      cases lastId query with
      | none =>
          simp
      | some id =>
          dsimp only
          rw [ok_of_filled, Option.some.injEq]

/-- **The id that JavaScript reads.** -/
theorem parseJavaScript_eq_ok
    {uri v : String} :
    parseJavaScript uri = .ok v ↔
      ∃ query, queryOf isJavaScriptSpace uri = some query ∧ firstFormId query = some v ∧
        v ≠ "" := by
  unfold parseJavaScript
  cases queryOf isJavaScriptSpace uri with
  | none =>
      simp
  | some query =>
      simp only [Option.some.injEq, exists_eq_left']
      unfold firstFormId
      cases ((urlSearchParams query).find? (fun p => decide (p.1 = "id"))).map Prod.snd with
      | none =>
          simp
      | some id =>
          dsimp only
          rw [ok_of_filled, Option.some.injEq]

/-- **The id that Swift reads.** -/
theorem parseSwift_eq_ok
    {graphemes : Graphemes}
    {uri v : String} :
    parseSwift graphemes uri = .ok v ↔
      ∃ query, swiftQuery graphemes uri = some query ∧
        lastSwiftId graphemes query = some v := by
  unfold parseSwift
  cases swiftQuery graphemes uri with
  | none =>
      simp
  | some query =>
      dsimp only
      rw [Fallible.foldl_or_eq_getLast?, Option.or_none]
      simp only [Option.some.injEq, exists_eq_left']
      unfold lastSwiftId
      cases ((swiftPairs graphemes query).filterMap swiftParameter).getLast? with
      | none =>
          simp
      | some id =>
          simp

theorem kotlinPair_eq_ok
    {pair : String}
    {entry : String × String} :
    kotlinPair pair = .ok entry ↔ Text.splitOnce '=' pair = some entry := by
  unfold kotlinPair
  rw [splitN_two]
  cases Text.splitOnce '=' pair with
  | none =>
      simp
  | some p =>
      simp

/-- Kotlin fails at a parameter without a value. -/
theorem mapM_kotlinPair
    {pairs : List String}
    {entries : List (String × String)} :
    pairs.mapM kotlinPair = .ok entries ↔
      (∀ pair ∈ pairs, '=' ∈ pair.toList) ∧ entries = pairs.filterMap (Text.splitOnce '=') := by
  rw [Fallible.mapM_eq_ok_iff]
  simp only [kotlinPair_eq_ok]
  induction pairs generalizing entries with
  | nil =>
      simp
  | cons pair pairs ih =>
      rw [List.forall₂_cons_left_iff, List.forall_mem_cons]
      cases hpair : Text.splitOnce '=' pair with
      | none =>
          have hnone : ¬ '=' ∈ pair.toList := Text.splitOnce_eq_none_iff.1 hpair
          simp [hnone]
      | some entry =>
          have hsome : '=' ∈ pair.toList := by
            rw [(Text.splitOnce_eq_some_iff.1 hpair).2]
            simp
          simp only [Option.some.injEq, List.filterMap_cons_some hpair, hsome, true_and, ih]
          constructor
          · rintro ⟨_, rest, rfl, ⟨hall, rfl⟩, rfl⟩
            exact ⟨hall, rfl⟩
          · rintro ⟨hall, rfl⟩
            exact ⟨entry, _, rfl, ⟨hall, rfl⟩, rfl⟩

/-- **The id that Kotlin reads.** -/
theorem parseKotlin_eq_ok
    {uri v : String} :
    parseKotlin uri = .ok v ↔
      ∃ query, queryOf isKotlinSpace uri = some query ∧ Assigned query ∧
        lastId query = some v := by
  unfold parseKotlin
  cases queryOf isKotlinSpace uri with
  | none =>
      simp
  | some query =>
      dsimp only
      rw [Fallible.foldlM_eq_mapM kotlinPair KeyedTable.insertOrReplace, bind_assoc]
      simp only [pure_bind, Option.some.injEq, exists_eq_left']
      rw [Fallible.bind_eq_ok]
      constructor
      · rintro ⟨entries, hentries, hread⟩
        obtain ⟨hall, rfl⟩ := mapM_kotlinPair.1 hentries
        rw [find?_lastId] at hread
        refine ⟨hall, ?_⟩
        cases hid : lastId query with
        | none =>
            rw [hid] at hread
            cases hread
        | some id =>
            rw [hid] at hread
            cases hread
            rfl
      · rintro ⟨hall, hid⟩
        refine ⟨_, mapM_kotlinPair.2 ⟨hall, rfl⟩, ?_⟩
        rw [find?_lastId, hid]

variable {hex : HexDecoder}

theorem rustParameter_eq_ok
    {pair : String}
    {found : Option TrustId} :
    rustParameter hex pair = .ok found ↔
      (∀ v, idValue pair = some v → IsTrustId hex v) ∧
        found = (idValue pair).bind (fun v => (trustIdFromStr hex v).toOption) := by
  have hparameter : rustParameter hex pair =
      (idValue pair).elim (.ok none)
        (fun v => ((trustIdFromStr hex v).mapError .hex).map some) := by
    unfold rustParameter
    rw [idValue_eq]
    cases Text.splitOnce '=' pair with
    | none =>
        rfl
    | some p =>
        dsimp only [Option.bind_some]
        split_ifs <;> rfl
  rw [hparameter]
  cases idValue pair with
  | none =>
      simp [eq_comm]
  | some v =>
      dsimp only [Option.elim_some, Option.bind_some]
      cases hv : trustIdFromStr hex v with
      | error e =>
          have hbad : ¬ IsTrustId hex v := by
            rintro ⟨id, hid⟩
            rw [hv] at hid
            cases hid
          simp [Except.mapError, Except.map, hbad]
      | ok id =>
          have hgood : IsTrustId hex v := ⟨id, hv⟩
          simp [Except.mapError, Except.map, Except.toOption, hgood, eq_comm]

theorem mapM_rustParameter
    {pairs : List String}
    {found : List (Option TrustId)} :
    pairs.mapM (rustParameter hex) = .ok found ↔
      (∀ v ∈ pairs.filterMap idValue, IsTrustId hex v) ∧
        found = pairs.map (fun pair =>
          (idValue pair).bind (fun v => (trustIdFromStr hex v).toOption)) := by
  rw [Fallible.mapM_eq_ok_iff]
  simp only [rustParameter_eq_ok]
  induction pairs generalizing found with
  | nil =>
      simp
  | cons pair pairs ih =>
      rw [List.forall₂_cons_left_iff]
      simp only [ih, List.map_cons]
      constructor
      · rintro ⟨_, rest, ⟨hpair, rfl⟩, ⟨hall, rfl⟩, rfl⟩
        refine ⟨fun v hv => ?_, rfl⟩
        obtain ⟨p, hp, hid⟩ := List.mem_filterMap.1 hv
        rcases List.mem_cons.1 hp with rfl | hp
        · exact hpair v hid
        · exact hall v (List.mem_filterMap.2 ⟨p, hp, hid⟩)
      · rintro ⟨hall, rfl⟩
        refine ⟨_, _, ⟨fun v hv => ?_, rfl⟩, ⟨fun v hv => ?_, rfl⟩, rfl⟩
        · exact hall v (List.mem_filterMap.2 ⟨pair, List.mem_cons_self, hv⟩)
        · obtain ⟨p, hp, hid⟩ := List.mem_filterMap.1 hv
          exact hall v (List.mem_filterMap.2 ⟨p, List.mem_cons_of_mem _ hp, hid⟩)

/-- Of ids that are all valid, the last one is kept. -/
theorem getLast?_filterMap_toOption
    {ids : List String}
    (hall : ∀ v ∈ ids, IsTrustId hex v) :
    (ids.filterMap (fun v => (trustIdFromStr hex v).toOption)).getLast? =
      ids.getLast?.bind (fun v => (trustIdFromStr hex v).toOption) := by
  induction ids using List.reverseRecOn with
  | nil =>
      rfl
  | append_singleton ids v _ =>
      obtain ⟨id, hid⟩ := hall v (List.mem_append_right _ List.mem_cons_self)
      rw [List.filterMap_append, List.getLast?_concat, Option.bind_some, hid]
      simp [hid, Except.toOption]

/-- Reading ids in turn, each in place of the one before, leaves the last id of a query. -/
theorem foldl_found
    {query : String}
    (hall : ∀ w ∈ rawIds query, IsTrustId hex w) :
    ((Text.split '&' query).map (fun pair =>
        (idValue pair).bind (fun v => (trustIdFromStr hex v).toOption))).foldl
          (fun id found => found.or id) none =
      (lastId query).bind (fun v => (trustIdFromStr hex v).toOption) := by
  have hkeep := Fallible.foldl_or_eq_getLast? (fun found : Option TrustId => found)
    ((Text.split '&' query).map (fun pair =>
      (idValue pair).bind (fun v => (trustIdFromStr hex v).toOption))) none
  rw [hkeep, Option.or_none, List.filterMap_map]
  unfold lastId
  rw [← getLast?_filterMap_toOption hall]
  unfold rawIds
  rw [List.filterMap_filterMap]
  rfl

/-- **The id that Rust reads.** -/
theorem parseRust_eq_ok
    {uri : String}
    {id : TrustId} :
    parseRust hex uri = .ok id ↔
      ∃ query v, queryOf Text.isWhitespace uri = some query ∧
        (∀ w ∈ rawIds query, IsTrustId hex w) ∧ lastId query = some v ∧
        trustIdFromStr hex v = .ok id := by
  unfold parseRust
  cases queryOf Text.isWhitespace uri with
  | none =>
      simp
  | some query =>
      dsimp only
      rw [Fallible.foldlM_eq_mapM (rustParameter hex) (fun id found => found.or id), bind_assoc]
      simp only [pure_bind, Option.some.injEq]
      rw [Fallible.bind_eq_ok]
      constructor
      · rintro ⟨found, hfound, hread⟩
        obtain ⟨hall, rfl⟩ := mapM_rustParameter.1 hfound
        rw [foldl_found hall] at hread
        cases hid : lastId query with
        | none =>
            rw [hid] at hread
            cases hread
        | some v =>
            obtain ⟨id', hid'⟩ := hall v (List.mem_of_getLast? hid)
            rw [hid, Option.bind_some, hid'] at hread
            cases hread
            exact ⟨query, v, rfl, hall, hid, hid'⟩
      · rintro ⟨_, v, rfl, hall, hid, hv⟩
        refine ⟨_, mapM_rustParameter.2 ⟨hall, rfl⟩, ?_⟩
        rw [foldl_found hall, hid, Option.bind_some, hv]
        rfl

end Readings

end ScanUri
end CertRelay
