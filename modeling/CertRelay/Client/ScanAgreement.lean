import CertRelay.Client.ScanUri

/-!
# When the bindings agree on a scan URI

The same QR code is scanned by clients in six languages, and the id in it is the one that
they pin.  They agree if none of them finds an id, or if one text is the first id, decoded,
and the last one, as it stands, and nothing else in the URI makes one of them refuse it.

**Results.**
* `sameId_iff`: when all bindings read the same id;
* `agree_params_iff`: where nothing is trimmed or decoded, this is about the ids among the
  parameters.
-/

namespace CertRelay
namespace ScanUri

section Agreement

variable (hex : HexDecoder) (graphemes : Graphemes)

/-- All bindings read the same id or none; Rust validates it as well. -/
def SameId (uri : String) : Prop :=
  ∃ id : Option String,
    (parseGo uri).toOption = id ∧
    (parsePython uri).toOption = id ∧
    (parseJavaScript uri).toOption = id ∧
    (parseKotlin uri).toOption = id ∧
    (parseSwift graphemes uri).toOption = id ∧
    (parseRust hex uri).toOption = id.bind (fun v => (trustIdFromStr hex v).toOption)

/-- No binding finds an id in a URI: there is none, or one that is empty where that counts. -/
structure NoneReads (uri : String) : Prop where
  raw : ∀ query, queryOf Text.isWhitespace uri = some query → ∀ v, lastId query = some v → v = ""
  python : ∀ query, queryOf isPythonSpace uri = some query → ∀ v, lastId query = some v → v = ""
  javaScript : ∀ query, queryOf isJavaScriptSpace uri = some query →
    ∀ v, firstFormId query = some v → v = ""
  kotlin : ∀ query, queryOf isKotlinSpace uri = some query → Assigned query →
    lastId query = none
  swift : ∀ query, swiftQuery graphemes uri = some query → lastSwiftId graphemes query = none

/-- A text is the id in a URI whichever way it is trimmed and divided; if it is a trust id,
so are the ids before it. -/
structure AllRead (uri v : String) : Prop where
  filled : v ≠ ""
  raw : ∃ query, queryOf Text.isWhitespace uri = some query ∧ lastId query = some v ∧
    (IsTrustId hex v → ∀ w ∈ rawIds query, IsTrustId hex w)
  python : ∃ query, queryOf isPythonSpace uri = some query ∧ lastId query = some v
  javaScript : ∃ query, queryOf isJavaScriptSpace uri = some query ∧ firstFormId query = some v
  kotlin : ∃ query, queryOf isKotlinSpace uri = some query ∧ Assigned query ∧
    lastId query = some v
  swift : ∃ query, swiftQuery graphemes uri = some query ∧
    lastSwiftId graphemes query = some v

variable {hex graphemes} {uri : String}

theorem not_isTrustId_empty :
    ¬ IsTrustId hex "" := by
  rintro ⟨id, hid⟩
  unfold trustIdFromStr at hid
  rw [hex.decode_empty] at hid
  cases hid

/-- Where no binding finds an id, all of them fail. -/
theorem noneReads_iff :
    NoneReads graphemes uri ↔
      (parseGo uri).toOption = none ∧
      (parsePython uri).toOption = none ∧
      (parseJavaScript uri).toOption = none ∧
      (parseKotlin uri).toOption = none ∧
      (parseSwift graphemes uri).toOption = none := by
  simp only [Fallible.toOption_eq_none, parseGo_eq_ok, parsePython_eq_ok, parseJavaScript_eq_ok,
    parseKotlin_eq_ok, parseSwift_eq_ok]
  constructor
  · intro h
    refine ⟨?_, ?_, ?_, ?_, ?_⟩
    · rintro v ⟨query, hquery, hid, hne⟩
      exact hne (h.raw query hquery v hid)
    · rintro v ⟨query, hquery, hid, hne⟩
      exact hne (h.python query hquery v hid)
    · rintro v ⟨query, hquery, hid, hne⟩
      exact hne (h.javaScript query hquery v hid)
    · rintro v ⟨query, hquery, hall, hid⟩
      rw [h.kotlin query hquery hall] at hid
      cases hid
    · rintro v ⟨query, hquery, hid⟩
      rw [h.swift query hquery] at hid
      cases hid
  · rintro ⟨hraw, hpython, hjs, hkotlin, hswift⟩
    refine ⟨fun query hquery v hid => ?_, fun query hquery v hid => ?_,
      fun query hquery v hid => ?_, fun query hquery hall => ?_, fun query hquery => ?_⟩
    · by_contra hne
      exact hraw v ⟨query, hquery, hid, hne⟩
    · by_contra hne
      exact hpython v ⟨query, hquery, hid, hne⟩
    · by_contra hne
      exact hjs v ⟨query, hquery, hid, hne⟩
    · exact Option.eq_none_iff_forall_ne_some.2
        (fun v hid => hkotlin v ⟨query, hquery, hall, hid⟩)
    · exact Option.eq_none_iff_forall_ne_some.2 (fun v hid => hswift v ⟨query, hquery, hid⟩)

/-- What Rust makes of a URI whose last id is `v`. -/
theorem parseRust_toOption_iff
    {query v : String}
    (hquery : queryOf Text.isWhitespace uri = some query)
    (hid : lastId query = some v) :
    (parseRust hex uri).toOption = (trustIdFromStr hex v).toOption ↔
      (IsTrustId hex v → ∀ w ∈ rawIds query, IsTrustId hex w) := by
  have hread : ∀ id, parseRust hex uri = .ok id ↔
      (∀ w ∈ rawIds query, IsTrustId hex w) ∧ trustIdFromStr hex v = .ok id := by
    intro id
    rw [parseRust_eq_ok]
    constructor
    · rintro ⟨query', v', hquery', hall, hid', hv⟩
      cases hquery.symm.trans hquery'
      cases hid.symm.trans hid'
      exact ⟨hall, hv⟩
    · rintro ⟨hall, hv⟩
      exact ⟨query, v, hquery, hall, hid, hv⟩
  constructor
  · rintro h ⟨id, hv⟩
    rw [hv] at h
    exact ((hread id).1 (Fallible.toOption_eq_some.1 h)).1
  · intro h
    refine Option.ext (fun id => ?_)
    rw [Fallible.toOption_eq_some, Fallible.toOption_eq_some, hread]
    exact ⟨fun hboth => hboth.2, fun hv => ⟨h ⟨id, hv⟩, hv⟩⟩

/-- Where all bindings find an id, they read it; Rust validates it. -/
theorem allRead_iff
    {v : String} :
    AllRead hex graphemes uri v ↔
      (parseGo uri).toOption = some v ∧
      (parsePython uri).toOption = some v ∧
      (parseJavaScript uri).toOption = some v ∧
      (parseKotlin uri).toOption = some v ∧
      (parseSwift graphemes uri).toOption = some v ∧
      (parseRust hex uri).toOption = (trustIdFromStr hex v).toOption := by
  simp only [Fallible.toOption_eq_some, parseGo_eq_ok, parsePython_eq_ok, parseJavaScript_eq_ok,
    parseKotlin_eq_ok, parseSwift_eq_ok]
  constructor
  · rintro ⟨hne, ⟨query, hquery, hid, hall⟩, ⟨q₁, hq₁, hid₁⟩, ⟨q₂, hq₂, hid₂⟩, hkotlin, hswift⟩
    exact ⟨⟨query, hquery, hid, hne⟩, ⟨q₁, hq₁, hid₁, hne⟩, ⟨q₂, hq₂, hid₂, hne⟩, hkotlin, hswift,
      (parseRust_toOption_iff hquery hid).2 hall⟩
  · rintro ⟨⟨query, hquery, hid, hne⟩, ⟨q₁, hq₁, hid₁, _⟩, ⟨q₂, hq₂, hid₂, _⟩, hkotlin, hswift,
      hrust⟩
    exact ⟨hne, ⟨query, hquery, hid, (parseRust_toOption_iff hquery hid).1 hrust⟩,
      ⟨q₁, hq₁, hid₁⟩, ⟨q₂, hq₂, hid₂⟩, hkotlin, hswift⟩

/-- Where Go finds no id, Rust finds none. -/
theorem parseRust_of_parseGo
    (h : (parseGo uri).toOption = none) :
    (parseRust hex uri).toOption = none := by
  rw [Fallible.toOption_eq_none] at h ⊢
  intro id hread
  obtain ⟨query, v, hquery, _, hid, hv⟩ := parseRust_eq_ok.1 hread
  refine h v (parseGo_eq_ok.2 ⟨query, hquery, hid, ?_⟩)
  rintro rfl
  exact not_isTrustId_empty ⟨id, hv⟩

/-- **When all bindings read the same id.** -/
theorem sameId_iff
    (hex : HexDecoder)
    (graphemes : Graphemes)
    (uri : String) :
    SameId hex graphemes uri ↔
      NoneReads graphemes uri ∨ ∃ v, AllRead hex graphemes uri v := by
  simp only [noneReads_iff, allRead_iff]
  constructor
  · rintro ⟨id, hgo, hpython, hjs, hkotlin, hswift, hrust⟩
    cases id with
    | none =>
        exact .inl ⟨hgo, hpython, hjs, hkotlin, hswift⟩
    | some v =>
        exact .inr ⟨v, hgo, hpython, hjs, hkotlin, hswift, hrust⟩
  · rintro (⟨hgo, hpython, hjs, hkotlin, hswift⟩ | ⟨v, hgo, hpython, hjs, hkotlin, hswift, hrust⟩)
    · exact ⟨none, hgo, hpython, hjs, hkotlin, hswift, parseRust_of_parseGo hgo⟩
    · exact ⟨some v, hgo, hpython, hjs, hkotlin, hswift, hrust⟩

end Agreement

section Plain

variable {hex : HexDecoder} {graphemes : Graphemes}

/-- ASCII without spaces and controls. -/
def Printable (c : Char) : Prop :=
  0x21 ≤ c.toNat ∧ c.toNat < 0x7F

instance (c : Char) : Decidable (Printable c) :=
  inferInstanceAs (Decidable (_ ∧ _))

theorem not_isSpace_of_printable
    {c : Char}
    (hc : Printable c) :
    Text.isWhitespace c = false ∧ isPythonSpace c = false ∧ isJavaScriptSpace c = false ∧
      isKotlinSpace c = false ∧ isSwiftSpace c = false := by
  obtain ⟨hlow, hhigh⟩ := hc
  have hspace : Text.isWhitespace c = false := by
    unfold Text.isWhitespace
    simp
    omega
  refine ⟨hspace, ?_, ?_, ?_, ?_⟩
  · unfold isPythonSpace
    simp [hspace]
    omega
  · unfold isJavaScriptSpace
    simp [hspace]
    omega
  · unfold isKotlinSpace
    simp [hspace]
    omega
  · unfold isSwiftSpace
    simp
    omega

/-- A character that stands for itself in a parameter. -/
def PlainChar (c : Char) : Prop :=
  Printable c ∧ c ∉ ['%', '+', '&', '=', '?']

/-- A parameter of such characters, with a name. -/
structure PlainParam (p : String × String) : Prop where
  named : p.1 ≠ ""
  name : ∀ c ∈ p.1.toList, PlainChar c
  value : ∀ c ∈ p.2.toList, PlainChar c

/-- A parameter as it is written in a query. -/
def paramText (p : String × String) : String :=
  p.1 ++ "=" ++ p.2

/-- A query of parameters. -/
def paramsQuery (params : List (String × String)) : String :=
  Text.join '&' (params.map paramText)

/-- The ids among parameters. -/
def idsOf (params : List (String × String)) : List String :=
  (params.filter (fun p => decide (p.1 = "id"))).map Prod.snd

/-- There is no id, or the first one is the last one and not empty; if it is a trust id, so are
the others. -/
def OneId (hex : HexDecoder) (ids : List String) : Prop :=
  ids = [] ∨ ∃ v, v ≠ "" ∧ ids.head? = some v ∧ ids.getLast? = some v ∧
    (IsTrustId hex v → ∀ w ∈ ids, IsTrustId hex w)

variable {p : String × String} {params : List (String × String)}

theorem toList_paramText
    (p : String × String) :
    (paramText p).toList = p.1.toList ++ '=' :: p.2.toList := by
  unfold paramText
  rw [String.toList_append, String.toList_append, List.append_assoc]
  rfl

theorem paramText_chars
    (hp : PlainParam p)
    {c : Char}
    (hc : c ∈ (paramText p).toList) :
    Printable c ∧ c ∉ ['&', '?'] := by
  have hplain : ∀ {c : Char}, PlainChar c → Printable c ∧ c ∉ ['&', '?'] := by
    rintro c ⟨hprintable, hnot⟩
    simp only [List.mem_cons, List.not_mem_nil, or_false, not_or] at hnot ⊢
    exact ⟨hprintable, hnot.2.2.1, hnot.2.2.2.2⟩
  rw [toList_paramText] at hc
  rcases List.mem_append.1 hc with hname | hrest
  · exact hplain (hp.name c hname)
  · rcases List.mem_cons.1 hrest with rfl | hvalue
    · exact ⟨⟨by decide, by decide⟩, by decide⟩
    · exact hplain (hp.value c hvalue)

theorem splitOnce_paramText
    (hp : PlainParam p) :
    Text.splitOnce '=' (paramText p) = some p := by
  refine Text.splitOnce_eq_some_iff.2 ⟨fun hmem => ?_, toList_paramText p⟩
  exact (hp.name '=' hmem).2 (by decide)

theorem toList_paramsQuery
    (params : List (String × String)) :
    (paramsQuery params).toList =
      ['&'].intercalate (params.map (fun p => (paramText p).toList)) := by
  unfold paramsQuery Text.join
  rw [String.toList_ofList, List.map_map]
  rfl

theorem paramsQuery_chars
    (hparams : ∀ p ∈ params, PlainParam p)
    {c : Char}
    (hc : c ∈ (paramsQuery params).toList) :
    Printable c ∧ c ≠ '?' := by
  rcases Text.mem_join hc with rfl | ⟨part, hpart, hmem⟩
  · exact ⟨⟨by decide, by decide⟩, by decide⟩
  · obtain ⟨p, hp, rfl⟩ := List.mem_map.1 hpart
    obtain ⟨hprintable, hnot⟩ := paramText_chars (hparams p hp) hmem
    refine ⟨hprintable, ?_⟩
    rintro rfl
    exact hnot (by decide)

theorem printable_uri
    (hparams : ∀ p ∈ params, PlainParam p)
    {c : Char}
    (hc : c ∈ (scanPrefix ++ paramsQuery params).toList) :
    Printable c := by
  rw [String.toList_append] at hc
  rcases List.mem_append.1 hc with hc | hc
  · have hall : scanPrefix.toList.all (fun c => decide (Printable c)) := by
      decide +kernel
    exact of_decide_eq_true (List.all_eq_true.1 hall c hc)
  · exact (paramsQuery_chars hparams hc).1

/-- Nothing is trimmed. -/
theorem queryOf_params
    {isSpace : Char → Bool}
    (hspace : ∀ c ∈ (scanPrefix ++ paramsQuery params).toList, isSpace c = false) :
    queryOf isSpace (scanPrefix ++ paramsQuery params) = some (paramsQuery params) := by
  unfold queryOf
  rw [Text.trimMatches_eq_self hspace, Text.stripPrefix_append]

/-- The parts of a query are its parameters. -/
theorem split_paramsQuery
    (hparams : ∀ p ∈ params, PlainParam p)
    (hne : params ≠ []) :
    Text.split '&' (paramsQuery params) = params.map paramText := by
  refine Text.split_join (fun part hpart hmem => ?_) (by simpa using hne)
  obtain ⟨p, hp, rfl⟩ := List.mem_map.1 hpart
  exact (paramText_chars (hparams p hp) hmem).2 (by decide)

theorem filterMap_splitOnce
    (hparams : ∀ p ∈ params, PlainParam p) :
    (params.map paramText).filterMap (Text.splitOnce '=') = params := by
  rw [List.filterMap_map]
  refine (List.filterMap_congr (fun p hp => ?_)).trans List.filterMap_some
  exact splitOnce_paramText (hparams p hp)

theorem rawIds_params
    (hparams : ∀ p ∈ params, PlainParam p)
    (hne : params ≠ []) :
    rawIds (paramsQuery params) = idsOf params := by
  unfold rawIds
  rw [split_paramsQuery hparams hne, filterMap_idValue, filterMap_splitOnce hparams]
  rfl

theorem assigned_params
    (hparams : ∀ p ∈ params, PlainParam p)
    (hne : params ≠ []) :
    Assigned (paramsQuery params) := by
  unfold Assigned
  rw [split_paramsQuery hparams hne]
  intro pair hpair
  obtain ⟨p, _, rfl⟩ := List.mem_map.1 hpair
  rw [toList_paramText]
  simp

theorem decodeComponent_of_plain
    {s : String}
    (hs : ∀ c ∈ s.toList, PlainChar c) :
    UrlEncoded.decodeComponent s = s := by
  refine UrlEncoded.decodeComponent_plain (fun c hc => ?_)
  obtain ⟨hprintable, hnot⟩ := hs c hc
  simp only [List.mem_cons, List.not_mem_nil, or_false, not_or] at hnot
  exact ⟨hprintable.2.trans (by decide), hnot.1, hnot.2.1⟩

/-- Decoding leaves the parameters as they are. -/
theorem firstFormId_params
    (hparams : ∀ p ∈ params, PlainParam p)
    (hne : params ≠ []) :
    firstFormId (paramsQuery params) = (idsOf params).head? := by
  have hstrip : Text.stripPrefix "?" (paramsQuery params) = none := by
    unfold Text.stripPrefix
    refine if_neg (fun hprefix => ?_)
    have hmem := (List.isPrefixOf_iff_prefix.1 hprefix).subset (by decide : '?' ∈ "?".toList)
    exact (paramsQuery_chars hparams hmem).2 rfl
  have hfull : ∀ part ∈ params.map paramText, (!part.isEmpty) = true := by
    intro part hpart
    obtain ⟨p, _, rfl⟩ := List.mem_map.1 hpart
    rw [Bool.not_eq_true', ← Bool.not_eq_true, String.isEmpty_iff, ← String.toList_inj,
      toList_paramText]
    simp
  have hparts : urlSearchParams (paramsQuery params) = params := by
    unfold urlSearchParams UrlEncoded.parsePairs
    rw [hstrip, Option.getD_none, split_paramsQuery hparams hne, List.filter_eq_self.2 hfull,
      List.map_map]
    refine (List.map_congr_left (fun p hp => ?_)).trans (List.map_id params)
    have hplain := hparams p hp
    simp only [Function.comp_apply, splitOnce_paramText hplain]
    exact Prod.ext (decodeComponent_of_plain hplain.name) (decodeComponent_of_plain hplain.value)
  unfold firstFormId idsOf
  rw [hparts, List.head?_map, List.head?_filter]

theorem characters_printable
    {s : List Char}
    (h : ∀ c ∈ s, Printable c) :
    graphemes.characters s = s.map (fun c => [c]) :=
  graphemes.ascii s (fun c hc => ⟨(by decide : 0x20 ≤ 0x21).trans (h c hc).1, (h c hc).2⟩)

theorem flatten_map_singleton
    (s : List Char) :
    (s.map (fun c => [c])).flatten = s := by
  rw [← List.flatMap_def, List.flatMap_singleton']

theorem swiftQuery_params
    (hparams : ∀ p ∈ params, PlainParam p) :
    swiftQuery graphemes (scanPrefix ++ paramsQuery params) =
      some (paramsQuery params).toList := by
  have huri : ∀ c ∈ (scanPrefix ++ paramsQuery params).toList, Printable c :=
    fun c hc => printable_uri hparams hc
  have hstart : ∀ c ∈ scanPrefix.toList, Printable c := by
    intro c hc
    refine huri c ?_
    rw [String.toList_append]
    exact List.mem_append_left _ hc
  have htrim : Text.trimMatches isSwiftSpace (scanPrefix ++ paramsQuery params) =
      scanPrefix ++ paramsQuery params :=
    Text.trimMatches_eq_self (fun c hc => (not_isSpace_of_printable (huri c hc)).2.2.2.2)
  have hprefix : (scanPrefix.toList.map (fun c => [c])).isPrefixOf
      (scanPrefix.toList.map (fun c => [c]) ++
        (paramsQuery params).toList.map (fun c => [c])) :=
    List.isPrefixOf_iff_prefix.2 (List.prefix_append _ _)
  unfold swiftQuery
  dsimp only
  rw [htrim, characters_printable huri, characters_printable hstart, String.toList_append,
    List.map_append, if_pos hprefix, List.drop_left, flatten_map_singleton]

/-- A parameter without a value is none for Swift. -/
theorem swiftParameter_param
    (hp : PlainParam p) :
    swiftParameter ((paramText p).toList.map (fun c => [c])) =
      if p.1 = "id" ∧ p.2 ≠ "" then some p.2 else none := by
  have hdrop : ((paramText p).toList.map (fun c => [c])).dropWhile
      (fun c => decide (c = ['='])) = (paramText p).toList.map (fun c => [c]) := by
    rw [List.dropWhile_eq_self_iff]
    intro hlen hfirst
    rw [decide_eq_true_eq, List.getElem_map, List.cons.injEq] at hfirst
    cases hname : p.1.toList with
    | nil =>
        exact hp.named (String.toList_inj.1 hname)
    | cons c cs =>
        simp only [toList_paramText, hname, List.cons_append, List.getElem_cons_zero] at hfirst
        have hc := (hp.name c (hname ▸ List.mem_cons_self)).2
        rw [hfirst.1] at hc
        exact hc (by decide)
  have hcut : Text.cutOnce ['='] ((paramText p).toList.map (fun c => [c])) =
      some (p.1.toList.map (fun c => [c]), p.2.toList.map (fun c => [c])) := by
    refine Text.cutOnce_eq_some_iff.2 ⟨fun hmem => ?_, ?_⟩
    · obtain ⟨c, hc, heq⟩ := List.mem_map.1 hmem
      cases heq
      exact (hp.name '=' hc).2 (by decide)
    · rw [toList_paramText, List.map_append]
      rfl
  have hempty : (p.2.toList.map (fun c => [c])).isEmpty = true ↔ p.2 = "" := by
    rw [List.isEmpty_iff, List.map_eq_nil_iff, ← String.toList_inj]
    rfl
  unfold swiftParameter swiftParts
  rw [hdrop, hcut]
  dsimp only
  by_cases hvalue : p.2 = ""
  · rw [if_pos (hempty.2 hvalue), if_neg (fun h => h.2 hvalue)]
  · rw [if_neg (fun h => hvalue (hempty.1 h))]
    dsimp only
    rw [flatten_map_singleton, flatten_map_singleton, String.ofList_toList]
    simp only [String.toList_inj, hvalue, ne_eq, not_false_eq_true, and_true]

theorem swiftPairs_params
    (hparams : ∀ p ∈ params, PlainParam p)
    (hne : params ≠ []) :
    swiftPairs graphemes (paramsQuery params).toList =
      params.map (fun p => (paramText p).toList.map (fun c => [c])) := by
  have hmap : (paramsQuery params).toList.map (fun c => [c]) =
      [['&']].intercalate (params.map (fun p => (paramText p).toList.map (fun c => [c]))) := by
    rw [toList_paramsQuery]
    clear hparams hne
    induction params with
    | nil =>
        rfl
    | cons p params ih =>
        cases params with
        | nil =>
            simp
        | cons next params =>
            simp only [List.map_cons] at ih ⊢
            rw [List.intercalate_cons_cons, List.intercalate_cons_cons, List.map_append,
              List.map_append, ih]
            rfl
  have hparts : ∀ part ∈ params.map (fun p => (paramText p).toList.map (fun c => [c])),
      ['&'] ∉ part := by
    intro part hpart hmem
    obtain ⟨p, hp, rfl⟩ := List.mem_map.1 hpart
    obtain ⟨c, hc, heq⟩ := List.mem_map.1 hmem
    cases heq
    exact (paramText_chars (hparams p hp) hc).2 (by decide)
  unfold swiftPairs
  rw [characters_printable (fun c hc => (paramsQuery_chars hparams hc).1), hmap,
    List.splitOn_intercalate ['&'] hparts (by simpa using hne)]
  refine List.filter_eq_self.2 (fun part hpart => ?_)
  obtain ⟨p, _, rfl⟩ := List.mem_map.1 hpart
  rw [toList_paramText]
  simp

/-- Swift reads the last id that is not empty. -/
theorem lastSwiftId_params
    (hparams : ∀ p ∈ params, PlainParam p)
    (hne : params ≠ []) :
    lastSwiftId graphemes (paramsQuery params).toList =
      ((idsOf params).filter (fun v => decide (v ≠ ""))).getLast? := by
  unfold lastSwiftId
  rw [swiftPairs_params hparams hne, List.filterMap_map]
  clear hne
  congr 1
  unfold idsOf
  induction params with
  | nil =>
      rfl
  | cons p params ih =>
      obtain ⟨hp, hrest⟩ := List.forall_mem_cons.1 hparams
      have hhead : (swiftParameter ∘ fun p => (paramText p).toList.map (fun c => [c])) p = _ :=
        swiftParameter_param hp
      rw [List.filterMap_cons, hhead, ih hrest]
      by_cases hid : p.1 = "id" <;> by_cases hvalue : p.2 = "" <;> simp [hid, hvalue]

theorem getLast?_filter_of_last
    {ids : List String}
    {v : String}
    (hlast : ids.getLast? = some v)
    (hne : v ≠ "") :
    (ids.filter (fun v => decide (v ≠ ""))).getLast? = some v := by
  obtain ⟨earlier, rfl⟩ := List.getLast?_eq_some_iff.1 hlast
  rw [List.filter_append]
  simp [hne]

/-- **Where nothing is trimmed or decoded**, whether the bindings agree depends on the ids among
the parameters. -/
theorem agree_params_iff
    (hparams : ∀ p ∈ params, PlainParam p)
    (hne : params ≠ []) :
    (NoneReads graphemes (scanPrefix ++ paramsQuery params) ∨
        ∃ v, AllRead hex graphemes (scanPrefix ++ paramsQuery params) v) ↔
      OneId hex (idsOf params) := by
  have hspace := fun c hc => not_isSpace_of_printable (printable_uri hparams (c := c) hc)
  have hquery := queryOf_params (fun c hc => (hspace c hc).1)
  have hpython := queryOf_params (fun c hc => (hspace c hc).2.1)
  have hjs := queryOf_params (fun c hc => (hspace c hc).2.2.1)
  have hkotlin := queryOf_params (fun c hc => (hspace c hc).2.2.2.1)
  have hlast : lastId (paramsQuery params) = (idsOf params).getLast? := by
    unfold lastId
    rw [rawIds_params hparams hne]
  constructor
  · rintro (hnone | ⟨v, hall⟩)
    · have hnil := hnone.kotlin _ hkotlin (assigned_params hparams hne)
      rw [hlast, List.getLast?_eq_none_iff] at hnil
      exact .inl hnil
    · obtain ⟨q, hq, hid, htrust⟩ := hall.raw
      obtain ⟨q', hq', hfirst⟩ := hall.javaScript
      cases hquery.symm.trans hq
      cases hjs.symm.trans hq'
      rw [hlast] at hid
      rw [firstFormId_params hparams hne] at hfirst
      rw [rawIds_params hparams hne] at htrust
      exact .inr ⟨v, hall.filled, hfirst, hid, htrust⟩
  · rintro (hnil | ⟨v, hv, hfirst, hid, htrust⟩)
    · have hnoLast : lastId (paramsQuery params) = none := by
        rw [hlast, hnil]
        rfl
      have hnoFirst : firstFormId (paramsQuery params) = none := by
        rw [firstFormId_params hparams hne, hnil]
        rfl
      refine .inl ⟨fun q hq v hv => ?_, fun q hq v hv => ?_, fun q hq v hv => ?_,
        fun q hq _ => ?_, fun q hq => ?_⟩
      · cases hquery.symm.trans hq
        cases hnoLast.symm.trans hv
      · cases hpython.symm.trans hq
        cases hnoLast.symm.trans hv
      · cases hjs.symm.trans hq
        cases hnoFirst.symm.trans hv
      · cases hkotlin.symm.trans hq
        exact hnoLast
      · cases (swiftQuery_params hparams).symm.trans hq
        rw [lastSwiftId_params hparams hne, hnil]
        rfl
    · rw [← rawIds_params hparams hne] at htrust
      rw [← hlast] at hid
      refine .inr ⟨v, hv, ⟨_, hquery, hid, htrust⟩, ⟨_, hpython, hid⟩,
        ⟨_, hjs, (firstFormId_params hparams hne).trans hfirst⟩,
        ⟨_, hkotlin, assigned_params hparams hne, hid⟩, ⟨_, swiftQuery_params hparams, ?_⟩⟩
      rw [hlast] at hid
      exact (lastSwiftId_params hparams hne).trans (getLast?_filter_of_last hid hv)

end Plain

section Sample

/-- Digits as `hex::decode` reads them. -/
def HexDecoder.sample : HexDecoder where
  decode := fun s => sampleHexDecode s.toList
  decode_empty := rfl

/-- Every character by itself. -/
def Graphemes.sample : Graphemes where
  characters := fun s => s.map (fun c => [c])
  flatten := flatten_map_singleton
  ascii := fun _ _ => rfl

/-- Of two ids, JavaScript takes the first and the others the last. -/
theorem not_sameId_repeated :
    ¬ SameId HexDecoder.sample Graphemes.sample "veritas://scan?id=aa&id=bb" := by
  rintro ⟨id, hgo, _, hjs, _⟩
  have hlast : (parseGo "veritas://scan?id=aa&id=bb").toOption = some "bb" := by
    decide +kernel
  have hfirst : (parseJavaScript "veritas://scan?id=aa&id=bb").toOption = some "aa" := by
    decide +kernel
  rw [← hgo, hlast, hfirst] at hjs
  exact absurd hjs (by decide)

end Sample

end ScanUri
end CertRelay
