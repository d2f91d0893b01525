import CertRelay.Client.RelayPool
import CertRelay.Lib.Attempts
import CertRelay.Relay.QueryParams

/-!
# Sending a query to relays

A query goes to some relays in order, until one of them gives an answer that verifies.  A
relay that fails is marked so in the pool, and the next one is asked.

The Rust client leaves the loop with an error when a body does not decode, without a mark and
without asking the relays that remain.  The Go client ignores that a body breaks off, takes a
status below 200 for success, and panics at a URL that it cannot parse.

Decoding and verifying are not part of the repository: they are the fields of `QueryCrates`.

**Results.**
* `sendQuery_eq`: the answer that the Rust client takes, and its marks;
* `goTakes_iff`: when the Go client takes an answer;
* `survives_iff`: when a query survives bad relays.
-/

namespace CertRelay
namespace SendQuery

open Attempts

section Replies

/-- The request for a query. -/
structure HttpGet where
  url : String
  params : QueryParams
  noCache : Bool

/-- The answer: its body as far as it could be read, and what broke it off. -/
inductive Reply
  | unreachable (error : String)
  | response (status : UInt16) (body : Bytes) (broken : Option String)

/-- The functions of other crates and packages that a query goes through. -/
structure QueryCrates (Ctx Msg α : Type) where
  /-- `Message::from_slice`. -/
  decode : Bytes → Except String Msg
  /-- `verify_with_options`, at the anchors that the client holds. -/
  verifyWithOptions : Ctx → Msg → UInt32 → Except String α
  /-- A body as text. -/
  text : Bytes → String
  /-- `url.Parse` of Go takes the URL. -/
  goParses : String → Bool

/-- `VERIFY_DEV_MODE`: bit 0. -/
def verifyDevMode : UInt32 := 1

/-- How the Go and JavaScript clients fail: with a `FabricError`, or a panic of Go. -/
inductive Failure
  | fabric (code message : String) (status : Option UInt16)
  | panicked
deriving DecidableEq

/-- The relays, each with its answer. -/
abbrev Answers := List (String × Reply)

/-- What the relays of a list answer to a request, by their place in the list. -/
def answersOf (request : QueryRequest) (noCache : Bool) (get : ℕ → HttpGet → Reply)
    (relays : List String) : Answers :=
  relays.zipIdx.map (fun p => (p.1, get p.2 ⟨p.1 ++ "/query", request.encode, noCache⟩))

end Replies

section Clients

variable {Ctx Msg α : Type} (C : QueryCrates Ctx Msg α) (ctx : Ctx) (devMode : Bool)

/-- A message verified with the options of the client. -/
def verified (msg : Msg) : Except String α :=
  C.verifyWithOptions ctx msg (if devMode then verifyDevMode else 0)

/-- A status between 200 and 299. -/
def isSuccess (status : UInt16) : Bool :=
  decide (200 ≤ status ∧ status < 300)

/-- One round of the loop in `send_query`. -/
def rustAttempt (x : String × Reply) : Attempt ClientError (α × String) :=
  let get := "GET " ++ x.1 ++ "/query: "
  match x.2 with
  | .unreachable e => .skip (.decode (get ++ e))
  | .response status body broken =>
      if !isSuccess status then
        .skip (.relay status (if broken.isSome then "" else C.text body))
      else
        match broken with
        | some e => .skip (.decode (get ++ "reading response: " ++ e))
        | none =>
            match C.decode body with
            | .error e => .stop (.decode (x.1 ++ "/query: decoding message: " ++ e))
            | .ok msg =>
                match verified C ctx devMode msg with
                | .ok res => .done (res, x.1)
                | .error e => .skip (.verify e)

/-- One round of the loop in `sendQuery` of the Go client. -/
def goAttempt (veritas : Bool) (x : String × Reply) : Attempt Failure α :=
  if !C.goParses (x.1 ++ "/query") then .stop .panicked
  else
    match x.2 with
    | .unreachable e => .skip (.fabric "http" e none)
    | .response status body _ =>
        if 300 ≤ status then .skip (.fabric "relay" (C.text body) (some status))
        else
          match C.decode body with
          | .error e => .skip (.fabric "decode" (x.1 ++ "/query: " ++ e) none)
          | .ok msg =>
              if !veritas then .stop (.fabric "no_peers" "no veritas instance" none)
              else
                match verified C ctx devMode msg with
                | .ok res => .done res
                | .error e => .skip (.fabric "verify" e none)

/-- One round of the loop in `sendQuery` of the JavaScript client, which decodes a message
as it verifies it. -/
def jsAttempt (veritas : Bool) (x : String × Reply) : Attempt Failure α :=
  match x.2 with
  | .unreachable e => .skip (.fabric "http" ("http error: " ++ e) none)
  | .response status body broken =>
      match broken with
      | some e => .skip (.fabric "http" ("http error: " ++ e) none)
      | none =>
          if !isSuccess status then
            .skip (.fabric "relay"
              ("relay error (" ++ status.toNat.repr ++ "): " ++ C.text body) (some status))
          else if !veritas then
            .skip (.fabric "verify" "verification error: null is not an object" none)
          else
            match (C.decode body).bind (verified C ctx devMode) with
            | .ok res => .done res
            | .error e => .skip (.fabric "verify" ("verification error: " ++ e) none)

variable (request : QueryRequest) (noCache : Bool) (get : ℕ → HttpGet → Reply)

/-- `send_query`: the verified message with the relay that sent it, and the pool. -/
def sendQuery (relays : List String) (pool : RelayPool.Pool) :
    Except ClientError (α × String) × RelayPool.Pool :=
  attemptAll (rustAttempt C ctx devMode) (fun x => RelayPool.markFailed .rust x.1)
    (fun x => RelayPool.markAlive x.1) .noPeers pool (answersOf request noCache get relays)

/-- `sendQuery` of the Go client. -/
def goSendQuery (veritas : Bool) (relays : List String) (pool : RelayPool.Pool) :
    Except Failure α × RelayPool.Pool :=
  attemptAll (goAttempt C ctx devMode veritas) (fun x => RelayPool.markFailed .go x.1)
    (fun x => RelayPool.markAlive x.1) (.fabric "no_peers" "no peers available" none) pool
    (answersOf request noCache get relays)

/-- `sendQuery` of the JavaScript client. -/
def jsSendQuery (veritas : Bool) (relays : List String) (pool : RelayPool.Pool) :
    Except Failure α × RelayPool.Pool :=
  attemptAll (jsAttempt C ctx devMode veritas) (fun x => RelayPool.markFailed .js x.1)
    (fun x => RelayPool.markAlive x.1) (.fabric "no_peers" "no peers available" none) pool
    (answersOf request noCache get relays)

end Clients

section Survival

variable {Ctx Msg α : Type} (C : QueryCrates Ctx Msg α) (ctx : Ctx) (devMode : Bool)

/-- The message of a body, if it decodes and verifies. -/
def bodyMessage (body : Bytes) : Option α :=
  ((C.decode body).bind (verified C ctx devMode)).toOption

/-- The verified message of an answer that came through whole. -/
def goodAnswer (x : String × Reply) : Option α :=
  match x.2 with
  | .response status body none => if isSuccess status then bodyMessage C ctx devMode body else none
  | _ => none

/-- The answer came through whole, and does not decode. -/
def undecodable (x : String × Reply) : Bool :=
  match x.2 with
  | .response status body none => isSuccess status && (C.decode body).toOption.isNone
  | _ => false

/-- The answer makes the Rust client leave its loop. -/
def rustEnds (x : String × Reply) : Bool :=
  (goodAnswer C ctx devMode x).isSome || undecodable C x

/-- The message that the Go client verifies in an answer, whole or not. -/
def goAnswer (x : String × Reply) : Option α :=
  match x.2 with
  | .response status body _ => if 300 ≤ status then none else bodyMessage C ctx devMode body
  | _ => none

/-- The answer makes the Go client leave its loop. -/
def goEnds (x : String × Reply) : Bool :=
  !C.goParses (x.1 ++ "/query") || (goAnswer C ctx devMode x).isSome

/-- The Go client takes the answer. -/
def goTakes (x : String × Reply) : Bool :=
  C.goParses (x.1 ++ "/query") && (goAnswer C ctx devMode x).isSome

/-- Some relay gives an answer that verifies. -/
def Answered (answers : Answers) : Prop :=
  ∃ x ∈ answers, (goodAnswer C ctx devMode x).isSome = true

/-- No answer before the first one that verifies is whole and does not decode; and the URLs
that Go refuses come after the first answer that passes its test if some answer verifies, and
before every such answer if none does. -/
structure NothingInTheWay (answers : Answers) : Prop where
  rust : ∀ before x after, answers = before ++ x :: after →
    (∀ y ∈ before, goodAnswer C ctx devMode y = none) →
    (goodAnswer C ctx devMode x).isSome = true → ∀ y ∈ before, undecodable C y = false
  goServed : Answered C ctx devMode answers → ∀ before x after, answers = before ++ x :: after →
    (∀ y ∈ before, goAnswer C ctx devMode y = none) →
    (goAnswer C ctx devMode x).isSome = true →
    ∀ y ∈ before ++ [x], C.goParses (y.1 ++ "/query") = true
  goUnserved : ¬ Answered C ctx devMode answers →
    ∀ before x after, answers = before ++ x :: after →
    (goAnswer C ctx devMode x).isSome = true →
    ∃ y ∈ before ++ [x], C.goParses (y.1 ++ "/query") = false

/-- A query yields the first answer that verifies, with the marks of all relays that it
asked, and an error only if there is none; and so do the queries of the other clients. -/
structure Survives (request : QueryRequest) (noCache : Bool) (get : ℕ → HttpGet → Reply)
    (relays : List String) (pool : RelayPool.Pool) : Prop where
  served : ∀ before x after v, answersOf request noCache get relays = before ++ x :: after →
    (∀ y ∈ before, goodAnswer C ctx devMode y = none) → goodAnswer C ctx devMode x = some v →
      sendQuery C ctx devMode request noCache get relays pool =
        (.ok (v, x.1), RelayPool.markAlive x.1
          (before.foldl (fun pool y => RelayPool.markFailed .rust y.1 pool) pool))
  unserved : (∀ x ∈ answersOf request noCache get relays, goodAnswer C ctx devMode x = none) →
    ∃ e, (sendQuery C ctx devMode request noCache get relays pool).1 = .error e
  sameAsGo : (∃ v, (sendQuery C ctx devMode request noCache get relays pool).1 = .ok v) ↔
    ∃ v, (goSendQuery C ctx devMode request noCache get true relays pool).1 = .ok v
  sameAsJs : (∃ v, (sendQuery C ctx devMode request noCache get relays pool).1 = .ok v) ↔
    ∃ v, (jsSendQuery C ctx devMode request noCache get true relays pool).1 = .ok v

variable {C ctx devMode}

/-- What a round of the Rust client comes to. -/
theorem rustAttempt_cases
    (C : QueryCrates Ctx Msg α)
    (ctx : Ctx)
    (devMode : Bool)
    (x : String × Reply) :
    (∃ v, goodAnswer C ctx devMode x = some v ∧ rustAttempt C ctx devMode x = .done (v, x.1)) ∨
      (goodAnswer C ctx devMode x = none ∧ undecodable C x = true ∧
        ∃ e, rustAttempt C ctx devMode x = .stop e) ∨
      (goodAnswer C ctx devMode x = none ∧ undecodable C x = false ∧
        ∃ e, rustAttempt C ctx devMode x = .skip e) := by
  unfold goodAnswer undecodable rustAttempt bodyMessage
  cases x.2 with
  | unreachable e =>
      exact .inr (.inr ⟨rfl, rfl, _, rfl⟩)
  | response status body broken =>
      cases broken with
      | some e =>
          dsimp only
          cases isSuccess status with
          | false =>
              exact .inr (.inr ⟨rfl, rfl, _, rfl⟩)
          | true =>
              exact .inr (.inr ⟨rfl, rfl, _, rfl⟩)
      | none =>
          dsimp only
          cases isSuccess status with
          | false =>
              exact .inr (.inr ⟨rfl, rfl, _, rfl⟩)
          | true =>
              cases C.decode body with
              | error e =>
                  exact .inr (.inl ⟨rfl, rfl, _, rfl⟩)
              | ok msg =>
                  dsimp only [Except.bind]
                  cases verified C ctx devMode msg with
                  | error e =>
                      exact .inr (.inr ⟨rfl, rfl, _, rfl⟩)
                  | ok v =>
                      exact .inl ⟨v, rfl, rfl⟩

/-- A good answer is a verified message. -/
theorem verified_of_goodAnswer
    {x : String × Reply}
    {v : α}
    (h : goodAnswer C ctx devMode x = some v) :
    ∃ msg flags, C.verifyWithOptions ctx msg flags = .ok v := by
  unfold goodAnswer at h
  cases hx : x.2 with
  | unreachable e =>
      rw [hx] at h
      cases h
  | response status body broken =>
      rw [hx] at h
      cases broken with
      | some e =>
          cases h
      | none =>
          dsimp only at h
          split_ifs at h
          unfold bodyMessage at h
          obtain ⟨msg, _, hmsg⟩ := Fallible.bind_eq_ok.1 (Fallible.toOption_eq_some.1 h)
          exact ⟨msg, _, hmsg⟩

theorem rustAttempt_decides
    (x : String × Reply) :
    (rustAttempt C ctx devMode x).decides = rustEnds C ctx devMode x := by
  unfold rustEnds
  rcases rustAttempt_cases C ctx devMode x with
    ⟨v, hgood, hx⟩ | ⟨hgood, hbad, e, hx⟩ | ⟨hgood, hbad, e, hx⟩
  · rw [hx, hgood]
    rfl
  · rw [hx, hgood, hbad]
    rfl
  · rw [hx, hgood, hbad]
    rfl

theorem exists_rustAttempt_eq_done
    (x : String × Reply) :
    (∃ res, rustAttempt C ctx devMode x = .done res) ↔
      (goodAnswer C ctx devMode x).isSome = true := by
  rcases rustAttempt_cases C ctx devMode x with
    ⟨v, hgood, hx⟩ | ⟨hgood, _, e, hx⟩ | ⟨hgood, _, e, hx⟩
  · simp [hx, hgood]
  · simp [hx, hgood]
  · simp [hx, hgood]

/-- What a round of the Go client comes to. -/
theorem goAttempt_cases
    (C : QueryCrates Ctx Msg α)
    (ctx : Ctx)
    (devMode : Bool)
    (x : String × Reply) :
    (C.goParses (x.1 ++ "/query") = false ∧
        goAttempt C ctx devMode true x = .stop .panicked) ∨
      (C.goParses (x.1 ++ "/query") = true ∧ ∃ v, goAnswer C ctx devMode x = some v ∧
        goAttempt C ctx devMode true x = .done v) ∨
      (C.goParses (x.1 ++ "/query") = true ∧ goAnswer C ctx devMode x = none ∧
        ∃ e, goAttempt C ctx devMode true x = .skip e) := by
  unfold goAnswer goAttempt bodyMessage
  cases C.goParses (x.1 ++ "/query") with
  | false =>
      exact .inl ⟨rfl, rfl⟩
  | true =>
      refine .inr ?_
      simp only [Bool.not_true, Bool.false_eq_true, if_false]
      cases x.2 with
      | unreachable e =>
          exact .inr ⟨trivial, rfl, _, rfl⟩
      | response status body broken =>
          by_cases hstatus : 300 ≤ status
          · simp only [if_pos hstatus]
            exact .inr ⟨trivial, trivial, _, rfl⟩
          · simp only [if_neg hstatus]
            cases C.decode body with
            | error e =>
                exact .inr ⟨trivial, rfl, _, rfl⟩
            | ok msg =>
                dsimp only [Except.bind]
                cases verified C ctx devMode msg with
                | error e =>
                    exact .inr ⟨trivial, rfl, _, rfl⟩
                | ok v =>
                    exact .inl ⟨trivial, v, rfl, rfl⟩

/-- What a round of the JavaScript client comes to. -/
theorem jsAttempt_cases
    (C : QueryCrates Ctx Msg α)
    (ctx : Ctx)
    (devMode : Bool)
    (x : String × Reply) :
    (∃ v, goodAnswer C ctx devMode x = some v ∧ jsAttempt C ctx devMode true x = .done v) ∨
      (goodAnswer C ctx devMode x = none ∧ ∃ e, jsAttempt C ctx devMode true x = .skip e) := by
  unfold goodAnswer jsAttempt bodyMessage
  cases x.2 with
  | unreachable e =>
      exact .inr ⟨rfl, _, rfl⟩
  | response status body broken =>
      cases broken with
      | some e =>
          exact .inr ⟨rfl, _, rfl⟩
      | none =>
          dsimp only
          cases isSuccess status with
          | false =>
              exact .inr ⟨rfl, _, rfl⟩
          | true =>
              simp only [Bool.not_true, Bool.false_eq_true, if_false, if_true]
              cases (C.decode body).bind (verified C ctx devMode) with
              | error e =>
                  exact .inr ⟨rfl, _, rfl⟩
              | ok v =>
                  exact .inl ⟨v, rfl, rfl⟩

theorem goAttempt_decides
    (x : String × Reply) :
    (goAttempt C ctx devMode true x).decides = goEnds C ctx devMode x := by
  unfold goEnds
  rcases goAttempt_cases C ctx devMode x with
    ⟨hparses, hx⟩ | ⟨hparses, v, hread, hx⟩ | ⟨hparses, hread, e, hx⟩
  · rw [hx, hparses]
    rfl
  · rw [hx, hparses, hread]
    rfl
  · rw [hx, hparses, hread]
    rfl

theorem exists_goAttempt_eq_done
    (x : String × Reply) :
    (∃ v, goAttempt C ctx devMode true x = .done v) ↔ goTakes C ctx devMode x = true := by
  unfold goTakes
  rcases goAttempt_cases C ctx devMode x with
    ⟨hparses, hx⟩ | ⟨hparses, v, hread, hx⟩ | ⟨hparses, hread, e, hx⟩
  · simp [hx, hparses]
  · simp [hx, hparses, hread]
  · simp [hx, hparses, hread]

theorem jsAttempt_decides
    (x : String × Reply) :
    (jsAttempt C ctx devMode true x).decides = (goodAnswer C ctx devMode x).isSome := by
  rcases jsAttempt_cases C ctx devMode x with
    ⟨v, hgood, hx⟩ | ⟨hgood, e, hx⟩
  · rw [hx, hgood]
    rfl
  · rw [hx, hgood]
    rfl

theorem exists_jsAttempt_eq_done
    (x : String × Reply) :
    (∃ v, jsAttempt C ctx devMode true x = .done v) ↔
      (goodAnswer C ctx devMode x).isSome = true := by
  rcases jsAttempt_cases C ctx devMode x with
    ⟨v, hgood, hx⟩ | ⟨hgood, e, hx⟩
  · simp [hx, hgood]
  · simp [hx, hgood]

variable {request : QueryRequest} {noCache : Bool} {get : ℕ → HttpGet → Reply}
  {relays : List String} {pool : RelayPool.Pool}

/-- Which lists of answers the Rust client succeeds on. -/
theorem exists_sendQuery_eq_ok :
    (∃ res, (sendQuery C ctx devMode request noCache get relays pool).1 = .ok res) ↔
      ∃ x, (answersOf request noCache get relays).find? (rustEnds C ctx devMode) = some x ∧
        (goodAnswer C ctx devMode x).isSome = true := by
  unfold sendQuery
  rw [attemptAll_fst]
  exact exists_firstDone_eq_ok rustAttempt_decides exists_rustAttempt_eq_done _ _

/-- Which lists of answers the Go client succeeds on. -/
theorem exists_goSendQuery_eq_ok :
    (∃ v, (goSendQuery C ctx devMode request noCache get true relays pool).1 = .ok v) ↔
      ∃ x, (answersOf request noCache get relays).find? (goEnds C ctx devMode) = some x ∧
        goTakes C ctx devMode x = true := by
  unfold goSendQuery
  rw [attemptAll_fst]
  exact exists_firstDone_eq_ok goAttempt_decides exists_goAttempt_eq_done _ _

/-- The JavaScript client succeeds if some answer verifies. -/
theorem exists_jsSendQuery_eq_ok :
    (∃ v, (jsSendQuery C ctx devMode request noCache get true relays pool).1 = .ok v) ↔
      Answered C ctx devMode (answersOf request noCache get relays) := by
  unfold jsSendQuery Answered
  rw [attemptAll_fst, exists_firstDone_eq_ok jsAttempt_decides exists_jsAttempt_eq_done]
  constructor
  · rintro ⟨x, hfind, hgood⟩
    exact ⟨x, List.mem_of_find?_eq_some hfind, hgood⟩
  · intro hsome
    obtain ⟨x, hfind⟩ := Option.isSome_iff_exists.1 (List.find?_isSome.2 hsome)
    exact ⟨x, hfind, List.find?_some (p := fun x => (goodAnswer C ctx devMode x).isSome) hfind⟩

/-- **The answer that the Rust client takes, and its marks.** -/
theorem sendQuery_eq
    {before after : Answers}
    {x : String × Reply}
    {v : α}
    (hanswers : answersOf request noCache get relays = before ++ x :: after)
    (hbefore : ∀ y ∈ before, rustEnds C ctx devMode y = false)
    (hx : goodAnswer C ctx devMode x = some v) :
    sendQuery C ctx devMode request noCache get relays pool =
      (.ok (v, x.1), RelayPool.markAlive x.1
        (before.foldl (fun pool y => RelayPool.markFailed .rust y.1 pool) pool)) := by
  have hdone : rustAttempt C ctx devMode x = .done (v, x.1) := by
    rcases rustAttempt_cases C ctx devMode x with
      ⟨v', hgood, hdone⟩ | ⟨hgood, _⟩ | ⟨hgood, _⟩
    · rw [hgood, Option.some.injEq] at hx
      rw [hdone, hx]
    · rw [hgood] at hx
      cases hx
    · rw [hgood] at hx
      cases hx
  unfold sendQuery
  rw [hanswers]
  exact attemptAll_eq (fun y hy => (rustAttempt_decides y).trans (hbefore y hy)) hdone _ _

/-- The first answer of a kind, if there is one. -/
theorem exists_first
    {p : String × Reply → Bool}
    {answers : Answers}
    (h : ∃ x ∈ answers, p x = true) :
    ∃ before x after, answers = before ++ x :: after ∧ (∀ y ∈ before, p y = false) ∧
      p x = true := by
  obtain ⟨x, hfind⟩ := Option.isSome_iff_exists.1 (List.find?_isSome.2 h)
  obtain ⟨hx, before, after, hanswers, hbefore⟩ := List.find?_eq_some_iff_append.1 hfind
  exact ⟨before, x, after, hanswers, fun y hy => by simpa using hbefore y hy, hx⟩

/-- The first answer of a kind comes to an end of the loop with it, or an earlier one does. -/
theorem find?_of_first
    {ends p : String × Reply → Bool}
    (hends : ∀ x, p x = true → ends x = true)
    {answers before after : Answers}
    {x : String × Reply}
    (hanswers : answers = before ++ x :: after)
    (hbefore : ∀ y ∈ before, p y = false)
    (hx : p x = true) :
    (∃ z, answers.find? ends = some z ∧ p z = true) ↔ ∀ y ∈ before, ends y = false := by
  subst hanswers
  constructor
  · rintro ⟨z, hfind, hz⟩ y hy
    rw [List.find?_append] at hfind
    cases hfirst : before.find? ends with
    | none =>
        exact Bool.eq_false_iff.2 (List.find?_eq_none.1 hfirst y hy)
    | some w =>
        rw [hfirst, Option.some_or, Option.some.injEq] at hfind
        subst hfind
        rw [hbefore w (List.mem_of_find?_eq_some hfirst)] at hz
        cases hz
  · intro hnone
    have hfirst : before.find? ends = none :=
      List.find?_eq_none.2 (fun y hy => by simp [hnone y hy])
    refine ⟨x, ?_, hx⟩
    rw [List.find?_append, hfirst, Option.none_or, List.find?_cons_of_pos (hends x hx)]

/-- A whole answer that verifies passes the test of the Go client. -/
theorem goAnswer_of_goodAnswer
    {x : String × Reply}
    (h : (goodAnswer C ctx devMode x).isSome = true) :
    (goAnswer C ctx devMode x).isSome = true := by
  unfold goodAnswer at h
  unfold goAnswer
  cases hx : x.2 with
  | unreachable e =>
      rw [hx] at h
      cases h
  | response status body broken =>
      rw [hx] at h
      cases broken with
      | some e =>
          cases h
      | none =>
          dsimp only at h ⊢
          by_cases hstatus : isSuccess status = true
          · have hbelow : ¬ 300 ≤ status := by
              have hlt := (of_decide_eq_true hstatus).2
              exact UInt16.not_le.2 hlt
            rw [if_pos hstatus] at h
            rwa [if_neg hbelow]
          · rw [if_neg hstatus] at h
            cases h

/-- **The Go client takes an answer** exactly if one passes its test, and it parses all URLs
up to there. -/
theorem goTakes_iff
    {answers : Answers} :
    (∃ x, answers.find? (goEnds C ctx devMode) = some x ∧ goTakes C ctx devMode x = true) ↔
      ∃ before x after, answers = before ++ x :: after ∧
        (goAnswer C ctx devMode x).isSome = true ∧
        ∀ y ∈ before ++ [x], C.goParses (y.1 ++ "/query") = true := by
  constructor
  · rintro ⟨x, hfind, htakes⟩
    obtain ⟨_, before, after, hanswers, hbefore⟩ := List.find?_eq_some_iff_append.1 hfind
    obtain ⟨hparses, hanswer⟩ := Bool.and_eq_true_iff.1 htakes
    refine ⟨before, x, after, hanswers, hanswer, fun y hy => ?_⟩
    rcases List.mem_append.1 hy with hy | hy
    · have hends := hbefore y hy
      simp only [goEnds, Bool.not_eq_true', Bool.or_eq_false_iff, Bool.not_eq_false'] at hends
      exact hends.1
    · rw [List.mem_singleton.1 hy]
      exact hparses
  · rintro ⟨before, x, after, hanswers, hanswer, hparses⟩
    have hends : goEnds C ctx devMode x = true := Bool.or_eq_true_iff.2 (Or.inr hanswer)
    -- the first answer that ends the loop is among those whose URLs are parsed
    obtain ⟨z, hfind⟩ := Option.isSome_iff_exists.1 (List.find?_isSome.2
      ⟨x, List.mem_append_right before List.mem_cons_self, hends⟩ :
      ((before ++ [x]).find? (goEnds C ctx devMode)).isSome = true)
    have hz := hparses z (List.mem_of_find?_eq_some hfind)
    refine ⟨z, ?_, ?_⟩
    · rw [hanswers, List.append_cons, List.find?_append, hfind, Option.some_or]
    · have hzends := List.find?_some hfind
      simpa [goEnds, goTakes, hz] using hzends

theorem isSome_eq_false
    {f : String × Reply → Option α}
    {before : Answers} :
    (∀ y ∈ before, (f y).isSome = false) ↔ ∀ y ∈ before, f y = none := by
  simp only [Option.isSome_eq_false_iff, Option.isNone_iff_eq_none]

/-- **The Rust client takes an answer wherever one verifies** exactly if no whole answer
before the first such one does not decode. -/
theorem rustTakes_iff
    {answers : Answers} :
    (Answered C ctx devMode answers → ∃ x, answers.find? (rustEnds C ctx devMode) = some x ∧
      (goodAnswer C ctx devMode x).isSome = true) ↔
      ∀ before x after, answers = before ++ x :: after →
        (∀ y ∈ before, goodAnswer C ctx devMode y = none) →
        (goodAnswer C ctx devMode x).isSome = true → ∀ y ∈ before, undecodable C y = false := by
  have hgoodEnds : ∀ x, (goodAnswer C ctx devMode x).isSome = true →
      rustEnds C ctx devMode x = true := fun x hx => Bool.or_eq_true_iff.2 (Or.inl hx)
  constructor
  · intro h before x after hanswers hbefore hx y hy
    have hsome : Answered C ctx devMode answers :=
      ⟨x, hanswers ▸ List.mem_append_right _ List.mem_cons_self, hx⟩
    have hends := (find?_of_first hgoodEnds hanswers (isSome_eq_false.2 hbefore) hx).1
      (h hsome) y hy
    exact (Bool.or_eq_false_iff.1 hends).2
  · intro h hsome
    obtain ⟨before, x, after, hanswers, hbefore, hx⟩ := exists_first hsome
    refine (find?_of_first hgoodEnds hanswers hbefore hx).2 (fun y hy => ?_)
    exact Bool.or_eq_false_iff.2
      ⟨hbefore y hy, h before x after hanswers (isSome_eq_false.1 hbefore) hx y hy⟩

/-- **The Go client takes an answer exactly where one verifies** if the URLs that it refuses
stand in the right places. -/
theorem goAgrees_iff
    {answers : Answers} :
    (Answered C ctx devMode answers ↔
      ∃ x, answers.find? (goEnds C ctx devMode) = some x ∧ goTakes C ctx devMode x = true) ↔
      (Answered C ctx devMode answers → ∀ before x after, answers = before ++ x :: after →
        (∀ y ∈ before, goAnswer C ctx devMode y = none) →
        (goAnswer C ctx devMode x).isSome = true →
        ∀ y ∈ before ++ [x], C.goParses (y.1 ++ "/query") = true) ∧
      (¬ Answered C ctx devMode answers → ∀ before x after, answers = before ++ x :: after →
        (goAnswer C ctx devMode x).isSome = true →
        ∃ y ∈ before ++ [x], C.goParses (y.1 ++ "/query") = false) := by
  have hgoEnds : ∀ x, (goAnswer C ctx devMode x).isSome = true →
      goEnds C ctx devMode x = true := fun x hx => Bool.or_eq_true_iff.2 (Or.inr hx)
  constructor
  · intro h
    refine ⟨fun hsome before x after hanswers hbefore hx y hy => ?_,
      fun hnone before x after hanswers hx => ?_⟩
    · obtain ⟨z, hfind, htakes⟩ := h.1 hsome
      obtain ⟨hparses, hz⟩ := Bool.and_eq_true_iff.1 htakes
      have hgoes := (find?_of_first hgoEnds hanswers (isSome_eq_false.2 hbefore) hx).1
        ⟨z, hfind, hz⟩
      rcases List.mem_append.1 hy with hy | hy
      · have hends := hgoes y hy
        simp only [goEnds, Bool.or_eq_false_iff, Bool.not_eq_false'] at hends
        exact hends.1
      · -- the loop gets to the first answer that passes
        have hfirst : before.find? (goEnds C ctx devMode) = none :=
          List.find?_eq_none.2 (fun w hw => by simp [hgoes w hw])
        rw [hanswers, List.find?_append, hfirst, Option.none_or,
          List.find?_cons_of_pos (hgoEnds x hx)] at hfind
        cases hfind
        rw [List.mem_singleton.1 hy]
        exact hparses
    · by_contra hall
      refine hnone (h.2 (goTakes_iff.2 ⟨before, x, after, hanswers, hx, fun y hy => ?_⟩))
      by_contra hrefused
      exact hall ⟨y, hy, Bool.eq_false_iff.2 hrefused⟩
  · rintro ⟨hserved, hunserved⟩
    rw [goTakes_iff]
    constructor
    · rintro ⟨w, hw, hgood⟩
      obtain ⟨before, x, after, hanswers, hbefore, hx⟩ :=
        exists_first (p := fun x => (goAnswer C ctx devMode x).isSome)
          ⟨w, hw, goAnswer_of_goodAnswer hgood⟩
      exact ⟨before, x, after, hanswers, hx, hserved ⟨w, hw, hgood⟩ before x after hanswers
        (isSome_eq_false.1 hbefore) hx⟩
    · rintro ⟨before, x, after, hanswers, hx, hparses⟩
      by_contra hnone
      obtain ⟨y, hy, hrefused⟩ := hunserved hnone before x after hanswers hx
      rw [hparses y hy] at hrefused
      cases hrefused

/-- **A query survives bad relays exactly if nothing is in the way**: no relay before the
first good answer sends bytes that do not decode, and no URL that Go refuses nor an answer
that only Go takes parts the Go client from it. -/
theorem survives_iff
    (C : QueryCrates Ctx Msg α)
    (ctx : Ctx)
    (devMode : Bool)
    (request : QueryRequest)
    (noCache : Bool)
    (get : ℕ → HttpGet → Reply)
    (relays : List String)
    (pool : RelayPool.Pool) :
    Survives C ctx devMode request noCache get relays pool ↔
      NothingInTheWay C ctx devMode (answersOf request noCache get relays) := by
  constructor
  · intro h
    have hjs := h.sameAsJs.trans exists_jsSendQuery_eq_ok
    have hgo := goAgrees_iff.1 (hjs.symm.trans (h.sameAsGo.trans exists_goSendQuery_eq_ok))
    exact ⟨rustTakes_iff.1 (fun hsome => exists_sendQuery_eq_ok.1 (hjs.2 hsome)), hgo.1, hgo.2⟩
  · intro h
    have hrust : (∃ res, (sendQuery C ctx devMode request noCache get relays pool).1 = .ok res) ↔
        Answered C ctx devMode (answersOf request noCache get relays) := by
      refine exists_sendQuery_eq_ok.trans ⟨?_, rustTakes_iff.2 h.rust⟩
      rintro ⟨x, hfind, hgood⟩
      exact ⟨x, List.mem_of_find?_eq_some hfind, hgood⟩
    have hgo := goAgrees_iff.2 ⟨h.goServed, h.goUnserved⟩
    refine ⟨?_, ?_, hrust.trans (hgo.trans exists_goSendQuery_eq_ok.symm),
      hrust.trans exists_jsSendQuery_eq_ok.symm⟩
    · intro before x after v hanswers hbefore hx
      have hgood : (goodAnswer C ctx devMode x).isSome = true := by
        rw [hx]
        rfl
      refine sendQuery_eq hanswers (fun y hy => ?_) hx
      exact Bool.or_eq_false_iff.2 ⟨isSome_eq_false.2 hbefore y hy,
        h.rust before x after hanswers hbefore hgood y hy⟩
    · intro hnone
      cases hresult : (sendQuery C ctx devMode request noCache get relays pool).1 with
      | error e =>
          exact ⟨e, rfl⟩
      | ok res =>
          obtain ⟨x, hx, hgood⟩ := hrust.1 ⟨res, hresult⟩
          rw [hnone x hx] at hgood
          cases hgood

/-- A message is any bytes but none, and verifies. -/
def sampleCrates : QueryCrates Unit Bytes Bytes where
  decode body := if body.isEmpty then .error "unexpected end of input" else .ok body
  verifyWithOptions _ msg _ := .ok msg
  text _ := ""
  goParses _ := true

/-- The first relay answers with an empty body, every other one with a message. -/
def emptyFirst (i : ℕ) (_ : HttpGet) : Reply :=
  .response 200 (if i = 0 then [] else [1]) none

/-- One relay that answers with bytes that do not decode keeps the Rust client from the
good answer of the next one. -/
theorem undecodable_blocks_query :
    ¬ ∀ (Ctx Msg α : Type) (C : QueryCrates Ctx Msg α) (ctx : Ctx) (devMode : Bool)
      (request : QueryRequest) (noCache : Bool) (get : ℕ → HttpGet → Reply)
      (relays : List String) (pool : RelayPool.Pool),
      Survives C ctx devMode request noCache get relays pool := by
  intro h
  have hsurvives := h Unit Bytes Bytes sampleCrates () false ⟨[]⟩ false emptyFirst
    ["https://bad", "https://good"] [⟨"https://bad", 0⟩, ⟨"https://good", 0⟩]
  have hserved := hsurvives.served [("https://bad", .response 200 [] none)]
    ("https://good", .response 200 [1] none) [] [1] rfl
    (fun y hy => by rw [List.mem_singleton.1 hy]; rfl) rfl
  have hfailed : (sendQuery sampleCrates () false ⟨[]⟩ false emptyFirst
      ["https://bad", "https://good"] [⟨"https://bad", 0⟩, ⟨"https://good", 0⟩]).1 =
        .error (.decode "https://bad/query: decoding message: unexpected end of input") := by
    decide
  rw [hserved] at hfailed
  cases hfailed

end Survival

end SendQuery
end CertRelay
