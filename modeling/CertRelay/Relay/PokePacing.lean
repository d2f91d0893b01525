import CertRelay.Lib.Cooldown
import CertRelay.Lib.Runs
import CertRelay.Relay.PeerTable
import CertRelay.Relay.StoreCalls
import CertRelay.Relay.SyncCursor

/-!
# Pokes and the pace of the syncs they trigger

A poke tells a relay that a peer has news.  The handler checks it and puts the URL into a
queue; one loop takes the URLs from it, and syncs with a peer unless it did so less than a
cooldown ago.  The times of these syncs are kept by URL and pruned at each of them.

Requests, the loop and the other tasks of the relay take their turns in any order, and any
time may pass before each.  What a sync does to the store is a parameter of its turns, as is
what other tasks do.

**Results.**
* `handlePoke_frame`: what a poke changes;
* `knows_step`: the table of the loop knows every sync that still matters;
* `poke_pacing`: syncs with one peer start a cooldown apart, and no poke moves a watermark.
-/

namespace CertRelay
namespace Pokes

section Relay

/-- `resolver::Poke`. -/
structure Poke where
  url : String
  cursor : String

/-- A request to `/poke`, and whether the store answers while it is handled. -/
structure Request where
  ip : IpAddr
  body : Bytes
  storeAnswers : Bool

/-- `Stats`, as far as pokes are counted. -/
structure PokeStats where
  rlPoke : ℕ
  pokesReceived : ℕ
  pokesAccepted : ℕ
  syncErrors : ℕ

/-- What the loop is doing. -/
inductive Phase
  | receiving
  | syncing (url : String)
  | panicked
deriving DecidableEq

/-- The relay, as far as pokes go; `starts` collects the syncs that the loop has started. -/
structure Relay (σ : Type) where
  db : Tables
  peers : PeerTable
  limits : σ
  stats : PokeStats
  queue : List String
  pokeDirty : Bool
  phase : Phase
  lastSynced : Cooldown.Times String
  clock : ℕ
  starts : List (String × ℕ)

/-- What the relay takes from elsewhere: JSON, URLs, the rate limiter. -/
structure Env (σ : Type) where
  fromSlice : Bytes → Option Poke
  parse : UrlParse
  overLimit : IpAddr → ℕ → σ → Bool × σ

variable {σ : Type} (env : Env σ)

/-- `is_verified`. -/
def isVerified (parse : UrlParse) (now : ℕ) (url : String) (peers : PeerTable) : Bool :=
  (peers.verified.find? (normalizeUrl parse url)).any (fun p => peers.fresh now p.2)

/-- The watermark of a peer, if it can be read. -/
def watermarkFor (request : Request) (db : Tables) (url : String) : Option SyncCursor :=
  if request.storeAnswers then
    (getWatermark db url).bind (fun c => (SyncCursor.fromStr c).toOption)
  else none

/-- A response of `handle_poke`: a status and a text. -/
abbrev Response := ℕ × String

/-- The poke of a request that passes all checks on the way to the queue. -/
def readPoke (request : Request) : Except Response (String × SyncCursor) :=
  match env.fromSlice request.body with
  | none => .error (400, "invalid poke format")
  | some poke =>
      if 256 < poke.url.utf8ByteSize then .error (400, "invalid url")
      else
        match SyncCursor.fromStr poke.cursor with
        | .error _ => .error (400, "invalid cursor")
        | .ok cursor => .ok (normalizeUrl env.parse poke.url, cursor)

/-- `handle_poke`. -/
def handlePoke (request : Request) (s : Relay σ) : Response × Relay σ :=
  let (limited, limits) := env.overLimit request.ip s.clock s.limits
  let s := { s with limits := limits }
  if limited then
    ((429, "rate limited"), { s with stats := { s.stats with rlPoke := s.stats.rlPoke + 1 } })
  else
    let s := { s with stats := { s.stats with pokesReceived := s.stats.pokesReceived + 1 } }
    match readPoke env request with
    | .error response => (response, s)
    | .ok (pokeUrl, cursor) =>
        if !isVerified env.parse s.clock pokeUrl s.peers then ((200, "ok"), s)
        else if (watermarkFor request s.db pokeUrl).any (fun w => decide (cursor.val ≤ w.val)) then
          ((200, "ok"), s)
        else
          ((200, "ok"),
            { s with
              stats := { s.stats with pokesAccepted := s.stats.pokesAccepted + 1 }
              queue := s.queue ++ [pokeUrl] })

/-- `Duration::MAX` in nanoseconds. -/
def durationMax : ℕ :=
  (2 ^ 64 - 1) * 10 ^ 9 + 999999999

variable (pokeCooldown : ℕ)

/-- A turn of `run_poke_sync_loop`: receive a URL, and start a sync unless it is too early.
Multiplying the cooldown panics if it overflows. -/
def receive (s : Relay σ) : Relay σ :=
  match s.phase, s.queue with
  | .receiving, url :: queue =>
      let s := { s with queue := queue }
      if Cooldown.waits pokeCooldown s.clock url s.lastSynced then s
      else if durationMax < pokeCooldown * 4 then
        { s with
          lastSynced := s.lastSynced.insertOrReplace (url, s.clock)
          phase := .panicked }
      else
        { s with
          lastSynced := Cooldown.record (pokeCooldown * 4) s.clock url s.lastSynced
          phase := .syncing url
          starts := s.starts ++ [(url, s.clock)] }
  | _, _ => s

/-- The sync that the loop has started returns what it has stored, or fails. -/
def finish (order : HashOrder (String × PeerEntry)) (result : Except String ℕ)
    (s : Relay σ) : Relay σ :=
  match s.phase with
  | .syncing url =>
      match result with
      | .ok stored =>
          { s with
            pokeDirty := s.pokeDirty || decide (0 < stored)
            peers := s.peers.markSynced env.parse ⟨s.clock, order⟩ url
            phase := .receiving }
      | .error _ =>
          { s with
            stats := { s.stats with syncErrors := s.stats.syncErrors + 1 }
            peers := s.peers.recordSyncFailure env.parse ⟨s.clock, order⟩ url
            phase := .receiving }
  | _ => s

/-- Whose turn it is. -/
inductive Act
  | poke (request : Request)
  | receive
  | sync (effect : Tables → Tables)
  | finish (order : HashOrder (String × PeerEntry)) (result : Except String ℕ)
  | others (effect : Tables → Tables) (peers : PeerTable → PeerTable)

/-- The turn of a party, at the clock of the relay. -/
def act (s : Relay σ) : Act → Relay σ
  | .poke request => (handlePoke env request s).2
  | .receive => receive pokeCooldown s
  | .sync effect =>
      match s.phase with
      | .syncing _ => { s with db := effect s.db }
      | _ => s
  | .finish order result => finish env order result s
  | .others effect peers => { s with db := effect s.db, peers := peers s.peers }

/-- Some time passes, and a party takes its turn. -/
def step (s : Relay σ) (turn : ℕ × Act) : Relay σ :=
  act env pokeCooldown { s with clock := s.clock + turn.1 } turn.2

/-- A relay whose loop has just started. -/
def starting (db : Tables) (peers : PeerTable) (limits : σ) (queue : List String) (clock : ℕ) :
    Relay σ where
  db := db
  peers := peers
  limits := limits
  stats := ⟨0, 0, 0, 0⟩
  queue := queue
  pokeDirty := false
  phase := .receiving
  lastSynced := KeyedTable.empty
  clock := clock
  starts := []

end Relay

section Pace

variable {σ : Type} {env : Env σ} {pokeCooldown : ℕ} {s : Relay σ}

/-- What a poke leaves alone: the store, the peers, and what the loop goes by. -/
structure SameLoop (s s' : Relay σ) : Prop where
  db : s'.db = s.db
  peers : s'.peers = s.peers
  phase : s'.phase = s.phase
  lastSynced : s'.lastSynced = s.lastSynced
  clock : s'.clock = s.clock
  starts : s'.starts = s.starts

/-- **A poke changes counters, a limiter and the queue only.** -/
theorem handlePoke_frame
    (env : Env σ)
    (request : Request)
    (s : Relay σ) :
    SameLoop s (handlePoke env request s).2 ∧
      ((handlePoke env request s).2.queue = s.queue ∨
        ∃ url cursor, readPoke env request = .ok (url, cursor) ∧
          isVerified env.parse s.clock url s.peers = true ∧
          (∀ w, watermarkFor request s.db url = some w → w.val < cursor.val) ∧
          (handlePoke env request s).2.queue = s.queue ++ [url]) := by
  unfold handlePoke
  dsimp only
  split_ifs with hlimited
  · exact ⟨⟨rfl, rfl, rfl, rfl, rfl, rfl⟩, .inl rfl⟩
  · cases hread : readPoke env request with
    | error response =>
        exact ⟨⟨rfl, rfl, rfl, rfl, rfl, rfl⟩, .inl rfl⟩
    | ok poke =>
        dsimp only
        split_ifs with hverified hmark
        · exact ⟨⟨rfl, rfl, rfl, rfl, rfl, rfl⟩, .inl rfl⟩
        · exact ⟨⟨rfl, rfl, rfl, rfl, rfl, rfl⟩, .inl rfl⟩
        · refine ⟨⟨rfl, rfl, rfl, rfl, rfl, rfl⟩, .inr ⟨poke.1, poke.2, rfl, ?_, ?_, rfl⟩⟩
          · simpa using hverified
          · intro w hw
            rw [hw] at hmark
            simpa using hmark

/-- The table of the loop knows the syncs that still matter. -/
def Knows (pokeCooldown : ℕ) (s : Relay σ) : Prop :=
  Cooldown.Remembers pokeCooldown s.clock s.starts s.lastSynced

theorem Knows.of_same
    (h : Knows pokeCooldown s)
    {s' : Relay σ}
    (hstarts : s'.starts = s.starts)
    (hlast : s'.lastSynced = s.lastSynced)
    (hclock : s'.clock = s.clock) :
    Knows pokeCooldown s' := by
  unfold Knows
  rw [hstarts, hlast, hclock]
  exact h

/-- The loop starts a sync only with a peer that need not wait. -/
theorem knows_receive
    (h : Knows pokeCooldown s) :
    Knows pokeCooldown (receive pokeCooldown s) := by
  unfold receive
  cases hphase : s.phase with
  | receiving =>
      cases hqueue : s.queue with
      | nil =>
          exact h
      | cons url queue =>
          dsimp only
          split_ifs with hwaits hmax
          · exact h.of_same rfl rfl rfl
          · exact Cooldown.Remembers.insert h url
          · have hhorizon : pokeCooldown ≤ pokeCooldown * 4 := by omega
            exact Cooldown.Remembers.record h (Bool.eq_false_iff.2 hwaits) hhorizon
  | syncing url =>
      exact h
  | panicked =>
      exact h

/-- Finishing a sync reports on the peer and hands the turn back. -/
theorem finish_frame
    (env : Env σ)
    (order : HashOrder (String × PeerEntry))
    (result : Except String ℕ)
    (s : Relay σ) :
    (finish env order result s).db = s.db ∧
      (finish env order result s).starts = s.starts ∧
      (finish env order result s).lastSynced = s.lastSynced ∧
      (finish env order result s).clock = s.clock := by
  unfold finish
  cases s.phase with
  | receiving =>
      exact ⟨rfl, rfl, rfl, rfl⟩
  | syncing url =>
      cases result with
      | ok stored =>
          exact ⟨rfl, rfl, rfl, rfl⟩
      | error e =>
          exact ⟨rfl, rfl, rfl, rfl⟩
  | panicked =>
      exact ⟨rfl, rfl, rfl, rfl⟩

/-- The loop does not write the store. -/
theorem db_receive
    (pokeCooldown : ℕ)
    (s : Relay σ) :
    (receive pokeCooldown s).db = s.db := by
  unfold receive
  cases s.phase with
  | receiving =>
      cases s.queue with
      | nil =>
          rfl
      | cons url queue =>
          dsimp only
          split_ifs <;> rfl
  | syncing url =>
      rfl
  | panicked =>
      rfl

/-- Every turn leaves the loop knowing. -/
theorem knows_step
    (h : Knows pokeCooldown s)
    (turn : ℕ × Act) :
    Knows pokeCooldown (step env pokeCooldown s turn) := by
  have hlater : Knows pokeCooldown { s with clock := s.clock + turn.1 } :=
    Cooldown.Remembers.later h (Nat.le_add_right _ _)
  unfold step act
  cases turn.2 with
  | poke request =>
      obtain ⟨hsame, _⟩ := handlePoke_frame env request { s with clock := s.clock + turn.1 }
      exact hlater.of_same hsame.starts hsame.lastSynced hsame.clock
  | receive =>
      exact knows_receive hlater
  | sync effect =>
      dsimp only
      cases s.phase with
      | receiving =>
          exact hlater
      | syncing url =>
          exact hlater.of_same rfl rfl rfl
      | panicked =>
          exact hlater
  | finish order result =>
      obtain ⟨_, hstarts, hlast, hclock⟩ :=
        finish_frame env order result { s with clock := s.clock + turn.1 }
      exact hlater.of_same hstarts hlast hclock
  | others effect peers =>
      exact hlater.of_same rfl rfl rfl

/-- A party whose turn may write the store: a sync, or another task. -/
def Act.writes : Act → Bool
  | .sync _ => true
  | .others _ _ => true
  | _ => false

/-- Only these turns change the store. -/
theorem db_step
    {turn : ℕ × Act}
    (h : turn.2.writes = false) :
    (step env pokeCooldown s turn).db = s.db := by
  unfold step act
  cases hact : turn.2 with
  | poke request =>
      exact (handlePoke_frame env request { s with clock := s.clock + turn.1 }).1.db
  | receive =>
      exact db_receive pokeCooldown { s with clock := s.clock + turn.1 }
  | sync effect =>
      rw [hact] at h
      cases h
  | finish order result =>
      exact (finish_frame env order result { s with clock := s.clock + turn.1 }).1
  | others effect peers =>
      rw [hact] at h
      cases h

/-- **Poke pacing.**  Whoever takes turns, and whatever time passes: the syncs that pokes
trigger with one peer start a cooldown apart, and the watermarks change only in a turn of a
sync or of another task, never in that of a poke or of the loop. -/
theorem poke_pacing
    (env : Env σ)
    (pokeCooldown : ℕ)
    (db : Tables)
    (peers : PeerTable)
    (limits : σ)
    (queue : List String)
    (clock : ℕ)
    (turns : List (ℕ × Act)) :
    Cooldown.Paced pokeCooldown
        (turns.foldl (step env pokeCooldown) (starting db peers limits queue clock)).starts ∧
      ∀ i, ∀ hi : i < turns.length, turns[i].2.writes = false →
        ((turns.take (i + 1)).foldl (step env pokeCooldown)
            (starting db peers limits queue clock)).db.syncWatermarks =
          ((turns.take i).foldl (step env pokeCooldown)
            (starting db peers limits queue clock)).db.syncWatermarks := by
  constructor
  · have hknows : Knows pokeCooldown
        (turns.foldl (step env pokeCooldown) (starting db peers limits queue clock)) :=
      List.foldlRecOn (motive := fun s => Knows pokeCooldown s) turns _
        (Cooldown.remembers_nil _) (fun s hs turn _ => knows_step hs turn)
    exact hknows.paced
  · intro i hi hwrites
    rw [Runs.foldl_take_succ hi, db_step hwrites]

/-- Of three pokes of one peer, the second comes too early. -/
example :
    let env : Env Unit := ⟨fun _ => none, fun _ => none, fun _ _ limits => (false, limits)⟩
    let finished : Act := .finish HashOrder.inserted (.ok 0)
    let turns : List (ℕ × Act) := [(0, .receive), (1, finished), (0, .receive), (4, .receive)]
    let queue : List String := ["https://a", "https://a", "https://a"]
    let first := starting Tables.init (PeerTable.new PeerConfig.default) () queue 0
    (turns.foldl (step env 5) first).starts = [("https://a", 0), ("https://a", 5)] := by
  decide +kernel

end Pace

end Pokes
end CertRelay
