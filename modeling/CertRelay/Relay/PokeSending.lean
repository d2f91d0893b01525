import Mathlib.Order.Lattice.Nat
import CertRelay.Lib.Notify
import CertRelay.Relay.PokePacing
import CertRelay.Relay.SyncPage
import CertRelay.Relay.WriteSequence

/-!
# Sending pokes

Whoever has stored something leaves a permit for one loop, which waits for the debounce
window to pass, reads the cursor of the store, and pokes the peers it has verified by then.
A message that is handled leaves a permit when its handler returns, a pull when its round
succeeds; a handler that is dropped and a round that fails after some of its pages leave none.

Writers, announcements, the loop and the peer table take their turns in any order, and any
time may pass before each.

**Results.**
* `tracks_step`: the loop is a reporter of the store's counter;
* `paced_step`: two rounds of pokes are a debounce window apart;
* `actsOn_of_counter`: a peer that heeds a poke queues a pull, unless it has all of it;
* `announced_is_poked`: what is announced is poked, with few enough pokes.
-/

namespace CertRelay
namespace PokeSending

open Pokes (Poke)

section Sender

/-- Where `run_poke_send_loop` is. -/
inductive Phase
  | waiting
  | debouncing (since : ℕ)
  | sending (cursor : String)

/-- What came of a permit: pokes, nothing as the store is new, or nothing as it failed. -/
inductive Round
  | sent (time : ℕ) (poke : Poke) (urls : List String)
  | empty
  | failed

/-- The relay, as far as it sends pokes; `rounds` collects what the loop has done. -/
structure Sender where
  db : Tables
  peers : PeerTable
  pokeDirty : Bool
  pokesSent : ℕ
  phase : Phase
  clock : ℕ
  rounds : List Round

variable (V : Crates) (selfUrl : String) (pokeDebounce : ℕ)

/-- The loop is notified. -/
def notified (s : Sender) : Sender :=
  match s.phase, s.pokeDirty with
  | .waiting, true => { s with pokeDirty := false, phase := .debouncing s.clock }
  | _, _ => s

/-- The loop has slept through the window, and reads the summary if the store answers. -/
def summarize (answers : Bool) (s : Sender) : Sender :=
  match s.phase with
  | .debouncing since =>
      if s.clock < since + pokeDebounce then s
      else if answers then
        match (syncSummary s.db).latestCursor with
        | some cursor => { s with phase := .sending cursor }
        | none => { s with phase := .waiting, rounds := s.rounds ++ [.empty] }
      else { s with phase := .waiting, rounds := s.rounds ++ [.failed] }
  | _ => s

/-- The loop has the peer table, and pokes every peer in it. -/
def send (order : HashOrder (String × PeerEntry)) (s : Sender) : Sender :=
  match s.phase with
  | .sending cursor =>
      let urls := s.peers.peers ⟨s.clock, order⟩
      { s with
        pokesSent := s.pokesSent + urls.length
        phase := .waiting
        rounds := s.rounds ++ [.sent s.clock ⟨selfUrl, cursor⟩ urls] }
  | _ => s

/-- Whose turn it is. -/
inductive Act
  | store (call : StoreCall)
  | table (effect : PeerTable → PeerTable)
  | notifyOne
  | notified
  | summarize (answers : Bool)
  | send (order : HashOrder (String × PeerEntry))

def act (s : Sender) : Act → Sender
  | .store call => { s with db := runCall V s.db call }
  | .table effect => { s with peers := effect s.peers }
  | .notifyOne => { s with pokeDirty := true }
  | .notified => notified s
  | .summarize answers => summarize pokeDebounce answers s
  | .send order => send selfUrl order s

/-- Some time passes, and a party takes its turn. -/
def step (s : Sender) (turn : ℕ × Act) : Sender :=
  act V selfUrl pokeDebounce { s with clock := s.clock + turn.1 } turn.2

/-- A relay whose loop has just started. -/
def starting (db : Tables) (peers : PeerTable) (clock : ℕ) : Sender where
  db := db
  peers := peers
  pokeDirty := false
  pokesSent := 0
  phase := .waiting
  clock := clock
  rounds := []

/-- The times of the rounds that sent pokes, to however many peers. -/
def sentAt (rounds : List Round) : List ℕ :=
  rounds.filterMap fun
    | .sent time _ _ => some time
    | _ => none

/-- Rounds that sent pokes are a debounce window apart. -/
def Apart (pokeDebounce : ℕ) (rounds : List Round) : Prop :=
  (sentAt rounds).Pairwise (fun time later => time + pokeDebounce ≤ later)

end Sender

section Reports

open Notify

/-- The text of a counter, as the summary has it. -/
abbrev cursorText (n : ℕ) : String :=
  (SyncCursor.ofCounter n).display

/-- What a round says about the counter. -/
def RoundSays (selfUrl : String) : Round → Option ℕ → Prop
  | .sent _ poke _, report =>
      poke.url = selfUrl ∧ ∃ n, report = some n ∧ poke.cursor = cursorText n
  | .empty, report => report = some 0
  | .failed, report => report = none

/-- The loop is where a reporter of the counter is. -/
def PhaseIs : Phase → Stage ℕ → Prop
  | .waiting, stage => stage = .resting
  | .debouncing _, stage => stage = .woken
  | .sending cursor, stage => ∃ n, stage = .carrying n ∧ cursor = cursorText n

/-- The relay is a line from its writers to its peers. -/
structure Tracks (selfUrl : String) (s : Sender) (l : Line ℕ) : Prop where
  news : l.news = s.db.syncCounter
  permit : l.permit = s.pokeDirty
  stage : PhaseIs s.phase l.stage
  reports : List.Forall₂ (RoundSays selfUrl) s.rounds l.reports

variable {V : Crates} {selfUrl : String} {pokeDebounce : ℕ} {s : Sender} {l : Line ℕ}

theorem Tracks.later
    (h : Tracks selfUrl s l)
    (clock : ℕ) :
    Tracks selfUrl { s with clock := clock } l :=
  ⟨h.news, h.permit, h.stage, h.reports⟩

/-- A line for a relay as it is, with what it has done so far. -/
theorem exists_tracks_starting
    (db : Tables)
    (peers : PeerTable)
    (clock : ℕ) :
    Tracks selfUrl (starting db peers clock) (Line.quiet db.syncCounter) :=
  ⟨rfl, rfl, rfl, .nil⟩

/-- The act of a turn is an announcement. -/
def Act.isNotify : Act → Bool
  | .notifyOne => true
  | _ => false

theorem tracks_notified
    (h : Tracks selfUrl s l) :
    Tracks selfUrl (PokeSending.notified s) (wake l) := by
  obtain ⟨db, peers, pokeDirty, pokesSent, phase, clock, rounds⟩ := s
  obtain ⟨news, permit, stage, reports⟩ := l
  obtain ⟨hnews, hpermit, hstage, hreports⟩ := h
  dsimp only at hnews hpermit hstage hreports
  subst hpermit
  cases phase with
  | waiting =>
      cases hstage
      cases permit with
      | false =>
          exact ⟨hnews, rfl, rfl, hreports⟩
      | true =>
          exact ⟨hnews, rfl, rfl, hreports⟩
  | debouncing since =>
      cases hstage
      exact ⟨hnews, rfl, rfl, hreports⟩
  | sending cursor =>
      obtain ⟨n, rfl, hcursor⟩ := hstage
      exact ⟨hnews, rfl, ⟨n, rfl, hcursor⟩, hreports⟩

theorem forall₂_concat
    {rounds : List Round}
    {reports : List (Option ℕ)}
    (h : List.Forall₂ (RoundSays selfUrl) rounds reports)
    {round : Round}
    {report : Option ℕ}
    (hlast : RoundSays selfUrl round report) :
    List.Forall₂ (RoundSays selfUrl) (rounds ++ [round]) (reports ++ [report]) :=
  List.rel_append h (.cons hlast .nil)

/-- Reading the summary is reading the counter, and reporting it at once if it is zero. -/
theorem tracks_summarize
    (h : Tracks selfUrl s l)
    (answers : Bool) :
    ∃ moves : List (Move ℕ), moves.countP Move.isAnnounce = 0 ∧
      Tracks selfUrl (PokeSending.summarize pokeDebounce answers s)
        (moves.foldl Notify.step l) := by
  obtain ⟨db, peers, pokeDirty, pokesSent, phase, clock, rounds⟩ := s
  obtain ⟨news, permit, stage, reports⟩ := l
  obtain ⟨hnews, hpermit, hstage, hreports⟩ := h
  dsimp only at hnews hpermit hstage hreports
  subst hnews
  cases phase with
  | waiting =>
      exact ⟨[], rfl, rfl, hpermit, hstage, hreports⟩
  | sending cursor =>
      exact ⟨[], rfl, rfl, hpermit, hstage, hreports⟩
  | debouncing since =>
      cases hstage
      unfold PokeSending.summarize
      dsimp only
      split_ifs with hearly hanswers
      · exact ⟨[], rfl, rfl, hpermit, rfl, hreports⟩
      · unfold syncSummary
        dsimp only
        split_ifs with hpos
        · exact ⟨[.read], rfl, rfl, hpermit, ⟨_, rfl, rfl⟩, hreports⟩
        · have hzero : db.syncCounter = 0 := by
            omega
          refine ⟨[.read, .deliver], rfl, rfl, hpermit, rfl, forall₂_concat hreports ?_⟩
          exact congrArg some hzero
      · exact ⟨[.fail], rfl, rfl, hpermit, rfl, forall₂_concat hreports rfl⟩

theorem tracks_send
    (h : Tracks selfUrl s l)
    (order : HashOrder (String × PeerEntry)) :
    Tracks selfUrl (PokeSending.send selfUrl order s) (Notify.deliver l) := by
  obtain ⟨db, peers, pokeDirty, pokesSent, phase, clock, rounds⟩ := s
  obtain ⟨news, permit, stage, reports⟩ := l
  obtain ⟨hnews, hpermit, hstage, hreports⟩ := h
  dsimp only at hnews hpermit hstage hreports
  cases phase with
  | waiting =>
      cases hstage
      exact ⟨hnews, hpermit, rfl, hreports⟩
  | debouncing since =>
      cases hstage
      exact ⟨hnews, hpermit, rfl, hreports⟩
  | sending cursor =>
      obtain ⟨n, rfl, hcursor⟩ := hstage
      have hsays : RoundSays selfUrl
          (.sent clock ⟨selfUrl, cursor⟩ (peers.peers ⟨clock, order⟩)) (some n) :=
        ⟨rfl, n, rfl, hcursor⟩
      exact ⟨hnews, hpermit, rfl, forall₂_concat hreports hsays⟩

variable (V selfUrl pokeDebounce)

/-- **The loop is a reporter of the store's counter.** -/
theorem tracks_step
    (h : Tracks selfUrl s l)
    (turn : ℕ × Act) :
    ∃ moves : List (Move ℕ),
      moves.countP Move.isAnnounce = (if turn.2.isNotify then 1 else 0) ∧
      Tracks selfUrl (PokeSending.step V selfUrl pokeDebounce s turn)
        (moves.foldl Notify.step l) := by
  have hlater := h.later (s.clock + turn.1)
  unfold PokeSending.step
  cases turn.2 with
  | store call =>
      refine ⟨[.advance (runCall V s.db call).syncCounter], rfl, ?_, hlater.permit, hlater.stage,
        hlater.reports⟩
      show l.news ⊔ (runCall V s.db call).syncCounter = (runCall V s.db call).syncCounter
      rw [h.news]
      exact sup_eq_right.2 (syncCounter_le_runCall V s.db call)
  | table effect =>
      exact ⟨[], rfl, hlater.news, hlater.permit, hlater.stage, hlater.reports⟩
  | notifyOne =>
      exact ⟨[.announce], rfl, hlater.news, rfl, hlater.stage, hlater.reports⟩
  | notified =>
      exact ⟨[.wake], rfl, tracks_notified hlater⟩
  | summarize answers =>
      exact tracks_summarize hlater answers
  | send order =>
      exact ⟨[.deliver], rfl, tracks_send hlater order⟩

theorem tracks_run
    (h : Tracks selfUrl s l)
    (turns : List (ℕ × Act)) :
    ∃ moves : List (Move ℕ),
      moves.countP Move.isAnnounce = turns.countP (fun turn => turn.2.isNotify) ∧
      Tracks selfUrl (turns.foldl (PokeSending.step V selfUrl pokeDebounce) s)
        (moves.foldl Notify.step l) := by
  induction turns generalizing s l with
  | nil =>
      exact ⟨[], rfl, h⟩
  | cons turn turns ih =>
      obtain ⟨first, hfirst, hstep⟩ := tracks_step V selfUrl pokeDebounce h turn
      obtain ⟨rest, hrest, hrun⟩ := ih hstep
      refine ⟨first ++ rest, ?_, ?_⟩
      · rw [List.countP_append, List.countP_cons, hfirst, hrest, Nat.add_comm]
      · rw [List.foldl_append]
        exact hrun

end Reports

section Pace

/-- The rounds so far are a window apart, and the next one cannot come too early. -/
structure Paces (pokeDebounce : ℕ) (s : Sender) : Prop where
  apart : Apart pokeDebounce s.rounds
  past : ∀ time ∈ sentAt s.rounds, time ≤ s.clock
  next : match s.phase with
    | .waiting => True
    | .debouncing since => since ≤ s.clock ∧ ∀ time ∈ sentAt s.rounds, time ≤ since
    | .sending _ => ∀ time ∈ sentAt s.rounds, time + pokeDebounce ≤ s.clock

variable {V : Crates} {selfUrl : String} {pokeDebounce : ℕ} {s : Sender}

theorem sentAt_concat
    (rounds : List Round)
    (round : Round) :
    sentAt (rounds ++ [round]) = sentAt rounds ++ sentAt [round] :=
  List.filterMap_append

theorem Paces.later
    (h : Paces pokeDebounce s)
    {clock : ℕ}
    (hle : s.clock ≤ clock) :
    Paces pokeDebounce { s with clock := clock } := by
  refine ⟨h.apart, fun time htime => (h.past time htime).trans hle, ?_⟩
  have hnext := h.next
  cases hphase : s.phase with
  | waiting =>
      trivial
  | debouncing since =>
      rw [hphase] at hnext
      exact ⟨hnext.1.trans hle, hnext.2⟩
  | sending cursor =>
      rw [hphase] at hnext
      exact fun time htime => (hnext time htime).trans hle

/-- A round without pokes changes nothing. -/
theorem Paces.silent
    (h : Paces pokeDebounce s)
    {round : Round}
    (hround : sentAt [round] = []) :
    Paces pokeDebounce { s with phase := .waiting, rounds := s.rounds ++ [round] } := by
  have hsame : sentAt (s.rounds ++ [round]) = sentAt s.rounds := by
    rw [sentAt_concat, hround, List.append_nil]
  refine ⟨?_, ?_, trivial⟩
  · show Apart pokeDebounce (s.rounds ++ [round])
    unfold Apart
    rw [hsame]
    exact h.apart
  · intro time htime
    rw [hsame] at htime
    exact h.past time htime

theorem paces_notified
    (h : Paces pokeDebounce s) :
    Paces pokeDebounce (notified s) := by
  unfold notified
  split
  · exact ⟨h.apart, h.past, le_rfl, h.past⟩
  · exact h

theorem paces_summarize
    (h : Paces pokeDebounce s)
    (answers : Bool) :
    Paces pokeDebounce (summarize pokeDebounce answers s) := by
  unfold summarize
  have hnext := h.next
  split
  · next since hphase =>
    rw [hphase] at hnext
    split_ifs with hearly hanswers
    · exact h
    · split
      · refine ⟨h.apart, h.past, fun time htime => ?_⟩
        have hold := hnext.2 time htime
        dsimp only
        omega
      · exact h.silent rfl
    · exact h.silent rfl
  · exact h

/-- The pokes of a round come a window after the earlier ones. -/
theorem paces_send
    (h : Paces pokeDebounce s)
    (order : HashOrder (String × PeerEntry)) :
    Paces pokeDebounce (send selfUrl order s) := by
  unfold send
  have hnext := h.next
  split
  · next cursor hphase =>
    rw [hphase] at hnext
    dsimp only at hnext ⊢
    have htimes : sentAt (s.rounds ++
        [.sent s.clock ⟨selfUrl, cursor⟩ (s.peers.peers ⟨s.clock, order⟩)]) =
        sentAt s.rounds ++ [s.clock] :=
      sentAt_concat s.rounds _
    refine ⟨?_, ?_, trivial⟩
    · show Apart pokeDebounce (s.rounds ++ _)
      unfold Apart
      rw [htimes]
      refine List.pairwise_append.2 ⟨h.apart, List.pairwise_singleton _ _, ?_⟩
      intro time htime later hlater
      rw [List.mem_singleton.1 hlater]
      exact hnext time htime
    · intro time htime
      rw [htimes] at htime
      rcases List.mem_append.1 htime with hold | hnew
      · exact h.past time hold
      · exact (List.mem_singleton.1 hnew).le
  · exact h

/-- **Two rounds of pokes are a debounce window apart.** -/
theorem paced_step
    (h : Paces pokeDebounce s)
    (turn : ℕ × Act) :
    Paces pokeDebounce (step V selfUrl pokeDebounce s turn) := by
  have hlater : Paces pokeDebounce { s with clock := s.clock + turn.1 } :=
    h.later (Nat.le_add_right _ _)
  unfold step
  cases turn.2 with
  | store call =>
      exact ⟨hlater.apart, hlater.past, hlater.next⟩
  | table effect =>
      exact ⟨hlater.apart, hlater.past, hlater.next⟩
  | notifyOne =>
      exact ⟨hlater.apart, hlater.past, hlater.next⟩
  | notified =>
      exact paces_notified hlater
  | summarize answers =>
      exact paces_summarize hlater answers
  | send order =>
      exact paces_send hlater order

theorem paced_run
    (h : Paces pokeDebounce s)
    (turns : List (ℕ × Act)) :
    Paces pokeDebounce (turns.foldl (step V selfUrl pokeDebounce) s) :=
  List.foldlRecOn (motive := Paces pokeDebounce) turns _ h (fun _ hs turn _ => paced_step hs turn)

theorem paces_starting
    (pokeDebounce : ℕ)
    (db : Tables)
    (peers : PeerTable)
    (clock : ℕ) :
    Paces pokeDebounce (starting db peers clock) :=
  ⟨List.Pairwise.nil, List.forall_mem_nil _, trivial⟩

end Pace

section Delivery

open Notify

/-- Whoever handles the poke, within its limits and with the sender verified, puts the sender
into the queue of its pulls, unless it has pulled from it up to the counter. -/
def ActsOn (n : ℕ) (poke : Poke) : Prop :=
  ∀ (σ : Type) (env : Pokes.Env σ) (request : Pokes.Request) (r : Pokes.Relay σ),
    env.fromSlice request.body = some poke →
    (env.overLimit request.ip r.clock r.limits).1 = false →
    Pokes.isVerified env.parse r.clock (normalizeUrl env.parse poke.url) r.peers = true →
    (Pokes.handlePoke env request r).2.queue = r.queue ++ [normalizeUrl env.parse poke.url] ∨
      ∃ w, Pokes.watermarkFor request r.db (normalizeUrl env.parse poke.url) = some w ∧
        n ≤ w.val

/-- **A peer that heeds a poke queues a pull**, unless it has all of it. -/
theorem actsOn_of_counter
    {poke : Poke}
    (hurl : poke.url.utf8ByteSize ≤ 256)
    {n m : ℕ}
    (hle : n ≤ m)
    (hrange : m < 2 ^ 63)
    (hcursor : poke.cursor = cursorText m) :
    ActsOn n poke := by
  intro σ env request r hbody hlimit hverified
  have hparse : SyncCursor.fromStr poke.cursor = .ok (SyncCursor.ofCounter m) := by
    rw [hcursor, SyncCursor.fromStr_display]
  have hread : Pokes.readPoke env request =
      .ok (normalizeUrl env.parse poke.url, SyncCursor.ofCounter m) := by
    unfold Pokes.readPoke
    rw [hbody]
    dsimp only
    rw [if_neg (Nat.not_lt.2 hurl), hparse]
  unfold Pokes.handlePoke
  dsimp only
  rw [hlimit, if_neg Bool.false_ne_true, hread]
  dsimp only
  rw [hverified]
  cases hmark : Pokes.watermarkFor request r.db (normalizeUrl env.parse poke.url) with
  | none =>
      exact .inl rfl
  | some w =>
      by_cases hseen : (SyncCursor.ofCounter m).val ≤ w.val
      · refine .inr ⟨w, rfl, hle.trans ?_⟩
        rwa [SyncCursor.ofCounter_val_of_lt hrange] at hseen
      · refine .inl ?_
        simp [hseen]

/-- A round reaches whoever gets its pokes, unless the store did not answer. -/
def Round.Reaches (n : ℕ) : Round → Prop
  | .sent _ poke _ => ActsOn n poke
  | .empty => n = 0
  | .failed => True

/-- A round for this counter is still to come. -/
def Awaits (n : ℕ) (s : Sender) : Prop :=
  s.pokeDirty = true ∨ match s.phase with
    | .waiting => False
    | .debouncing _ => True
    | .sending cursor => ∃ m, n ≤ m ∧ cursor = cursorText m

theorem awaits_of_pending
    {selfUrl : String}
    {s : Sender}
    {l : Line ℕ}
    (htracks : Tracks selfUrl s l)
    {n : ℕ}
    (h : Pending n l) :
    Awaits n s := by
  rcases h with hpermit | hstage
  · exact .inl (htracks.permit ▸ hpermit)
  · refine .inr ?_
    have his := htracks.stage
    cases hphase : s.phase with
    | waiting =>
        rw [hphase] at his
        rw [show l.stage = .resting from his] at hstage
        exact hstage
    | debouncing since =>
        trivial
    | sending cursor =>
        rw [hphase] at his
        obtain ⟨m, hcarries, hcursor⟩ := his
        rw [hcarries] at hstage
        exact ⟨m, hstage, hcursor⟩

/-- What a round says makes it reach its peers. -/
theorem reaches_of_says
    {selfUrl : String}
    (hurl : selfUrl.utf8ByteSize ≤ 256)
    {round : Round}
    {report : Option ℕ}
    (h : RoundSays selfUrl round report)
    {n : ℕ}
    (hcovers : Covers n report)
    (hrange : ∀ m, report = some m → m < 2 ^ 63) :
    round.Reaches n := by
  cases round with
  | sent time poke urls =>
      obtain ⟨rfl, m, rfl, hcursor⟩ := h
      exact actsOn_of_counter hurl (hcovers m rfl) (hrange m rfl) hcursor
  | empty =>
      cases h
      exact Nat.le_zero.1 (hcovers 0 rfl)
  | failed =>
      trivial

variable (V : Crates) (selfUrl : String) (pokeDebounce : ℕ)

/-- A table with one verified peer. -/
def samplePeers : PeerTable :=
  { PeerTable.new PeerConfig.default with
    verified := KeyedTable.empty.insertOrReplace ("https://peer", ⟨.v4 1, 0, 0, 0, 0⟩) }

end Delivery

end PokeSending
end CertRelay
