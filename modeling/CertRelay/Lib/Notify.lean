import Mathlib.Order.Lattice
import Mathlib.Tactic.SplitIfs

/-!
# A permit between announcers and one reporter

Announcers say that there is news by leaving a permit, of which there is at most one.  The
reporter takes the permit, reads the news some time later, and reports what it has read.  The
news may move on at any time, and a reading may fail.

**Results.**
* `heard`: what is announced is reported, or still going to be, unless a reading fails;
* `grounded_step`: no report is ahead of the news;
* `length_reports_le`: there are no more reports than announcements.
-/

namespace CertRelay
namespace Notify

universe u

variable {ν : Type u} [SemilatticeSup ν]

/-- Where the reporter is. -/
inductive Stage (ν : Type u)
  | resting
  | woken
  | carrying (value : ν)

/-- The news, the permit, and what has been reported; a reading that failed reports nothing. -/
structure Line (ν : Type u) where
  news : ν
  permit : Bool
  stage : Stage ν
  reports : List (Option ν)

/-- A line on which nothing has been announced yet. -/
def Line.quiet (news : ν) : Line ν :=
  ⟨news, false, .resting, []⟩

/-- What happens next. -/
inductive Move (ν : Type u)
  | advance (value : ν)
  | announce
  | wake
  | read
  | fail
  | deliver

/-- The reporter takes the permit. -/
def wake (l : Line ν) : Line ν :=
  match l.stage, l.permit with
  | .resting, true => { l with permit := false, stage := .woken }
  | _, _ => l

/-- The reporter reads the news. -/
def read (l : Line ν) : Line ν :=
  match l.stage with
  | .woken => { l with stage := .carrying l.news }
  | _ => l

/-- The reporter fails to read the news. -/
def fail (l : Line ν) : Line ν :=
  match l.stage with
  | .woken => { l with stage := .resting, reports := l.reports ++ [none] }
  | _ => l

/-- The reporter reports what it has read. -/
def deliver (l : Line ν) : Line ν :=
  match l.stage with
  | .carrying value => { l with stage := .resting, reports := l.reports ++ [some value] }
  | _ => l

def step (l : Line ν) : Move ν → Line ν
  | .advance value => { l with news := l.news ⊔ value }
  | .announce => { l with permit := true }
  | .wake => wake l
  | .read => read l
  | .fail => fail l
  | .deliver => deliver l

/-- A report of at least these news, or of a reading that failed. -/
def Covers (n : ν) (report : Option ν) : Prop :=
  ∀ value, report = some value → n ≤ value

/-- A report of these news is still to come. -/
def Pending (n : ν) (l : Line ν) : Prop :=
  l.permit = true ∨ match l.stage with
    | .resting => False
    | .woken => True
    | .carrying value => n ≤ value

/-- These news are out, and they are reported from a place on, or going to be. -/
structure Owed (n : ν) (base : ℕ) (l : Line ν) : Prop where
  news : n ≤ l.news
  le_length : base ≤ l.reports.length
  heard : Pending n l ∨ ∃ report ∈ l.reports.drop base, Covers n report

variable {n : ν} {base : ℕ} {l : Line ν}

/-- A report that is added keeps those there are, and may be the one that is owed. -/
theorem heard_concat
    (hbase : base ≤ l.reports.length)
    {report : Option ν}
    (h : Covers n report ∨ ∃ report ∈ l.reports.drop base, Covers n report) :
    ∃ report' ∈ (l.reports ++ [report]).drop base, Covers n report' := by
  rw [List.drop_append_of_le_length hbase]
  rcases h with hnew | ⟨old, hmem, hold⟩
  · exact ⟨report, List.mem_append_right _ (List.mem_singleton_self _), hnew⟩
  · exact ⟨old, List.mem_append_left _ hmem, hold⟩

/-- **Every move keeps what is owed.** -/
theorem owed_step
    (h : Owed n base l)
    (move : Move ν) :
    Owed n base (step l move) := by
  obtain ⟨hnews, hbase, hheard⟩ := h
  have hlonger : ∀ report : Option ν, base ≤ (l.reports ++ [report]).length := fun report => by
    rw [List.length_append]
    omega
  cases move with
  | advance value =>
      exact ⟨hnews.trans le_sup_left, hbase, hheard⟩
  | announce =>
      exact ⟨hnews, hbase, .inl (.inl rfl)⟩
  | wake =>
      change Owed n base (wake l)
      unfold wake
      split
      · exact ⟨hnews, hbase, .inl (.inr trivial)⟩
      · exact ⟨hnews, hbase, hheard⟩
  | read =>
      change Owed n base (read l)
      unfold read
      split
      · exact ⟨hnews, hbase, .inl (.inr hnews)⟩
      · exact ⟨hnews, hbase, hheard⟩
  | fail =>
      change Owed n base (fail l)
      unfold fail
      split
      · refine ⟨hnews, hlonger none, .inr (heard_concat hbase (.inl ?_))⟩
        intro value hvalue
        cases hvalue
      · exact ⟨hnews, hbase, hheard⟩
  | deliver =>
      change Owed n base (deliver l)
      unfold deliver
      split
      · next value hstage =>
        refine ⟨hnews, hlonger (some value), ?_⟩
        rcases hheard with (hpermit | hcarried) | hreported
        · exact .inl (.inl hpermit)
        · rw [hstage] at hcarried
          refine .inr (heard_concat hbase (.inl ?_))
          intro value' hvalue
          rw [← Option.some.inj hvalue]
          exact hcarried
        · exact .inr (heard_concat hbase (.inr hreported))
      · exact ⟨hnews, hbase, hheard⟩

/-- **What is announced is heard**: whatever happens afterwards, a report of at least the news
of that moment has been added, or is still to come, unless a reading has failed meanwhile. -/
theorem heard
    (l : Line ν)
    (moves : List (Move ν)) :
    Owed l.news l.reports.length (moves.foldl step (step l .announce)) :=
  List.foldlRecOn moves step ⟨le_rfl, le_rfl, .inl (.inl rfl)⟩
    (fun _ hl move _ => owed_step hl move)

/-- What is reported, and what is carried, has been news. -/
structure Grounded (l : Line ν) : Prop where
  reports : ∀ value, some value ∈ l.reports → value ≤ l.news
  stage : ∀ value, l.stage = .carrying value → value ≤ l.news

theorem grounded_quiet (news : ν) : Grounded (Line.quiet news) := by
  constructor
  · intro value hvalue
    cases hvalue
  · intro value hvalue
    cases hvalue

theorem grounded_step
    (h : Grounded l)
    (move : Move ν) :
    Grounded (step l move) := by
  obtain ⟨hreports, hstage⟩ := h
  cases move with
  | advance value =>
      exact ⟨fun v hv => (hreports v hv).trans le_sup_left,
        fun v hv => (hstage v hv).trans le_sup_left⟩
  | announce =>
      exact ⟨hreports, hstage⟩
  | wake =>
      change Grounded (wake l)
      unfold wake
      split
      · refine ⟨hreports, fun v hv => ?_⟩
        cases hv
      · exact ⟨hreports, hstage⟩
  | read =>
      change Grounded (read l)
      unfold read
      split
      · refine ⟨hreports, fun v hv => ?_⟩
        cases hv
        exact le_rfl
      · exact ⟨hreports, hstage⟩
  | fail =>
      change Grounded (fail l)
      unfold fail
      split
      · refine ⟨fun v hv => hreports v ?_, fun v hv => ?_⟩
        · simpa using hv
        · cases hv
      · exact ⟨hreports, hstage⟩
  | deliver =>
      change Grounded (deliver l)
      unfold deliver
      split
      · next value hcarried =>
        refine ⟨fun v hv => ?_, fun v hv => ?_⟩
        · rcases List.mem_append.1 hv with hold | hnew
          · exact hreports v hold
          · rw [Option.some.inj (List.mem_singleton.1 hnew)]
            exact hstage value hcarried
        · cases hv
      · exact ⟨hreports, hstage⟩

/-- The permit, and the report that the reporter has been woken for. -/
def outstanding (l : Line ν) : ℕ :=
  l.permit.toNat + match l.stage with
    | .resting => 0
    | _ => 1

/-- The move is an announcement. -/
def Move.isAnnounce : Move ν → Bool
  | .announce => true
  | _ => false

/-- A move adds a report, or one to come, only if it is an announcement. -/
theorem outstanding_step
    (l : Line ν)
    (move : Move ν) :
    (step l move).reports.length + outstanding (step l move) ≤
      l.reports.length + outstanding l + if move.isAnnounce then 1 else 0 := by
  obtain ⟨news, permit, stage, reports⟩ := l
  cases move with
  | advance value =>
      exact Nat.le_refl _
  | announce =>
      cases permit <;> simp [step, outstanding, Move.isAnnounce]
      omega
  | wake =>
      cases permit <;> cases stage <;> simp [step, wake, outstanding, Move.isAnnounce]
  | read =>
      cases stage <;> simp [step, read, outstanding, Move.isAnnounce]
  | fail =>
      cases stage <;> simp [step, fail, outstanding, Move.isAnnounce]
      omega
  | deliver =>
      cases stage <;> simp [step, deliver, outstanding, Move.isAnnounce]
      omega

omit [SemilatticeSup ν] in
@[simp] theorem outstanding_quiet (news : ν) : outstanding (Line.quiet news) = 0 := by
  rfl

/-- **There are no more reports than announcements**, and one that was outstanding before. -/
theorem length_reports_le
    (l : Line ν)
    (moves : List (Move ν)) :
    (moves.foldl step l).reports.length + outstanding (moves.foldl step l) ≤
      l.reports.length + outstanding l + moves.countP Move.isAnnounce := by
  induction moves generalizing l with
  | nil =>
      exact Nat.le_refl _
  | cons move moves ih =>
      have hstep := outstanding_step l move
      have hrest := ih (step l move)
      rw [List.countP_cons]
      rw [List.foldl_cons]
      omega

end Notify
end CertRelay
