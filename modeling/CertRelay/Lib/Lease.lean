import Mathlib.Data.List.Chain
import Mathlib.Data.List.Induction
import Mathlib.Data.Nat.Notation
import Mathlib.Tactic.SplitIfs

/-!
# Leases

A lease is granted, renewed while it lasts, and revoked.  It lasts for a fixed time from the
instant it was last heard of, and a renewal that comes too late is ignored.

**Results.**
* `exists_grant`: a lease that lasts was granted once, and renewed in time ever since.
-/

namespace CertRelay
namespace Lease

/-- What is heard of a lease. -/
inductive Signal
  | grant (time : ℕ)
  | renew (time : ℕ)
  | revoke (time : ℕ)
deriving DecidableEq

def Signal.time : Signal → ℕ
  | .grant time => time
  | .renew time => time
  | .revoke time => time

def Signal.IsRenewal : Signal → Prop
  | .renew _ => True
  | _ => False

variable (ttl : ℕ)

/-- When a lease was last heard of, if it was granted. -/
def next : Option ℕ → Signal → Option ℕ
  | _, .grant time => some time
  | last, .renew time => last.map (fun heard => if time - heard < ttl then time else heard)
  | _, .revoke _ => none

def lastHeard (signals : List Signal) : Option ℕ :=
  signals.foldl (next ttl) none

/-- No two instants of a list in turn are as far apart as a lease lasts. -/
def Unbroken (times : List ℕ) : Prop :=
  times.IsChain (fun t t' => t' - t < ttl)

variable {ttl}

theorem lastHeard_concat
    (signals : List Signal)
    (s : Signal) :
    lastHeard ttl (signals ++ [s]) = next ttl (lastHeard ttl signals) s :=
  List.foldl_concat _ _ _ _

theorem Unbroken.concat
    {times : List ℕ}
    {t now : ℕ}
    (h : Unbroken ttl (times ++ [t]))
    (hnow : now - t < ttl) :
    Unbroken ttl (times ++ [t] ++ [now]) := by
  refine List.isChain_append.2 ⟨h, List.isChain_singleton now, ?_⟩
  intro x hx y hy
  rw [List.getLast?_concat] at hx
  cases hx
  cases hy
  exact hnow

/-- **A lease that lasts was granted once, and renewed in time ever since.** -/
theorem exists_grant
    {signals : List Signal}
    (hsorted : signals.Pairwise (fun s s' => s.time ≤ s'.time))
    {now : ℕ}
    (hpast : ∀ s ∈ signals, s.time ≤ now)
    {heard : ℕ}
    (hheard : lastHeard ttl signals = some heard)
    (hlasts : now - heard < ttl) :
    ∃ before start after, signals = before ++ .grant start :: after ∧
      (∀ s ∈ after, s.IsRenewal) ∧
      Unbroken ttl (start :: after.map Signal.time ++ [now]) := by
  induction signals using List.reverseRecOn generalizing now heard with
  | nil =>
      cases hheard
  | append_singleton init s ih =>
      obtain ⟨hinit, _, hbefore⟩ := List.pairwise_append.1 hsorted
      have hle := hpast s List.mem_concat_self
      rw [lastHeard_concat] at hheard
      cases s with
      | grant time =>
          cases Option.some.inj hheard
          refine ⟨init, heard, [], rfl, List.forall_mem_nil _, ?_⟩
          exact List.isChain_pair.2 hlasts
      | revoke time =>
          cases hheard
      | renew time =>
          obtain ⟨previous, hprevious, hnext⟩ := Option.map_eq_some_iff.1 hheard
          -- a renewal that came too late would not have been heard of since
          have hgap : time - previous < ttl := by
            by_contra hlate
            rw [if_neg hlate] at hnext
            have hpast' : time ≤ now := hle
            omega
          rw [if_pos hgap] at hnext
          subst hnext
          obtain ⟨before, start, after, hsplit, hrenewals, hunbroken⟩ :=
            ih hinit (fun s hs => hbefore s hs (.renew time) List.mem_cons_self) hprevious hgap
          refine ⟨before, start, after ++ [.renew time], ?_, ?_, ?_⟩
          · rw [hsplit, List.append_assoc, List.cons_append]
          · intro s hs
            rcases List.mem_append.1 hs with hold | hlast
            · exact hrenewals s hold
            · cases List.mem_singleton.1 hlast
              trivial
          · rw [List.map_append]
            exact hunbroken.concat hlasts

end Lease
end CertRelay
