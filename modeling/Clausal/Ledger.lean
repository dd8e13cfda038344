import Clausal.Proof
import Clausal.Quoted
import Clausal.Relocation

namespace Clausal

/-- What the search for a goal came to. -/
abbrev Outcome := Except Failure Proof

def Outcome.succeeded : Outcome → Bool
  | .ok _ => true
  | .error _ => false

def Outcome.isDepthExceeded : Outcome → Bool
  | .ok _ => false
  | .error f => f.isDepthExceeded

/-- What is known of a goal. The search for a provisional goal is over, but its outcome rests on
the goal of stack frame `low`, which is still under way. -/
inductive GoalState where
  | inProgress (frame : Nat) (id : ProofId)
  | provisional (low : Nat) (outcome : Outcome) (chain : GoalChain)
  | resolved (proof : Proof)
  | failed (failure : Failure)

def GoalState.isResolved : GoalState → Bool
  | .resolved _ => true
  | _ => false

def GoalState.isFailed : GoalState → Bool
  | .failed _ => true
  | _ => false

/-- The state of a goal as shown to callers. -/
inductive Status where
  | unstarted
  | inProgress
  | resolved
  | failed (failure : Failure)

structure LedgerStats where
  entries : Nat
  resolved : Nat
  failed : Nat
  hits : Nat
  misses : Nat
deriving DecidableEq

/-- What a prover knows of each goal, and how often it was asked. Goals without an entry are
unstarted. -/
structure Ledger where
  entries : List (Term × GoalState)
  hits : Nat
  misses : Nat

namespace Ledger

def empty : Ledger :=
  ⟨[], 0, 0⟩

def get? (ledger : Ledger) (goal : Term) : Option GoalState :=
  ledger.entries.lookup goal

def erase (ledger : Ledger) (goal : Term) : Ledger :=
  { ledger with entries := ledger.entries.filter fun e => e.1 ≠ goal }

def set (ledger : Ledger) (goal : Term) (state : GoalState) : Ledger :=
  { ledger with entries := (goal, state) :: (ledger.erase goal).entries }

theorem get?_erase (ledger : Ledger) (goal other : Term) :
    (ledger.erase goal).get? other = if other = goal then none else ledger.get? other := by
  obtain ⟨entries, _, _⟩ := ledger
  simp only [erase, get?]
  induction entries with
  | nil => simp
  | cons e es ih =>
    by_cases he : e.1 = goal <;> by_cases ho : other = e.1 <;> grind

/-- A set entry is what is found from then on, and no other goal is touched. -/
theorem get?_set (ledger : Ledger) (goal other : Term) (state : GoalState) :
    (ledger.set goal state).get? other =
      if other = goal then some state else ledger.get? other := by
  have h := get?_erase ledger goal other
  simp only [get?] at h
  by_cases ho : other = goal
  · simp [set, get?, ho]
  · have hb : (other == goal) = false := by simpa using ho
    simpa [set, get?, List.lookup_cons, ho, hb] using h

def hit (ledger : Ledger) : Ledger :=
  { ledger with hits := ledger.hits + 1 }

def miss (ledger : Ledger) : Ledger :=
  { ledger with misses := ledger.misses + 1 }

/-- Lets a provisional outcome rest on frame `low`. -/
def restOn (low : Nat) (ledger : Ledger) (goal : Term) : Ledger :=
  match ledger.get? goal with
  | some (.provisional _ outcome chain) => ledger.set goal (.provisional low outcome chain)
  | _ => ledger

/-- Makes a provisional outcome final, now that the goal it rests on is done. A failure only
stands if that goal failed too; otherwise the entry is dropped, so that the goal is searched
afresh when it is asked for again. -/
def confirm (succeeded : Bool) (ledger : Ledger) (goal : Term) : Ledger :=
  match ledger.get? goal with
  | some (.provisional _ (.ok proof) _) => ledger.set goal (.resolved proof)
  | some (.provisional _ (.error failure) _) =>
    if succeeded then ledger.erase goal else ledger.set goal (.failed failure)
  | _ => ledger

def status (ledger : Ledger) (goal : Term) : Status :=
  match ledger.get? goal with
  | none => .unstarted
  | some (.inProgress _ _) => .inProgress
  | some (.provisional _ _ _) => .inProgress
  | some (.resolved _) => .resolved
  | some (.failed failure) => .failed failure

def stats (ledger : Ledger) : LedgerStats where
  entries := ledger.entries.length
  resolved := ledger.entries.countP fun e => e.2.isResolved
  failed := ledger.entries.countP fun e => e.2.isFailed
  hits := ledger.hits
  misses := ledger.misses

end Ledger

def LedgerStats.inspect (s : LedgerStats) : String :=
  labelled "CacheStats" [
    ("entries", toString s.entries),
    ("resolved", toString s.resolved),
    ("failed", toString s.failed),
    ("hits", toString s.hits),
    ("misses", toString s.misses)]

def Status.isResolved : Status → Bool
  | .resolved => true
  | _ => false

/-- One word for a status, and for a failure its kind as well. -/
def Status.text : Status → String
  | .unstarted => "unstarted"
  | .inProgress => "in-progress"
  | .resolved => "resolved"
  | .failed failure => "failed " ++ failure.kind

end Clausal
