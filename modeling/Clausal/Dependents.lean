import Clausal.Ledger

namespace Clausal

/-- The spread of a failure through the goals parked on the stack. -/
structure Spread where
  ledger : Ledger
  failing : List Term
  changed : Bool

namespace Spread

/-- The failure of a parked success for which a requirement turned out to fail. -/
def convert (failure : Failure) (goal : Term) (chain : GoalChain) (p : Proof)
    (requirement : Nat) (subgoal : Term) : Failure :=
  .noRule goal chain [.subgoal p.name requirement subgoal failure]

/-- Fails a parked success that leads into a failing goal. -/
def visit (failure : Failure) (s : Spread) (goal : Term) : Spread :=
  if s.failing.contains goal then s
  else
    match s.ledger.get? goal with
    | some (.provisional low (.ok p) chain) =>
      match p.firstInto? s.failing with
      | none => s
      | some (requirement, subgoal) =>
        let converted := convert failure goal chain p requirement subgoal
        { ledger := s.ledger.set goal (.provisional low (.error converted) chain)
          failing := goal :: s.failing
          changed := true }
    | _ => s

def sweep (failure : Failure) (parked : List Term) (s : Spread) : Spread :=
  parked.foldl (visit failure) { s with changed := false }

/-- Sweeps until nothing changes, at most `budget` times. Each sweep but the last fails a parked
goal, so one more than their number is enough. -/
def close (failure : Failure) (parked : List Term) : Nat → Spread → Spread
  | 0, s => s
  | budget + 1, s =>
    let swept := sweep failure parked s
    if swept.changed then close failure parked budget swept else swept

end Spread

def Ledger.isProvisionalFailure (ledger : Ledger) (goal : Term) : Bool :=
  match ledger.get? goal with
  | some (.provisional _ (.error _) _) => true
  | _ => false

/-- Fails every parked success that leads to the failed `goal`, by itself or through other such
successes. `own` are the goals parked on the goal's frame and `lower` those parked below it.
A depth-bound failure says nothing about the goals it runs through, so their entries are dropped,
together with all that is parked on the goal's frame. -/
def Ledger.spreadFailure (ledger : Ledger) (failure : Failure) (goal : Term)
    (own lower : List Term) : Ledger :=
  let parked := own ++ lower
  let cut := failure.isDepthExceeded
  let failing :=
    goal :: (if cut then own else []) ++ parked.filter ledger.isProvisionalFailure
  let spread := Spread.close failure parked (parked.length + 1) ⟨ledger, failing, false⟩
  if cut then spread.failing.foldl Ledger.erase spread.ledger else spread.ledger

end Clausal
