import Clausal.Frame

namespace Clausal

/-- The head is strictly more specific than the other. -/
def Term.dominates (specific general : Term) : Bool :=
  specific.isInstanceOf general && !general.isInstanceOf specific

/-- The one success whose head is strictly more specific than the heads of all others. -/
def mostSpecific? (successes : List Success) : Option Success :=
  let winners := successes.zipIdx.filter fun s =>
    successes.zipIdx.all fun other => other.2 == s.2 || s.1.rule.head.dominates other.1.rule.head
  match winners with
  | [s] => some s.1
  | _ => none

/-- The first failure of a requirement that comes from the depth bound. -/
def cutShort? (attempted : List Attempt) : Option Failure :=
  (attempted.filterMap Attempt.cause?).find? Failure.isDepthExceeded

/-- The failure of a goal that no candidate proves. It is a cycle when some candidate applies and
each one that does needs a goal strictly before that is done. -/
def unproved (goal : Term) (chain : GoalChain) (attempted : List Attempt) : Failure :=
  let unified := attempted.filter Attempt.unified
  match unified.head?.bind Attempt.cycleGoal? with
  | none => .noRule goal chain attempted
  | some cycleGoal =>
    if unified.all fun a => a.cycleGoal?.isSome then
      .cyclicRule cycleGoal chain (unified.map Attempt.rule)
    else .noRule goal chain attempted

/-- The success that proves the goal, if the policy finds one among several. -/
def Policy.choose? (policy : Policy) (successes : List Success) : Option Success :=
  match policy.tieBreak with
  | .strict => none
  | .mostSpecific => mostSpecific? successes

/-- The proof by a success of this frame. -/
def Frame.proofBy (f : Frame) (s : Success) : Proof where
  id := f.id
  goal := f.goal
  rule := s.rule.id
  name := s.rule.name
  edges := s.edges
  recursive := f.recursive

/-- The outcome of a frame whose candidates have all been tried. Where the depth bound cut a
requirement short, neither a failure nor a choice can be claimed. -/
def Frame.outcome (f : Frame) (policy : Policy) (chain : GoalChain) : Outcome :=
  match cutShort? f.attempted with
  | some failure => .error failure
  | none =>
    match f.successes with
    | [] => .error (unproved f.goal chain f.attempted)
    | [s] => .ok (f.proofBy s)
    | successes =>
      match policy.choose? successes with
      | some s => .ok (f.proofBy s)
      | none => .error (.ambiguous f.goal chain (successes.map fun s => s.rule.name))

end Clausal
