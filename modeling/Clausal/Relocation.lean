import Clausal.Failure

namespace Clausal

/-- How many levels of nested causes reports show, and new chains reach. -/
def causeDepth : Nat := 16

/-- Puts the chain `new` in place of a leading `old`. -/
def GoalChain.relocate (old new chain : GoalChain) : GoalChain :=
  if old.isPrefixOf chain then new ++ chain.drop old.length else chain

mutual
/-- Relocates every chain of a failure, down to `depth` levels of causes. -/
def Failure.relocateFrom (old new : GoalChain) (depth : Nat) : Failure → Failure
  | .noRule goal chain attempted =>
    .noRule goal (GoalChain.relocate old new chain)
      (Failure.relocateAttempts old new depth attempted)
  | .ambiguous goal chain candidates =>
    .ambiguous goal (GoalChain.relocate old new chain) candidates
  | .cyclicRule goal chain rules => .cyclicRule goal (GoalChain.relocate old new chain) rules
  | .depthExceeded goal chain limit =>
    .depthExceeded goal (GoalChain.relocate old new chain) limit
  | .nonGroundGoal goal => .nonGroundGoal goal
  | .invocation goal rule source => .invocation goal rule source
  | .valueType goal expected => .valueType goal expected

def Failure.relocateAttempts (old new : GoalChain) (depth : Nat) : List Attempt → List Attempt
  | [] => []
  | a :: rest =>
    Attempt.relocateCause old new depth a :: Failure.relocateAttempts old new depth rest

def Attempt.relocateCause (old new : GoalChain) (depth : Nat) : Attempt → Attempt
  | .mismatch rule reason => .mismatch rule reason
  | .unbound rule v => .unbound rule v
  | .cycle rule requirement goal => .cycle rule requirement goal
  | .subgoal rule requirement goal cause =>
    match depth with
    | 0 => .subgoal rule requirement goal cause
    | depth + 1 => .subgoal rule requirement goal (cause.relocateFrom old new depth)
end

/-- A failure as seen from a goal reached through `chain`. -/
def Failure.seenFrom (f : Failure) (chain : GoalChain) : Failure :=
  match f.chain? with
  | none => f
  | some old => if old = chain then f else f.relocateFrom old chain causeDepth

end Clausal
