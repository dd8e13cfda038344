import Clausal.Matching

namespace Clausal

/-- Why a rule's handle gave no value. -/
inductive InvocationError where
  | missingInput (rule : String) (index : Nat)
  | notReady (rule : String) (index : Nat)
  | typeMismatch (rule : String) (index : Nat) (expected : String)
  | custom (message : String)
deriving DecidableEq

def InvocationError.message : InvocationError → String
  | .missingInput rule index => s!"rule `{rule}` has no input at position {index}"
  | .notReady rule index => s!"input {index} of rule `{rule}` is deferred, not ready"
  | .typeMismatch rule index expected =>
    s!"input {index} of rule `{rule}` is not a `{expected}`"
  | .custom message => message

/-- The goals under way when something happens, outermost first. -/
abbrev GoalChain := List Term

def GoalChain.text (chain : GoalChain) : String :=
  " -> ".intercalate (chain.map Term.text)

mutual
/-- Why a goal has no value. What arises during a search carries the chain of goals above it. -/
inductive Failure where
  | noRule (goal : Term) (chain : GoalChain) (attempted : List Attempt)
  | ambiguous (goal : Term) (chain : GoalChain) (candidates : List String)
  | cyclicRule (goal : Term) (chain : GoalChain) (rules : List String)
  | depthExceeded (goal : Term) (chain : GoalChain) (limit : Nat)
  | nonGroundGoal (goal : Term)
  | invocation (goal : Term) (rule : String) (source : InvocationError)
  | valueType (goal : Term) (expected : String)

/-- How far a candidate rule got. Requirements are told by their place in the rule's body. -/
inductive Attempt where
  | mismatch (rule : String) (reason : Mismatch)
  | unbound (rule : String) (v : Variable)
  | cycle (rule : String) (requirement : Nat) (goal : Term)
  | subgoal (rule : String) (requirement : Nat) (goal : Term) (cause : Failure)
end

namespace Failure

def goal : Failure → Term
  | .noRule goal _ _ => goal
  | .ambiguous goal _ _ => goal
  | .cyclicRule goal _ _ => goal
  | .depthExceeded goal _ _ => goal
  | .nonGroundGoal goal => goal
  | .invocation goal _ _ => goal
  | .valueType goal _ => goal

/-- The goals above the failing one, for failures of a search. -/
def chain? : Failure → Option GoalChain
  | .noRule _ chain _ => some chain
  | .ambiguous _ chain _ => some chain
  | .cyclicRule _ chain _ => some chain
  | .depthExceeded _ chain _ => some chain
  | .nonGroundGoal _ => none
  | .invocation _ _ _ => none
  | .valueType _ _ => none

/-- The attempts that a failure lists. -/
def attempts : Failure → List Attempt
  | .noRule _ _ attempted => attempted
  | _ => []

/-- The rules that a failure names: those that each gave a proof, or those on a cycle. -/
def candidates : Failure → List String
  | .ambiguous _ _ candidates => candidates
  | .cyclicRule _ _ rules => rules
  | _ => []

def kind : Failure → String
  | .noRule _ _ _ => "no-rule"
  | .ambiguous _ _ _ => "ambiguous"
  | .cyclicRule _ _ _ => "cyclic-rule"
  | .depthExceeded _ _ _ => "depth-exceeded"
  | .nonGroundGoal _ => "non-ground-goal"
  | .invocation _ _ _ => "invocation"
  | .valueType _ _ => "value-type"

def message : Failure → String
  | .noRule goal _ _ => s!"no rule resolves `{goal.text}`"
  | .ambiguous goal _ candidates =>
    s!"`{goal.text}` is ambiguous: {candidates.length} rules each produce a proof"
  | .cyclicRule goal _ rules =>
    s!"`{goal.text}` requires its own completed value (via " ++ ", ".intercalate rules ++ ")"
  | .depthExceeded goal _ limit =>
    s!"resolving `{goal.text}` exceeded the depth limit of {limit}"
  | .nonGroundGoal goal => s!"goal `{goal.text}` is not a ground type"
  | .invocation goal rule source =>
    s!"rule `{rule}` failed to build `{goal.text}`: {source.message}"
  | .valueType goal expected =>
    s!"`{goal.text}` resolved to a value that is not a `{expected}`"

def isDepthExceeded : Failure → Bool
  | .depthExceeded _ _ _ => true
  | _ => false

end Failure

namespace Attempt

def rule : Attempt → String
  | .mismatch rule _ => rule
  | .unbound rule _ => rule
  | .cycle rule _ _ => rule
  | .subgoal rule _ _ _ => rule

/-- The head matched the goal, so the rule applies to it. -/
def unified : Attempt → Bool
  | .mismatch _ _ => false
  | _ => true

/-- The failure of the requirement that ended the attempt. -/
def cause? : Attempt → Option Failure
  | .subgoal _ _ _ cause => some cause
  | _ => none

/-- The goal that is needed before it is done, if that ended the attempt, here or further down. -/
def cycleGoal? : Attempt → Option Term
  | .cycle _ _ goal => some goal
  | .subgoal _ _ _ (.cyclicRule goal _ _) => some goal
  | _ => none

def message : Attempt → String
  | .mismatch _ reason => "head does not match: " ++ reason.message
  | .unbound _ v => v.unboundMessage
  | .cycle _ requirement goal =>
    s!"requirement {requirement} needs `{goal.text}` strictly, which is still being resolved"
  | .subgoal _ requirement goal cause =>
    s!"requirement {requirement} (`{goal.text}`): {cause.message}"

end Attempt

end Clausal
