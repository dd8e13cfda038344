import Clausal.Relocation
import Clausal.Selection
import Clausal.Proofs.Moves

namespace Clausal

mutual

/-- A failure without the goal chains that it carries, at whatever level. -/
def Failure.unchained : Failure → Failure
  | .noRule goal _ attempted => .noRule goal [] (Failure.unchainedAttempts attempted)
  | .ambiguous goal _ candidates => .ambiguous goal [] candidates
  | .cyclicRule goal _ rules => .cyclicRule goal [] rules
  | .depthExceeded goal _ limit => .depthExceeded goal [] limit
  | .nonGroundGoal goal => .nonGroundGoal goal
  | .invocation goal rule source => .invocation goal rule source
  | .valueType goal expected => .valueType goal expected

def Failure.unchainedAttempts : List Attempt → List Attempt
  | [] => []
  | a :: rest => a.unchained :: Failure.unchainedAttempts rest

def Attempt.unchained : Attempt → Attempt
  | .mismatch rule reason => .mismatch rule reason
  | .unbound rule v => .unbound rule v
  | .cycle rule requirement goal => .cycle rule requirement goal
  | .subgoal rule requirement goal cause => .subgoal rule requirement goal cause.unchained

end

theorem Failure.unchainedAttempts_eq (attempted : List Attempt) :
    Failure.unchainedAttempts attempted = attempted.map Attempt.unchained := by
  induction attempted with
  | nil => rfl
  | cons a rest ih => simp [unchainedAttempts, ih]

mutual

theorem Failure.unchained_relocateFrom (old new : GoalChain) (depth : Nat) :
    (f : Failure) → (f.relocateFrom old new depth).unchained = f.unchained
  | .noRule goal chain attempted => by
    simp only [Failure.relocateFrom, Failure.unchained,
      Failure.unchained_relocateAttempts old new depth attempted]
  | .ambiguous _ _ _ => rfl
  | .cyclicRule _ _ _ => rfl
  | .depthExceeded _ _ _ => rfl
  | .nonGroundGoal _ => rfl
  | .invocation _ _ _ => rfl
  | .valueType _ _ => rfl

theorem Failure.unchained_relocateAttempts (old new : GoalChain) (depth : Nat) :
    (attempted : List Attempt) →
      Failure.unchainedAttempts (Failure.relocateAttempts old new depth attempted) =
        Failure.unchainedAttempts attempted
  | [] => rfl
  | a :: rest => by
    simp only [Failure.relocateAttempts, Failure.unchainedAttempts,
      Attempt.unchained_relocateCause old new depth a, Failure.unchained_relocateAttempts old new depth rest]

theorem Attempt.unchained_relocateCause (old new : GoalChain) (depth : Nat) :
    (a : Attempt) → (a.relocateCause old new depth).unchained = a.unchained
  | .mismatch _ _ => rfl
  | .unbound _ _ => rfl
  | .cycle _ _ _ => rfl
  | .subgoal rule requirement goal cause => by
    cases depth with
    | zero => rfl
    | succ depth =>
      simp only [Attempt.relocateCause, Attempt.unchained,
        Failure.unchained_relocateFrom old new depth cause]

end

/-- A failure looks the same from everywhere, but for its chains. -/
theorem Failure.Shows.unchained {f cause : Failure} (h : f.Shows cause) :
    cause.unchained = f.unchained := by
  rcases h with rfl | ⟨chain, rfl⟩
  · rfl
  · unfold seenFrom
    split
    · rfl
    · split
      · rfl
      · exact Failure.unchained_relocateFrom _ _ _ f

theorem Failure.kind_unchained (f : Failure) : f.unchained.kind = f.kind := by
  cases f <;> rfl

theorem Failure.candidates_unchained (f : Failure) : f.unchained.candidates = f.candidates := by
  cases f <;> rfl

theorem Attempt.cycleGoal?_unchained (a : Attempt) : a.unchained.cycleGoal? = a.cycleGoal? := by
  cases a with
  | subgoal rule requirement goal cause => cases cause <;> rfl
  | _ => rfl

/-- Where no attempt needs a goal that is not done, the failure is that no rule proves the goal. -/
theorem unproved_eq_noRule {goal : Term} {chain : GoalChain} {attempted : List Attempt}
    (h : ∀ a ∈ attempted, a.cycleGoal? = none) :
    unproved goal chain attempted = .noRule goal chain attempted := by
  unfold unproved
  dsimp only
  cases hu : (attempted.filter Attempt.unified).head? with
  | none => rfl
  | some a =>
    have hm : a ∈ attempted := (List.mem_filter.mp (List.mem_of_head? hu)).1
    simp [h a hm]

end Clausal
