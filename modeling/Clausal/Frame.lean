import Clausal.Ledger
import Clausal.Catalog
import Clausal.Policy

namespace Clausal

/-- A rule on trial: its head matches the frame's goal, and its requirements are being met from
left to right. The next requirement is the one at `edges.length`. -/
structure Trial where
  rule : Rule
  subst : Substitution
  edges : List Edge
  low : Nat

/-- A rule of which every requirement is met. -/
structure Success where
  rule : Rule
  edges : List Edge

/-- The search for one goal. All candidate rules are tried, also after a success. `low` is the
lowest stack frame that a finished trial rests on. `parked` holds the goals whose outcome rests on
this frame, and `recursive` notes whether some requirement links back to it. -/
structure Frame where
  goal : Term
  id : ProofId
  recursive : Bool
  parked : List Term
  remaining : List Rule
  low : Nat
  trial : Option Trial
  successes : List Success
  attempted : List Attempt

/-- Why a requirement is not met: its goal failed, or is still under way and needed strictly. -/
inductive Blocked where
  | cycle
  | failed (failure : Failure)

/-- A finished search as a requirement sees it. -/
def Outcome.asLink : Outcome → Except Blocked Link
  | .ok p => .ok (.built p.id)
  | .error f => .error (.failed f)

/-- The requirement to meet next. -/
def Trial.next? (t : Trial) : Option Requirement :=
  t.rule.body[t.edges.length]?

namespace Frame

/-- The frame of a goal whose search begins at the given depth. -/
def start (catalog : Catalog) (depth : Nat) (goal : Term) (id : ProofId) : Frame where
  goal := goal
  id := id
  recursive := false
  parked := []
  remaining := catalog.candidates goal
  low := depth
  trial := none
  successes := []
  attempted := []

/-- Matches the next candidate against the goal, on a frame at the given depth. -/
def tryRule (f : Frame) (depth : Nat) (rule : Rule) (rest : List Rule) : Frame :=
  match unify f.goal rule.head with
  | .ok subst => { f with remaining := rest, trial := some ⟨rule, subst, [], depth⟩ }
  | .error reason =>
    { f with remaining := rest, attempted := f.attempted ++ [.mismatch rule.name reason] }

/-- Ends a trial whose requirements are all met. -/
def succeed (f : Frame) (t : Trial) : Frame :=
  { f with
    trial := none
    low := min f.low t.low
    successes := f.successes ++ [⟨t.rule, t.edges⟩] }

/-- Ends a trial without success. -/
def giveUp (f : Frame) (t : Trial) (attempt : Attempt) : Frame :=
  { f with
    trial := none
    low := min f.low t.low
    attempted := f.attempted ++ [attempt] }

/-- Hands the answer for the next requirement to the rule on trial. The answer rests on stack frame
`low`. -/
def receive (f : Frame) (subgoal : Term) (answer : Except Blocked Link) (low : Nat) : Frame :=
  match f.trial with
  | none => f
  | some trial =>
    let t := { trial with low := min trial.low low }
    match answer with
    | .ok link =>
      let deferrable := t.next?.elim false Requirement.deferrable
      { f with trial := some { t with edges := t.edges ++ [⟨subgoal, link, deferrable⟩] } }
    | .error .cycle => f.giveUp t (.cycle t.rule.name t.edges.length subgoal)
    | .error (.failed cause) => f.giveUp t (.subgoal t.rule.name t.edges.length subgoal cause)

/-- Notes that a deferrable requirement links back to the frame's goal. -/
def refer (f : Frame) : Frame :=
  { f with recursive := true }

/-- Leaves goals for this frame to confirm. -/
def park (goals : List Term) (f : Frame) : Frame :=
  { f with parked := f.parked ++ goals }

end Frame

end Clausal
