import Clausal.Dependents
import Clausal.Selection

namespace Clausal

/-- What a prover has learnt: the states of goals, and the proofs found. -/
structure Knowledge where
  ledger : Ledger
  table : ProofTable

def Knowledge.empty : Knowledge :=
  ⟨Ledger.empty, ProofTable.empty⟩

/-- A running search: the frame being worked on, and the frames below it, outermost first. -/
structure Search extends Knowledge where
  below : List Frame
  top : Frame

/-- A search after one step: it goes on, or its outermost goal is done. -/
inductive Step where
  | running (s : Search)
  | finished (outcome : Outcome) (known : Knowledge)

/-- The failure of a goal that the depth bound keeps from being searched under `chain`. -/
def Policy.refusal? (policy : Policy) (chain : GoalChain) (goal : Term) : Option Failure :=
  match policy.maxDepth with
  | none => none
  | some limit => if limit ≤ chain.length then some (.depthExceeded goal chain limit) else none

namespace Search

def stack (s : Search) : List Frame :=
  s.below ++ [s.top]

/-- The goals under way, outermost first. -/
def chain (s : Search) : GoalChain :=
  s.stack.map Frame.goal

/-- The depth of the top frame, which is also its index in the stack. -/
def depth (s : Search) : Nat :=
  s.below.length

/-- Starts the search of a goal on a new frame above `below`. -/
def push (catalog : Catalog) (known : Knowledge) (below : List Frame) (goal : Term) : Search :=
  let (id, table) := known.table.reserve
  { ledger := known.ledger.set goal (.inProgress below.length id)
    table := table
    below := below
    top := Frame.start catalog below.length goal id }

/-- Notes a back link to the frame at an index of the stack. -/
def refer (s : Search) (frame : Nat) : Search :=
  if frame < s.below.length then { s with below := s.below.modify frame Frame.refer }
  else { s with top := s.top.refer }

/-- What is known of a requirement's goal, with the lowest stack frame it rests on; none for a goal
that must be searched. A goal under way answers a deferrable requirement by a back link, and
blocks a strict one. -/
def answer? (s : Search) (goal : Term) (deferrable : Bool) :
    Option (Search × Except Blocked Link × Nat) :=
  match s.ledger.get? goal with
  | none => none
  | some (.inProgress frame id) =>
    if deferrable then some (s.refer frame, .ok (.back id), frame)
    else some (s, .error .cycle, frame)
  | some (.provisional low (.ok p) _) =>
    some ({ s with ledger := s.ledger.hit }, .ok (.built p.id), low)
  | some (.provisional low (.error f) _) =>
    some ({ s with ledger := s.ledger.hit }, .error (.failed (f.seenFrom s.chain)), low)
  | some (.resolved p) =>
    some ({ s with ledger := s.ledger.hit }, .ok (.built p.id), s.depth + 1)
  | some (.failed f) =>
    some ({ s with ledger := s.ledger.hit }, .error (.failed (f.seenFrom s.chain)), s.depth + 1)

def receive (s : Search) (goal : Term) (answer : Except Blocked Link) (low : Nat) : Search :=
  { s with top := s.top.receive goal answer low }

/-- Searches an unstarted goal above the top frame, unless that would be too deep. -/
def descend (catalog : Catalog) (policy : Policy) (s : Search) (goal : Term) : Search :=
  let known := { s.toKnowledge with ledger := s.ledger.miss }
  match policy.refusal? s.chain goal with
  | some f => { s with ledger := known.ledger }.receive goal (.error (.failed f)) (s.depth + 1)
  | none => push catalog known s.stack goal

/-- Meets the next requirement of the rule on trial, as far as that is known. -/
def meet (catalog : Catalog) (policy : Policy) (s : Search) (t : Trial) (r : Requirement) :
    Search :=
  match t.subst.apply r.pattern with
  | .error v => { s with top := s.top.giveUp t (.unbound t.rule.name v) }
  | .ok goal =>
    match s.answer? goal r.deferrable with
    | some (s, answer, low) => s.receive goal answer low
    | none => s.descend catalog policy goal

/-- Keeps the outcome of the top frame, which rests on frame `low`, now that the frame is popped.
The outcome is final when it rests on no frame below; if it does, it is parked there with all that
was parked on the popped frame. -/
def keep (s : Search) (outcome : Outcome) : Ledger × List Frame :=
  let goal := s.top.goal
  let own := s.top.parked
  let low := s.top.low
  let state :=
    match outcome with
    | .ok p => GoalState.resolved p
    | .error f => GoalState.failed f
  let ledger :=
    match outcome with
    | .ok _ => s.ledger
    | .error f => s.ledger.spreadFailure f goal own (s.below.flatMap Frame.parked)
  if outcome.isDepthExceeded then (ledger, s.below)
  else if low < s.below.length then
    ((own.foldl (Ledger.restOn low) ledger).set goal
        (.provisional low outcome (s.below.map Frame.goal)),
      s.below.modify low (Frame.park (goal :: own)))
  else (own.foldl (Ledger.confirm outcome.succeeded) (ledger.set goal state), s.below)

/-- Ends the top frame, and hands its outcome to the frame below. -/
def closeTop (policy : Policy) (s : Search) : Step :=
  let outcome := s.top.outcome policy (s.below.map Frame.goal)
  let table :=
    match outcome with
    | .ok p => s.table.record p
    | .error _ => s.table
  let (ledger, below) := s.keep outcome
  match below.getLast? with
  | none => .finished outcome ⟨ledger, table⟩
  | some parent =>
    .running {
      ledger := ledger
      table := table
      below := below.dropLast
      top := parent.receive s.top.goal outcome.asLink s.top.low }

/-- One step of the top frame: it tries its next rule, meets the next requirement of the rule on
trial, or ends. -/
def step (catalog : Catalog) (policy : Policy) (s : Search) : Step :=
  match s.top.trial with
  | some t =>
    match t.next? with
    | some r => .running (s.meet catalog policy t r)
    | none => .running { s with top := s.top.succeed t }
  | none =>
    match s.top.remaining with
    | rule :: rest => .running { s with top := s.top.tryRule s.depth rule rest }
    | [] => s.closeTop policy

/-- Runs a search to its end, if that takes at most `budget` steps. -/
def run (catalog : Catalog) (policy : Policy) : Nat → Search → Option (Outcome × Knowledge)
  | 0, _ => none
  | budget + 1, s =>
    match s.step catalog policy with
    | .finished outcome known => some (outcome, known)
    | .running s => run catalog policy budget s

end Search

/-- Finds the proof of a goal, from what is known or by at most `budget` steps of search. -/
def Knowledge.prove (catalog : Catalog) (policy : Policy) (budget : Nat) (known : Knowledge)
    (goal : Term) : Option (Outcome × Knowledge) :=
  if !goal.isGround then some (.error (.nonGroundGoal goal), known)
  else
    match known.ledger.get? goal with
    | some (.resolved p) => some (.ok p, { known with ledger := known.ledger.hit })
    | some (.failed f) => some (.error (f.seenFrom []), { known with ledger := known.ledger.hit })
    | _ =>
      let known := { known with ledger := known.ledger.miss }
      match policy.refusal? [] goal with
      | some f => some (.error f, known)
      | none => (Search.push catalog known [] goal).run catalog policy budget

end Clausal
