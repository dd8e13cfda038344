import Clausal.Inputs
import Clausal.Plan

namespace Clausal

/-- How a rule builds a value: from its inputs, the cells filled so far, and the caller's state. -/
abbrev Handle (V S : Type) := Inputs V → Cells V → S → Except InvocationError V × S

/-- What constructions change: the cells, and the caller's state. -/
structure Workshop (V S : Type) where
  cells : Cells V
  caller : S

/-- A construction either fails or gives a result, and leaves a workshop behind. -/
abbrev Built (V S α : Type) := Except Failure α × Workshop V S

/-- The cells of the recursive proofs under construction, innermost first. -/
abbrev Opened := List (ProofId × CellId)

namespace Workshop

variable {V S : Type}

/-- Adds an empty cell for a recursive proof. -/
def openCell (w : Workshop V S) (p : Proof) : Option CellId × Workshop V S :=
  if p.recursive then
    let (cell, cells) := w.cells.reserve
    (some cell, { w with cells := cells })
  else (none, w)

/-- Fills the cell of a recursive proof with the proof's value. -/
def fillCell (w : Workshop V S) (cell : Option CellId) (v : V) : Workshop V S :=
  match cell with
  | some id => { w with cells := w.cells.fill id v }
  | none => w

end Workshop

namespace Proof

variable {V S : Type}

/-- The failure of a proof whose handle gave no value. -/
def invocationFailure (p : Proof) (source : InvocationError) : Failure :=
  .invocation p.goal p.name source

/-- The input for an edge whose sub-proofs are built by `build`. A built link is built each time it
occurs. A back link gives the cell of a proof under construction, and otherwise a value built for
it. -/
def input (build : Proof → Workshop V S → Option (Built V S V)) (table : ProofTable)
    (opened : Opened) (p : Proof) (index : Nat) (e : Edge) (w : Workshop V S) :
    Option (Built V S (Input V)) :=
  match e.link with
  | .built id =>
    match table.get? id with
    | none => none
    | some sub =>
      match build sub w with
      | none => none
      | some (.error f, w) => some (.error f, w)
      | some (.ok v, w) =>
        some (.ok (if e.deferrable then .deferred (.known e.goal v) else .ready v), w)
  | .back id =>
    match table.get? id with
    | none => some (.error (p.invocationFailure (.notReady p.name index)), w)
    | some target =>
      match opened.lookup target.id with
      | some cell => some (.ok (.deferred (.awaiting target.goal cell)), w)
      | none =>
        match build target w with
        | none => none
        | some (.error f, w) => some (.error f, w)
        | some (.ok v, w) => some (.ok (.deferred (.known e.goal v)), w)

/-- The inputs for edges from left to right, the first of which has the given index. -/
def inputs (input : Nat → Edge → Workshop V S → Option (Built V S (Input V))) :
    Nat → List Edge → Workshop V S → Option (Built V S (List (Term × Input V)))
  | _, [], w => some (.ok [], w)
  | index, e :: es, w =>
    match input index e w with
    | none => none
    | some (.error f, w) => some (.error f, w)
    | some (.ok i, w) =>
      match inputs input (index + 1) es w with
      | none => none
      | some (.error f, w) => some (.error f, w)
      | some (.ok is, w) => some (.ok ((e.goal, i) :: is), w)

/-- Builds the value of a proof by the handles of its rules, if constructions nest at most `budget`
deep and no built link is missing from the table. A recursive proof has its cell open while its
inputs and its value are built. -/
def build (handles : RuleId → Handle V S) (table : ProofTable) :
    Nat → Opened → Proof → Workshop V S → Option (Built V S V)
  | 0, _, _, _ => none
  | budget + 1, opened, p, w =>
    let (cell, w) := w.openCell p
    let opened := (cell.toList.map fun id => (p.id, id)) ++ opened
    match inputs (input (build handles table budget opened) table opened p) 0 p.edges w with
    | none => none
    | some (.error f, w) => some (.error f, w)
    | some (.ok items, w) =>
      match handles p.rule ⟨p.goal, p.name, items⟩ w.cells w.caller with
      | (.ok v, caller) => some (.ok v, { w with caller := caller }.fillCell cell v)
      | (.error source, caller) =>
        some (.error (p.invocationFailure source), { w with caller := caller })

end Proof

namespace Plan

variable {V S T : Type}

/-- A bound on how deep constructions nest. Between two proofs that are opened for a back link,
built links lead to ever earlier proofs, and no proof is opened for a back link while it is open. -/
def nesting (plan : Plan) : Nat :=
  (plan.table.size + 1) * (plan.table.size + 1)

/-- Builds a fresh value of the plan's goal. -/
def invoke (plan : Plan) (handles : RuleId → Handle V S) (w : Workshop V S) :
    Option (Built V S V) :=
  plan.proof.build handles plan.table plan.nesting [] w

end Plan

/-- Reads a value of `goal` as a type. -/
def readAs {V T : Type} (shape : Shape V T) (goal : Term) (v : V) : Except Failure T :=
  match shape.read v with
  | some t => .ok t
  | none => .error (.valueType goal shape.name)

/-- Builds a fresh value, and reads it as a type. -/
def Plan.invokeAs {V S T : Type} (plan : Plan) (shape : Shape V T)
    (handles : RuleId → Handle V S) (w : Workshop V S) : Option (Built V S T) :=
  match plan.invoke handles w with
  | none => none
  | some (.error e, w) => some (.error e, w)
  | some (.ok v, w) => some (readAs shape plan.proof.goal v, w)

end Clausal
