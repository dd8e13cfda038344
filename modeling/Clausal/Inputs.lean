import Clausal.Failure
import Clausal.Quoted

namespace Clausal

/-- The number of a cell, which holds a value that is built after the cell is given out. -/
abbrev CellId := Nat

/-- The cells given out so far. Each is filled at most once. -/
abbrev Cells (V : Type) := Array (Option V)

namespace Cells

variable {V : Type}

def get? (cells : Cells V) (id : CellId) : Option V :=
  match cells[id]? with
  | some v => v
  | none => none

/-- Adds an empty cell. -/
def reserve (cells : Cells V) : CellId × Cells V :=
  (cells.size, cells.push none)

/-- Fills a cell, unless it is filled. -/
def fill (cells : Cells V) (id : CellId) (v : V) : Cells V :=
  match get? cells id with
  | some _ => cells
  | none => cells.setIfInBounds id (some v)

theorem get?_reserve (cells : Cells V) (id : CellId) :
    get? (reserve cells).2 id = get? cells id := by
  simp only [reserve, get?, Array.getElem?_push]
  by_cases h : id = cells.size
  · simp [h]
  · simp [h]

/-- The value of a filled cell never changes. -/
theorem get?_fill_of_some {cells : Cells V} {id : CellId} {u : V} (h : get? cells id = some u)
    (other : CellId) (v : V) : get? (fill cells other v) id = some u := by
  unfold fill
  split
  · exact h
  next hn =>
    have hne : other ≠ id := by
      intro heq
      simp [heq, h] at hn
    simpa [get?, Array.getElem?_setIfInBounds, hne] using h

end Cells

/-- The value of a goal, for later use: a value that is there, or a cell that is filled once the
value is built. -/
inductive Deferred (V : Type) where
  | known (goal : Term) (value : V)
  | awaiting (goal : Term) (cell : CellId)

namespace Deferred

variable {V : Type}

def goal : Deferred V → Term
  | .known goal _ => goal
  | .awaiting goal _ => goal

def value? (cells : Cells V) : Deferred V → Option V
  | .known _ value => some value
  | .awaiting _ cell => cells.get? cell

def isFulfilled (cells : Cells V) (d : Deferred V) : Bool :=
  (d.value? cells).isSome

def inspect (cells : Cells V) (d : Deferred V) : String :=
  labelled "Deferred" [
    ("goal", quoted d.goal.text),
    ("fulfilled", toString (d.isFulfilled cells))]

end Deferred

/-- A type that values of kind `V` may have: its name, and how such a value is read. -/
structure Shape (V T : Type) where
  name : String
  read : V → Option T

/-- The value, once it is there and if it has the given type. -/
def Deferred.read? {V T : Type} (shape : Shape V T) (cells : Cells V) (d : Deferred V) :
    Option T :=
  (d.value? cells).bind shape.read

/-- What a rule is given for a requirement: its value, or a deferred one where the rule allows. -/
inductive Input (V : Type) where
  | ready (value : V)
  | deferred (d : Deferred V)

def Input.isReady {V : Type} : Input V → Bool
  | .ready _ => true
  | .deferred _ => false

/-- The inputs of one invocation of a rule, in the order of its body, each with its sub-goal. -/
structure Inputs (V : Type) where
  goal : Term
  rule : String
  items : List (Term × Input V)

namespace Inputs

variable {V T : Type}

def isEmpty (inputs : Inputs V) : Bool :=
  inputs.items.isEmpty

def subgoal? (inputs : Inputs V) (i : Nat) : Option Term :=
  inputs.items[i]?.map Prod.fst

def input (inputs : Inputs V) (i : Nat) : Except InvocationError (Input V) :=
  match inputs.items[i]? with
  | some item => .ok item.2
  | none => .error (.missingInput inputs.rule i)

/-- The value of a strict requirement. -/
def value (inputs : Inputs V) (i : Nat) : Except InvocationError V :=
  match inputs.input i with
  | .ok (.ready v) => .ok v
  | .ok (.deferred _) => .error (.notReady inputs.rule i)
  | .error e => .error e

/-- The value of a strict requirement, read as a type. -/
def read (shape : Shape V T) (inputs : Inputs V) (i : Nat) : Except InvocationError T :=
  match inputs.value i with
  | .ok v =>
    match shape.read v with
    | some t => .ok t
    | none => .error (.typeMismatch inputs.rule i shape.name)
  | .error e => .error e

/-- The deferred value of a requirement. The value of a strict one is there. -/
def deferred (inputs : Inputs V) (i : Nat) : Except InvocationError (Deferred V) :=
  match inputs.items[i]? with
  | some (_, .deferred d) => .ok d
  | some (goal, .ready v) => .ok (.known goal v)
  | none => .error (.missingInput inputs.rule i)

end Inputs

end Clausal
