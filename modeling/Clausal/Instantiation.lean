import Clausal.Term

namespace Clausal

/-- An assignment of terms to finitely many variables, kept in the order of the variables. -/
structure Substitution where
  bindings : List (Variable × Term)
deriving DecidableEq

namespace Substitution

def empty : Substitution :=
  ⟨[]⟩

def get? (s : Substitution) (v : Variable) : Option Term :=
  s.bindings.lookup v

def size (s : Substitution) : Nat :=
  s.bindings.length

/-- Every variable of `vs` has a binding. -/
def isTotalOver (s : Substitution) (vs : List Variable) : Bool :=
  vs.all fun v => (s.get? v).isSome

/-- Places a new binding at its variable's place in the order. -/
def place (v : Variable) (t : Term) : List (Variable × Term) → List (Variable × Term)
  | [] => [(v, t)]
  | b :: bs => if v.compare b.1 = .lt then (v, t) :: b :: bs else b :: place v t bs

def insert (s : Substitution) (v : Variable) (t : Term) : Substitution :=
  ⟨place v t s.bindings⟩

mutual
/-- Replaces every variable by its binding, and keeps an application without variables as it is. The
error is the first variable that has no binding. -/
def apply (s : Substitution) : Term → Except Variable Term
  | .var v =>
    match s.get? v with
    | some t => .ok t
    | none => .error v
  | .app c ts =>
    if Term.allGround ts then .ok (.app c ts)
    else
      match s.applyList ts with
      | .ok us => .ok (.app c us)
      | .error v => .error v

def applyList (s : Substitution) : List Term → Except Variable (List Term)
  | [] => .ok []
  | t :: ts =>
    match s.apply t with
    | .error v => .error v
    | .ok u =>
      match s.applyList ts with
      | .ok us => .ok (u :: us)
      | .error v => .error v
end

def bindingText (b : Variable × Term) : String :=
  b.1.name ++ " := " ++ b.2.text

/-- The written form of a substitution, with its bindings in the order of the variables. -/
def text (s : Substitution) : String :=
  "\x7b" ++ ", ".intercalate (s.bindings.map bindingText) ++ "\x7d"

end Substitution

/-- What is said of a variable that a substitution does not bind. -/
def Variable.unboundMessage (v : Variable) : String :=
  s!"type variable `{v.name}` is not bound"

end Clausal
