namespace Clausal

/-- A type variable is told apart by its place in the order of creation; its name is only shown. -/
structure Variable where
  index : Nat
  name : String
deriving DecidableEq

/-- Variables are ordered by creation. The name decides only between variables of one index, so
that two variables compare equal exactly when they are equal. -/
def Variable.compare (v w : Variable) : Ordering :=
  (Ord.compare v.index w.index).then (Ord.compare v.name w.name)

/-- Adds `v` to an ascending list of variables, unless it is there. -/
def Variable.insert (v : Variable) : List Variable → List Variable
  | [] => [v]
  | w :: ws =>
    match v.compare w with
    | .lt => v :: w :: ws
    | .eq => w :: ws
    | .gt => w :: v.insert ws

end Clausal
