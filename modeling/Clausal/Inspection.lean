import Clausal.Quoted
import Clausal.HornRule

namespace Clausal

mutual
/-- A term with every layer spelled out. -/
def Term.inspect : Term → String
  | .var v =>
    "Var(" ++ labelled "TypeVar" [("sequence", toString v.index), ("name", quoted v.name)] ++ ")"
  | .app c ts =>
    "App(Constructor(" ++ quoted c ++ "), " ++ bracketed (Term.inspectList ts) ++ ")"

def Term.inspectList : List Term → List String
  | [] => []
  | t :: ts => t.inspect :: Term.inspectList ts
end

def Requirement.inspect (r : Requirement) : String :=
  labelled "Requirement" [("pattern", r.pattern.inspect), ("deferrable", toString r.deferrable)]

/-- A rule with every layer spelled out. -/
def Rule.inspect (r : Rule) : String :=
  labelled "Rule" [
    ("id", "RuleId(" ++ toString r.id ++ ")"),
    ("name", quoted r.name),
    ("head", r.head.inspect),
    ("body", bracketed (r.body.map Requirement.inspect))]

end Clausal
