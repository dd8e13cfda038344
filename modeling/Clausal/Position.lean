import Clausal.Term

namespace Clausal

/-- A place in a term: the argument indices that lead to it from the root. -/
abbrev Position := List Nat

def Position.text : Position → String
  | [] => "root"
  | p => "argument " ++ ".".intercalate (p.map toString)

/-- Positions compare from the root on, and one comes before those below it. -/
def Position.compare : Position → Position → Ordering
  | [], [] => .eq
  | [], _ :: _ => .lt
  | _ :: _, [] => .gt
  | i :: p, j :: q =>
    match Ord.compare i j with
    | .eq => Position.compare p q
    | o => o

def Position.sort (ps : List Position) : List Position :=
  ps.mergeSort fun p q => (Position.compare p q).isLE

/-- The sub-term at a position. -/
def Term.at? : Term → Position → Option Term
  | t, [] => some t
  | .var _, _ :: _ => none
  | .app _ ts, i :: p =>
    match ts[i]? with
    | none => none
    | some t => t.at? p

end Clausal
