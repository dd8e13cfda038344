import Clausal.Term

namespace Clausal

mutual
/-- Variables come before applications. Applications compare by the constructor and then by the
arguments, of which a shorter list comes before its extensions. -/
def Term.compare : Term → Term → Ordering
  | .var v, .var w => v.compare w
  | .var _, .app _ _ => .lt
  | .app _ _, .var _ => .gt
  | .app c ss, .app d ts =>
    match Ord.compare c d with
    | .eq => Term.compareList ss ts
    | o => o

def Term.compareList : List Term → List Term → Ordering
  | [], [] => .eq
  | [], _ :: _ => .lt
  | _ :: _, [] => .gt
  | s :: ss, t :: ts =>
    match s.compare t with
    | .eq => Term.compareList ss ts
    | o => o
end

/-- The terms in ascending order; equal terms keep their number. -/
def Term.sort (ts : List Term) : List Term :=
  ts.mergeSort fun s t => (s.compare t).isLE

end Clausal
