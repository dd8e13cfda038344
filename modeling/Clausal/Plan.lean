import Clausal.Proof
import Clausal.Quoted

namespace Clausal

/-- A proof together with the proofs that its links lead to. -/
structure Plan where
  table : ProofTable
  proof : Proof

namespace Plan

/-- Both come from the same search. -/
def same (a b : Plan) : Bool :=
  a.proof.id == b.proof.id

def explainLine (level : Nat) (deferrable : Bool) (goal : Term) (reason : String) : String :=
  "".pushn ' ' (2 * level) ++ (if deferrable then "~" else "") ++ goal.text ++ " <= " ++ reason
    ++ "\n"

/-- The lines of a proof whose built links nest at most `budget` deep. -/
def explainProof (table : ProofTable) : Nat → Nat → Bool → Proof → String
  | 0, _, _, _ => ""
  | budget + 1, level, deferrable, p =>
    explainLine level deferrable p.goal p.name
      ++ String.join (p.edges.map fun e =>
        match e.link with
        | .built id =>
          match table.get? id with
          | some q => explainProof table budget (level + 1) e.deferrable q
          | none => ""
        | .back _ => explainLine (level + 1) true e.goal "(back reference)")

/-- The proof tree, one goal to a line with deferrable requirements marked by `~`. Built links
lead to proofs found earlier, so the table's size bounds their nesting. -/
def explain (plan : Plan) : String :=
  explainProof plan.table (plan.table.size + 1) 0 false plan.proof

def inspect (plan : Plan) : String :=
  labelled "Factory" [("goal", quoted plan.proof.goal.text), ("rule", quoted plan.proof.name)]

end Plan

end Clausal
