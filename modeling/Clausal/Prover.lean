import Clausal.Construction
import Clausal.Search

namespace Clausal

/-- A prover over a fixed catalog: what it has learnt, and the first value built for each proof. -/
structure Prover (V : Type) where
  catalog : Catalog
  policy : Policy
  known : Knowledge
  values : List (ProofId × V)

namespace Prover

variable {V S T : Type}

def start (catalog : Catalog) (policy : Policy) : Prover V :=
  ⟨catalog, policy, Knowledge.empty, []⟩

/-- A new prover over the same catalog. It has learnt nothing about goals, but numbers its proofs
on from the old ones, so that plans of both can be told apart. -/
def renew (s : Prover V) (policy : Policy) : Prover V :=
  { s with policy := policy, known := { s.known with ledger := Ledger.empty } }

/-- Forgets every outcome. -/
def reset (s : Prover V) : Prover V :=
  s.renew s.policy

/-- Finds the proof of a goal by at most `budget` steps of search, and gives it as a plan. -/
def compile (s : Prover V) (budget : Nat) (goal : Term) :
    Option (Except Failure Plan × Prover V) :=
  match s.known.prove s.catalog s.policy budget goal with
  | none => none
  | some (.ok p, known) => some (.ok ⟨known.table, p⟩, { s with known := known })
  | some (.error f, known) => some (.error f, { s with known := known })

/-- The value of a goal. The first value built for a proof is kept, and given from then on without
running any handle. -/
def resolve (s : Prover V) (handles : RuleId → Handle V S) (budget : Nat) (goal : Term)
    (w : Workshop V S) : Option (Except Failure V × Prover V × Workshop V S) :=
  match s.compile budget goal with
  | none => none
  | some (.error f, s) => some (.error f, s, w)
  | some (.ok plan, s) =>
    match s.values.lookup plan.proof.id with
    | some v => some (.ok v, s, w)
    | none =>
      match plan.invoke handles w with
      | none => none
      | some (.error f, w) => some (.error f, s, w)
      | some (.ok v, w) =>
        some (.ok v, { s with values := (plan.proof.id, v) :: s.values }, w)

/-- The value of a goal, read as a type. -/
def resolveAs (s : Prover V) (shape : Shape V T) (handles : RuleId → Handle V S) (budget : Nat)
    (goal : Term) (w : Workshop V S) : Option (Except Failure T × Prover V × Workshop V S) :=
  match s.resolve handles budget goal w with
  | none => none
  | some (.error f, s, w) => some (.error f, s, w)
  | some (.ok v, s, w) => some (readAs shape goal v, s, w)

def status (s : Prover V) (goal : Term) : Status :=
  s.known.ledger.status goal

def stats (s : Prover V) : LedgerStats :=
  s.known.ledger.stats

/-- A prover's size, policy and counters. -/
def inspect (s : Prover V) : String :=
  labelled "Resolver" [
    ("rules", toString s.catalog.size),
    ("config", s.policy.inspect),
    ("stats", s.stats.inspect)]

end Prover

end Clausal
