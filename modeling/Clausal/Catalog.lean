import Clausal.HornRule
import Clausal.Matching

namespace Clausal

/-- What is wrong with a rule. -/
inductive Malformation where
  | emptyName
  | variableHead (v : Variable)
  | emptyConstructor
  | unboundBodyVariable (v : Variable)
  | arityConflict (ctor : String) (expected found : Nat)
  | duplicate
deriving DecidableEq

def Malformation.message : Malformation → String
  | .emptyName => "rule name is empty"
  | .variableHead v => s!"head is the bare type variable `{v.name}`"
  | .emptyConstructor => "a constructor name is empty"
  | .unboundBodyVariable v => s!"body variable `{v.name}` does not occur in the head"
  | .arityConflict ctor expected found =>
    s!"`{ctor}` is used with {found} argument(s), but elsewhere with {expected}"
  | .duplicate => "a rule with the same qualified name is already registered"

/-- The first malformed rule of a catalog, by its qualified name. -/
structure CatalogError where
  rule : String
  reason : Malformation
deriving DecidableEq

def CatalogError.message (e : CatalogError) : String :=
  s!"malformed rule `{e.rule}`: {e.reason.message}"

/-- The number of arguments of each constructor, as first seen. -/
abbrev Arities := List (String × Nat)

/-- Records one application. -/
def Arities.note (arities : Arities) (ctor : String) (arity : Nat) :
    Except Malformation Arities :=
  if ctor = "" then .error .emptyConstructor
  else
    match arities.lookup ctor with
    | none => .ok (arities ++ [(ctor, arity)])
    | some expected =>
      if expected = arity then .ok arities else .error (.arityConflict ctor expected arity)

def Arities.noteAll (arities : Arities) : List (String × Nat) → Except Malformation Arities
  | [] => .ok arities
  | (ctor, arity) :: rest =>
    match arities.note ctor arity with
    | .ok arities => Arities.noteAll arities rest
    | .error reason => .error reason

/-- The applications of a clause in reading order, the head before the body. -/
def Clause.applications (c : Clause) : List (String × Nat) :=
  c.head.applications ++ c.body.flatMap fun r => r.pattern.applications

/-- The variables of the body, ascending and each of them once. -/
def Clause.bodyVars (c : Clause) : List Variable :=
  (c.body.flatMap fun r => r.pattern.occurrences).foldl (fun vs v => v.insert vs) []

/-- The first body variable, in the order of the variables, that the head does not have. -/
def Clause.unboundVar? (c : Clause) : Option Variable :=
  c.bodyVars.find? fun v => !c.head.vars.contains v

/-- Checks a clause by itself and against the arities seen before it, and gives its head
constructor and the arities seen after it. -/
def Clause.check (c : Clause) (arities : Arities) : Except Malformation (String × Arities) :=
  if c.name = "" then .error .emptyName
  else
    match c.head with
    | .var v => .error (.variableHead v)
    | .app ctor _ =>
      match c.unboundVar? with
      | some v => .error (.unboundBodyVariable v)
      | none =>
        match arities.noteAll c.applications with
        | .ok arities => .ok (ctor, arities)
        | .error reason => .error reason

/-- The rules of each head constructor, in the order of registration. -/
abbrev HeadIndex := List (String × List RuleId)

def HeadIndex.find (index : HeadIndex) (ctor : String) : List RuleId :=
  (index.lookup ctor).getD []

def HeadIndex.add (ctor : String) (id : RuleId) : HeadIndex → HeadIndex
  | [] => [(ctor, [id])]
  | (c, ids) :: rest =>
    if c = ctor then (c, ids ++ [id]) :: rest else (c, ids) :: HeadIndex.add ctor id rest

/-- The checked rules of a program, with an index by head constructor. -/
structure Catalog where
  rules : List Rule
  index : HeadIndex
  arities : Arities
deriving DecidableEq

namespace Catalog

def empty : Catalog :=
  ⟨[], [], []⟩

/-- Checks one more clause and registers it under the next number. Whether the numbers go that far
is for `registerAll?` to ask. -/
def register (catalog : Catalog) (provider : String) (c : Clause) :
    Except CatalogError Catalog :=
  let name := qualifiedName provider c.name
  match c.check catalog.arities with
  | .error reason => .error ⟨name, reason⟩
  | .ok (ctor, arities) =>
    if catalog.rules.any (fun r => r.name = name) then .error ⟨name, .duplicate⟩
    else
      let id := catalog.rules.length
      .ok ⟨catalog.rules ++ [c.toRule id provider], catalog.index.add ctor id, arities⟩

def registerAll (catalog : Catalog) : List (String × Clause) → Except CatalogError Catalog
  | [] => .ok catalog
  | (provider, c) :: rest =>
    match catalog.register provider c with
    | .ok catalog => registerAll catalog rest
    | .error e => .error e

/-- The catalog of the given clauses, each paired with its provider's name, were there numbers for
any of them. The error is that of the first clause which is malformed, given those before it. -/
def build (clauses : List (String × Clause)) : Except CatalogError Catalog :=
  empty.registerAll clauses

def size (catalog : Catalog) : Nat :=
  catalog.rules.length

/-- Registers clauses in turn. It breaks off without an answer at a clause that passes its checks
when no number is left for a rule. -/
def registerAll? (catalog : Catalog) :
    List (String × Clause) → Option (Except CatalogError Catalog)
  | [] => some (.ok catalog)
  | (provider, c) :: rest =>
    match catalog.register provider c with
    | .ok next => if catalog.size < RuleId.count then next.registerAll? rest else none
    | .error e => some (.error e)

/-- Builds the catalog of the given clauses. -/
def build? (clauses : List (String × Clause)) : Option (Except CatalogError Catalog) :=
  empty.registerAll? clauses

def rule? (catalog : Catalog) (id : RuleId) : Option Rule :=
  catalog.rules[id]?

/-- The rules whose head is an application of `ctor`, in the order of registration. -/
def idsOf (catalog : Catalog) (ctor : String) : List RuleId :=
  catalog.index.find ctor

/-- The rules that a goal may match: those with the goal's constructor at the head. -/
def candidates (catalog : Catalog) (goal : Term) : List Rule :=
  match goal.ctor? with
  | none => []
  | some ctor => (catalog.idsOf ctor).filterMap catalog.rule?

/-- The number of arguments `ctor` takes, if it occurs in the catalog. -/
def arity? (catalog : Catalog) (ctor : String) : Option Nat :=
  catalog.arities.lookup ctor

end Catalog

end Clausal
