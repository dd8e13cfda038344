import Clausal.Variable

namespace Clausal

/-- A type: a variable, or a named constructor applied to argument types in order. -/
inductive Term where
  | var (v : Variable)
  | app (ctor : String) (args : List Term)

mutual
def Term.decEq : (s t : Term) → Decidable (s = t)
  | .var v, .var w =>
    if h : v = w then .isTrue (by rw [h]) else .isFalse (by simp [h])
  | .var _, .app _ _ => .isFalse (by simp)
  | .app _ _, .var _ => .isFalse (by simp)
  | .app c ss, .app d ts =>
    if hc : c = d then
      match Term.decEqList ss ts with
      | .isTrue h => .isTrue (by rw [hc, h])
      | .isFalse h => .isFalse (by simp [h])
    else .isFalse (by simp [hc])

def Term.decEqList : (ss ts : List Term) → Decidable (ss = ts)
  | [], [] => .isTrue rfl
  | [], _ :: _ => .isFalse (by simp)
  | _ :: _, [] => .isFalse (by simp)
  | s :: ss, t :: ts =>
    match Term.decEq s t with
    | .isTrue h =>
      match Term.decEqList ss ts with
      | .isTrue hs => .isTrue (by rw [h, hs])
      | .isFalse hs => .isFalse (by simp [hs])
    | .isFalse h => .isFalse (by simp [h])
end

instance : DecidableEq Term := Term.decEq

/-- A constructor without arguments. -/
def Term.const (ctor : String) : Term :=
  .app ctor []

def Term.ctor? : Term → Option String
  | .var _ => none
  | .app c _ => some c

def Term.args : Term → List Term
  | .var _ => []
  | .app _ ts => ts

def Term.arity (t : Term) : Nat :=
  t.args.length

def Term.isVar : Term → Bool
  | .var _ => true
  | .app _ _ => false

mutual
/-- A term is ground when no variable occurs in it. -/
def Term.isGround : Term → Bool
  | .var _ => false
  | .app _ ts => Term.allGround ts

def Term.allGround : List Term → Bool
  | [] => true
  | t :: ts => t.isGround && Term.allGround ts
end

mutual
/-- The variable occurrences of a term, from left to right. -/
def Term.occurrences : Term → List Variable
  | .var v => [v]
  | .app _ ts => Term.listOccurrences ts

def Term.listOccurrences : List Term → List Variable
  | [] => []
  | t :: ts => t.occurrences ++ Term.listOccurrences ts
end

/-- The variables of a term, ascending and each of them once. -/
def Term.vars (t : Term) : List Variable :=
  t.occurrences.foldl (fun vs v => v.insert vs) []

mutual
/-- The nesting depth; variables and constants have depth 1. -/
def Term.depth : Term → Nat
  | .var _ => 1
  | .app _ ts => 1 + Term.listDepth ts

def Term.listDepth : List Term → Nat
  | [] => 0
  | t :: ts => max t.depth (Term.listDepth ts)
end

mutual
/-- The constructors of a term with the number of arguments each is applied to, outermost first
and then from left to right. -/
def Term.applications : Term → List (String × Nat)
  | .var _ => []
  | .app c ts => (c, ts.length) :: Term.listApplications ts

def Term.listApplications : List Term → List (String × Nat)
  | [] => []
  | t :: ts => t.applications ++ Term.listApplications ts
end

mutual
/-- The written form of a term, such as `Pair<Int, List<a>>`. -/
def Term.text : Term → String
  | .var v => v.name
  | .app c [] => c
  | .app c (t :: ts) => c ++ "<" ++ t.text ++ Term.tailText ts ++ ">"

def Term.tailText : List Term → String
  | [] => ""
  | t :: ts => ", " ++ t.text ++ Term.tailText ts
end

end Clausal
