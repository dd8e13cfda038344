import Clausal.Position
import Clausal.Instantiation

namespace Clausal

/-- Why a term does not fit a pattern at some position. -/
inductive Discrepancy where
  | constructor (expected found : String)
  | arity (ctor : String) (expected found : Nat)
  | conflict (v : Variable) (bound found : Term)
  | rigid (expected : String)
  | notGround
deriving DecidableEq

/-- The first place at which a term does not fit a pattern. -/
structure Mismatch where
  position : Position
  cause : Discrepancy
deriving DecidableEq

def Discrepancy.message : Discrepancy → String
  | .constructor expected found => s!"expected constructor `{expected}`, found `{found}`"
  | .arity ctor expected found => s!"`{ctor}` expects {expected} argument(s), found {found}"
  | .conflict v bound found =>
    s!"`{v.name}` is already bound to `{bound.text}`, cannot also bind `{found.text}`"
  | .rigid expected => s!"pattern expects `{expected}`, found a type variable"
  | .notGround => "goal is not ground"

def Mismatch.message (m : Mismatch) : String :=
  m.cause.message ++ " at " ++ Position.text m.position

/-- A mismatch inside the argument `i`, seen from the application. -/
def Mismatch.inArgument (i : Nat) (m : Mismatch) : Mismatch :=
  { m with position := i :: m.position }

namespace Substitution

mutual
/-- Extends a substitution so that the pattern becomes the subject. Variables of the subject are
constants here: only a variable of the pattern matches them. The walk is outermost first and from
left to right, and stops at the first place that does not fit. -/
def extend (s : Substitution) : (subject pattern : Term) → Except Mismatch Substitution
  | t, .var v =>
    match s.get? v with
    | none => .ok (s.insert v t)
    | some u => if u = t then .ok s else .error ⟨[], .conflict v u t⟩
  | .var _, .app d _ => .error ⟨[], .rigid d⟩
  | .app c ts, .app d ps =>
    if c ≠ d then .error ⟨[], .constructor d c⟩
    else if ts.length ≠ ps.length then .error ⟨[], .arity d ps.length ts.length⟩
    else s.extendList 0 ts ps

/-- Extends a substitution over argument lists, the first of which has index `i`. -/
def extendList (s : Substitution) (i : Nat) :
    (subjects patterns : List Term) → Except Mismatch Substitution
  | t :: ts, p :: ps =>
    match s.extend t p with
    | .error m => .error (m.inArgument i)
    | .ok s => s.extendList (i + 1) ts ps
  | _, _ => .ok s
end

end Substitution

/-- Matches a ground goal against a pattern. -/
def unify (goal pattern : Term) : Except Mismatch Substitution :=
  if goal.isGround then Substitution.empty.extend goal pattern else .error ⟨[], .notGround⟩

/-- Whether the goal is ground and an instance of the pattern. -/
def Term.fits (goal pattern : Term) : Bool :=
  match unify goal pattern with
  | .ok _ => true
  | .error _ => false

/-- Whether replacing the variables of `general` can give `specific`, of which the variables stand
for themselves. -/
def Term.isInstanceOf (specific general : Term) : Bool :=
  match Substitution.empty.extend specific general with
  | .ok _ => true
  | .error _ => false

end Clausal
