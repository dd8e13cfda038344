import Clausal.Blank
import Clausal.Document
import Clausal.Lowercase
import Clausal.Quoted

namespace Clausal

/-- What to do when several rules each prove a goal: report that, or take the rule whose head is
strictly more specific than the heads of all others. -/
inductive TieBreak where
  | strict
  | mostSpecific
deriving DecidableEq

/-- The bound on nested goals, none for no bound, and the way ties go. -/
structure Policy where
  maxDepth : Option Nat
  tieBreak : TieBreak
deriving DecidableEq

def Policy.default : Policy :=
  ⟨some 256, .strict⟩

/-- The largest count that a 64-bit word holds. -/
def wordMax : Nat :=
  Nat.pow 2 64 - 1

namespace TieBreak

/-- The name under which data files hold a tie-break. -/
def name : TieBreak → String
  | .strict => "strict"
  | .mostSpecific => "most_specific"

def ofName? (s : String) : Option TieBreak :=
  if s = "strict" then some .strict
  else if s = "most_specific" then some .mostSpecific
  else none

/-- Reads a tie-break as people write it, in any case, with blanks around it and with either
joining mark. The error is the text that was looked up. -/
def parse (s : String) : Except String TieBreak :=
  let key := String.ofList (lowercase (trimBlanks s.toList))
  if key = "strict" then .ok .strict
  else if key = "most_specific" || key = "most-specific" then .ok .mostSpecific
  else .error key

/-- What is said of a text that names no tie-break. -/
def unknownMessage (key : String) : String :=
  s!"unknown tie-break policy `{key}`"

/-- Reads a tie-break from data: its name, or a record with that name as its only field and
nothing in it. -/
def ofDocument? : Document → Option TieBreak
  | .text s => ofName? s
  | .record [(s, .null)] => ofName? s
  | _ => none

end TieBreak

/-- The value of a digit string in base ten, if it is one. -/
def decimal? (cs : List Char) : Option Nat :=
  if cs.isEmpty || !cs.all Char.isDigit then none
  else some (cs.foldl (fun n c => 10 * n + (c.toNat - '0'.toNat)) 0)

/-- Reads a count that fits a 64-bit word; a plus sign may precede the digits. -/
def count? (cs : List Char) : Option Nat :=
  let digits :=
    match cs with
    | '+' :: rest => rest
    | _ => cs
  match decimal? digits with
  | some n => if n ≤ wordMax then some n else none
  | none => none

namespace Policy

/-- Reads a depth bound as people write it: a positive count, or the word none or zero for no
bound. The outer option tells whether the text is a bound at all. -/
def parseDepth? (s : String) : Option (Option Nat) :=
  let cs := trimBlanks s.toList
  if cs.map Char.toLower = ['n', 'o', 'n', 'e'] then some none
  else
    match count? cs with
    | none => none
    | some 0 => some none
    | some (n + 1) => some (some (n + 1))

/-- Replaces the fields for which a text is given that can be read. -/
def override (base : Policy) (depth tie : Option String) : Policy where
  maxDepth := (depth.bind parseDepth?).getD base.maxDepth
  tieBreak :=
    match tie.map TieBreak.parse with
    | some (.ok t) => t
    | _ => base.tieBreak

def depthOfDocument? : Document → Option (Option Nat)
  | .null => some none
  | .integer n => if 0 ≤ n ∧ n ≤ wordMax then some (some n.toNat) else none
  | _ => none

/-- Reads a policy from data. Fields that are missing have their defaults, and further fields are
passed over. -/
def ofDocument? (d : Document) : Option Policy :=
  match d with
  | .record _ => do
    let maxDepth ← (d.field? "max_depth").elim (some default.maxDepth) depthOfDocument?
    let tieBreak ← (d.field? "tie_break").elim (some default.tieBreak) TieBreak.ofDocument?
    return ⟨maxDepth, tieBreak⟩
  | _ => none

def toDocument (p : Policy) : Document :=
  .record [
    ("max_depth", p.maxDepth.elim .null fun n => .integer n),
    ("tie_break", .text p.tieBreak.name)]

/-- A policy with every layer spelled out. -/
def inspect (p : Policy) : String :=
  labelled "ResolverConfig" [
    ("max_depth", p.maxDepth.elim "None" fun n => "Some(" ++ toString n ++ ")"),
    ("tie_break", match p.tieBreak with
      | .strict => "Strict"
      | .mostSpecific => "MostSpecific")]

end Policy

end Clausal
