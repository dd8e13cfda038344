import Clausal.Instantiation

namespace Clausal

/-- A sub-goal pattern in the body of a rule. A deferrable requirement may have its value later
than the rule runs, so it alone may lead back to a goal under way. -/
structure Requirement where
  pattern : Term
  deferrable : Bool
deriving DecidableEq

/-- A rule as a provider offers it, before it is checked. -/
structure Clause where
  name : String
  head : Term
  body : List Requirement
deriving DecidableEq

/-- Rules are numbered from zero in the order of their registration. -/
abbrev RuleId := Nat

/-- There are numbers for that many rules, since a number has 32 bits. -/
def RuleId.count : Nat :=
  UInt32.size

/-- A checked rule: values of the body's types give a value of the head's type. -/
structure Rule where
  id : RuleId
  name : String
  head : Term
  body : List Requirement
deriving DecidableEq

/-- The name of a rule together with its provider's. -/
def qualifiedName (provider name : String) : String :=
  provider ++ "::" ++ name

def Clause.toRule (c : Clause) (id : RuleId) (provider : String) : Rule where
  id := id
  name := qualifiedName provider c.name
  head := c.head
  body := c.body

/-- The type parameters of a rule are the variables of its head. -/
def Rule.params (r : Rule) : List Variable :=
  r.head.vars

def Requirement.text (r : Requirement) : String :=
  (if r.deferrable then "~" else "") ++ r.pattern.text

/-- The written form of a rule, `name : body, ~deferred => head`. -/
def Rule.text (r : Rule) : String :=
  r.name ++ " : " ++ ", ".intercalate (r.body.map Requirement.text) ++ " => " ++ r.head.text

end Clausal
