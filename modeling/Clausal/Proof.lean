import Clausal.HornRule

namespace Clausal

/-- The number of one search for a goal, and of the proof which that search finds. -/
abbrev ProofId := Nat

/-- How a requirement is met: by a finished proof, or by the search of a goal that was still under
way when the requirement came up. -/
inductive Link where
  | built (id : ProofId)
  | back (id : ProofId)
deriving DecidableEq

def Link.target : Link → ProofId
  | .built id => id
  | .back id => id

/-- A met requirement. -/
structure Edge where
  goal : Term
  link : Link
  deferrable : Bool
deriving DecidableEq

/-- One node of a proof: the rule taken for a goal, and one edge for each requirement of the rule
in order. A recursive proof is the target of some back link, so its value is deferred while it is
built. -/
structure Proof where
  id : ProofId
  goal : Term
  rule : RuleId
  name : String
  edges : List Edge
  recursive : Bool
deriving DecidableEq

/-- The first requirement that leads into one of `goals`, with its place. -/
def Proof.firstInto? (p : Proof) (goals : List Term) : Option (Nat × Term) :=
  match p.edges.zipIdx.find? fun e => goals.contains e.1.goal with
  | some e => some (e.2, e.1.goal)
  | none => none

/-- The numbers given out so far, each with its proof once the search has found one. -/
structure ProofTable where
  slots : Array (Option Proof)
deriving DecidableEq

namespace ProofTable

def empty : ProofTable :=
  ⟨#[]⟩

def size (table : ProofTable) : Nat :=
  table.slots.size

def get? (table : ProofTable) (id : ProofId) : Option Proof :=
  match table.slots[id]? with
  | some slot => slot
  | none => none

/-- Gives out the next number. -/
def reserve (table : ProofTable) : ProofId × ProofTable :=
  (table.size, ⟨table.slots.push none⟩)

/-- Keeps a proof under its number, unless there is one already. -/
def record (table : ProofTable) (p : Proof) : ProofTable :=
  match table.get? p.id with
  | some _ => table
  | none => ⟨table.slots.setIfInBounds p.id (some p)⟩

theorem get?_eq_none_of_size_le {table : ProofTable} {id : ProofId} (h : table.size ≤ id) :
    table.get? id = none := by
  have hs : table.slots[id]? = none := Array.getElem?_eq_none h
  simp [get?, hs]

/-- A number that is given out has no proof yet, and the others keep theirs. -/
theorem get?_reserve (table : ProofTable) (id : ProofId) :
    table.reserve.2.get? id = table.get? id := by
  simp only [reserve, get?, Array.getElem?_push]
  by_cases h : id = table.slots.size
  · simp [h]
  · simp [h]

theorem size_record (table : ProofTable) (p : Proof) : (table.record p).size = table.size := by
  unfold record
  split <;> simp [size]

/-- A recorded proof is found under its number from then on, and no other number is touched. -/
theorem get?_record {table : ProofTable} {p : Proof} (hp : p.id < table.size)
    (hn : table.get? p.id = none) (id : ProofId) :
    (table.record p).get? id = if id = p.id then some p else table.get? id := by
  have hb : p.id < table.slots.size := hp
  simp only [record, hn]
  simp only [get?, Array.getElem?_setIfInBounds]
  by_cases h : p.id = id
  · subst h
    simp [hb]
  · simp [h, Ne.symm h]

end ProofTable

end Clausal
