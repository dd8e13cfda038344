namespace Clausal

/-- A value of a self-describing data format. Numbers other than plain integers are kept as they
are written. -/
inductive Document where
  | null
  | bool (b : Bool)
  | integer (n : Int)
  | decimal (literal : String)
  | text (s : String)
  | list (items : List Document)
  | record (fields : List (String × Document))

/-- The value of a field. The last of several fields with one name counts. -/
def Document.field? (name : String) : Document → Option Document
  | .record fields => fields.reverse.lookup name
  | _ => none

end Clausal
