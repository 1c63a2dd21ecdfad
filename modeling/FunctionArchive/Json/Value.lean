/-!
# JSON values

A document as it was written: objects keep their entries in order of first appearance, and a
repeated key keeps its place and takes the later value. Numbers are whole when they were written
without fraction and exponent and fit in 64 bits, and doubles otherwise.
-/

set_option autoImplicit false

namespace FunctionArchive

/-- A number of a document. -/
inductive JsonNumber
  /-- A whole number that is not negative. -/
  | natural (n : Nat)
  /-- A whole number below zero, given by its size. -/
  | negative (n : Nat)
  | double (x : Float)
deriving Inhabited

/-- A document. -/
inductive Json
  | null
  | bool (b : Bool)
  | number (n : JsonNumber)
  | string (s : String)
  | array (items : List Json)
  | object (entries : List (String × Json))
deriving Inhabited

namespace Json

/-- Sets a key: a new key goes to the end, a known one keeps its place. -/
def setEntry {α : Type} (entries : List (String × α)) (key : String) (value : α) :
    List (String × α) :=
  match entries with
  | [] => [(key, value)]
  | (k, v) :: rest => if k == key then (key, value) :: rest else (k, v) :: setEntry rest key value

/-- The value of a key. -/
def entry? {α : Type} (entries : List (String × α)) (key : String) : Option α :=
  (entries.find? (·.1 == key)).map (·.2)

/-- The text of a string value. -/
def string? : Json → Option String
  | .string s => some s
  | _ => none

/-- The truth value of a boolean. -/
def bool? : Json → Option Bool
  | .bool b => some b
  | _ => none

end Json

end FunctionArchive
