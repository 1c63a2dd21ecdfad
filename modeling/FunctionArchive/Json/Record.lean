import FunctionArchive.Json.Reader

/-!
# Typed JSON

Readers for values whose kind is known beforehand. A value of another kind is a fault that tells
both kinds. A record is written as an object, by the keys of its fields, or as a list, in their
order; entries of an object that are no fields are passed over, no field may be given twice, and
only a field that is not required may be left out.
-/

set_option autoImplicit false

namespace FunctionArchive.Json.Reader

variable {α σ : Type}

/-- A string. -/
def expectString : Reader String := do
  if (← peekPart) == some (code '"') then do
    drop
    string
  else unexpected "a string"

/-- A truth value. -/
def expectBool : Reader Bool := do
  match ← peekPart with
  | none => stopAhead .eofValue
  | some b =>
    if b == code 't' then do
      drop
      word ['r', 'u', 'e']
      return true
    else if b == code 'f' then do
      drop
      word ['a', 'l', 's', 'e']
      return false
    else unexpected "a boolean"

/-- A list of values of one kind. -/
def expectList (item : Nat → Reader α) (bound : Nat) : Reader (List α) := do
  if (← peekPart) == some (code '[') then do
    let items ← array bound nestingLimit (fun bound taken => (· :: taken) <$> item bound) []
    return items.reverse
  else unexpected "a sequence"

/-- A table of values of one kind. The last of several entries with one key counts. -/
def expectTable (item : Nat → Reader α) (bound : Nat) : Reader (List (String × α)) := do
  if (← peekPart) == some (code '{') then
    object bound nestingLimit (fun bound entries key => do
      colon
      return setEntry entries key (← item bound)) []
  else unexpected "a map"

/-! ## Records -/

/-- A field of a record that is gathered in a `σ`. -/
structure RecordField (σ : Type) where
  key : String
  required : Bool
  /-- Reads the value and adds it to the record. -/
  read : Nat → σ → Reader σ

/-- The name of a record's kind in faults. -/
def recordKind (name : String) (fields : List (RecordField σ)) : String :=
  let unit := if fields.length == 1 then "element" else "elements"
  s!"{name} with {fields.length} {unit}"

/-- Reads one entry of an object, given the record and the keys of the fields found so far. -/
def recordEntry (fields : List (RecordField σ)) (bound : Nat) (state : σ × List String)
    (key : String) : Reader (σ × List String) := do
  match fields.find? (·.key == key) with
  | none => do
    colon
    skip bound
    return state
  | some field =>
    if state.2.contains key then stopLater (.duplicateField key)
    else do
      colon
      return (← field.read bound state.1, key :: state.2)

/-- Reads the fields of a record from an object. -/
def recordEntries (fields : List (RecordField σ)) (start : σ) (bound : Nat) : Reader σ := do
  let (record, found) ← entriesFrom (recordEntry fields) bound true (start, [])
  match fields.find? fun field => field.required && !found.contains field.key with
  | some field => stopLater (.missingField field.key)
  | none => return record

/-- Reads the fields of a record from a list, as far as it goes. -/
def recordItems (kind : String) (bound : Nat) : Nat → List (RecordField σ) → σ → Reader σ
  | _, [], record => return record
  | taken, field :: rest, record => do
    if ← hasElement (taken == 0) then
      recordItems kind bound (taken + 1) rest (← field.read bound record)
    else
      match (field :: rest).findIdx? (·.required) with
      | some more => stopLater (.invalidLength (taken + more) kind)
      | none => return record

/-- A record. -/
def expectRecord (name : String) (fields : List (RecordField σ)) (start : σ) (bound : Nat) :
    Reader σ := do
  match ← peekPart with
  | none => stopAhead .eofValue
  | some b =>
    if b == code '{' then do
      drop
      closedBy endObject (recordEntries fields start bound)
    else if b == code '[' then do
      drop
      closedBy endArray (recordItems (recordKind name fields) bound 0 fields start)
    else unexpected name

end FunctionArchive.Json.Reader
