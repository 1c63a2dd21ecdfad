/-!
# Configuration documents

A document in the TOML format is a table of values. While it is read, each table remembers how it
came into being, because that decides who may add to it: a table that was written in braces is
complete, one that a header has opened takes no further header and no dotted key from elsewhere, and
one that was only passed on the way to another may still get a header of its own.
-/

set_option autoImplicit false

namespace FunctionArchive

namespace Toml

/-- How a table came into being. -/
inductive Origin
  /-- A header opened it. -/
  | header
  /-- A header passed it on the way to another table. -/
  | implied
  /-- A dotted key passed it. -/
  | dotted
  /-- It was written in braces. -/
  | braces
deriving DecidableEq, Repr

end Toml

/-- A value of a document. -/
inductive Toml
  | string (s : String)
  | integer (n : Int)
  | float
  | boolean (b : Bool)
  | moment
  /-- A list written in brackets. -/
  | list (items : List Toml)
  /-- Tables under repeated headers, the last first. -/
  | tables (elements : List (List (String × Toml)))
  | table (origin : Toml.Origin) (entries : List (String × Toml))

namespace Toml

/-- The entries of a table, in the order in which they were written. -/
abbrev Entries := List (String × Toml)

/-- Replaces the value of a key. -/
def replace (key : String) (value : Toml) (entries : Entries) : Entries :=
  entries.map fun entry => if entry.1 == key then (key, value) else entry

/-- Adds an entry; its key must be new. -/
def insert? (key : String) (value : Toml) (entries : Entries) : Option Entries :=
  if (entries.lookup key).isSome then none else some (entries ++ [(key, value)])

/-- Changes the table at the end of a path. Tables on the way are made where there are none;
`byKey` tells whether the path belongs to a dotted key or to a header. A dotted key goes through no
table that a header has opened, and ends in one that dotted keys have made. -/
def alter (byKey : Bool) (change : Entries → Option Entries) :
    List String → Entries → Option Entries
  | [], entries => change entries
  | key :: rest, entries =>
    match entries.lookup key with
    | none => do
      let inner ← alter byKey change rest []
      return entries ++ [(key, .table (if byKey then .dotted else .implied) inner)]
    | some (.table origin inner) =>
      let closed := origin == .braces || (byKey && origin == .header) ||
        (byKey && rest.isEmpty && origin != .dotted)
      if closed then none
      else do
        let inner ← alter byKey change rest inner
        return replace key (.table origin inner) entries
    | some (.tables (last :: before)) =>
      if byKey && rest.isEmpty then none
      else do
        let last ← alter byKey change rest last
        return replace key (.tables (last :: before)) entries
    | some _ => none

/-- Sets the value of a dotted key. -/
def setKey (path : List String) (key : String) (value : Toml) (entries : Entries) :
    Option Entries :=
  alter true (insert? key value) path entries

/-- Opens the table of a header: a new one, or one that was only passed so far. -/
def openTable (key : String) (entries : Entries) : Option Entries :=
  match entries.lookup key with
  | none => some (entries ++ [(key, .table .header [])])
  | some (.table .implied inner) => some (replace key (.table .header inner) entries)
  | some _ => none

/-- Opens a further table of a repeated header. -/
def openElement (key : String) (entries : Entries) : Option Entries :=
  match entries.lookup key with
  | none => some (entries ++ [(key, .tables [[]])])
  | some (.tables elements) => some (replace key (.tables ([] :: elements)) entries)
  | some _ => none

/-! ## Looking at values -/

/-- The text of a string. -/
def string? : Toml → Option String
  | .string s => some s
  | _ => none

/-- The truth value of a boolean. -/
def boolean? : Toml → Option Bool
  | .boolean b => some b
  | _ => none

/-- The items of a list. -/
def items? : Toml → Option (List Toml)
  | .list items => some items
  | .tables elements => some (elements.reverse.map (.table .header))
  | _ => none

/-- The entries of a table. -/
def entries? : Toml → Option Entries
  | .table _ entries => some entries
  | _ => none

/-- The texts of a list of strings. -/
def strings? (value : Toml) : Option (List String) := do
  (← value.items?).mapM string?

/-- The first whole number that does not fit in 64 bits. -/
def wordBound : Nat := 0x10000000000000000

/-- A whole number of 64 bits that is not negative. -/
def natural? : Toml → Option Nat
  | .integer (.ofNat n) => if n < wordBound then some n else none
  | _ => none

end Toml

end FunctionArchive
