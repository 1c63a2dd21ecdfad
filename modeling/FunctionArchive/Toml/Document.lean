import FunctionArchive.Toml.Text

/-!
# Reading configuration documents

A document is a sequence of lines: a line with a key and its value adds to the table under whose
header it stands, and a header opens the next table. Lists and tables in braces may run over several
lines and end with a comma. A document that breaks a rule of the format is none at all.
-/

set_option autoImplicit false

namespace FunctionArchive.Toml

/-! ## Values -/

/-- Whether a character ends a word. -/
def endsWord (c : Char) : Bool :=
  [',', ']', '}', '#', ' ', '\t', '\n', '\r'].contains c

/-- A value without quotes and brackets. A date and a time of day may have a blank between them. -/
def word : Reader Toml := do
  let first ← Reader.takeWhile (!endsWord ·)
  let chars ← match ← Reader.rest with
    | ' ' :: next :: more =>
      if isDate first && next.isDigit then do
        set (next :: more)
        let second ← Reader.takeWhile (!endsWord ·)
        pure (first ++ ' ' :: second)
      else pure first
    | _ => pure first
  match word? chars with
  | some value => return value
  | none => Reader.refuse

/-- A value, from its first character on. `depth` is the nesting left; `bound` exceeds the number
of characters left. -/
def value (depth : Nat) : Nat → Reader Toml
  | 0 => Reader.refuse
  | bound + 1 => do
    match (← Reader.rest).head? with
    | some '"' => return .string (← quotedText '"')
    | some '\'' => return .string (← quotedText '\'')
    | some '[' =>
      match depth with
      | 0 => Reader.refuse
      | depth + 1 => do
        Reader.expect '['
        return .list (← items depth bound)
    | some '{' =>
      match depth with
      | 0 => Reader.refuse
      | depth + 1 => do
        Reader.expect '{'
        return .table .braces (← fields depth bound [])
    | _ => word
where
  /-- The items of a list and its bracket. -/
  items (depth : Nat) : Nat → Reader (List Toml)
    | 0 => Reader.refuse
    | bound + 1 => do
      skipLines (bound + 1)
      match ← Reader.rest with
      | ']' :: rest => do
        set rest
        return []
      | _ => do
        let item ← value depth bound
        skipLines (bound + 1)
        match ← Reader.rest with
        | ',' :: rest => do
          set rest
          return item :: (← items depth bound)
        | ']' :: rest => do
          set rest
          return [item]
        | _ => Reader.refuse
  /-- The entries of a table in braces and its brace. -/
  fields (depth : Nat) : Nat → Entries → Reader Entries
    | 0, _ => Reader.refuse
    | bound + 1, entries => do
      skipLines (bound + 1)
      match ← Reader.rest with
      | '}' :: rest => do
        set rest
        return entries
      | _ => do
        let (path, name) ← key
        skipSpace
        Reader.expect '='
        skipSpace
        let item ← value depth bound
        let entries ← setKey path name item entries
        skipLines (bound + 1)
        match ← Reader.rest with
        | ',' :: rest => do
          set rest
          fields depth bound entries
        | '}' :: rest => do
          set rest
          return entries
        | _ => Reader.refuse

/-! ## Lines -/

/-- The end of a line. -/
def endLine : Reader Unit := do
  skipSpace
  skipComment
  match ← Reader.rest with
  | [] => return
  | chars =>
    match lineBreak? chars with
    | some rest => set rest
    | none => Reader.refuse

/-- What has been read of a document: its table, and the header under which lines stand. -/
structure Draft where
  entries : Entries
  header : List String

/-- Opens the table of a header. -/
def Draft.openHeader (draft : Draft) (openKey : String → Entries → Option Entries)
    (path : List String) (name : String) : Option Draft := do
  return ⟨← alter false (openKey name) path draft.entries, path ++ [name]⟩

/-- A header, from its bracket on. -/
def header (draft : Draft) : Reader Draft := do
  Reader.expect '['
  match ← Reader.rest with
  | '[' :: rest => do
    set rest
    let (path, name) ← key
    skipSpace
    Reader.expect ']'
    Reader.expect ']'
    draft.openHeader openElement path name
  | _ => do
    let (path, name) ← key
    skipSpace
    Reader.expect ']'
    draft.openHeader openTable path name

/-- A key with its value. -/
def keyValue (draft : Draft) : Reader Draft := do
  let (path, name) ← key
  skipSpace
  Reader.expect '='
  skipSpace
  let item ← value nestingLimit ((← Reader.rest).length + 1)
  let entries ← alter false (setKey path name item) draft.header draft.entries
  return { draft with entries }

/-- The lines of a document; the bound exceeds the number of characters left. -/
def lines : Nat → Draft → Reader Draft
  | 0, _ => Reader.refuse
  | bound + 1, draft => do
    skipSpace
    match (← Reader.rest).head? with
    | none => return draft
    | some '[' => do
      let draft ← header draft
      endLine
      lines bound draft
    | some c =>
      if c == '#' || c == '\n' || c == '\r' then do
        endLine
        lines bound draft
      else do
        let draft ← keyValue draft
        endLine
        lines bound draft

/-- Reads a document; a byte order mark in front is no part of it. -/
def read? (text : String) : Option Entries :=
  let chars := match text.toList with
    | '\ufeff' :: rest => rest
    | chars => chars
  ((lines (chars.length + 2) ⟨[], []⟩).run chars).map (·.1.entries)

end FunctionArchive.Toml
