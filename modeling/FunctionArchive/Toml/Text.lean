import FunctionArchive.Toml.Scalar

/-!
# Texts of a configuration document

Texts stand between double quotes, where a backslash starts an escape, or between single quotes,
where every character means itself. Three quotes enclose a text of several lines: a line break right
behind them does not belong to it, up to two quotes may stand directly before the closing ones, and
between double quotes a backslash at the end of a line takes the blanks behind it away. Line breaks
stay as they are written, with or without a carriage return.
-/

set_option autoImplicit false

namespace FunctionArchive.Toml

/-- A reader takes characters from the front or refuses them. -/
abbrev Reader := StateT (List Char) Option

namespace Reader

/-- The characters that are left. -/
def rest : Reader (List Char) := get

/-- Refuses the document. -/
def refuse {α : Type} : Reader α := fun _ => none

/-- Takes a given character. -/
def expect (c : Char) : Reader Unit := do
  match ← rest with
  | d :: more => if c == d then set more else refuse
  | [] => refuse

/-- Takes characters as long as they are of some kind. -/
def takeWhile (kind : Char → Bool) : Reader (List Char) := do
  let chars ← rest
  set (chars.dropWhile kind)
  return chars.takeWhile kind

end Reader

/-! ## Blanks and comments -/

/-- Blanks within a line. -/
def isSpace (c : Char) : Bool := c == ' ' || c == '\t'

/-- Passes blanks within a line. -/
def skipSpace : Reader Unit := do
  let _ ← Reader.takeWhile isSpace

/-- Whether a character may stand in a comment or a text of one line. -/
def isPlain (c : Char) : Bool :=
  c == '\t' || (' ' ≤ c && c != '\x7f')

/-- The rest behind a line break in front, if there is one. -/
def lineBreak? : List Char → Option (List Char)
  | '\n' :: rest => some rest
  | '\r' :: '\n' :: rest => some rest
  | _ => none

/-- Passes a comment, if there is one. -/
def skipComment : Reader Unit := do
  if (← Reader.rest).head? == some '#' then
    let _ ← Reader.takeWhile isPlain

/-- Passes blanks, comments and line breaks; the bound exceeds the number of characters. -/
def skipLines : Nat → Reader Unit
  | 0 => Reader.refuse
  | bound + 1 => do
    skipSpace
    skipComment
    match lineBreak? (← Reader.rest) with
    | some rest => do
      set rest
      skipLines bound
    | none => return

/-! ## Escapes -/

/-- The character of an escape with one letter. -/
def letterEscape? : Char → Option Char
  | 'b' => some '\x08'
  | 't' => some '\t'
  | 'n' => some '\n'
  | 'f' => some '\x0c'
  | 'r' => some '\r'
  | 'e' => some '\x1b'
  | '"' => some '"'
  | '\\' => some '\\'
  | _ => none

/-- How many digits an escape by number has. -/
def numberEscape? : Char → Option Nat
  | 'x' => some 2
  | 'u' => some 4
  | 'U' => some 8
  | _ => none

/-- The character with a number. -/
def charOf? (n : Nat) : Option Char :=
  if h : n.isValidChar then some (Char.ofNatAux n h) else none

/-- The character of an escape whose backslash has been taken. -/
def escape : Reader Char := do
  match ← Reader.rest with
  | [] => Reader.refuse
  | c :: more =>
    set more
    match letterEscape? c, numberEscape? c with
    | some e, _ => return e
    | none, none => Reader.refuse
    | none, some count =>
      let digits := more.take count
      set (more.drop count)
      if digits.length == count && digits.all (isDigitOf 16) then
        match charOf? (valueOf 16 digits) with
        | some e => return e
        | none => Reader.refuse
      else Reader.refuse

/-! ## Texts -/

/-- A text between single characters, behind the opening one. `taken` holds the characters of the
text so far, the last first; the bound exceeds the number of characters left. -/
def lineText (quote : Char) : Nat → List Char → Reader String
  | 0, _ => Reader.refuse
  | bound + 1, taken => do
    match ← Reader.rest with
    | [] => Reader.refuse
    | c :: more =>
      set more
      if c == quote then return String.ofList taken.reverse
      else if c == '\\' && quote == '"' then do
        let e ← escape
        lineText quote bound (e :: taken)
      else if isPlain c then lineText quote bound (c :: taken)
      else Reader.refuse

/-- What is left behind blanks and line breaks; the bound exceeds the number of line breaks. -/
def passBlanks : Nat → List Char → List Char
  | 0, chars => chars
  | bound + 1, chars =>
    let behind := chars.dropWhile isSpace
    match lineBreak? behind with
    | some rest => passBlanks bound rest
    | none => behind

/-- The rest behind a backslash at the end of a line, whose line break and following blanks are
taken away. -/
def continuedLine? (chars : List Char) : Option (List Char) :=
  (lineBreak? (chars.dropWhile isSpace)).map fun rest => passBlanks (rest.length + 1) rest

/-- A text of several lines, behind the opening quotes. -/
def blockText (quote : Char) : Nat → List Char → Reader String
  | 0, _ => Reader.refuse
  | bound + 1, taken => do
    match ← Reader.rest with
    | [] => Reader.refuse
    | c :: more =>
      if c == quote then do
        let run := min 5 ((c :: more).takeWhile (· == quote)).length
        set ((c :: more).drop run)
        if run < 3 then blockText quote bound (List.replicate run quote ++ taken)
        else return String.ofList (List.replicate (run - 3) quote ++ taken).reverse
      else if c == '\\' && quote == '"' then
        match continuedLine? more with
        | some rest => do
          set rest
          blockText quote bound taken
        | none => do
          set more
          let e ← escape
          blockText quote bound (e :: taken)
      else
        match lineBreak? (c :: more) with
        | some rest => do
          let lineEnd := (c :: more).take (more.length + 1 - rest.length)
          set rest
          blockText quote bound (lineEnd.reverse ++ taken)
        | none => do
          set more
          if isPlain c then blockText quote bound (c :: taken) else Reader.refuse

/-- A text of one line, from its quote on. -/
def quotedLine (quote : Char) : Reader String := do
  Reader.expect quote
  lineText quote ((← Reader.rest).length + 1) []

/-- A text, from its quote on. -/
def quotedText (quote : Char) : Reader String := do
  let chars ← Reader.rest
  if [quote, quote, quote].isPrefixOf chars then
    let behind := chars.drop 3
    let body := (lineBreak? behind).getD behind
    set body
    blockText quote (body.length + 1) []
  else quotedLine quote

/-! ## Keys -/

/-- Whether a character may stand in a key without quotes. -/
def isBareKey (c : Char) : Bool :=
  c.isAlphanum || c == '_' || c == '-'

/-- One name of a key. -/
def keyName : Reader String := do
  match (← Reader.rest).head? with
  | some '"' => quotedLine '"'
  | some '\'' => quotedLine '\''
  | _ => do
    let name ← Reader.takeWhile isBareKey
    if name.isEmpty then Reader.refuse else return String.ofList name

/-- The names of a dotted key behind the first one; the bound exceeds the number of characters. -/
def keyRest : Nat → Reader (List String)
  | 0 => Reader.refuse
  | bound + 1 => do
    skipSpace
    if (← Reader.rest).head? == some '.' then do
      Reader.expect '.'
      skipSpace
      let name ← keyName
      return name :: (← keyRest bound)
    else return []

/-- How deep values may be nested, be it in brackets or by the names of a key. -/
def nestingLimit : Nat := 80

/-- A key: the names before its last one, and the last. -/
def key : Reader (List String × String) := do
  skipSpace
  let first ← keyName
  let more ← keyRest ((← Reader.rest).length + 1)
  let names := first :: more
  if more.length < nestingLimit then return (names.dropLast, names.getLast?.getD first)
  else Reader.refuse

end FunctionArchive.Toml
