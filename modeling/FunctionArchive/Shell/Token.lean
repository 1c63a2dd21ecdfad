import FunctionArchive.Shell.Syntax

/-!
# Tokens of shell scripts

A script is cut into words, symbols and redirections. The text of a document that follows a line is
taken out of the script when its mark is met, so the rest of that line goes on behind it.
-/

set_option autoImplicit false

namespace FunctionArchive.Shell

/-- A token of a script. -/
inductive Token
  | word (parts : Word)
  /-- A separator or a bracket; the end of a line is one, too. -/
  | symbol (text : String)
  /-- A redirection that is followed by the word it goes to. -/
  | redirect (stream : Nat) (operator : String)
  | document (text : Word)
deriving DecidableEq, Repr

/-! ## Expansions -/

/-- Whether a character can be in the name of a variable. -/
def isNameChar (c : Char) : Bool := c.isAlphanum || c == '_'

/-- Whether a character is the name of a variable of its own. -/
def isSpecialName (c : Char) : Bool := "@*#?$".toList.contains c

/-- The pattern that the text between braces makes. -/
def patternOf : Nat → List Char → List Glob.Token
  | 0, _ | _, [] => []
  | bound + 1, '\\' :: c :: rest => .char c :: patternOf bound rest
  | bound + 1, '\'' :: rest =>
    (rest.takeWhile (· != '\'')).map .char ++ patternOf bound ((rest.dropWhile (· != '\'')).drop 1)
  | bound + 1, '"' :: rest =>
    (rest.takeWhile (· != '"')).map .char ++ patternOf bound ((rest.dropWhile (· != '"')).drop 1)
  | bound + 1, '*' :: rest => .anySequence :: patternOf bound rest
  | bound + 1, '?' :: rest => .anyChar :: patternOf bound rest
  | bound + 1, '[' :: rest =>
    match Glob.takeClass? rest with
    | some (token, after) => token :: patternOf bound after
    | none => .char '[' :: patternOf bound rest
  | bound + 1, c :: rest => .char c :: patternOf bound rest

/-- The cut that follows the name of a variable between braces. -/
def cutOf? (text : List Char) : Option (Option Cut) :=
  let make (fromEnd longest : Bool) (pattern : List Char) : Option (Option Cut) :=
    some (some ⟨fromEnd, longest, patternOf (pattern.length + 1) pattern⟩)
  match text with
  | [] => some none
  | '#' :: '#' :: pattern => make false true pattern
  | '#' :: pattern => make false false pattern
  | '%' :: '%' :: pattern => make true true pattern
  | '%' :: pattern => make true false pattern
  | _ => none

/-- The variable behind a dollar sign, and what follows it. A dollar sign that no name follows
stands for itself. -/
def expansion? (quoted : Bool) (chars : List Char) : Option (Part × List Char) :=
  match chars with
  | '{' :: rest =>
    let inner := rest.takeWhile (· != '}')
    let name := if (inner.head?.map isSpecialName).getD false then inner.take 1
      else inner.takeWhile isNameChar
    if rest.length == inner.length || name.isEmpty then none
    else (cutOf? (inner.drop name.length)).map fun cut =>
      (.variable (String.ofList name) cut quoted, rest.drop (inner.length + 1))
  | '(' :: _ => none
  | c :: rest =>
    if isSpecialName c || c.isDigit then some (.variable c.toString none quoted, rest)
    else
      let name := chars.takeWhile isNameChar
      if name.isEmpty then some (.literal "$", chars)
      else some (.variable (String.ofList name) none quoted, chars.drop name.length)
  | [] => some (.literal "$", [])

/-! ## Words -/

/-- The parts between double quotes, and what follows the closing one. -/
def quotedParts : Nat → List Char → Option (Word × List Char)
  | 0, _ | _, [] => none
  | _, '"' :: rest => some ([], rest)
  | bound + 1, '\\' :: c :: rest =>
    let text := if "$\x60\"\\".toList.contains c then c.toString
      else if c == '\n' then "" else "\\" ++ c.toString
    (quotedParts bound rest).map fun (parts, after) => (.literal text :: parts, after)
  | bound + 1, '$' :: rest => do
    let (part, rest) ← expansion? true rest
    let (parts, after) ← quotedParts bound rest
    return (part :: parts, after)
  | _, '\x60' :: _ => none
  | bound + 1, c :: rest =>
    (quotedParts bound rest).map fun (parts, after) => (.literal c.toString :: parts, after)

/-- Whether a character ends a word. -/
def endsWord (c : Char) : Bool := " \t\n;&|()<>".toList.contains c

/-- The parts of a word, and what follows it. -/
def wordParts : Nat → List Char → Option (Word × List Char)
  | 0, _ => none
  | _, [] => some ([], [])
  | bound + 1, '\'' :: rest => do
    let text := rest.takeWhile (· != '\'')
    guard (text.length < rest.length)
    let (parts, after) ← wordParts bound (rest.drop (text.length + 1))
    return (.literal (String.ofList text) :: parts, after)
  | bound + 1, '"' :: rest => do
    let (quoted, rest) ← quotedParts (rest.length + 1) rest
    let (parts, after) ← wordParts bound rest
    return (.literal "" :: quoted ++ parts, after)
  | bound + 1, '\\' :: '\n' :: rest => wordParts bound rest
  | bound + 1, '\\' :: c :: rest => do
    let (parts, after) ← wordParts bound rest
    return (.literal c.toString :: parts, after)
  | bound + 1, '$' :: rest => do
    let (part, rest) ← expansion? false rest
    let (parts, after) ← wordParts bound rest
    return (part :: parts, after)
  | _, '\x60' :: _ => none
  | bound + 1, c :: rest =>
    if endsWord c then some ([], c :: rest)
    else do
      let (parts, after) ← wordParts bound rest
      return (.plain c.toString :: parts, after)

/-- A word without its quotes. -/
def bareText (w : Word) : String :=
  String.join (w.map fun
    | .literal text | .plain text => text
    | .variable .. => "")

/-- Whether nothing in a word is quoted. -/
def isBare (w : Word) : Bool :=
  w.all fun
    | .plain _ => true
    | _ => false

/-- The parts of a document whose mark is not quoted. -/
def documentParts : Nat → List Char → Option Word
  | 0, _ | _, [] => some []
  | bound + 1, '\\' :: c :: rest =>
    let text := if "$\x60\\".toList.contains c then c.toString
      else if c == '\n' then "" else "\\" ++ c.toString
    (documentParts bound rest).map (.literal text :: ·)
  | bound + 1, '$' :: rest => do
    let (part, rest) ← expansion? true rest
    (documentParts bound rest).map (part :: ·)
  | bound + 1, c :: rest => (documentParts bound rest).map (.literal c.toString :: ·)

/-- The lines of a document up to its mark, and what follows the mark. -/
def takeDocument (mark : List Char) : Nat → List Char → List Char × List Char
  | 0, chars => ([], chars)
  | bound + 1, chars =>
    let line := chars.takeWhile (· != '\n')
    let rest := chars.drop (line.length + 1)
    if chars.isEmpty || line == mark then ([], rest)
    else
      let (more, after) := takeDocument mark bound rest
      (line ++ '\n' :: more, after)

/-! ## Tokens -/

/-- The symbol at the front, if there is one. -/
def symbol? : List Char → Option (String × List Char)
  | '\n' :: rest => some ("\n", rest)
  | ';' :: ';' :: rest => some (";;", rest)
  | ';' :: rest => some (";", rest)
  | '&' :: '&' :: rest => some ("&&", rest)
  | '|' :: '|' :: rest => some ("||", rest)
  | '|' :: rest => some ("|", rest)
  | '(' :: rest => some ("(", rest)
  | ')' :: rest => some (")", rest)
  | _ => none

/-- The redirection at the front, if there is one, with the stream that it is about. -/
def redirect? (chars : List Char) : Option (Nat × String × List Char) :=
  let digits := chars.takeWhile Char.isDigit
  let stream (default : Nat) := if digits.isEmpty then default
    else digits.foldl (fun n c => 10 * n + (c.toNat - '0'.toNat)) 0
  match chars.drop digits.length with
  | '>' :: '>' :: rest => some (stream 1, ">>", rest)
  | '>' :: '&' :: rest => some (stream 1, ">&", rest)
  | '>' :: rest => some (stream 1, ">", rest)
  | '<' :: '<' :: rest => some (stream 0, "<<", rest)
  | '<' :: rest => some (stream 0, "<", rest)
  | _ => none

/-- Cuts a script into tokens. -/
def tokens : Nat → List Char → Option (List Token)
  | 0, _ => none
  | _, [] => some []
  | bound + 1, c :: rest =>
    if c == ' ' || c == '\t' then tokens bound rest
    else if c == '#' then tokens bound (rest.dropWhile (· != '\n'))
    else
      match symbol? (c :: rest), redirect? (c :: rest) with
      | some (text, rest), _ => (tokens bound rest).map (.symbol text :: ·)
      | none, some (_, "<<", rest) => do
        let rest := rest.dropWhile (· == ' ')
        let (mark, rest) ← wordParts (rest.length + 1) rest
        let line := rest.takeWhile (· != '\n')
        let below := rest.drop (line.length + 1)
        let (body, after) := takeDocument (bareText mark).toList (below.length + 1) below
        let text ← if isBare mark then documentParts (body.length + 1) body
          else some [.literal (String.ofList body)]
        (tokens bound (line ++ '\n' :: after)).map (.document text :: ·)
      | none, some (stream, operator, rest) =>
        (tokens bound rest).map (.redirect stream operator :: ·)
      | none, none => do
        let (parts, rest) ← wordParts (rest.length + 2) (c :: rest)
        if c == '&' then none
        else (tokens bound rest).map (.word parts :: ·)

end FunctionArchive.Shell
