import FunctionArchive.Command
import FunctionArchive.Shell.Syntax
import FunctionArchive.Text.Blank

/-!
# Sessions of a shell

What a running script reads and changes: the file system, its variables and arguments, and its
streams. A script ends when it is told to or is killed, and otherwise after its last statement.
-/

set_option autoImplicit false

namespace FunctionArchive.Shell

/-- Where a stream goes. -/
inductive Sink
  /-- To whoever started the script, as its output. -/
  | output
  /-- To whoever started the script, as its errors. -/
  | errors
  | file (path : Path)
deriving DecidableEq, Repr

/-- The streams of a command. -/
structure Streams where
  input : List UInt8
  output : Sink
  errors : Sink

/-- The state of a script. -/
structure Session where
  disk : Disk
  bindings : List (String × String)
  /-- The name of the script. -/
  script : String
  arguments : List String
  /-- How the last command ended. -/
  status : Nat
  streams : Streams
  /-- What was written to whoever started the script. -/
  output : List UInt8
  errors : List UInt8

/-- A part of a script that is run; it may end the script. -/
abbrev Script := ExceptT Exit (StateM Session)

namespace Script

/-- Sets how the last command ended. -/
def finish (status : Nat) : Script Unit := modify fun s => { s with status }

/-- Writes to where a stream goes. -/
def emit (sink : Sink) (data : List UInt8) : Script Unit :=
  modify fun s =>
    match sink with
    | .output => { s with output := s.output ++ data }
    | .errors => { s with errors := s.errors ++ data }
    | .file path =>
      match s.disk.read path with
      | .ok before => { s with disk := (s.disk.write path (before ++ data)).toOption.getD s.disk }
      | .error _ => s

/-- Writes text to the output. -/
def say (text : String) : Script Unit := do
  emit (← get).streams.output (Utf8.encode text)

/-- Complains. -/
def complain (text : String) : Script Unit := do
  let s ← get
  emit s.streams.errors (Utf8.encode s!"{text}\n")

/-! ## Variables -/

/-- The number by which a script knows itself. -/
def ownNumber : String := "4000"

/-- The value of a variable, empty if it is not set. -/
def valueOf (s : Session) (name : String) : String :=
  match name with
  | "#" => toString s.arguments.length
  | "?" => toString s.status
  | "$" => ownNumber
  | "0" => s.script
  | "@" | "*" => " ".intercalate s.arguments
  | _ =>
    match name.toNat? with
    | some n => s.arguments.getD (n - 1) ""
    | none => (s.bindings.lookup name).getD ""

/-- Sets a variable. -/
def assign (name value : String) : Script Unit :=
  modify fun s => { s with bindings := (name, value) :: s.bindings.filter (·.1 != name) }

/-- How many characters are cut off: of the lengths at which the front is described by a pattern,
the shortest or the longest. -/
def cutLength (longest : Bool) (pattern : List Glob.Token) (front : Nat → List Char)
    (size : Nat) : Nat :=
  let lengths := (List.range (size + 1)).filter fun n => Glob.matchTokens pattern (front n)
  ((if longest then lengths.getLast? else lengths.head?)).getD 0

/-- A value with something cut off. -/
def applyCut (c : Cut) (value : String) : String :=
  let chars := value.toList
  let size := chars.length
  if c.fromEnd then
    let n := cutLength c.longest c.pattern (fun n => chars.drop (size - n)) size
    String.ofList (chars.take (size - n))
  else String.ofList (chars.drop (cutLength c.longest c.pattern chars.take size))

/-- The value that a variable stands for with something cut off. -/
def cutValue (s : Session) (name : String) (cut : Option Cut) : String :=
  match cut with
  | some c => applyCut c (valueOf s name)
  | none => valueOf s name

/-! ## Words -/

/-- The words that a value is split into. -/
def splitAtBlanks (text : String) : List String :=
  ((text.splitOn " ").flatMap fun t => (t.splitOn "\n").flatMap (·.splitOn "\t")).filter (· != "")

/-- Text that may be followed by a gap between words. -/
abbrev Piece := Option String

/-- The pieces that a part stands for; `none` is a gap. -/
def pieces (s : Session) : Part → List Piece
  | .literal text | .plain text => [some text]
  | .variable "@" none true => (s.arguments.map some).intersperse none
  | .variable name cut true => [some (cutValue s name cut)]
  | .variable name cut false =>
    ((splitAtBlanks (cutValue s name cut)).map some).intersperse none

/-- The words between the gaps. Where there is nothing at all there is no word. -/
def wordsOf : List Piece → Option String → List String
  | [], none => []
  | [], some word => [word]
  | none :: rest, none => wordsOf rest none
  | none :: rest, some word => word :: wordsOf rest none
  | some text :: rest, word => wordsOf rest (some ((word.getD "") ++ text))

/-- The words that a word stands for. -/
def expand (s : Session) (w : Word) : List String :=
  wordsOf (w.flatMap (pieces s)) none

/-- The single text that a word stands for. -/
def expandText (s : Session) (w : Word) : String :=
  String.join (w.map fun
    | .literal text | .plain text => text
    | .variable name cut _ => cutValue s name cut)

end Script

end FunctionArchive.Shell
