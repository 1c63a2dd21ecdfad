import FunctionArchive.Shell.Parser
import FunctionArchive.Shell.Session

/-!
# Running shell scripts

The statements of a script are run one after the other. A command is one that the shell knows
itself, or one of the programs that copy files to the output and make links; there are no others. A
redirection that fails keeps its command from being run.
-/

set_option autoImplicit false

namespace FunctionArchive.Shell

namespace Script

/-! ## Commands -/

/-- Text with the characters that a backslash and a letter stand for. -/
def unescape : List Char → List Char
  | '\\' :: 'n' :: rest => '\n' :: unescape rest
  | '\\' :: 't' :: rest => '\t' :: unescape rest
  | '\\' :: 'r' :: rest => '\r' :: unescape rest
  | '\\' :: '\\' :: rest => '\\' :: unescape rest
  | c :: rest => c :: unescape rest
  | [] => []

/-- Writes words and ends the line. -/
def echo (words : List String) : Script Unit := do
  let (words, ending) := match words with
    | "-n" :: rest => (rest, "")
    | _ => (words, "\n")
  say (String.ofList (unescape (" ".intercalate words).toList) ++ ending)
  finish 0

/-- The number of a signal that is given by number or by name. -/
def signalOf? (text : String) : Option Nat :=
  match text.toNat? with
  | some n => some n
  | none =>
    let name := if text.toList.take 3 == "SIG".toList then text.toList.drop 3 else text.toList
    (Exit.signalNames.findIdx? (·.toList == name)).map (· + 1)

/-- Sends a signal. Only the script itself can be reached. -/
def kill : List String → Script Unit
  | [target] => if target == ownNumber then throw (.signal 15) else finish 1
  | [signal, target] =>
    match signalOf? (String.ofList (signal.toList.drop 1)) with
    | some n => if target == ownNumber then throw (.signal n) else finish 1
    | none => finish 1
  | [_, signal, target] =>
    match signalOf? signal with
    | some n => if target == ownNumber then throw (.signal n) else finish 1
    | none => finish 1
  | _ => finish 2

/-- Answers a question about texts and files. -/
def holds (d : Disk) : List String → Bool
  | ["-n", text] | [text] => text != ""
  | ["-z", text] => text == ""
  | ["-f", path] => d.isFile (.ofString path)
  | ["-d", path] => d.isDirectory (.ofString path)
  | ["-e", path] => (d.find (.ofString path)).toBool
  | [a, "=", b] => a == b
  | [a, "!=", b] => a != b
  | "!" :: rest => !holds d rest
  | _ => false

/-- Copies files, or the input if there are none, to the output. -/
def concatenate (name : String) (files : List String) : Script Unit := do
  finish 0
  if files.isEmpty then emit (← get).streams.output (← get).streams.input
  else
    for file in files do
      let s ← get
      match s.disk.read (.ofString file) with
      | .ok data => emit s.streams.output data
      | .error .isDirectory =>
        complain s!"{name}: {file}: Is a directory"
        finish 1
      | .error _ =>
        complain s!"{name}: {file}: No such file or directory"
        finish 1

/-- Makes a link with this text. -/
def makeLink (name text path : String) : Script Unit := do
  let s ← get
  match s.disk.createLink (.ofString path) text with
  | .ok disk =>
    set { s with disk }
    finish 0
  | .error _ =>
    complain s!"{name}: failed to create symbolic link '{path}'"
    finish 1

/-- Runs a command. -/
def perform : List String → Script Unit
  | [] => finish 0
  | "echo" :: words => echo words
  | "exit" :: rest => do
    let code := ((rest.head?.bind String.toNat?).getD (← get).status)
    throw (.status (code % 256))
  | "kill" :: rest => kill rest
  | ":" :: _ | "true" :: _ | "set" :: _ | "export" :: _ => finish 0
  | "false" :: _ => finish 1
  | "shift" :: _ => do
    modify fun s => { s with arguments := s.arguments.drop 1 }
    finish 0
  | "test" :: rest => do finish (if holds (← get).disk rest then 0 else 1)
  | "[" :: rest => do finish (if holds (← get).disk rest.dropLast then 0 else 1)
  | "/bin/cat" :: files => concatenate "/bin/cat" files
  | ["/bin/ln", "-s", text, path] => makeLink "/bin/ln" text path
  | name :: _ => do
    complain s!"{(← get).script}: {name}: not found"
    finish 127

/-! ## Redirections -/

/-- Where a stream goes now. -/
def Streams.sink (s : Streams) (stream : Nat) : Sink :=
  if stream == 2 then s.errors else s.output

/-- Lets a stream go elsewhere. -/
def Streams.redirect (s : Streams) (stream : Nat) (sink : Sink) : Streams :=
  if stream == 2 then { s with errors := sink } else { s with output := sink }

/-- Makes a redirection; tells whether it worked. -/
def redirect : Redirection → Script Bool
  | .write stream file append => do
    let s ← get
    let path := Path.normalize s.disk.current (.ofString (expandText s file))
    let before := if append then (s.disk.read path).toOption.getD [] else []
    match s.disk.write path before with
    | .ok disk =>
      set { s with disk, streams := Streams.redirect s.streams stream (.file path) }
      return true
    | .error _ =>
      complain s!"{s.script}: cannot create {expandText s file}"
      return false
  | .duplicate stream target => do
    let s ← get
    match (expandText s target).toNat? with
    | some n =>
      set { s with streams := Streams.redirect s.streams stream (Streams.sink s.streams n) }
      return true
    | none => return false
  | .read file => do
    let s ← get
    match s.disk.read (.ofString (expandText s file)) with
    | .ok data =>
      set { s with streams := { s.streams with input := data } }
      return true
    | .error _ =>
      complain s!"{s.script}: cannot open {expandText s file}"
      return false
  | .document text => do
    modify fun s => { s with
      streams := { s.streams with input := Utf8.encode (expandText s text) } }
    return true

/-- Makes redirections up to the first that fails. -/
def redirectAll : List Redirection → Script Bool
  | [] => return true
  | r :: rest => do
    if ← redirect r then redirectAll rest else return false

/-! ## Statements -/

/-- The pattern that a word makes: what is quoted in it stands for itself. -/
def patternTokens (s : Session) : Word → List Char → List Glob.Token
  | [], bare => patternOf (bare.length + 1) bare.reverse
  | .plain text :: rest, bare => patternTokens s rest (text.toList.reverse ++ bare)
  | .literal text :: rest, bare =>
    patternOf (bare.length + 1) bare.reverse ++ text.toList.map .char ++ patternTokens s rest []
  | .variable name cut true :: rest, bare =>
    patternOf (bare.length + 1) bare.reverse ++ (cutValue s name cut).toList.map .char ++
      patternTokens s rest []
  | .variable name cut false :: rest, bare =>
    patternTokens s rest ((cutValue s name cut).toList.reverse ++ bare)

/-- Whether one of some patterns describes a text. -/
def describes (s : Session) (text : String) (patterns : List Word) : Bool :=
  patterns.any fun w => Glob.matchTokens (patternTokens s w []) text.toList

mutual

/-- Runs a statement. -/
def run : Statement → Script Unit
  | .simple settings words => do
    for (name, value) in settings do
      assign name (expandText (← get) value)
    perform (words.flatMap (expand (← get)))
  | .forEach name words body => do
    let s ← get
    let items := match words with
      | some words => words.flatMap (expand s)
      | none => s.arguments
    finish 0
    items.forM fun item => do
      assign name item
      runAll body
  | .cases subject branches => do
    let text := expandText (← get) subject
    finish 0
    runBranch text branches
  | .choose condition thenDo elseDo => do
    runAll condition
    if (← get).status == 0 then runAll thenDo
    else
      finish 0
      runAll elseDo
  | .either first onSuccess second => do
    run first
    if ((← get).status == 0) == onSuccess then run second
  | .group body => runAll body
  | .redirected body redirections => do
    let before := (← get).streams
    if ← redirectAll redirections then run body else finish 2
    modify fun s => { s with streams := before }

/-- Runs statements one after the other. -/
def runAll : List Statement → Script Unit
  | [] => return
  | statement :: rest => do
    run statement
    runAll rest

/-- Runs the first branch whose patterns describe a text. -/
def runBranch (text : String) : List (List Word × List Statement) → Script Unit
  | [] => return
  | (patterns, body) :: rest => do
    if describes (← get) text patterns then runAll body else runBranch text rest

end

end Script

/-! ## Programs -/

/-- Runs the text of a script. -/
def runText (text script : String) (arguments : List String) (d : Disk) : CommandResult × Disk :=
  let start : Session :=
    { disk := d, bindings := [], script, arguments, status := 0
      streams := ⟨[], .output, .errors⟩, output := [], errors := [] }
  match parse? text with
  | none => (⟨.status 2, [], Utf8.encode s!"{script}: Syntax error\n"⟩, d)
  | some statements =>
    let (ended, s) := StateT.run (ExceptT.run (Script.runAll statements)) start
    let exit := match ended with
      | .error exit => exit
      | .ok () => .status s.status
    (⟨exit, s.output, s.errors⟩, s.disk)

/-- The programs that run scripts. -/
def interpreters : List String := ["/bin/sh", "/bin/bash", "/bin/dash"]

/-- The program that the first line of a script asks for. -/
def interpreterOf? (text : String) : Option String :=
  match text.toList with
  | '#' :: '!' :: rest =>
    some (Text.trim (String.ofList (rest.takeWhile (· != '\n'))))
  | _ => none

/-- The file of a program: a bare name is searched for in some directories, any other path is taken
from the directory in which the program starts. -/
def locate (d : Disk) (searched : List Path) (c : Command) : Except Disk.Fault Path :=
  if c.program.absolute || c.program.names.length != 1 then
    .ok (c.directory.join c.program)
  else
    match (searched.map (·.join c.program)).find? d.isFile with
    | some path => .ok path
    | none => .error .notFound

/-- Whether anyone may execute a file. -/
def isExecutable (f : Disk.File) : Bool := f.mode &&& 0o111 != 0

/-- The script of a program, if it can be executed. -/
def scriptOf (d : Disk) (path : Path) : Except Disk.Fault String := do
  match ← d.find path with
  | ⟨_, .file f⟩ =>
    unless isExecutable f do throw .permissionDenied
    let text := Utf8.decodeLossy f.data
    match interpreterOf? text with
    | none => throw .execFormat
    | some program => if interpreters.contains program then return text else throw .notFound
  | _ => throw .permissionDenied

/-- Runs commands that are scripts. -/
def runner (searched : List Path) : Runner := fun c => do
  let d ← get
  match locate d searched c with
  | .error fault => return .error fault
  | .ok path =>
    match scriptOf d path with
    | .error fault => return .error fault
    | .ok text =>
      let (result, after) := runText text path.text c.arguments { d with current := c.directory }
      set { after with current := d.current }
      return .ok result

/-- A host whose programs are scripts. -/
def host (searched : List Path) : CommandHost := ⟨searched, runner searched⟩

end FunctionArchive.Shell
