import FunctionArchive.Command
import FunctionArchive.Engine.Metafile
import FunctionArchive.Exclusion
import FunctionArchive.Text.Blank

/-!
# The esbuild engine

Bundles with an `esbuild` program: a chosen one, or the first that the search path leads to. The
program is told what to leave outside; modules to be ignored are replaced by an empty one as long as
they are given by name, and left outside where only a pattern describes them. What it complains of
is read from its second output, and what it left outside from the document that it writes.
-/

set_option autoImplicit false

namespace FunctionArchive

/-- An engine that runs esbuild. -/
structure Esbuild where
  /-- The program, unless it is to be searched for. -/
  binary : Option Path := none
  /-- The run time that the bundle is written for. -/
  target : String := "node18"
deriving DecidableEq, Repr

namespace Esbuild

/-- The name of the engine and of the program. -/
def name : String := "esbuild"

/-- The document with what the bundle refers to. -/
def metafileName : String := "metafile.json"

/-- The module that takes the place of ignored ones. -/
def stubName : String := "__ignored_module.js"

/-- The text of that module. -/
def stubText : String := "module.exports = {};\n"

/-- A failure of the engine. -/
def failure (message : String) (errors : List String := []) : Fault :=
  .engine name message errors

/-! ## What the program is told -/

/-- The file for the bundle of a request. -/
def bundleFile (r : EngineRequest) : Path :=
  r.directory.child ((r.entry.fileStem?.getD "index") ++ ".js")

/-- The file for the document of a request. -/
def metafile (r : EngineRequest) : Path := r.directory.child metafileName

/-- The ignored modules that are given by name. -/
def stubbed (r : EngineRequest) : List String :=
  r.ignoredModules.filter (!ModuleFilter.isPattern ·)

/-- The arguments for a request. -/
def arguments (e : Esbuild) (r : EngineRequest) : List String :=
  [r.entry.text, "--bundle", "--platform=node", "--format=cjs", "--log-level=warning",
    s!"--target={e.target}", s!"--outfile={bundleFile r}", s!"--metafile={metafile r}"] ++
  r.externalModules.map ("--external:" ++ ·) ++
  (stubbed r).map (fun name => s!"--alias:{name}=./{stubName}") ++
  (r.ignoredModules.filter ModuleFilter.isPattern).map ("--external:" ++ ·)

/-! ## What the program tells -/

/-- What stands behind the first occurrence of a mark. -/
def behind? (mark : List Char) : List Char → Option (List Char)
  | [] => if mark.isEmpty then some [] else none
  | c :: rest =>
    if mark.isPrefixOf (c :: rest) then some ((c :: rest).drop mark.length) else behind? mark rest

/-- The message that a line gives with a mark. -/
def messageBehind? (mark : String) (line : List Char) : Option String :=
  (behind? mark.toList line).map fun chars => String.ofList (Text.trimChars chars)

/-- What the program complained of. -/
structure Diagnostics where
  errors : List String
  warnings : List String
deriving DecidableEq, Repr

/-- Reads the complaints in a text. A line that bears both marks is an error. -/
def diagnostics (text : String) : Diagnostics :=
  let lines := text.toList.splitOn '\n'
  ⟨lines.filterMap (messageBehind? "[ERROR]"),
    (lines.filter fun line => (messageBehind? "[ERROR]" line).isNone).filterMap
      (messageBehind? "[WARNING]")⟩

/-- The errors of a program that failed: the whole text, if it marks none. -/
def failureErrors (text : String) : List String :=
  let errors := (diagnostics text).errors
  if errors.isEmpty && !Text.isBlankText text then [Text.trim text] else errors

/-! ## Bundling -/

/-- The program to be run. -/
def locate (e : Esbuild) (host : CommandHost) : Task Path := do
  match e.binary with
  | some path => return path
  | none =>
    match host.find? name (← get) with
    | some path => return path
    | none => throw (failure s!"{name} not found in PATH: cannot find binary path")

/-- Runs the program for a request. -/
def run (e : Esbuild) (host : CommandHost) (program : Path) (r : EngineRequest) :
    Task CommandResult := do
  let result ← ExceptT.lift (host.run ⟨program, e.arguments r, r.directory⟩)
  match result with
  | .ok result => return result
  | .error fault => throw (failure s!"failed to run {program}: {fault.message}")

/-- Bundles a script. -/
def bundle (e : Esbuild) (host : CommandHost) (r : EngineRequest) : Task EngineResult := do
  let program ← e.locate host
  unless (stubbed r).isEmpty do
    let stub := r.directory.child stubName
    Task.change "writing ignored module stub" stub (·.write stub (Utf8.encode stubText))
  let result ← e.run host program r
  let told := Utf8.decodeLossy result.errors
  unless result.exit.isSuccess do
    throw (failure s!"exited with {result.exit.message}" (failureErrors told))
  let bytes ← Task.ask "reading esbuild metafile" (metafile r) (·.read (metafile r))
  match Metafile.read bytes with
  | .ok document => return ⟨bundleFile r, document.packages, (diagnostics told).warnings⟩
  | .error error => throw (failure s!"invalid metafile: {error.message}")

/-- The engine. -/
def engine (e : Esbuild) (host : CommandHost) : Engine := ⟨name, e.bundle host⟩

end Esbuild

end FunctionArchive
