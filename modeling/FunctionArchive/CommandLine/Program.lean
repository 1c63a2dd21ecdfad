import FunctionArchive.CommandLine.Help
import FunctionArchive.ConfigFile
import FunctionArchive.Engine.Esbuild
import FunctionArchive.Packing

/-!
# The program

A call lists functions or packs them. Its arguments are laid over a configuration file: a single
value on the command line replaces that of the file, and lists are joined. What came of the call is
a `Report`: the code with which the program ends and what it tells.
-/

set_option autoImplicit false

namespace FunctionArchive

/-- The options that a configuration file and a call ask for. -/
def Options.ofCall (host : CommandHost) (file : ConfigFile) (a : CommandLine.Arguments) :
    Options where
  defaults :=
    { strategy := a.strategy <|> file.strategy
      externalModules := file.externalModules ++ a.external
      ignoredModules := file.ignoredModules ++ a.ignore
      excludeFiles := file.excludeFiles }
  overrides := file.functions
  concurrency := a.concurrency <|> file.concurrency
  format := (a.archiveFormat <|> file.archiveFormat).getD .zip
  extensions := file.extensions
  sourceMaps := file.sourceMaps.getD false
  boundary := file.boundary
  engine := file.esbuild.map fun binary =>
    Esbuild.engine { binary := some binary } host

namespace CommandLine

/-- Why a call whose arguments can be read fails. -/
inductive CallFault
  | arguments (flaw : Arguments.Flaw)
  | config (flaw : ConfigFile.Flaw)
  | failure (cause : Fault)
deriving DecidableEq, Repr

/-- The wording of a fault. -/
def CallFault.message : CallFault → String
  | .arguments flaw => s!"CLI error: Invalid arguments: {flaw.message}"
  | .config flaw => flaw.message
  | .failure cause => s!"Bundler error: {cause.message}"

/-- The settings that a call asks for. -/
def settings (host : CommandHost) (d : Disk) (a : Arguments) : Except CallFault Settings := do
  match a.flaw? with
  | some flaw => throw (.arguments flaw)
  | none => pure ()
  let file ← match a.config with
    | some path => (ConfigFile.load d path).mapError .config
    | none => pure {}
  ((Options.ofCall host file a).build (Esbuild.engine {} host)).mapError .failure

/-- What came of a call. -/
structure Report where
  /-- The code with which the program ends. -/
  code : Nat
  output : List String
  errors : List String
deriving DecidableEq, Repr

namespace Report

/-- The line about a function in a listing. -/
def listed (f : FunctionSource) : String :=
  s!"{f.name}\t{f.runtime.name}\t{f.entry}"

/-- The line about a function that was packed. -/
def packed (f : FunctionSource) (a : Archive) : String :=
  s!"{f.name}\t{a.strategy.name}\t{a.checksum}\t{a.path}"

/-- What is told about a function. -/
def ofSlot (slot : Packing.Slot) : Report :=
  match slot.result with
  | .ok archive =>
    ⟨0, [packed slot.function archive],
      (archive.recovered.getD []).map fun message => s!"  recovered from: {message}"⟩
  | .error fault => ⟨1, [], [s!"{slot.function.name}: {fault.message}"]⟩

/-- What is told about all functions. -/
def ofSlots (slots : List Packing.Slot) : Report :=
  let reports := slots.map ofSlot
  let failed := (reports.filter (·.code != 0)).length
  let output := reports.flatMap (·.output)
  let errors := reports.flatMap (·.errors)
  if failed == 0 then ⟨0, output, errors⟩
  else ⟨1, output, errors ++ [s!"{failed} of {slots.length} functions failed to package"]⟩

/-- What is told about arguments that are not carried out. -/
def ofHalt : Halt → Report
  | .help full => ⟨0, if full then fullHelp else shortHelp, []⟩
  | .version => ⟨0, [s!"{programName} {programVersion}"], []⟩
  | halt => ⟨2, [], [s!"error: {halt.message}", "", usageLine, "",
      "For more information, try '--help'."]⟩

/-- What is told about a call that fails as a whole. -/
def ofFault (fault : CallFault) : Report := ⟨1, [], [s!"Error: {fault.message}"]⟩

end Report

/-- Carries out a call. -/
def perform (s : Settings) (a : Arguments) : Action Report := do
  if a.list then
    return ⟨0, (← Discovery.discover s a.sources).map Report.listed, []⟩
  else
    return Report.ofSlots (← Packing.packAll s a.sources (a.output.getD ⟨false, []⟩))

/-- Runs the program with the arguments of a call. -/
def run (host : CommandHost) (texts : List String) : StateM Disk Report := do
  match Arguments.read texts with
  | .error halt => return Report.ofHalt halt
  | .ok a =>
    let d ← get
    match settings host d a with
    | .error fault => return Report.ofFault fault
    | .ok s =>
      let (result, world) := (perform s a).run ⟨d, .empty s.boundary, []⟩
      set world.disk
      match result with
      | .ok report => return report
      | .error fault => return Report.ofFault (.failure fault)

end CommandLine

end FunctionArchive
