import FunctionArchive.CommandLine.Arguments

/-!
# Help

What is shown when a call asks for help or for the version, and when its arguments cannot be read.
-/

set_option autoImplicit false

namespace FunctionArchive.CommandLine

/-- The name of the program. -/
def programName : String := "function_bundler"

/-- The version of the program. -/
def programVersion : String := "0.1.0"

/-- How the program is called. -/
def usageLine : String :=
  s!"Usage: {programName} [OPTIONS] {Flag.source.spelling}"

/-- A name that a flag can be given as its value, and what it stands for. -/
structure ChoiceHelp where
  name : String
  description : String
deriving DecidableEq, Repr

namespace Flag

/-- What a flag does. -/
def description (full : Bool) : Flag → String
  | .source => "Directory containing functions (repeatable)"
  | .output => "Directory archives are written to"
  | .strategy => "Pin the bundling strategy for every function"
  | .concurrency => "Maximum number of functions packaged at once"
  | .external => "Module left for the runtime to provide (repeatable)"
  | .ignore => "Module or glob never packaged (repeatable)"
  | .archiveFormat => "Output format"
  | .config => "TOML configuration file; command line flags take precedence"
  | .list => "List discovered functions instead of packaging them"
  | .help =>
    if full then "Print help (see a summary with '-h')" else "Print help (see more with '--help')"
  | .version => "Print version"

/-- The values that a flag can be given. -/
def choices : Flag → List ChoiceHelp
  | .strategy =>
    [⟨StrategyChoice.graph.name, "Static dependency graph builder only"⟩,
      ⟨StrategyChoice.engine.name, "Delegated bundling engine only"⟩,
      ⟨StrategyChoice.engineWithFallback.name,
        "Delegated engine, retried with the graph builder on failure"⟩]
  | .archiveFormat =>
    [⟨ArchiveFormat.zip.name, "One deterministic \x60.zip\x60 per function"⟩,
      ⟨ArchiveFormat.directory.name, "One plain directory per function, for local inspection"⟩]
  | _ => []

/-- A flag with all its names. -/
def heading (f : Flag) : String :=
  match f.letter? with
  | some letter => s!"  -{letter}, {f.spelling}"
  | none => s!"      {f.spelling}"

end Flag

/-- A text with blanks behind it, up to a width. -/
def padded (width : Nat) (text : String) : String :=
  text ++ String.ofList (List.replicate (width - text.length) ' ')

/-- The widest of some texts. -/
def widest (texts : List String) : Nat :=
  texts.foldl (fun width text => max width text.length) 0

/-! ## Help in short -/

/-- The choices of a flag behind its description. -/
def choiceNote (f : Flag) : String :=
  if f.choices.isEmpty then ""
  else " [possible values: " ++ ", ".intercalate (f.choices.map (·.name)) ++ "]"

/-- The help in short. -/
def shortHelp : List String :=
  let width := widest (Flag.all.map Flag.heading) + 2
  ["Packages serverless functions into deterministic archives", "", usageLine, "", "Options:"] ++
    Flag.all.map fun f => padded width f.heading ++ f.description false ++ choiceNote f

/-! ## Help in full -/

/-- What the program does. -/
def introduction : List String :=
  ["Packages every function found in the source directories into a reproducible",
    "zip archive: JavaScript functions with their resolved node_modules closure,",
    "compiled executables with their mode and a toolchain.json, pre-built zips as-is.",
    "",
    "Usage:",
    s!"  {programName} --source functions --output dist",
    s!"  {programName} --source functions --output dist --strategy engine-with-fallback " ++
      "--external aws-sdk",
    s!"  {programName} --source functions --list",
    "",
    "Exit code 0 = every function was packaged."]

/-- The choices of a flag, each on a line of its own. -/
def choiceLines (f : Flag) : List String :=
  let width := widest (f.choices.map (·.name)) + 2
  if f.choices.isEmpty then []
  else "" :: "          Possible values:" :: f.choices.map fun choice =>
    "          - " ++ padded width (choice.name ++ ":") ++ choice.description

/-- The lines about a flag. -/
def flagLines (f : Flag) : List String :=
  ["", f.heading, "          " ++ f.description true] ++ choiceLines f

/-- The help in full. -/
def fullHelp : List String :=
  introduction ++ ["", usageLine, "", "Options:"] ++ (Flag.all.flatMap flagLines).drop 1

/-! ## Arguments that cannot be read -/

/-- What is wrong with the arguments. -/
def Halt.message : Halt → String
  | .help _ | .version => ""
  | .unknown argument => s!"unexpected argument '{argument}' found"
  | .missingValue flag =>
    s!"a value is required for '{flag.spelling}' but none was supplied"
  | .noChoice flag value | .noNumber flag value =>
    s!"invalid value '{value}' for '{flag.spelling}'"
  | .needlessValue flag value =>
    s!"unexpected value '{value}' for '{flag.spelling}' found; no more were expected"
  | .repeated flag => s!"the argument '{flag.spelling}' cannot be used multiple times"
  | .required flags =>
    "the following required arguments were not provided: " ++
      ", ".intercalate (flags.map Flag.spelling)

end FunctionArchive.CommandLine
