import FunctionArchive.Engine
import FunctionArchive.FunctionConfig
import FunctionArchive.Text.Blank

/-!
# Settings of a run

The settings that hold for all functions, and the overrides for functions whose names match a
pattern: the first pattern that matches a name decides. `Options` are settings as they are asked
for; only sound ones make `Settings`.
-/

set_option autoImplicit false

namespace FunctionArchive

/-- What an archive is. -/
inductive ArchiveFormat
  | zip
  | directory
deriving DecidableEq, Repr, Inhabited

namespace ArchiveFormat

/-- All formats. -/
def all : List ArchiveFormat := [.zip, .directory]

/-- The name of a format in configuration files and on the command line. -/
def name : ArchiveFormat → String
  | .zip => "zip"
  | .directory => "directory"

/-- The format of that name. -/
def ofName? (text : String) : Option ArchiveFormat :=
  all.find? (·.name == text)

end ArchiveFormat

/-- The settings of a run. -/
structure Settings where
  /-- The options of every function. -/
  defaults : FunctionConfig
  /-- Further options for functions whose names match. -/
  overrides : List (Glob.Pattern × FunctionConfig)
  /-- How many functions may be packed at once. -/
  concurrency : Option Nat
  format : ArchiveFormat
  /-- The extensions that a reference may leave out, in the order in which they are tried. -/
  extensions : List String
  /-- Whether source maps of packages are shipped. -/
  sourceMaps : Bool
  /-- The last directory in which a search for a manifest looks. -/
  boundary : Option Path
  engine : Engine

/-- The options of the function of this name. -/
def Settings.configOf (s : Settings) (name : String) : FunctionConfig :=
  match s.overrides.find? fun entry => entry.1.matches name with
  | some (_, config) => s.defaults.mergedWith config
  | none => s.defaults

/-- Settings as they are asked for. -/
structure Options where
  defaults : FunctionConfig := {}
  overrides : List (String × FunctionConfig) := []
  concurrency : Option Nat := none
  format : ArchiveFormat := .zip
  extensions : Option (List String) := none
  sourceMaps : Bool := false
  boundary : Option Path := none
  engine : Option Engine := none

namespace Options

/-- The extensions that a reference may leave out, unless others are asked for. -/
def defaultExtensions : List String := [".js", ".cjs", ".mjs", ".json", ".node"]

/-- An extension with its dot. -/
def readExtension (text : String) : Outcome String :=
  let name := Text.trim text
  if name.isEmpty || name == "." then .error (.config .emptyExtension)
  else if name.toList.head? == some '.' then .ok name
  else .ok ("." ++ name)

/-- An override with its pattern. -/
def readOverride (entry : String × FunctionConfig) : Outcome (Glob.Pattern × FunctionConfig) :=
  match Glob.Pattern.read entry.1 with
  | .ok pattern => .ok (pattern, entry.2)
  | .error error => .error (.config (.pattern "function name" entry.1 error))

/-- The settings that are asked for, if they are sound. -/
def build (o : Options) (defaultEngine : Engine) : Outcome Settings := do
  if o.concurrency == some 0 then throw (.config .noConcurrency)
  let overrides ← o.overrides.mapM readOverride
  let extensions ← match o.extensions with
    | some texts => texts.mapM readExtension
    | none => pure defaultExtensions
  return {
    defaults := o.defaults
    overrides
    concurrency := o.concurrency
    format := o.format
    extensions
    sourceMaps := o.sourceMaps
    boundary := o.boundary
    engine := o.engine.getD defaultEngine }

end Options

end FunctionArchive
