import FunctionArchive.Exclusion
import FunctionArchive.FunctionConfig
import FunctionArchive.Graph
import FunctionArchive.Script.Scan

/-!
# Following references

What a closure learns from one file or from one declared dependency, as a list of findings. A
reference leads to a file, perhaps inside a package that is entered by it; or it is left out by the
configuration; or it is missing, which only a package may tolerate. Scripts of installed packages
that cannot be parsed are shipped without being followed.
-/

set_option autoImplicit false

namespace FunctionArchive

/-- What decides which references are followed and which files are shipped. -/
structure GraphPolicy where
  /-- Modules left to the place where the function runs. -/
  external : ModuleFilter
  /-- Modules that are left out without a word. -/
  ignored : ModuleFilter
  /-- Files of packages that are not shipped. -/
  exclusion : Exclusion
  /-- The extensions that a reference may leave out. -/
  extensions : List String

/-- The policy that the options of a function ask for. -/
def GraphPolicy.make (config : FunctionConfig) (sourceMaps : Bool) (extensions : List String) :
    Outcome GraphPolicy := do
  let external ← ModuleFilter.make config.externalModules
  let ignored ← ModuleFilter.make config.ignoredModules
  let exclusion ← Exclusion.make config.excludeFiles sourceMaps
  return ⟨external, ignored, exclusion, extensions⟩

/-- A package that a reference enters, with the names of the dependencies that it declares. -/
structure EnteredPackage where
  root : Path
  dependencies : List String
deriving DecidableEq, Repr

/-- Something that a closure learns. -/
inductive GraphFinding
  /-- A file was gone through: its fixed references, and whether it computes others. -/
  | visited (file : Path) (references : List String) (dynamic : Bool)
  /-- A reference leads to a file, over these links. -/
  | reached (file : Path) (package : Option EnteredPackage) (links : List Link)
  /-- A package is referred to and left out. -/
  | leftOut (package : String)
  | noted (warning : Warning)
deriving DecidableEq, Repr

/-- Whether a path leads through a directory of installed packages. -/
def Path.isInstalled (p : Path) : Bool := p.components.contains Resolution.packagesName

namespace GraphPolicy

variable (policy : GraphPolicy)

/-- A package with the dependencies that its manifest declares. -/
def enter (root : Path) : Query EnteredPackage := do
  let manifest ← Manifests.load root
  return ⟨root, (manifest.map fun m => m.dependencies.map Prod.fst).getD []⟩

/-- What a reference from a file means for the closure. A dependency that is merely declared may be
missing. -/
def follow (reference : String) (requirer : Path) (declared : Bool) :
    Query (List GraphFinding) := do
  if Reference.isBuiltin reference then return []
  if policy.external.covers reference then
    return [.leftOut (Reference.packageName reference)]
  if policy.ignored.covers reference then return []
  match ← observing (Resolution.resolve policy.extensions reference requirer) with
  | .ok .builtin => return []
  | .ok (.optional reason) => return [.noted (.optionalMissing reference requirer reason)]
  | .ok (.resolved path none links) => return [.reached path none links]
  | .ok (.resolved path (some root) links) => return [.reached path (some (← enter root)) links]
  | .error (.missingDependency name origin) =>
    if declared then return [.noted (.undeclaredMissing name requirer)]
    else throw (.missingDependency name origin)
  | .error fault => throw fault

/-- What one reference found in a script means. -/
def followFound (file : Path) : Script.Reference → Query (List GraphFinding)
  | .static reference => policy.follow reference file false
  | .dynamic expression => return [.noted (.dynamicReference file expression)]

/-- The fixed references among those found in a script. -/
def staticReferences (references : List Script.Reference) : List String :=
  sortedTexts (references.filterMap fun
    | .static reference => some reference
    | .dynamic _ => none)

/-- Whether a reference is computed at run time. -/
def isDynamic : Script.Reference → Bool
  | .static _ => false
  | .dynamic _ => true

/-- What a script says about the closure. -/
def followScript (file : Path) (scan : Script.Scan) : Query (List GraphFinding) := do
  let found ← scan.references.mapM (policy.followFound file)
  let syntaxNote :=
    if scan.moduleSyntax && !file.isInstalled then
      [GraphFinding.noted (.staticModuleSyntax file)]
    else []
  return syntaxNote ++ found.flatten ++
    [.visited file (staticReferences scan.references) (scan.references.any isDynamic)]

/-- What a file says about the closure. Only scripts refer to other files. -/
def visit (file : Path) : Query (List GraphFinding) := do
  if !Script.isScript file then return [.visited file [] false]
  let bytes ← Query.askDisk "reading source file" file (·.read file)
  match Script.scan (Utf8.decodeLossy bytes) file with
  | .ok scan => policy.followScript file scan
  | .error (.source path line) =>
    if file.isInstalled then
      return [.noted (.unparsedSource file line), .visited file [] false]
    else throw (.source path line)
  | .error fault => throw fault

end GraphPolicy

end FunctionArchive
