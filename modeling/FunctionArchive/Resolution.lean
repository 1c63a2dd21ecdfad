import FunctionArchive.Manifest.Cache
import FunctionArchive.Manifest.Exports
import FunctionArchive.Package.Allowance
import FunctionArchive.Reference

/-!
# Resolving references

A reference in a script means a file. A path is taken from the directory of the script; it may
leave out the extension, or mean a directory that says by its manifest or by an index file what
stands for it. Any other reference is looked for among the packages installed next to the script
and next to each directory above it. There the export map of the package speaks first.

Look-ups start from the real place of the script, and a resolved path is real; the links crossed
on the way are reported, so that they can be rebuilt elsewhere. What cannot be found is a fault
unless the package of the script may do without.
-/

set_option autoImplicit false

namespace FunctionArchive

/-- A link that was crossed. -/
structure Link where
  /-- Where the link is; its directory is a real path. -/
  path : Path
  /-- The real path of what it leads to. -/
  target : Path
deriving DecidableEq, Repr

/-- What a reference turned out to mean. -/
inductive Resolution
  /-- A module of the run time. -/
  | builtin
  /-- A file, the installed package that it was found in, and the links on the way. -/
  | resolved (path : Path) (package : Option Path) (links : List Link)
  /-- Nothing, which is tolerated. -/
  | optional (reason : Tolerance)
deriving DecidableEq, Repr

/-- A reference that was found among installed packages. -/
structure Installed where
  /-- The file, by the path on which it was found. -/
  path : Path
  /-- The real path of the package, unless the reference means a single file. -/
  package : Option Path
deriving DecidableEq, Repr

namespace Resolution

/-- The directory of installed packages. -/
def packagesName : String := "node_modules"

/-- The plain path that a path spells. -/
def normalized (path : Path) : Query Path := return Path.normalize (← read).current path

/-- The real path of what is at a path. -/
def realPath (path : Path) : Query Path :=
  .askDisk "resolving real path" path (·.realPath path)

/-- The links crossed on the way from a real directory through these names. -/
def linksFrom (directory : Path) : List String → Query (List Link)
  | [] => return []
  | name :: rest => do
    let next := directory.child name
    if ← Query.test (·.isLink next) then
      let target ← realPath next
      return ⟨next, target⟩ :: (← linksFrom target rest)
    else linksFrom next rest

/-- The links crossed on the way to a path from the deepest directory that it shares with a real
one. -/
def linksTo (directory path : Path) : Query (List Link) := do
  match directory.ancestors.find? path.isWithin with
  | none => return []
  | some base => linksFrom base ((path.relativeTo? base).getD [])

/-- The first of some paths that leads to a file. -/
def firstFile (paths : List Path) : Query (Option Path) := do
  let d ← read
  return paths.find? d.isFile

section

variable (extensions : List String)

/-- The file that a path means: itself, or itself with an extension. -/
def file (path : Path) : Query (Option Path) :=
  firstFile (path :: extensions.map path.appendToName)

/-- The index file of a directory. -/
def index (directory : Path) : Query (Option Path) :=
  firstFile (extensions.map fun extension => directory.child ("index" ++ extension))

/-- The file that the manifest of a directory names as its main file. -/
def mainFile (directory : Path) : Query (Option Path) := do
  match (← Manifests.load directory).bind (·.main) with
  | none => return none
  | some main =>
    let path ← normalized (directory.child main)
    match ← file extensions path with
    | some found => return some found
    | none => index extensions path

/-- The file that stands for a directory. -/
def directoryFile (directory : Path) : Query (Option Path) := do
  if ← Query.test (·.isDirectory directory) then
    match ← mainFile extensions directory with
    | some found => return some found
    | none => index extensions directory
  else return none

/-- The file that a path means. -/
def pathFile (path : Path) : Query (Option Path) := do
  match ← file extensions path with
  | some found => return some found
  | none => directoryFile extensions path

/-- The file that the export map of a package gives for a reference. -/
def exported (package : Path) (reference : String) : Query (Option Path) := do
  unless ← Query.test (·.isDirectory package) do return none
  match (← Manifests.load package).bind (·.exportTarget? (Reference.subpath reference)) with
  | none => return none
  | some target => firstFile [← normalized (package.child target)]

/-- The file that a reference means in one directory of installed packages. -/
def installedIn (packages : Path) (reference : String) : Query (Option Path) := do
  match ← exported (packages.child (Reference.packageName reference)) reference with
  | some found => return some found
  | none => pathFile extensions (packages.child reference)

/-- Looks for a reference among the packages installed in each of some directories. -/
def installedNext (reference : String) : List Path → Query (Option Installed)
  | [] => return none
  | directory :: rest => do
    let packages := directory.child packagesName
    if directory.fileName? == some packagesName ||
        !(← Query.test (·.isDirectory packages)) then
      installedNext reference rest
    else
      match ← installedIn extensions packages reference with
      | none => installedNext reference rest
      | some path =>
        let package := packages.child (Reference.packageName reference)
        if ← Query.test (·.isDirectory package) then
          return some ⟨path, some (← realPath package)⟩
        else return some ⟨path, none⟩

/-- Looks for a reference among the packages installed in a directory or above it. -/
def installed (reference : String) (directory : Path) : Query (Option Installed) :=
  installedNext extensions reference directory.ancestors

/-- Why a package may be missing for the scripts of a directory. -/
def tolerance (package : String) (directory : Path) : Query (Option Tolerance) := do
  match ← Manifests.find directory with
  | none => return none
  | some m =>
    if m.isOptional package then return some (.optionalDependency m.path)
    if m.isPeerOptional package then return some (.optionalPeer m.path)
    match m.name with
    | some name =>
      if Package.mayLack name m.version package then return some (.knownPackage name)
      else return none
    | none => return none

/-- What a reference in a script means. The path of the script is real. -/
def resolve (reference : String) (requirer : Path) : Query Resolution := do
  if Reference.isBuiltin reference then return .builtin
  let directory := requirer.parent?.getD .root
  let missing : Fault := .missingDependency reference requirer
  if Reference.isRelative reference then
    match ← pathFile extensions (← normalized (directory.child reference)) with
    | some found =>
      return .resolved (← realPath found) none (← linksTo directory found)
    | none => throw missing
  else
    match ← installed extensions reference directory with
    | some found =>
      return .resolved (← realPath found.path) found.package (← linksTo directory found.path)
    | none =>
      match ← tolerance (Reference.packageName reference) directory with
      | some reason => return .optional reason
      | none => throw missing

end

end Resolution

end FunctionArchive
