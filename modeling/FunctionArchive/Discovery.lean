import FunctionArchive.FunctionSource
import FunctionArchive.Resolution
import FunctionArchive.Settings
import FunctionArchive.World

/-!
# Finding functions

Each child of a source directory may be a function: a script, an archive that is ready, an
executable, or a directory with one of these in it. Files of languages that cannot be packed are
refused; in a listing they are passed over with a warning. Of several functions with one name a
listing keeps the first.
-/

set_option autoImplicit false

namespace FunctionArchive

namespace FunctionSource

/-- Extensions of scripts, in the order in which a directory is searched for them. -/
def scriptExtensions : List String := ["js", "cjs", "mjs", "ts", "cts", "mts"]

/-- The extension of an archive. -/
def archiveExtension : String := "zip"

/-- Extensions of languages that cannot be packed. -/
def unsupportedExtensions : List String := ["py", "rb", "php", "java", "jar", "cs", "sh"]

/-- The files that a function in a directory may start from: a script named like the directory, an
index script, then an executable. -/
def entryCandidates (directory : Path) (name : String) : List Path :=
  ([name, "index"].flatMap fun stem =>
      scriptExtensions.map fun extension => directory.child s!"{stem}.{extension}") ++
    [directory.child name, directory.child "bootstrap"]

/-- The extension of a file in lower case, empty if there is none. -/
def extensionOf (entry : Path) : String :=
  (entry.extension?.getD "").toLower

/-- The run time of a file, if it is a function. -/
def runtimeOf (d : Disk) (entry : Path) : Outcome (Option Runtime) :=
  let extension := extensionOf entry
  if scriptExtensions.contains extension then .ok (some .script)
  else if extension == archiveExtension then .ok (some .archive)
  else if unsupportedExtensions.contains extension then
    .error (.unsupportedRuntime entry s!"'.{extension}' functions cannot be packaged")
  else if !extension.isEmpty then .ok none
  else
    match d.read entry with
    | .ok bytes => .ok (Runtime.ofExecutable? bytes)
    | .error fault => .error (.disk "reading executable" entry fault)

/-- The name of the function at a path and the file that it starts from. -/
def nameAndEntry? (d : Disk) (path : Path) : Outcome (Option (String × Path)) :=
  match d.find path with
  | .error fault => .error (.disk "reading function metadata" path fault)
  | .ok ⟨_, .directory _⟩ =>
    .ok do
      let name ← path.fileName?
      let entry ← (entryCandidates path name).find? d.isFile
      return (name, entry)
  | .ok _ => .ok (path.fileStem?.map (·, path))

/-- The function at a path, if there is one. -/
def ofPath (d : Disk) (s : Settings) (path : Path) : Outcome (Option FunctionSource) := do
  match ← nameAndEntry? d path with
  | none => return none
  | some (name, entry) =>
    match ← runtimeOf d entry with
    | none => return none
    | some runtime =>
      return some {
        name
        entry := Path.normalize d.current entry
        runtime
        extension := extensionOf entry
        config := s.configOf name }

end FunctionSource

namespace Discovery

/-- Whether an entry of a source directory is never looked at. -/
def isHidden (name : String) : Bool :=
  name.toList.head? == some '.' || name == Resolution.packagesName

/-- The children of a source directory that may be functions, in the order of their names. -/
def children (d : Disk) (directory : Path) : Outcome (List Path) :=
  if !d.isDirectory directory then .error (.emptyDirectory directory)
  else
    match d.list directory with
    | .ok names =>
      .ok (((names.mergeSort fun a b => a ≤ b).filter (!isHidden ·)).map directory.child)
    | .error fault => .error (.disk "reading source directory" directory fault)

/-- Adds the function at a path to those found so far, if there is one and its name is new. -/
def addChild (s : Settings) (found : List FunctionSource) (path : Path) :
    Action (List FunctionSource) := do
  match FunctionSource.ofPath (← get).disk s path with
  | .ok none => return found
  | .ok (some f) =>
    if found.any (·.name == f.name) then
      Action.note .warning s!"Skipping {path}: a function named '{f.name}' was already found"
      return found
    else return found ++ [f]
  | .error (.unsupportedRuntime entry reason) =>
    Action.note .warning s!"Skipping {entry}: {reason}"
    return found
  | .error fault => throw fault

/-- Adds the functions of a directory. -/
def addDirectory (s : Settings) (found : List FunctionSource) (directory : Path) :
    Action (List FunctionSource) := do
  let paths ← Action.ofOutcome (children (← get).disk directory)
  paths.foldlM (addChild s) found

/-- The functions in some directories, in the order of the directories and then of names. -/
def discover (s : Settings) (directories : List Path) : Action (List FunctionSource) :=
  directories.foldlM (addDirectory s) []

end Discovery

end FunctionArchive
