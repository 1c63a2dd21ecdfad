import FunctionArchive.CommandLine.Program
import FunctionArchive.Shell.Run

/-!
# The command

Takes the files that a call can reach from the machine, runs the program on them, and brings what
the program changed back to the machine. These are the files below the working directory, the
manifests and packages of the directories above it, what stands at absolute paths among the
arguments, and the bundling program if the search path leads to it.

Permissions cannot be asked for here, so a file counts as executable if it starts like a program.
Links are kept by the real path of what they lead to, and a link that the program made is written
as what it leads to.
-/

set_option autoImplicit false

namespace FunctionArchive.Machine

/-- The permission bits that a file with these bytes most likely has. -/
def modeOf (data : List UInt8) : Nat :=
  let isScript := (Utf8.encode "#!").isPrefixOf data
  if Executable.isExecutable data || isScript then 0o755 else 0o644

/-- The entry of a directory, and everything below it. -/
partial def nodeOf? (entry : IO.FS.DirEntry) : IO (Option (String × Disk.Node)) := do
  let info ← entry.path.symlinkMetadata
  match info.type with
  | .file =>
    let data := (← IO.FS.readBinFile entry.path).toList
    let file : Disk.File := ⟨data, modeOf data, info.modified.1.toNat⟩
    return some (entry.fileName, .file file)
  | .dir =>
    let entries ← (← entry.path.readDir).toList.filterMapM nodeOf?
    return some (entry.fileName, .directory entries)
  | .symlink =>
    try
      return some (entry.fileName, .link (← IO.FS.realPath entry.path).toString)
    catch _ => return none
  | .other => return none

/-- Takes a path from the machine, if there is something. -/
def take (d : Disk) (path : Path) : IO Disk := do
  match path.parent?, path.fileName? with
  | some parent, some name =>
    try
      let directory ← IO.FS.realPath parent.text
      match ← nodeOf? ⟨directory, name⟩ with
      | some (_, node) =>
        let real := Path.ofString directory.toString
        match d.createDirectories real with
        | .ok d => return d.put (real.components ++ [name]) (some node)
        | .error _ => return d
      | none => return d
    catch _ => return d
  | _, _ => return d

/-- The paths that a call can reach from a working directory. -/
def reachable (current : Path) (searchPath : List Path) (arguments : List String) : List Path :=
  let above := current.ancestors.drop 1
  above.flatMap (fun directory =>
      [directory.child Manifest.fileName, directory.child Resolution.packagesName]) ++
    searchPath.map (·.child Esbuild.name) ++
    (arguments.map Path.ofString).filter (·.absolute) ++ [current]

/-- Writes a file of the program to the machine. -/
def writeFile (path : Path) (f : Disk.File) : IO Unit := do
  if let some parent := path.parent? then IO.FS.createDirAll parent.text
  IO.FS.writeBinFile path.text ⟨f.data.toArray⟩
  let anyone : IO.AccessRight := ⟨true, false, f.mode &&& 0o111 != 0⟩
  IO.setAccessRights path.text ⟨{ anyone with write := true }, anyone, anyone⟩

/-- Brings an entry that the program left to the machine, unless it was there before. -/
def bring (before after : Disk) (names : List String) : IO Unit := do
  let path := Path.ofNames names
  match after.file path with
  | .ok f => if (before.file path).toOption != some f then writeFile path f
  | .error _ => if after.isDirectory path then IO.FS.createDirAll path.text

/-- Removes what the program removed. -/
def discard (after : Disk) (names : List String) : IO Unit := do
  let path := Path.ofNames names
  if (after.findEntry path).toOption.isNone then
    try IO.FS.removeFile path.text catch _ => pure ()

/-- The directories of the search path. -/
def searchPath : IO (List Path) := do
  let text := (← IO.getEnv "PATH").getD ""
  return (text.splitOn ":").filterMap fun directory =>
    if directory.isEmpty then none else some (.ofString directory)

/-- Runs the program on the machine: the code with which it ends. -/
def run (arguments : List String) : IO UInt32 := do
  let current := Path.ofString (← IO.currentDir).toString
  let searched ← searchPath
  let empty : Disk := ⟨.directory [], current, (← IO.monoMsNow) / 1000⟩
  let before ← (reachable current searched arguments).foldlM take empty
  let (report, after) := (CommandLine.run (Shell.host searched) arguments).run before
  (before.root.leaves.map (·.1)).forM (discard after)
  (after.root.leaves.map (·.1)).forM (bring before after)
  report.output.forM IO.println
  report.errors.forM IO.eprintln
  return report.code.toUInt32

end FunctionArchive.Machine

/-- The command: its arguments are those of the call. -/
def main (arguments : List String) : IO UInt32 :=
  FunctionArchive.Machine.run arguments
