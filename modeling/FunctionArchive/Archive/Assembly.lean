import FunctionArchive.Archive.Writing
import FunctionArchive.Settings
import FunctionArchive.World

/-!
# Assembling archives

The archive of a function bears its name. A failure is told with the path at which the archive
would have been.
-/

set_option autoImplicit false

namespace FunctionArchive.Archive

/-- Where the archive of a function belongs. -/
def pathFor (strategy : Strategy) (format : ArchiveFormat) (name : String) (destination : Path) :
    Path :=
  if strategy == .passthrough || format == .zip then destination.child (name ++ ".zip")
  else destination.child name

/-- Writes the archive of a bundle. -/
def writeBundle (b : Bundle) (f : FunctionSource) (format : ArchiveFormat) (path : Path) :
    Writing (List ArchiveEntry) :=
  if b.strategy == .passthrough then passOn f.entry path
  else
    match format with
    | .zip => writeZip path (contents b)
    | .directory => writeDirectory path (contents b)

/-- The checksum of what has been written. -/
def checksumOf (path : Path) : Writing String :=
  Writing.look fun d =>
    (Checksum.ofPath d path).mapError fun
      | .disk _ _ cause => .checksum cause
      | _ => .notAnArchive

/-- Writes an archive and takes its checksum. -/
def writeAndCheck (b : Bundle) (f : FunctionSource) (format : ArchiveFormat) (path : Path) :
    Writing (List ArchiveEntry × String) := do
  let entries ← writeBundle b f format path
  return (entries, ← checksumOf path)

/-- Does the work on the archive at a path. -/
def act {α : Type} (path : Path) (work : Writing α) : Action α := do
  let w ← get
  let (result, disk) := work.run w.disk
  set { w with disk }
  match result with
  | .ok a => return a
  | .error flaw => throw (.archive path flaw)

/-- Assembles the archive of a bundle in a directory. -/
def assemble (b : Bundle) (f : FunctionSource) (destination : Path) (format : ArchiveFormat) :
    Action Archive := do
  let path := pathFor b.strategy format f.name destination
  let (entries, checksum) ← act path (writeAndCheck b f format path)
  Action.note .info
    (s!"Packaged '{f.name}' into {path} ({entries.length} entries, " ++
      s!"{b.strategy.name} strategy)")
  return {
    path, entries, checksum
    runtime := b.runtime
    strategy := b.strategy
    warnings := b.warnings
    recovered := b.recovered }

end FunctionArchive.Archive
