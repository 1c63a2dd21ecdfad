import FunctionArchive.Archive
import FunctionArchive.Checksum
import FunctionArchive.Disk.Change
import FunctionArchive.Zip.Reader

/-!
# Writing archives

An archive is prepared beside the place where it belongs and moved there when it is complete. What
was prepared is removed if anything goes wrong before. An archive that is ready is copied and then
looked at; a directory that was there before is replaced as a whole.
-/

set_option autoImplicit false

namespace FunctionArchive

/-- Work on an archive that may fail; what was done until then stays done. -/
abbrev Writing := ExceptT ArchiveFlaw (StateM Disk)

namespace Writing

/-- A change of the file system. -/
def change (f : Disk → Except Disk.Fault Disk) : Writing Unit := do
  match f (← get) with
  | .ok d => set d
  | .error cause => throw (.io cause)

/-- A change of the file system that is left out if it is refused. -/
def attempt (f : Disk → Except Disk.Fault Disk) : Writing Unit :=
  modify fun d => (f d).toOption.getD d

/-- Looks at the file system. -/
def look {α : Type} (f : Disk → Except ArchiveFlaw α) : Writing α := do
  match f (← get) with
  | .ok a => return a
  | .error flaw => throw flaw

end Writing

/-! ## Copying -/

namespace CopyFlaw

/-- Copies a file and creates the directories above the destination. -/
def copyFile (source destination : Path) : ExceptT CopyFlaw (StateM Disk) Unit := do
  match (← get).find source with
  | .error cause => throw (.missing source cause)
  | .ok ⟨_, .file _⟩ =>
    match destination.parent? with
    | some parent => step (·.createDirectories parent)
    | none => pure ()
    step (·.copy source destination)
  | .ok _ => throw (.notFile source)
where
  /-- A change of the file system. -/
  step (f : Disk → Except Disk.Fault Disk) : ExceptT CopyFlaw (StateM Disk) Unit := do
    match f (← get) with
    | .ok d => set d
    | .error cause => throw (.io cause)

end CopyFlaw

namespace Archive

/-! ## Entries -/

/-- What an entry holds, once its source has been read. -/
inductive Content
  | file (data : List UInt8) (mode : Nat)
  | link (target : String)
deriving DecidableEq, Repr

/-- Reads what an entry holds. -/
def load (d : Disk) (f : OutputFile) : Except ArchiveFlaw Content :=
  match f.source with
  | .bytes data => .ok (.file data (f.mode.getD defaultMode))
  | .link target => .ok (.link target)
  | .file path =>
    match d.file path with
    | .ok file => .ok (.file file.data (f.mode.getD (file.mode % 0o1000)))
    | .error cause => .error (.source path cause)

/-- The entry of an archive that holds this. -/
def Content.entry (name : String) : Content → ArchiveEntry
  | .file data mode => ⟨name, mode, data.length⟩
  | .link target => ⟨name, linkMode, target.utf8ByteSize⟩

/-- The same as an entry of a zip archive. -/
def Content.zipEntry (name : String) : Content → Zip.Entry
  | .file data mode => .file name mode data
  | .link target => .link name linkMode target

/-- What all entries hold. -/
def loadAll (files : List OutputFile) : Writing (List (String × Content)) :=
  files.mapM fun f => return (f.name, ← Writing.look (load · f))

/-! ## Zip archives -/

/-- The directory that holds what is at a path. -/
def holder (path : Path) : Path := path.parent?.getD ⟨false, ["."]⟩

/-- Moves a file that was written at a path to its destination. -/
def publish (staged destination : Path) (data : List UInt8) : Writing Unit := do
  Writing.change (·.write staged data)
  tryCatch (Writing.change (·.rename staged destination)) fun flaw => do
    Writing.attempt (·.remove staged)
    throw flaw
  Writing.change (·.setMode destination defaultMode)

/-- Writes a zip archive. -/
def writeZip (path : Path) (files : List OutputFile) : Writing (List ArchiveEntry) := do
  Writing.change (·.createDirectories (holder path))
  let contents ← loadAll files
  let staged := (holder path).child ((← get).freshName (holder path) ".tmp" path.fileName?)
  publish staged path (Zip.write (contents.map fun (name, content) => content.zipEntry name))
  return contents.map fun (name, content) => content.entry name

/-! ## Directories -/

/-- The place of an entry in a directory. -/
def placeOf (root : Path) (name : String) : Path :=
  (Path.split name.toList).foldl (fun path part => path.join (.ofString part)) root

/-- The time that all files in a directory bear, the start of 1980. -/
def earliestTime : Nat := 315532800

/-- Writes an entry into a directory. -/
def writeEntry (root : Path) (f : OutputFile) : Writing ArchiveEntry := do
  let place := placeOf root f.name
  match place.parent? with
  | some parent => Writing.change (·.createDirectories parent)
  | none => pure ()
  let content ← Writing.look (load · f)
  match content with
  | .file data mode =>
    Writing.change (·.write place data)
    Writing.change (·.setMode place mode)
    Writing.change (·.setModified place earliestTime)
  | .link target => Writing.change (·.createLink place target)
  return content.entry f.name

/-- Puts a directory in the place of another. -/
def replaceDirectory (staged root : Path) : Writing Unit := do
  match (Disk.Edit.replaceDirectory staged root).run (← get) with
  | (.ok (), d) => set d
  | (.error cause, d) =>
    set d
    throw (.io cause)

/-- Writes a directory. -/
def writeDirectory (root : Path) (files : List OutputFile) : Writing (List ArchiveEntry) := do
  Writing.change (·.createDirectories (holder root))
  let staged :=
    (holder root).child ((← get).freshName (holder root) ".staged-" root.fileName?)
  Writing.change (·.createDirectory staged)
  let work : Writing (List ArchiveEntry) := do
    let entries ← files.mapM (writeEntry staged)
    replaceDirectory staged root
    return entries
  let entries ← tryFinally work (Writing.attempt (·.removeDirectory staged))
  Writing.change (·.setMode root 0o755)
  return entries

/-! ## Archives that are ready -/

/-- The entries of a zip archive. -/
def listZip (data : List UInt8) : Except ArchiveFlaw (List ArchiveEntry) :=
  match Zip.read? data with
  | some listing =>
    .ok (listing.records.map fun r =>
      ⟨r.name, (r.mode?.map (· % 0o1000)).getD defaultMode, r.size⟩)
  | none => .error .notAnArchive

/-- Copies an archive that is ready and looks at the copy. -/
def passOn (source path : Path) : Writing (List ArchiveEntry) := do
  match (CopyFlaw.copyFile source path).run (← get) with
  | (.ok (), d) => set d
  | (.error flaw, d) =>
    set d
    throw (.copy flaw)
  Writing.look fun d =>
    match d.read path with
    | .ok data => listZip data
    | .error cause => .error (.io cause)

end Archive

end FunctionArchive
