import FunctionArchive.Disk

/-!
# Changing file systems

The operations that change a file system. Each gives the new file system, or refuses and leaves
everything as it was. Permissions are those of someone who may do everything.

An `Edit` is a series of such operations. It stops at the first refusal, and what was done until
then stays done.
-/

set_option autoImplicit false

namespace FunctionArchive.Disk

/-- The permission bits of a file that is created without saying which. -/
def newFileMode : Nat := 0o644

variable (d : Disk)

/-- The file system with another entry, or none, at the end of real names. -/
def put (names : List String) (node : Option Node) : Disk :=
  { d with root := d.root.alter (fun _ => node) names }

/-- Where an entry belongs: the real directory that holds it and its name. -/
structure Slot where
  directory : List String
  name : String

/-- The real names of the entry itself. -/
def Slot.names (s : Slot) : List String := s.directory ++ [s.name]

/-- The directory that a path means when something in it is asked for: the empty path means the one
from which relative paths start. -/
def base (p : Path) : Path :=
  if p.names.isEmpty && !p.absolute then .ofNames d.current.names else p

/-- The place of the entry that a path names, whether or not it is there. -/
def slot (p : Path) : Except Fault Slot := do
  match p.parent?, p.fileName? with
  | some parent, some name =>
    match ← d.find (d.base parent) with
    | ⟨names, .directory _⟩ => .ok ⟨names, name⟩
    | _ => .error .notDirectory
  | _, _ =>
    match d.find p with
    | .ok _ => .error .alreadyExists
    | .error fault => .error fault

/-- What stands at a place. -/
def occupant? (s : Slot) : Option Node := d.root.at? s.names

/-- The place to which something that is written at a path goes: links are followed even if nothing
is there yet. -/
def target (p : Path) : Nat → Except Fault Slot
  | 0 => .error .tooManyLinks
  | links + 1 => do
    let s ← d.slot p
    match d.occupant? s with
    | some (.link text) => target ((Path.ofNames s.directory).join (.ofString text)) links
    | _ => .ok s

/-! ## Files -/

/-- Writes a file. One that is there keeps its mode, a new one gets the given mode. -/
def writeNew (p : Path) (mode : Nat) (data : List UInt8) : Except Fault Disk := do
  let s ← d.target p (maxLinks + 1)
  match d.occupant? s with
  | some (.directory _) => .error .isDirectory
  | some (.file old) => .ok (d.put s.names (some (.file ⟨data, old.mode, d.now⟩)))
  | _ => .ok (d.put s.names (some (.file ⟨data, mode, d.now⟩)))

/-- Writes a file. -/
def write (p : Path) (data : List UInt8) : Except Fault Disk :=
  d.writeNew p newFileMode data

/-- Changes the file that a path leads to; directories stay as they are. -/
def touch (p : Path) (change : File → File) : Except Fault Disk := do
  match ← d.find p with
  | ⟨names, .file f⟩ => .ok (d.put names (some (.file (change f))))
  | _ => .ok d

/-- Sets the permission bits of what a path leads to. -/
def setMode (p : Path) (mode : Nat) : Except Fault Disk :=
  d.touch p fun f => { f with mode }

/-- Sets the time of the last change of a file. -/
def setModified (p : Path) (time : Nat) : Except Fault Disk :=
  d.touch p fun f => { f with modified := time }

/-- Copies a file with its mode. The destination is emptied before the source is read, so a file
that is copied onto itself is lost. -/
def copy (source destination : Path) : Except Fault Disk := do
  let taken ← d.file source
  let emptied ← d.writeNew destination taken.mode []
  let data ← emptied.read source
  let written ← emptied.write destination data
  written.setMode destination taken.mode

/-! ## Links and directories -/

/-- Creates an entry where none is. -/
def create (p : Path) (node : Node) : Except Fault Disk := do
  let s ← d.slot p
  match d.occupant? s with
  | some _ => .error .alreadyExists
  | none => .ok (d.put s.names (some node))

/-- Creates a link. -/
def createLink (p : Path) (text : String) : Except Fault Disk :=
  if text.isEmpty then .error .notFound else d.create p (.link text)

/-- Creates a directory. -/
def createDirectory (p : Path) : Except Fault Disk :=
  d.create p (.directory [])

/-- Creates a directory, if it is not there, after as many of those above it as are missing. -/
def createDirectoriesFrom : Nat → Disk → Path → Except Fault Disk
  | 0, _, _ => .error .notFound
  | bound + 1, d, p =>
    if !p.absolute && p.names.isEmpty then .ok d
    else
      match d.createDirectory p with
      | .ok d => .ok d
      | .error .notFound =>
        match p.parent? with
        | none => .error .notFound
        | some parent => do
          let d ← createDirectoriesFrom bound d parent
          if d.isDirectory p then return d else d.createDirectory p
      | .error fault => if d.isDirectory p then .ok d else .error fault

/-- Creates a directory and those above it, as far as they are missing. -/
def createDirectories (p : Path) : Except Fault Disk :=
  createDirectoriesFrom (p.names.length + 1) d p

/-- Removes an entry, whatever it is. -/
def remove (p : Path) : Except Fault Disk := do
  let place ← d.findEntry p
  .ok (d.put place.names none)

/-- Removes a directory with everything in it. A link is removed itself; a file is refused. -/
def removeDirectory (p : Path) : Except Fault Disk := do
  match ← d.findEntry p with
  | ⟨_, .file _⟩ => .error .notDirectory
  | place => .ok (d.put place.names none)

/-- Whether an entry may take the place of another. -/
def mayReplace : Node → Option Node → Except Fault Unit
  | _, none => .ok ()
  | .directory _, some (.directory []) => .ok ()
  | .directory _, some (.directory _) => .error .directoryNotEmpty
  | .directory _, some _ => .error .notDirectory
  | _, some (.directory _) => .error .isDirectory
  | _, some _ => .ok ()

/-- Moves an entry. What is at the destination is replaced if it is of the same sort; a directory
is replaced only if it is empty. -/
def rename (source destination : Path) : Except Fault Disk := do
  let place ← d.findEntry source
  let s ← d.slot destination
  if s.names == place.names then .ok d
  else if place.names.isPrefixOf s.names then .error .invalidArgument
  else
    mayReplace place.node (d.occupant? s)
    .ok ((d.put place.names none).put s.names (some place.node))

/-- A name with this beginning that no entry of a directory has, nor another that is to come. -/
def freshName (p : Path) (beginning : String) (other : Option String) : String :=
  let taken := other.toList ++ (d.list (d.base p)).toOption.getD []
  let candidates := (List.range (taken.length + 1)).map fun n => s!"{beginning}{n}"
  (candidates.find? (!taken.contains ·)).getD beginning

/-! ## Series of changes -/

/-- Changes in a row, and what comes of them. -/
abbrev Edit := ExceptT Fault (StateM Disk)

namespace Edit

/-- One change. -/
def change (f : Disk → Except Fault Disk) : Edit Unit := do
  match f (← get) with
  | .ok d => set d
  | .error fault => throw fault

/-- Moves a directory to a destination, of which nothing is left. -/
def replaceDirectory (source destination : Path) : Edit Unit := do
  try
    change (·.removeDirectory destination)
  catch
    | .notFound => pure ()
    | fault => throw fault
  change (·.rename source destination)

end Edit

end FunctionArchive.Disk
