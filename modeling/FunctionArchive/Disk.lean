import FunctionArchive.Disk.Fault
import FunctionArchive.Text.Utf8

/-!
# File systems

A file system is a tree of named entries: files, links and directories. A path leads through the
tree name by name; a link on the way is replaced by the path that it holds, and so is a link at
the end unless the link itself is meant. No path leads through more than a fixed number of links,
so looking a path up always comes to an end.

A path through which no link leads is real, and the names that a look-up ends with are the real
path of what it found. The entries of a directory are listed in the order in which the tree holds
them, which no one may rely on.

The names of entries and the texts of links are Unicode texts: a tree in which one of them is not
valid UTF-8 is none of these file systems.
-/

set_option autoImplicit false

namespace FunctionArchive

namespace Disk

/-- A regular file. -/
structure File where
  data : List UInt8
  /-- The permission bits. -/
  mode : Nat
  /-- When it was last changed, in seconds. -/
  modified : Nat
deriving DecidableEq, Repr, Inhabited

/-- An entry of a file system. -/
inductive Node
  | file (f : File)
  | link (target : String)
  | directory (entries : List (String × Node))

instance : Inhabited Node := ⟨.directory []⟩

namespace Node

/-- The entry of this name in a directory. -/
def child? : Node → String → Option Node
  | .directory entries, name => entries.lookup name
  | _, _ => none

/-- What stands at the end of these names, none of them followed if it is a link. -/
def at? (n : Node) : List String → Option Node
  | [] => some n
  | name :: rest => (n.child? name).bind (·.at? rest)

/-- Changes the entry of a name among the entries of a directory; there may be none before or
after. When it is removed, no entry of that name is left. -/
def alterEntry (name : String) (change : Option Node → Option Node) :
    List (String × Node) → List (String × Node)
  | [] => match change none with
    | some n => [(name, n)]
    | none => []
  | (key, n) :: rest =>
    if key == name then
      match change (some n) with
      | some n => (key, n) :: rest
      | none => rest.filter (·.1 != name)
    else (key, n) :: alterEntry name change rest

/-- Changes what stands at the end of these names. -/
def alter (change : Option Node → Option Node) : List String → Node → Node
  | [name], .directory entries => .directory (alterEntry name change entries)
  | name :: rest, .directory entries =>
    .directory (alterEntry name (·.map (alter change rest)) entries)
  | _, n => n

end Node

end Disk

/-- A file system with a directory from which relative paths start, and a clock. -/
structure Disk where
  root : Disk.Node
  current : Path
  now : Nat

namespace Disk

/-! ## Looking paths up -/

/-- Something that a path led to: the names on the real way to it, and what it is. -/
structure Place where
  names : List String
  node : Node

/-- The path of a place. -/
def Place.path (p : Place) : Path := .ofNames p.names

/-- Goes on from the directory `here` through the names that are still to come. A name that leads
nowhere by itself still asks for a directory in front of it. -/
def walk (root : Node) (followLast : Bool) (links : Nat) (here pending : List String) :
    Except Fault Place :=
  match pending with
  | [] =>
    match root.at? here with
    | some node => .ok ⟨here, node⟩
    | none => .error .notFound
  | name :: rest =>
    match root.at? here with
    | none => .error .notFound
    | some (.file _) | some (.link _) => .error .notDirectory
    | some (.directory entries) =>
      if Path.isRedundant name then walk root followLast links here rest
      else if name == ".." then walk root followLast links here.dropLast rest
      else
        match entries.lookup name with
        | none => .error .notFound
        | some (.link target) =>
          if rest.isEmpty && !followLast then .ok ⟨here ++ [name], .link target⟩
          else
            match links with
            | 0 => .error .tooManyLinks
            | links + 1 =>
              let path := Path.ofString target
              walk root followLast links (if path.absolute then [] else here) (path.names ++ rest)
        | some _ => walk root followLast links (here ++ [name]) rest
termination_by (links, pending.length)

/-- The most links that a path may lead through. -/
def maxLinks : Nat := 40

variable (d : Disk)

/-- The names that a path stands for, from the root on. -/
def namesOf (p : Path) : List String :=
  if p.absolute then p.names else d.current.names ++ p.names

/-- Looks a path up. -/
def lookUp (followLast : Bool) (p : Path) : Except Fault Place :=
  if !p.absolute && p.names.isEmpty then .error .notFound
  else walk d.root followLast maxLinks [] (d.namesOf p)

/-- What a path leads to, links followed. -/
def find (p : Path) : Except Fault Place := d.lookUp true p

/-- What a path leads to; a link at its end is the link itself. -/
def findEntry (p : Path) : Except Fault Place := d.lookUp false p

/-! ## Reading -/

/-- Whether a path leads to a file. -/
def isFile (p : Path) : Bool :=
  match d.find p with
  | .ok ⟨_, .file _⟩ => true
  | _ => false

/-- Whether a path leads to a directory. -/
def isDirectory (p : Path) : Bool :=
  match d.find p with
  | .ok ⟨_, .directory _⟩ => true
  | _ => false

/-- Whether there is a link at the end of a path. -/
def isLink (p : Path) : Bool :=
  match d.findEntry p with
  | .ok ⟨_, .link _⟩ => true
  | _ => false

/-- The real path of what a path leads to. -/
def realPath (p : Path) : Except Fault Path :=
  (d.find p).map Place.path

/-- The file that a path leads to. -/
def file (p : Path) : Except Fault File :=
  match d.find p with
  | .ok ⟨_, .file f⟩ => .ok f
  | .ok _ => .error .isDirectory
  | .error fault => .error fault

/-- The bytes of a file. -/
def read (p : Path) : Except Fault (List UInt8) :=
  (d.file p).map File.data

/-- The text of a file. -/
def readText (p : Path) : Except Fault String := do
  match Utf8.decode? (← d.read p) with
  | some text => .ok text
  | none => .error .invalidUtf8

/-- The entries of the directory that a path leads to. -/
def entries (p : Path) : Except Fault (List (String × Node)) :=
  match d.find p with
  | .ok ⟨_, .directory entries⟩ => .ok entries
  | .ok _ => .error .notDirectory
  | .error fault => .error fault

/-- The names of the entries of a directory. -/
def list (p : Path) : Except Fault (List String) :=
  (d.entries p).map (·.map Prod.fst)

/-- The text of the link at the end of a path. -/
def linkText (p : Path) : Except Fault String :=
  match d.findEntry p with
  | .ok ⟨_, .link target⟩ => .ok target
  | .ok _ => .error .invalidArgument
  | .error fault => .error fault

end Disk

end FunctionArchive
