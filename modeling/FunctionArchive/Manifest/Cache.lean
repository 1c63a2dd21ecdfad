import FunctionArchive.Disk
import FunctionArchive.Manifest

/-!
# The manifests of a run

A run reads each manifest once. What it found at a place, or that there was nothing, is remembered
under the path of the manifest and stays true for the run, whatever happens to the file. A fault
is not remembered.

Loading a manifest takes three steps that several functions may interleave: to look it up, to read
it from the file system, and to record what was read. Whoever records first settles what all get.

A `Query` is a question to a file system by way of these manifests.
-/

set_option autoImplicit false

namespace FunctionArchive

/-- What a run knows about manifests. -/
structure Manifests where
  /-- The last directory in which a search upwards looks. -/
  boundary : Option Path
  /-- The manifests that were found. -/
  found : List (Path × Manifest)
  /-- Paths at which there is no manifest. -/
  absent : List Path

namespace Manifests

/-- Nothing is known yet. -/
def empty (boundary : Option Path) : Manifests := ⟨boundary, [], []⟩

/-- The manifest found at a path. -/
def found? (m : Manifests) (path : Path) : Option Manifest :=
  (m.found.find? fun entry => entry.1.same path).map Prod.snd

/-- What is known about a path: a manifest, that there is none, or nothing. -/
def lookUp (m : Manifests) (path : Path) : Option (Option Manifest) :=
  match m.found? path with
  | some manifest => some (some manifest)
  | none => if m.absent.any (·.same path) then some none else none

/-- Reads the manifest at a path. A path that leads to no file has none. -/
def fetch (d : Disk) (path : Path) : Outcome (Option Manifest) :=
  match d.read path with
  | .ok bytes => (Manifest.read path bytes).map some
  | .error .notFound | .error .notDirectory | .error .isDirectory => .ok none
  | .error fault => .error (.disk "reading manifest" path fault)

/-- Records what was read at a path, and tells what is known about it from now on. -/
def record (m : Manifests) (path : Path) : Option Manifest → Option Manifest × Manifests
  | none => (none, { m with absent := path :: m.absent })
  | some manifest =>
    match m.found? path with
    | some earlier => (some earlier, m)
    | none => (some manifest, { m with found := (path, manifest) :: m.found })

end Manifests

/-- A question to a file system that may fail and may add to what is known about manifests. -/
abbrev Query := ReaderT Disk (ExceptT Fault (StateM Manifests))

namespace Query

/-- A question that manifests do not matter for. -/
def ask {α : Type} (f : Disk → Outcome α) : Query α := fun d => ExceptT.mk (pure (f d))

/-- A question to the file system itself, with what it was asked for. -/
def askDisk {α : Type} (context : String) (path : Path) (f : Disk → Except Disk.Fault α) :
    Query α :=
  ask fun d => (f d).mapError (.disk context path ·)

/-- Whether something holds of the file system. -/
def test (f : Disk → Bool) : Query Bool := return f (← read)

end Query

namespace Manifests

/-- The manifest in a directory, if there is one. -/
def load (directory : Path) : Query (Option Manifest) := do
  let path := directory.child Manifest.fileName
  match (← get).lookUp path with
  | some known => return known
  | none =>
    let read ← Query.ask (fetch · path)
    modifyGet (·.record path read)

/-- The nearest manifest in one of the directories, tried in order as far as the boundary. -/
def findIn : List Path → Query (Option Manifest)
  | [] => return none
  | directory :: rest => do
    match ← load directory with
    | some manifest => return some manifest
    | none =>
      if (← get).boundary.any (·.same directory) then return none
      findIn rest

/-- The nearest manifest at or above a directory. -/
def find (directory : Path) : Query (Option Manifest) :=
  findIn directory.ancestors

end Manifests

end FunctionArchive
