import FunctionArchive.Graph.Build
import FunctionArchive.Proofs.Resolution.Steady

/-!
# The least closure of a script

What the closure of a script should hold, told without a traversal. A disk says which references a
file makes and which dependencies a package declares; together with the policy it says where such a
request leads. `InClosure` is the least family of files, packages and requests that holds the
script and goes along with this; everything else about a closure is read off it.

The definitions ask the disk with nothing known beforehand.
-/

set_option autoImplicit false

namespace FunctionArchive

/-- A reference and the file from which it is resolved: the script that makes it, or the manifest
that declares it as a dependency. -/
structure Request where
  reference : String
  requirer : Path
deriving DecidableEq

/-- A piece of a closure. -/
inductive Piece
  /-- A file that is reached, by its real path. -/
  | file (path : Path)
  /-- An installed package that is entered, by its real path. -/
  | package (root : Path)
  /-- A reference that is looked at. -/
  | request (request : Request)

namespace Disk

variable (d : Disk)

/-- The references in a file: those of a script that can be read and parsed. -/
def referencesIn (file : Path) : List Script.Reference :=
  if Script.isScript file then
    match d.read file with
    | .ok bytes =>
      match Script.scan (Utf8.decodeLossy bytes) file with
      | .ok scan => scan.references
      | .error _ => []
    | .error _ => []
  else []

/-- The names of the dependencies that a package declares. -/
def dependenciesOf (root : Path) : List String :=
  ((d.manifestIn root).map fun m => m.dependencies.map Prod.fst).getD []

end Disk

namespace GraphPolicy

variable (policy : GraphPolicy) (d : Disk) (boundary : Option Path)

/-- A request is followed to a file, perhaps in a package, over these links. -/
structure Follows (request : Request) (file : Path) (package : Option Path)
    (links : List Link) : Prop where
  notBuiltin : Reference.isBuiltin request.reference = false
  notExternal : policy.external.covers request.reference = false
  notIgnored : policy.ignored.covers request.reference = false
  resolved : (Resolution.resolve policy.extensions request.reference request.requirer).answer d
    boundary = .ok (.resolved file package links)

/-- A request is left to the place where the function runs. -/
structure LeavesOut (request : Request) : Prop where
  notBuiltin : Reference.isBuiltin request.reference = false
  external : policy.external.covers request.reference = true

/-- The closure of a script: the least family that holds the script, the static references of its
files, what the references lead to, and the declared dependencies of its packages. -/
inductive InClosure (start : Path) : Piece → Prop
  | start : InClosure start (.file start)
  | refers {file : Path} {reference : String} (inside : InClosure start (.file file))
      (found : .static reference ∈ d.referencesIn file) :
      InClosure start (.request ⟨reference, file⟩)
  | declares {root : Path} {dependency : String} (inside : InClosure start (.package root))
      (declared : dependency ∈ d.dependenciesOf root) :
      InClosure start (.request ⟨dependency, root.child Manifest.fileName⟩)
  | leadsTo {request : Request} {file : Path} {package : Option Path} {links : List Link}
      (inside : InClosure start (.request request))
      (follows : policy.Follows d boundary request file package links) :
      InClosure start (.file file)
  | enters {request : Request} {file root : Path} {links : List Link}
      (inside : InClosure start (.request request))
      (follows : policy.Follows d boundary request file (some root) links) :
      InClosure start (.package root)

/-- A link is crossed on the way to where some request of the closure leads. -/
def Crosses (start : Path) (link : Link) : Prop :=
  ∃ request file package links, policy.InClosure d boundary start (.request request) ∧
    policy.Follows d boundary request file package links ∧ link ∈ links

/-- Some request of the closure is left out that refers to a package of this name. -/
def LeavesPackage (start : Path) (name : String) : Prop :=
  ∃ request, policy.InClosure d boundary start (.request request) ∧ policy.LeavesOut request ∧
    name = Reference.packageName request.reference

/-- A file is found below a directory, outside of what is installed there, and not excluded. -/
def Lists (d : Disk) (exclusion : Exclusion) (directory file : Path) : Prop :=
  ∃ found names, d.filesBelow (· == Resolution.packagesName) directory = .ok found ∧
    names ∈ found ∧ exclusion.excludes ⟨false, names⟩ = false ∧
    file = ⟨directory.absolute, directory.names ++ names⟩

/-- The name under which the rules for known packages know a package. -/
def knownName (d : Disk) (root : Path) : String := ((d.manifestIn root).bind (·.name)).getD ""

/-- The version by which the rules for known packages judge a package. -/
def knownVersion (d : Disk) (root : Path) : Option String := (d.manifestIn root).bind (·.version)

/-- A package brings a file: one of its own, under the exclusion rules for this package, or one of
a directory that it needs beside it and that is there. -/
inductive Ships (root file : Path) : Prop
  | own {exclusion : Exclusion}
      (rules : policy.exclusion.withPatterns
        (Package.omitted (knownName d root) (knownVersion d root)) = .ok exclusion)
      (listed : Lists d exclusion root file)
  | beside {name : String}
      (needed : name ∈ Package.neededBeside (knownName d root) (knownVersion d root))
      (there : d.isDirectory (Path.normalize d.current (root.child name)) = true)
      (listed : Lists d policy.exclusion (Path.normalize d.current (root.child name)) file)

end GraphPolicy

end FunctionArchive
