import FunctionArchive.Graph.Traversal
import FunctionArchive.Settings

/-!
# Building a closure

A closure is what a traversal finds, together with all files of the packages that it entered:
packages load files that no reference names, so they are shipped whole, apart from what is
excluded and from the packages installed inside them. A few packages also need a directory beside
their own.
-/

set_option autoImplicit false

namespace FunctionArchive

namespace GraphPolicy

/-- The policy for a function in a run. -/
def ofSettings (s : Settings) (config : FunctionConfig) : Outcome GraphPolicy :=
  make config s.sourceMaps s.extensions

/-- The files of a package directory that are shipped. What is installed inside the package does
not belong to it. -/
def packageFiles (exclusion : Exclusion) (root : Path) : Query (List Path) :=
  .ask fun d =>
    match d.filesBelow (· == Resolution.packagesName) root with
    | .ok files =>
      .ok ((files.filter fun names => !exclusion.excludes ⟨false, names⟩).map fun names =>
        ⟨root.absolute, root.names ++ names⟩)
    | .error fault =>
      let path := match fault with
        | .atEntry path _ | .cycle path _ => path
        | _ => root
      .error (.disk "walking package directory" path fault)

variable (policy : GraphPolicy)

/-- Adds the files of a directory that a package needs beside its own, if it is there. -/
def addBeside (root : Path) (g : Graph) (beside : String) : Query Graph := do
  let directory ← Resolution.normalized (root.child beside)
  if ← Query.test (·.isDirectory directory) then
    return (← packageFiles policy.exclusion directory).foldl Graph.insert g
  else return g

/-- Adds the files of a package. -/
def addPackage (g : Graph) (root : Path) : Query Graph := do
  let manifest ← Manifests.load root
  let name := (manifest.bind (·.name)).getD ""
  let version := manifest.bind (·.version)
  let exclusion ← .ask fun _ => policy.exclusion.withPatterns (Package.omitted name version)
  let g := (← packageFiles exclusion root).foldl Graph.insert g
  (Package.neededBeside name version).foldlM (policy.addBeside root) g

/-- Adds the files of all packages that were entered. -/
def addPackages (g : Graph) : Query Graph :=
  (sortedPaths g.packages).foldlM policy.addPackage g

/-- The closure that a traversal leads to. -/
def finish (t : Traversal) : Query Graph := do
  let t ← t.drain policy
  return (← policy.addPackages t.graph).sorted

end GraphPolicy

namespace Graph

/-- Marks the file from which the closure starts. -/
def markEntry (g : Graph) : Graph :=
  { g with nodes := g.nodes.map fun n => { n with isEntry := n.path == g.entry } }

/-- The closure of a script. -/
def build (policy : GraphPolicy) (entry : Path) : Query Graph := do
  let entry ← Resolution.realPath entry
  let start := Traversal.begin (← read) entry
  return (← policy.finish (start.meetFile entry)).markEntry

/-- The closure of some packages, as if this script referred to them. The script itself does not
belong to it. -/
def buildPackages (policy : GraphPolicy) (packages : List String) (requirer : Path) :
    Query Graph := do
  let requirer ← Resolution.realPath requirer
  let found ← packages.mapM fun package => policy.follow package requirer false
  policy.finish ((Traversal.begin (← read) requirer).addAll found.flatten)

end Graph

end FunctionArchive
