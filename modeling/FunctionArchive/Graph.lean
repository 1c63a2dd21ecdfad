import FunctionArchive.Resolution
import FunctionArchive.Sorted

/-!
# Dependency graphs

The closure of a script: every file that it reaches by references, the installed packages that were
entered on the way, and everything that had to be noted. Files and packages are named by their real
paths, so a file that is reached in two ways is there once. The links that were crossed are kept
beside, because whoever unpacks the closure elsewhere needs them to find the files again.
-/

set_option autoImplicit false

namespace FunctionArchive

/-- A file of a closure. -/
structure GraphNode where
  path : Path
  /-- Whether the closure starts from this file. -/
  isEntry : Bool := false
  /-- The fixed references in the file, in order. -/
  references : List String := []
  /-- Whether the file computes references at run time. -/
  dynamic : Bool := false
deriving DecidableEq, Repr

/-- The closure of a script. -/
structure Graph where
  entry : Path
  nodes : List GraphNode := []
  /-- The installed packages that were entered. All their files belong to the closure. -/
  packages : List Path := []
  /-- Packages that are referred to and left to the place where the function runs. -/
  external : List String := []
  /-- The links that were crossed. -/
  links : List Link := []
  warnings : List Warning := []
deriving DecidableEq, Repr

/-- Whether a link comes before another or is the same. -/
def Link.precedes (a b : Link) : Bool :=
  ((compare a.path b.path).then (compare a.target b.target)).isLE

namespace Graph

/-- Whether a file belongs to the closure. -/
def contains (g : Graph) (path : Path) : Bool := g.nodes.any (·.path == path)

/-- The files of the closure. -/
def files (g : Graph) : List Path := g.nodes.map (·.path)

/-- The closure with one more file, unless it is there already. -/
def insert (g : Graph) (path : Path) : Graph :=
  if g.contains path then g else { g with nodes := g.nodes ++ [⟨path, false, [], false⟩] }

/-- The closure with everything but the warnings in increasing order. -/
def sorted (g : Graph) : Graph :=
  { g with
    nodes := g.nodes.mergeSort fun a b => a.path.precedes b.path
    packages := sortedPaths g.packages
    external := sortedTexts g.external
    links := sortedMembers Link.precedes g.links }

end Graph

end FunctionArchive
