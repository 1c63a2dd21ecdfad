import FunctionArchive.Disk

/-!
# Going through directory trees

Ways to list what is below a directory. `Node.descendants` and `Node.leaves` take the tree as it
stands and stop at links. `Disk.filesBelow` follows links, as someone who opens each path would: a
link that leads nowhere and a link back to a directory above it end the walk.
-/

set_option autoImplicit false

namespace FunctionArchive.Disk

/-! ## The tree as it stands -/

namespace Node

mutual

/-- How many entries there are at and below a node. -/
def size : Node → Nat
  | .file _ | .link _ => 1
  | .directory entries => 1 + sizes entries

/-- How many entries there are at and below some entries. -/
def sizes : List (String × Node) → Nat
  | [] => 0
  | (_, n) :: rest => n.size + sizes rest

end

mutual

/-- The files, the links and the empty directories at and below a node, each with the names that
lead to it. -/
def leaves : Node → List (List String × Node)
  | .directory [] => [([], .directory [])]
  | .directory entries => leavesOf entries
  | n => [([], n)]

/-- The leaves of some entries. -/
def leavesOf : List (String × Node) → List (List String × Node)
  | [] => []
  | (name, n) :: rest =>
    n.leaves.map (fun (names, leaf) => (name :: names, leaf)) ++ leavesOf rest

end

mutual

/-- The names that lead to everything below a node, its directories included. -/
def descendants : Node → List (List String)
  | .directory entries => descendantsOf entries
  | _ => []

/-- The names that lead to some entries and to everything below them. -/
def descendantsOf : List (String × Node) → List (List String)
  | [] => []
  | (name, n) :: rest => [name] :: n.descendants.map (name :: ·) ++ descendantsOf rest

end

end Node

/-- The real paths of everything in a file system. -/
def allPaths (d : Disk) : List Path := .root :: d.root.descendants.map .ofNames

/-! ## Following links -/

/-- A directory on the way down: the path by which it was reached and its real names. -/
structure Ancestor where
  path : Path
  names : List String

/-- What an entry stands for when the directories above it are these. A link to one of them leads
round in a circle. -/
def resolveEntry (d : Disk) (above : List Ancestor) (path : Path) (names : List String) :
    Node → Except Fault Place
  | .link _ =>
    match d.find path with
    | .error fault => .error (.atEntry path fault)
    | .ok ⟨real, .directory entries⟩ =>
      match above.find? (·.names == real) with
      | some ancestor => .error (.cycle path ancestor.path)
      | none => .ok ⟨real, .directory entries⟩
    | .ok place => .ok place
  | n => .ok ⟨names, n⟩

/-- The files below a directory that is reached by some path, in the order of their names, each as
the names that lead to it from there. Entries with a name to be skipped are left out, with all
below them, but only once it is clear what they are. -/
def filesFrom (d : Disk) (skip : String → Bool) :
    Nat → List Ancestor → Path → List String → List (String × Node) →
      Except Fault (List (List String))
  | 0, _, path, _, _ => .error (.atEntry path .tooManyLinks)
  | depth + 1, above, path, names, entries => do
    let above := ⟨path, names⟩ :: above
    let groups ← (entries.mergeSort fun a b => a.1 ≤ b.1).mapM fun (name, n) => do
      let inner := path.child name
      let place ← resolveEntry d above inner (names ++ [name]) n
      if skip name then return []
      match place.node with
      | .directory entries =>
        let found ← filesFrom d skip depth above inner place.names entries
        return found.map (name :: ·)
      | _ => return [[name]]
    return groups.flatten

/-- A bound on how deep a walk can go: between two links followed, each of which leads to another
directory, it goes no deeper than the tree. -/
def walkDepth (d : Disk) : Nat := (d.root.size + 1) * (d.root.size + 1)

/-- The files below the directory at a path, links followed. -/
def filesBelow (d : Disk) (skip : String → Bool) (path : Path) :
    Except Fault (List (List String)) :=
  match d.find path with
  | .error fault => .error (.atEntry path fault)
  | .ok ⟨names, .directory entries⟩ => filesFrom d skip d.walkDepth [] path names entries
  | .ok _ => .ok [[]]

end FunctionArchive.Disk
