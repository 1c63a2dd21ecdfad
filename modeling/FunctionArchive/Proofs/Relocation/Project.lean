import FunctionArchive.Proofs.Disk.Mounted
import FunctionArchive.Proofs.Graph.Closure
import FunctionArchive.Proofs.Path.Mounted
import FunctionArchive.Proofs.Reference
import FunctionArchive.Proofs.Resolution.Links

/-!
# Projects that keep to themselves

A project is a tree of files in which nothing leads above the root (`Contained`): neither its links
nor what its scripts refer to, what its manifests declare as dependencies, main files and exports,
and the directories that its packages need beside them. Such a project can be checked out at any
place of a disk (`Checkout`). What is asked about a path of the project is then answered by the
project alone.
-/

set_option autoImplicit false

namespace FunctionArchive

open Path (Proper IsName)
open Disk (ofTree Inside LinksStay Hosts)

/-! ## Texts that stay inside -/

/-- By its spelling, a text that is followed from a path does not lead above the root. -/
def Path.Keeps (p : Path) (text : String) : Prop :=
  (ofString text).absolute = false ∧ (descend? [] (p.names ++ (ofString text).names)).isSome

/-- A text that stays inside leads to the same path of a tree wherever the tree stands. -/
theorem Path.Keeps.normalize {p : Path} {text : String} (keeps : p.Keeps text) (rooted : p.Rooted) :
    ∃ inner, Proper inner ∧ ∀ site base, Proper site →
      Path.normalize base ((p.mounted site).child text) = (ofNames inner).mounted site := by
  obtain ⟨relative, stays⟩ := keeps
  obtain ⟨inner, arrives⟩ := Option.isSome_iff_exists.mp stays
  refine ⟨inner, ?_, fun site base proper => normalize_child_mounted proper base relative arrives⟩
  have noSlash : ∀ name ∈ p.names ++ (ofString text).names, '/' ∉ name.toList :=
    List.forall_mem_append.mpr ⟨rooted.noSlash, noSlash_ofString text⟩
  have spelled := follow_of_descend? arrives []
  rw [List.nil_append, List.nil_append] at spelled
  exact spelled ▸ proper_follow proper_nil noSlash

namespace Relocation

variable {tree : Disk.Node} {p q directory root file : Path} {text reference : String}
  {names : List String}

/-- A path of a tree that does not lead above its root. -/
structure Stays (tree : Disk.Node) (p : Path) : Prop extends p.Rooted where
  inside : Inside tree p.names

theorem stays_of_proper (links : LinksStay tree) (proper : Proper names) :
    Stays tree (.ofNames names) :=
  ⟨⟨rfl, proper.noSlash⟩, Disk.inside_of_level links fun up => (proper ".." up).2.2 rfl⟩

theorem Stays.stem (stays : Stays tree p) : Inside tree p.stem := by
  have inFront : p.stem <+: p.names := by
    unfold Path.stem
    split
    · exact List.dropLast_prefix _
    · exact List.prefix_rfl
  obtain ⟨rest, split⟩ := inFront
  exact Disk.Inside.of_append (split ▸ stays.inside)

/-- A text that does not lead upwards stays inside. -/
theorem Stays.child (stays : Stays tree p) (links : LinksStay tree)
    (relative : (Path.ofString text).absolute = false) (level : ".." ∉ (Path.ofString text).names) :
    Stays tree (p.child text) := by
  refine ⟨stays.toRooted.child text, ?_⟩
  by_cases blank : (Path.ofString text).names = []
  · rw [Path.child_of_blank p relative blank]
    dsimp only
    split
    · exact Disk.inside_nil
    · exact stays.stem.append links (by decide)
  · rw [Path.child_of_relative p relative blank]
    exact stays.stem.append links level

theorem Stays.child_name (stays : Stays tree p) (links : LinksStay tree) {name : String}
    (isPart : Path.IsPart name) (notUp : name ≠ "..") : Stays tree (p.child name) := by
  have spelled := Path.ofString_name isPart
  refine stays.child links ?_ ?_ <;> rw [spelled]
  simpa using notUp.symm

/-! ## Projects -/

/-- References that occur in a project, each with the directory from which it is looked for: a
script makes them, or a manifest declares them as dependencies. -/
inductive Mentions (tree : Disk.Node) : Path → String → Prop
  | script {file : Path} {reference : String} (isFile : (ofTree tree).IsRealFile file)
      (found : .static reference ∈ (ofTree tree).referencesIn file) :
      Mentions tree (Resolution.startOf file) reference
  | manifest {root : Path} {reference : String} (isDirectory : (ofTree tree).IsRealDirectory root)
      (declared : reference ∈ (ofTree tree).dependenciesOf root) : Mentions tree root reference

/-- Where a reference is looked for as a file or as a directory. -/
inductive LooksAt (directory : Path) (reference : String) : Path → Prop
  | relative (isRelative : Reference.isRelative reference = true) :
      LooksAt directory reference (Path.normalize .root (directory.child reference))
  | bare {above : Path} (bare : Reference.isRelative reference = false)
      (isAbove : above ∈ directory.ancestors) :
      LooksAt directory reference ((above.child Resolution.packagesName).child reference)

/-- The main file that the manifest of a directory names stays inside. -/
def KeepsMain (tree : Disk.Node) (p : Path) : Prop :=
  ∀ m main, (ofTree tree).manifestIn p = some m → m.main = some main → p.Keeps main

/-- A tree in which nothing leads above the root. -/
structure Contained (tree : Disk.Node) : Prop where
  isTree : (ofTree tree).IsTree
  links : LinksStay tree
  /-- A reference by a path stays inside. -/
  relative : ∀ directory reference, Mentions tree directory reference →
    Reference.isRelative reference = true → directory.Keeps reference
  /-- So does a reference by name from each directory of packages where it is looked for. -/
  bare : ∀ directory reference, Mentions tree directory reference →
    Reference.isRelative reference = false → ∀ above ∈ directory.ancestors,
      Inside tree ((above.child Resolution.packagesName).child reference).names
  /-- So does what a package exports for a reference. -/
  exports : ∀ directory reference, Mentions tree directory reference →
    Reference.isRelative reference = false → ∀ above ∈ directory.ancestors, ∀ m target,
      (ofTree tree).manifestIn (Resolution.packageIn reference above) = some m →
      m.exportTarget? (Reference.subpath reference) = some target →
        (Resolution.packageIn reference above).Keeps target
  /-- So does the main file of a directory that a reference reaches. -/
  mains : ∀ directory reference, Mentions tree directory reference →
    ∀ p, LooksAt directory reference p → KeepsMain tree p
  /-- So do the directories that a package needs beside it. -/
  beside : ∀ root name, (ofTree tree).IsRealDirectory root →
    name ∈ Package.neededBeside (GraphPolicy.knownName (ofTree tree) root)
      (GraphPolicy.knownVersion (ofTree tree) root) → root.Keeps name

namespace Contained

variable (project : Contained tree)

include project

theorem proper_of_at? {node : Disk.Node} (there : tree.at? names = some node) : Proper names :=
  project.isTree.proper_of_at? there

theorem stays_file (isFile : (ofTree tree).IsRealFile file) : Stays tree file := by
  obtain ⟨f, there⟩ := isFile.there
  rw [Path.eq_ofNames isFile.absolute]
  exact stays_of_proper project.links (project.proper_of_at? there)

theorem stays_directory (isDirectory : (ofTree tree).IsRealDirectory root) : Stays tree root := by
  obtain ⟨entries, there⟩ := isDirectory.there
  rw [Path.eq_ofNames isDirectory.absolute]
  exact stays_of_proper project.links (project.proper_of_at? there)

/-- The directory of a file. -/
theorem startOf_file (isFile : (ofTree tree).IsRealFile file) :
    ∃ front name, Proper (front ++ [name]) ∧ file = .ofNames (front ++ [name]) ∧
      Resolution.startOf file = .ofNames front ∧
      (ofTree tree).IsRealDirectory (.ofNames front) := by
  obtain ⟨f, there⟩ := isFile.there
  have proper := project.proper_of_at? there
  rcases List.eq_nil_or_concat file.names with none | ⟨front, name, split⟩
  · obtain ⟨entries, isRoot⟩ := project.isTree.root
    rw [none] at there
    cases there.symm.trans (congrArg some isRoot)
  · rw [List.concat_eq_append] at split
    have spelled : file = .ofNames (front ++ [name]) := by
      rw [← split]
      exact Path.eq_ofNames isFile.absolute
    rw [split] at there proper
    obtain ⟨entries, above⟩ := Disk.Node.directory_of_at?_append there (List.cons_ne_nil _ _)
    have properFront := proper.of_prefix (List.prefix_append _ _)
    refine ⟨front, name, proper, spelled, ?_, rfl, properFront.leadsDown, entries, above⟩
    rw [Resolution.startOf, spelled, proper.parent?_concat]
    rfl

/-- References are looked for from directories of the project. -/
theorem directory_of_mentions (mentions : Mentions tree directory reference) :
    (ofTree tree).IsRealDirectory directory := by
  cases mentions with
  | script isFile found =>
      obtain ⟨front, name, -, -, start, isDirectory⟩ := project.startOf_file isFile
      exact start ▸ isDirectory
  | manifest isDirectory declared => exact isDirectory

end Contained

/-! ## Checkouts -/

/-- A project that stands at a site. A search for manifests stops where `reach` says, as seen from
the project; and if the project is all there is, its root, where the site has no name to which an
extension could be added, holds no file that is named by an extension alone. -/
structure Checkout (tree : Disk.Node) (extensions : List String) (reach : Path → Bool) (d : Disk)
    (site : List String) (limit : Option Path) : Prop extends d.Hosts site tree where
  rootFile : site = [] → ∀ extension ∈ extensions,
    (ofTree tree).isFile (.ofNames [extension]) = false
  boundary : ∀ p, (ofTree tree).IsRealDirectory p → limit.any (·.same (p.mounted site)) = reach p

end Relocation

/-! ## Questions about paths of a project -/

namespace Disk.Hosts

open Relocation (Stays)

variable {tree : Disk.Node} {d : Disk} {site : List String} {p : Path}

theorem lookUp_mounted (hosts : d.Hosts site tree) (stays : Stays tree p) (followLast : Bool) :
    d.lookUp followLast (p.mounted site) =
      ((ofTree tree).lookUp followLast p).map (Place.mounted site) := by
  conv => rhs; rw [Path.eq_ofNames stays.absolute]
  exact hosts.lookUp_eq stays.inside

theorem isFile_mounted (hosts : d.Hosts site tree) (stays : Stays tree p) :
    d.isFile (p.mounted site) = (ofTree tree).isFile p := by
  conv => rhs; rw [Path.eq_ofNames stays.absolute]
  exact hosts.isFile_eq stays.inside

theorem isDirectory_mounted (hosts : d.Hosts site tree) (stays : Stays tree p) :
    d.isDirectory (p.mounted site) = (ofTree tree).isDirectory p := by
  conv => rhs; rw [Path.eq_ofNames stays.absolute]
  exact hosts.isDirectory_eq stays.inside

theorem isLink_mounted (hosts : d.Hosts site tree) (stays : Stays tree p) :
    d.isLink (p.mounted site) = (ofTree tree).isLink p := by
  conv => rhs; rw [Path.eq_ofNames stays.absolute]
  exact hosts.isLink_eq stays.inside

theorem realPath_mounted (hosts : d.Hosts site tree) (stays : Stays tree p) :
    d.realPath (p.mounted site) = ((ofTree tree).realPath p).map (Path.mounted site) := by
  conv => rhs; rw [Path.eq_ofNames stays.absolute]
  exact hosts.realPath_eq stays.inside

theorem file_mounted (hosts : d.Hosts site tree) (stays : Stays tree p) :
    d.file (p.mounted site) = (ofTree tree).file p := by
  conv => rhs; rw [Path.eq_ofNames stays.absolute]
  exact hosts.file_eq stays.inside

theorem read_mounted (hosts : d.Hosts site tree) (stays : Stays tree p) :
    d.read (p.mounted site) = (ofTree tree).read p := by
  rw [read, hosts.file_mounted stays, read]

end Disk.Hosts

end FunctionArchive
