import FunctionArchive.Proofs.Graph.Buildable
import FunctionArchive.Proofs.Relocation.Traversal
import FunctionArchive.Proofs.Relocation.Walks

/-!
# Closures in a project that was moved

The packages of a project bring the same files wherever the project is checked out
(`addPackages_parallel`), in the same order. So the closure of a script is the same, but for what is
noted (`build_parallel`).
-/

set_option autoImplicit false

namespace FunctionArchive

open Query (Parallel SameWay Informed)
open Path (Proper IsName IsPart mounted)
open Disk (ofTree Inside LinksStay Hosts)

namespace Link

variable {site : List String} {a b : Link}

theorem precedes_mounted (proper : Proper site) (rooted : Relocation.IsRooted a)
    (rooted' : Relocation.IsRooted b) : (a.mounted site).precedes (b.mounted site) =
      a.precedes b := by
  unfold precedes
  rw [mounted, mounted, Path.compare_mounted proper rooted.path rooted'.path,
    Path.compare_mounted proper rooted.target rooted'.target]

theorem beq_mounted (rooted : Relocation.IsRooted a) (rooted' : Relocation.IsRooted b) :
    (a.mounted site == b.mounted site) = (a == b) := by
  obtain ⟨path, target⟩ := a
  obtain ⟨path', target'⟩ := b
  rw [Bool.eq_iff_iff, beq_iff_eq, beq_iff_eq]
  simp only [mounted, Link.mk.injEq, Path.mounted_inj rooted.path rooted'.path,
    Path.mounted_inj rooted.target rooted'.target]

end Link

namespace Relocation

variable {tree : Disk.Node} {reach : Path → Bool} {d d' : Disk} {site site' : List String}
  {limit limit' : Option Path} {p root : Path} {g g' : Graph} {files files' : List Path}

/-! ## Files that are added -/

/-- Two runs that name the same path of the project. -/
abbrev SamePath (site site' : List String) : Path → Path → Prop :=
  Both (mounted site) (mounted site') Path.IsEntry

/-- A package brings the same files. -/
theorem packageFiles_parallel (project : Contained tree) (here : d.Hosts site tree)
    (there : d'.Hosts site' tree) (exclusion : Exclusion) {names : List String}
    (proper : Proper names)
    (isDirectory : (ofTree tree).isDirectory (.ofNames names) = true) :
    Parallel d d' limit limit' (List.Forall₂ (SamePath site site'))
      (GraphPolicy.packageFiles exclusion ((Path.ofNames names).mounted site))
      (GraphPolicy.packageFiles exclusion ((Path.ofNames names).mounted site')) := by
  have stays := stays_of_proper project.links proper
  refine .ask ?_
  rw [here.filesBelow_mounted project stays, there.filesBelow_mounted project stays]
  cases walked : (ofTree tree).filesBelow (· == Resolution.packagesName) (.ofNames names) with
  | error fault => refine .other ?_ ?_ <;> rintro name origin ⟨⟩
  | ok found =>
      refine .ok (List.forall₂_map_left_iff.mpr (List.forall₂_map_right_iff.mpr
        (List.forall₂_same.mpr fun below member => ?_)))
      have among := List.mem_of_mem_filter member
      have proper' := Disk.filesBelow_proper project.isTree walked below among
      have some : below ≠ [] := by
        rintro rfl
        exact Disk.filesBelow_some isDirectory walked among
      refine ⟨.ofNames (names ++ below),
        Path.isEntry_ofNames (proper.mounted proper') (by simp [some]),
        ?_, ?_⟩
      · simp [mounted, Path.ofNames]
      · simp [mounted, Path.ofNames]

namespace SameClosure

theorem contains (same : SameClosure tree site site' g g') (absolute : p.absolute = true) :
    g.contains (p.mounted site) = g'.contains (p.mounted site') := by
  have nodes := same.nodes
  unfold Graph.contains
  generalize g.nodes = all at nodes
  generalize g'.nodes = all' at nodes
  induction nodes with
  | nil => rfl
  | cons first _ ih =>
      obtain ⟨n, stays, rfl, rfl⟩ := first
      rw [List.any_cons, List.any_cons, ih]
      simp only [GraphNode.mounted, Path.beq_mounted stays.absolute absolute]

theorem insert (same : SameClosure tree site site' g g') {file file' : Path}
    (both : SamePath site site' file file') :
    SameClosure tree site site' (g.insert file) (g'.insert file') := by
  obtain ⟨p, isEntry, rfl, rfl⟩ := both
  unfold Graph.insert
  rw [same.contains isEntry.absolute]
  split
  · exact same
  · have node : Both (GraphNode.mounted site) (GraphNode.mounted site') (·.path.IsEntry)
        ⟨p.mounted site, false, [], false⟩ ⟨p.mounted site', false, [], false⟩ :=
      ⟨⟨p, false, [], false⟩, isEntry, rfl, rfl⟩
    exact { same with nodes := List.rel_append same.nodes (.cons node .nil) }

theorem foldl_insert (same : SameClosure tree site site' g g')
    (both : List.Forall₂ (SamePath site site') files files') :
    SameClosure tree site site' (files.foldl Graph.insert g) (files'.foldl Graph.insert g') := by
  induction both generalizing g g' with
  | nil => exact same
  | cons first _ ih => exact ih (same.insert first)

/-- The same closure in the same order. -/
theorem sorted (here : Proper site) (there : Proper site')
    (same : SameClosure tree site site' g g') :
    SameClosure tree site site' g.sorted g'.sorted := by
  obtain ⟨nodes, stay, isNodes, isNodes'⟩ := exists_of_forall₂ same.nodes
  obtain ⟨packages, areReal, isPackages, isPackages'⟩ := exists_of_forall₂ same.packages
  obtain ⟨links, rooted, isLinks, isLinks'⟩ := exists_of_forall₂ same.links
  have inOrder {site : List String} (proper : Proper site) :
      (nodes.map (GraphNode.mounted site)).mergeSort (fun a b => a.path.precedes b.path) =
        (nodes.mergeSort fun a b => a.path.precedes b.path).map (GraphNode.mounted site) := by
    symm
    exact List.map_mergeSort fun a member b member' =>
      (Path.precedes_mounted proper (stay a member).absolute (stay b member').absolute).symm
  have absolute : ∀ package ∈ packages, package.absolute = true := fun package member =>
    (areReal package member).absolute
  have linked {site : List String} (proper : Proper site) :
      sortedMembers Link.precedes (links.map (Link.mounted site)) =
        (sortedMembers Link.precedes links).map (Link.mounted site) :=
    sortedMembers_map (fun a member b member' =>
      Link.precedes_mounted proper (rooted a member) (rooted b member'))
      fun a member b member' => Link.beq_mounted (rooted a member) (rooted b member')
  unfold Graph.sorted
  rw [isNodes, isNodes', isPackages, isPackages', isLinks, isLinks', same.external, inOrder here,
    inOrder there, Path.sortedPaths_mounted here absolute, Path.sortedPaths_mounted there absolute,
    linked here, linked there]
  exact {
    entry := same.entry
    nodes := forall₂_both fun n member => stay n (List.mem_mergeSort.mp member)
    packages := forall₂_both fun package member => areReal package (mem_sortedPaths.mp member)
    external := rfl
    links := forall₂_both fun link member => rooted link (mem_sortedMembers.mp member) }

theorem markEntry (same : SameClosure tree site site' g g') :
    SameClosure tree site site' g.markEntry g'.markEntry := by
  obtain ⟨entry, isAbsolute, isEntry, isEntry'⟩ := same.entry
  refine { same with nodes := ?_ }
  refine List.forall₂_map_left_iff.mpr (List.forall₂_map_right_iff.mpr (same.nodes.imp ?_))
  rintro _ _ ⟨n, stays, rfl, rfl⟩
  refine ⟨{ n with isEntry := n.path == entry }, stays, ?_, ?_⟩
  · simp only [GraphNode.mounted, isEntry, Path.beq_mounted stays.absolute isAbsolute]
  · simp only [GraphNode.mounted, isEntry', Path.beq_mounted stays.absolute isAbsolute]

end SameClosure

/-! ## Packages -/

section Checkouts

variable (policy : GraphPolicy) (project : Contained tree)
  (here : Checkout tree policy.extensions reach d site limit)
  (there : Checkout tree policy.extensions reach d' site' limit')

include project here there

theorem addBeside_parallel {beside : String} (keeps : root.Keeps beside) (rooted : root.Rooted)
    (same : SameClosure tree site site' g g') :
    Parallel d d' limit limit' (SameClosure tree site site')
      (policy.addBeside (root.mounted site) g beside)
      (policy.addBeside (root.mounted site') g' beside) := by
  obtain ⟨inner, proper, spelled⟩ := keeps.normalize rooted
  have stays := stays_of_proper project.links proper
  refine .bind (normalized_parallel _ _) ?_
  rintro _ _ ⟨rfl, rfl⟩
  rw [spelled site d.current here.proper, spelled site' d'.current there.proper]
  have alike : d.isDirectory ((Path.ofNames inner).mounted site) =
      d'.isDirectory ((Path.ofNames inner).mounted site') := by
    rw [here.isDirectory_mounted stays, there.isDirectory_mounted stays]
  refine .bind (.testIs alike) ?_
  rintro _ isDirectory ⟨rfl, inMounted⟩
  cases isDirectory with
  | false => exact .pure same
  | true =>
      exact .bind (packageFiles_parallel project here.toHosts there.toHosts policy.exclusion proper
        ((here.isDirectory_mounted stays).symm.trans inMounted))
        fun files files' both => .pure (same.foldl_insert both)

theorem addPackage_parallel (isDirectory : (ofTree tree).IsRealDirectory root)
    (same : SameClosure tree site site' g g') :
    Parallel d d' limit limit' (SameClosure tree site site')
      (policy.addPackage g (root.mounted site))
      (policy.addPackage g' (root.mounted site')) := by
  have stays := project.stays_directory isDirectory
  have files (exclusion : Exclusion) :
      Parallel d d' limit limit' (List.Forall₂ (SamePath site site'))
        (GraphPolicy.packageFiles exclusion (root.mounted site))
        (GraphPolicy.packageFiles exclusion (root.mounted site')) := by
    obtain ⟨names, proper, rfl⟩ := project.eq_ofNames isDirectory
    obtain ⟨entries, found⟩ := isDirectory.find
    refine packageFiles_parallel project here.toHosts there.toHosts exclusion proper ?_
    rw [Disk.isDirectory, found]
  refine .bind (load_parallel project here there stays) ?_
  rintro m m' ⟨matched, matched'⟩
  have isName {m : Option Manifest}
      (matched : Option.Rel Manifest.Matches m ((ofTree tree).manifestIn root)) :
      (m.bind (·.name)).getD "" = GraphPolicy.knownName (ofTree tree) root := by
    rw [Manifest.bind_eq_of_matches matched _ fun _ _ => rfl, GraphPolicy.knownName]
  have isVersion {m : Option Manifest}
      (matched : Option.Rel Manifest.Matches m ((ofTree tree).manifestIn root)) :
      m.bind (·.version) = GraphPolicy.knownVersion (ofTree tree) root :=
    Manifest.bind_eq_of_matches matched _ fun _ _ => rfl
  dsimp only
  rw [isName matched, isVersion matched, isName matched', isVersion matched']
  obtain ⟨exclusion, rules⟩ := policy.exclusion.withPatterns_omitted
    (GraphPolicy.knownName (ofTree tree) root) (GraphPolicy.knownVersion (ofTree tree) root)
  have excluded : Parallel d d' limit limit' (· = ·)
      (.ask fun _ => policy.exclusion.withPatterns (Package.omitted
        (GraphPolicy.knownName (ofTree tree) root) (GraphPolicy.knownVersion (ofTree tree) root)))
      (.ask fun _ => policy.exclusion.withPatterns (Package.omitted
        (GraphPolicy.knownName (ofTree tree) root)
          (GraphPolicy.knownVersion (ofTree tree) root))) := by
    refine .ask ?_
    rw [rules]
    exact .ok rfl
  generalize isNeeded : Package.neededBeside (GraphPolicy.knownName (ofTree tree) root)
    (GraphPolicy.knownVersion (ofTree tree) root) = needed
  refine .andThen excluded fun exclusion => ?_
  refine .bind (files exclusion) fun files files' both => ?_
  have paired :
      List.Forall₂ (fun beside beside' => beside = beside' ∧ beside ∈ needed) needed needed :=
    List.forall₂_same.mpr fun beside member => ⟨rfl, member⟩
  refine .foldlM paired (same.foldl_insert both) ?_
  rintro g g' beside _ same ⟨rfl, member⟩
  exact addBeside_parallel policy project here there
    (project.beside root beside isDirectory (isNeeded ▸ member))
    stays.toRooted same

theorem addPackages_parallel (same : SameClosure tree site site' g g') :
    Parallel d d' limit limit' (SameClosure tree site site') (policy.addPackages g)
      (policy.addPackages g') := by
  obtain ⟨packages, areReal, isPackages, isPackages'⟩ := exists_of_forall₂ same.packages
  have absolute : ∀ package ∈ packages, package.absolute = true := fun package member =>
    (areReal package member).absolute
  unfold GraphPolicy.addPackages
  rw [isPackages, isPackages', Path.sortedPaths_mounted here.proper absolute,
    Path.sortedPaths_mounted there.proper absolute]
  have paired : List.Forall₂ (Both (mounted site) (mounted site') (ofTree tree).IsRealDirectory)
      ((sortedPaths packages).map (mounted site)) ((sortedPaths packages).map (mounted site')) :=
    forall₂_both fun package member => areReal package (mem_sortedPaths.mp member)
  refine .foldlM paired same ?_
  rintro g g' _ _ same ⟨root, isDirectory, rfl, rfl⟩
  exact addPackage_parallel policy project here there isDirectory same

/-! ## Whole closures -/

theorem finish_parallel (named : ∀ extension ∈ policy.extensions, IsName extension)
    {t t' : Traversal}
    (same : SameProgress tree site site' t t') :
    Parallel d d' limit limit' (SameClosure tree site site') (policy.finish t) (policy.finish t') :=
  .bind (drain_parallel project named here there same) fun _ _ last =>
    .bind (addPackages_parallel policy project here there last.graph) fun _ _ same =>
      .pure (same.sorted here.proper there.proper)

/-- The closure of a script is the same wherever the project is checked out. -/
theorem build_parallel (named : ∀ extension ∈ policy.extensions, IsName extension) {entry : Path}
    (stays : Stays tree entry) (isFile : (ofTree tree).isFile entry = true) :
    Parallel d d' limit limit' (SameClosure tree site site')
      (Graph.build policy (entry.mounted site))
      (Graph.build policy (entry.mounted site')) := by
  refine .bind (realPath_parallel here.toHosts there.toHosts stays) ?_
  rintro _ _ ⟨real, found, rfl, rfl⟩
  have isReal := Disk.isRealFile_of_isFile isFile found
  refine .bind .read ?_
  rintro d d' ⟨rfl, rfl⟩
  have start : SameProgress tree site site' (.begin d (real.mounted site))
      (.begin d' (real.mounted site')) :=
    { unmetFiles := metAlike_allPaths here.toHosts there.toHosts
      unmetPackages := metAlike_allPaths here.toHosts there.toHosts
      files := .nil
      declared := .nil
      graph := ⟨⟨real, isReal.absolute, rfl, rfl⟩, .nil, .nil, rfl, .nil⟩ }
  exact .bind (finish_parallel policy project here there named (start.meetFile isReal))
    fun _ _ same => .pure same.markEntry

end Checkouts

end Relocation

end FunctionArchive
