import FunctionArchive.Proofs.Archive.Preservation
import FunctionArchive.Proofs.Entries
import FunctionArchive.Proofs.Graph.OnePackage
import FunctionArchive.Proofs.Layout

/-!
# Consistent archives

A list of entries is consistent when a tree can hold it: a link shares its name with no other
entry, and nothing lies below an entry (`Consistent`). The bundle of a function is consistent if
each file in it is named by its real path (`make_consistent`): then files and links stand at
different places of one disk, none of which lies below another, and the names in an archive tell
places apart.

Packages are shipped with everything below them, links followed, so a file can be shipped by a path
that leads through a link. If a reference crosses the same link, the link is an entry too, and the
archive is not consistent (`make_crossedLink`).
-/

set_option autoImplicit false

namespace FunctionArchive

open Path (Plain Proper IsName)
open Layout (archiveName)

/-! ## Entries that a tree can hold -/

/-- Whether an entry is a link. -/
def OutputFile.IsLink (e : OutputFile) : Prop := ∃ text, e.source = .link text

/-- No link has the name of another entry, and nothing lies below an entry. -/
structure Consistent (files : List OutputFile) : Prop where
  apart : files.Pairwise fun e e' => e.IsLink ∨ e'.IsLink → e.name ≠ e'.name
  leaves : ∀ e ∈ files, ∀ e' ∈ files, ∀ rest, e'.name ≠ e.name ++ "/" ++ rest

/-- A single entry is consistent. -/
theorem consistent_singleton (e : OutputFile) : Consistent [e] := by
  refine ⟨List.pairwise_singleton _ _, ?_⟩
  intro e₁ first e₂ second rest same
  cases List.mem_singleton.mp first
  cases List.mem_singleton.mp second
  have length := congrArg String.length same
  have slash : ("/" : String).length = 1 := rfl
  rw [String.length_append, String.length_append] at length
  omega

/-! ## Entries at places of a disk -/

/-- A plain path at which no directory stands. -/
structure Disk.IsPlace (d : Disk) (p : Path) : Prop where
  plain : p.Plain
  leaf : d.IsLeaf p.names

section Places

variable {d : Disk} {places : List Path}

/-- Entries that are named after places do not lie below one another. -/
theorem leaves_of_places (arePlaces : ∀ p ∈ places, d.IsPlace p) {files : List OutputFile}
    (named : ∀ e ∈ files, ∃ p ∈ places, e.name = archiveName p (Bundle.baseOf places)) :
    ∀ e ∈ files, ∀ e' ∈ files, ∀ rest, e'.name ≠ e.name ++ "/" ++ rest := by
  intro e member e' member' text below
  obtain ⟨p, inside, name⟩ := named e member
  obtain ⟨q, inside', name'⟩ := named e' member'
  rw [name, name'] at below
  obtain ⟨rest, some, names⟩ :=
    Layout.names_of_below (fun p inside => (arePlaces p inside).plain) inside inside' below
  have same := (arePlaces p inside).leaf.eq_of_prefix (arePlaces q inside').leaf
    (names ▸ List.prefix_append _ _)
  rw [← same] at names
  exact some (List.self_eq_append_right.mp names)

theorem Disk.IsRealFile.isPlace (tree : d.IsTree) {p : Path} (isReal : d.IsRealFile p) :
    d.IsPlace p := by
  obtain ⟨f, there⟩ := isReal.there
  exact ⟨⟨isReal.absolute, tree.proper_of_at? there⟩, tree.isLeaf_of_at? there nofun⟩

theorem Disk.HoldsLink.isPlace (tree : d.IsTree) {link : Link} (holds : d.HoldsLink link) :
    d.IsPlace link.path := by
  obtain ⟨text, there⟩ := holds.there
  exact ⟨holds.plain, tree.isLeaf_of_at? there nofun⟩

/-- A link does not stand where a file stands. -/
theorem Disk.HoldsLink.ne_of_file {link : Link} (holds : d.HoldsLink link) {p : Path}
    (notLink : ∀ text, d.root.at? p.names ≠ some (.link text)) : p ≠ link.path := by
  rintro rfl
  obtain ⟨text, there⟩ := holds.there
  exact notLink text there

/-! ## The entries of a closure -/

variable {g : Graph}

/-- A closure of files that are named by their real paths and of links of the disk. -/
structure Graph.Stands (d : Disk) (g : Graph) : Prop where
  linked : g.Linked d
  files : ∀ p ∈ g.files, d.IsRealFile p

theorem Graph.Stands.isPlace (tree : d.IsTree) (stands : g.Stands d) :
    ∀ p ∈ g.places, d.IsPlace p := by
  refine List.forall_mem_append.mpr ⟨fun p member => (stands.files p member).isPlace tree, ?_⟩
  intro p member
  obtain ⟨link, among, rfl⟩ := List.mem_map.mp member
  exact (stands.linked.holds link among).isPlace tree

theorem Graph.named_outputs (g : Graph) (base : Path) :
    ∀ e ∈ g.outputs base, ∃ p ∈ g.places, e.name = archiveName p base := by
  refine List.forall_mem_append.mpr ⟨fun e member => ?_, fun e member => ?_⟩
  · obtain ⟨p, among, rfl⟩ := List.mem_map.mp member
    exact ⟨p, List.mem_append_left _ among, rfl⟩
  · obtain ⟨link, among, rfl⟩ := List.mem_map.mp member
    exact ⟨link.path, List.mem_append_right _ (List.mem_map_of_mem among), rfl⟩

/-- The links among the entries of a closure have names of their own. -/
theorem Graph.Stands.apart (stands : g.Stands d) (plain : ∀ p ∈ places, p.Plain)
    (inside : ∀ p ∈ g.places, p ∈ places) :
    (g.outputs (Bundle.baseOf places)).Pairwise fun e e' =>
      e.IsLink ∨ e'.IsLink → e.name ≠ e'.name := by
  have insideFiles {p : Path} (member : p ∈ g.files) : p ∈ places :=
    inside p (List.mem_append_left _ member)
  have insideLinks {link : Link} (member : link ∈ g.links) : link.path ∈ places :=
    inside _ (List.mem_append_right _ (List.mem_map_of_mem member))
  refine List.pairwise_append.mpr ⟨?_, ?_, ?_⟩
  · refine List.pairwise_map.mpr (List.pairwise_of_forall fun p q isLink => ?_)
    rcases isLink with ⟨text, isLink⟩ | ⟨text, isLink⟩ <;> cases isLink
  · refine List.pairwise_map.mpr (stands.linked.once.imp_of_mem ?_)
    intro a b among among' different _ same
    exact different (Layout.archiveName_inj plain (insideLinks among) (insideLinks among') same)
  · intro e member e' member' _ same
    obtain ⟨p, among, rfl⟩ := List.mem_map.mp member
    obtain ⟨link, among', rfl⟩ := List.mem_map.mp member'
    obtain ⟨f, there⟩ := (stands.files p among).there
    refine (stands.linked.holds link among').ne_of_file (fun text isLink => ?_)
      (Layout.archiveName_inj plain (insideFiles among) (insideLinks among') same)
    cases there.symm.trans isLink

/-- The bundle of a closure is consistent. -/
theorem Graph.Stands.consistent_ofGraph (tree : d.IsTree) (stands : g.Stands d)
    (runtime : Runtime) : Consistent (Bundle.ofGraph runtime g).files := by
  have arePlaces := stands.isPlace tree
  exact ⟨stands.apart (fun p member => (arePlaces p member).plain) fun _ => id,
    leaves_of_places arePlaces (g.named_outputs _)⟩

/-! ## What an engine makes -/

/-- A place for what an engine makes of a script: a file stands there, or nothing. -/
structure Disk.IsVacant (d : Disk) (p : Path) : Prop extends d.IsPlace p where
  notLink : ∀ text, d.root.at? p.names ≠ some (.link text)

/-- The bundle of what an engine makes is consistent, with the closure of the packages that it left
outside. -/
theorem consistent_ofEngine (tree : d.IsTree) {script : Path} (vacant : d.IsVacant script)
    {packages : Option Graph} (stand : ∀ g, packages = some g → g.Stands d) (runtime : Runtime)
    (bundled : List UInt8) (warnings : List String) :
    Consistent (Bundle.ofEngine runtime script bundled warnings packages).files := by
  cases packages with
  | none => exact consistent_singleton _
  | some g =>
      have stands := stand g rfl
      have arePlaces : ∀ p ∈ script :: g.places, d.IsPlace p :=
        List.forall_mem_cons.mpr ⟨vacant.toIsPlace, stands.isPlace tree⟩
      have plain : ∀ p ∈ script :: g.places, p.Plain := fun p member => (arePlaces p member).plain
      refine ⟨List.pairwise_cons.mpr ⟨?_, stands.apart plain fun p => List.mem_cons_of_mem _⟩, ?_⟩
      · intro e member isLink same
        rcases List.mem_append.mp member with isFile | ofLink
        · obtain ⟨p, among, rfl⟩ := List.mem_map.mp isFile
          rcases isLink with ⟨text, isLink⟩ | ⟨text, isLink⟩ <;> cases isLink
        · obtain ⟨link, among, rfl⟩ := List.mem_map.mp ofLink
          refine (stands.linked.holds link among).ne_of_file vacant.notLink ?_
          exact Layout.archiveName_inj plain List.mem_cons_self (List.mem_cons_of_mem _
            (List.mem_append_right _ (List.mem_map_of_mem among))) same
      · refine leaves_of_places arePlaces (List.forall_mem_cons.mpr ⟨?_, fun e member => ?_⟩)
        · exact ⟨script, List.mem_cons_self, rfl⟩
        · obtain ⟨p, inside, name⟩ := g.named_outputs _ e member
          exact ⟨p, List.mem_cons_of_mem _ inside, name⟩

end Places

/-- No directory and no link stands where the archive holds what an engine makes of the script. -/
def FunctionSource.HasRoom (f : FunctionSource) (d : Disk) : Prop :=
  ∀ entry, d.realPath f.entry = .ok entry →
    ∀ node, d.root.at? (entry.withExtension "js").names = some node → ∃ file, node = .file file

theorem FunctionSource.HasRoom.isVacant {f : FunctionSource} {d : Disk} (room : f.HasRoom d)
    (tree : d.IsTree) {entry : Path} (found : d.realPath f.entry = .ok entry) :
    d.IsVacant (entry.withExtension "js") := by
  have atScript := room entry found
  have other {node : Disk.Node} (notFile : ∀ file, node ≠ .file file) :
      d.root.at? (entry.withExtension "js").names ≠ some node := fun there => by
    obtain ⟨file, isFile⟩ := atScript node there
    exact notFile file isFile
  obtain ⟨place, leads, rfl⟩ := Disk.find_of_realPath found
  have straight := (tree.straight_of_realPath found).2
  have there := Disk.at?_of_find leads
  obtain ⟨names, node⟩ := place
  change d.root.at? names = some node at there
  rcases List.eq_nil_or_concat names with rfl | ⟨front, last, rfl⟩
  · obtain ⟨entries, root⟩ := tree.root
    exact absurd (congrArg some root) (other nofun)
  · rw [List.concat_eq_append] at there straight other ⊢
    have proper : Proper (front ++ [last]) := straight.proper
    have script : (Disk.Place.path ⟨front ++ [last], node⟩).withExtension "js" =
        .ofNames (front ++ [(Path.splitExtension last).1 ++ "." ++ "js"]) := proper.withExtension
    rw [script] at other ⊢
    have proper' : Proper (front ++ [(Path.splitExtension last).1 ++ "." ++ "js"]) := by
      refine Path.proper_append.mpr ⟨(Path.proper_append.mp proper).1, ?_⟩
      exact Path.proper_singleton.mpr (proper last (by simp)).withExtension
    refine ⟨⟨Path.plain_ofNames.mpr proper', proper', ?_, fun entries => other nofun⟩,
      fun text => other nofun⟩
    rw [Path.ofNames, List.dropLast_concat]
    exact Disk.Node.directory_of_at?_append there (List.cons_ne_nil _ _)

/-! ## Bundles -/

namespace Bundle

variable {s : Settings} {f : FunctionSource} {d : Disk} {b : Bundle}

/-- Files that are entries of a closure under their real paths are there. -/
theorem stands_of_outputs {g : Graph} (standing : g.Standing d) {base : Path}
    (real : ∀ e ∈ g.outputs base, ∀ p, e.source = .file p → d.IsRealFile p) : g.Stands d := by
  refine ⟨standing.toLinked, fun p member => ?_⟩
  exact real ⟨archiveName p base, .file p, none⟩
    (List.mem_append_left _ (List.mem_map_of_mem member)) p rfl

theorem Laid.consistent (tree : d.IsTree) (laid : Laid d f b)
    (real : ∀ e ∈ b.files, ∀ p, e.source = .file p → d.IsRealFile p)
    (room : b.strategy = .engine → f.HasRoom d) : Consistent b.files := by
  cases laid with
  | single files =>
      rw [files]
      exact consistent_singleton _
  | graph standing _ _ _ files =>
      rw [files] at real ⊢
      exact (stands_of_outputs standing real).consistent_ofGraph tree f.runtime
  | @engine entry bundled warnings packages byEngine found standing _ files =>
      rw [files] at real ⊢
      refine consistent_ofEngine tree ((room byEngine).isVacant tree found) ?_ _ _ _
      rintro g rfl
      exact stands_of_outputs (standing g rfl) fun e member =>
        real e (List.mem_cons_of_mem _ member)

/-- The entries of a bundle are consistent if those that are files of the disk are named by their
real paths, and if an engine makes its script where a file may stand. Engines are taken to change
nothing but their own directory and to report packages by their names, and disks to have nothing
that leads upwards out of a directory of packages. -/
theorem make_consistent {w w' : World} (contained : s.engine.Contained)
    (reports : s.engine.ReportsDirect) (below : w.disk.StaysBelow s.extensions)
    (faithful : w.manifests.Faithful w.disk) (made : (make s f).run w = (.ok b, w'))
    (real : ∀ e ∈ b.files, ∀ p, e.source = .file p → w.disk.IsRealFile p)
    (room : b.strategy = .engine → f.HasRoom w.disk) : Consistent b.files := by
  have ended := make_laid (f := f) contained reports below w ⟨rfl, faithful, rfl⟩
  rw [made] at ended
  exact (ended.well b rfl).2.consistent below.tree real room

section Example

open Sample (app appSource leaf policy package index)

/-- Settings under which a data file may stand for a package. -/
def dataSettings : Settings := { Packing.plainSettings with extensions := [".json"] }

theorem reportsDirect_idleEngine : dataSettings.engine.ReportsDirect := by
  intro r d result d' ran
  cases ran

/-- A script that is shipped with what it refers to. -/
def graphFunction : FunctionSource := ⟨"fn", app, .script, "js", { strategy := some .graph }⟩

/-- A world with these entries beside a script that refers to a package. -/
def besideApp (entries : List (String × Disk.Node)) : World where
  disk := ⟨.directory (("a.js", leaf appSource) :: entries), .root, 0⟩
  manifests := .empty none
  journal := []

theorem make_onePackage {entries : List (String × Disk.Node)} {g : Graph} {known : Manifests}
    (built : ((Graph.build policy app) (besideApp entries).disk).run (.empty none) =
      (.ok g, known)) :
    ∃ w', (make dataSettings graphFunction).run (besideApp entries) =
      (.ok (ofGraph .script g), w') := by
  have read : GraphPolicy.ofSettings dataSettings graphFunction.config = .ok policy := rfl
  obtain ⟨w', made⟩ := withGraph_ok (f := graphFunction) (w := besideApp entries) read built
  exact make_ok rfl made

/-- A package that a link leads to. -/
def linkedPackage : World := besideApp
  [("node_modules", .directory [("p", .link "../store/p")]),
   ("store", .directory [("p", .directory [("index.json", leaf [])])])]

/-- The file that stands for the linked package. -/
def storedIndex : Path := .ofNames ["store", "p", "index.json"]

/-- The directory of the linked package. -/
def storedPackage : Path := .ofNames ["store", "p"]

theorem resolve_linkedPackage :
    (Resolution.resolve [".json"] "p" app).answer linkedPackage.disk none =
    .ok (.resolved storedIndex (some storedPackage) [⟨package "p", storedPackage⟩]) := by
  apply Sample.onePackage_resolve <;> cbv

theorem read_linkedPackage : linkedPackage.disk.read app = .ok appSource := by cbv

theorem staysBelow_linkedPackage : linkedPackage.disk.StaysBelow [".json"] := by
  have paths : linkedPackage.disk.allPaths =
      [.root, app, .ofNames ["node_modules"], package "p", .ofNames ["store"], storedPackage,
        storedIndex] := by
    rfl
  have manifests : ∀ root ∈ linkedPackage.disk.allPaths,
      linkedPackage.disk.read (root.child Manifest.fileName) = .error .notFound ∨
        linkedPackage.disk.read (root.child Manifest.fileName) = .error .notDirectory := by
    rw [paths]
    simp only [List.forall_mem_cons]
    refine ⟨.inl ?_, .inr ?_, .inl ?_, .inl ?_, .inl ?_, .inl ?_, .inr ?_,
      List.forall_mem_nil _⟩ <;>
      cbv
  refine ⟨⟨⟨_, rfl⟩, ?_⟩, ?_, ?_, ?_⟩
  · rw [paths]
    simp only [Path.Proper, Path.IsName, Path.IsPart]
    decide
  · simp only [Path.IsName, Path.IsPart]
    decide
  · have others : ∀ file ∈ linkedPackage.disk.allPaths, file = app ∨
        Script.isScript file = false := by
      rw [paths]
      decide
    intro file member reference found
    rcases others file member with rfl | notScript
    · simp only [Sample.referencesIn_app read_linkedPackage, List.mem_singleton,
        Script.Reference.static.injEq] at found
      subst found
      exact .inr (by decide)
    · simp [Disk.referencesIn, notScript] at found
  · intro root member name declared
    have fetched : Manifests.fetch linkedPackage.disk (root.child Manifest.fileName) =
        .ok none := by
      rcases manifests root member with missing | missing <;> simp [Manifests.fetch, missing]
    simp [Disk.dependenciesOf, Disk.manifestIn, fetched] at declared

theorem fetch_linkedPackage : Manifests.fetch linkedPackage.disk
    (storedPackage.child Manifest.fileName) = .ok none := by
  have missing : linkedPackage.disk.read (storedPackage.child Manifest.fileName) =
      .error .notFound := by cbv
  rw [Manifests.fetch, missing]

theorem below_linkedPackage :
    linkedPackage.disk.filesBelow (· == Resolution.packagesName) storedPackage =
      .ok [["index.json"]] := by cbv

theorem build_linkedPackage : ∃ g known,
    ((Graph.build policy app) linkedPackage.disk).run (.empty none) = (.ok g, known) ∧
      Graph.IsClosure policy linkedPackage.disk none app g :=
  Sample.onePackage_built read_linkedPackage resolve_linkedPackage (by decide) fetch_linkedPackage
    (by cbv) below_linkedPackage

theorem make_consistent_linkedPackage : ∃ b w',
    (make dataSettings graphFunction).run linkedPackage = (.ok b, w') ∧
      linkedPackage.disk.StaysBelow [".json"] ∧
      (∀ e ∈ b.files, ∀ p, e.source = .file p → linkedPackage.disk.IsRealFile p) ∧
      Consistent b.files := by
  obtain ⟨g, known, built, closed⟩ := build_linkedPackage
  obtain ⟨w', made⟩ := make_onePackage built
  have real : ∀ e ∈ (ofGraph .script g).files, ∀ p, e.source = .file p →
      linkedPackage.disk.IsRealFile p := by
    intro e member p source
    have inside : p ∈ g.files := by
      rcases List.mem_append.mp member with isFile | isLink
      · obtain ⟨path, among, rfl⟩ := List.mem_map.mp isFile
        cases source
        exact among
      · obtain ⟨link, among, rfl⟩ := List.mem_map.mp isLink
        cases source
    rw [Sample.onePackage_files read_linkedPackage resolve_linkedPackage (by decide)
      fetch_linkedPackage below_linkedPackage closed] at inside
    rcases inside with rfl | rfl | ⟨names, member, -, rfl⟩
    · exact ⟨rfl, by unfold Disk.LeadsDown; decide, ⟨appSource, 0o644, 0⟩, by cbv⟩
    · exact ⟨rfl, by unfold Disk.LeadsDown; decide, ⟨[], 0o644, 0⟩, by cbv⟩
    · cases List.mem_singleton.mp member
      exact ⟨rfl, by unfold Disk.LeadsDown; decide, ⟨[], 0o644, 0⟩, by cbv⟩
  refine ⟨_, w', made, staysBelow_linkedPackage, real, ?_⟩
  refine make_consistent (s := dataSettings) Packing.contained_idleEngine reportsDirect_idleEngine
    staysBelow_linkedPackage (Manifests.faithful_empty none _) made real fun isEngine => ?_
  cases isEngine

/-- A package whose index file is a link inside it. -/
def linkedIndex : World := besideApp
  [("node_modules", .directory [("p", .directory
    [("index.json", .link "real.json"), ("real.json", leaf [])])])]

/-- The file behind the link. -/
def realIndex : Path := .ofNames ["node_modules", "p", "real.json"]

theorem resolve_linkedIndex : (Resolution.resolve [".json"] "p" app).answer linkedIndex.disk none =
    .ok (.resolved realIndex (some (package "p")) [⟨index "p", realIndex⟩]) := by
  apply Sample.onePackage_resolve <;> cbv

/-- A link inside a package is shipped as a file and as a link when it is also crossed. -/
theorem make_crossedLink : ∃ b w',
    (make dataSettings graphFunction).run linkedIndex = (.ok b, w') ∧ b.strategy = .graph ∧
      ¬ Consistent b.files := by
  have read : linkedIndex.disk.read app = .ok appSource := by cbv
  have notScript : Script.isScript realIndex = false := by decide
  have missing : linkedIndex.disk.read ((package "p").child Manifest.fileName) =
      .error .notFound := by cbv
  have noManifest : Manifests.fetch linkedIndex.disk ((package "p").child Manifest.fileName) =
      .ok none := by rw [Manifests.fetch, missing]
  have below : linkedIndex.disk.filesBelow (· == Resolution.packagesName) (package "p") =
      .ok [["index.json"], ["real.json"]] := by cbv
  obtain ⟨g, known, built, closed⟩ :=
    Sample.onePackage_built read resolve_linkedIndex notScript noManifest (by cbv) below
  obtain ⟨w', made⟩ := make_onePackage built
  refine ⟨_, w', made, rfl, fun consistent => ?_⟩
  have file : index "p" ∈ g.files := by
    rw [Sample.onePackage_files read resolve_linkedIndex notScript noManifest below closed]
    exact .inr (.inr ⟨["index.json"], List.mem_cons_self, by decide, rfl⟩)
  have link : ⟨index "p", realIndex⟩ ∈ g.links := by
    obtain ⟨asked, follows⟩ := Sample.onePackage_leads read resolve_linkedIndex
    exact (closed.links _).mpr ⟨_, _, _, _, asked, follows, List.mem_singleton_self _⟩
  refine (List.pairwise_append.mp consistent.apart).2.2 _ (List.mem_map_of_mem file) _
    (List.mem_map_of_mem link) (.inr ⟨_, rfl⟩) rfl

end Example

end Bundle

end FunctionArchive
