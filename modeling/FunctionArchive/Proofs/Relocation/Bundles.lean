import FunctionArchive.Archive.Writing
import FunctionArchive.Proofs.Attempts
import FunctionArchive.Proofs.Consistency
import FunctionArchive.Proofs.Entries
import FunctionArchive.Proofs.Fallback
import FunctionArchive.Proofs.Graph.SingleReference
import FunctionArchive.Proofs.Relocation.Closure
import FunctionArchive.Proofs.Layout

/-!
# Bundles of a project that was moved

The closure of a script gives the same archive wherever the project is checked out
(`withGraph_relocated`): the same entries under the same names in the same order, files with the
same content and mode and links with the same text. Nothing in it tells where the project stood.
-/

set_option autoImplicit false

namespace FunctionArchive

open Query (Parallel SameWay Informed)
open FunctionArchive.Path (Proper IsName mounted)
open Disk (ofTree Hosts)

/-- Two entries that an archive shows alike: under the same name, with the same content and mode, or
with the same text if they are links. -/
structure OutputFile.ShownAlike (d d' : Disk) (f f' : OutputFile) : Prop where
  name : f.name = f'.name
  content : (Archive.load d f).toOption = (Archive.load d' f').toOption

/-- Two bundles that an archive shows alike: entry by entry in the same order, as they are bundled
and as they are packed. -/
structure Bundle.ShownAlike (d d' : Disk) (b b' : Bundle) : Prop where
  files : List.Forall₂ (OutputFile.ShownAlike d d') b.files b'.files
  contents : List.Forall₂ (OutputFile.ShownAlike d d') (Archive.contents b) (Archive.contents b')

theorem Query.SameWay.of_fault {α β : Type} {related : α → β → Prop} (fault : Fault) :
    SameWay related (.error fault) (.error fault) := by
  cases fault with
  | missingDependency => exact .missing _ _ _ _
  | _ => refine .other ?_ ?_ <;> rintro name origin ⟨⟩

namespace Relocation

variable {tree : Disk.Node} {reach : Path → Bool} {d d' : Disk} {site site' : List String}
  {limit limit' : Option Path} {g g' : Graph} {p base : Path}

/-! ## Entries -/

/-- A file of the project is shown with what it holds there. -/
theorem load_mounted (hosts : d.Hosts site tree) (stays : Stays tree p) (name : String) :
    (Archive.load d ⟨name, .file (p.mounted site), none⟩).toOption =
      (Archive.load (ofTree tree) ⟨name, .file p, none⟩).toOption := by
  unfold Archive.load
  dsimp only
  rw [hosts.file_mounted stays]
  cases (ofTree tree).file p <;> rfl

/-- The same closure gives the same entries. -/
theorem ofGraph_alike (project : Contained tree) (here : d.Hosts site tree)
    (there : d'.Hosts site' tree) (runtime : Runtime) (same : SameClosure tree site site' g g')
    (some : g.nodes ≠ []) :
    List.Forall₂ (OutputFile.ShownAlike d d') (Bundle.ofGraph runtime g).files
      (Bundle.ofGraph runtime g').files := by
  obtain ⟨nodes, areEntries, isNodes, isNodes'⟩ := exists_of_forall₂ same.nodes
  obtain ⟨links, rooted, isLinks, isLinks'⟩ := exists_of_forall₂ same.links
  rw [isNodes] at some
  obtain ⟨first, others, rfl⟩ := List.exists_cons_of_ne_nil (mt (congrArg (List.map _)) some)
  have absolute : ∀ p ∈ others.map (·.path) ++ links.map (·.path), p.absolute = true := by
    refine List.forall_mem_append.mpr ⟨List.forall_mem_map.mpr fun n member => ?_,
      List.forall_mem_map.mpr fun link member => (rooted link member).path⟩
    exact (areEntries n (List.mem_cons_of_mem _ member)).absolute
  obtain ⟨base, proper, inside, isBase⟩ :=
    Layout.baseOf_mounted (areEntries first List.mem_cons_self) absolute
  have places {g : Graph} {site : List String} (properSite : Proper site)
      (isNodes : g.nodes = (first :: others).map (GraphNode.mounted site))
      (isLinks : g.links = links.map (Link.mounted site)) :
      Bundle.baseOf g.places = (Path.ofNames base).mounted site := by
    rw [← isBase site properSite]
    simp only [Graph.places, Graph.files, isNodes, isLinks, List.map_map, List.map_append,
      List.map_cons, List.cons_append]
    rfl
  have inside' : ∀ p ∈ (first :: others).map (·.path) ++ links.map (·.path),
      base <+: p.components := by
    rw [List.map_cons, List.cons_append]
    exact inside
  obtain ⟨inNodes, inLinks⟩ := List.forall_mem_append.mp inside'
  rw [List.forall_mem_map] at inNodes inLinks
  unfold Bundle.ofGraph Graph.outputs
  rw [places here.proper isNodes isLinks, places there.proper isNodes' isLinks']
  refine List.rel_append ?_ ?_
  · rw [Graph.files, Graph.files, isNodes, isNodes']
    simp only [List.map_map, List.forall₂_map_left_iff, List.forall₂_map_right_iff]
    refine List.forall₂_same.mpr fun n member => ⟨?_, ?_⟩
    · have isAbsolute := (areEntries n member).absolute
      exact (Layout.archiveName_mounted here.proper proper isAbsolute (inNodes n member)).trans
        (Layout.archiveName_mounted there.proper proper isAbsolute (inNodes n member)).symm
    · have stays : Stays tree n.path := by
        obtain ⟨front, name, isProper, spelled⟩ := areEntries n member
        exact spelled ▸ stays_of_proper project.links isProper
      exact (load_mounted here stays _).trans (load_mounted there stays _).symm
  · rw [isLinks, isLinks']
    simp only [List.forall₂_map_left_iff, List.forall₂_map_right_iff]
    refine List.forall₂_same.mpr fun link member => ⟨?_, ?_⟩
    · have isAbsolute := (rooted link member).path
      exact (Layout.archiveName_mounted here.proper proper isAbsolute (inLinks link member)).trans
        (Layout.archiveName_mounted there.proper proper isAbsolute (inLinks link member)).symm
    · obtain ⟨⟨front, name, notRedundant, spelled⟩, isAbsolute⟩ := rooted link member
      simp only [Archive.load, Link.mounted, spelled,
        Layout.linkTarget_mounted here.proper isAbsolute notRedundant,
        Layout.linkTarget_mounted there.proper isAbsolute notRedundant]

/-! ## Archives -/

/-- Of entries that are shown alike the first ones of each name are shown alike. -/
theorem firstOfEach_alike {files files' : List OutputFile}
    (alike : List.Forall₂ (OutputFile.ShownAlike d d') files files') :
    List.Forall₂ (OutputFile.ShownAlike d d') (Archive.firstOfEach files)
      (Archive.firstOfEach files') := by
  have known {kept kept' : List OutputFile}
      (sameKept : List.Forall₂ (OutputFile.ShownAlike d d') kept kept') {f f' : OutputFile}
      (same : f.name = f'.name) : kept.any (·.name == f.name) = kept'.any (·.name == f'.name) := by
    induction sameKept with
    | nil => rfl
    | cons first _ ih => rw [List.any_cons, List.any_cons, ih, first.name, same]
  have onward {kept kept' : List OutputFile}
      (sameKept : List.Forall₂ (OutputFile.ShownAlike d d') kept kept') :
      List.Forall₂ (OutputFile.ShownAlike d d')
        (files.foldl (fun kept f => if kept.any (·.name == f.name) then kept else kept ++ [f]) kept)
        (files'.foldl (fun kept f => if kept.any (·.name == f.name) then kept else kept ++ [f])
          kept') := by
    induction alike generalizing kept kept' with
    | nil => exact sameKept
    | cons first _ ih =>
        rw [List.foldl_cons, List.foldl_cons, known sameKept first.name]
        split
        · exact ih sameKept
        · exact ih (List.rel_append sameKept (.cons first .nil))
  exact onward .nil

/-- Entries that are shown alike are shown in the same order. -/
theorem mergeSort_alike {files files' : List OutputFile}
    (alike : List.Forall₂ (OutputFile.ShownAlike d d') files files') :
    List.Forall₂ (OutputFile.ShownAlike d d') (files.mergeSort fun a b => a.name ≤ b.name)
      (files'.mergeSort fun a b => a.name ≤ b.name) := by
  have both :
      List.Forall₂ (Both Prod.fst Prod.snd fun pair => OutputFile.ShownAlike d d' pair.1 pair.2)
      files files' :=
    alike.imp fun f f' same => ⟨(f, f'), same, rfl, rfl⟩
  obtain ⟨pairs, areAlike, rfl, rfl⟩ := exists_of_forall₂ both
  rw [← List.map_mergeSort (r := fun a b => decide (a.1.name ≤ b.1.name)) fun a _ b _ => rfl,
    ← List.map_mergeSort (r := fun a b => decide (a.1.name ≤ b.1.name)) fun a member b member' => by
      rw [(areAlike a member).name, (areAlike b member').name]]
  exact (forall₂_both fun pair member => areAlike pair (List.mem_mergeSort.mp member)).imp
    fun _ _ ⟨pair, same, isFirst, isSecond⟩ => isFirst ▸ isSecond ▸ same

theorem shownAlike_of_files {b b' : Bundle} (sameRuntime : b.runtime = b'.runtime)
    (alike : List.Forall₂ (OutputFile.ShownAlike d d') b.files b'.files) :
    b.ShownAlike d d' b' := by
  refine ⟨alike, ?_⟩
  unfold Archive.contents
  rw [sameRuntime]
  refine mergeSort_alike (firstOfEach_alike ?_)
  split
  · exact .cons ⟨rfl, rfl⟩ alike
  · exact alike

/-! ## Bundles -/

/-- A closure holds at least its script. -/
theorem nodes_of_build {policy : GraphPolicy} {known : Manifests} (faithful : known.Faithful d)
    (built : (((Graph.build policy p) d).run known).1 = .ok g) : g.nodes ≠ [] := by
  obtain ⟨start, -, closure⟩ := (Graph.build_yields p faithful rfl).value g built
  have member := (closure.files start).mpr (.inl .start)
  rintro none
  simp [Graph.files, none] at member

variable {s : Settings} {f : FunctionSource} {w w' : World} {entry : Path}

/-- The closure of a script of a project gives the same archive wherever the project is checked out,
or it fails everywhere. -/
theorem withGraph_relocated (project : Contained tree)
    (named : ∀ extension ∈ s.extensions, IsName extension)
    (here : Checkout tree s.extensions reach d site limit)
    (there : Checkout tree s.extensions reach d' site' limit') (knows : w.Knows d limit)
    (knows' : w'.Knows d' limit') (stays : Stays tree entry)
    (isFile : (ofTree tree).isFile entry = true) :
    SameWay (Bundle.ShownAlike d d')
      ((Bundle.withStrategy s { f with entry := entry.mounted site } .graph).run w).1
      ((Bundle.withStrategy s { f with entry := entry.mounted site' } .graph).run w').1 := by
  show SameWay (Bundle.ShownAlike d d')
    ((Bundle.withGraph s { f with entry := entry.mounted site }).run w).1
    ((Bundle.withGraph s { f with entry := entry.mounted site' }).run w').1
  unfold Bundle.withGraph
  cases made : GraphPolicy.ofSettings s f.config with
  | error fault => exact .of_fault fault
  | ok policy =>
      have extensions := (GraphPolicy.ofSettings_ok_iff.mp made).extensions
      rw [← extensions] at named here there
      have parallel := build_parallel policy project here there named stays isFile
        ⟨knows.faithful, knows.boundary⟩ ⟨knows'.faithful, knows'.boundary⟩
      show SameWay (Bundle.ShownAlike d d')
        ((Action.query (Graph.build policy (entry.mounted site)) >>= fun g =>
          pure (Bundle.ofGraph f.runtime g)).run w).1
        ((Action.query (Graph.build policy (entry.mounted site')) >>= fun g =>
          pure (Bundle.ofGraph f.runtime g)).run w').1
      rw [Work.run_bind, Work.run_bind, Action.run_query, Action.run_query, knows.disk, knows'.disk]
      have some {g : Graph}
          (built : (((Graph.build policy (entry.mounted site)) d).run w.manifests).1 = .ok g) :
          g.nodes ≠ [] := nodes_of_build knows.faithful built
      have outcome := parallel.outcome
      generalize ((Graph.build policy (entry.mounted site)) d).run w.manifests =
        built at outcome some
      generalize ((Graph.build policy (entry.mounted site')) d').run w'.manifests =
        built' at outcome
      obtain ⟨result, known⟩ := built
      obtain ⟨result', known'⟩ := built'
      cases outcome with
      | ok same =>
          exact .ok (shownAlike_of_files rfl
            (ofGraph_alike project here.toHosts there.toHosts f.runtime same (some rfl)))
      | missing => exact .missing _ _ _ _
      | other isOther isOther' => exact .other isOther isOther'

section LinkedProject

open Sample (app appSource leaf policy package index)
open FunctionArchive.Bundle (linkedPackage dataSettings)

/-- A project with a package that a link leads to. -/
abbrev linkedProject : Disk.Node := linkedPackage.disk.root

theorem ofTree_linkedProject : ofTree linkedProject = linkedPackage.disk := rfl

theorem paths_linkedPackage : linkedPackage.disk.allPaths =
    [.root, app, .ofNames ["node_modules"], package "p", .ofNames ["store"], Bundle.storedPackage,
      Bundle.storedIndex] := rfl

theorem none_linkedProject {root : Path} (member : root ∈ linkedPackage.disk.allPaths) :
    linkedPackage.disk.manifestIn root = none := by
  have missing : linkedPackage.disk.read (root.child Manifest.fileName) = .error .notFound ∨
      linkedPackage.disk.read (root.child Manifest.fileName) = .error .notDirectory := by
    rw [paths_linkedPackage] at member
    simp only [List.mem_cons, List.not_mem_nil, or_false] at member
    rcases member with rfl | rfl | rfl | rfl | rfl | rfl | rfl
    · exact .inl (by cbv)
    · exact .inr (by cbv)
    · exact .inl (by cbv)
    · exact .inl (by cbv)
    · exact .inl (by cbv)
    · exact .inl (by cbv)
    · exact .inr (by cbv)
  rcases missing with missing | missing <;> simp [Disk.manifestIn, Manifests.fetch, missing]

theorem mentions_linkedProject {directory : Path} {reference : String}
    (mentions : Mentions linkedProject directory reference) :
    directory = .root ∧ reference = "p" := by
  cases mentions with
  | @script file _ isFile found =>
      have others : ∀ file ∈ linkedPackage.disk.allPaths, file = app ∨
          Script.isScript file = false := by
        decide
      obtain ⟨f, there⟩ := isFile.there
      have member := Disk.mem_allPaths_of_at? there
      rw [← Path.eq_ofNames isFile.absolute] at member
      rcases others file member with rfl | notScript
      · rw [ofTree_linkedProject, Sample.referencesIn_app Bundle.read_linkedPackage] at found
        refine ⟨by decide, ?_⟩
        simpa using found
      · simp [Disk.referencesIn, notScript] at found
  | manifest isDirectory declared =>
      obtain ⟨entries, there⟩ := isDirectory.there
      have member := Disk.mem_allPaths_of_at? there
      rw [← Path.eq_ofNames isDirectory.absolute, ofTree_linkedProject] at member
      simp [Disk.dependenciesOf, ofTree_linkedProject, none_linkedProject member] at declared

theorem links_linkedProject : Disk.LinksStay linkedProject := by
  intro here name target there
  have member : .ofNames (here ++ [name]) ∈ linkedPackage.disk.allPaths :=
    Disk.mem_allPaths_of_at? there
  have isLink : here ++ [name] = ["node_modules", "p"] ∧ target = "../store/p" := by
    rw [paths_linkedPackage] at member
    simp only [List.mem_cons, List.not_mem_nil, or_false, Path.root, Path.ofNames, app, package,
      Bundle.storedPackage, Bundle.storedIndex, Path.mk.injEq, true_and] at member
    generalize here ++ [name] = names at there member
    rcases member with rfl | rfl | rfl | rfl | rfl | rfl | rfl
    all_goals first | cases there; done | (cases there; exact ⟨rfl, rfl⟩)
  obtain ⟨split, rfl⟩ := isLink
  obtain ⟨rfl, rfl⟩ : here = ["node_modules"] ∧ name = "p" := by
    have parts := List.append_inj' (show here ++ [name] = ["node_modules"] ++ ["p"] from split) rfl
    exact ⟨parts.1, List.singleton_inj.mp parts.2⟩
  have spelled : Path.ofString "../store/p" = ⟨false, ["..", "store", "p"]⟩ := by decide
  rw [spelled]
  intro climbs
  cases climbs with
  | stay redundant => exact absurd redundant (by decide)
  | down _ notUp => exact notUp rfl
  | follow _ notUp => exact notUp rfl
  | back _ climbs =>
      have straight : Disk.Climbs linkedProject [] (["store", "p"] ++ []) := climbs
      have there : linkedProject.at? ([] ++ ["store", "p"]) =
          some (.directory [("index.json", leaf [])]) := rfl
      have notLink (target : String) :
          Disk.Node.directory [("index.json", leaf [])] ≠ .link target := by
        intro same
        cases same
      have down : Disk.LeadsDown ["store", "p"] := by
        unfold Disk.LeadsDown
        decide
      exact Disk.not_climbs_nil (straight.of_straight there notLink down)

theorem contained_linkedProject : Contained linkedProject where
  isTree := Bundle.staysBelow_linkedPackage.tree
  links := links_linkedProject
  relative directory reference mentions relative := by
    obtain ⟨rfl, rfl⟩ := mentions_linkedProject mentions
    cases relative
  bare directory reference mentions _ above isAbove := by
    obtain ⟨rfl, rfl⟩ := mentions_linkedProject mentions
    cases List.mem_singleton.mp isAbove
    exact Disk.inside_of_level links_linkedProject (by decide)
  exports directory reference mentions _ above isAbove m target found := by
    obtain ⟨rfl, rfl⟩ := mentions_linkedProject mentions
    cases List.mem_singleton.mp isAbove
    cases (none_linkedProject (by decide)).symm.trans found
  mains directory reference mentions p looksAt m main found := by
    obtain ⟨rfl, rfl⟩ := mentions_linkedProject mentions
    cases looksAt with
    | relative isRelative => cases isRelative
    | bare _ isAbove =>
        cases List.mem_singleton.mp isAbove
        cases (none_linkedProject (by decide)).symm.trans found
  beside root name isDirectory needed := by
    obtain ⟨entries, there⟩ := isDirectory.there
    have member := Disk.mem_allPaths_of_at? there
    rw [← Path.eq_ofNames isDirectory.absolute, ofTree_linkedProject] at member
    rw [GraphPolicy.knownName, GraphPolicy.knownVersion, ofTree_linkedProject,
      none_linkedProject member] at needed
    cases needed

/-- The project stands in a home directory. -/
def linkedHome : World where
  disk :=
    ⟨.directory [("home", .directory [("app", linkedProject.mounted ["home", "app"])])], .root, 0⟩
  manifests := .empty none
  journal := []

theorem checkout_linkedPackage :
    Checkout linkedProject [".json"] (fun _ => false) linkedPackage.disk [] none where
  proper := Path.proper_nil
  there := rfl
  above front name node inFront notAll := absurd (List.prefix_nil.mp inFront) notAll
  rootFile _ extension member := by
    cases List.mem_singleton.mp member
    cbv
  boundary p isDirectory := rfl

/-- A directory with a single entry holds nothing else. -/
theorem of_at?_single {name name' : String} {node node' : Disk.Node}
    (there : (Disk.Node.directory [(name', node')]).at? [name] = some node) :
    name = name' ∧ node = node' := by
  obtain ⟨inner, member, isNode⟩ := Disk.Node.at?_directory_cons there
  cases List.mem_singleton.mp member
  cases isNode
  exact ⟨rfl, rfl⟩

theorem checkout_linkedHome :
    Checkout linkedProject [".json"] (fun _ => false) linkedHome.disk ["home", "app"] none where
  proper := by
    simp only [Path.Proper, Path.IsName, Path.IsPart]
    decide
  there := rfl
  above front name node inFront notAll found := by
    have fronts : front = [] ∨ front = ["home"] ∨ front = ["home", "app"] := by
      simpa [List.inits] using (List.mem_inits _ _).mpr inFront
    rcases fronts with rfl | rfl | rfl
    · obtain ⟨rfl, rfl⟩ := of_at?_single found
      exact ⟨by decide, _, rfl⟩
    · obtain ⟨rfl, rfl⟩ := of_at?_single found
      exact ⟨by decide, _, rfl⟩
    · exact absurd rfl notAll
  rootFile isRoot := by cases isRoot
  boundary p isDirectory := rfl

/-- The script of the linked project is packed to the same archive in the root and in the home
directory. -/
theorem withGraph_relocated_linkedProject :
    Contained linkedProject ∧
      Checkout linkedProject [".json"] (fun _ => false) linkedPackage.disk [] none ∧
      Checkout linkedProject [".json"] (fun _ => false) linkedHome.disk ["home", "app"] none ∧
      ∃ b b', ((Bundle.withStrategy dataSettings
            { Bundle.graphFunction with entry := app.mounted [] } .graph).run linkedPackage).1 =
              .ok b ∧
        ((Bundle.withStrategy dataSettings
            { Bundle.graphFunction with entry := app.mounted ["home", "app"] } .graph).run
              linkedHome).1 = .ok b' ∧
        b.ShownAlike linkedPackage.disk linkedHome.disk b' := by
  obtain ⟨g, known, built, -⟩ := Bundle.build_linkedPackage
  obtain ⟨w', made⟩ := Bundle.withGraph_ok (s := dataSettings) (f := Bundle.graphFunction)
    (w := linkedPackage) rfl built
  have first : ((Bundle.withStrategy dataSettings
      { Bundle.graphFunction with entry := app.mounted [] } .graph).run linkedPackage).1 =
        .ok (.ofGraph .script g) := congrArg Prod.fst made
  have named : ∀ extension ∈ dataSettings.extensions, IsName extension := by
    simp only [IsName, Path.IsPart]
    decide
  have knows : linkedPackage.Knows linkedPackage.disk none :=
    ⟨rfl, Manifests.faithful_empty none _, rfl⟩
  have knows' : linkedHome.Knows linkedHome.disk none := ⟨rfl, Manifests.faithful_empty none _, rfl⟩
  have stays : Stays linkedProject app := by
    refine stays_of_proper links_linkedProject ?_
    simp only [Path.Proper, Path.IsName, Path.IsPart]
    decide
  have relocated := withGraph_relocated (f := Bundle.graphFunction) contained_linkedProject named
    checkout_linkedPackage checkout_linkedHome knows knows' stays (by cbv)
  refine ⟨contained_linkedProject, checkout_linkedPackage, checkout_linkedHome, ?_⟩
  rw [first] at relocated
  generalize ((Bundle.withStrategy dataSettings
      { Bundle.graphFunction with entry := app.mounted ["home", "app"] } .graph).run linkedHome).1 =
        outcome at relocated
  cases relocated with
  | ok alike => exact ⟨_, _, first, rfl, alike⟩

end LinkedProject

/-! ## Where a project does not come to the same -/

namespace Checkouts

open Sample (leaf)
open FunctionArchive.Bundle.Lacking (source manifestSource read_manifestSource)

/-- The bytes of `require('.')`. -/
def rootSource : List UInt8 := [114, 101, 113, 117, 105, 114, 101, 40, 39, 46, 39, 41]

/-- A project in which one script lacks an optional dependency and another one refers to the
root. -/
def project : Disk.Node := .directory
  [(".js", leaf []), ("index.d", .directory [("x.js", leaf source)]),
    ("package.json", leaf manifestSource),
    ("y.js", leaf rootSource)]

/-- A directory of the project. -/
def inner : Path := .ofNames ["index.d"]

/-- The script that lacks an optional dependency. -/
def lackingScript : Path := .ofNames ["index.d", "x.js"]

/-- The script that refers to the root. -/
def rootScript : Path := .ofNames ["y.js"]

/-- The project is checked out twice. -/
def twice : Disk := ⟨.directory [("a", project), ("b", project)], .root, 0⟩

/-! ### What the project holds -/

/-- Whether an entry is a directory. -/
def isDirectory : Disk.Node → Bool
  | .directory _ => true
  | .file _ | .link _ => false

/-- Whether an entry is a link. -/
def isLink : Disk.Node → Bool
  | .link _ => true
  | .file _ | .directory _ => false

theorem manifestIn_project : ∃ m : Manifest,
    (ofTree project).manifestIn .root = some m ∧ m.main = none ∧ m.name = none ∧
      m.version = none ∧ m.dependencies = [] := by
  obtain ⟨fields, result, -, main, name, -, dependencies⟩ := read_manifestSource
  have noVersion : fields.version = none := by
    have told : (Json.Reader.run Manifest.readFields manifestSource).toOption.map (·.version) =
        some none := by cbv
    rw [result] at told
    exact Option.some.inj told
  have read : (ofTree project).read (Path.root.child Manifest.fileName) =
      .ok manifestSource := by cbv
  have parent : (Path.root.child Manifest.fileName).parent? = some .root := by decide
  refine ⟨.ofFields .root fields, ?_, ?_, name, noVersion, dependencies⟩
  · simp only [Disk.manifestIn, Manifests.fetch, read, Manifest.read, result, parent, Except.map,
      Option.getD_some]
  · rw [Manifest.ofFields, main]
    rfl

theorem manifestIn_none {directory : Path}
    (missing : (ofTree project).read (directory.child Manifest.fileName) = .error .notFound) :
    (ofTree project).manifestIn directory = none := by
  simp [Disk.manifestIn, Manifests.fetch, missing]

theorem manifestIn_inner : (ofTree project).manifestIn inner = none := manifestIn_none (by cbv)

theorem directory_project {root : Path} (real : (ofTree project).IsRealDirectory root) :
    root = .root ∨ root = inner := by
  have directories : ∀ p ∈ (ofTree project).allPaths, p = .root ∨ p = inner ∨
      (project.at? p.names).any isDirectory = false := by
    decide
  obtain ⟨entries, there⟩ := real.there
  have member := Disk.mem_allPaths_of_at? there
  rw [← Path.eq_ofNames real.absolute] at member
  rcases directories root member with rfl | rfl | other
  · exact .inl rfl
  · exact .inr rfl
  · have there : project.at? root.names = some (.directory entries) := there
    rw [there] at other
    cases other

theorem scan_rootSource :
    Script.scan (Utf8.decodeLossy rootSource) rootScript = .ok ⟨[.static "."], false⟩ := by
  have scanned : (Script.scan (Utf8.decodeLossy rootSource) rootScript).toOption =
      some ⟨[.static "."], false⟩ := by decide +kernel
  cases scan : Script.scan (Utf8.decodeLossy rootSource) rootScript with
  | error fault => simp [scan, Except.toOption] at scanned
  | ok found =>
      rw [scan] at scanned
      rw [Option.some.inj scanned]

theorem referencesIn_lacking {d : Disk} {p : Path} (read : d.read p = .ok source)
    (script : Script.isScript p = true)
    (dialect : Script.Dialect.ofPath Bundle.Lacking.entry = .ofPath p) :
    d.referencesIn p = [.static "o"] := by
  simp [Disk.referencesIn, script, read, Script.scan_ok Bundle.Lacking.scan_source dialect]

theorem referencesIn_root {d : Disk} {p : Path} (read : d.read p = .ok rootSource)
    (script : Script.isScript p = true) (dialect : Script.Dialect.ofPath rootScript = .ofPath p) :
    d.referencesIn p = [.static "."] := by
  simp [Disk.referencesIn, script, read, Script.scan_ok scan_rootSource dialect]

theorem mentions_project {directory : Path} {reference : String}
    (mentions : Mentions project directory reference) :
    (directory = inner ∧ reference = "o") ∨ (directory = .root ∧ reference = ".") := by
  cases mentions with
  | @script file _ isFile found =>
      have scripts : ∀ p ∈ (ofTree project).allPaths,
          p = lackingScript ∨ p = rootScript ∨ Script.isScript p = false := by decide
      obtain ⟨f, there⟩ := isFile.there
      have member := Disk.mem_allPaths_of_at? there
      rw [← Path.eq_ofNames isFile.absolute] at member
      rcases scripts file member with rfl | rfl | notScript
      · rw [referencesIn_lacking (by cbv) (by decide) (by decide), List.mem_singleton] at found
        cases found
        exact .inl ⟨by decide, rfl⟩
      · rw [referencesIn_root (by cbv) (by decide) (by decide), List.mem_singleton] at found
        cases found
        exact .inr ⟨by decide, rfl⟩
      · simp [Disk.referencesIn, notScript] at found
  | manifest isDirectory declared =>
      obtain ⟨m, found, -, -, -, dependencies⟩ := manifestIn_project
      rcases directory_project isDirectory with rfl | rfl
      · simp [Disk.dependenciesOf, found, dependencies] at declared
      · simp [Disk.dependenciesOf, manifestIn_inner] at declared

theorem links_project : Disk.LinksStay project := by
  have noLinks : ∀ p ∈ (ofTree project).allPaths,
      (project.at? p.names).any isLink = false := by
    decide
  intro here name target there
  have member : .ofNames (here ++ [name]) ∈ (ofTree project).allPaths :=
    Disk.mem_allPaths_of_at? there
  have found := noLinks _ member
  rw [Path.ofNames, there] at found
  cases found

theorem noPackage_project {above : Path} (isAbove : above ∈ inner.ancestors) :
    (ofTree project).manifestIn (Resolution.packageIn "o" above) = none := by
  have ancestors : inner.ancestors = [inner, .root] := by decide
  rw [ancestors] at isAbove
  simp only [List.mem_cons, List.not_mem_nil, or_false] at isAbove
  rcases isAbove with rfl | rfl <;> exact manifestIn_none (by cbv)

theorem contained_project : Contained project where
  isTree := by
    refine ⟨⟨_, rfl⟩, ?_⟩
    simp only [Path.Proper, Path.IsName, Path.IsPart]
    decide
  links := links_project
  relative directory reference mentions relative := by
    rcases mentions_project mentions with ⟨rfl, rfl⟩ | ⟨rfl, rfl⟩
    · cases relative
    · exact ⟨by decide, by decide⟩
  bare directory reference mentions bare above isAbove := by
    rcases mentions_project mentions with ⟨rfl, rfl⟩ | ⟨rfl, rfl⟩
    · have level : ∀ above ∈ inner.ancestors,
          ".." ∉ ((above.child Resolution.packagesName).child "o").names := by decide
      exact Disk.inside_of_level links_project (level above isAbove)
    · cases bare
  exports directory reference mentions bare above isAbove m target found := by
    rcases mentions_project mentions with ⟨rfl, rfl⟩ | ⟨rfl, rfl⟩
    · cases (noPackage_project isAbove).symm.trans found
    · cases bare
  mains directory reference mentions p looksAt m main found := by
    rcases mentions_project mentions with ⟨rfl, rfl⟩ | ⟨rfl, rfl⟩
    · cases looksAt with
      | relative isRelative => cases isRelative
      | bare _ isAbove => cases (noPackage_project isAbove).symm.trans found
    · cases looksAt with
      | bare isBare => cases isBare
      | relative _ =>
          obtain ⟨m', there, noMain, -⟩ := manifestIn_project
          have isRoot : Path.normalize .root (Path.root.child ".") = .root := by decide
          rw [isRoot] at found
          cases there.symm.trans found
          simp [noMain]
  beside root name isDirectory needed := by
    obtain ⟨m, found, -, noName, noVersion, -⟩ := manifestIn_project
    rcases directory_project isDirectory with rfl | rfl
    · simp only [GraphPolicy.knownName, GraphPolicy.knownVersion, found, Option.bind_some, noName,
        noVersion] at needed
      cases needed
    · simp only [GraphPolicy.knownName, GraphPolicy.knownVersion, manifestIn_inner] at needed
      cases needed

theorem hosts_twice {name : String} (there : twice.root.at? [name] = some (project.mounted [name]))
    (isName : IsName name) : twice.Hosts [name] project where
  proper := Path.proper_singleton.mpr isName
  there := there
  above front other node inFront notAll found := by
    have first : front = [] := by
      rcases List.prefix_cons_iff.mp inFront with rfl | ⟨rest, rfl, inRest⟩
      · rfl
      · cases List.prefix_nil.mp inRest
        exact absurd rfl notAll
    subst first
    have names : ∀ p ∈ twice.allPaths, p.names.length = 1 → p.names ≠ [Resolution.packagesName] ∧
        (twice.root.at? p.names).any isDirectory = true := by decide
    obtain ⟨named, ofDirectory⟩ := names _ (Disk.mem_allPaths_of_at? found) rfl
    have isThere : twice.root.at? (Path.ofNames ([] ++ [other])).names = some node := found
    rw [isThere] at ofDirectory
    refine ⟨fun same => named (by rw [same]; rfl), ?_⟩
    cases node with
    | directory entries => exact ⟨entries, rfl⟩
    | file f => cases ofDirectory
    | link target => cases ofDirectory

theorem hosts_root : (ofTree project).Hosts [] project where
  proper := Path.proper_nil
  there := rfl
  above _ _ _ inFront notAll := absurd (List.prefix_nil.mp inFront) notAll

/-! ### What the scripts refer to -/

theorem fetch_project {d : Disk} {root : Path}
    (read : d.read (root.child Manifest.fileName) = .ok manifestSource)
    (parent : (root.child Manifest.fileName).parent? = some root) :
    ∃ m : Manifest, Manifests.fetch d (root.child Manifest.fileName) = .ok (some m) ∧
      m.isOptional "o" = true ∧ m.main = none := by
  obtain ⟨fields, result, optional, main, -⟩ := read_manifestSource
  refine ⟨.ofFields root fields, ?_, ?_, ?_⟩
  · simp only [Manifests.fetch, read, Manifest.read, result, parent, Except.map, Option.getD_some]
  · show (fields.optionalDependencies.map (·.1)).contains "o" = true
    rw [optional]
    decide
  · rw [Manifest.ofFields, main]
    rfl

/-- Where the search ends below the manifest, nothing tells that the dependency is optional. -/
theorem missing_below : (Resolution.resolve [".js"] "o" (lackingScript.mounted ["a"])).answer twice
    (some (inner.mounted ["a"])) = .error
    (.missingDependency "o" (lackingScript.mounted ["a"])) := by
  let here : Path := inner.mounted ["a"]
  have builtin : Reference.isBuiltin "o" = false := by decide
  have relative : Reference.isRelative "o" = false := by decide
  have parent : (lackingScript.mounted ["a"]).parent? = some here := by decide
  have package : Reference.packageName "o" = "o" := by cbv
  have nowhere : ((Resolution.installed [".js"] "o" here) twice).run (.empty (some here)) =
      (.ok none, .empty (some here)) := by cbv
  have found : ((Manifests.find here) twice).run (.empty (some here)) =
      (.ok none, ⟨some here, [], [here.child Manifest.fileName]⟩) := by cbv
  show (Resolution.resolve [".js"] "o" (lackingScript.mounted ["a"])).answer twice (some here) = _
  simp [Query.answer, Resolution.resolve, builtin, relative, parent, package, nowhere,
    Resolution.tolerance, found]
  rfl

/-- Where the search goes on to the manifest, the dependency may be missing. -/
theorem tolerated_beyond : ∃ reason,
    (Resolution.resolve [".js"] "o" (lackingScript.mounted ["b"])).answer twice
      (some (inner.mounted ["a"])) = .ok (.optional reason) := by
  let here : Path := inner.mounted ["b"]
  let limit : Option Path := some (inner.mounted ["a"])
  have builtin : Reference.isBuiltin "o" = false := by decide
  have relative : Reference.isRelative "o" = false := by decide
  have parent : (lackingScript.mounted ["b"]).parent? = some here := by decide
  have package : Reference.packageName "o" = "o" := by cbv
  have nowhere : ((Resolution.installed [".js"] "o" here) twice).run (.empty limit) =
      (.ok none, .empty limit) := by cbv
  have read : twice.read ((Path.ofNames ["b"]).child Manifest.fileName) =
      .ok manifestSource := by cbv
  obtain ⟨m, fetched, optional, -⟩ := fetch_project read (by decide)
  have ancestors : here.ancestors = [here, .ofNames ["b"], .root] := by decide
  let passed : Manifests := ⟨limit, [], [here.child Manifest.fileName]⟩
  have loaded : ((Manifests.load here) twice).run (.empty limit) = (.ok none, passed) := by cbv
  have looked : passed.lookUp ((Path.ofNames ["b"]).child Manifest.fileName) = none := by decide
  have onward : passed.boundary.any (·.same here) = false := by decide
  have found : ∃ known, ((Manifests.find here) twice).run (.empty limit) =
      (.ok (some m), known) := by
    have got : ((get : Query Manifests) twice).run passed = (.ok passed, passed) := rfl
    have unknown : passed.found? ((Path.ofNames ["b"]).child Manifest.fileName) = none := rfl
    rw [Manifests.find, ancestors, Manifests.findIn, Query.run_bind, loaded]
    simp [got, onward, Manifests.findIn, Manifests.run_load, looked, fetched,
      Manifests.record, unknown]
  obtain ⟨known, found⟩ := found
  refine ⟨.optionalDependency m.path, ?_⟩
  show (Resolution.resolve [".js"] "o" (lackingScript.mounted ["b"])).answer twice limit = _
  simp [Query.answer, Resolution.resolve, builtin, relative, parent, package, nowhere,
    Resolution.tolerance, found, optional]

/-- The root of a checkout is stood for by its index file. -/
theorem pathFile_root {d : Disk} {root : Path} (extension : String)
    (read : d.read (root.child Manifest.fileName) = .ok manifestSource)
    (parent : (root.child Manifest.fileName).parent? = some root)
    (there : d.isDirectory root = true)
    (noFile : [root, root.appendToName extension].find? d.isFile = none) :
    (Resolution.pathFile [extension] root).answer d none =
      .ok ([root.child ("index" ++ extension)].find? d.isFile) := by
  obtain ⟨m, fetched, -, noMain⟩ := fetch_project read parent
  exact Resolution.pathFile_index there fetched noMain noFile

/-- An extension by which a name leads into the second checkout. -/
def leading : String := ".d/../../b/package.json"

theorem stray_name : (Resolution.resolve [".js"] "." (rootScript.mounted ["a"])).answer twice none =
    .error (.missingDependency "." (rootScript.mounted ["a"])) := by
  have here : Path.normalize twice.current
      ((Resolution.startOf (rootScript.mounted ["a"])).child ".") = .ofNames ["a"] := by decide
  have noIndex : [(Path.ofNames ["a"]).child ("index" ++ ".js")].find? twice.isFile = none := by cbv
  refine Resolution.resolve_stray (by decide) (by decide) ?_
  rw [here, pathFile_root ".js" (by cbv) (by decide) (by cbv) (by cbv), noIndex]

/-- Only in the root is the extension alone the name of what is looked for. -/
theorem resolved_name : (Resolution.resolve [".js"] "." rootScript).answer (ofTree project) none =
    .ok (.resolved (.ofNames [".js"]) none []) := by
  have stands : (Resolution.pathFile [".js"] .root).answer (ofTree project) none =
    .ok (some (.ofNames [".js"])) := by cbv
  have crossed : (Resolution.linksTo .root (.ofNames [".js"])).answer (ofTree project) none =
    .ok [] := by cbv
  have start : Resolution.startOf rootScript = .root := by decide
  exact Resolution.resolve_relative (by decide) (by decide) stands (by cbv) (start ▸ crossed)

theorem resolved_leading :
    (Resolution.resolve [leading] "." (rootScript.mounted ["a"])).answer twice
    none = .ok (.resolved (.ofNames ["b", "package.json"]) none []) := by
  let found : Path := .ofNames ["a", "index.d", "..", "..", "b", "package.json"]
  have spelled : (Path.ofNames ["a"]).child ("index" ++ leading) = found := by decide
  have here : Path.normalize twice.current
      ((Resolution.startOf (rootScript.mounted ["a"])).child ".") = .ofNames ["a"] := by decide
  have index : [found].find? twice.isFile = some found := by cbv
  have stands : (Resolution.pathFile [leading] (.ofNames ["a"])).answer twice none =
      .ok (some found) := by
    rw [pathFile_root leading (by cbv) (by decide) (by cbv) (by cbv), spelled, index]
  have start : Resolution.startOf (rootScript.mounted ["a"]) = .ofNames ["a"] := by decide
  have crossed : (Resolution.linksTo (.ofNames ["a"]) found).answer twice none = .ok [] := by cbv
  exact Resolution.resolve_relative (by decide) (by decide) (here ▸ stands) (by cbv)
    (start ▸ crossed)

theorem stray_leading : (Resolution.resolve [leading] "." rootScript).answer (ofTree project) none =
    .error (.missingDependency "." rootScript) := by
  have here : Path.normalize (ofTree project).current
      ((Resolution.startOf rootScript).child ".") = .root := by decide
  have noIndex : [Path.root.child ("index" ++ leading)].find? (ofTree project).isFile =
      none := by cbv
  refine Resolution.resolve_stray (by decide) (by decide) ?_
  rw [here, pathFile_root leading (by cbv) (by decide) (by cbv) (by cbv), noIndex]

/-! ### What is bundled -/

/-- A script is bundled by its closure. -/
def IsBundled (s : Settings) (d : Disk) (script : Path) : Prop :=
  ∃ b, ((Bundle.withStrategy s ⟨"x", script, .script, "js", {}⟩ .graph).run
    ⟨d, .empty s.boundary, []⟩).1 = .ok b

variable {s : Settings} {d : Disk} {script : Path} {reference : String} {policy : GraphPolicy}

theorem isBundled_of_resolved {file : Path} {links : List Link}
    (made : GraphPolicy.ofSettings s {} = .ok policy) (real : d.realPath script = .ok script)
    (scans : d.Scans script) (refers : d.referencesIn script = [.static reference])
    (resolved : (Resolution.resolve policy.extensions reference script).answer d s.boundary =
      .ok (.resolved file none links))
    (leaf : Script.isScript file = false) : IsBundled s d script := by
  refine Bundle.withGraph_single made real scans refers (.resolved resolved) fun _ _ _ follows => ?_
  cases resolved.symm.trans follows.resolved
  exact ⟨leaf, rfl⟩

theorem isBundled_of_optional {reason : Tolerance}
    (made : GraphPolicy.ofSettings s {} = .ok policy) (real : d.realPath script = .ok script)
    (scans : d.Scans script) (refers : d.referencesIn script = [.static reference])
    (optional : (Resolution.resolve policy.extensions reference script).answer d s.boundary =
      .ok (.optional reason)) : IsBundled s d script := by
  refine Bundle.withGraph_single made real scans refers (.resolved optional) fun _ _ _ follows => ?_
  cases optional.symm.trans follows.resolved

theorem not_isBundled {fault : Fault} (made : GraphPolicy.ofSettings s {} = .ok policy)
    (real : d.realPath script = .ok script) (refers : d.referencesIn script = [.static reference])
    (notBuiltin : Reference.isBuiltin reference = false)
    (missing : (Resolution.resolve policy.extensions reference script).answer d s.boundary =
      .error fault) : ¬ IsBundled s d script := by
  have plain : policy.external = ⟨[], []⟩ ∧ policy.ignored = ⟨[], []⟩ := by
    cases made
    exact ⟨rfl, rfl⟩
  have nothing (name : String) : (⟨[], []⟩ : ModuleFilter).covers name = false := rfl
  have lacks : ¬ policy.Answerable d s.boundary ⟨reference, script⟩ false :=
    GraphPolicy.not_answerable notBuiltin (plain.1 ▸ nothing _) (plain.2 ▸ nothing _) missing
  obtain ⟨fault, failed⟩ := Bundle.withGraph_lacks (f := ⟨"x", script, .script, "js", {}⟩) made real
    (refers ▸ List.mem_singleton_self _) lacks
  rintro ⟨b, bundled⟩
  cases failed.symm.trans bundled

/-- Settings by which the search for manifests ends inside the first checkout. -/
def bounded : Settings := { Packing.plainSettings with boundary := some (inner.mounted ["a"]) }

/-- A project does not come to the same everywhere if the search for manifests ends inside one
checkout, if its root is the root of the disk and holds a file that is named by an extension alone,
or if an extension leads to another directory. -/
theorem withGraph_notRelocated :
    Contained project ∧ twice.Hosts ["a"] project ∧ twice.Hosts ["b"] project ∧
      (ofTree project).Hosts [] project ∧
      (¬ IsBundled bounded twice (lackingScript.mounted ["a"]) ∧
        IsBundled bounded twice (lackingScript.mounted ["b"])) ∧
      (¬ IsBundled Packing.plainSettings twice (rootScript.mounted ["a"]) ∧
        IsBundled Packing.plainSettings (ofTree project) (rootScript.mounted [])) ∧
      (IsBundled { Packing.plainSettings with extensions := [leading] } twice
          (rootScript.mounted ["a"]) ∧
        ¬ IsBundled { Packing.plainSettings with extensions := [leading] } (ofTree project)
          (rootScript.mounted [])) := by
  have isName : IsName "a" ∧ IsName "b" := by
    simp only [IsName, Path.IsPart]
    decide
  have lacking (name : String) (read : twice.read (lackingScript.mounted [name]) = .ok source)
      (script : Script.isScript (lackingScript.mounted [name]) = true)
      (dialect : Script.Dialect.ofPath Bundle.Lacking.entry =
        .ofPath (lackingScript.mounted [name])) :
      twice.Scans (lackingScript.mounted [name]) ∧
        twice.referencesIn (lackingScript.mounted [name]) = [.static "o"] :=
    ⟨fun _ => ⟨source, read, .inl ⟨_, Script.scan_ok Bundle.Lacking.scan_source dialect⟩⟩,
      referencesIn_lacking read script dialect⟩
  obtain ⟨reason, tolerated⟩ := tolerated_beyond
  have scans_root : (ofTree project).Scans rootScript := fun _ =>
    ⟨rootSource, by cbv, .inl ⟨_, scan_rootSource⟩⟩
  have scans_a : twice.Scans (rootScript.mounted ["a"]) := fun _ =>
    ⟨rootSource, by cbv, .inl ⟨_, Script.scan_ok scan_rootSource (by decide)⟩⟩
  have refers_root : (ofTree project).referencesIn rootScript = [.static "."] :=
    referencesIn_root (by cbv) (by decide) (by decide)
  have refers_a : twice.referencesIn (rootScript.mounted ["a"]) = [.static "."] :=
    referencesIn_root (by cbv) (by decide) (by decide)
  refine ⟨contained_project, hosts_twice rfl isName.1, hosts_twice rfl isName.2, hosts_root,
    ⟨?_, ?_⟩, ⟨?_, ?_⟩, ?_, ?_⟩
  · obtain ⟨-, refers⟩ := lacking "a" (by cbv) (by decide) (by decide)
    exact not_isBundled rfl (by cbv) refers (by decide) missing_below
  · obtain ⟨scans, refers⟩ := lacking "b" (by cbv) (by decide) (by decide)
    exact isBundled_of_optional rfl (by cbv) scans refers tolerated
  · exact not_isBundled rfl (by cbv) refers_a (by decide) stray_name
  · exact isBundled_of_resolved rfl (by cbv) scans_root refers_root resolved_name (by decide)
  · exact isBundled_of_resolved rfl (by cbv) scans_a refers_a resolved_leading (by decide)
  · exact not_isBundled rfl (by cbv) refers_root (by decide) stray_leading

end Checkouts

end Relocation

end FunctionArchive
