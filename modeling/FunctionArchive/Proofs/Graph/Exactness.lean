import FunctionArchive.Proofs.Graph.Traversal
import FunctionArchive.Proofs.Sorted
import Mathlib

/-!
# The closure of a script is exact

After a traversal the files of the packages that it entered are added. Nothing else of the closure
changes by that (`Graph.Adds`), and what is added is what the packages bring along. So the closure
of a script holds exactly what its least closure and the packages in it say (`Graph.build_exact`).

The whole of Mathlib is imported for the examples at the end: `cbv` evaluates them with equations of
library functions, such as `List.lookup`, that Mathlib declares.
-/

set_option autoImplicit false

namespace FunctionArchive

open Query (Yields)

namespace Graph

/-! ## Adding files -/

/-- A closure that has some files more than another and is the same otherwise. -/
structure Adds (added : Path → Prop) (g g' : Graph) : Prop where
  files : ∀ file, file ∈ g'.files ↔ file ∈ g.files ∨ added file
  packages : g'.packages = g.packages
  links : g'.links = g.links
  external : g'.external = g.external
  warnings : g'.warnings = g.warnings

theorem Adds.refl (g : Graph) : Adds (fun _ => False) g g := ⟨by simp, rfl, rfl, rfl, rfl⟩

theorem Adds.trans {g g' g'' : Graph} {added added' : Path → Prop} (first : Adds added g g')
    (second : Adds added' g' g'') : Adds (fun file => added file ∨ added' file) g g'' := by
  refine ⟨fun file => ?_, second.packages.trans first.packages, second.links.trans first.links,
    second.external.trans first.external, second.warnings.trans first.warnings⟩
  rw [second.files, first.files, or_assoc]

theorem Adds.congr {g g' : Graph} {added added' : Path → Prop} (adds : Adds added g g')
    (same : ∀ file, added file ↔ added' file) : Adds added' g g' :=
  { adds with files := fun file => by rw [adds.files, same] }

theorem adds_insert (g : Graph) (path : Path) : Adds (· = path) g (g.insert path) := by
  unfold insert
  split
  · rename_i inside
    refine ⟨fun file => ⟨.inl, ?_⟩, rfl, rfl, rfl, rfl⟩
    rintro (there | rfl)
    · exact there
    · simpa [contains, files] using inside
  · exact ⟨fun file => by simp [files], rfl, rfl, rfl, rfl⟩

theorem adds_foldl_insert (g : Graph) (paths : List Path) :
    Adds (· ∈ paths) g (paths.foldl insert g) := by
  induction paths generalizing g with
  | nil => exact (Adds.refl g).congr (by simp)
  | cons path rest ih => exact ((adds_insert g path).trans (ih _)).congr (by simp)

end Graph

/-- Adding something for each of some items adds all that. -/
theorem Query.Yields.foldlM_adds {ι : Type} {d : Disk} {limit : Option Path}
    {f : Graph → ι → Query Graph} {added : ι → Path → Prop} (items : List ι)
    (yields : ∀ g, ∀ item ∈ items, Yields d limit (f g item) (g.Adds (added item))) (g : Graph) :
    Yields d limit (items.foldlM f g) (g.Adds fun file => ∃ item ∈ items, added item file) := by
  induction items generalizing g with
  | nil => exact .pure ((Graph.Adds.refl g).congr (by simp))
  | cons item rest ih =>
      rw [List.foldlM_cons]
      refine .bind (yields g item List.mem_cons_self) fun g' first => ?_
      have others := ih (fun g' other member => yields g' other (List.mem_cons_of_mem _ member)) g'
      refine others.mono fun g'' later => (first.trans later).congr fun file => ?_
      simp

namespace GraphPolicy

variable {policy : GraphPolicy} {d : Disk} {boundary : Option Path}

theorem packageFiles_yields (exclusion : Exclusion) (directory : Path) :
    Yields d boundary (packageFiles exclusion directory) fun files =>
      ∀ file, file ∈ files ↔ Lists d exclusion directory file := by
  refine .ask fun files answered file => ?_
  cases below : d.filesBelow (· == Resolution.packagesName) directory with
  | error fault => simp [below] at answered
  | ok found =>
      simp only [below, Except.ok.injEq] at answered
      subst answered
      simp only [Lists, below, Except.ok.injEq, List.mem_map, List.mem_filter]
      constructor
      · rintro ⟨names, ⟨member, kept⟩, rfl⟩
        exact ⟨found, names, rfl, member, by simpa using kept, rfl⟩
      · rintro ⟨_, names, rfl, member, kept, rfl⟩
        exact ⟨names, ⟨member, by simp [kept]⟩, rfl⟩

theorem addBeside_yields (root : Path) (g : Graph) (beside : String) :
    Yields d boundary (policy.addBeside root g beside) (g.Adds fun file =>
      d.isDirectory (Path.normalize d.current (root.child beside)) = true ∧
        Lists d policy.exclusion (Path.normalize d.current (root.child beside)) file) := by
  refine .bind (Resolution.normalized_yields _) ?_
  rintro _ rfl
  refine .bind (.test _) fun there isThere => ?_
  rw [← isThere]
  cases there with
  | false => exact .pure ((Graph.Adds.refl g).congr (by simp))
  | true =>
      refine .bind (packageFiles_yields _ _) fun files listed => .pure ?_
      exact (Graph.adds_foldl_insert g files).congr (by simp [listed])

theorem manifest_yields (root : Path) :
    Yields d boundary (Manifests.load root) fun manifest =>
      (manifest.bind (·.name)).getD "" = knownName d root ∧
        manifest.bind (·.version) = knownVersion d root := by
  refine (Yields.load root).mono ?_
  rintro manifest ⟨fetched, there, related⟩
  have manifestIn : d.manifestIn root = fetched := by rw [Disk.manifestIn, there]
  rw [knownName, knownVersion, manifestIn, Manifest.bind_eq_of_matches related _ fun _ _ => rfl,
    Manifest.bind_eq_of_matches related (·.version) fun _ _ => rfl]
  exact ⟨rfl, rfl⟩

theorem addPackage_yields (g : Graph) (root : Path) :
    Yields d boundary (policy.addPackage g root) (g.Adds (policy.Ships d root)) := by
  refine .bind (manifest_yields root) ?_
  rintro manifest ⟨name, version⟩
  simp only [name, version]
  refine .bind (.ask fun _ => id) fun exclusion rules => ?_
  refine .bind (packageFiles_yields exclusion root) fun files listed => ?_
  refine (Yields.foldlM_adds _ (fun g' beside _ => addBeside_yields root g' beside) _).mono ?_
  intro g' besides
  refine ((Graph.adds_foldl_insert g files).trans besides).congr fun file => ⟨?_, ?_⟩
  · rintro (own | ⟨beside, needed, there, isListed⟩)
    · exact .own rules ((listed file).mp own)
    · exact .beside needed there isListed
  · rintro (⟨rules', isListed⟩ | ⟨needed, there, isListed⟩)
    · cases rules.symm.trans rules'
      exact .inl ((listed file).mpr isListed)
    · exact .inr ⟨_, needed, there, isListed⟩

theorem addPackages_yields (g : Graph) :
    Yields d boundary (policy.addPackages g) (g.Adds fun file =>
      ∃ root ∈ g.packages, policy.Ships d root file) := by
  refine (Yields.foldlM_adds _ (fun g' root _ => addPackage_yields g' root) g).mono ?_
  exact fun g' adds => adds.congr (by simp)

end GraphPolicy

namespace Graph

variable {policy : GraphPolicy} {d : Disk} {boundary : Option Path}

/-- What the closure of a script holds. -/
structure IsClosure (policy : GraphPolicy) (d : Disk) (boundary : Option Path) (start : Path)
    (g : Graph) : Prop where
  packages : ∀ root, root ∈ g.packages ↔ policy.InClosure d boundary start (.package root)
  files : ∀ file, file ∈ g.files ↔ policy.InClosure d boundary start (.file file) ∨
    ∃ root, policy.InClosure d boundary start (.package root) ∧ policy.Ships d root file
  links : ∀ link, link ∈ g.links ↔ policy.Crosses d boundary start link
  external : ∀ name, name ∈ g.external ↔ policy.LeavesPackage d boundary start name

theorem mem_files_sorted {g : Graph} {file : Path} : file ∈ g.sorted.files ↔ file ∈ g.files := by
  simp [files, sorted]

theorem files_markEntry (g : Graph) : g.markEntry.files = g.files := by
  simp [files, markEntry, Function.comp_def]

theorem finish_yields {start : Path} {t : Traversal}
    (onTrack : t.OnTrack policy d boundary start) :
    Yields d boundary (policy.finish t) (IsClosure policy d boundary start) := by
  refine .bind onTrack.drain fun last ended => ?_
  have exact := ended.1.exact ended.2
  refine .bind (GraphPolicy.addPackages_yields last.graph) fun g adds => .pure ?_
  refine ⟨fun root => ?_, fun file => ?_, fun link => ?_, fun name => ?_⟩
  · rw [← exact.packages, ← adds.packages]
    exact mem_sortedPaths
  · rw [mem_files_sorted, adds.files, exact.files]
    simp only [exact.packages]
  · rw [← exact.links, ← adds.links]
    exact mem_sortedMembers
  · rw [← exact.external, ← adds.external]
    exact mem_sortedTexts

theorem build_yields (entry : Path) :
    Yields d boundary (build policy entry) fun g =>
      ∃ start, d.realPath entry = .ok start ∧ IsClosure policy d boundary start g := by
  refine .bind (.askDisk fun start found => found) fun start found => ?_
  refine .bind .read ?_
  rintro _ rfl
  refine .bind (finish_yields (Traversal.onTrack_begin ?_)) fun g closed => .pure ?_
  · exact Disk.realPath_mem_allPaths found
  · exact ⟨start, found, closed.packages, by simpa only [files_markEntry] using closed.files,
      closed.links, closed.external⟩

/-- The closure of a script is exact: its packages, its files, the links crossed and the packages
left out are those that the least closure of the script says, whatever the run had learnt. -/
theorem build_exact {entry : Path} {known known' : Manifests} {g : Graph}
    (faithful : known.Faithful d) (built : ((build policy entry) d).run known = (.ok g, known')) :
    ∃ start, d.realPath entry = .ok start ∧ IsClosure policy d known.boundary start g :=
  (build_yields entry faithful rfl).value g (congrArg Prod.fst built)

/-! ## A script and the file that it refers to -/

/-- The bytes of `require('./b.json')`. -/
def referringSource : List UInt8 :=
  [114, 101, 113, 117, 105, 114, 101, 40, 39, 46, 47, 98, 46, 106, 115, 111, 110, 39, 41]

/-- A script and the file that it refers to. -/
def pairOfFiles : Disk where
  root := .directory
    [("a.js", .file ⟨referringSource, 0o644, 0⟩), ("b.json", .file ⟨[], 0o644, 0⟩)]
  current := .root
  now := 0

/-- Nothing is left out. -/
def plainPolicy : GraphPolicy := ⟨⟨[], []⟩, ⟨[], []⟩, ⟨[], false⟩, [".js"]⟩

theorem resolve_pairOfFiles (known : Manifests) :
    ((Resolution.resolve [".js"] "./b.json" (.ofNames ["a.js"])) pairOfFiles).run known =
      (.ok (.resolved (.ofNames ["b.json"]) none []), known) := by
  have builtin : Reference.isBuiltin "./b.json" = false := by decide
  have relative : Reference.isRelative "./b.json" = true := by decide
  have parent : (Path.ofNames ["a.js"]).parent? = some (.ofNames []) := by decide
  have spelled : pairOfFiles.current.normalize ((Path.ofNames []).child "./b.json") =
      .ofNames ["b.json"] := by decide
  have isFile : pairOfFiles.isFile (.ofNames ["b.json"]) = true := by cbv
  have real : pairOfFiles.realPath (.ofNames ["b.json"]) = .ok (.ofNames ["b.json"]) := by cbv
  have isLink : pairOfFiles.isLink ((Path.ofNames []).child "b.json") = false := by cbv
  have shared : (Path.ofNames []).ancestors.find? (Path.ofNames ["b.json"]).isWithin =
      some (.ofNames []) := by decide
  have below : (Path.ofNames ["b.json"]).relativeTo? (.ofNames []) = some ["b.json"] := by
    decide
  simp [Resolution.resolve, builtin, relative, parent, Resolution.normalized, spelled,
    Resolution.pathFile, Resolution.file, Resolution.firstFile, isFile, Resolution.realPath,
    Query.askDisk, real, Except.mapError, Resolution.linksTo, shared, below,
    Resolution.linksFrom, isLink]

theorem scan_referringSource :
    Script.scan (Utf8.decodeLossy referringSource) (.ofNames ["a.js"]) =
      .ok ⟨[.static "./b.json"], false⟩ := by
  have scanned : (Script.scan (Utf8.decodeLossy referringSource) (.ofNames ["a.js"])).toOption =
      some ⟨[.static "./b.json"], false⟩ := by decide +kernel
  cases scan : Script.scan (Utf8.decodeLossy referringSource) (.ofNames ["a.js"]) with
  | error fault => simp [scan, Except.toOption] at scanned
  | ok found =>
      rw [scan] at scanned
      rw [Option.some.inj scanned]

theorem realPath_pairOfFiles :
    pairOfFiles.realPath (.ofNames ["a.js"]) = .ok (.ofNames ["a.js"]) := by cbv

theorem read_pairOfFiles : pairOfFiles.read (.ofNames ["a.js"]) = .ok referringSource := by cbv

theorem referencesIn_pairOfFiles :
    pairOfFiles.referencesIn (.ofNames ["a.js"]) = [.static "./b.json"] := by
  have script : Script.isScript (.ofNames ["a.js"]) = true := by decide
  simp [Disk.referencesIn, script, read_pairOfFiles, scan_referringSource]

theorem visit_pairOfFiles (known : Manifests) :
    ((plainPolicy.visit (.ofNames ["a.js"])) pairOfFiles).run known =
      (.ok [.reached (.ofNames ["b.json"]) none [],
        .visited (.ofNames ["a.js"]) ["./b.json"] false], known) := by
  have script : Script.isScript (.ofNames ["a.js"]) = true := by decide
  have builtin : Reference.isBuiltin "./b.json" = false := by decide
  have notExternal : plainPolicy.external.covers "./b.json" = false := by decide
  have notIgnored : plainPolicy.ignored.covers "./b.json" = false := by decide
  have extensions : plainPolicy.extensions = [".js"] := rfl
  have sorted : GraphPolicy.staticReferences [.static "./b.json"] = ["./b.json"] := by cbv
  simp [GraphPolicy.visit, script, Query.askDisk, read_pairOfFiles, Except.mapError,
    scan_referringSource,
    GraphPolicy.followScript, GraphPolicy.followFound, GraphPolicy.follow, builtin, notExternal,
    notIgnored, extensions, resolve_pairOfFiles, sorted, GraphPolicy.isDynamic]

theorem drain_pairOfFiles (known : Manifests) :
    ∃ t, ((Traversal.drain plainPolicy ((Traversal.begin pairOfFiles (.ofNames ["a.js"])).meetFile
      (.ofNames ["a.js"]))) pairOfFiles).run known = (.ok t, known) ∧ t.graph.packages = [] := by
  let first : Traversal :=
    ⟨[.root, .ofNames ["b.json"]], [.root, .ofNames ["a.js"], .ofNames ["b.json"]], [], [],
      { entry := .ofNames ["a.js"] }⟩
  let second : Traversal :=
    ⟨[.root], [.root, .ofNames ["a.js"], .ofNames ["b.json"]], [.ofNames ["b.json"]], [],
      ⟨.ofNames ["a.js"], [⟨.ofNames ["a.js"], false, ["./b.json"], false⟩], [], [], [], []⟩⟩
  have start : (Traversal.begin pairOfFiles (.ofNames ["a.js"])).meetFile (.ofNames ["a.js"]) =
      { first with files := [.ofNames ["a.js"]] } := by cbv
  have next : first.addAll [.reached (.ofNames ["b.json"]) none [],
      .visited (.ofNames ["a.js"]) ["./b.json"] false] = second := by cbv
  have notScript : Script.isScript (.ofNames ["b.json"]) = false := by decide
  rw [start, Traversal.drain]
  simp only [Traversal.next?, Query.run_bind, Traversal.perform, visit_pairOfFiles]
  rw [next, Traversal.drain]
  simp only [Traversal.next?, second, Query.run_bind, Traversal.perform, GraphPolicy.visit,
    notScript, Bool.not_false, if_true, Query.run_pure]
  rw [Traversal.drain]
  exact ⟨_, rfl, rfl⟩

theorem build_exact_pairOfFiles :
    ∃ g known', ((build plainPolicy (.ofNames ["a.js"])) pairOfFiles).run (.empty none) =
        (.ok g, known') ∧
      ∃ start, pairOfFiles.realPath (.ofNames ["a.js"]) = .ok start ∧
        IsClosure plainPolicy pairOfFiles none start g := by
  obtain ⟨t, drained, packages⟩ := drain_pairOfFiles (.empty none)
  have built : ((build plainPolicy (.ofNames ["a.js"])) pairOfFiles).run (.empty none) =
      (.ok t.graph.sorted.markEntry, .empty none) := by
    simp [build, Resolution.realPath, Query.askDisk, realPath_pairOfFiles, Except.mapError,
      GraphPolicy.finish,
      drained, GraphPolicy.addPackages, packages, sortedPaths, sortedMembers, List.eraseReps,
      List.eraseRepsBy]
  exact ⟨_, _, built, build_exact (Manifests.faithful_empty none pairOfFiles) built⟩

end Graph

end FunctionArchive
