import FunctionArchive.Proofs.Graph.Policy
import FunctionArchive.Proofs.Graph.Success
import FunctionArchive.Proofs.Resolution.Links

/-!
# When a closure can be built

Building the closure of a script succeeds exactly when everything in it is in order
(`Graph.build_ok_iff`): each file can be visited, each package entered and gone through. Nothing
outside the least closure matters.
-/

set_option autoImplicit false

namespace FunctionArchive

open Query (Yields Fails Succeeds)

/-! ## Adding packages -/

namespace GraphPolicy

variable {policy : GraphPolicy} {d : Disk} {boundary : Option Path} {start : Path}

theorem packageFiles_listed (exclusion : Exclusion) (directory : Path) :
    Yields d boundary (packageFiles exclusion directory) fun _ =>
      ∃ found, d.filesBelow (· == Resolution.packagesName) directory = .ok found := by
  refine .ask fun files answered => ?_
  cases below : d.filesBelow (· == Resolution.packagesName) directory with
  | error fault => simp [below] at answered
  | ok found => exact ⟨found, rfl⟩

theorem packageFiles_succeeds {exclusion : Exclusion} {directory : Path}
    (listed : ∃ found, d.filesBelow (· == Resolution.packagesName) directory = .ok found) :
    Succeeds d boundary (packageFiles exclusion directory) := by
  obtain ⟨found, below⟩ := listed
  refine .ask fun fault failed => ?_
  simp [below] at failed

theorem addBeside_listed (root : Path) (g : Graph) (beside : String) :
    Yields d boundary (policy.addBeside root g beside) fun _ =>
      d.isDirectory (Path.normalize d.current (root.child beside)) = true →
        ∃ found, d.filesBelow (· == Resolution.packagesName)
          (Path.normalize d.current (root.child beside)) = .ok found := by
  refine .bind (Resolution.normalized_yields _) ?_
  rintro _ rfl
  refine .bind (.test _) fun there isThere => ?_
  rw [← isThere]
  cases there with
  | false => exact .pure nofun
  | true => exact .bind (packageFiles_listed _ _) fun files listed => .pure fun _ => listed

theorem addBeside_succeeds {root : Path} {g : Graph} {beside : String}
    (listed : d.isDirectory (Path.normalize d.current (root.child beside)) = true →
      ∃ found, d.filesBelow (· == Resolution.packagesName)
        (Path.normalize d.current (root.child beside)) = .ok found) :
    Succeeds d boundary (policy.addBeside root g beside) := by
  refine .bind (.bind .read .read fun _ _ => .pure _) (Resolution.normalized_yields _) ?_
  rintro _ rfl
  refine .bind (.test _) (.test _) fun there isThere => ?_
  cases there with
  | false => exact .pure _
  | true =>
      exact .bind (packageFiles_succeeds (listed isThere.symm)) (packageFiles_listed _ _)
        fun _ _ => .pure _

/-- What adding a package has gone through could be listed. -/
theorem addPackage_listable (g : Graph) (root : Path) :
    Yields d boundary (policy.addPackage g root) fun _ => d.LoadsManifest root ∧
      Listable d root := by
  have loaded : Yields d boundary (Manifests.load root) fun _ => d.LoadsManifest root :=
    (Yields.load root).mono fun _ ⟨fetched, there, _⟩ => ⟨fetched, there⟩
  refine .bind ((manifest_yields root).and loaded) ?_
  rintro manifest ⟨⟨name, version⟩, loads⟩
  simp only [name, version]
  refine .bind (.ask fun _ _ => trivial) fun exclusion _ => ?_
  refine .bind (packageFiles_listed exclusion root) fun files own => ?_
  refine (Yields.foldlM_each _ (fun g' beside _ => addBeside_listed root g' beside) _).mono ?_
  exact fun _ besides => ⟨loads, own, besides⟩

theorem addPackage_succeeds {g : Graph} {root : Path} (loads : d.LoadsManifest root)
    (listable : Listable d root) : Succeeds d boundary (policy.addPackage g root) := by
  obtain ⟨there, fetched⟩ := loads
  refine .bind (.load fun fault failed => ?_) (manifest_yields root) ?_
  · cases fetched.symm.trans failed
  rintro manifest ⟨name, version⟩
  simp only [name, version]
  obtain ⟨exclusion, rules⟩ :=
    policy.exclusion.withPatterns_omitted (knownName d root) (knownVersion d root)
  refine .bind (.ask fun fault failed => ?_) (.ask fun _ _ => trivial) fun exclusion' _ => ?_
  · cases rules.symm.trans failed
  refine .bind (packageFiles_succeeds listable.own) (packageFiles_listed _ _) fun files _ => ?_
  exact .foldlM _ _ (fun g' beside _ => (addBeside_yields root g' beside).mono fun _ _ => trivial)
    fun g' beside needed => addBeside_succeeds (listable.beside beside needed)

theorem addPackages_listable (g : Graph) :
    Yields d boundary (policy.addPackages g) fun _ =>
      ∀ root ∈ g.packages, d.LoadsManifest root ∧ Listable d root := by
  refine (Yields.foldlM_each _ (fun g' root _ => addPackage_listable g' root) g).mono ?_
  exact fun _ each root member => each root (mem_sortedPaths.mpr member)

theorem addPackages_succeeds {g : Graph}
    (each : ∀ root ∈ g.packages, d.LoadsManifest root ∧ Listable d root) :
    Succeeds d boundary (policy.addPackages g) := by
  refine .foldlM _ _ (fun g' root _ => (addPackage_yields g' root).mono fun _ _ => trivial) ?_
  intro g' root member
  obtain ⟨loads, listable⟩ := each root (mem_sortedPaths.mp member)
  exact addPackage_succeeds loads listable

end GraphPolicy

/-! ## The closure -/

/-- A package of a closure is named by the real path of a directory. -/
theorem GraphPolicy.InClosure.isRealDirectory {policy : GraphPolicy} {d : Disk}
    {boundary : Option Path} {start root : Path}
    (inside : policy.InClosure d boundary start (.package root)) : d.IsRealDirectory root := by
  cases inside with
  | enters _ follows => exact (Resolution.places_of_resolved _ follows.resolved).2 root rfl

namespace Graph

variable {policy : GraphPolicy} {d : Disk} {boundary : Option Path} {entry start : Path}

theorem finish_inOrder {t : Traversal} (onTrack : t.OnTrack policy d boundary start)
    (cleared : t.Cleared policy d boundary) :
    Yields d boundary (policy.finish t) fun _ =>
      ∀ piece, policy.InClosure d boundary start piece → policy.InOrder d boundary piece := by
  refine .bind (onTrack.drain.and cleared.drain) fun last ended => ?_
  obtain ⟨⟨ended, done⟩, clear, -⟩ := ended
  have exact := ended.exact done
  refine .bind (GraphPolicy.addPackages_listable last.graph) fun g listable => .pure ?_
  intro piece inside
  cases piece with
  | file path => exact clear.files path ((exact.files path).mpr inside)
  | request request => trivial
  | package root =>
      have noted := (exact.packages root).mpr inside
      refine ⟨(listable root noted).1, fun dependency declares => ?_, (listable root noted).2⟩
      have nothing := (Traversal.next?_eq_none done).2
      simpa [nothing] using clear.declared root noted dependency declares

theorem build_inOrder (entry : Path) :
    Yields d boundary (build policy entry) fun _ => ∃ start, d.realPath entry = .ok start ∧
      ∀ piece, policy.InClosure d boundary start piece → policy.InOrder d boundary piece := by
  refine .bind (.askDisk fun start found => found) fun start found => ?_
  refine .bind .read ?_
  rintro _ rfl
  have onTrack : Traversal.OnTrack policy _ boundary start _ :=
    Traversal.onTrack_begin (Disk.realPath_mem_allPaths found)
  exact .bind (finish_inOrder onTrack Traversal.cleared_begin) fun _ inOrder =>
    .pure ⟨start, found, inOrder⟩

theorem build_succeeds (found : d.realPath entry = .ok start)
    (inOrder : ∀ piece, policy.InClosure d boundary start piece → policy.InOrder d boundary piece) :
    Succeeds d boundary (build policy entry) := by
  refine .bind (.askDisk fun cause refused => ?_) (.askDisk fun start' found' => found')
    fun start' found' => ?_
  · cases found.symm.trans refused
  cases found.symm.trans found'
  refine .bind .read .read ?_
  rintro _ rfl
  have onTrack : Traversal.OnTrack policy _ boundary start _ :=
    Traversal.onTrack_begin (Disk.realPath_mem_allPaths found)
  refine .bind (.bind (onTrack.drain_succeeds inOrder) onTrack.drain fun last ended => ?_)
    (finish_yields onTrack) fun _ _ => .pure _
  have exact := ended.1.exact ended.2
  refine .bind (GraphPolicy.addPackages_succeeds fun root noted => ?_)
    (GraphPolicy.addPackages_yields last.graph) fun _ _ => .pure _
  have enterable := inOrder _ ((exact.packages root).mp noted)
  exact ⟨enterable.loads, enterable.listable⟩

/-- A closure can be built exactly when everything in the least closure is in order. -/
theorem build_ok_iff {known : Manifests} (faithful : known.Faithful d) :
    (∃ g, (((build policy entry) d).run known).1 = .ok g) ↔ ∃ start, d.realPath entry = .ok start ∧
      ∀ piece, policy.InClosure d known.boundary start piece →
        policy.InOrder d known.boundary piece := by
  constructor
  · rintro ⟨g, built⟩
    exact (build_inOrder entry faithful rfl).value g built
  · rintro ⟨start, found, inOrder⟩
    exact (build_succeeds found inOrder).exists_ok faithful rfl

/-- What a finished build says about the least closure of the script. -/
theorem build_closure {entry : Path} {known known' : Manifests} {g : Graph}
    (faithful : known.Faithful d) (built : ((build policy entry) d).run known = (.ok g, known')) :
    ∃ start, d.realPath entry = .ok start ∧ IsClosure policy d known.boundary start g ∧
      ∀ piece, policy.InClosure d known.boundary start piece →
        policy.InOrder d known.boundary piece := by
  obtain ⟨⟨start, found, closed⟩, start', found', inOrder⟩ :=
    ((build_yields entry).and (build_inOrder entry) faithful rfl).value g (congrArg Prod.fst built)
  cases found.symm.trans found'
  exact ⟨start, found, closed, inOrder⟩

end Graph

/-! ## An application and its packages -/

namespace Sample

/-- The bytes of `require('p')`. -/
def appSource : List UInt8 := [114, 101, 113, 117, 105, 114, 101, 40, 39, 112, 39, 41]

/-- The bytes of `require('../events/index.json')`. -/
def extraSource : List UInt8 :=
  [114, 101, 113, 117, 105, 114, 101, 40, 39, 46, 46, 47, 101, 118, 101, 110, 116, 115, 47, 105,
    110, 100, 101, 120, 46, 106, 115, 111, 110, 39, 41]

/-- The bytes of a manifest that declares `events` and `q`. -/
def manifestSource : List UInt8 :=
  [123, 34, 100, 101, 112, 101, 110, 100, 101, 110, 99, 105, 101, 115, 34, 58, 123, 34, 101, 118,
    101, 110, 116, 115, 34, 58, 34, 51, 34, 44, 34, 113, 34, 58, 34, 49, 34, 125, 125]

/-- A file with these bytes. -/
def leaf (data : List UInt8) : Disk.Node := .file ⟨data, 0o644, 0⟩

/-- A script that requires a package. The package declares two others and has a script besides
that no one requires. -/
def disk : Disk where
  root := .directory
    [("a.js", leaf appSource), ("node_modules", .directory
      [("events", .directory [("index.json", leaf [])]),
       ("p", .directory [("extra.js", leaf extraSource), ("index.json", leaf []),
         ("package.json", leaf manifestSource)]),
       ("q", .directory [("index.json", leaf [])])])]
  current := .root
  now := 0

/-- Nothing is left out; a data file may stand for a package. -/
def policy : GraphPolicy := ⟨⟨[], []⟩, ⟨[], []⟩, ⟨[], false⟩, [".json"]⟩

/-- The script. -/
def app : Path := .ofNames ["a.js"]

/-- The directory of an installed package. -/
def package (name : String) : Path := .ofNames ["node_modules", name]

/-- The file that stands for a package. -/
def index (name : String) : Path := .ofNames ["node_modules", name, "index.json"]

/-- The manifest of the package that is required. -/
def manifest : Path := .ofNames ["node_modules", "p", "package.json"]

theorem manifest_p : (package "p").child Manifest.fileName = manifest := by decide

theorem fetch_p : ∃ m, Manifests.fetch disk manifest = .ok (some m) ∧
    m.exportMap = none ∧ m.main = none ∧ m.dependencies.map Prod.fst = ["events", "q"] ∧
      m.name = none ∧ m.version = none := by
  have read : disk.read manifest = .ok manifestSource := by cbv
  have parsed : (Manifest.read manifest manifestSource).toOption.map
      (fun m => (m.exportMap.isNone, m.main, m.dependencies.map Prod.fst, m.name, m.version)) =
        some (true, none, ["events", "q"], none, none) := by decide
  cases there : Manifest.read manifest manifestSource with
  | error fault => simp [there, Except.toOption] at parsed
  | ok found =>
      refine ⟨found, by simp [Manifests.fetch, read, there, Except.map], ?_⟩
      simpa [there, Except.toOption] using parsed

theorem fetch_q : Manifests.fetch disk ((package "q").child Manifest.fileName) = .ok none := by
  have missing : disk.read ((package "q").child Manifest.fileName) = .error .notFound := by cbv
  rw [Manifests.fetch, missing]

theorem packages_root : Path.root.child Resolution.packagesName = .ofNames ["node_modules"] := by
  decide

section

variable {d : Disk} {name : String} {m : Option Manifest}

/-- A package in the root directory is stood for by its index file. -/
theorem installedIn_root
    (fetched : Manifests.fetch d ((package name).child Manifest.fileName) = .ok m)
    (noMap : m.bind (·.exportMap) = none) (noMain : m.bind (·.main) = none)
    (named : Reference.packageName name = name)
    (spelled : (Path.ofNames ["node_modules"]).child name = package name)
    (indexed : (package name).child "index.json" = index name)
    (there : d.isDirectory (package name) = true)
    (noFile : [package name, (package name).appendToName ".json"].find? d.isFile = none)
    (isFile : d.isFile (index name) = true) :
    (Resolution.installedIn [".json"]
      (Path.root.child Resolution.packagesName) name).answer d none =
      .ok (some (index name)) := by
  have found : [(package name).child ("index" ++ ".json")].find? d.isFile = some (index name) := by
    rw [← indexed] at isFile ⊢
    exact List.find?_cons_of_pos isFile
  rw [packages_root, ← found]
  exact Resolution.installedIn_index
    (named.symm ▸ spelled) spelled there fetched noMap noMain noFile

/-- A package in the root directory is found from there. -/
theorem installed_root {rest : List Path} {root : Path}
    (stands : (Resolution.installedIn [".json"]
      (Path.root.child Resolution.packagesName) name).answer
      d none = .ok (some (index name)))
    (named : Reference.packageName name = name)
    (spelled : (Path.ofNames ["node_modules"]).child name = package name)
    (installed : d.isDirectory (.ofNames ["node_modules"]) = true)
    (there : d.isDirectory (package name) = true)
    (real : d.realPath (package name) = .ok root) :
    (Resolution.installedNext [".json"] name (.root :: rest)).answer d none =
      .ok (some ⟨index name, some root⟩) := by
  have packaged : Resolution.packageIn name .root = package name := by
    rw [Resolution.packageIn, packages_root, named, spelled]
  exact Resolution.installedNext_here (by decide) (packages_root ▸ installed) stands
    (packaged ▸ there) (packaged ▸ real)

end

theorem installed : disk.isDirectory (.ofNames ["node_modules"]) = true := by cbv

theorem stands_p : (Resolution.installedIn [".json"] (Path.root.child Resolution.packagesName)
    "p").answer disk none = .ok (some (index "p")) := by
  obtain ⟨m, fetched, noMap, noMain, -⟩ := fetch_p
  have fetched : Manifests.fetch disk ((package "p").child Manifest.fileName) = .ok (some m) :=
    manifest_p ▸ fetched
  exact installedIn_root fetched noMap noMain (by decide) (by cbv)
    (by decide) (by cbv) (by cbv) (by cbv)

theorem stands_q : (Resolution.installedIn [".json"] (Path.root.child Resolution.packagesName)
    "q").answer disk none = .ok (some (index "q")) :=
  installedIn_root fetch_q rfl rfl (by decide) (by cbv) (by cbv)
    (by cbv) (by cbv) (by cbv)

theorem resolve_p : (Resolution.resolve [".json"] "p" app).answer disk none =
    .ok (.resolved (index "p") (some (package "p")) []) := by
  have start : Resolution.startOf app = .root := by decide
  have found : (Resolution.installed [".json"] "p" .root).answer disk none =
      .ok (some ⟨index "p", some (package "p")⟩) :=
    installed_root stands_p (by decide) (by cbv) installed (by cbv) (by cbv)
  have real : disk.realPath (index "p") = .ok (index "p") := by cbv
  have crossed : (Resolution.linksTo .root (index "p")).answer disk none = .ok [] := by cbv
  exact Resolution.resolve_installed (by decide) (by cbv) (start ▸ found) real
    (start ▸ crossed)

theorem resolve_q : (Resolution.resolve [".json"] "q" manifest).answer disk none =
    .ok (.resolved (index "q") (some (package "q")) []) := by
  have start : Resolution.startOf manifest = package "p" := by decide
  have above : (package "p").ancestors = [package "p", .ofNames ["node_modules"], .root] := by
    decide
  have notThere : disk.isDirectory ((package "p").child Resolution.packagesName) = false := by cbv
  have passed : (Path.ofNames ["node_modules"]).fileName? = some Resolution.packagesName := by
    decide
  have found : (Resolution.installed [".json"] "q" (package "p")).answer disk none =
      .ok (some ⟨index "q", some (package "q")⟩) := by
    have here : (Resolution.installedNext [".json"] "q" [.root]).answer disk none =
        .ok (some ⟨index "q", some (package "q")⟩) :=
      installed_root stands_q (by decide) (by cbv) installed (by cbv) (by cbv)
    simpa [Resolution.installed, above, Query.answer, Resolution.installedNext, notThere,
      passed] using here
  have real : disk.realPath (index "q") = .ok (index "q") := by cbv
  have crossed : (Resolution.linksTo (package "p") (index "q")).answer disk none = .ok [] := by
    have shared : (package "p").ancestors.find? (index "q").isWithin =
        some (.ofNames ["node_modules"]) := by decide
    have below : (index "q").relativeTo? (.ofNames ["node_modules"]) =
        some ["q", "index.json"] := by
      decide
    simp only [Resolution.linksTo, shared, below, Option.getD_some]
    cbv
  exact Resolution.resolve_installed (by decide) (by cbv) (start ▸ found) real
    (start ▸ crossed)

theorem read_app : disk.read app = .ok appSource := by cbv

theorem scan_app : Script.scan (Utf8.decodeLossy appSource) app =
    .ok ⟨[.static "p"], false⟩ := by
  have scanned : (Script.scan (Utf8.decodeLossy appSource) app).toOption =
      some ⟨[.static "p"], false⟩ := by decide +kernel
  cases scan : Script.scan (Utf8.decodeLossy appSource) app with
  | error fault => simp [scan, Except.toOption] at scanned
  | ok found =>
      rw [scan] at scanned
      rw [Option.some.inj scanned]

theorem referencesIn_app {d : Disk} (read : d.read app = .ok appSource) :
    d.referencesIn app = [.static "p"] := by
  have script : Script.isScript app = true := by decide
  simp [Disk.referencesIn, script, read, scan_app]

theorem dependenciesOf_p : disk.dependenciesOf (package "p") = ["events", "q"] := by
  obtain ⟨m, fetched, -, -, dependencies, -⟩ := fetch_p
  simp [Disk.dependenciesOf, Disk.manifestIn, manifest_p, fetched, dependencies]

theorem dependenciesOf_q : disk.dependenciesOf (package "q") = [] := by
  simp [Disk.dependenciesOf, Disk.manifestIn, fetch_q]

theorem isScript_index (name : String) : Script.isScript (index name) = false := by
  have last : (index name).fileName? = some "index.json" := by
    have kept : Path.trimEnd true ["node_modules", name, "index.json"] =
        ["node_modules", name, "index.json"] :=
      Path.trimEnd_concat true ["node_modules", name] (by decide)
    simp [index, Path.fileName?, Path.ofNames, kept]
  have ending : Script.isScript (.ofNames ["index.json"]) = false := by decide
  have alone : (Path.ofNames ["index.json"]).fileName? = some "index.json" := by decide
  rw [Script.isScript, Path.extension?, alone] at ending
  rw [Script.isScript, Path.extension?, last]
  exact ending

theorem referencesIn_index (d : Disk) (name : String) : d.referencesIn (index name) = [] := by
  simp [Disk.referencesIn, isScript_index]

/-- What is in the closure of the script. -/
theorem inClosure {piece : Piece} (inside : GraphPolicy.InClosure policy disk none app piece) :
    piece ∈ [.file app, .file (index "p"), .file (index "q"), .package (package "p"),
      .package (package "q"), .request ⟨"p", app⟩, .request ⟨"events", manifest⟩,
      .request ⟨"q", manifest⟩] := by
  have builtin : Reference.isBuiltin "events" = true := by decide
  have leads {request : Request} {file : Path} {root : Option Path} {links : List Link}
      (asked : request ∈ [⟨"p", app⟩, ⟨"events", manifest⟩, (⟨"q", manifest⟩ : Request)])
      (follows : GraphPolicy.Follows policy disk none request file root links) :
      (file = index "p" ∧ root = some (package "p")) ∨
        (file = index "q" ∧ root = some (package "q")) := by
    simp only [List.mem_cons, List.not_mem_nil, or_false] at asked
    rcases asked with rfl | rfl | rfl
    · cases resolve_p.symm.trans follows.resolved
      exact .inl ⟨rfl, rfl⟩
    · cases builtin.symm.trans follows.notBuiltin
    · cases resolve_q.symm.trans follows.resolved
      exact .inr ⟨rfl, rfl⟩
  induction inside with
  | start => simp
  | @refers file reference _ found ih =>
      have files : file = app ∨ ∃ name, file = index name := by
        simp at ih
        rcases ih with rfl | rfl | rfl
        · exact .inl rfl
        · exact .inr ⟨_, rfl⟩
        · exact .inr ⟨_, rfl⟩
      rcases files with rfl | ⟨name, rfl⟩
      · simp only [referencesIn_app read_app, List.mem_singleton,
          Script.Reference.static.injEq] at found
        subst found
        simp
      · simp [referencesIn_index] at found
  | @declares root dependency _ declared ih =>
      have roots : root = package "p" ∨ root = package "q" := by simpa using ih
      rcases roots with rfl | rfl
      · rw [manifest_p]
        simp only [dependenciesOf_p, List.mem_cons, List.not_mem_nil, or_false] at declared
        rcases declared with rfl | rfl <;> simp
      · simp [dependenciesOf_q] at declared
  | leadsTo _ follows ih =>
      rcases leads (by simpa using ih) follows with ⟨rfl, -⟩ | ⟨rfl, -⟩ <;> simp
  | enters _ follows ih =>
      rcases leads (by simpa using ih) follows with ⟨-, there⟩ | ⟨-, there⟩ <;> cases there <;> simp

theorem listable {name : String} {found : List (List String)}
    (known : GraphPolicy.knownName disk (package name) = "" ∧
      GraphPolicy.knownVersion disk (package name) = none)
    (below : disk.filesBelow (· == Resolution.packagesName) (package name) = .ok found) :
    GraphPolicy.Listable disk (package name) := by
  have nothing : Package.neededBeside "" none = [] := by decide
  refine ⟨⟨found, below⟩, fun beside needed => ?_⟩
  rw [known.1, known.2, nothing] at needed
  cases needed

theorem known_p : GraphPolicy.knownName disk (package "p") = "" ∧
    GraphPolicy.knownVersion disk (package "p") = none := by
  obtain ⟨m, fetched, -, -, -, name, version⟩ := fetch_p
  simp [GraphPolicy.knownName, GraphPolicy.knownVersion, Disk.manifestIn, manifest_p, fetched, name,
    version]

theorem filesBelow_p : disk.filesBelow (· == Resolution.packagesName) (package "p") =
    .ok [["extra.js"], ["index.json"], ["package.json"]] := by cbv

theorem inOrder_p : GraphPolicy.Enterable policy disk none (package "p") := by
  obtain ⟨m, fetched, -⟩ := fetch_p
  refine ⟨⟨m, manifest_p ▸ fetched⟩, fun dependency declared => ?_, listable known_p filesBelow_p⟩
  rw [manifest_p]
  simp only [dependenciesOf_p, List.mem_cons, List.not_mem_nil, or_false] at declared
  rcases declared with rfl | rfl
  · exact .builtin (by decide)
  · exact .resolved resolve_q

theorem known_q : GraphPolicy.knownName disk (package "q") = "" ∧
    GraphPolicy.knownVersion disk (package "q") = none := by
  simp [GraphPolicy.knownName, GraphPolicy.knownVersion, Disk.manifestIn, fetch_q]

theorem inOrder_q : GraphPolicy.Enterable policy disk none (package "q") := by
  have below : disk.filesBelow (· == Resolution.packagesName) (package "q") =
      .ok [["index.json"]] := by cbv
  refine ⟨⟨none, fetch_q⟩, fun dependency declared => ?_, listable known_q below⟩
  rw [dependenciesOf_q] at declared
  cases declared

theorem visitable_index (d : Disk) (name : String) :
    GraphPolicy.Visitable policy d none (index name) := by
  refine ⟨fun script => ?_, fun reference found => ?_⟩
  · cases (isScript_index name).symm.trans script
  · simp [referencesIn_index] at found

theorem visitable_app : GraphPolicy.Visitable policy disk none app := by
  refine ⟨fun _ => ⟨appSource, read_app, .inl ⟨_, scan_app⟩⟩, fun reference found => ?_⟩
  simp only [referencesIn_app read_app, List.mem_singleton, Script.Reference.static.injEq] at found
  subst found
  exact .resolved resolve_p

theorem inOrder {piece : Piece} (inside : GraphPolicy.InClosure policy disk none app piece) :
    GraphPolicy.InOrder policy disk none piece := by
  have there := inClosure inside
  simp only [List.mem_cons, List.not_mem_nil, or_false] at there
  rcases there with rfl | rfl | rfl | rfl | rfl | rfl | rfl | rfl
  · exact visitable_app
  · exact visitable_index disk "p"
  · exact visitable_index disk "q"
  · exact inOrder_p
  · exact inOrder_q
  · trivial
  · trivial
  · trivial

theorem realPath_app : disk.realPath app = .ok app := by cbv

theorem build_ok : ∃ g known, ((Graph.build policy app) disk).run (.empty none) =
    (.ok g, known) := by
  obtain ⟨g, built⟩ := (Graph.build_ok_iff (Manifests.faithful_empty none disk)).mpr
    ⟨app, realPath_app, fun _ => inOrder⟩
  exact ⟨g, _, Prod.ext built rfl⟩

/-- The closure of the script holds what its least closure says. -/
theorem closed {g : Graph} {known : Manifests}
    (built : ((Graph.build policy app) disk).run (.empty none) = (.ok g, known)) :
    Graph.IsClosure policy disk none app g := by
  obtain ⟨start, found, isClosure, -⟩ :=
    Graph.build_closure (Manifests.faithful_empty none disk) built
  cases realPath_app.symm.trans found
  exact isClosure

theorem entered_p : GraphPolicy.InClosure policy disk none app (.package (package "p")) := by
  have follows : GraphPolicy.Follows policy disk none ⟨"p", app⟩ (index "p")
      (some (package "p")) [] :=
    ⟨by decide, by cbv, by cbv, resolve_p⟩
  exact .enters (.refers .start (by simp [referencesIn_app read_app])) follows

theorem entered_q : GraphPolicy.InClosure policy disk none app (.package (package "q")) := by
  have follows : GraphPolicy.Follows policy disk none
      ⟨"q", (package "p").child Manifest.fileName⟩ (index "q") (some (package "q")) [] :=
    ⟨by decide, by cbv, by cbv, manifest_p ▸ resolve_q⟩
  exact .enters (.declares entered_p (by simp [dependenciesOf_p])) follows

/-- The packages that are entered. -/
theorem mem_packages {g : Graph} {known : Manifests}
    (built : ((Graph.build policy app) disk).run (.empty none) = (.ok g, known)) (root : Path) :
    root ∈ g.packages ↔ root = package "p" ∨ root = package "q" := by
  rw [(closed built).packages]
  constructor
  · intro inside
    simpa using inClosure inside
  · rintro (rfl | rfl)
    · exact entered_p
    · exact entered_q

end Sample

end FunctionArchive
