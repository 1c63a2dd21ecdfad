import FunctionArchive.Proofs.Graph.Buildable

/-!
# A script that refers to one package

On a disk where a script refers to a single package that declares no dependencies, the closure is
built, and its least closure is the script, the file that stands for the package, and the package
itself (`onePackage_inClosure`). What the package is found by and over which links it is reached is
left open, but for one way to find it (`onePackage_resolve`).
-/

set_option autoImplicit false

namespace FunctionArchive

namespace Sample

/-- A package without a manifest that is installed in the root directory is found by its index
file, over whatever links. -/
theorem onePackage_resolve {d : Disk} {file root : Path} {links : List Link}
    (missing : d.read ((package "p").child Manifest.fileName) = .error .notFound)
    (installed : d.isDirectory (.ofNames ["node_modules"]) = true)
    (there : d.isDirectory (package "p") = true)
    (noFile : [package "p", (package "p").appendToName ".json"].find? d.isFile = none)
    (isFile : d.isFile (index "p") = true)
    (realRoot : d.realPath (package "p") = .ok root)
    (realFile : d.realPath (index "p") = .ok file)
    (crossed : (Resolution.linksTo .root (index "p")).answer d none = .ok links) :
    (Resolution.resolve [".json"] "p" app).answer d none =
      .ok (.resolved file (some root) links) := by
  have start : Resolution.startOf app = .root := by decide
  have fetched : Manifests.fetch d ((package "p").child Manifest.fileName) = .ok none := by
    rw [Manifests.fetch, missing]
  have stands : (Resolution.installedIn [".json"] (Path.root.child Resolution.packagesName)
      "p").answer d none = .ok (some (index "p")) :=
    installedIn_root fetched rfl rfl (by decide) (by cbv) (by decide) there noFile isFile
  have place : (Resolution.installed [".json"] "p" .root).answer d none =
      .ok (some ⟨index "p", some root⟩) :=
    installed_root stands (by decide) (by cbv) installed there realRoot
  exact Resolution.resolve_installed (by decide) (by cbv) (start ▸ place) realFile
    (start ▸ crossed)

variable {d : Disk} {file root : Path} {links : List Link} {found : List (List String)}
  (read : d.read app = .ok appSource)
  (resolved : (Resolution.resolve [".json"] "p" app).answer d none =
    .ok (.resolved file (some root) links))
  (notScript : Script.isScript file = false)
  (noManifest : Manifests.fetch d (root.child Manifest.fileName) = .ok none)

include read resolved

theorem onePackage_leads : GraphPolicy.InClosure policy d none app (.request ⟨"p", app⟩) ∧
    GraphPolicy.Follows policy d none ⟨"p", app⟩ file (some root) links :=
  ⟨.refers .start (by simp [referencesIn_app read]),
    ⟨by decide, by cbv, by cbv, resolved⟩⟩

include notScript noManifest

/-- What is in the closure of a script that refers to a package without dependencies. -/
theorem onePackage_inClosure (piece : Piece) :
    GraphPolicy.InClosure policy d none app piece ↔
      piece ∈ [.file app, .file file, .package root, .request ⟨"p", app⟩] := by
  obtain ⟨asked, follows⟩ := onePackage_leads read resolved
  constructor
  · intro inside
    induction inside with
    | start => simp
    | @refers file' reference _ there ih =>
        have files : file' = app ∨ file' = file := by simpa using ih
        rcases files with rfl | rfl
        · simp only [referencesIn_app read, List.mem_singleton,
            Script.Reference.static.injEq] at there
          simp [there]
        · simp [Disk.referencesIn, notScript] at there
    | @declares root' dependency _ declared ih =>
        obtain rfl : root' = root := by simpa using ih
        simp [Disk.dependenciesOf, Disk.manifestIn, noManifest] at declared
    | leadsTo _ follows ih =>
        obtain rfl : _ = (⟨"p", app⟩ : Request) := by simpa using ih
        cases resolved.symm.trans follows.resolved
        simp
    | enters _ follows ih =>
        obtain rfl : _ = (⟨"p", app⟩ : Request) := by simpa using ih
        cases resolved.symm.trans follows.resolved
        simp
  · intro member
    simp only [List.mem_cons, List.not_mem_nil, or_false] at member
    rcases member with rfl | rfl | rfl | rfl
    · exact .start
    · exact .leadsTo asked follows
    · exact .enters asked follows
    · exact asked

/-- Its links are those over which the package is reached. -/
theorem onePackage_links {g : Graph} (closed : Graph.IsClosure policy d none app g) (link : Link) :
    link ∈ g.links ↔ link ∈ links := by
  obtain ⟨asked, follows⟩ := onePackage_leads read resolved
  rw [closed.links]
  constructor
  · rintro ⟨request, file', package', links', inside, follows', member⟩
    rw [onePackage_inClosure read resolved notScript noManifest] at inside
    obtain rfl : request = ⟨"p", app⟩ := by simpa using inside
    cases resolved.symm.trans follows'.resolved
    exact member
  · exact fun member => ⟨_, _, _, _, asked, follows, member⟩

variable (real : d.realPath app = .ok app)
  (below : d.filesBelow (· == Resolution.packagesName) root = .ok found)

include real below

theorem onePackage_built :
    ∃ g known, ((Graph.build policy app) d).run (.empty none) = (.ok g, known) ∧
      Graph.IsClosure policy d none app g := by
  have faithful := Manifests.faithful_empty none d
  obtain ⟨-, follows⟩ := onePackage_leads read resolved
  have known : GraphPolicy.knownName d root = "" ∧ GraphPolicy.knownVersion d root = none := by
    simp [GraphPolicy.knownName, GraphPolicy.knownVersion, Disk.manifestIn, noManifest]
  have nothing : Package.neededBeside "" none = [] := by decide
  have inOrder (piece : Piece) (inside : GraphPolicy.InClosure policy d none app piece) :
      GraphPolicy.InOrder policy d none piece := by
    rw [onePackage_inClosure read resolved notScript noManifest] at inside
    simp only [List.mem_cons, List.not_mem_nil, or_false] at inside
    rcases inside with rfl | rfl | rfl | rfl
    · refine ⟨fun _ => ⟨appSource, read, .inl ⟨_, scan_app⟩⟩, fun reference there => ?_⟩
      simp only [referencesIn_app read, List.mem_singleton, Script.Reference.static.injEq] at there
      subst there
      exact .resolved resolved
    · refine ⟨fun script => ?_, fun reference there => ?_⟩
      · cases notScript.symm.trans script
      · simp [Disk.referencesIn, notScript] at there
    · refine ⟨⟨none, noManifest⟩, fun dependency declared => ?_, ⟨found, below⟩, ?_⟩
      · simp [Disk.dependenciesOf, Disk.manifestIn, noManifest] at declared
      · intro beside needed
        rw [known.1, known.2, nothing] at needed
        cases needed
    · trivial
  obtain ⟨g, built⟩ := (Graph.build_ok_iff faithful).mpr ⟨app, real, inOrder⟩
  have run : ((Graph.build policy app) d).run (.empty none) =
      (.ok g, (((Graph.build policy app) d).run (.empty none)).2) := Prod.ext built rfl
  obtain ⟨start, found', isClosure, -⟩ := Graph.build_closure faithful run
  cases real.symm.trans found'
  exact ⟨g, _, run, isClosure⟩

omit real in
/-- Its files are the script, the file that stands for the package, and all that is found below the
package and not left out. -/
theorem onePackage_files {g : Graph} (closed : Graph.IsClosure policy d none app g) (path : Path) :
    path ∈ g.files ↔ path = app ∨ path = file ∨ ∃ names ∈ found,
      policy.exclusion.excludes ⟨false, names⟩ = false ∧
        path = ⟨root.absolute, root.names ++ names⟩ := by
  have known : GraphPolicy.knownName d root = "" ∧ GraphPolicy.knownVersion d root = none := by
    simp [GraphPolicy.knownName, GraphPolicy.knownVersion, Disk.manifestIn, noManifest]
  have nothing : Package.neededBeside "" none = [] := by decide
  have unruled : policy.exclusion.withPatterns (Package.omitted "" none) =
      .ok policy.exclusion := by
    rfl
  rw [closed.files, onePackage_inClosure read resolved notScript noManifest]
  simp only [onePackage_inClosure read resolved notScript noManifest, List.mem_cons,
    Piece.file.injEq,
    Piece.package.injEq, reduceCtorEq, List.not_mem_nil, or_false, false_or]
  constructor
  · rintro ((rfl | rfl) | ⟨_, rfl, ships⟩)
    · exact .inl rfl
    · exact .inr (.inl rfl)
    · cases ships with
      | own rules listed =>
          rw [known.1, known.2, unruled] at rules
          cases rules
          obtain ⟨found', names, below', member, kept, same⟩ := listed
          cases below.symm.trans below'
          exact .inr (.inr ⟨names, member, kept, same⟩)
      | beside needed =>
          rw [known.1, known.2, nothing] at needed
          cases needed
  · rintro (rfl | rfl | ⟨names, member, kept, same⟩)
    · exact .inl (.inl rfl)
    · exact .inl (.inr rfl)
    · refine .inr ⟨root, rfl, .own ?_ ⟨found, names, below, member, kept, same⟩⟩
      rw [known.1, known.2, unruled]

end Sample

end FunctionArchive
