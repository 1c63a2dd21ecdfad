import FunctionArchive.Engine.Esbuild
import FunctionArchive.Proofs.Archive.Preservation
import FunctionArchive.Proofs.Attempts
import FunctionArchive.Proofs.Reference
import FunctionArchive.Proofs.Sorted

/-!
# Packages that an engine leaves outside

What a bundle imports from outside is told as paths, but what is shipped with it is decided for
whole packages. For patterns and for the names of packages this makes no difference, since a path is
described by them exactly if its package is (`ModuleFilter.covers_packageName`). A list that names a
module inside a package describes a path and not its package: then the package is shipped although
all that is imported of it is described (`Bundle.withEngine_inside`).
-/

set_option autoImplicit false

namespace FunctionArchive

open Work (Ends)

/-! ## Paths and packages -/

namespace ModuleFilter

variable {entries : List String} {f : ModuleFilter} {path : String}

/-- An entry of a list of modules names a module inside a package. -/
def NamesInside (entry : String) : Prop :=
  isPattern entry = false ∧ Reference.packageName entry ≠ entry

/-- A path is described with its package or by itself. -/
theorem lists_iff {entry : String} :
    Lists entry path ↔
      Lists entry (Reference.packageName path) ∨ isPattern entry = false ∧ entry = path := by
  unfold Lists
  split
  · next isPattern => simp [isPattern]
  · next isName => simp [Bool.eq_false_iff.mpr isName]

/-- A path is left out exactly if its package is, unless the list names a module inside a package
by this path. -/
theorem covers_packageName (made : make entries = .ok f)
    (notInside : NamesInside path → path ∉ entries) :
    f.covers (Reference.packageName path) = f.covers path := by
  rw [Bool.eq_iff_iff, covers_iff made, covers_iff made]
  constructor
  · rintro ⟨entry, among, listed⟩
    exact ⟨entry, among, lists_iff.mpr (.inl listed)⟩
  · rintro ⟨entry, among, listed⟩
    rcases lists_iff.mp listed with withPackage | ⟨isName, rfl⟩
    · exact ⟨entry, among, withPackage⟩
    · by_cases package : Reference.packageName entry = entry
      · exact ⟨entry, among, package.symm ▸ listed⟩
      · exact absurd among (notInside ⟨isName, package⟩)

end ModuleFilter

namespace Metafile

/-- A written file imports something from outside by this path. -/
def Leaves (m : Metafile) (path : String) : Prop :=
  ∃ output ∈ m.outputs, ∃ i ∈ output.2.imports, i.leavesPackage = true ∧ i.path = path

theorem Leaves.notBuiltin {m : Metafile} {path : String} (leaves : m.Leaves path) :
    Reference.isBuiltin path = false := by
  obtain ⟨_, _, i, _, leavesPackage, rfl⟩ := leaves
  simp only [Import.leavesPackage, Bool.and_eq_true, Bool.not_eq_true'] at leavesPackage
  exact leavesPackage.2

/-- The packages that are needed are those of the paths. -/
theorem mem_packages {m : Metafile} {name : String} :
    name ∈ m.packages ↔ ∃ path, m.Leaves path ∧ Reference.packageName path = name := by
  simp only [packages, mem_sortedTexts, List.mem_map, List.mem_filter, List.mem_flatMap, Leaves]
  constructor
  · rintro ⟨i, ⟨⟨output, written, imported⟩, leaves⟩, rfl⟩
    exact ⟨i.path, ⟨output, written, i, imported, leaves, rfl⟩, rfl⟩
  · rintro ⟨_, ⟨output, written, i, imported, leaves, rfl⟩, rfl⟩
    exact ⟨i, ⟨⟨output, written, imported⟩, leaves⟩, rfl⟩

end Metafile

/-! ## What the engine tells -/

/-- What the engine told about a request was read from a document in the file for it. -/
def Esbuild.Documents (r : EngineRequest) (result : EngineResult) (document : Metafile) : Prop :=
  result.externalModules = document.packages ∧
    ∃ (d : Disk) (bytes : List UInt8), d.read (metafile r) = .ok bytes ∧
      Metafile.read bytes = .ok document

/-- The engine names the packages of the document that was written for it. -/
theorem Esbuild.bundle_documents (e : Esbuild) (host : CommandHost) (r : EngineRequest) :
    Ends (fun _ => True) (e.bundle host r) (fun result _ => ∃ document, Documents r result document)
      (fun _ _ => True) := by
  refine .bind .anything fun program => .skip fun _ => .bind .anything fun ended =>
    .skip fun _ => ?_
  refine .bind (Task.ask_ends _ _ _) fun bytes => ?_
  split
  · next document isRead => exact .pure fun d found => ⟨document, rfl, d, bytes, found, isRead⟩
  · exact fun _ _ => Work.ended_error.mpr trivial

theorem Esbuild.run_run {e : Esbuild} {host : CommandHost} {program : Path} {r : EngineRequest}
    {d d' : Disk} {result : CommandResult}
    (ran : host.run ⟨program, e.arguments r, r.directory⟩ d = (.ok result, d')) :
    (e.run host program r).run d = (.ok result, d') := by
  have lifted : (ExceptT.lift (host.run ⟨program, e.arguments r, r.directory⟩) :
      Task (Except Disk.Fault CommandResult)).run d = (.ok (.ok result), d') := by
    simp [ExceptT.lift, ExceptT.run, ExceptT.mk, Functor.map, StateT.map, ran]
  rw [Esbuild.run, Work.run_bind, lifted]
  rfl

/-- An engine that makes a bundle has made it when its directory is removed. -/
theorem Engine.run_bundleScript {e : Engine} {entry : Path} {config : FunctionConfig}
    {d d₁ d₂ : Disk}
    {result : EngineResult} {bytes : List UInt8}
    (created : d.createDirectory stagingDirectory = .ok d₁)
    (made :
      (e.bundle ⟨entry, config.externalModules, config.ignoredModules, stagingDirectory⟩).run d₁ =
      (.ok result, d₂)) (read : d₂.read result.file = .ok bytes) :
    (e.bundleScript entry config).run d =
      (.ok (bytes, result), (d₂.removeDirectory stagingDirectory).toOption.getD d₂) := by
  rw [bundleScript, inStaging, Work.run_bind, Task.run_change, created]
  dsimp only
  rw [Work.run_tryFinally, Work.run_bind, made]
  dsimp only
  rw [Work.run_bind, Task.run_ask, read]
  rfl

namespace Bundle

variable {s : Settings} {f : FunctionSource} {external ignored : ModuleFilter} {w w₁ : World}
  {bundled : List UInt8} {result : EngineResult}

/-- What is shipped is what is imported and described by no list. -/
theorem mem_toShip {m : Metafile} {name : String} :
    name ∈ toShip external ignored m.packages ↔
      ∃ path, m.Leaves path ∧ Reference.packageName path = name ∧
        external.covers name = false ∧ ignored.covers name = false := by
  simp only [toShip, List.mem_filter, Metafile.mem_packages, Bool.and_eq_true, Bool.not_eq_true']
  constructor
  · rintro ⟨⟨path, leaves, package⟩, ⟨-, notExternal⟩, notIgnored⟩
    exact ⟨path, leaves, package, notExternal, notIgnored⟩
  · rintro ⟨path, leaves, rfl, notExternal, notIgnored⟩
    exact ⟨⟨path, leaves, rfl⟩,
      ⟨Reference.isBuiltin_packageName path ▸ leaves.notBuiltin, notExternal⟩,
      notIgnored⟩

section Run

variable (bundles : (Action.task (s.engine.bundleScript f.entry f.config)).run w =
    (.ok (bundled, result), w₁))
  (isExternal : ModuleFilter.make f.config.externalModules = .ok external)
  (isIgnored : ModuleFilter.make f.config.ignoredModules = .ok ignored)

include bundles isExternal isIgnored

/-- If nothing is to be shipped, no package is looked for: the bundle holds what the engine made. -/
theorem withEngine_alone (nothing : toShip external ignored result.externalModules = []) :
    ((withEngine s f).run w).1 =
      ((w₁.disk.realPath f.entry).mapError (.disk "resolving real path" f.entry)).map fun entry =>
        ofEngine f.runtime (entry.withExtension "js") bundled result.warnings none := by
  unfold withEngine
  rw [Work.run_bind, bundles]
  simp only [isExternal, isIgnored]
  show ((if (toShip external ignored result.externalModules).isEmpty then _ else _ :
    Action Bundle).run
    w₁).1 = _
  rw [nothing]
  show ((Action.query (Resolution.realPath f.entry) >>= _ : Action Bundle).run w₁).1 = _
  rw [Work.run_bind, Action.run_query]
  show _ = Except.map _ (((Resolution.realPath f.entry) w₁.disk).run w₁.manifests).1
  generalize ((Resolution.realPath f.entry) w₁.disk).run w₁.manifests = asked
  rcases asked with ⟨fault | entry, known⟩ <;> rfl

/-- If a package that is to be shipped cannot be found, there is no bundle. -/
theorem withEngine_lacks {policy : GraphPolicy} {fault : Fault}
    (made : GraphPolicy.ofSettings s f.config = .ok policy)
    (something : toShip external ignored result.externalModules ≠ [])
    (failed :
      (((Graph.buildPackages policy (toShip external ignored result.externalModules) f.entry)
      w₁.disk).run w₁.manifests).1 = .error fault) :
    ((withEngine s f).run w).1 = .error fault := by
  unfold withEngine
  rw [Work.run_bind, bundles]
  simp only [isExternal, isIgnored, made]
  have asked : ((toShip external ignored result.externalModules).isEmpty) = false := by
    simpa using something
  show ((if (toShip external ignored result.externalModules).isEmpty then _ else _ :
    Action Bundle).run
    w₁).1 = _
  rw [asked]
  show (((some <$> Action.query (Graph.buildPackages policy
    (toShip external ignored result.externalModules) f.entry)) >>= _ : Action Bundle).run w₁).1 = _
  rw [Work.run_bind, Action.run_map, Action.run_query]
  generalize ((Graph.buildPackages policy (toShip external ignored result.externalModules) f.entry)
    w₁.disk).run w₁.manifests = built at failed ⊢
  obtain ⟨outcome, known⟩ := built
  cases failed
  rfl

/-- What is shipped is decided by the packages of what is imported. Unless a list names a module
inside a package by a path that is imported, this is the same as by the paths themselves; and if
each path is described, nothing is shipped and the bundle holds only what the engine made. -/
theorem withEngine_ships {e : Esbuild} {host : CommandHost} (engine : s.engine = e.engine host) :
    ∃ document, Esbuild.Documents
        ⟨f.entry, f.config.externalModules, f.config.ignoredModules, Engine.stagingDirectory⟩ result
        document ∧
      (∀ name, name ∈ toShip external ignored result.externalModules ↔
        ∃ path, document.Leaves path ∧ Reference.packageName path = name ∧
          external.covers name = false ∧ ignored.covers name = false) ∧
      ((∀ path, document.Leaves path → ModuleFilter.NamesInside path →
          path ∉ f.config.externalModules ++ f.config.ignoredModules) →
        (∀ name, name ∈ toShip external ignored result.externalModules ↔
          ∃ path, document.Leaves path ∧ Reference.packageName path = name ∧
            external.covers path = false ∧ ignored.covers path = false) ∧
        ((∀ path, document.Leaves path → external.covers path = true ∨ ignored.covers path = true) →
          toShip external ignored result.externalModules = [] ∧
          ((withEngine s f).run w).1 =
            ((w₁.disk.realPath f.entry).mapError (.disk "resolving real path" f.entry)).map
              fun entry =>
                ofEngine f.runtime (entry.withExtension "js") bundled result.warnings none)) := by
  have task := bundles
  rw [Action.run_task, engine] at task
  have told := Engine.bundleScript_result (e := e.engine host) (e.bundle_documents host
    ⟨f.entry, f.config.externalModules, f.config.ignoredModules, Engine.stagingDirectory⟩)
  obtain ⟨document, documents⟩ :=
    (told w.disk trivial).well (bundled, result) (congrArg Prod.fst task)
  refine ⟨document, documents, fun name => documents.1 ▸ mem_toShip, fun notInside => ?_⟩
  have ships (name : String) : name ∈ toShip external ignored result.externalModules ↔
      ∃ path, document.Leaves path ∧ Reference.packageName path = name ∧
        external.covers path = false ∧ ignored.covers path = false := by
    rw [documents.1, mem_toShip]
    refine exists_congr fun path => and_congr_right fun leaves => and_congr_right ?_
    rintro rfl
    have apart (inside : ModuleFilter.NamesInside path) := notInside path leaves inside
    rw [ModuleFilter.covers_packageName isExternal fun inside among =>
        apart inside (List.mem_append_left _ among),
      ModuleFilter.covers_packageName isIgnored fun inside among =>
        apart inside (List.mem_append_right _ among)]
  refine ⟨ships, fun covered => ?_⟩
  have nothing : toShip external ignored result.externalModules = [] := by
    refine List.eq_nil_iff_forall_not_mem.mpr fun name ship => ?_
    obtain ⟨path, leaves, -, notExternal, notIgnored⟩ := (ships name).mp ship
    rcases covered path leaves with isCovered | isCovered
    · cases notExternal.symm.trans isCovered
    · cases notIgnored.symm.trans isCovered
  exact ⟨nothing, withEngine_alone bundles isExternal isIgnored nothing⟩

end Run

/-! ## A module inside a package -/

namespace ModuleInside

/-- A script. -/
def entry : Path := .ofNames ["a.js"]

/-- The bytes of a document by which a file imports `p/sub` from outside. -/
def metafileSource : List UInt8 :=
  [123, 34, 111, 117, 116, 112, 117, 116, 115, 34, 58, 123, 34, 34, 58, 123, 34, 105, 109, 112,
    111, 114, 116, 115, 34, 58, 91, 123, 34, 112, 97, 116, 104, 34, 58, 34, 112, 47, 115, 117, 98,
    34, 44, 34, 101, 120, 116, 101, 114, 110, 97, 108, 34, 58, 116, 114, 117, 101, 125, 93, 125,
    125, 125]

/-- The document. -/
def document : Metafile := ⟨[("", ⟨[⟨"p/sub", true⟩]⟩)]⟩

/-- A script and nothing else. -/
def disk : Disk where
  root := .directory [("a.js", .file ⟨[], 0o644, 0⟩)]
  current := .root
  now := 0

/-- Where the program only writes the document and an empty bundle. -/
def host : CommandHost where
  searchPath := []
  run := fun _ d =>
    let wrote := do
      let d ← d.write (Engine.stagingDirectory.child Esbuild.metafileName) metafileSource
      d.write (Engine.stagingDirectory.child "a.js") []
    (.ok ⟨.status 0, [], []⟩, wrote.toOption.getD d)

def esbuild : Esbuild := { binary := some (.ofNames ["esbuild"]) }

def settings : Settings := { Packing.plainSettings with engine := esbuild.engine host }

/-- The script with a list of external modules. -/
def function (modules : List String) : FunctionSource :=
  ⟨"a", entry, .script, "js", { externalModules := modules }⟩

def world : World := ⟨disk, .empty none, []⟩

theorem read_metafileSource : Metafile.read metafileSource = .ok document := by
  have parsed : (Metafile.read metafileSource).toOption = some document := by cbv
  cases there : Metafile.read metafileSource with
  | error error => simp [there, Except.toOption] at parsed
  | ok found =>
      rw [there] at parsed
      rw [Option.some.inj parsed]

/-- The disk while the engine works. -/
def working (made : List (String × Disk.Node)) : Disk :=
  { disk with root := .directory [("a.js", .file ⟨[], 0o644, 0⟩), ("staging", .directory made)] }

/-- What the program writes. -/
def written : List (String × Disk.Node) :=
  [("metafile.json", .file ⟨metafileSource, 0o644, 0⟩), ("a.js", .file ⟨[], 0o644, 0⟩)]

theorem write_document (data : List UInt8) :
    (working []).write (Engine.stagingDirectory.child Esbuild.metafileName) data =
      .ok (working [(Esbuild.metafileName, .file ⟨data, 0o644, 0⟩)]) := by cbv

theorem write_bundle (data : List UInt8) :
    (working [(Esbuild.metafileName, .file ⟨data, 0o644, 0⟩)]).write
        (Engine.stagingDirectory.child "a.js") [] =
      .ok (working [(Esbuild.metafileName, .file ⟨data, 0o644, 0⟩),
        ("a.js", .file ⟨[], 0o644, 0⟩)]) := by cbv

theorem run_bundle (modules : List String) :
    (esbuild.bundle host ⟨entry, modules, [], Engine.stagingDirectory⟩).run (working []) =
      (.ok ⟨Engine.stagingDirectory.child "a.js", ["p"], []⟩, working written) := by
  let request : EngineRequest := ⟨entry, modules, [], Engine.stagingDirectory⟩
  have located : esbuild.locate host = pure (.ofNames ["esbuild"]) := rfl
  have stubless : (Esbuild.stubbed request).isEmpty = true := rfl
  have success : (Exit.status 0).isSuccess = true := rfl
  have ran (c : Command) : host.run c (working []) =
      (.ok ⟨.status 0, [], []⟩, working written) := by
    simp only [host, write_document, bind, Except.bind, write_bundle]
    rfl
  have read : (working written).read (Esbuild.metafile request) = .ok metafileSource := by cbv
  have packages : document.packages = ["p"] := by cbv
  show (esbuild.bundle host request).run (working []) = _
  rw [Esbuild.bundle, located, pure_bind]
  dsimp only
  rw [if_pos stubless, Work.run_bind, Esbuild.run_run (ran _)]
  dsimp only
  rw [if_pos success, Work.run_bind, Task.run_ask, read]
  simp only [Except.mapError, read_metafileSource, packages]
  rfl

theorem bundles (modules : List String) :
    (Action.task (settings.engine.bundleScript (function modules).entry
      (function modules).config)).run
        world = (.ok ([], ⟨Engine.stagingDirectory.child "a.js", ["p"], []⟩), world) := by
  have created : disk.createDirectory Engine.stagingDirectory = .ok (working []) := by cbv
  have read : (working written).read (Engine.stagingDirectory.child "a.js") = .ok [] := by cbv
  have removed : (working written).removeDirectory Engine.stagingDirectory = .ok disk := by cbv
  have made := @Engine.run_bundleScript settings.engine (function modules).entry
    (function modules).config _ _ _ _ _ created (run_bundle modules) read
  rw [removed] at made
  rw [Action.run_task]
  simp only [world, made]
  rfl

/-- Nothing is installed for the package. -/
theorem buildPackages_lacks :
    (((Graph.buildPackages { Graph.plainPolicy with external := ⟨["p/sub"], []⟩ }
      ["p"] entry) disk).run
      (.empty none)).1 = .error (.missingDependency "p" entry) := by
  have real : disk.realPath entry = .ok entry := by cbv
  have builtin : Reference.isBuiltin "p" = false := by decide
  have relative : Reference.isRelative "p" = false := by decide
  have package : Reference.packageName "p" = "p" := by decide
  have parent : entry.parent? = some .root := by decide
  have nowhere : ((Resolution.installed [".js"] "p" .root) disk).run (.empty none) =
      (.ok none, .empty none) := by cbv
  have required : ((Resolution.tolerance "p" .root) disk).run (.empty none) =
      (.ok none, ⟨none, [], [.ofNames ["package.json"]]⟩) := by cbv
  have missing : ((Resolution.resolve [".js"] "p" entry) disk).run (.empty none) =
      (.error (.missingDependency "p" entry), ⟨none, [], [.ofNames ["package.json"]]⟩) := by
    simp [Resolution.resolve, builtin, relative, parent, nowhere, package, required]
    rfl
  have notExternal : (⟨["p/sub"], []⟩ : ModuleFilter).covers "p" = false := by decide
  have notIgnored : Graph.plainPolicy.ignored.covers "p" = false := by decide
  have extensions : Graph.plainPolicy.extensions = [".js"] := rfl
  have followed : (({ Graph.plainPolicy with external := ⟨["p/sub"], []⟩ }.follow "p" entry false :
      Query (List GraphFinding)) disk).run (.empty none) =
        (.error (.missingDependency "p" entry), ⟨none, [], [.ofNames ["package.json"]]⟩) := by
    simp [GraphPolicy.follow, builtin, notExternal, notIgnored, extensions, missing]
    rfl
  simp [Graph.buildPackages, Resolution.realPath, Query.askDisk, real, Except.mapError, followed]

end ModuleInside

open ModuleInside

/-- A list that names a package describes what is imported of it: the bundle is only the script. -/
theorem withEngine_ships_package :
    ∃ b, ((withEngine settings (function ["p"])).run world).1 = .ok b ∧
      b.files = [⟨"a.js", .bytes [], none⟩] := by
  have isExternal : ModuleFilter.make (function ["p"]).config.externalModules =
      .ok ⟨["p"], []⟩ := rfl
  have isIgnored : ModuleFilter.make (function ["p"]).config.ignoredModules = .ok ⟨[], []⟩ := rfl
  obtain ⟨told, documents, -, alone⟩ :=
    withEngine_ships (s := settings) (f := function ["p"]) (bundles ["p"]) isExternal isIgnored
      (e := esbuild) rfl
  have ofPackage {path : String} (leaves : told.Leaves path) :
      Reference.packageName path = "p" := by
    have among : Reference.packageName path ∈ told.packages :=
      Metafile.mem_packages.mpr ⟨path, leaves, rfl⟩
    rw [← documents.1] at among
    exact List.mem_singleton.mp among
  have notInside (path : String) (leaves : told.Leaves path)
      (inside : ModuleFilter.NamesInside path) :
      path ∉ (function ["p"]).config.externalModules ++ (function ["p"]).config.ignoredModules := by
    intro among
    cases List.mem_singleton.mp among
    exact inside.2 (ofPackage leaves)
  have covered (path : String) (leaves : told.Leaves path) :
      (⟨["p"], []⟩ : ModuleFilter).covers path = true := by
    simp [ModuleFilter.covers, ofPackage leaves]
  obtain ⟨-, made⟩ := (alone notInside).2 fun path leaves => .inl (covered path leaves)
  have real : world.disk.realPath (function ["p"]).entry = .ok entry := by cbv
  rw [real] at made
  exact ⟨_, made, by cbv⟩

/-- A list that names a module inside a package describes all that is imported, but the package is
to be shipped, and fails to be found. -/
theorem withEngine_inside :
    ∃ external ignored bundled result w₁,
      ModuleFilter.make (function ["p/sub"]).config.externalModules = .ok external ∧
      ModuleFilter.make (function ["p/sub"]).config.ignoredModules = .ok ignored ∧
      (Action.task (settings.engine.bundleScript (function ["p/sub"]).entry
        (function ["p/sub"]).config)).run world = (.ok (bundled, result), w₁) ∧
      Esbuild.Documents ⟨entry, ["p/sub"], [], Engine.stagingDirectory⟩ result document ∧
      (∀ path, document.Leaves path → external.covers path = true) ∧
      "p" ∈ toShip external ignored result.externalModules ∧
      ((withEngine settings (function ["p/sub"])).run world).1 =
        .error (.missingDependency "p" entry) := by
  have isExternal : ModuleFilter.make (function ["p/sub"]).config.externalModules =
      .ok ⟨["p/sub"], []⟩ := rfl
  have isIgnored : ModuleFilter.make (function ["p/sub"]).config.ignoredModules =
      .ok ⟨[], []⟩ := rfl
  have ships : toShip ⟨["p/sub"], []⟩ ⟨[], []⟩ ["p"] = ["p"] := by cbv
  have packages : document.packages = ["p"] := by cbv
  have read : (working written).read (Engine.stagingDirectory.child Esbuild.metafileName) =
      .ok metafileSource := by cbv
  have covered (path : String) (leaves : document.Leaves path) :
      (⟨["p/sub"], []⟩ : ModuleFilter).covers path = true := by
    obtain ⟨output, among, i, imported, -, rfl⟩ := leaves
    cases List.mem_singleton.mp among
    cases List.mem_singleton.mp imported
    decide
  refine ⟨_, _, _, _, _, isExternal, isIgnored, bundles ["p/sub"],
    ⟨packages.symm, _, _, read, read_metafileSource⟩, covered, ?_, ?_⟩
  · rw [ships]
    exact List.mem_singleton_self _
  · refine withEngine_lacks (s := settings) (f := function ["p/sub"]) (bundles ["p/sub"]) isExternal
      isIgnored rfl ?_ ?_
    · rw [ships]
      exact List.cons_ne_nil _ _
    · rw [ships]
      exact buildPackages_lacks

end Bundle

end FunctionArchive
