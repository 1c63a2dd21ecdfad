import FunctionArchive.Proofs.Archive.Preservation
import FunctionArchive.Proofs.Attempts
import FunctionArchive.Proofs.Graph.Exactness

/-!
# Turning to a second strategy

A script that hedges is bundled by the engine, and if the engine fails, by its closure. The result
is the one that the engine gives when it alone is asked; else the one that the closure gives when it
alone is asked, with what the engine complained of; else the failure of the engine. Only the
spelling of some paths can tell that the engine was tried before: the manifests that it met are
known under the names by which it met them, and a warning about an optional dependency names a
manifest.
-/

set_option autoImplicit false

namespace FunctionArchive

open Query (SameOutcome Yields)
open FunctionArchive.Action (Gives)

variable {d : Disk} {limit : Option Path} {s : Settings} {f : FunctionSource} {w : World}

namespace Bundle

theorem withStrategy_pin (s : Settings) (f : FunctionSource) (choice : StrategyChoice)
    (strategy : Strategy) : withStrategy s (f.pin choice) strategy = withStrategy s f strategy := by
  cases strategy <;> rfl

/-- A pinned strategy of a script gives what bundling gives. -/
theorem run_make_pin {choice : StrategyChoice} {strategy : Strategy} (script : f.runtime = .script)
    (pinned : Selection.ofChoice choice = ⟨strategy, none⟩) (w : World) :
    ((make s (f.pin choice)).run w).1 = ((withStrategy s f strategy).run w).1 := by
  have fixed : Selection.fixed? (f.pin choice) = some ⟨strategy, none⟩ := by
    have script : (f.pin choice).runtime = .script := script
    rw [Selection.fixed?, script, ← pinned]
    rfl
  rw [run_make_fixed fixed, ← withStrategy_pin s f choice]
  rfl

/-- Only a script that hedges has a second strategy. -/
theorem choose_single (unhedged : ¬f.Hedges) :
    Yields d limit (Selection.choose f) fun selection => selection.fallback = none := by
  unfold Selection.choose
  split
  · next selection fixed =>
    refine .pure ?_
    unfold Selection.fixed? at fixed
    split at fixed
    · cases fixed
      rfl
    · cases fixed
      rfl
    · cases fixed
      rfl
    · cases fixed
      rfl
    · next script =>
      obtain ⟨choice, pinned, rfl⟩ := Option.map_eq_some_iff.mp fixed
      cases choice with
      | graph => rfl
      | engine => rfl
      | engineWithFallback => exact absurd ⟨script, pinned⟩ unhedged
  · exact .bind (needsEngine_yields f) fun _ _ => .pure rfl

/-- **What bundling gives with and without a second strategy.** -/
theorem make_fallback (contained : s.engine.Contained) (knows : w.Knows d limit) :
    (f.Hedges →
      match ((make s (f.pin .engine)).run w).1, ((make s (f.pin .graph)).run w).1 with
      | .ok b, _ => ((make s f).run w).1 = .ok b
      | .error failure, .ok b => ∃ b', b.Respells b' ∧
          ((make s f).run w).1 = .ok { b' with recovered := some failure.details }
      | .error failure, .error _ => ((make s f).run w).1 = .error failure) ∧
    (¬f.Hedges →
      match (Action.query (Selection.choose f)).run w with
      | (.error fault, _) => ((make s f).run w).1 = .error fault
      | (.ok selection, w') => selection.fallback = none ∧
          ((make s f).run w).1 = ((withStrategy s f selection.primary).run w').1 ∧
          ((advanceFor s f 2 .begun).run w).1 = .ok (.done ((make s f).run w).1) ∧
          ∀ b, ((make s f).run w).1 = .ok b → b.recovered = none) ∧
    ((advanceFor s f 4 .begun).run w).1 = .ok (.done ((make s f).run w).1) := by
  refine ⟨fun ⟨script, hedged⟩ => ?_, fun unhedged => ?_, run_advanceFor s f w⟩
  · have fixed : Selection.fixed? f = some ⟨.engine, some .graph⟩ := by
      rw [Selection.fixed?, script, hedged]
      rfl
    rw [run_make_pin script rfl, run_make_pin script rfl, run_make_fixed fixed,
      run_withSelection_fallback]
    have ended := withStrategy_gives (s := s) (f := f) contained .engine w knows
    generalize (withStrategy s f .engine).run w = tried at ended ⊢
    obtain ⟨failure | b, w₁⟩ := tried
    · have knows₁ : w₁.Knows d limit := ended.badly failure rfl
      obtain ⟨w₂, noted, disk, manifests⟩ := run_noteRetry f failure .graph w₁
      have knows₂ : w₂.Knows d limit :=
        ⟨disk.trans knows₁.disk, manifests ▸ knows₁.faithful, manifests ▸ knows₁.boundary⟩
      have alike : SameOutcome Respells ((withStrategy s f .graph).run w).1
          ((withStrategy s f .graph).run w₂).1 := withGraph_alike knows knows₂
      dsimp only
      rw [run_recover failure .graph noted]
      generalize ((withStrategy s f .graph).run w).1 = plain at alike ⊢
      generalize ((withStrategy s f .graph).run w₂).1 = retried at alike ⊢
      cases alike with
      | error fault => rfl
      | ok respells => exact ⟨_, respells, rfl⟩
    · rfl
  · have made := run_make s f w
    have known := Gives.query (choose_single unhedged) w knows
    generalize choice : (Action.query (Selection.choose f)).run w = chosen at made known ⊢
    obtain ⟨fault | ⟨primary, fallback⟩, w'⟩ := chosen
    · exact made
    · obtain ⟨knows', rfl⟩ := known.well _ rfl
      have same : ((make s f).run w).1 = ((withStrategy s f primary).run w').1 := made
      refine ⟨rfl, same, same ▸ run_advanceFor_single rfl choice, fun b isMade => ?_⟩
      have ended := withStrategy_gives (s := s) (f := f) contained primary w' knows'
      exact (ended.well b (same ▸ isMade)).2

/-! ## A script that lacks an optional dependency -/

namespace Lacking

open Query (run_bind)

/-- The directory of a package inside a package. -/
def here : Path := .ofNames ["node_modules", "q", "sub"]

/-- The same directory under the name by which the engine reports it. -/
def dotted : Path := .ofNames ["node_modules", "q", ".", "sub"]

/-- A script in this directory. -/
def entry : Path := here.child "a.js"

/-- The bytes of `require('o')`. -/
def source : List UInt8 := [114, 101, 113, 117, 105, 114, 101, 40, 39, 111, 39, 41]

/-- The bytes of a manifest that declares `o` as an optional dependency. -/
def manifestSource : List UInt8 :=
  [91, 48, 44, 48, 44, 48, 44, 48, 44, 48, 44, 48, 44, 123, 34, 111, 34, 58, 34, 34, 125, 93]

/-- A script that lacks an optional dependency of its package. -/
def disk : Disk where
  root := .directory [("node_modules", .directory [("q", .directory [("sub", .directory
    [("a.js", .file ⟨source, 0o644, 0⟩),
      ("package.json", .file ⟨manifestSource, 0o644, 0⟩)])])])]
  current := .root
  now := 0

/-- What such a manifest says. -/
theorem read_manifestSource : ∃ fields : Manifest.Fields,
    Json.Reader.run Manifest.readFields manifestSource = .ok fields ∧
      fields.optionalDependencies.map (·.1) = ["o"] ∧ fields.main = none ∧ fields.name = none ∧
      fields.peerOptional = [] ∧ fields.dependencies = [] := by
  have parsed : (Json.Reader.run Manifest.readFields manifestSource).toOption.map
      (fun fields => (fields.optionalDependencies.map (·.1), fields.main, fields.name,
        fields.peerOptional)) = some (["o"], none, none, []) := by decide +kernel
  have needsNothing : (Json.Reader.run Manifest.readFields manifestSource).toOption.map
      (·.dependencies) = some [] := by decide +kernel
  cases result : Json.Reader.run Manifest.readFields manifestSource with
  | error fault => simp [result, Except.toOption] at parsed
  | ok fields =>
      simp only [result, Except.toOption, Option.map_some, Option.some.injEq,
        Prod.mk.injEq] at parsed
      obtain ⟨optional, main, name, peers⟩ := parsed
      rw [result] at needsNothing
      exact ⟨fields, rfl, optional, main, name, peers, Option.some.inj needsNothing⟩

theorem fetch_disk : ∃ fields : Manifest.Fields,
    Manifests.fetch disk (here.child Manifest.fileName) = .ok (some (.ofFields here fields)) ∧
      Manifests.fetch disk (dotted.child Manifest.fileName) = .ok (some (.ofFields dotted fields)) ∧
      fields.optionalDependencies.map (·.1) = ["o"] ∧ fields.main = none ∧ fields.name = none ∧
      fields.peerOptional = [] := by
  obtain ⟨fields, result, optional, main, name, peers, -⟩ := read_manifestSource
  have read : disk.read (here.child Manifest.fileName) = .ok manifestSource := by cbv
  have read' : disk.read (dotted.child Manifest.fileName) = .ok manifestSource := by cbv
  have parent : (here.child Manifest.fileName).parent? = some here := by decide
  have parent' : (dotted.child Manifest.fileName).parent? = some dotted := by decide
  refine ⟨fields, ?_, ?_, optional, main, name, peers⟩
  · simp only [Manifests.fetch, read, Manifest.read, result, parent, Except.map, Option.getD_some]
  · simp only [Manifests.fetch, read', Manifest.read, result, parent', Except.map, Option.getD_some]

variable {known known' : Manifests} {m : Manifest}

theorem resolve_lacking (loaded : ((Manifests.load here) disk).run known = (.ok (some m), known'))
    (optional : m.isOptional "o" = true) :
    ((Resolution.resolve [".js"] "o" entry) disk).run known =
      (.ok (.optional (.optionalDependency m.path)), known') := by
  have builtin : Reference.isBuiltin "o" = false := by decide
  have relative : Reference.isRelative "o" = false := by decide
  have parent : entry.parent? = some here := by decide
  have package : Reference.packageName "o" = "o" := by decide +kernel
  have nowhere : ((Resolution.installed [".js"] "o" here) disk).run known =
      (.ok none, known) := by cbv
  have ancestors : here.ancestors = here :: here.ancestors.tail := rfl
  have found : ((Manifests.find here) disk).run known = (.ok (some m), known') := by
    rw [Manifests.find, ancestors, Manifests.findIn, run_bind, loaded]
    rfl
  simp [Resolution.resolve, builtin, relative, parent, package, nowhere,
    Resolution.tolerance, found,
    optional]

theorem scan_source : Script.scan (Utf8.decodeLossy source) entry = .ok ⟨[.static "o"], false⟩ := by
  have scanned : (Script.scan (Utf8.decodeLossy source) entry).toOption =
      some ⟨[.static "o"], false⟩ := by decide +kernel
  cases scan : Script.scan (Utf8.decodeLossy source) entry with
  | error fault => simp [scan, Except.toOption] at scanned
  | ok found =>
      rw [scan] at scanned
      rw [Option.some.inj scanned]

/-- What is noted about the script. -/
def note (m : Manifest) : Warning := .optionalMissing "o" entry (.optionalDependency m.path)

theorem visit_lacking (loaded : ((Manifests.load here) disk).run known = (.ok (some m), known'))
    (optional : m.isOptional "o" = true) :
    ((Graph.plainPolicy.visit entry) disk).run known =
      (.ok [.noted (note m), .visited entry ["o"] false], known') := by
  have script : Script.isScript entry = true := by decide +kernel
  have read : disk.read entry = .ok source := by cbv
  have builtin : Reference.isBuiltin "o" = false := by decide
  have notExternal : Graph.plainPolicy.external.covers "o" = false := by decide
  have notIgnored : Graph.plainPolicy.ignored.covers "o" = false := by decide
  have extensions : Graph.plainPolicy.extensions = [".js"] := rfl
  have sorted : GraphPolicy.staticReferences [.static "o"] = ["o"] := by cbv
  simp [GraphPolicy.visit, script, Query.askDisk, read, Except.mapError, scan_source,
    GraphPolicy.followScript, GraphPolicy.followFound, GraphPolicy.follow, builtin, notExternal,
    notIgnored, extensions, resolve_lacking loaded optional, sorted, GraphPolicy.isDynamic, note]

theorem build_lacking (loaded : ((Manifests.load here) disk).run known = (.ok (some m), known'))
    (optional : m.isOptional "o" = true) :
    ∃ g, ((Graph.build Graph.plainPolicy entry) disk).run known = (.ok g, known') ∧
      g.warnings = [note m] := by
  let first : Traversal :=
    ⟨disk.allPaths.filter (· != entry), disk.allPaths, [], [], { entry }⟩
  let last := first.addAll [.noted (note m), .visited entry ["o"] false]
  have real : disk.realPath entry = .ok entry := by cbv
  have start : (Traversal.begin disk entry).meetFile entry = { first with files := [entry] } := by
    cbv
  have drained :
      ((Traversal.drain Graph.plainPolicy { first with files := [entry] }) disk).run known =
      (.ok last, known') := by
    rw [Traversal.drain]
    simp only [Traversal.next?, run_bind, Traversal.perform, visit_lacking loaded optional]
    rw [Traversal.drain]
    rfl
  have packages : last.graph.packages = [] := rfl
  refine ⟨last.graph.sorted.markEntry, ?_, rfl⟩
  simp [Graph.build, Resolution.realPath, Query.askDisk, real, Except.mapError, GraphPolicy.finish,
    start, drained, GraphPolicy.addPackages, packages, sortedPaths, sortedMembers, List.eraseReps,
    List.eraseRepsBy]

/-- An engine that leaves a directory outside as if it were a package. -/
def engine : Engine := ⟨"sample", fun r => pure ⟨r.entry, ["q/./sub"], []⟩⟩

def settings : Settings := { Packing.plainSettings with engine := engine }

/-- The script, to be bundled by the engine and, if this fails, by its closure. -/
def function : FunctionSource :=
    ⟨"a", entry, .script, "js", { strategy := some .engineWithFallback }⟩

def world : World := ⟨disk, .empty none, []⟩

theorem contained_engine : settings.engine.Contained := by
  intro r names d d' outcome _ there ran
  cases ran
  exact ⟨rfl, there⟩

/-- What is known after the search for the package. -/
def learnt (m : Manifest) : Manifests :=
  ⟨none, [(dotted.child Manifest.fileName, m)],
    [(Path.ofNames ["node_modules", "q"]).child Manifest.fileName]⟩

/-- The manifest of a directory is found under any of its names. -/
theorem load_learnt (fields : Manifest.Fields) :
    ((Manifests.load here) disk).run (learnt (.ofFields dotted fields)) =
      (.ok (some (.ofFields dotted fields)), learnt (.ofFields dotted fields)) := by
  have same : (dotted.child Manifest.fileName).same (here.child Manifest.fileName) =
      true := by decide
  rw [Manifests.run_load]
  simp [Manifests.lookUp, Manifests.found?, learnt, same]

theorem package_engine : Reference.packageName "q/./sub" = "q" := by decide +kernel

theorem notBuiltin_engine : Reference.isBuiltin "q/./sub" = false := by cbv

/-- In the directory of the package there is nothing that could stand for what is asked for. -/
theorem installedIn_engine {fields : Manifest.Fields}
    (fetched : Manifests.fetch disk (dotted.child Manifest.fileName) =
      .ok (some (.ofFields dotted fields)))
    (noMain : fields.main = none) :
    ((Resolution.installedIn [".js"] (.ofNames ["node_modules"]) "q/./sub") disk).run
    (.empty none) =
      (.ok none, learnt (.ofFields dotted fields)) := by
  have exported : ((Resolution.exported (.ofNames ["node_modules", "q"]) "q/./sub") disk).run
      (.empty none) = (.ok none, ⟨none, [],
        [(Path.ofNames ["node_modules", "q"]).child Manifest.fileName]⟩) := by cbv
  have looked : Manifests.lookUp ⟨none, [],
      [(Path.ofNames ["node_modules", "q"]).child Manifest.fileName]⟩
      (dotted.child Manifest.fileName) = none := rfl
  have loaded : ((Manifests.load dotted) disk).run ⟨none, [],
      [(Path.ofNames ["node_modules", "q"]).child Manifest.fileName]⟩ =
        (.ok (some (.ofFields dotted fields)), learnt (.ofFields dotted fields)) := by
    rw [Manifests.run_load, looked, fetched]
    rfl
  have packageAt : (Path.ofNames ["node_modules"]).child "q" = .ofNames ["node_modules", "q"] := by
    decide
  have referenceAt : (Path.ofNames ["node_modules"]).child "q/./sub" = dotted := by cbv
  have noFile : [dotted, dotted.appendToName ".js"].find? disk.isFile = none := by cbv
  have notFile : disk.isFile (dotted.child "index.js") = false := by cbv
  have isDirectory : disk.isDirectory dotted = true := by cbv
  have mainless : (Manifest.ofFields dotted fields).main = none := by
    rw [Manifest.ofFields, noMain]
    rfl
  simp [Resolution.installedIn, package_engine, packageAt, referenceAt, exported,
    Resolution.pathFile, Resolution.file, Resolution.index, Resolution.firstFile, noFile,
    Resolution.directoryFile, isDirectory, Resolution.mainFile, loaded, mainless,
      notFile, Except.map]

theorem installed_engine {fields : Manifest.Fields}
    (fetched : Manifests.fetch disk (dotted.child Manifest.fileName) =
      .ok (some (.ofFields dotted fields)))
    (noMain : fields.main = none) :
    ((Resolution.installed [".js"] "q/./sub" here) disk).run (.empty none) =
      (.ok none, learnt (.ofFields dotted fields)) := by
  have ancestors : here.ancestors = [here, .ofNames ["node_modules", "q"],
      .ofNames ["node_modules"], .root] := by decide
  have nowhere : disk.isDirectory (here.child Resolution.packagesName) = false := by cbv
  have nowhere' : disk.isDirectory
      ((Path.ofNames ["node_modules", "q"]).child Resolution.packagesName) = false := by cbv
  have installed : disk.isDirectory (Path.root.child Resolution.packagesName) = true := by cbv
  have atRoot : Path.root.child Resolution.packagesName = .ofNames ["node_modules"] := by decide
  have isPackages : (Path.ofNames ["node_modules"]).fileName? = some Resolution.packagesName := by
    decide
  have notPackages : Path.root.fileName? = none := by decide
  rw [atRoot] at installed
  simp [Resolution.installed, ancestors, Resolution.installedNext, nowhere, nowhere', installed,
    isPackages, notPackages, atRoot, installedIn_engine fetched noMain]

theorem resolve_engine {fields : Manifest.Fields}
    (fetched : Manifests.fetch disk (dotted.child Manifest.fileName) =
      .ok (some (.ofFields dotted fields)))
    (dependencies : fields.optionalDependencies.map (·.1) = ["o"]) (noMain : fields.main = none)
    (noName : fields.name = none) (noPeers : fields.peerOptional = []) :
    ((Resolution.resolve [".js"] "q/./sub" entry) disk).run (.empty none) =
      (.error (.missingDependency "q/./sub" entry), learnt (.ofFields dotted fields)) := by
  have relative : Reference.isRelative "q/./sub" = false := by cbv
  have parent : entry.parent? = some here := by decide
  have found : ((Manifests.find here) disk).run (learnt (.ofFields dotted fields)) =
      (.ok (some (.ofFields dotted fields)), learnt (.ofFields dotted fields)) := by
    have ancestors : here.ancestors = here :: here.ancestors.tail := rfl
    rw [Manifests.find, ancestors, Manifests.findIn, run_bind, load_learnt]
    rfl
  have required : (Manifest.ofFields dotted fields).isOptional "q" = false := by
    show (fields.optionalDependencies.map (·.1)).contains "q" = false
    rw [dependencies]
    decide
  have noPeer : (Manifest.ofFields dotted fields).isPeerOptional "q" = false := by
    rw [Manifest.isPeerOptional, Manifest.ofFields, noPeers]
    rfl
  have nameless : (Manifest.ofFields dotted fields).name = none := by
    rw [Manifest.ofFields, noName]
  simp [Resolution.resolve, notBuiltin_engine, relative, parent, package_engine,
    installed_engine fetched noMain, Resolution.tolerance, found, required, noPeer, nameless]
  rfl

theorem policy_settings :
    GraphPolicy.ofSettings settings function.config = .ok Graph.plainPolicy := by cbv

theorem withEngine_lacking {fields : Manifest.Fields}
    (fetched : Manifests.fetch disk (dotted.child Manifest.fileName) =
      .ok (some (.ofFields dotted fields)))
    (dependencies : fields.optionalDependencies.map (·.1) = ["o"]) (noMain : fields.main = none)
    (noName : fields.name = none) (noPeers : fields.peerOptional = []) :
    (withStrategy settings function .engine).run world =
      (.error (.missingDependency "q/./sub" entry),
        ⟨disk, learnt (.ofFields dotted fields), []⟩) := by
  have bundled : (engine.bundleScript entry function.config).run disk =
      (.ok (source, ⟨entry, ["q/./sub"], []⟩), disk) := by cbv
  have modules : ModuleFilter.make function.config.externalModules = .ok ⟨[], []⟩ := by cbv
  have modules' : ModuleFilter.make function.config.ignoredModules = .ok ⟨[], []⟩ := by cbv
  have notExternal : Graph.plainPolicy.external.covers "q/./sub" = false := by cbv
  have notIgnored : Graph.plainPolicy.ignored.covers "q/./sub" = false := by cbv
  have real : disk.realPath entry = .ok entry := by cbv
  have followed : ((Graph.plainPolicy.follow "q/./sub" entry false) disk).run (.empty none) =
      (.error (.missingDependency "q/./sub" entry), learnt (.ofFields dotted fields)) := by
    have extensions : Graph.plainPolicy.extensions = [".js"] := rfl
    simp [GraphPolicy.follow, notBuiltin_engine, notExternal, notIgnored, extensions,
      resolve_engine fetched dependencies noMain noName noPeers]
    rfl
  have built : ((Graph.buildPackages Graph.plainPolicy ["q/./sub"] entry) disk).run (.empty none) =
      (.error (.missingDependency "q/./sub" entry), learnt (.ofFields dotted fields)) := by
    simp [Graph.buildPackages, Resolution.realPath, Query.askDisk, real, Except.mapError, followed]
  have task : (Action.task (engine.bundleScript entry function.config)).run world =
      (.ok (source, ⟨entry, ["q/./sub"], []⟩), world) := by
    rw [Action.run_task]
    simp only [world, bundled]
  show (withEngine settings function).run world = _
  unfold withEngine
  show (Action.task (engine.bundleScript entry function.config) >>= _).run world = _
  rw [Work.run_bind, task]
  simp only [modules, modules', policy_settings]
  have asked : (Action.query (Graph.buildPackages Graph.plainPolicy ["q/./sub"] entry)).run world =
      (.error (.missingDependency "q/./sub" entry),
        ⟨disk, learnt (.ofFields dotted fields), []⟩) := by
    rw [Action.run_query]
    simp only [world, built]
  have mapped :
      (some <$> Action.query (Graph.buildPackages Graph.plainPolicy ["q/./sub"] entry)).run
      world =
        (.error (.missingDependency "q/./sub" entry),
          ⟨disk, learnt (.ofFields dotted fields), []⟩) := by
    rw [Action.run_map, asked]
  show ((some <$> Action.query (Graph.buildPackages Graph.plainPolicy ["q/./sub"] entry)) >>= _).run
    world = _
  rw [Work.run_bind, mapped]

theorem withGraph_lacking {w : World} (disk' : w.disk = disk)
    (loaded : ((Manifests.load here) disk).run w.manifests = (.ok (some m), known'))
    (optional : m.isOptional "o" = true) :
    ∃ b, ((withStrategy settings function .graph).run w).1 = .ok b ∧ b.warnings = [note m] := by
  obtain ⟨g, built, warnings⟩ := build_lacking loaded optional
  have asked : (Action.query (Graph.build Graph.plainPolicy entry)).run w =
      (.ok g, { w with manifests := known' }) := by
    rw [Action.run_query, disk', built]
  refine ⟨ofGraph .script g, ?_, warnings⟩
  show ((withGraph settings function).run w).1 = _
  unfold withGraph
  rw [policy_settings]
  show ((Action.query (Graph.build Graph.plainPolicy entry) >>= fun g =>
    pure (ofGraph .script g)).run w).1 = _
  rw [Work.run_bind, asked]
  rfl

/-- The first attempt fails, and the second one names the manifest as the first one learnt it. -/
theorem attempts : ∃ fields : Manifest.Fields, ∃ b b' : Bundle,
    ((make settings (function.pin .engine)).run world).1 =
        .error (.missingDependency "q/./sub" entry) ∧
      ((make settings (function.pin .graph)).run world).1 = .ok b ∧
      b.warnings = [note (.ofFields here fields)] ∧
      ((make settings function).run world).1 = .ok b' ∧
      b'.warnings = [note (.ofFields dotted fields)] := by
  obtain ⟨fields, plain, fetched, dependencies, noMain, noName, noPeers⟩ := fetch_disk
  have optional (path : Path) : (Manifest.ofFields path fields).isOptional "o" = true := by
    show (fields.optionalDependencies.map (·.1)).contains "o" = true
    rw [dependencies]
    decide
  have failed := withEngine_lacking fetched dependencies noMain noName noPeers
  obtain ⟨w', noted, disk', manifests⟩ :=
    run_noteRetry function (.missingDependency "q/./sub" entry)
    .graph ⟨disk, learnt (.ofFields dotted fields), []⟩
  have fresh : ((Manifests.load here) disk).run world.manifests =
      (.ok (some (.ofFields here fields)),
        ⟨none, [(here.child Manifest.fileName, .ofFields here fields)], []⟩) := by
    have unknown : world.manifests.lookUp (here.child Manifest.fileName) = none := rfl
    rw [Manifests.run_load, unknown, plain]
    rfl
  obtain ⟨b, first, warnings⟩ := withGraph_lacking (w := world) rfl fresh (optional here)
  have known : ((Manifests.load here) disk).run w'.manifests =
      (.ok (some (.ofFields dotted fields)), learnt (.ofFields dotted fields)) := by
    rw [manifests]
    exact load_learnt fields
  obtain ⟨b', second, warnings'⟩ := withGraph_lacking disk' known (optional dotted)
  refine ⟨fields, b, { b' with recovered := some (Fault.details
    (.missingDependency "q/./sub" entry)) }, ?_, ?_, warnings, ?_, warnings'⟩
  · rw [run_make_pin rfl rfl, failed]
  · rw [run_make_pin rfl rfl, first]
  · have hedged : Selection.fixed? function = some ⟨.engine, some .graph⟩ := rfl
    rw [run_make_fixed hedged, run_withSelection_fallback, failed]
    dsimp only
    rw [run_recover _ .graph noted, second]

end Lacking

open Lacking in
/-- The second attempt gives another bundle than the pinned strategy: its warnings differ. -/
theorem make_respelledWarning :
    settings.engine.Contained ∧ world.Knows disk none ∧ function.Hedges ∧
      ∃ failure b b', ((make settings (function.pin .engine)).run world).1 = .error failure ∧
        ((make settings (function.pin .graph)).run world).1 = .ok b ∧
        ((make settings function).run world).1 = .ok b' ∧ b'.warnings ≠ b.warnings := by
  obtain ⟨fields, b, b', failed, first, warnings, second, warnings'⟩ := attempts
  refine ⟨contained_engine, ⟨rfl, Manifests.faithful_empty none _, rfl⟩, ⟨rfl, rfl⟩,
    _, b, b', failed, first, second, ?_⟩
  rw [warnings, warnings']
  intro same
  have path : dotted.child Manifest.fileName = here.child Manifest.fileName := by
    injection same with noted
    injection noted with _ _ tolerance
    injection tolerance
  exact absurd path (by decide)

open Lacking in
/-- The script of the sample is bundled at the second attempt. -/
theorem make_fallback_lacking :
    settings.engine.Contained ∧ world.Knows disk none ∧ function.Hedges ∧
      ∃ failure b b', ((make settings (function.pin .engine)).run world).1 = .error failure ∧
        ((make settings (function.pin .graph)).run world).1 = .ok b ∧ b.Respells b' ∧
        ((make settings function).run world).1 =
          .ok { b' with recovered := some failure.details } := by
  obtain ⟨fields, b, -, failed, first, -⟩ := attempts
  have knows : world.Knows disk none := ⟨rfl, Manifests.faithful_empty none _, rfl⟩
  have hedges : function.Hedges := ⟨rfl, rfl⟩
  have outcome := (make_fallback (s := settings) (f := function) contained_engine knows).1 hedges
  rw [failed, first] at outcome
  obtain ⟨b', respells, made⟩ := outcome
  exact ⟨contained_engine, knows, hedges, _, b, b', failed, first, respells, made⟩

end Bundle

end FunctionArchive
