import FunctionArchive.Discovery
import FunctionArchive.Proofs.Archive.Preservation
import FunctionArchive.Proofs.Graph.Account
import FunctionArchive.Proofs.Graph.SingleReference

/-!
# Which functions are scanned

A listing takes a file for a script by its extension in lower case; a closure takes it for one by
the extension of its real path as it is spelled. Where the two agree the script is scanned: its
references are told, and each of them is followed, left out or warned of. Where they do not, the
closure is the file and nothing else (`Graph.build_notScript`), and nothing is said about it
(`Graph.build_scans`).
-/

set_option autoImplicit false

namespace FunctionArchive

/-! ## Files that are taken for scripts -/

/-- A file that a listing takes for a script is a script exactly if its extension is spelled in
lower case. -/
theorem Script.isScript_iff_lower {p : Path}
    (listed : FunctionSource.scriptExtensions.contains (FunctionSource.extensionOf p) = true) :
    Script.isScript p = true ↔ p.extension? = some (FunctionSource.extensionOf p) := by
  have lower : ∀ extension ∈ Script.extensions, extension.toLower = extension := by decide +kernel
  have known : ∀ extension ∈ FunctionSource.scriptExtensions,
      Script.extensions.contains extension := by
    decide
  unfold Script.isScript FunctionSource.extensionOf at *
  cases found : p.extension? with
  | none => simp
  | some extension =>
      simp only [found, Option.getD_some, Option.some.injEq] at listed ⊢
      constructor
      · intro isScript
        exact (lower extension (List.contains_iff_mem.mp isScript)).symm
      · intro same
        rw [← same] at listed
        exact known extension (List.contains_iff_mem.mp listed)

namespace FunctionSource

variable {d : Disk} {s : Settings} {path : Path} {f : FunctionSource}

/-- Nothing but its extension makes a file a script. -/
theorem runtimeOf_script {entry : Path} (classified : runtimeOf d entry = .ok (some .script)) :
    scriptExtensions.contains (extensionOf entry) = true := by
  unfold runtimeOf at classified
  dsimp only at classified
  split_ifs at classified with listed isArchive unsupported isOther
  · exact listed
  · cases classified
  · cases classified
  · split at classified
    · next bytes read =>
      have executable : Runtime.ofExecutable? bytes = some .script := Except.ok.inj classified
      unfold Runtime.ofExecutable? at executable
      split_ifs at executable <;> cases executable
    · cases classified

/-- A function that is a script is one by the extension of its file in lower case. -/
theorem ofPath_script (found : ofPath d s path = .ok (some f)) (isScript : f.runtime = .script) :
    ∃ name entry, nameAndEntry? d path = .ok (some (name, entry)) ∧
      f.entry = Path.normalize d.current entry ∧ f.extension = extensionOf entry ∧
      scriptExtensions.contains (extensionOf entry) = true := by
  obtain ⟨named, isNamed, found⟩ := Disk.ok_of_bind found
  cases named with
  | none => cases found
  | some named =>
      obtain ⟨name, entry⟩ := named
      obtain ⟨runtime, classified, found⟩ := Disk.ok_of_bind found
      cases runtime with
      | none => cases found
      | some runtime =>
          cases found
          cases isScript
          exact ⟨name, entry, isNamed, rfl, rfl, runtimeOf_script classified⟩

end FunctionSource

namespace Traversal

variable {policy : GraphPolicy} {t rest : Traversal} {job : GraphJob}

theorem drain_done (done : t.next? = none) : drain policy t = pure t := by
  rw [drain]
  split
  · rfl
  · next found => cases done.symm.trans found

theorem drain_next (next : t.next? = some (job, rest)) :
    drain policy t = perform policy job >>= fun findings =>
      drain policy (rest.addAll findings) := by
  rw [drain]
  split
  · next done => cases next.symm.trans done
  · next found =>
    cases next.symm.trans found
    rfl

end Traversal

namespace Graph

variable {policy : GraphPolicy} {d : Disk} {entry start : Path}

/-- The closure of a file that is no script is this file alone. -/
theorem build_notScript (found : d.realPath entry = .ok start)
    (notScript : Script.isScript start = false) (known : Manifests) :
    ((build policy entry) d).run known =
      (.ok { entry := start, nodes := [{ path := start, isEntry := true }] }, known) := by
  let after : Traversal :=
    { Traversal.begin d start with unmetFiles := d.allPaths.filter (· != start) }
  have met : start ∈ d.allPaths := Disk.realPath_mem_allPaths found
  have begins : (Traversal.begin d start).meetFile start = { after with files := [start] } := by
    simp [Traversal.meetFile, Traversal.begin, met, after]
  have visited : policy.visit start = pure [.visited start [] false] := by
    simp [GraphPolicy.visit, notScript]
  have drained : Traversal.drain policy { after with files := [start] } =
      pure (after.add (.visited start [] false)) := by
    have next : Traversal.next? { after with files := [start] } = some (.file start, after) := rfl
    rw [Traversal.drain_next next, Traversal.perform, visited, pure_bind]
    exact Traversal.drain_done rfl
  let alone : Graph := { entry := start, nodes := [{ path := start }] }
  have told : (after.add (.visited start [] false)).graph = alone := rfl
  have noPackages : sortedPaths alone.packages = [] := by
    simp [alone, sortedPaths, sortedMembers, List.eraseReps, List.eraseRepsBy]
  have marked : alone.sorted.markEntry =
      { entry := start, nodes := [{ path := start, isEntry := true }] } := by
    simp [alone, Graph.sorted, markEntry, sortedPaths, sortedTexts, sortedMembers, List.eraseReps,
      List.eraseRepsBy]
  simp [build, Resolution.realPath, Query.askDisk, found, Except.mapError,
    GraphPolicy.finish, begins,
    drained, told, GraphPolicy.addPackages, noPackages, marked]

/-- The function that a listing takes for a script is scanned exactly if its real path has the
extension of a script as it is spelled. Then what is told about it is what is in it, and each static
reference that is not left out leads into the closure or is warned of; otherwise the closure is the
file alone. By its own name a file is taken for a script by both exactly if its extension is spelled
in lower case. -/
theorem build_scans {s : Settings} {path : Path} {f : FunctionSource} {g : Graph}
    {known later : Manifests} (found : FunctionSource.ofPath d s path = .ok (some f))
    (runtime : f.runtime = .script) (faithful : known.Faithful d)
    (built : ((build policy f.entry) d).run known = (.ok g, later)) :
    (∃ name file, FunctionSource.nameAndEntry? d path = .ok (some (name, file)) ∧
      f.entry = Path.normalize d.current file ∧
        (Script.isScript file = true ↔ file.extension? = some f.extension)) ∧
    ∃ start, d.realPath f.entry = .ok start ∧
      (Script.isScript start = false →
        g = { entry := start, nodes := [{ path := start, isEntry := true }] }) ∧
      (Script.isScript start = true → ∃ bytes, d.read start = .ok bytes ∧
        ∀ scan, Script.scan (Utf8.decodeLossy bytes) start = .ok scan →
          { path := start, isEntry := true
            references := GraphPolicy.staticReferences scan.references
            dynamic := scan.references.any GraphPolicy.isDynamic } ∈ g.nodes ∧
          ∀ reference, .static reference ∈ scan.references →
            Reference.isBuiltin reference = false → ¬ policy.Skips reference →
              (∃ file package links,
                policy.Follows d known.boundary ⟨reference, start⟩ file package links ∧
                file ∈ g.files) ∨
              policy.Tolerates d known.boundary ⟨reference, start⟩ ∧
                GraphPolicy.WarnsOf g.warnings ⟨reference, start⟩) := by
  obtain ⟨name, file, isNamed, isEntry, extension, listed⟩ :=
    FunctionSource.ofPath_script found runtime
  refine ⟨⟨name, file, isNamed, isEntry, ?_⟩, ?_⟩
  · rw [extension]
    exact Script.isScript_iff_lower listed
  obtain ⟨start, real, closed, inOrder⟩ := build_closure faithful built
  obtain ⟨start', real', describes⟩ :=
    (build_describes f.entry faithful rfl).value g (congrArg Prod.fst built)
  cases real.symm.trans real'
  refine ⟨start, real, fun notScript => ?_, fun isScript => ?_⟩
  · cases (build_notScript real notScript known).symm.trans built
    rfl
  have visitable := inOrder _ .start
  obtain ⟨bytes, read, -⟩ := visitable.scans isScript
  refine ⟨bytes, read, fun scan scanned => ?_⟩
  have there : d.referencesIn start = scan.references := by
    simp [Disk.referencesIn, isScript, read, scanned]
  constructor
  · obtain ⟨n, member, isStart⟩ := List.mem_map.mp ((closed.files start).mpr (.inl .start))
    have told := describes.visited n member (isStart ▸ .start)
    rw [isStart, GraphNode.ofFile, there, beq_self_eq_true] at told
    exact told ▸ member
  · intro reference among notBuiltin looked
    rw [← there] at among
    have requested : policy.InClosure d known.boundary start (.request ⟨reference, start⟩) :=
      .refers .start among
    rcases (visitable.references reference among).meets notBuiltin looked with
      ⟨file, package, links, follows⟩ | tolerates
    · exact .inl ⟨file, package, links, follows,
        (closed.files file).mpr (.inl (.leadsTo requested follows))⟩
    · exact .inr ⟨tolerates, describes.warned start reference .start among tolerates⟩

/-! ### A script that is scanned and one that is not -/

theorem ofPath_pairOfFiles :
    FunctionSource.ofPath pairOfFiles Packing.plainSettings (.ofNames ["a.js"]) =
      .ok (some ⟨"a", .ofNames ["a.js"], .script, "js", {}⟩) := by
  cbv

/-- A script is scanned: it is told that it refers to a data file, which is in the closure. -/
theorem build_scans_pairOfFiles :
    ∃ g, (((build plainPolicy (.ofNames ["a.js"])) pairOfFiles).run (.empty none)).1 = .ok g ∧
      { path := .ofNames ["a.js"], isEntry := true, references := ["./b.json"] } ∈ g.nodes ∧
      .ofNames ["b.json"] ∈ g.files := by
  have answered : (Resolution.resolve plainPolicy.extensions "./b.json" (.ofNames ["a.js"])).answer
      pairOfFiles none = .ok (.resolved (.ofNames ["b.json"]) none []) :=
    congrArg Prod.fst (resolve_pairOfFiles (.empty none))
  have leaf (file : Path) (package : Option Path) (links : List Link)
      (follows : plainPolicy.Follows pairOfFiles none ⟨"./b.json", .ofNames ["a.js"]⟩ file package
        links) : Script.isScript file = false ∧ package = none := by
    cases answered.symm.trans follows.resolved
    exact ⟨by decide, rfl⟩
  obtain ⟨g, built⟩ := build_single realPath_pairOfFiles
    (fun _ => ⟨_, read_pairOfFiles, .inl ⟨_, scan_referringSource⟩⟩)
    referencesIn_pairOfFiles (.resolved answered) leaf
  obtain ⟨-, start, isStart, -, scans⟩ := build_scans ofPath_pairOfFiles rfl
    (Manifests.faithful_empty none pairOfFiles) (Prod.ext built rfl)
  cases realPath_pairOfFiles.symm.trans isStart
  obtain ⟨bytes, isRead, scanned⟩ := scans (by decide)
  cases read_pairOfFiles.symm.trans isRead
  obtain ⟨told, followed⟩ := scanned _ scan_referringSource
  have sorted : GraphPolicy.staticReferences [.static "./b.json"] = ["./b.json"] := by cbv
  have looked : ¬ plainPolicy.Skips "./b.json" := by
    unfold GraphPolicy.Skips
    decide
  refine ⟨g, built, sorted ▸ told, ?_⟩
  rcases followed "./b.json" (List.mem_singleton_self _) (by decide) looked with
    ⟨file, package, links, follows, there⟩ | ⟨tolerates, -⟩
  · cases answered.symm.trans follows.resolved
    exact there
  · obtain ⟨reason, lacking⟩ := tolerates.lacking
    cases answered.symm.trans lacking

/-- The same script with its extension in upper case. -/
def upperCase : Disk where
  root := .directory [("A.JS", .file ⟨referringSource, 0o644, 0⟩), ("b.json", .file ⟨[], 0o644, 0⟩)]
  current := .root
  now := 0

/-- A listing takes a file with its extension in upper case for a script, and it can be parsed and
refers to a data file that is there; but its closure is the file alone, and nothing is said. -/
theorem build_upperCase :
    ∃ f scan g, FunctionSource.ofPath upperCase Packing.plainSettings (.ofNames ["A.JS"]) =
        .ok (some f) ∧ f.runtime = .script ∧
      GraphPolicy.ofSettings Packing.plainSettings f.config = .ok plainPolicy ∧
      (((build plainPolicy f.entry) upperCase).run (.empty none)).1 = .ok g ∧
      upperCase.read f.entry = .ok referringSource ∧
      Script.scan (Utf8.decodeLossy referringSource) f.entry = .ok scan ∧
      .static "./b.json" ∈ scan.references ∧ Reference.isBuiltin "./b.json" = false ∧
      ¬ plainPolicy.Skips "./b.json" ∧ upperCase.isFile (.ofNames ["b.json"]) = true ∧
      g.nodes = [{ path := f.entry, isEntry := true }] ∧ g.warnings = [] := by
  have real : upperCase.realPath (.ofNames ["A.JS"]) = .ok (.ofNames ["A.JS"]) := by cbv
  have found : FunctionSource.ofPath upperCase Packing.plainSettings (.ofNames ["A.JS"]) =
      .ok (some ⟨"A", .ofNames ["A.JS"], .script, "js", {}⟩) := by cbv
  have built : ((build plainPolicy (.ofNames ["A.JS"])) upperCase).run (.empty none) =
      (.ok ⟨.ofNames ["A.JS"], [{ path := .ofNames ["A.JS"], isEntry := true }], [], [], [], []⟩,
        .empty none) := build_notScript real (by decide) _
  have looked : ¬ plainPolicy.Skips "./b.json" := by
    unfold GraphPolicy.Skips
    decide
  exact ⟨_, ⟨[.static "./b.json"], false⟩, _, found, rfl, rfl, congrArg Prod.fst built, by cbv,
    Script.scan_ok scan_referringSource (by decide), List.mem_singleton_self _, by decide, looked,
    by cbv, rfl, rfl⟩

end Graph

end FunctionArchive
