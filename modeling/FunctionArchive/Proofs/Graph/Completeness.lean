import FunctionArchive.Proofs.Graph.Buildable

/-!
# How far a closure is closed

A closure is closed under the references of the scripts that were reached: where such a reference
leads belongs to it. The scripts that only come with a package are shipped without being scanned.
What they refer to belongs to the closure in two other ways (`GraphPolicy.Covered`): because a
package that is entered brings it, or because the package that is entered declares it as a
dependency and nothing is installed deeper inside. A built closure keeps these promises
(`Graph.build_complete`). It makes no other: a script that comes with a package and refers to what
no one declares has a reference that leads out of the closure (`Graph.build_sample_extra`).
-/

set_option autoImplicit false

namespace FunctionArchive

open Resolution (packagesName startOf)

namespace GraphPolicy

variable (policy : GraphPolicy) (d : Disk) (boundary : Option Path)

/-- A package should bring a file along: the file lies in its directory, or in one that it needs
beside it and that is there, outside of what is installed inside and not excluded. -/
inductive Brings (root file : Path) : Prop
  | own {exclusion : Exclusion} {names : List String}
      (rules : policy.exclusion.withPatterns
        (Package.omitted (knownName d root) (knownVersion d root)) = .ok exclusion)
      (lies : file = .ofNames (root.names ++ names)) (outside : packagesName ∉ names)
      (kept : exclusion.excludes ⟨false, names⟩ = false)
  | beside {name : String} {names : List String}
      (needed : name ∈ Package.neededBeside (knownName d root) (knownVersion d root))
      (there : d.isDirectory (Path.normalize d.current (root.child name)) = true)
      (lies : file = .ofNames ((Path.normalize d.current (root.child name)).names ++ names))
      (outside : packagesName ∉ names)
      (kept : policy.exclusion.excludes ⟨false, names⟩ = false)

/-- Why the file to which a reference in a script leads should belong to the closure: the script
was reached itself; a package that is entered brings the file; or a package that is entered
declares the reference as a dependency, and the script lies in directories below it in which
nothing is installed. -/
inductive Covered (start script : Path) (reference : String) (target : Path) : Prop
  | reached (inside : policy.InClosure d boundary start (.file script))
  | brought {root : Path} (entered : policy.InClosure d boundary start (.package root))
      (brings : policy.Brings d root target)
  | declared {root : Path} {between : List Path}
      (entered : policy.InClosure d boundary start (.package root))
      (declares : reference ∈ d.dependenciesOf root)
      (bare : Reference.isRelative reference = false)
      (above : (startOf script).ancestors = between ++ root.ancestors)
      (nothing : ∀ directory ∈ between, d.isDirectory (directory.child packagesName) = false)

variable {policy d boundary}

/-! ## What packages bring -/

/-- A directory that can be listed has every file in its list that stands below it outside of what
is installed there. -/
theorem lists_of_lies {exclusion : Exclusion} {front names : List String} {f : Disk.File}
    (isDirectory : d.isDirectory (.ofNames front) = true) (down : Disk.LeadsDown front)
    (there : d.root.at? (front ++ names) = some (.file f))
    (listed : ∃ found, d.filesBelow (· == packagesName) (.ofNames front) = .ok found)
    (outside : packagesName ∉ names) (kept : exclusion.excludes ⟨false, names⟩ = false) :
    Lists d exclusion (.ofNames front) (.ofNames (front ++ names)) := by
  obtain ⟨found, walked⟩ := listed
  obtain ⟨node, here, below⟩ :=
    Option.bind_eq_some_iff.mp (Disk.Node.at?_append _ front names ▸ there)
  have notLink : ∀ target, node ≠ .link target := by
    rintro target rfl
    cases names <;> cases below
  have leads := Disk.find_of_at? here down notLink
  cases node with
  | link target => exact absurd rfl (notLink target)
  | file f => simp [Disk.isDirectory, leads] at isDirectory
  | directory entries =>
      refine ⟨found, names, walked, ?_, kept, rfl⟩
      refine Disk.mem_filesBelow leads walked there fun name member => ?_
      have other : name ≠ packagesName := fun same => outside (same ▸ member)
      simpa using other

/-- What a package should bring along it brings, if its directories can be listed. -/
theorem Brings.ships {root file : Path} (brings : policy.Brings d root file)
    (isReal : d.IsRealDirectory root) (listable : Listable d root) (isFile : d.IsRealFile file) :
    policy.Ships d root file := by
  obtain ⟨-, down, f, there⟩ := isFile
  cases brings with
  | own rules lies outside kept =>
      subst lies
      obtain ⟨entries, leads⟩ := isReal.find
      obtain ⟨absolute, front⟩ := root
      cases isReal.absolute
      exact .own rules (lists_of_lies (by simp [Disk.isDirectory, Path.ofNames, leads])
        (Disk.LeadsDown.of_append_left down) there listable.own outside kept)
  | @beside name names needed isDirectory lies outside kept =>
      subst lies
      exact .beside needed isDirectory (lists_of_lies isDirectory
        (Disk.LeadsDown.of_append_left down) there (listable.beside name needed isDirectory) outside
          kept)

/-! ## What packages declare -/

/-- A declared dependency leads to the same file from every script of the package above which, up
to the package, nothing is installed. -/
theorem declared_inClosure {start root script target : Path} {reference : String}
    {between : List Path} {package : Option Path} {links : List Link}
    (entered : policy.InClosure d boundary start (.package root))
    (inOrder : policy.Enterable d boundary root) (declares : reference ∈ d.dependenciesOf root)
    (bare : Reference.isRelative reference = false)
    (above : (startOf script).ancestors = between ++ root.ancestors)
    (nothing : ∀ directory ∈ between, d.isDirectory (directory.child packagesName) = false)
    (follows : policy.Follows d boundary ⟨reference, script⟩ target package links) :
    policy.InClosure d boundary start (.file target) := by
  have fromRoot := entered.isRealDirectory.startOf_manifest
  have empty := Manifests.faithful_empty boundary d
  have means := (Resolution.resolve_nearest script follows.notBuiltin bare empty rfl).value _
    follows.resolved
  rw [above] at means
  cases means with
  | nearest isNearest stands real _ =>
      have isNearest := isNearest.of_append fun directory member provides => by
        cases (nothing directory member).symm.trans provides.there
      cases inOrder.declarable reference declares with
      | builtin provided => cases follows.notBuiltin.symm.trans provided
      | external covered => cases follows.notExternal.symm.trans covered
      | ignored covered => cases follows.notIgnored.symm.trans covered
      | missing _ answered =>
          have missing := Resolution.resolve_missing _ empty rfl _ answered _ _ rfl
          rw [fromRoot] at missing
          exact absurd isNearest.provides (missing.2 bare _ isNearest.mem)
      | @resolved resolution answered =>
          have means' := (Resolution.resolve_nearest _ follows.notBuiltin bare empty rfl).value _
            answered
          rw [fromRoot] at means'
          cases means' with
          | tolerated lacking => exact absurd isNearest.provides (lacking _ isNearest.mem)
          | nearest isNearest' stands' real' _ =>
              cases isNearest.unique isNearest'
              cases stands.symm.trans stands'
              cases real.symm.trans real'
              have follows' : policy.Follows d boundary
                  ⟨reference, root.child Manifest.fileName⟩ target _ _ :=
                ⟨follows.notBuiltin, follows.notExternal, follows.notIgnored, answered⟩
              exact .leadsTo (.declares entered declares) follows'

end GraphPolicy

namespace Graph

section Complete

variable {policy : GraphPolicy} {d : Disk}

/-- Where the reference of a script leads belongs to the closure, if the script was reached, or if
an entered package brings the file, or if one declares the reference and holds the script. -/
theorem build_complete {entry : Path} {known known' : Manifests} {g : Graph}
    (faithful : known.Faithful d) (built : ((build policy entry) d).run known = (.ok g, known')) :
    ∃ start, d.realPath entry = .ok start ∧ ∀ script ∈ g.files, ∀ reference,
      .static reference ∈ d.referencesIn script → ∀ target package links,
        policy.Follows d known.boundary ⟨reference, script⟩ target package links →
          policy.Covered d known.boundary start script reference target → target ∈ g.files := by
  obtain ⟨start, found, closed, inOrder⟩ := build_closure faithful built
  refine ⟨start, found, fun script _ reference refers target package links follows covered => ?_⟩
  rw [closed.files]
  cases covered with
  | reached inside => exact .inl (.leadsTo (.refers inside refers) follows)
  | @brought root entered brings =>
      have isFile := (Resolution.places_of_resolved _ follows.resolved).1
      exact .inr ⟨root, entered, brings.ships entered.isRealDirectory (inOrder _ entered).listable
        isFile⟩
  | declared entered declares bare above nothing =>
      exact .inl (GraphPolicy.declared_inClosure entered (inOrder _ entered) declares bare above
        nothing follows)

end Complete

/-! ## A script that only comes with a package -/

section Sample

open Sample (disk policy app package index)

/-- The script that comes with the package. -/
def extra : Path := .ofNames ["node_modules", "p", "extra.js"]

theorem referencesIn_extra : disk.referencesIn extra = [.static "../events/index.json"] := by
  have isScript : Script.isScript extra = true := by decide
  have read : disk.read extra = .ok Sample.extraSource := by cbv
  have scanned : (Script.scan (Utf8.decodeLossy Sample.extraSource) extra).toOption =
      some ⟨[.static "../events/index.json"], false⟩ := by decide +kernel
  cases scan : Script.scan (Utf8.decodeLossy Sample.extraSource) extra with
  | error fault => simp [scan, Except.toOption] at scanned
  | ok found =>
      rw [scan] at scanned
      simp [Disk.referencesIn, isScript, read, scan, Option.some.inj scanned]

theorem resolve_extra :
    (Resolution.resolve [".json"] "../events/index.json" extra).answer disk none =
    .ok (.resolved (index "events") none []) := by
  have start : startOf extra = package "p" := by decide
  have spelled : Path.normalize disk.current ((package "p").child "../events/index.json") =
      index "events" := by decide
  have isFile : disk.isFile (index "events") = true := by cbv
  have stands : (Resolution.pathFile [".json"] (index "events")).answer disk none =
      .ok (some (index "events")) := by
    simp [Resolution.pathFile, Resolution.file, Resolution.firstFile, Query.answer, isFile]
  have real : disk.realPath (index "events") = .ok (index "events") := by cbv
  have crossed : (Resolution.linksTo (package "p") (index "events")).answer disk none = .ok [] := by
    have shared : (package "p").ancestors.find? (index "events").isWithin =
        some (.ofNames ["node_modules"]) := by decide
    have below : (index "events").relativeTo? (.ofNames ["node_modules"]) =
        some ["events", "index.json"] := by decide
    simp only [Resolution.linksTo, shared, below, Option.getD_some]
    cbv
  have standsHere : (Resolution.pathFile [".json"] (Path.normalize disk.current
      ((startOf extra).child "../events/index.json"))).answer disk none =
        .ok (some (index "events")) := by
    rw [start, spelled]
    exact stands
  exact Resolution.resolve_relative (by decide) (by cbv) standsHere real
    (start ▸ crossed)

theorem follows_extra :
    policy.Follows disk none ⟨"../events/index.json", extra⟩ (index "events") none [] :=
  ⟨by decide, by cbv, by cbv, resolve_extra⟩

/-- What the package brings that is required. -/
theorem ships_extra : policy.Ships disk (package "p") extra := by
  have nothing : Package.omitted "" none = [] := by decide
  have rules : policy.exclusion.withPatterns (Package.omitted
      (GraphPolicy.knownName disk (package "p")) (GraphPolicy.knownVersion disk (package "p"))) =
        .ok policy.exclusion := by
    rw [Sample.known_p.1, Sample.known_p.2, nothing]
    rfl
  exact .own rules ⟨_, ["extra.js"], Sample.filesBelow_p, by simp, by decide, rfl⟩

/-- The files that the entered packages bring lie in their own directories. -/
theorem not_ships_events {name : String} (known : GraphPolicy.knownName disk (package name) = "" ∧
    GraphPolicy.knownVersion disk (package name) = none) (other : name ≠ "events") :
    ¬ policy.Ships disk (package name) (index "events") := by
  have nothing : Package.neededBeside "" none = [] := by decide
  rintro (⟨-, _, names, -, -, -, same⟩ | ⟨needed, -, -⟩)
  · simp only [index, package, Path.ofNames, List.cons_append, List.nil_append, Path.mk.injEq,
      List.cons.injEq, true_and] at same
    exact other same.1.symm
  · rw [known.1, known.2, nothing] at needed
    cases needed

/-- A reference that a script of an entered package makes leads to a file that does not belong to
the closure, although the script does: no package that is entered has the file, and none declares
it. -/
theorem build_sample_extra :
    ∃ g known, ((build policy app) disk).run (.empty none) = (.ok g, known) ∧ extra ∈ g.files ∧
      .static "../events/index.json" ∈ disk.referencesIn extra ∧
      policy.Follows disk none ⟨"../events/index.json", extra⟩ (index "events") none [] ∧
      index "events" ∉ g.files := by
  obtain ⟨g, known, built⟩ := Sample.build_ok
  have closed := Sample.closed built
  refine ⟨g, known, built, ?_, by simp [referencesIn_extra], follows_extra, fun member => ?_⟩
  · exact (closed.files extra).mpr (.inr ⟨package "p", Sample.entered_p, ships_extra⟩)
  · rcases (closed.files _).mp member with inside | ⟨root, entered, ships⟩
    · have listed := Sample.inClosure inside
      simp [index, app, Path.ofNames] at listed
    · have listed : root = package "p" ∨ root = package "q" := by
        simpa using Sample.inClosure entered
      rcases listed with rfl | rfl
      · exact not_ships_events Sample.known_p (by decide) ships
      · exact not_ships_events Sample.known_q (by decide) ships

/-- The file to which the script itself refers belongs to the closure. -/
theorem build_complete_sample :
    ∃ g known, ((build policy app) disk).run (.empty none) = (.ok g, known) ∧
      index "p" ∈ g.files := by
  obtain ⟨g, known, built⟩ := Sample.build_ok
  obtain ⟨start, found, complete⟩ := build_complete (Manifests.faithful_empty none disk) built
  cases Sample.realPath_app.symm.trans found
  have follows : policy.Follows disk none ⟨"p", app⟩ (index "p") (some (package "p")) [] :=
    ⟨by decide, by cbv, by cbv, Sample.resolve_p⟩
  refine ⟨g, known, built, complete app ?_ "p" ?_ _ _ _ follows (.reached .start)⟩
  · exact ((Sample.closed built).files app).mpr (.inl .start)
  · simp [Sample.referencesIn_app Sample.read_app]

end Sample

end Graph

end FunctionArchive
