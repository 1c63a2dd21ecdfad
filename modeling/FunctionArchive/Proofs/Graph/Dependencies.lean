import FunctionArchive.Proofs.Graph.Account

/-!
# Which declared dependencies are shipped

A dependency that an entered package declares is shipped if the resolution of its name finds it:
the directory of that name in the nearest directory in which something stands for the name is
entered (`Graph.build_ships_dependency`). A warning that it is missing is right: nothing stands for
it at or above the package.

That the directory of the name is there is not enough. A package without a file that stands for it
is passed over, and so is every package that is named like a module of the run time
(`Graph.build_sample_events`).
-/

set_option autoImplicit false

namespace FunctionArchive

open Query (Yields)
open Resolution (Provides IsNearest packageIn startOf)

/-! ## Warnings -/

namespace GraphPolicy

variable (policy : GraphPolicy) (d : Disk) (boundary : Option Path)

/-- If a warning says that a dependency is missing, nothing stands for it at or above the manifest
that declares it. -/
def WarnsRightly : Warning → Prop
  | .undeclaredMissing name manifest => Reference.isRelative name = false →
    ∀ directory ∈ (startOf manifest).ancestors,
      ¬ Provides d boundary policy.extensions name directory
  | _ => True

variable {policy d boundary}

theorem follow_warnsRightly (reference : String) (requirer : Path) (declared : Bool) :
    Yields d boundary (policy.follow reference requirer declared) fun findings =>
      ∀ warning, .noted warning ∈ findings → policy.WarnsRightly d boundary warning := by
  unfold follow
  split
  · exact .pure (by simp)
  split
  · exact .pure (by simp)
  split
  · exact .pure (by simp)
  refine .bind (Resolution.resolve_alike d _ _ _).observing_yields fun outcome same => ?_
  generalize answered : (Resolution.resolve policy.extensions reference requirer).answer d boundary
    = answer at same
  cases same with
  | error fault =>
      cases fault with
      | missingDependency name origin =>
          refine .ite (.pure ?_) (.throw _)
          intro warning noted
          cases List.mem_singleton.mp noted
          obtain ⟨rfl, lacking⟩ := Resolution.resolve_missing requirer
            (Manifests.faithful_empty boundary d) rfl _ answered name origin rfl
          exact lacking
      | _ => exact .throw _
  | ok similar =>
      cases similar with
      | tolerated reason reason' =>
          refine .pure fun warning noted => ?_
          cases List.mem_singleton.mp noted
          trivial
      | same =>
          rename_i resolution
          cases resolution with
          | builtin => exact .pure (by simp)
          | optional reason =>
              refine .pure fun warning noted => ?_
              cases List.mem_singleton.mp noted
              trivial
          | resolved path package links =>
              cases package with
              | none => exact .pure (by simp)
              | some root => exact .bind (enter_yields root) fun _ _ => .pure (by simp)

theorem followFound_warnsRightly (file : Path) (found : Script.Reference) :
    Yields d boundary (policy.followFound file found) fun findings =>
      ∀ warning, .noted warning ∈ findings → policy.WarnsRightly d boundary warning := by
  cases found with
  | static reference => exact follow_warnsRightly reference file false
  | dynamic expression =>
      refine .pure fun warning noted => ?_
      cases List.mem_singleton.mp noted
      trivial

theorem followScript_warnsRightly (file : Path) (scan : Script.Scan) :
    Yields d boundary (policy.followScript file scan) fun findings =>
      ∀ warning, .noted warning ∈ findings → policy.WarnsRightly d boundary warning := by
  refine .bind (.mapM_all _ fun found _ => followFound_warnsRightly file found) fun found each => ?_
  refine .pure fun warning noted => ?_
  simp only [List.mem_append, List.mem_flatten, List.mem_singleton, reduceCtorEq, or_false] at noted
  rcases noted with note | ⟨findings, member, noted⟩
  · split at note
    · cases List.mem_singleton.mp note
      trivial
    · cases note
  · exact each findings member warning noted

theorem visit_warnsRightly (file : Path) :
    Yields d boundary (policy.visit file) fun findings =>
      ∀ warning, .noted warning ∈ findings → policy.WarnsRightly d boundary warning := by
  unfold visit
  split
  · exact .pure (by simp)
  · refine .bind (.askDisk fun _ _ => trivial) fun bytes _ => ?_
    split
    · exact followScript_warnsRightly file _
    · refine .ite (.pure fun warning noted => ?_) (.throw _)
      obtain rfl : warning = _ := by simpa using noted
      trivial
    · exact .throw _

end GraphPolicy

namespace Traversal

variable {policy : GraphPolicy} {d : Disk} {boundary : Option Path} {t : Traversal}

theorem perform_warnsRightly (job : GraphJob) :
    Yields d boundary (perform policy job) fun findings =>
      ∀ warning, .noted warning ∈ findings → policy.WarnsRightly d boundary warning := by
  cases job with
  | file path =>
      rw [perform]
      exact GraphPolicy.visit_warnsRightly path
  | declared package manifest =>
      rw [perform]
      exact GraphPolicy.follow_warnsRightly package manifest true

/-- All warnings of a run are right. -/
theorem drain_warnsRightly
    (right : ∀ warning ∈ t.graph.warnings, policy.WarnsRightly d boundary warning) :
    Yields d boundary (drain policy t) fun last =>
      ∀ warning ∈ last.graph.warnings, policy.WarnsRightly d boundary warning := by
  refine (drain_yields (fun t job rest right next => ?_) right).mono fun _ ended => ended.1
  refine (perform_warnsRightly job).mono fun findings found warning noted => ?_
  rw [warnings_addAll] at noted
  rcases List.mem_append.mp noted with before | later
  · refine right warning ?_
    rcases next?_eq_some next with ⟨_, _, -, -, rfl⟩ | ⟨_, _, _, -, -, -, rfl⟩ <;> exact before
  · exact found warning (GraphFinding.mem_warnings.mp later)

end Traversal

/-! ## Shipped dependencies -/

namespace Graph

section Shipped

variable {policy : GraphPolicy} {d : Disk} {boundary : Option Path}

theorem build_warnsRightly (entry : Path) :
    Yields d boundary (build policy entry) fun g =>
      ∀ warning ∈ g.warnings, policy.WarnsRightly d boundary warning := by
  refine .bind (.askDisk fun _ _ => trivial) fun start _ => ?_
  refine .bind .read ?_
  rintro _ rfl
  refine .bind (.bind (Traversal.drain_warnsRightly ?_) fun last right => ?_)
    fun g right => .pure right
  · simp [Traversal.warnings_meetFile, Traversal.begin]
  · refine .bind (GraphPolicy.addPackages_yields last.graph) fun g adds =>
      .pure fun warning noted => ?_
    exact right warning (adds.warnings ▸ noted)

/-- A declared dependency is shipped if the directory of its name is in the nearest directory in
which something stands for it. It is said to be missing only if nothing stands for it at or above
the package. -/
theorem build_ships_dependency {entry : Path} {known known' : Manifests} {g : Graph}
    (faithful : known.Faithful d) (built : ((build policy entry) d).run known = (.ok g, known'))
    {root : Path} (entered : root ∈ g.packages) {dependency : String}
    (declared : dependency ∈ d.dependenciesOf root)
    (notBuiltin : Reference.isBuiltin dependency = false)
    (notExternal : policy.external.covers dependency = false)
    (notIgnored : policy.ignored.covers dependency = false)
    (bare : Reference.isRelative dependency = false) :
    (∀ directory, IsNearest d known.boundary policy.extensions dependency root.ancestors directory →
      d.isDirectory (packageIn dependency directory) = true →
        ∃ real, d.realPath (packageIn dependency directory) = .ok real ∧ real ∈ g.packages) ∧
    (.undeclaredMissing dependency (root.child Manifest.fileName) ∈ g.warnings →
      ∀ directory ∈ root.ancestors,
        ¬ Provides d known.boundary policy.extensions dependency directory)
    := by
  obtain ⟨start, -, closed, inOrder⟩ := build_closure faithful built
  have inside := (closed.packages root).mp entered
  have fromRoot := inside.isRealDirectory.startOf_manifest
  refine ⟨fun directory isNearest there => ?_, fun warned => ?_⟩
  · have requested := GraphPolicy.InClosure.declares inside declared
    cases (inOrder _ inside).declarable dependency declared with
    | builtin provided => cases notBuiltin.symm.trans provided
    | external covered => cases notExternal.symm.trans covered
    | ignored covered => cases notIgnored.symm.trans covered
    | missing _ answered =>
        have missing := Resolution.resolve_missing (root.child Manifest.fileName)
          (Manifests.faithful_empty known.boundary d) rfl _ answered _ _ rfl
        rw [fromRoot] at missing
        exact absurd isNearest.provides (missing.2 bare directory isNearest.mem)
    | @resolved resolution answered =>
        have means := (Resolution.resolve_nearest (root.child Manifest.fileName) notBuiltin bare
          (Manifests.faithful_empty known.boundary d) rfl).value _ answered
        rw [fromRoot] at means
        cases means with
        | tolerated lacking => exact absurd isNearest.provides (lacking directory isNearest.mem)
        | nearest isNearest' stands real enters =>
            cases isNearest.unique isNearest'
            obtain ⟨package, rfl, found⟩ := enters there
            have follows : policy.Follows d known.boundary
                ⟨dependency, root.child Manifest.fileName⟩ _ (some package) _ :=
              ⟨notBuiltin, notExternal, notIgnored, answered⟩
            exact ⟨package, found, (closed.packages package).mpr (.enters requested follows)⟩
  · have right := (build_warnsRightly entry faithful rfl).value g (congrArg Prod.fst built) _ warned
    rw [← fromRoot]
    exact right bare

end Shipped

section Sample

open Sample (disk policy app package)

theorem isNearest_sample :
    IsNearest disk none [".json"] "q" (package "p").ancestors .root := by
  have above : (package "p").ancestors = [package "p", .ofNames ["node_modules"], .root] := by
    decide
  have notThere : disk.isDirectory ((package "p").child Resolution.packagesName) = false := by cbv
  have passed : (Path.ofNames ["node_modules"]).fileName? = some Resolution.packagesName := by
    decide
  refine ⟨[package "p", .ofNames ["node_modules"]], [], above, ?_, ?_⟩
  · exact ⟨by decide, Sample.packages_root ▸ Sample.installed, _, Sample.stands_q⟩
  · intro other member provides
    rcases List.mem_pair.mp member with rfl | rfl
    · cases notThere.symm.trans provides.there
    · exact provides.named passed

/-- The package that the sample declares and that is installed is shipped. -/
theorem build_ships_dependency_sample :
    ∃ g known, ((build policy app) disk).run (.empty none) = (.ok g, known) ∧
      package "p" ∈ g.packages ∧ package "q" ∈ g.packages := by
  obtain ⟨g, known, built⟩ := Sample.build_ok
  have entered := (Sample.mem_packages built (package "p")).mpr (.inl rfl)
  have declared : "q" ∈ disk.dependenciesOf (package "p") := by simp [Sample.dependenciesOf_p]
  have packaged : packageIn "q" .root = package "q" := by decide
  have there : disk.isDirectory (package "q") = true := by cbv
  have real : disk.realPath (package "q") = .ok (package "q") := by cbv
  obtain ⟨ships, -⟩ := build_ships_dependency (Manifests.faithful_empty none disk) built entered
    declared (by decide) (by cbv) (by cbv) (by cbv)
  obtain ⟨real', found, shipped⟩ := ships .root isNearest_sample (packaged.symm ▸ there)
  rw [packaged] at found
  cases real.symm.trans found
  exact ⟨g, known, built, entered, shipped⟩

/-- A dependency with the name of a module of the run time is not shipped although it is declared
and installed. -/
theorem build_sample_events :
    ∃ g known, ((build policy app) disk).run (.empty none) = (.ok g, known) ∧
      package "p" ∈ g.packages ∧ "events" ∈ disk.dependenciesOf (package "p") ∧
      disk.isDirectory (packageIn "events" .root) = true ∧
      ∀ directory ∈ (package "p").ancestors, ∀ real,
        disk.realPath (packageIn "events" directory) = .ok real → real ∉ g.packages := by
  obtain ⟨g, known, built⟩ := Sample.build_ok
  have above : (package "p").ancestors = [package "p", .ofNames ["node_modules"], .root] := by
    decide
  have packaged : packageIn "events" .root = package "events" := by decide
  have there : disk.isDirectory (package "events") = true := by cbv
  have declared : "events" ∈ disk.dependenciesOf (package "p") := by
    simp [Sample.dependenciesOf_p]
  refine ⟨g, known, built, (Sample.mem_packages built _).mpr (.inl rfl), declared,
    packaged.symm ▸ there, fun directory member real found shipped => ?_⟩
  have nearby : disk.realPath (package "events") = .ok (package "events") := by cbv
  have insideIs : packageIn "events" (package "p") =
      .ofNames ["node_modules", "p", "node_modules", "events"] := by decide
  have besideIs : packageIn "events" (.ofNames ["node_modules"]) =
      .ofNames ["node_modules", "node_modules", "events"] := by decide
  have inside : disk.realPath (.ofNames ["node_modules", "p", "node_modules", "events"]) =
      .error .notFound := by cbv
  have beside : disk.realPath (.ofNames ["node_modules", "node_modules", "events"]) =
      .error .notFound := by cbv
  rw [above] at member
  simp only [List.mem_cons, List.not_mem_nil, or_false] at member
  rcases member with rfl | rfl | rfl
  · rw [insideIs] at found
    cases inside.symm.trans found
  · rw [besideIs] at found
    cases beside.symm.trans found
  · rw [packaged] at found
    cases nearby.symm.trans found
    have listed := (Sample.mem_packages built _).mp shipped
    simp [package, Path.ofNames] at listed

end Sample

end Graph

end FunctionArchive
