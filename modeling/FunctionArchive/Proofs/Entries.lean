import FunctionArchive.Proofs.Bundling
import FunctionArchive.Proofs.Graph.Files
import FunctionArchive.Proofs.Graph.Policy
import FunctionArchive.Proofs.World

/-!
# Where the entries of a bundle come from

A bundle holds a single file, or a closure, or what an engine made of a script together with the
closure of the packages that it left outside (`Bundle.Laid`). The closures are those of a disk that
stays the same while the bundle is made, so their links stand and their files are at plain paths
(`make_laid`).
-/

set_option autoImplicit false

namespace FunctionArchive

open Work (Ends)
open Query (Yields)

/-! ## What engines report -/

/-- An engine reports no module that leads upwards out of a directory of packages. -/
def Engine.ReportsDirect (e : Engine) : Prop :=
  ∀ (r : EngineRequest) (d d' : Disk) (result : EngineResult),
    (e.bundle r).run d = (.ok result, d') →
      ∀ name ∈ result.externalModules, Reference.IsDirect name

theorem Engine.ReportsDirect.bundleScript {e : Engine} (reports : e.ReportsDirect) (entry : Path)
    (config : FunctionConfig) :
    Ends (fun _ => True) (e.bundleScript entry config)
      (fun made _ => ∀ name ∈ made.2.externalModules, Reference.IsDirect name)
      (fun _ _ => True) := by
  have reported : Ends (fun _ => True)
      (e.bundle ⟨entry, config.externalModules, config.ignoredModules, stagingDirectory⟩)
      (fun result _ => ∀ name ∈ result.externalModules, Reference.IsDirect name)
      (fun _ _ => True) := by
    intro d _
    rcases run : (e.bundle _).run d with ⟨outcome, d'⟩
    refine ⟨?_, fun _ _ => trivial⟩
    rintro result rfl
    exact reports _ d d' result run
  exact bundleScript_result reported

/-! ## Bundles -/

namespace Bundle

open Action (Gives)

variable {s : Settings} {f : FunctionSource} {d : Disk} {limit : Option Path} {b : Bundle}

/-- How the entries of a bundle come about: from a single file, from a closure, or from what an
engine made and the closure of the packages that it left outside. -/
inductive Laid (d : Disk) (f : FunctionSource) (b : Bundle) : Prop
  | single {strategy : Strategy} (files : b.files = (ofSingleFile strategy f).files)
  | graph {g : Graph} {start : Path} (standing : g.Standing d) (starts : start ∈ g.files)
      (isReal : d.IsReal start) (base : b.base = (ofGraph f.runtime g).base)
      (files : b.files = (ofGraph f.runtime g).files)
  | engine {entry : Path} {bundled : List UInt8} {warnings : List String}
      {packages : Option Graph} (byEngine : b.strategy = .engine)
      (found : d.realPath f.entry = .ok entry)
      (standing : ∀ g, packages = some g → g.Standing d)
      (base : b.base =
        (ofEngine f.runtime (entry.withExtension "js") bundled warnings packages).base)
      (files : b.files =
        (ofEngine f.runtime (entry.withExtension "js") bundled warnings packages).files)

theorem Laid.recovered (laid : Laid d f b) (details : Option (List String)) :
    Laid d f { b with recovered := details } := by
  cases laid with
  | single files => exact .single files
  | graph standing starts isReal base files => exact .graph standing starts isReal base files
  | engine byEngine found standing base files => exact .engine byEngine found standing base files

theorem needsEngine_yields (f : FunctionSource) :
    Yields d limit (Selection.needsEngine f) fun _ => True := by
  have inModule : Yields d limit (Selection.inModulePackage f.entry) fun _ => True := by
    unfold Selection.inModulePackage
    split
    · exact .pure trivial
    · exact .bind (Manifests.find_alike d _).yields fun _ _ => .pure trivial
  refine .ite (.pure trivial) (.bind inModule fun isModule _ => .ite (.pure trivial) ?_)
  exact .bind (.askDisk fun _ _ => trivial) fun _ _ => .pure trivial

theorem choose_yields (f : FunctionSource) :
    Yields d limit (Selection.choose f) fun _ => True := by
  unfold Selection.choose
  split
  · exact .pure trivial
  · exact .bind (needsEngine_yields f) fun _ _ => .pure trivial

section Make

variable (contained : s.engine.Contained) (reports : s.engine.ReportsDirect)
  (below : d.StaysBelow s.extensions)

include contained reports below

theorem withStrategy_laid (strategy : Strategy) :
    Gives d limit (withStrategy s f strategy) (Laid d f) := by
  cases strategy with
  | passthrough => exact .pure (.single rfl)
  | binary => exact .pure (.single rfl)
  | graph =>
      refine .bind (.ofOutcome fun policy made =>
        (GraphPolicy.ofSettings_ok_iff.mp made).extensions) fun policy same => ?_
      rw [← same] at below
      have standing : Yields d limit (Graph.build policy f.entry) (Graph.Standing d) :=
        Graph.build_standing below f.entry
      have built := standing.and (Graph.build_yields f.entry)
      refine .bind (.query built) fun g ⟨standing, start, found, closed⟩ => .pure ?_
      exact .graph standing ((closed.files start).mpr (.inl .start)) ⟨_, found⟩ rfl rfl
  | engine =>
      have ends := (Engine.bundleScript_ends (d := d) contained f.entry f.config).and
        (reports.bundleScript f.entry f.config)
      have task : Gives d limit (Action.task (s.engine.bundleScript f.entry f.config))
          fun made => ∀ name ∈ made.2.externalModules, Reference.IsDirect name :=
        .task ((ends.weaken fun _ same => ⟨same, trivial⟩).mono (fun _ _ => id) fun _ _ => And.left)
      refine .bind task fun made direct => ?_
      obtain ⟨bundled, result⟩ := made
      refine .bind (.ofOutcome fun _ _ => trivial) fun external _ => ?_
      refine .bind (.ofOutcome fun _ _ => trivial) fun ignored _ => ?_
      have closing {packages : Option Graph} (standing : ∀ g, packages = some g → g.Standing d) :
          Gives d limit
            (do
              let entry ← Action.query (Resolution.realPath f.entry)
              return ofEngine f.runtime (entry.withExtension "js") bundled result.warnings packages)
            (Laid d f) :=
        .bind (.query (.askDisk fun entry found => found)) fun entry found =>
          .pure (.engine rfl found standing rfl rfl)
      dsimp only
      split
      · refine .bind (.pure rfl) ?_
        rintro _ rfl
        exact closing nofun
      · refine .bind (.ofOutcome fun policy made =>
          (GraphPolicy.ofSettings_ok_iff.mp made).extensions) fun policy same => ?_
        rw [← same] at below
        have shipped : ∀ name ∈ toShip external ignored result.externalModules,
            Reference.IsDirect name := fun name member =>
              direct name (List.mem_of_mem_filter member)
        have closure : Gives d limit (some <$> Action.query
            (Graph.buildPackages policy (toShip external ignored result.externalModules) f.entry))
            fun packages => ∀ g, packages = some g → g.Standing d := by
          refine .map ((Gives.query (Graph.buildPackages_standing below shipped f.entry)).mono ?_)
          rintro g standing _ ⟨⟩
          exact standing
        exact .bind closure fun packages standing => closing standing

theorem recover_laid (failure : Fault) (fallback : Strategy) :
    Gives d limit (recover s f failure fallback) (Laid d f) := by
  refine .bind (.note _ _) fun _ _ => ?_
  refine .tryCatch (.bind (withStrategy_laid contained reports below fallback) fun b laid => ?_)
    fun _ => .throw failure
  exact .pure (laid.recovered _)

theorem withSelection_laid (selection : Selection) :
    Gives d limit (withSelection s f selection) (Laid d f) := by
  unfold withSelection
  split
  · exact withStrategy_laid contained reports below _
  · exact .tryCatch (withStrategy_laid contained reports below _) fun failure =>
      recover_laid contained reports below failure _

theorem make_laid : Gives d limit (make s f) (Laid d f) := by
  refine .bind (.query (choose_yields f)) fun selection _ => ?_
  refine .bind (withSelection_laid contained reports below selection) fun b laid => ?_
  exact .bind (.forIn b.warnings fun warning => .note _ _) fun _ _ => .pure laid

end Make

end Bundle

end FunctionArchive
