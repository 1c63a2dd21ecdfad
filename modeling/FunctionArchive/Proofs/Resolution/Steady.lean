import FunctionArchive.Proofs.Manifest.Answer
import FunctionArchive.Resolution

/-!
# Resolving does not depend on what is known

What a reference means is settled by the disk: whatever two runs have learnt about manifests
before, `resolve` gives them the same answer (`resolve_alike`). One thing shows through, the reason
for which a missing package is tolerated, since it names a manifest by the spelling under which it
was found first; answers are therefore compared up to `Similar`. The proof follows the definitions
from the single file to the search through installed packages: each look-up is a steady question.

What a reference leads to is named by real paths (`resolve_yields`), which stand on the disk and so
are finitely many.
-/

set_option autoImplicit false

namespace FunctionArchive

open Query (Steady Alike Yields)

/-- Manifests in two spellings of a directory have two spellings of one path. -/
theorem Manifest.Respells.path {m m' : Manifest} (respells : m.Respells m') :
    m.path.same m'.path = true :=
  Path.child_same (by decide) respells.directory

/-- The same reason, which may spell the manifest that it names in another way. -/
inductive Tolerance.Respells : Tolerance → Tolerance → Prop
  | optionalDependency {manifest manifest' : Path} (alike : manifest.same manifest' = true) :
      Respells (.optionalDependency manifest) (.optionalDependency manifest')
  | optionalPeer {manifest manifest' : Path} (alike : manifest.same manifest' = true) :
      Respells (.optionalPeer manifest) (.optionalPeer manifest')
  | knownPackage (package : String) : Respells (.knownPackage package) (.knownPackage package)

namespace Resolution

variable (d : Disk)

theorem normalized_steady (path : Path) : Steady d (normalized path) :=
  .andThen .read fun _ => .pure rfl

theorem realPath_steady (path : Path) : Steady d (realPath path) := .ask _

theorem linksFrom_steady (names : List String) (directory : Path) :
    Steady d (linksFrom directory names) := by
  induction names generalizing directory with
  | nil => exact .pure rfl
  | cons name rest ih =>
      refine .andThen (.test _) fun isLink => ?_
      cases isLink with
      | false => exact ih _
      | true =>
          exact .andThen (realPath_steady d _) fun target => .andThen (ih target) fun _ => .pure rfl

theorem linksTo_steady (directory path : Path) : Steady d (linksTo directory path) := by
  unfold linksTo
  split
  · exact .pure rfl
  · exact linksFrom_steady d _ _

theorem firstFile_steady (paths : List Path) : Steady d (firstFile paths) :=
  .andThen .read fun _ => .pure rfl

variable (extensions : List String)

theorem file_steady (path : Path) : Steady d (file extensions path) := firstFile_steady d _

theorem index_steady (directory : Path) : Steady d (index extensions directory) :=
  firstFile_steady d _

theorem mainFile_steady (directory : Path) : Steady d (mainFile extensions directory) := by
  refine .andLoad (fun m m' related => ?_) fun m => ?_
  · rw [Manifest.bind_eq_of_matches related _ fun _ _ => rfl]
  · split
    · exact .pure rfl
    · refine .andThen (normalized_steady d _) fun path =>
        .andThen (file_steady d extensions path) ?_
      rintro (_ | found)
      · exact index_steady d extensions path
      · exact .pure rfl

theorem directoryFile_steady (directory : Path) :
    Steady d (directoryFile extensions directory) := by
  refine .andThen (.test _) fun isDirectory => ?_
  cases isDirectory with
  | false => exact .pure rfl
  | true =>
      refine .andThen (mainFile_steady d extensions directory) ?_
      rintro (_ | found)
      · exact index_steady d extensions directory
      · exact .pure rfl

theorem pathFile_steady (path : Path) : Steady d (pathFile extensions path) := by
  refine .andThen (file_steady d extensions path) ?_
  rintro (_ | found)
  · exact directoryFile_steady d extensions path
  · exact .pure rfl

theorem exported_steady (package : Path) (reference : String) :
    Steady d (exported package reference) := by
  refine .andThen (.test _) fun isDirectory => ?_
  cases isDirectory with
  | false => exact .pure rfl
  | true =>
      refine .andLoad (fun m m' related => ?_) fun m => ?_
      · rw [Manifest.bind_eq_of_matches related _ fun _ _ => rfl]
      · split
        · exact .pure rfl
        · exact .andThen (normalized_steady d _) fun _ => firstFile_steady d _

theorem installedIn_steady (packages : Path) (reference : String) :
    Steady d (installedIn extensions packages reference) := by
  refine .andThen (exported_steady d _ reference) ?_
  rintro (_ | found)
  · exact pathFile_steady d extensions _
  · exact .pure rfl

theorem installedNext_steady (reference : String) (directories : List Path) :
    Steady d (installedNext extensions reference directories) := by
  induction directories with
  | nil => exact .pure rfl
  | cons directory rest ih =>
      refine .andThen (.test _) fun isDirectory => ?_
      split
      · exact ih
      · refine .andThen (installedIn_steady d extensions _ reference) ?_
        rintro (_ | path)
        · exact ih
        · refine .andThen (.test _) fun isPackage => ?_
          cases isPackage with
          | false => exact .pure rfl
          | true => exact .andThen (realPath_steady d _) fun _ => .pure rfl

theorem installed_steady (reference : String) (directory : Path) :
    Steady d (installed extensions reference directory) := installedNext_steady d extensions _ _

/-- The same meaning: the same resolution, or a missing reference that is tolerated for the same
reason. A reason may name the manifest that gives it, and so shows how its directory was spelled. -/
inductive Similar : Resolution → Resolution → Prop
  | same (resolution : Resolution) : Similar resolution resolution
  | tolerated (reason reason' : Tolerance) (respells : reason.Respells reason') :
      Similar (.optional reason) (.optional reason')

theorem tolerance_alike (package : String) (directory : Path) :
    Alike (Option.Rel Tolerance.Respells) d (tolerance package directory)
      (tolerance package directory) := by
  refine .bind (Manifests.find_alike d directory) fun m m' related => ?_
  cases related with
  | none => exact .pure .none
  | @some first second respells =>
      have path := respells.path
      obtain ⟨matched, -⟩ := respells
      rw [Manifest.Matches] at matched
      generalize isFirst : first.directory = directory at matched
      subst matched
      refine .ite (.pure (.some (.optionalDependency path))) ?_
      refine .ite (.pure (.some (.optionalPeer path))) ?_
      dsimp only
      cases second.name with
      | none => exact .pure .none
      | some name => exact .ite (.pure (.some (.knownPackage _))) (.pure .none)

theorem resolve_alike (reference : String) (requirer : Path) :
    Alike Similar d (resolve extensions reference requirer)
      (resolve extensions reference requirer) := by
  unfold resolve
  split
  · exact .pure (.same _)
  · refine .ite ?_ ?_
    · refine .andThen (normalized_steady d _) fun path => ?_
      refine .andThen (pathFile_steady d extensions path) ?_
      rintro (_ | found)
      · exact .throw _
      · exact .andThen (realPath_steady d found) fun _ =>
          .andThen (linksTo_steady d _ found) fun _ => .pure (.same _)
    · refine .andThen (installed_steady d extensions reference _) ?_
      rintro (_ | found)
      · refine .bind (tolerance_alike d _ _) fun reason reason' related => ?_
        cases related with
        | none => exact .throw _
        | some respells => exact .pure (.tolerated _ _ respells)
      · exact .andThen (realPath_steady d found.path) fun _ =>
          .andThen (linksTo_steady d _ found.path) fun _ => .pure (.same _)

end Resolution

/-! ## Real paths -/

/-- A real path is where some path leads. -/
def Disk.IsReal (d : Disk) (real : Path) : Prop := ∃ path, d.realPath path = .ok real

theorem Disk.IsReal.mem_allPaths {d : Disk} {real : Path} (isReal : d.IsReal real) :
    real ∈ d.allPaths := by
  obtain ⟨path, found⟩ := isReal
  exact realPath_mem_allPaths found

namespace Resolution

variable {d : Disk} {limit : Option Path} (extensions : List String)

theorem normalized_yields (path : Path) :
    Yields d limit (normalized path) (· = Path.normalize d.current path) := by
  refine .bind .read ?_
  rintro _ rfl
  exact .pure rfl

theorem realPath_yields (path : Path) : Yields d limit (realPath path) d.IsReal :=
  .askDisk fun _ found => ⟨path, found⟩

/-- A package that was found is named by a real path. -/
theorem installedNext_yields (reference : String) (directories : List Path) :
    Yields d limit (installedNext extensions reference directories) fun found =>
      ∀ place root, found = some place → place.package = some root → d.IsReal root := by
  induction directories with
  | nil => exact .pure nofun
  | cons directory rest ih =>
      refine .bind (.test _) fun isDirectory _ => ?_
      split
      · exact ih
      · refine .bind (installedIn_steady d extensions _ reference).yields ?_
        rintro (_ | path) -
        · exact ih
        · refine .bind (.test _) fun isPackage _ => ?_
          cases isPackage with
          | false =>
              refine .pure ?_
              rintro place root ⟨⟩ ⟨⟩
          | true =>
              refine .bind (realPath_yields _) fun real isReal => .pure ?_
              rintro place root ⟨⟩ ⟨⟩
              exact isReal

/-- The file that a reference leads to and its package are named by real paths. -/
theorem resolve_yields (reference : String) (requirer : Path) :
    Yields d limit (resolve extensions reference requirer) fun resolution =>
      ∀ file package links, resolution = .resolved file package links →
        d.IsReal file ∧ ∀ root, package = some root → d.IsReal root := by
  unfold resolve
  split
  · exact .pure nofun
  · refine .ite ?_ ?_
    · refine .bind (normalized_steady d _).yields fun path _ => ?_
      refine .bind (pathFile_steady d extensions path).yields ?_
      rintro (_ | found) -
      · exact .throw _
      · refine .bind (realPath_yields found) fun real isReal => ?_
        refine .bind (linksTo_steady d _ found).yields fun links _ => .pure ?_
        rintro _ _ _ ⟨⟩
        exact ⟨isReal, nofun⟩
    · refine .bind (installedNext_yields extensions reference _) ?_
      rintro (_ | found) package
      · refine .bind (tolerance_alike d _ _).yields ?_
        rintro (_ | reason) -
        · exact .throw _
        · exact .pure nofun
      · refine .bind (realPath_yields found.path) fun real isReal => ?_
        refine .bind (linksTo_steady d _ found.path).yields fun links _ => .pure ?_
        rintro _ _ _ ⟨⟩
        exact ⟨isReal, fun root => package found root rfl⟩

theorem isReal_of_resolved {reference : String} {requirer file : Path} {package : Option Path}
    {links : List Link}
    (resolved : (resolve extensions reference requirer).answer d limit =
      .ok (.resolved file package links)) :
    d.IsReal file ∧ ∀ root, package = some root → d.IsReal root :=
  (resolve_yields extensions reference requirer (Manifests.faithful_empty limit d) rfl).value _
    resolved _ _ _ rfl

end Resolution

end FunctionArchive
