import FunctionArchive.Proofs.Path.Plain
import FunctionArchive.Proofs.Resolution.Installed

/-!
# Where a reference is looked for

The look-ups of the resolution stop at the first file. What they stop at is told here without the
look-ups, as the first file in a list of candidates: for a path the path itself, then the path with
each extension, then, if a directory is there, the main file that its manifest names and its index
file (`pathCandidates`); for a reference by name what the export map of the package gives, then the
candidates of the path (`candidates`).

The lists depend on the manifests, so they say what the look-ups find only where the manifests that
are read on the way can be read (`pathFile_answer`, `installedIn_answer`).
-/

set_option autoImplicit false

namespace FunctionArchive

open Query (Steady Alike)

variable {d : Disk} {limit : Option Path}

namespace Resolution

/-! ## Candidates -/

section

variable (d) (extensions : List String)

/-- A path, and the path with each extension. -/
def fileCandidates (path : Path) : List Path := path :: extensions.map path.appendToName

/-- The index files of a directory. -/
def indexCandidates (directory : Path) : List Path :=
  extensions.map fun extension => directory.child ("index" ++ extension)

/-- What the manifest of a directory may mean by its main file. -/
def mainCandidates (directory : Path) : List Path :=
  match (d.manifestIn directory).bind (·.main) with
  | none => []
  | some main =>
    fileCandidates extensions (Path.normalize d.current (directory.child main)) ++
      indexCandidates extensions (Path.normalize d.current (directory.child main))

/-- What may stand for a directory. -/
def directoryCandidates (directory : Path) : List Path :=
  mainCandidates d extensions directory ++ indexCandidates extensions directory

/-- What may stand for a path. -/
def pathCandidates (path : Path) : List Path :=
  fileCandidates extensions path ++
    if d.isDirectory path then directoryCandidates d extensions path else []

/-- The file that the export map of a package gives for a reference. -/
def exportCandidates (package : Path) (reference : String) : List Path :=
  if d.isDirectory package then
    match (d.manifestIn package).bind (·.exportTarget? (Reference.subpath reference)) with
    | none => []
    | some target => [Path.normalize d.current (package.child target)]
  else []

/-- What may stand for a reference by name in the packages installed in a directory. -/
def candidates (reference : String) (directory : Path) : List Path :=
  exportCandidates d (packageIn reference directory) reference ++
    pathCandidates d extensions ((directory.child packagesName).child reference)

end

variable {extensions : List String}

/-- The candidates of a path from the root start at the root. -/
theorem pathCandidates_rooted {start path : Path} (rooted : start.Rooted)
    (among : path ∈ pathCandidates d extensions start) : path.Rooted := by
  have ofFile {origin : Path} (isRooted : origin.Rooted)
      (inside : path ∈ fileCandidates extensions origin) : path.Rooted := by
    rcases List.mem_cons.mp inside with rfl | appended
    · exact isRooted
    · obtain ⟨extension, -, rfl⟩ := List.mem_map.mp appended
      exact isRooted.appendToName extension
  have ofIndex {origin : Path} (isRooted : origin.Rooted)
      (inside : path ∈ indexCandidates extensions origin) : path.Rooted := by
    obtain ⟨extension, -, rfl⟩ := List.mem_map.mp inside
    exact isRooted.child _
  rcases List.mem_append.mp among with isFile | isDirectory
  · exact ofFile rooted isFile
  · split at isDirectory
    · rcases List.mem_append.mp isDirectory with isMain | isIndex
      · unfold mainCandidates at isMain
        split at isMain
        · cases isMain
        · rename_i main _
          have isRooted := ((rooted.child main).normalize d.current).descends.toRooted
          rcases List.mem_append.mp isMain with isFile | isIndex
          · exact ofFile isRooted isFile
          · exact ofIndex isRooted isIndex
      · exact ofIndex rooted isIndex
    · cases isDirectory

/-! ## The first file among the candidates -/

/-- One look-up after the other finds the first file among the candidates of both. -/
theorem orElse_answer {first second : Query (Option Path)} {nearer further : List Path}
    (steady : Steady d first) (steady' : Steady d second)
    (answered : first.answer d limit = .ok (nearer.find? d.isFile))
    (answered' : nearer.find? d.isFile = none →
      second.answer d limit = .ok (further.find? d.isFile)) :
    (do match ← first with | some found => return some found | none => second :
      Query (Option Path)).answer d limit = .ok ((nearer ++ further).find? d.isFile) := by
  rw [List.find?_append]
  cases found : nearer.find? d.isFile with
  | none =>
      rw [found] at answered
      exact Alike.answer_bind steady answered steady' (answered' found)
  | some path =>
      rw [found] at answered
      exact Alike.answer_bind steady answered (.pure rfl) rfl

theorem mainFile_answer {directory : Path} (loads : d.LoadsManifest directory) :
    (mainFile extensions directory).answer d limit =
      .ok ((mainCandidates d extensions directory).find? d.isFile) := by
  unfold mainFile mainCandidates
  refine Alike.answer_andLoad loads ?_ ?_
  · split
    · exact .pure rfl
    · refine .andThen (normalized_steady d _) fun path => ?_
      refine .andThen (file_steady d extensions path) ?_
      rintro (_ | found)
      · exact index_steady d extensions path
      · exact .pure rfl
  · cases (d.manifestIn directory).bind (·.main) with
    | none => rfl
    | some main =>
        refine Alike.answer_bind (normalized_steady d _) rfl ?_ ?_
        · refine .andThen (file_steady d extensions _) ?_
          rintro (_ | found)
          · exact index_steady d extensions _
          · exact .pure rfl
        · exact orElse_answer (file_steady d extensions _) (index_steady d extensions _) rfl
            fun _ => rfl

theorem directoryFile_answer {directory : Path} (there : d.isDirectory directory = true)
    (loads : d.LoadsManifest directory) :
    (directoryFile extensions directory).answer d limit =
      .ok ((directoryCandidates d extensions directory).find? d.isFile) := by
  refine Alike.answer_bind (a := true) (.test _) (congrArg Except.ok there) ?_ ?_
  · refine .andThen (mainFile_steady d extensions directory) ?_
    rintro (_ | found)
    · exact index_steady d extensions directory
    · exact .pure rfl
  · exact orElse_answer (mainFile_steady d extensions directory)
      (index_steady d extensions directory) (mainFile_answer loads) fun _ => rfl

/-- What stands for a path is the first file among its candidates. -/
theorem pathFile_answer {path : Path}
    (loads : (fileCandidates extensions path).find? d.isFile = none →
      d.isDirectory path = true → d.LoadsManifest path) :
    (pathFile extensions path).answer d limit =
      .ok ((pathCandidates d extensions path).find? d.isFile) := by
  refine orElse_answer (file_steady d extensions path) (directoryFile_steady d extensions path)
    rfl fun noFile => ?_
  split
  · rename_i there
    exact directoryFile_answer there (loads noFile there)
  · rename_i absent
    refine Alike.answer_bind (a := false) (.test _) ?_ (.pure rfl) rfl
    exact congrArg Except.ok (by simpa using absent)

theorem exported_answer {package : Path} {reference : String}
    (loads : d.isDirectory package = true → d.LoadsManifest package) :
    (exported package reference).answer d limit =
      .ok ((exportCandidates d package reference).find? d.isFile) := by
  unfold exported exportCandidates
  cases there : d.isDirectory package with
  | false =>
      refine Alike.answer_bind (a := false) (.test _) (congrArg Except.ok there) (.pure rfl) rfl
  | true =>
      have next (m : Option Manifest) :
          Steady d (match m.bind (·.exportTarget? (Reference.subpath reference)) with
            | none => return none
            | some target => do firstFile [← normalized (package.child target)]) := by
        split
        · exact .pure rfl
        · exact .andThen (normalized_steady d _) fun _ => firstFile_steady d _
      refine Alike.answer_bind (a := true) (.test _) (congrArg Except.ok there) ?_ ?_
      · refine .andLoad (fun m m' related => ?_) next
        rw [Manifest.bind_eq_of_matches related _ fun _ _ => rfl]
      · refine Alike.answer_andLoad (loads there) (next _) ?_
        cases (d.manifestIn package).bind (·.exportTarget? (Reference.subpath reference)) with
        | none => rfl
        | some target =>
            exact Alike.answer_bind (normalized_steady d _) rfl (firstFile_steady d _) rfl

/-- What stands for a reference by name in one directory is the first file among its candidates. -/
theorem installedIn_answer {reference : String} {directory : Path}
    (package : d.isDirectory (packageIn reference directory) = true →
      d.LoadsManifest (packageIn reference directory))
    (path : (exportCandidates d (packageIn reference directory) reference).find? d.isFile = none →
      (fileCandidates extensions ((directory.child packagesName).child reference)).find?
        d.isFile = none →
      d.isDirectory ((directory.child packagesName).child reference) = true →
      d.LoadsManifest ((directory.child packagesName).child reference)) :
    (installedIn extensions (directory.child packagesName) reference).answer d limit =
      .ok ((candidates d extensions reference directory).find? d.isFile) :=
  orElse_answer (exported_steady d _ reference) (pathFile_steady d extensions _)
    (exported_answer package) fun noExport => pathFile_answer (path noExport)

end Resolution

end FunctionArchive
