import FunctionArchive.Proofs.Manifest.Failure
import FunctionArchive.Proofs.Resolution.Steady

/-!
# The nearest installed package

A reference by name is looked for in one directory after the other, upwards from the script. The
first directory in which something stands for it settles the search (`IsNearest`): what is there is
what the reference means, and the package that it enters is the directory of that name, if there is
one (`resolve_nearest`). Only when nothing stands for it in any of them is it missing
(`resolve_missing`); a fault of the file system or of a manifest is passed on as it is.

To stand for a reference takes a file: a package directory without one is passed over.
-/

set_option autoImplicit false

namespace FunctionArchive

open Query (Yields Fails Steady Alike)

/-- A fault that does not say that a reference is missing. -/
def Fault.IsOther (fault : Fault) : Prop := ∀ name origin, fault ≠ .missingDependency name origin

theorem Manifests.fetch_isOther {d : Disk} {path : Path} {fault : Fault}
    (failed : fetch d path = .error fault) : fault.IsOther := by
  rintro name origin rfl
  unfold fetch at failed
  split at failed
  · rw [Manifest.read] at failed
    split at failed <;> cases failed
  · cases failed
  · cases failed
  · cases failed
  · cases failed

/-- A question that is steady yields the answer of a run that knows nothing. -/
theorem Query.Alike.yields_answer {α : Type} {d : Disk} {limit : Option Path} {q : Query α}
    (steady : Steady d q) : Yields d limit q fun a => q.answer d limit = .ok a := by
  refine steady.yields.mono ?_
  rintro a ⟨_, answered, rfl⟩
  exact answered

namespace Resolution

variable {d : Disk} {limit : Option Path} (extensions : List String)

/-! ## Look-ups do not report anything missing -/

theorem normalized_fails {bad : Fault → Prop} (path : Path) :
    Fails d limit (normalized path) bad :=
  .bind .read .read fun _ _ => .pure _

theorem firstFile_fails {bad : Fault → Prop} (paths : List Path) :
    Fails d limit (firstFile paths) bad :=
  .bind .read .read fun _ _ => .pure _

theorem load_fails (directory : Path) :
    Fails d limit (Manifests.load directory) Fault.IsOther :=
  .load fun _ => Manifests.fetch_isOther

theorem realPath_fails (path : Path) : Fails d limit (realPath path) Fault.IsOther :=
  .askDisk fun _ _ => nofun

theorem mainFile_fails (directory : Path) :
    Fails d limit (mainFile extensions directory) Fault.IsOther := by
  refine .bind (load_fails directory) (.load directory) fun m _ => ?_
  split
  · exact .pure _
  · refine .bind (normalized_fails _) (normalized_steady d _).yields fun path _ => ?_
    refine .bind (firstFile_fails _) (file_steady d extensions path).yields ?_
    rintro (_ | found) -
    · exact firstFile_fails _
    · exact .pure _

theorem directoryFile_fails (directory : Path) :
    Fails d limit (directoryFile extensions directory) Fault.IsOther := by
  refine .bind (.test _) (.test _) fun isDirectory _ => ?_
  cases isDirectory with
  | false => exact .pure _
  | true =>
      refine .bind (mainFile_fails extensions _) (mainFile_steady d extensions directory).yields ?_
      rintro (_ | found) -
      · exact firstFile_fails _
      · exact .pure _

theorem pathFile_fails (path : Path) :
    Fails d limit (pathFile extensions path) Fault.IsOther := by
  refine .bind (firstFile_fails _) (file_steady d extensions path).yields ?_
  rintro (_ | found) -
  · exact directoryFile_fails extensions path
  · exact .pure _

theorem exported_fails (package : Path) (reference : String) :
    Fails d limit (exported package reference) Fault.IsOther := by
  refine .bind (.test _) (.test _) fun isDirectory _ => ?_
  cases isDirectory with
  | false => exact .pure _
  | true =>
      refine .bind (load_fails package) (.load package) fun m _ => ?_
      split
      · exact .pure _
      · exact .bind (normalized_fails _) (normalized_steady d _).yields fun _ _ =>
          firstFile_fails _

theorem installedIn_fails (packages : Path) (reference : String) :
    Fails d limit (installedIn extensions packages reference) Fault.IsOther := by
  refine .bind (exported_fails _ reference) (exported_steady d _ reference).yields ?_
  rintro (_ | found) -
  · exact pathFile_fails extensions _
  · exact .pure _

theorem linksFrom_fails (names : List String) (directory : Path) :
    Fails d limit (linksFrom directory names) Fault.IsOther := by
  induction names generalizing directory with
  | nil => exact .pure _
  | cons name rest ih =>
      refine .bind (.test _) (.test _) fun isLink _ => ?_
      cases isLink with
      | false => exact ih _
      | true =>
          refine .bind (realPath_fails _) (realPath_yields _) fun target _ => ?_
          exact .bind (ih target) (linksFrom_steady d rest target).yields fun _ _ => .pure _

theorem linksTo_fails (directory path : Path) :
    Fails d limit (linksTo directory path) Fault.IsOther := by
  unfold linksTo
  split
  · exact .pure _
  · exact linksFrom_fails _ _

theorem tolerance_fails (package : String) (directory : Path) :
    Fails d limit (tolerance package directory) Fault.IsOther := by
  have search (directories : List Path) :
      Fails d limit (Manifests.findIn directories) Fault.IsOther := by
    induction directories with
    | nil => exact .pure _
    | cons directory rest ih =>
        refine .bind (load_fails directory) (.load directory) fun m _ => ?_
        cases m with
        | some m => exact .pure _
        | none =>
            exact .bind .knowledge .knowledge fun known _ => .ite (fun _ => .pure _) fun _ => ih
  refine .bind (search _) (Manifests.find_alike d directory).yields fun m _ => ?_
  cases m with
  | none => exact .pure _
  | some m =>
      refine .ite (fun _ => .pure _) fun _ => .ite (fun _ => .pure _) fun _ => ?_
      cases m.name with
      | none => exact .pure _
      | some name => exact .ite (fun _ => .pure _) fun _ => .pure _

/-! ## The nearest directory -/

variable (d limit)

/-- Something in the packages installed in a directory stands for a reference. -/
structure Provides (reference : String) (directory : Path) : Prop where
  named : directory.fileName? ≠ some packagesName
  there : d.isDirectory (directory.child packagesName) = true
  found : ∃ path, (installedIn extensions (directory.child packagesName) reference).answer d limit =
    .ok (some path)

/-- The first of some directories in which something stands for a reference. -/
def IsNearest (reference : String) (directories : List Path) (directory : Path) : Prop :=
  ∃ front rest, directories = front ++ directory :: rest ∧
    Provides d limit extensions reference directory ∧
    ∀ other ∈ front, ¬ Provides d limit extensions reference other

/-- The directory of the package of a reference among those installed in a directory. -/
def packageIn (reference : String) (directory : Path) : Path :=
  (directory.child packagesName).child (Reference.packageName reference)

/-- What a search through some directories has found: what is in the nearest one, in the package
of that name if there is one; or nothing, since nothing stands for the reference anywhere. -/
inductive Finds (reference : String) (directories : List Path) : Option Installed → Prop
  | nearest {directory : Path} {place : Installed}
      (isNearest : IsNearest d limit extensions reference directories directory)
      (stands : (installedIn extensions (directory.child packagesName) reference).answer d limit =
        .ok (some place.path))
      (enters : d.isDirectory (packageIn reference directory) = true →
        ∃ root, place.package = some root ∧ d.realPath (packageIn reference directory) = .ok root) :
      Finds reference directories (some place)
  | nothing (lacking : ∀ directory ∈ directories,
    ¬ Provides d limit extensions reference directory) :
      Finds reference directories none

variable {d limit extensions} {reference : String} {directories : List Path}

theorem IsNearest.unique {directory directory' : Path}
    (first : IsNearest d limit extensions reference directories directory)
    (second : IsNearest d limit extensions reference directories directory') :
    directory = directory' := by
  obtain ⟨front, rest, rfl, provides, before⟩ := first
  obtain ⟨front', rest', same, provides', before'⟩ := second
  rcases List.append_eq_append_iff.mp same with ⟨gap, split, tail⟩ | ⟨gap, split, tail⟩
  · cases gap with
    | nil => exact (List.cons.inj tail).1
    | cons other gap =>
        obtain ⟨rfl, -⟩ := List.cons.inj tail
        exact absurd provides (before' _ (by simp [split]))
  · cases gap with
    | nil => exact (List.cons.inj tail).1.symm
    | cons other gap =>
        obtain ⟨rfl, -⟩ := List.cons.inj tail
        exact absurd provides' (before _ (by simp [split]))

theorem IsNearest.provides {directory : Path}
    (isNearest : IsNearest d limit extensions reference directories directory) :
    Provides d limit extensions reference directory := by
  obtain ⟨front, rest, -, provides, -⟩ := isNearest
  exact provides

theorem IsNearest.mem {directory : Path}
    (isNearest : IsNearest d limit extensions reference directories directory) :
    directory ∈ directories := by
  obtain ⟨front, rest, rfl, -, -⟩ := isNearest
  simp

/-- The nearest directory is not among those in which nothing stands for the reference. -/
theorem IsNearest.of_append {front : List Path} {directory : Path}
    (isNearest : IsNearest d limit extensions reference (front ++ directories) directory)
    (lacking : ∀ other ∈ front, ¬ Provides d limit extensions reference other) :
    IsNearest d limit extensions reference directories directory := by
  obtain ⟨front', rest, same, provides, before⟩ := isNearest
  rcases List.append_eq_append_iff.mp same with ⟨gap, split, tail⟩ | ⟨gap, split, tail⟩
  · exact ⟨gap, rest, tail, provides, fun other member => before other (by simp [split, member])⟩
  · cases gap with
    | nil => exact ⟨[], rest, tail.symm, provides, List.forall_mem_nil _⟩
    | cons other gap =>
        obtain ⟨rfl, -⟩ := List.cons.inj tail
        exact absurd provides (lacking _ (by simp [split]))

/-- Directories in front in which nothing stands for the reference do not matter. -/
theorem Finds.skip {directory : Path} {found : Option Installed}
    (lacks : ¬ Provides d limit extensions reference directory)
    (finds : Finds d limit extensions reference directories found) :
    Finds d limit extensions reference (directory :: directories) found := by
  cases finds with
  | nearest isNearest stands enters =>
      obtain ⟨front, rest, rfl, provides, before⟩ := isNearest
      exact .nearest ⟨directory :: front, rest, rfl, provides,
        List.forall_mem_cons.mpr ⟨lacks, before⟩⟩ stands enters
  | nothing lacking => exact .nothing (List.forall_mem_cons.mpr ⟨lacks, lacking⟩)

theorem installedNext_finds (directories : List Path) :
    Yields d limit (installedNext extensions reference directories)
      (Finds d limit extensions reference directories) := by
  induction directories with
  | nil => exact .pure (.nothing (List.forall_mem_nil _))
  | cons directory rest ih =>
      refine .bind (.test _) fun isDirectory there => ?_
      split
      · rename_i passedOver
        refine ih.mono fun _ => .skip fun provides => ?_
        simp [there, provides.there, provides.named] at passedOver
      · rename_i entered
        obtain ⟨named, isThere⟩ : directory.fileName? ≠ some packagesName ∧
            d.isDirectory (directory.child packagesName) = true := by
          simpa [there] using entered
        refine .bind (installedIn_steady d extensions _ reference).yields_answer ?_
        rintro (_ | path) answered
        · refine ih.mono fun _ => .skip fun provides => ?_
          obtain ⟨path, answered'⟩ := provides.found
          cases answered.symm.trans answered'
        · have isNearest : IsNearest d limit extensions reference (directory :: rest) directory :=
            ⟨[], rest, rfl, ⟨named, isThere, path, answered⟩, List.forall_mem_nil _⟩
          refine .bind (.test _) fun isPackage package => ?_
          cases isPackage with
          | false =>
              exact .pure (.nearest isNearest answered fun there => nomatch package.trans there)
          | true =>
              refine .bind (.askDisk fun root found => found) fun root found => .pure ?_
              exact .nearest isNearest answered fun _ => ⟨root, rfl, found⟩

theorem installedNext_fails (directories : List Path) :
    Fails d limit (installedNext extensions reference directories) Fault.IsOther := by
  induction directories with
  | nil => exact .pure _
  | cons directory rest ih =>
      refine .bind (.test _) (.test _) fun isDirectory _ => ?_
      split
      · exact ih
      · refine .bind (installedIn_fails extensions _ reference)
          (installedIn_steady d extensions _ reference).yields ?_
        rintro (_ | path) -
        · exact ih
        · refine .bind (.test _) (.test _) fun isPackage _ => ?_
          cases isPackage with
          | false => exact .pure _
          | true => exact .bind (realPath_fails _) (realPath_yields _) fun _ _ => .pure _

/-! ## What the search settles -/

/-- The directory from which a reference is resolved. -/
def startOf (requirer : Path) : Path := requirer.parent?.getD .root

/-- What a reference by name means that is looked for in some directories: the file that is in the
nearest one, in the package of that name if there is one; or nothing, which is tolerated. -/
inductive Means (d : Disk) (limit : Option Path) (extensions : List String) (reference : String)
    (directories : List Path) : Resolution → Prop
  | nearest {directory path file : Path} {package : Option Path} {links : List Link}
      (isNearest : IsNearest d limit extensions reference directories directory)
      (stands : (installedIn extensions (directory.child packagesName) reference).answer d limit =
        .ok (some path))
      (real : d.realPath path = .ok file)
      (enters : d.isDirectory (packageIn reference directory) = true →
        ∃ root, package = some root ∧ d.realPath (packageIn reference directory) = .ok root) :
      Means d limit extensions reference directories (.resolved file package links)
  | tolerated {reason : Tolerance}
      (lacking : ∀ directory ∈ directories, ¬ Provides d limit extensions reference directory) :
      Means d limit extensions reference directories (.optional reason)

/-- A reference by name that has a meaning means what is in the nearest directory, or it is
tolerated, since nothing stands for it anywhere. -/
theorem resolve_nearest (requirer : Path) (notBuiltin : Reference.isBuiltin reference = false)
    (bare : Reference.isRelative reference = false) :
    Yields d limit (resolve extensions reference requirer)
      (Means d limit extensions reference (startOf requirer).ancestors) := by
  unfold resolve
  simp only [notBuiltin, bare, Bool.false_eq_true, if_false]
  refine .bind (installedNext_finds _) ?_
  rintro (_ | found) (@⟨directory, _, isNearest, stands, enters⟩ | lacking)
  · refine .bind (tolerance_alike d _ _).yields ?_
    rintro (_ | reason) -
    · exact .throw _
    · exact .pure (.tolerated lacking)
  · refine .bind (.askDisk fun file real => real) fun file real => ?_
    refine .bind (linksTo_steady d _ _).yields fun links _ => .pure ?_
    exact .nearest isNearest stands real enters

/-- A reference is reported missing by itself; one by name only if nothing stands for it
anywhere. -/
theorem resolve_missing (requirer : Path) :
    Fails d limit (resolve extensions reference requirer) fun fault =>
      ∀ name origin, fault = .missingDependency name origin → name = reference ∧
        (Reference.isRelative reference = false → ∀ directory ∈ (startOf requirer).ancestors,
          ¬ Provides d limit extensions reference directory) := by
  have other (fault : Fault) (isOther : fault.IsOther) (P : String → Prop) :
      ∀ name origin, fault = .missingDependency name origin → P name :=
    fun name origin missing => absurd missing (isOther name origin)
  have means (path directory : Path) (package : Option Path) (P : String → Prop) :
      Fails d limit
        (do return Resolution.resolved (← realPath path) package (← linksTo directory path))
        fun fault => ∀ name origin, fault = .missingDependency name origin → P name :=
    .bind ((realPath_fails _).mono fun fault isOther => other fault isOther _)
      (realPath_yields _) fun _ _ =>
        .bind ((linksTo_fails _ _).mono fun fault isOther => other fault isOther _)
          (linksTo_steady d _ _).yields fun _ _ => .pure _
  unfold resolve
  refine .ite (fun _ => .pure _) fun _ => .ite (fun relative => ?_) fun _ => ?_
  · refine .bind (normalized_fails _) (normalized_steady d _).yields fun path _ => ?_
    refine .bind ((pathFile_fails _ _).mono fun fault isOther => other fault isOther _)
      (pathFile_steady d _ _).yields ?_
    rintro (_ | found) -
    · refine .throw ?_
      rintro name origin ⟨⟩
      exact ⟨rfl, fun bare => nomatch bare.symm.trans relative⟩
    · exact means found _ none _
  · refine .bind ((installedNext_fails _).mono fun fault isOther => other fault isOther _)
      (installedNext_finds _) ?_
    rintro (_ | found) (@⟨directory, _, isNearest, stands, enters⟩ | lacking)
    · refine .bind ((tolerance_fails _ _).mono fun fault isOther => other fault isOther _)
        (tolerance_alike d _ _).yields ?_
      rintro (_ | reason) -
      · refine .throw ?_
        rintro name origin ⟨⟩
        exact ⟨rfl, fun _ => lacking⟩
      · exact .pure _
    · exact means found.path _ found.package _

/-! ## From what is found to what a reference means -/

theorem answer_realPath {path real : Path} (found : d.realPath path = .ok real) :
    (realPath path).answer d limit = .ok real := by
  show (d.realPath path).mapError _ = _
  rw [found]
  rfl

theorem means_steady (path directory : Path) (package : Option Path) :
    Steady d (do return Resolution.resolved (← realPath path) package (← linksTo directory path)) :=
  .andThen (realPath_steady d _) fun _ => .andThen (linksTo_steady d _ _) fun _ => .pure rfl

/-- What is found means its real path, over the links on the way. -/
theorem means_answer {path file directory : Path} {links : List Link} (package : Option Path)
    (real : d.realPath path = .ok file)
    (crossed : (linksTo directory path).answer d limit = .ok links) :
    (do return Resolution.resolved (← realPath path) package (← linksTo directory path) :
      Query Resolution).answer d limit = .ok (.resolved file package links) :=
  Alike.answer_bind (realPath_steady d _) (answer_realPath real)
    (.andThen (linksTo_steady d _ _) fun _ => .pure rfl)
    (Alike.answer_bind (linksTo_steady d _ _) crossed (.pure rfl) rfl)

/-- A reference by name means what is installed for it. -/
theorem resolve_installed {requirer file : Path} {place : Installed} {links : List Link}
    (notBuiltin : Reference.isBuiltin reference = false)
    (bare : Reference.isRelative reference = false)
    (found : (installed extensions reference (startOf requirer)).answer d limit = .ok (some place))
    (real : d.realPath place.path = .ok file)
    (crossed : (linksTo (startOf requirer) place.path).answer d limit = .ok links) :
    (resolve extensions reference requirer).answer d limit =
      .ok (.resolved file place.package links) := by
  unfold resolve
  simp only [notBuiltin, bare, Bool.false_eq_true, if_false]
  exact Alike.answer_bind (installed_steady d _ _ _) found (means_steady _ _ _)
    (means_answer place.package real crossed)

/-- A reference by path means the file that the path stands for. -/
theorem resolve_relative {requirer found file : Path} {links : List Link}
    (notBuiltin : Reference.isBuiltin reference = false)
    (relative : Reference.isRelative reference = true)
    (stands : (pathFile extensions
      (Path.normalize d.current ((startOf requirer).child reference))).answer d limit =
        .ok (some found))
    (real : d.realPath found = .ok file)
    (crossed : (linksTo (startOf requirer) found).answer d limit = .ok links) :
    (resolve extensions reference requirer).answer d limit = .ok (.resolved file none links) := by
  unfold resolve
  simp only [notBuiltin, relative, Bool.false_eq_true, if_false, if_true]
  refine Alike.answer_bind (normalized_steady d _) rfl (.andThen (pathFile_steady d _ _) ?_) ?_
  · rintro (_ | found)
    · exact .throw _
    · exact means_steady _ _ _
  · exact Alike.answer_bind (pathFile_steady d _ _) stands (means_steady _ _ _)
      (means_answer none real crossed)

/-- A reference by a path that no file stands for is missing. -/
theorem resolve_stray {requirer : Path} (notBuiltin : Reference.isBuiltin reference = false)
    (relative : Reference.isRelative reference = true)
    (stray : (pathFile extensions
      (Path.normalize d.current ((startOf requirer).child reference))).answer d limit = .ok none) :
    (resolve extensions reference requirer).answer d limit =
      .error (.missingDependency reference requirer) := by
  unfold resolve
  simp only [notBuiltin, relative, Bool.false_eq_true, if_false, if_true]
  refine Alike.answer_bind (normalized_steady d _) rfl ?_ ?_
  · refine .andThen (pathFile_steady d _ _) ?_
    rintro (_ | found)
    · exact .throw _
    · exact means_steady _ _ _
  · exact Alike.answer_bind (pathFile_steady d _ _) stray (.throw _) rfl

/-! ## A package that its index file stands for -/

section Index

variable {packages package : Path} {manifest : Option Manifest}

theorem exported_none
    (fetched : Manifests.fetch d (package.child Manifest.fileName) = .ok manifest)
    (noMap : manifest.bind (·.exportMap) = none) :
    (exported package reference).answer d limit = .ok none := by
  have looked : (Manifests.empty limit).lookUp (package.child Manifest.fileName) = none := rfl
  have recorded : ((Manifests.empty limit).record (package.child Manifest.fileName) manifest).1 =
      manifest := by cases manifest <;> rfl
  have silent (subpath : String) : manifest.bind (·.exportTarget? subpath) = none := by
    cases manifest with
    | none => rfl
    | some m => simp [Manifest.exportTarget?, show m.exportMap = none from noMap]
  unfold exported Query.answer
  cases isDirectory : d.isDirectory package with
  | false => simp [isDirectory]
  | true => simp [isDirectory, Manifests.run_load, looked, fetched, recorded, silent]

theorem mainFile_none
    (fetched : Manifests.fetch d (package.child Manifest.fileName) = .ok manifest)
    (noMain : manifest.bind (·.main) = none) :
    (mainFile extensions package).answer d limit = .ok none := by
  have looked : (Manifests.empty limit).lookUp (package.child Manifest.fileName) = none := rfl
  have recorded : ((Manifests.empty limit).record (package.child Manifest.fileName) manifest).1 =
      manifest := by cases manifest <;> rfl
  simp [mainFile, Query.answer, Manifests.run_load, looked, fetched, recorded, noMain]

/-- A directory without a main file is stood for by its index file, if it has one. -/
theorem pathFile_index (there : d.isDirectory package = true)
    (fetched : Manifests.fetch d (package.child Manifest.fileName) = .ok manifest)
    (noMain : manifest.bind (·.main) = none)
    (noFile : (package :: extensions.map package.appendToName).find? d.isFile = none) :
    (pathFile extensions package).answer d limit =
      .ok
        ((extensions.map fun extension =>
          package.child ("index" ++ extension)).find? d.isFile) := by
  have directory : (directoryFile extensions package).answer d limit =
      .ok
        ((extensions.map fun extension =>
          package.child ("index" ++ extension)).find? d.isFile) := by
    refine Alike.answer_bind (a := true) (.test _) (congrArg Except.ok there) ?_ ?_
    · refine .andThen (mainFile_steady d _ _) ?_
      rintro (_ | found)
      · exact index_steady d _ _
      · exact .pure rfl
    exact Alike.answer_bind (a := none) (mainFile_steady d _ _) (mainFile_none fetched noMain)
      (index_steady d _ _) rfl
  exact Alike.answer_bind (a := none) (file_steady d _ _) (congrArg Except.ok noFile)
    (directoryFile_steady d _ _) directory

/-- So is a package without a map of exports. -/
theorem installedIn_index (named : packages.child (Reference.packageName reference) = package)
    (spelled : packages.child reference = package) (there : d.isDirectory package = true)
    (fetched : Manifests.fetch d (package.child Manifest.fileName) = .ok manifest)
    (noMap : manifest.bind (·.exportMap) = none) (noMain : manifest.bind (·.main) = none)
    (noFile : (package :: extensions.map package.appendToName).find? d.isFile = none) :
    (installedIn extensions packages reference).answer d limit =
      .ok
        ((extensions.map fun extension =>
          package.child ("index" ++ extension)).find? d.isFile) := by
  unfold installedIn
  rw [named, spelled]
  refine Alike.answer_bind (a := none) (exported_steady d _ _) (exported_none fetched noMap)
    (pathFile_steady d _ _) ?_
  exact pathFile_index there fetched noMain noFile

/-- What stands for a reference in the first directory is what is installed for it. -/
theorem installedNext_here {directory path root : Path} {rest : List Path}
    (named : directory.fileName? ≠ some packagesName)
    (there : d.isDirectory (directory.child packagesName) = true)
    (stands : (installedIn extensions (directory.child packagesName) reference).answer d limit =
      .ok (some path))
    (entered : d.isDirectory (packageIn reference directory) = true)
    (real : d.realPath (packageIn reference directory) = .ok root) :
    (installedNext extensions reference (directory :: rest)).answer d limit =
      .ok (some ⟨path, some root⟩) := by
  unfold packageIn at entered real
  have entersHere : (directory.fileName? == some packagesName || !true) = false := by simp [named]
  have entering (path : Path) : Steady d (do
      if ← Query.test (·.isDirectory ((directory.child packagesName).child
          (Reference.packageName reference))) then
        return some ⟨path, some (← realPath ((directory.child packagesName).child
          (Reference.packageName reference)))⟩
      else return some ⟨path, none⟩ : Query (Option Installed)) := by
    refine .andThen (.test _) fun isPackage => ?_
    cases isPackage with
    | false => exact .pure rfl
    | true => exact .andThen (realPath_steady d _) fun _ => .pure rfl
  rw [installedNext]
  refine Alike.answer_bind (a := true) (.test _) (congrArg Except.ok there) ?_ ?_
  · rw [entersHere]
    refine .andThen (installedIn_steady d extensions _ reference) ?_
    rintro (_ | path)
    · exact installedNext_steady d extensions _ _
    · exact entering path
  · rw [entersHere]
    refine Alike.answer_bind (installedIn_steady d extensions _ reference) stands (entering path) ?_
    simp [Query.answer, realPath, Query.askDisk, entered, real, Except.mapError, Except.map]

end Index

end Resolution

end FunctionArchive
