import FunctionArchive.Proofs.Disk.Place
import FunctionArchive.Proofs.Reference
import FunctionArchive.Proofs.Resolution.Candidates

/-!
# Hits

The search for a reference by name is a chain of look-ups with early ends. Where it ends is told
without them: a directory above the script is a hit if one of the candidates in it is a file
(`IsHit`), and the search settles at the deepest hit, with the first file among its candidates
(`installedNext_answer`). Nothing can go wrong on the way but a manifest that cannot be read.

That the directory of packages is asked for first changes nothing: what stands for a reference in it
lies below it (`IsHit.there`).
-/

set_option autoImplicit false

namespace FunctionArchive

open Query (Steady Alike)
open Path (Rooted)

/-! ## Paths that go on behind another one -/

/-- The names of a path go on behind those of another one. -/
def Path.Continues (q p : Path) : Prop :=
  q.absolute = p.absolute ∧ ∃ tail, tail ≠ [] ∧ q.names = p.names ++ tail

namespace Path

variable {p q : Path} {text : String}

/-- A text that is no path from the root continues a path that has a name at its end. -/
theorem continues_child (named : p.stem = p.names) (some : p.names ≠ [])
    (relative : (ofString text).absolute = false) : (p.child text).Continues p := by
  have stem : p.stem = if p.names.getLast? == Option.some "" then p.names.dropLast else p.names :=
    rfl
  unfold child join
  rw [relative, if_neg Bool.false_ne_true, if_neg (by simpa using some)]
  refine ⟨rfl, if (ofString text).names.isEmpty then [""] else (ofString text).names, ?_, ?_⟩
  · split
    · simp
    · rename_i notEmpty
      simpa using notEmpty
  · rw [← stem, named]

theorem Continues.appendToName (continues : q.Continues p) (suffix : String) :
    (q.appendToName suffix).Continues p := by
  obtain ⟨absolute, tail, some, names⟩ := continues
  obtain ⟨front, last, rfl⟩ := (List.eq_nil_or_concat tail).resolve_left some
  obtain ⟨isAbsolute, spelled⟩ := q
  subst names
  refine ⟨?_, front ++ split (last ++ suffix).toList, ?_, ?_⟩
  · simpa [Path.appendToName] using absolute
  · simp [split, List.splitOn_ne_nil]
  · simp [Path.appendToName]

end Path

/-- What a path continues that leads somewhere is a directory. -/
theorem Disk.isDirectory_of_continues {d : Disk} {p q : Path} {place : Disk.Place}
    (continues : q.Continues p) (some : p.names ≠ []) (found : d.find q = .ok place) :
    d.isDirectory p = true := by
  obtain ⟨absolute, tail, more, names⟩ := continues
  have joined : d.namesOf q = d.namesOf p ++ tail := by
    unfold namesOf
    rw [absolute, names]
    split <;> simp
  unfold find lookUp at found
  split at found
  · cases found
  · rw [joined] at found
    obtain ⟨⟨real, node⟩, fewer, -, first, onward⟩ := (leads_of_walk found).split more
    have there := first.at?_names
    obtain ⟨entries, directory⟩ : ∃ entries, d.root.at? real =
        Option.some (.directory entries) := by
      cases onward with
      | arrive => exact absurd rfl more
      | stay directory | up directory | down directory | follow directory => exact ⟨_, directory⟩
      | stop directory => exact ⟨_, directory⟩
    cases there.symm.trans directory
    simp [isDirectory, find, lookUp, some, first.walk_eq]

namespace Resolution

variable {d : Disk} {limit : Option Path} {extensions : List String} {reference : String}
  {directories : List Path}

/-! ## Hits -/

section

variable (d extensions reference)

/-- A directory, other than one of installed packages, in which some candidate is a file. -/
structure IsHit (directory : Path) : Prop where
  named : directory.fileName? ≠ some packagesName
  some : ∃ path ∈ candidates d extensions reference directory, d.isFile path = true

/-- The first of some directories that is a hit. -/
def IsDeepestHit (directories : List Path) (directory : Path) : Prop :=
  ∃ front rest, directories = front ++ directory :: rest ∧
    (∀ other ∈ front, ¬ IsHit d extensions reference other) ∧
    IsHit d extensions reference directory

/-- The package of a reference that is found in a directory: the real path of the directory of that
name, if there is one. -/
def IsPackageOf (directory : Path) (package : Option Path) : Prop :=
  (d.isDirectory (packageIn reference directory) = true ∧
    ∃ root, d.realPath (packageIn reference directory) = .ok root ∧ package = Option.some root) ∨
  d.isDirectory (packageIn reference directory) = false ∧ package = none

/-- The manifests that are read in one directory can be read: that of the package, for its export
map, and that of the directory that the path leads to, when nothing before it is a file. -/
structure LoadsIn (directory : Path) : Prop where
  package : d.isDirectory (packageIn reference directory) = true →
    d.LoadsManifest (packageIn reference directory)
  path : (exportCandidates d (packageIn reference directory) reference).find? d.isFile = none →
    (fileCandidates extensions ((directory.child packagesName).child reference)).find?
      d.isFile = none →
    d.isDirectory ((directory.child packagesName).child reference) = true →
    d.LoadsManifest ((directory.child packagesName).child reference)

end

theorem exists_hit_iff : (∃ directory, IsDeepestHit d extensions reference directories directory) ↔
    ∃ directory ∈ directories, IsHit d extensions reference directory := by
  constructor
  · rintro ⟨directory, front, rest, rfl, -, hit⟩
    exact ⟨directory, by simp, hit⟩
  · rintro ⟨directory, member, hit⟩
    induction directories with
    | nil => cases member
    | cons first rest ih =>
        by_cases isFirst : IsHit d extensions reference first
        · exact ⟨first, [], rest, rfl, List.forall_mem_nil _, isFirst⟩
        · have later : directory ∈ rest := by
            rcases List.mem_cons.mp member with rfl | later
            · exact absurd hit isFirst
            · exact later
          obtain ⟨deepest, front, others, rfl, before, isHit⟩ := ih later
          exact ⟨deepest, first :: front, others, rfl, List.forall_mem_cons.mpr ⟨isFirst, before⟩,
            isHit⟩

/-- The candidates in a directory from the root start at the root. -/
theorem candidates_rooted {directory : Path} (rooted : directory.Rooted) {path : Path}
    (among : path ∈ candidates d extensions reference directory) : path.Rooted := by
  have packages : (directory.child packagesName).Rooted := rooted.child _
  rcases List.mem_append.mp among with isExport | isPath
  · unfold exportCandidates at isExport
    split at isExport
    · split at isExport
      · cases isExport
      · obtain rfl := List.mem_singleton.mp isExport
        exact (((packages.child _).child _).normalize _).descends.toRooted
    · cases isExport
  · exact pathCandidates_rooted (packages.child _) isPath

/-- What a text spells in a directory of packages lies below it. -/
theorem continues_packages (directory : Path) {text : String}
    (relative : (Path.ofString text).absolute = false) :
    ((directory.child packagesName).child text).Continues (directory.child packagesName) := by
  have part : Path.IsPart packagesName := by decide
  have spelled : directory.child packagesName =
      ⟨directory.absolute, directory.stem ++ [packagesName]⟩ := Path.child_eq directory part
  refine Path.continues_child ?_ (by simp [spelled]) relative
  rw [spelled]
  simp [Path.stem, part.1]

/-- Where a file or a directory is found below a directory of packages, packages are installed. -/
theorem isDirectory_packages {directory inner : Path}
    (continues : inner.Continues (directory.child packagesName))
    (there : d.isFile inner = true ∨ d.isDirectory inner = true) :
    d.isDirectory (directory.child packagesName) = true := by
  have spelled := Path.child_eq directory (show Path.IsPart packagesName by decide)
  cases found : d.find inner with
  | error fault => simp [Disk.isFile, Disk.isDirectory, found] at there
  | ok place => exact Disk.isDirectory_of_continues continues (by simp [spelled]) found

/-- Where a reference by name is found, packages are installed. -/
theorem IsHit.there (bare : Reference.isRelative reference = false) {directory : Path}
    (hit : IsHit d extensions reference directory) :
    d.isDirectory (directory.child packagesName) = true := by
  obtain ⟨-, path, among, isFile⟩ := hit
  have package := continues_packages directory (Reference.prefix_packageName bare).1
  have isPath := continues_packages directory (Reference.ofString_bare bare)
  rcases List.mem_append.mp among with isExport | isPathCandidate
  · unfold exportCandidates at isExport
    split at isExport
    · rename_i isPackage
      exact isDirectory_packages package (.inr isPackage)
    · cases isExport
  · rcases List.mem_append.mp isPathCandidate with isFileCandidate | isInside
    · have continues : path.Continues (directory.child packagesName) := by
        rcases List.mem_cons.mp isFileCandidate with rfl | appended
        · exact isPath
        · obtain ⟨extension, -, rfl⟩ := List.mem_map.mp appended
          exact isPath.appendToName extension
      exact isDirectory_packages continues (.inl isFile)
    · split at isInside
      · rename_i isDirectory
        exact isDirectory_packages isPath (.inr isDirectory)
      · cases isInside

/-! ## The search through the directories -/

variable (d extensions reference) in
/-- What a search through some directories comes to: the first file among the candidates of the
deepest hit, or nothing, since there is no hit. -/
inductive Settles (directories : List Path) : Option Installed → Prop
  | hit {directory : Path} {place : Installed}
      (deepest : IsDeepestHit d extensions reference directories directory)
      (first : (candidates d extensions reference directory).find? d.isFile = some place.path)
      (package : IsPackageOf d reference directory place.package) : Settles directories (some place)
  | nothing (noHit : ∀ directory ∈ directories, ¬ IsHit d extensions reference directory) :
      Settles directories none

theorem Settles.skip {directory : Path} {found : Option Installed}
    (notHit : ¬ IsHit d extensions reference directory)
    (settles : Settles d extensions reference directories found) :
    Settles d extensions reference (directory :: directories) found := by
  cases settles with
  | hit deepest first package =>
      obtain ⟨front, rest, rfl, before, isHit⟩ := deepest
      exact .hit ⟨directory :: front, rest, rfl, List.forall_mem_cons.mpr ⟨notHit, before⟩, isHit⟩
        first package
  | nothing noHit => exact .nothing (List.forall_mem_cons.mpr ⟨notHit, noHit⟩)

/-- Adds the package to a file that was found. -/
def entering (package path : Path) : Query (Option Installed) := do
  if ← Query.test (·.isDirectory package) then return some ⟨path, some (← realPath package)⟩
  else return some ⟨path, none⟩

theorem entering_steady (package path : Path) : Steady d (entering package path) := by
  refine .andThen (.test _) fun isPackage => ?_
  cases isPackage with
  | false => exact .pure rfl
  | true => exact .andThen (realPath_steady d _) fun _ => .pure rfl

theorem entering_answer (directory path : Path) : ∃ package,
    IsPackageOf d reference directory package ∧
      (entering (packageIn reference directory) path).answer d limit =
        .ok (some ⟨path, package⟩) := by
  cases isPackage : d.isDirectory (packageIn reference directory) with
  | false =>
      refine ⟨none, .inr ⟨isPackage, rfl⟩, ?_⟩
      exact Alike.answer_bind (a := false) (.test _) (congrArg Except.ok isPackage) (.pure rfl) rfl
  | true =>
      cases found : d.find (packageIn reference directory) with
      | error fault => simp [Disk.isDirectory, found] at isPackage
      | ok place =>
          have real : d.realPath (packageIn reference directory) = .ok place.path := by
            simp [Disk.realPath, found, Except.map]
          refine ⟨some place.path, .inl ⟨isPackage, place.path, real, rfl⟩, ?_⟩
          refine Alike.answer_bind (a := true) (.test _) (congrArg Except.ok isPackage) ?_ ?_
          · exact .andThen (realPath_steady d _) fun _ => .pure rfl
          · exact Alike.answer_bind (realPath_steady d _) (answer_realPath real) (.pure rfl) rfl

variable (extensions reference) in
/-- The search from a directory on in which packages are installed. -/
def searchIn (directory : Path) (rest : List Path) : Query (Option Installed) := do
  match ← installedIn extensions (directory.child packagesName) reference with
  | none => installedNext extensions reference rest
  | some path => entering (packageIn reference directory) path

theorem searchIn_steady (directory : Path) (rest : List Path) :
    Steady d (searchIn extensions reference directory rest) := by
  refine .andThen (installedIn_steady d extensions _ reference) ?_
  rintro (_ | path)
  · exact installedNext_steady d extensions reference rest
  · exact entering_steady _ path

section

variable {directory : Path} {rest : List Path} {result : Outcome (Option Installed)}

theorem installedNext_passes (passed : (directory.fileName? == some packagesName ||
      !d.isDirectory (directory.child packagesName)) = true)
    (answered : (installedNext extensions reference rest).answer d limit = result) :
    (installedNext extensions reference (directory :: rest)).answer d limit = result := by
  rw [installedNext]
  refine Alike.answer_bind (a := d.isDirectory (directory.child packagesName)) (.test _) rfl ?_ ?_
  all_goals rw [if_pos passed]
  · exact installedNext_steady d extensions reference rest
  · exact answered

theorem installedNext_enters (named : directory.fileName? ≠ some packagesName)
    (there : d.isDirectory (directory.child packagesName) = true)
    (answered : (searchIn extensions reference directory rest).answer d limit = result) :
    (installedNext extensions reference (directory :: rest)).answer d limit = result := by
  rw [installedNext]
  refine Alike.answer_bind (a := true) (.test _) (congrArg Except.ok there) ?_ ?_
  all_goals rw [if_neg (by simp [named])]
  · exact searchIn_steady directory rest
  · exact answered

end

/-- The search settles at the deepest hit, if the manifests can be read that it reads until then. -/
theorem installedNext_answer (bare : Reference.isRelative reference = false)
    (loads : ∀ front directory rest, directories = front ++ directory :: rest →
      (∀ other ∈ front, ¬ IsHit d extensions reference other) →
      directory.fileName? ≠ some packagesName → LoadsIn d extensions reference directory) :
    ∃ found, (installedNext extensions reference directories).answer d limit = .ok found ∧
      Settles d extensions reference directories found := by
  induction directories with
  | nil => exact ⟨none, rfl, .nothing (List.forall_mem_nil _)⟩
  | cons directory rest ih =>
      have further (notHit : ¬ IsHit d extensions reference directory) :
          ∃ found, (installedNext extensions reference rest).answer d limit = .ok found ∧
            Settles d extensions reference (directory :: rest) found := by
        obtain ⟨found, answered, settles⟩ := ih fun front other others split before =>
          loads (directory :: front) other others (by rw [split, List.cons_append])
            (List.forall_mem_cons.mpr ⟨notHit, before⟩)
        exact ⟨found, answered, settles.skip notHit⟩
      by_cases passed : (directory.fileName? == some packagesName ||
          !d.isDirectory (directory.child packagesName)) = true
      · have notHit : ¬ IsHit d extensions reference directory := fun hit => by
          simp [hit.named, hit.there bare] at passed
        obtain ⟨found, answered, settles⟩ := further notHit
        exact ⟨found, installedNext_passes passed answered, settles⟩
      · obtain ⟨named, there⟩ : directory.fileName? ≠ some packagesName ∧
            d.isDirectory (directory.child packagesName) = true := by simpa using passed
        have loadsHere := loads [] directory rest rfl (List.forall_mem_nil _) named
        have here :
            (installedIn extensions (directory.child packagesName) reference).answer d limit =
            .ok ((candidates d extensions reference directory).find? d.isFile) :=
          installedIn_answer loadsHere.package loadsHere.path
        have steady := installedIn_steady d extensions (directory.child packagesName) reference
        cases first : (candidates d extensions reference directory).find? d.isFile with
        | none =>
            have notHit : ¬ IsHit d extensions reference directory := fun hit => by
              obtain ⟨path, among, isFile⟩ := hit.some
              exact List.find?_eq_none.mp first path among isFile
            obtain ⟨found, answered, settles⟩ := further notHit
            rw [first] at here
            refine ⟨found, installedNext_enters named there ?_, settles⟩
            exact Alike.answer_bind steady here (installedNext_steady d extensions reference rest)
              answered
        | some path =>
            have hit : IsHit d extensions reference directory :=
              ⟨named, path, List.mem_of_find?_eq_some first, List.find?_some first⟩
            obtain ⟨package, isPackage, entered⟩ : ∃ package,
                IsPackageOf d reference directory package ∧
                  (entering (packageIn reference directory) path).answer d limit =
                    .ok (some ⟨path, package⟩) := entering_answer directory path
            rw [first] at here
            refine ⟨some ⟨path, package⟩, installedNext_enters named there ?_,
              .hit ⟨[], rest, rfl, List.forall_mem_nil _, hit⟩ first isPackage⟩
            exact Alike.answer_bind steady here (entering_steady _ path) entered

end Resolution

end FunctionArchive
