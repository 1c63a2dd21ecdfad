import FunctionArchive.Proofs.Disk.Listing
import FunctionArchive.Proofs.Disk.Straight
import FunctionArchive.Proofs.Resolution.Installed

/-!
# What references lead to

A reference that is resolved leads to a file, and the package that it enters is a directory; both
are named by their real paths, under which they stand (`resolve_places`).

A reference that does not lead upwards from where packages are installed is found by a path that
never leads upwards. The links crossed on the way to it then stand where they are said to be, under
plain paths, and lead where they are said to lead (`resolve_links`).
-/

set_option autoImplicit false

namespace FunctionArchive

open Query (Yields)

namespace Disk

variable {d : Disk} {p real : Path}

/-- The real path of a file. -/
structure IsRealFile (d : Disk) (real : Path) : Prop where
  absolute : real.absolute = true
  down : LeadsDown real.names
  there : ∃ f, d.root.at? real.names = some (.file f)

/-- The real path of a directory. -/
structure IsRealDirectory (d : Disk) (real : Path) : Prop where
  absolute : real.absolute = true
  down : LeadsDown real.names
  there : ∃ entries, d.root.at? real.names = some (.directory entries)

theorem find_of_realPath (found : d.realPath p = .ok real) :
    ∃ place, d.find p = .ok place ∧ real = place.path := by
  unfold realPath at found
  cases result : d.find p with
  | error fault => simp [result, Except.map] at found
  | ok place =>
      simp only [result, Except.map, Except.ok.injEq] at found
      exact ⟨place, rfl, found.symm⟩

theorem isRealFile_of_isFile (isFile : d.isFile p = true) (found : d.realPath p = .ok real) :
    d.IsRealFile real := by
  obtain ⟨⟨names, node⟩, leads, rfl⟩ := find_of_realPath found
  cases node with
  | file f => exact ⟨rfl, find_leadsDown leads, f, at?_of_find leads⟩
  | link target => simp [Disk.isFile, leads] at isFile
  | directory entries => simp [Disk.isFile, leads] at isFile

theorem isRealDirectory_of_isDirectory (isDirectory : d.isDirectory p = true)
    (found : d.realPath p = .ok real) : d.IsRealDirectory real := by
  obtain ⟨⟨names, node⟩, leads, rfl⟩ := find_of_realPath found
  cases node with
  | directory entries => exact ⟨rfl, find_leadsDown leads, entries, at?_of_find leads⟩
  | file f => simp [Disk.isDirectory, leads] at isDirectory
  | link target => simp [Disk.isDirectory, leads] at isDirectory

/-- A real path of a directory leads to it. -/
theorem IsRealDirectory.find (isReal : d.IsRealDirectory real) :
    ∃ entries, d.find real = .ok ⟨real.names, .directory entries⟩ := by
  obtain ⟨absolute, names⟩ := real
  obtain ⟨rfl, down, entries, there⟩ := isReal
  exact ⟨entries, find_of_at? there down nofun⟩

/-- The dependencies of a package are looked for from the package itself. -/
theorem IsRealDirectory.startOf_manifest (isReal : d.IsRealDirectory real) :
    Resolution.startOf (real.child Manifest.fileName) = real := by
  obtain ⟨absolute, names⟩ := real
  obtain ⟨rfl, down, -⟩ := isReal
  have stem : (⟨true, names⟩ : Path).stem = names := down.stem_eq
  rw [Resolution.startOf, Path.parent?_child _ (by decide), stem, down.trimEnd_eq]
  rfl

end Disk

namespace Resolution

variable {d : Disk} {limit : Option Path} (extensions : List String)

/-- If something was found, it is a file. -/
def FindsFile (d : Disk) (found : Option Path) : Prop :=
    ∀ path, found = some path → d.isFile path = true

theorem FindsFile.none : FindsFile d none := nofun

theorem firstFile_findsFile (paths : List Path) :
    Yields d limit (firstFile paths) (FindsFile d) := by
  refine .bind .read ?_
  rintro _ rfl
  exact .pure fun path found => List.find?_some found

/-- To look for one file and then, if there is none, for another finds what both would find. -/
theorem orElse_yields {first second : Query (Option Path)} {finds : Option Path → Prop}
    (isFirst : Yields d limit first finds) (isSecond : Yields d limit second finds) :
    Yields d limit (do match ← first with | some found => return some found | none => second)
      finds := by
  refine .bind isFirst ?_
  rintro (_ | found) there
  · exact isSecond
  · exact .pure there

theorem mainFile_findsFile (directory : Path) :
    Yields d limit (mainFile extensions directory) (FindsFile d) := by
  refine .bind (.load directory) fun m _ => ?_
  split
  · exact .pure .none
  · exact .bind (normalized_steady d _).yields fun path _ =>
      orElse_yields (firstFile_findsFile _) (firstFile_findsFile _)

theorem pathFile_findsFile (path : Path) :
    Yields d limit (pathFile extensions path) (FindsFile d) := by
  refine orElse_yields (firstFile_findsFile _) (.bind (.test _) fun isDirectory _ => ?_)
  cases isDirectory with
  | false => exact .pure .none
  | true => exact orElse_yields (mainFile_findsFile extensions _) (firstFile_findsFile _)

theorem exported_findsFile (package : Path) (reference : String) :
    Yields d limit (exported package reference) (FindsFile d) := by
  refine .bind (.test _) fun isDirectory _ => ?_
  cases isDirectory with
  | false => exact .pure .none
  | true =>
      refine .bind (.load package) fun m _ => ?_
      split
      · exact .pure .none
      · exact .bind (normalized_steady d _).yields fun _ _ => firstFile_findsFile _

theorem installedIn_findsFile (packages : Path) (reference : String) :
    Yields d limit (installedIn extensions packages reference) (FindsFile d) :=
  orElse_yields (exported_findsFile _ reference) (pathFile_findsFile extensions _)

/-- What was found among installed packages is a file, and its package a directory. -/
structure Installed.Stands (d : Disk) (place : Installed) : Prop where
  path : d.isFile place.path = true
  package : ∀ root, place.package = some root → d.IsRealDirectory root

theorem installedNext_stands (reference : String) (directories : List Path) :
    Yields d limit (installedNext extensions reference directories) fun found =>
      ∀ place, found = some place → Installed.Stands d place := by
  induction directories with
  | nil => exact .pure nofun
  | cons directory rest ih =>
      refine .bind (.test _) fun isDirectory _ => ?_
      split
      · exact ih
      · refine .bind (installedIn_findsFile extensions _ reference) ?_
        rintro (_ | path) isFile
        · exact ih
        · refine .bind (.test _) fun isPackage there => ?_
          cases isPackage with
          | false =>
              refine .pure ?_
              rintro _ ⟨⟩
              exact ⟨isFile path rfl, nofun⟩
          | true =>
              refine .bind (.askDisk fun root found => found) fun root found => .pure ?_
              rintro _ ⟨⟩
              refine ⟨isFile path rfl, ?_⟩
              rintro _ ⟨⟩
              exact Disk.isRealDirectory_of_isDirectory there.symm found

/-- A reference leads to a file and enters a directory, both by their real paths. -/
theorem resolve_places (reference : String) (requirer : Path) :
    Yields d limit (resolve extensions reference requirer) fun resolution =>
      ∀ file package links, resolution = .resolved file package links →
        d.IsRealFile file ∧ ∀ root, package = some root → d.IsRealDirectory root := by
  unfold resolve
  split
  · exact .pure nofun
  · refine .ite ?_ ?_
    · refine .bind (normalized_steady d _).yields fun path _ => ?_
      refine .bind (pathFile_findsFile extensions path) ?_
      rintro (_ | found) isFile
      · exact .throw _
      · refine .bind (.askDisk fun real there => there) fun real there => ?_
        refine .bind (linksTo_steady d _ found).yields fun links _ => .pure ?_
        rintro _ _ _ ⟨⟩
        exact ⟨Disk.isRealFile_of_isFile (isFile found rfl) there, nofun⟩
    · refine .bind (installedNext_stands extensions reference _) ?_
      rintro (_ | found) stands
      · refine .bind (tolerance_alike d _ _).yields ?_
        rintro (_ | reason) -
        · exact .throw _
        · exact .pure nofun
      · obtain ⟨isFile, package⟩ := stands found rfl
        refine .bind (.askDisk fun real there => there) fun real there => ?_
        refine .bind (linksTo_steady d _ found.path).yields fun links _ => .pure ?_
        rintro _ _ _ ⟨⟩
        exact ⟨Disk.isRealFile_of_isFile isFile there, package⟩

theorem places_of_resolved {reference : String} {requirer file : Path} {package : Option Path}
    {links : List Link}
    (resolved : (resolve extensions reference requirer).answer d limit =
      .ok (.resolved file package links)) :
    d.IsRealFile file ∧ ∀ root, package = some root → d.IsRealDirectory root :=
  (resolve_places extensions reference requirer (Manifests.faithful_empty limit d) rfl).value _
    resolved _ _ _ rfl

end Resolution

open Query (Yields)
open Path (Proper IsName Descends Rooted)

/-- A reference that is a path, or that does not lead upwards from the directory of packages. -/
def Reference.IsDirect (reference : String) : Prop :=
  isRelative reference = true ∨ ".." ∉ (Path.ofString reference).names

/-- A link stands at a plain path and leads where it is said to lead. -/
structure Disk.HoldsLink (d : Disk) (link : Link) : Prop where
  plain : link.path.Plain
  there : ∃ text, d.root.at? link.path.names = some (.link text)
  leads : d.realPath link.path = .ok link.target

/-! ## Where look-ups start -/

/-- The directory of something real is real. -/
theorem Disk.IsTree.startOf_real {d : Disk} (tree : d.IsTree) {real : Path}
    (isReal : d.IsReal real) :
    ∃ here, Resolution.startOf real = .ofNames here ∧ d.Straight here := by
  obtain ⟨path, found⟩ := isReal
  obtain ⟨names, straight⟩ := tree.straight_of_realPath found
  rcases List.eq_nil_or_concat real.names with nil | ⟨front, last, split⟩
  · rw [nil] at names straight
    exact ⟨[], by rw [names]; rfl, straight⟩
  · rw [List.concat_eq_append] at split
    rw [split] at names straight
    refine ⟨front, ?_, straight.of_prefix (List.prefix_append _ _)⟩
    rw [names, Resolution.startOf, straight.proper.parent?_concat]
    rfl

namespace Resolution

variable {d : Disk} {limit : Option Path} {extensions : List String}

/-! ## Crossing links -/

theorem linksFrom_links (tree : d.IsTree) {names here : List String} (proper : Proper names)
    (straight : d.Straight here) :
    Yields d limit (linksFrom (.ofNames here) names) fun links =>
      ∀ link ∈ links, d.HoldsLink link := by
  induction names generalizing here with
  | nil => exact .pure (List.forall_mem_nil _)
  | cons name rest ih =>
      obtain ⟨isName, properRest⟩ := List.forall_mem_cons.mp proper
      have next : (Path.ofNames here).child name = .ofNames (here ++ [name]) :=
        straight.proper.child_eq isName.1
      rw [linksFrom, next]
      refine .bind (.test _) fun isLink crossed => ?_
      cases isLink with
      | true =>
          obtain ⟨text, there⟩ := (straight.isLink_iff isName).mp crossed.symm
          refine .bind (.askDisk fun target leads => leads) fun target leads => ?_
          obtain ⟨isReal, onward⟩ := tree.straight_of_realPath leads
          rw [isReal]
          refine .bind (ih properRest onward) fun links held => .pure ?_
          refine List.forall_mem_cons.mpr ⟨⟨?_, ⟨text, there⟩, ?_⟩, held⟩
          · exact Path.plain_ofNames.mpr (tree.proper_of_at? there)
          · rw [← isReal]
            exact leads
      | false =>
          refine ih properRest (straight.concat isName fun target there => ?_)
          have crossed' := (straight.isLink_iff isName).mpr ⟨target, there⟩
          rw [← crossed] at crossed'
          cases crossed'

theorem linksTo_links (tree : d.IsTree) {here : List String} {path : Path}
    (straight : d.Straight here) (descends : path.Descends) :
    Yields d limit (linksTo (.ofNames here) path) fun links =>
      ∀ link ∈ links, d.HoldsLink link := by
  unfold linksTo
  split
  · exact .pure (List.forall_mem_nil _)
  · rename_i base shared
    have above := List.mem_of_find?_eq_some shared
    rw [straight.proper.mem_ancestors] at above
    obtain ⟨front, inFront, rfl⟩ := above
    refine linksFrom_links tree ?_ (straight.of_prefix inFront)
    unfold Path.relativeTo?
    split
    · exact fun name member =>
        descends.proper_components name (List.mem_of_mem_drop member)
    · exact Path.proper_nil

/-! ## Paths that are found -/

/-- If something was found, its path never leads upwards. -/
def FindsBelow (found : Option Path) : Prop := ∀ path, found = some path → path.Descends

theorem FindsBelow.none : FindsBelow none := nofun

theorem firstFile_findsBelow {paths : List Path}
    (descend : ∀ path ∈ paths, d.isFile path = true → path.Descends) :
    Yields d limit (firstFile paths) FindsBelow := by
  refine .bind .read ?_
  rintro _ rfl
  exact .pure fun path found =>
    descend path (List.mem_of_find?_eq_some found) (List.find?_some found)

theorem exported_findsBelow {package : Path} (rooted : package.Rooted) (reference : String) :
    Yields d limit (exported package reference) FindsBelow := by
  refine .bind (.test _) fun isDirectory _ => ?_
  cases isDirectory with
  | false => exact .pure .none
  | true =>
      refine .bind (.load package) fun m _ => ?_
      split
      · exact .pure .none
      · rename_i target _
        refine .bind (normalized_yields _) ?_
        rintro _ rfl
        have descends := ((rooted.child target).normalize d.current).descends
        exact firstFile_findsBelow (List.forall_mem_singleton.mpr fun _ => descends)

section

variable (noSlash : ∀ extension ∈ extensions, '/' ∉ extension.toList)

include noSlash

theorem file_findsBelow {path : Path} (descends : path.Descends) :
    Yields d limit (file extensions path) FindsBelow := by
  refine firstFile_findsBelow (List.forall_mem_cons.mpr ⟨fun _ => descends, fun _ member => ?_⟩)
  obtain ⟨extension, among, rfl⟩ := List.mem_map.mp member
  intro isFile
  rcases descends.appendToName (noSlash extension among) with below | up
  · exact below
  · rw [Disk.not_isFile_of_last up (.inr rfl)] at isFile
    cases isFile

theorem index_findsBelow {directory : Path} (descends : directory.Descends) :
    Yields d limit (index extensions directory) FindsBelow := by
  refine firstFile_findsBelow fun _ member _ => ?_
  obtain ⟨extension, among, rfl⟩ := List.mem_map.mp member
  refine descends.child_name ⟨by simp, ?_⟩ fun up => ?_
  · simpa using noSlash extension among
  · have chars := congrArg String.toList up
    simp at chars

theorem mainFile_findsBelow {directory : Path} (rooted : directory.Rooted) :
    Yields d limit (mainFile extensions directory) FindsBelow := by
  refine .bind (.load directory) fun m _ => ?_
  split
  · exact .pure .none
  · rename_i main _
    refine .bind (normalized_yields _) ?_
    rintro _ rfl
    have descends := ((rooted.child main).normalize d.current).descends
    exact orElse_yields (file_findsBelow noSlash descends) (index_findsBelow noSlash descends)

theorem pathFile_findsBelow {path : Path} (descends : path.Descends) :
    Yields d limit (pathFile extensions path) FindsBelow := by
  refine orElse_yields (file_findsBelow noSlash descends) (.bind (.test _) fun isDirectory _ => ?_)
  cases isDirectory with
  | false => exact .pure .none
  | true =>
      exact orElse_yields (mainFile_findsBelow noSlash descends.toRooted)
        (index_findsBelow noSlash descends)

theorem installedIn_findsBelow {packages : Path} (descends : packages.Descends) {reference : String}
    (direct : ".." ∉ (Path.ofString reference).names) :
    Yields d limit (installedIn extensions packages reference) FindsBelow :=
  orElse_yields (exported_findsBelow (descends.toRooted.child _) reference)
    (pathFile_findsBelow noSlash (descends.child direct))

theorem installedNext_findsBelow {directories : List Path}
    (descend : ∀ directory ∈ directories, directory.Descends) {reference : String}
    (direct : ".." ∉ (Path.ofString reference).names) :
    Yields d limit (installedNext extensions reference directories) fun found =>
      ∀ place, found = some place → place.path.Descends := by
  induction directories with
  | nil => exact .pure nofun
  | cons directory rest ih =>
      obtain ⟨first, others⟩ := List.forall_mem_cons.mp descend
      have isPart : Path.IsPart packagesName := by decide
      have packages := first.child_name isPart (by decide)
      refine .bind (.test _) fun isDirectory _ => ?_
      split
      · exact ih others
      · refine .bind (installedIn_findsBelow noSlash packages direct) ?_
        rintro (_ | path) below
        · exact ih others
        · refine .bind (.test _) fun isPackage _ => ?_
          cases isPackage with
          | false =>
              refine .pure ?_
              rintro _ ⟨⟩
              exact below path rfl
          | true =>
              refine .bind (.askDisk fun root _ => trivial) fun root _ => .pure ?_
              rintro _ ⟨⟩
              exact below path rfl

/-- The links that a direct reference crosses stand and lead where they are said to. -/
theorem resolve_links (tree : d.IsTree) {requirer : Path} {here : List String}
    (start : startOf requirer = .ofNames here) (straight : d.Straight here) {reference : String}
    (direct : Reference.IsDirect reference) :
    Yields d limit (resolve extensions reference requirer) fun resolution =>
      ∀ file package links, resolution = .resolved file package links →
        ∀ link ∈ links, d.HoldsLink link := by
  have plain : (Path.ofNames here).Plain := Path.plain_ofNames.mpr straight.proper
  unfold resolve
  change requirer.parent?.getD .root = .ofNames here at start
  dsimp only
  rw [start]
  split
  · exact .pure nofun
  · split
    · refine .bind (normalized_yields _) ?_
      rintro _ rfl
      have descends := ((plain.descends.toRooted.child reference).normalize d.current).descends
      refine .bind (pathFile_findsBelow noSlash descends) ?_
      rintro (_ | found) below
      · exact .throw _
      · refine .bind (.askDisk fun real _ => trivial) fun real _ => ?_
        refine .bind (linksTo_links tree straight (below found rfl)) fun links held => .pure ?_
        rintro _ _ _ ⟨⟩
        exact held
    · rename_i bare
      have notUp : ".." ∉ (Path.ofString reference).names := direct.resolve_left bare
      have descend : ∀ directory ∈ (Path.ofNames here).ancestors, directory.Descends := by
        intro directory above
        rw [straight.proper.mem_ancestors] at above
        obtain ⟨front, inFront, rfl⟩ := above
        exact (Path.plain_ofNames.mpr (straight.proper.of_prefix inFront)).descends
      refine .bind (installedNext_findsBelow noSlash descend notUp) ?_
      rintro (_ | found) below
      · refine .bind (tolerance_alike d _ _).yields ?_
        rintro (_ | reason) -
        · exact .throw _
        · exact .pure nofun
      · refine .bind (.askDisk fun real _ => trivial) fun real _ => ?_
        refine .bind (linksTo_links tree straight (below found rfl)) fun links held => .pure ?_
        rintro _ _ _ ⟨⟩
        exact held

end

theorem links_of_resolved (tree : d.IsTree)
    (noSlash : ∀ extension ∈ extensions, '/' ∉ extension.toList)
    {requirer : Path} {here : List String} (start : startOf requirer = .ofNames here)
    (straight : d.Straight here) {reference : String} (direct : Reference.IsDirect reference)
    {file : Path} {package : Option Path} {links : List Link}
    (resolved : (resolve extensions reference requirer).answer d limit =
      .ok (.resolved file package links)) : ∀ link ∈ links, d.HoldsLink link :=
  (resolve_links noSlash tree start straight direct (Manifests.faithful_empty limit d) rfl).value _
    resolved _ _ _ rfl

end Resolution

end FunctionArchive
