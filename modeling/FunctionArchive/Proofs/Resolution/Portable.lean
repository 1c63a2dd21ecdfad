import FunctionArchive.Proofs.Resolution.ByPath
import FunctionArchive.Proofs.Resolution.Carried
import FunctionArchive.Proofs.Resolution.Crossing
import FunctionArchive.Proofs.Resolution.Hits
import FunctionArchive.Proofs.Resolution.Links

/-!
# References that mean the same in a copy

A reference that was resolved has read the manifests on the way: those of the packages in each
directory until the deepest hit, and that of the directory that a path denotes when nothing before
it is a file. So what is told about candidates under the condition that manifests can be read holds
of each reference that was resolved (`FindsAt.takes`).

A reference is portable if what it means is looked for below the directory that is copied, no
candidate for it is refused because of too many links, and the manifests that are needed to find it
are copied (`Portable`). Only the directories that the search visits matter: those up to the deepest
one in which the reference is found (`Visits`).

If the file that a portable reference means stands in the copy, with the links on the way, the
search in the copy visits the copies of the same directories. It finds nothing in those where
nothing was found in the tree, and the copy of the file in the copy of the deepest one
(`resolve_copied`).
-/

set_option autoImplicit false

namespace FunctionArchive.Resolution

open Query (Yields)

variable {d : Disk} {limit : Option Path} {extensions : List String} {reference : String}

theorem load_consulted (directory : Path) :
    Yields d limit (Manifests.load directory) fun _ => d.LoadsManifest directory :=
  (Yields.load directory).mono fun _ ⟨fetched, there, _⟩ => ⟨fetched, there⟩

theorem firstFile_yields (paths : List Path) :
    Yields d limit (firstFile paths) (· = paths.find? d.isFile) := by
  refine .bind .read ?_
  rintro _ rfl
  exact .pure rfl

theorem mainFile_consulted (directory : Path) :
    Yields d limit (mainFile extensions directory) fun _ => d.LoadsManifest directory := by
  refine .bind (load_consulted directory) fun m loads => ?_
  have anyhow (paths : List Path) :
      Yields d limit (firstFile paths) fun _ => d.LoadsManifest directory :=
    (firstFile_yields paths).mono fun _ _ => loads
  split
  · exact .pure loads
  · exact .bind (normalized_yields _) fun _ _ => orElse_yields (anyhow _) (anyhow _)

theorem pathFile_consulted (path : Path) : Yields d limit (pathFile extensions path) fun found =>
    ((fileCandidates extensions path).find? d.isFile = none → d.isDirectory path = true →
      d.LoadsManifest path) ∧
    found = (pathCandidates d extensions path).find? d.isFile := by
  have loaded : Yields d limit (pathFile extensions path) fun _ =>
      (fileCandidates extensions path).find? d.isFile = none → d.isDirectory path = true →
        d.LoadsManifest path := by
    refine .bind (firstFile_yields (fileCandidates extensions path)) ?_
    rintro _ rfl
    cases isFile : (fileCandidates extensions path).find? d.isFile with
    | some found => exact .pure fun noFile => by cases noFile
    | none =>
        refine .bind (.test _) ?_
        rintro _ rfl
        cases isDirectory : d.isDirectory path with
        | false => exact .pure fun _ there => by cases there
        | true =>
            refine Yields.mono ?_ fun _ (loads : d.LoadsManifest path) _ _ => loads
            refine .bind (mainFile_consulted path) fun found loads => ?_
            cases found with
            | some found => exact .pure loads
            | none => exact (firstFile_yields _).mono fun _ _ => loads
  refine (loaded.and (Query.Alike.yields_answer (pathFile_steady d extensions path))).mono ?_
  rintro found ⟨loads, answered⟩
  exact ⟨loads, Except.ok.inj (answered.symm.trans (pathFile_answer loads))⟩

theorem exported_consulted (package : Path) :
    Yields d limit (exported package reference) fun found =>
    (d.isDirectory package = true → d.LoadsManifest package) ∧
    found = (exportCandidates d package reference).find? d.isFile := by
  have loaded : Yields d limit (exported package reference) fun _ =>
      d.isDirectory package = true → d.LoadsManifest package := by
    refine .bind (.test _) ?_
    rintro _ rfl
    cases isDirectory : d.isDirectory package with
    | false => exact .pure fun there => by cases there
    | true =>
        refine .bind (load_consulted package) fun m loads => ?_
        split
        · exact .pure fun _ => loads
        · exact .bind (normalized_yields _) fun _ _ => (firstFile_yields _).mono fun _ _ _ => loads
  refine (loaded.and (Query.Alike.yields_answer (exported_steady d package reference))).mono ?_
  rintro found ⟨loads, answered⟩
  exact ⟨loads, Except.ok.inj (answered.symm.trans (exported_answer loads))⟩

theorem installedIn_consulted (directory : Path) :
    Yields d limit (installedIn extensions (directory.child packagesName) reference) fun found =>
      LoadsIn d extensions reference directory ∧
      found = (candidates d extensions reference directory).find? d.isFile := by
  refine .bind (exported_consulted _) ?_
  rintro _ ⟨package, rfl⟩
  cases isExport :
    (exportCandidates d (packageIn reference directory) reference).find? d.isFile with
  | some found =>
      rw [packageIn] at isExport
      rw [isExport]
      refine .pure ⟨⟨package, fun none => by cases isExport.symm.trans none⟩, ?_⟩
      rw [candidates, List.find?_append, packageIn, isExport]
      rfl
  | none =>
      rw [packageIn] at isExport
      rw [isExport]
      refine (pathFile_consulted _).mono ?_
      rintro _ ⟨path, rfl⟩
      refine ⟨⟨package, fun _ => path⟩, ?_⟩
      rw [candidates, List.find?_append, packageIn, isExport]
      rfl

/-- Where nothing is installed, nothing has to be read. -/
theorem loadsIn_of_absent (bare : Reference.isRelative reference = false) {directory : Path}
    (absent : d.isDirectory (directory.child packagesName) = false) :
    LoadsIn d extensions reference directory := by
  have nowhere {text : String} (relative : (Path.ofString text).absolute = false)
      (there : d.isDirectory ((directory.child packagesName).child text) = true) : False := by
    rw [isDirectory_packages (continues_packages directory relative) (.inr there)] at absent
    cases absent
  exact ⟨fun there => (nowhere (Reference.prefix_packageName bare).1 there).elim,
    fun _ _ there => (nowhere (Reference.ofString_bare bare) there).elim⟩

variable (d extensions reference) in
/-- A directory is looked at by a search through some directories: no directory before it is a
hit. -/
def Visits (directories : List Path) (directory : Path) : Prop :=
  ∃ front rest, directories = front ++ directory :: rest ∧
    ∀ other ∈ front, ¬ IsHit d extensions reference other

theorem visits_cons {first directory : Path} {rest : List Path} :
    Visits d extensions reference (first :: rest) directory ↔ directory = first ∨
      ¬ IsHit d extensions reference first ∧ Visits d extensions reference rest directory := by
  constructor
  · rintro ⟨front, others, split, before⟩
    cases front with
    | nil => exact .inl (List.cons.inj split).1.symm
    | cons other front =>
        obtain ⟨rfl, splitRest⟩ := List.cons.inj split
        obtain ⟨notHit, before⟩ := List.forall_mem_cons.mp before
        exact .inr ⟨notHit, front, others, splitRest, before⟩
  · rintro (rfl | ⟨notHit, front, others, rfl, before⟩)
    · exact ⟨[], rest, rfl, List.forall_mem_nil _⟩
    · exact ⟨first :: front, others, rfl, List.forall_mem_cons.mpr ⟨notHit, before⟩⟩

/-- A search looks at the directories as far as the first hit. -/
theorem visits_iff {front rest : List Path} {hit directory : Path}
    (before : ∀ other ∈ front, ¬ IsHit d extensions reference other)
    (isHit : IsHit d extensions reference hit) :
    Visits d extensions reference (front ++ hit :: rest) directory ↔
      directory ∈ front ∨ directory = hit := by
  induction front with
  | nil => simp [visits_cons, isHit]
  | cons first front ih =>
      obtain ⟨notHit, before⟩ := List.forall_mem_cons.mp before
      rw [List.cons_append, visits_cons, ih before, List.mem_cons, or_assoc]
      simp [notHit]

theorem IsDeepestHit.visits {directories : List Path} {directory : Path}
    (deepest : IsDeepestHit d extensions reference directories directory) :
    Visits d extensions reference directories directory := by
  obtain ⟨front, rest, split, before, -⟩ := deepest
  exact ⟨front, rest, split, before⟩

theorem IsDeepestHit.isHit {directories : List Path} {directory : Path}
    (deepest : IsDeepestHit d extensions reference directories directory) :
    IsHit d extensions reference directory := by
  obtain ⟨-, -, -, -, hit⟩ := deepest
  exact hit

/-- A search ends at the first hit. -/
theorem IsDeepestHit.eq {directories : List Path} {hit directory : Path}
    (deepest : IsDeepestHit d extensions reference directories hit)
    (visits : Visits d extensions reference directories directory)
    (isHit : IsHit d extensions reference directory) : directory = hit := by
  obtain ⟨front, rest, rfl, before, isDeepest⟩ := deepest
  exact ((visits_iff before isDeepest).mp visits).resolve_left fun member => before _ member isHit

/-- A search that has come to an end has read the manifests until the deepest hit. -/
theorem installedNext_consulted (bare : Reference.isRelative reference = false)
    (directories : List Path) :
    Yields d limit (installedNext extensions reference directories) fun _ => ∀ directory,
      Visits d extensions reference directories directory →
        directory.fileName? ≠ some packagesName → LoadsIn d extensions reference directory := by
  induction directories with
  | nil => exact .pure fun _ ⟨_, _, split, _⟩ => by simp at split
  | cons first rest ih =>
      have goesOn (here : first.fileName? ≠ some packagesName →
          LoadsIn d extensions reference first) :
          Yields d limit (installedNext extensions reference rest) fun _ => ∀ directory,
            Visits d extensions reference (first :: rest) directory →
              directory.fileName? ≠ some packagesName →
                LoadsIn d extensions reference directory := by
        refine ih.mono fun _ later directory visits named => ?_
        rcases visits_cons.mp visits with rfl | ⟨-, visits⟩
        · exact here named
        · exact later directory visits named
      refine .bind (.test _) ?_
      rintro _ rfl
      split
      · rename_i passed
        refine goesOn fun named => loadsIn_of_absent bare ?_
        simpa [named] using passed
      · rename_i enters
        refine .bind (installedIn_consulted first) ?_
        rintro _ ⟨loads, rfl⟩
        cases isFound : (candidates d extensions reference first).find? d.isFile with
        | none => exact goesOn fun _ => loads
        | some path =>
            have named : first.fileName? ≠ some packagesName :=
              fun named => by simp [named] at enters
            have hit : IsHit d extensions reference first :=
              ⟨named, path, List.mem_of_find?_eq_some isFound, List.find?_some isFound⟩
            refine (entering_steady _ path).yields.mono fun _ _ directory visits _ => ?_
            rcases visits_cons.mp visits with rfl | ⟨notHit, -⟩
            · exact loads
            · exact absurd hit notHit

variable (d extensions) in
/-- What a reference takes: the first file among the candidates of the path that it spells, or of
the deepest hit above the script; and the manifests that are consulted on the way can be read. -/
inductive Takes (reference : String) (requirer : Path) : Path → Prop
  | path {found : Path} (relative : Reference.isRelative reference = true)
      (loads : (fileCandidates extensions (spelledIn d reference requirer)).find? d.isFile = none →
        d.isDirectory (spelledIn d reference requirer) = true →
          d.LoadsManifest (spelledIn d reference requirer))
      (first : (pathCandidates d extensions (spelledIn d reference requirer)).find? d.isFile =
        some found) : Takes reference requirer found
  | installed {directory found : Path} (bare : Reference.isRelative reference = false)
      (loads : ∀ other, Visits d extensions reference (startOf requirer).ancestors other →
        other.fileName? ≠ some packagesName → LoadsIn d extensions reference other)
      (deepest : IsDeepestHit d extensions reference (startOf requirer).ancestors directory)
      (first : (candidates d extensions reference directory).find? d.isFile = some found) :
      Takes reference requirer found

theorem FindsAt.takes {requirer found : Path}
    (finds : FindsAt d limit extensions reference requirer found) :
    Takes d extensions reference requirer found := by
  have knowing := Manifests.faithful_empty limit d
  cases finds with
  | path relative stands =>
      obtain ⟨loads, first⟩ := (pathFile_consulted _ knowing rfl).value _ stands
      exact .path relative loads first.symm
  | installed bare stands =>
      have loads := (installedNext_consulted bare _ knowing rfl).value _ stands
      obtain ⟨place, answered, settles⟩ : ∃ place,
          (installedNext extensions reference (startOf requirer).ancestors).answer d limit =
            .ok place ∧ Settles d extensions reference (startOf requirer).ancestors place :=
        installedNext_answer bare fun front other rest split before =>
          loads other ⟨front, rest, split, before⟩
      obtain rfl := Except.ok.inj (stands.symm.trans answered)
      cases settles with
      | hit deepest first => exact .installed bare loads deepest first

end FunctionArchive.Resolution

namespace FunctionArchive

open FunctionArchive.Path (Proper IsName mounted)
open Disk (Pictures)

/-- A text at a path below a directory never leads above that directory. -/
def Path.KeepsBelow (base : List String) (path : Path) (text : String) : Prop :=
  ∃ p : Path, path = p.mounted base ∧ p.Keeps text

theorem Path.KeepsBelow.keeps {base : List String} {p : Path} {text : String}
    (keeps : (p.mounted base).KeepsBelow base text) : p.Keeps text := by
  obtain ⟨q, same, keeps⟩ := keeps
  have names : p.names = q.names := List.append_cancel_left (congrArg Path.names same)
  unfold Path.Keeps
  rwa [names]

namespace Resolution

variable {d d' : Disk} {site base : List String} {p q : Path} {extensions : List String}
  {packed : Path → Prop} {reference : String} {requirer : Path}

/-! ## References that stay below a directory -/

section

variable (d : Disk) (base : List String) (extensions : List String) (packed : Path → Prop)

/-- What stands for a path is looked for below a directory: the main file that its manifest names
does not lead above it, no link on the way leads to too many others, and the manifest, if it is
needed, is packed. -/
structure PortablePath (path : Path) : Prop where
  main : ∀ text, (d.manifestIn path).bind (·.main) = some text → path.KeepsBelow base text
  few : ∀ candidate ∈ pathCandidates d extensions path, d.find candidate ≠ .error .tooManyLinks
  packed : NeedsManifest d extensions path → packed path

/-- What stands for a reference among the packages installed in a directory is looked for below
another one. -/
structure PortableIn (reference : String) (directory : Path) : Prop where
  below : ∃ names, directory = .ofNames (base ++ names)
  path : PortablePath d base extensions packed ((directory.child packagesName).child reference)
  target : ∀ text, (d.manifestIn (packageIn reference directory)).bind
      (·.exportTarget? (Reference.subpath reference)) = some text →
    (packageIn reference directory).KeepsBelow base text
  few : d.find (packageIn reference directory) ≠ .error .tooManyLinks
  fewTargets : ∀ candidate ∈ exportCandidates d (packageIn reference directory) reference,
    d.find candidate ≠ .error .tooManyLinks
  packed : (exportCandidates d (packageIn reference directory) reference).find? d.isFile ≠ none →
    packed (packageIn reference directory)

/-- What a reference in a script means is looked for below a directory. -/
structure Portable (reference : String) (requirer : Path) : Prop where
  path : Reference.isRelative reference = true →
    (startOf requirer).KeepsBelow base reference ∧
      PortablePath d base extensions packed (spelledIn d reference requirer)
  installed : Reference.isRelative reference = false → ∀ directory,
    Visits d extensions reference (startOf requirer).ancestors directory →
      PortableIn d base extensions packed reference directory

end

/-! ## Looking in the copy -/

theorem descends_packages {above : Path} (descends : above.Descends) {text : String}
    (notUp : ".." ∉ (Path.ofString text).names) :
    ((above.child packagesName).child text).Descends :=
  (descends.child_name (by decide) (by decide)).child notUp

section Copy

variable (pictures : Pictures d' site d base) (tree : d.IsTree)
  (isSite : IsSite extensions d base) (isSite' : IsSite extensions d' site)
  (named : ∀ extension ∈ extensions, IsName extension)
  (arrived : ∀ p : Path, p.Descends → packed (p.mounted base) →
    d'.isFile ((p.mounted site).child Manifest.fileName) = true)
include pictures tree isSite isSite' named arrived

theorem path_portable (descends : p.Descends)
    (portable : PortablePath d base extensions packed (p.mounted base))
    (loads : (fileCandidates extensions (p.mounted base)).find? d.isFile = none →
      d.isDirectory (p.mounted base) = true → d.LoadsManifest (p.mounted base))
    (reached : ∀ q : Path, q.Descends →
      (pathCandidates d extensions (p.mounted base)).find? d.isFile = some (q.mounted base) →
        d'.isFile (q.mounted site) = true) :
    Copied base site ((pathCandidates d extensions (p.mounted base)).find? d.isFile)
        ((pathCandidates d' extensions (p.mounted site)).find? d'.isFile) ∧
      ((fileCandidates extensions (p.mounted site)).find? d'.isFile = none →
        d'.isDirectory (p.mounted site) = true → d'.LoadsManifest (p.mounted site)) :=
  path_copied pictures tree isSite isSite' named descends
    (fun text isMain => (portable.main text isMain).keeps) portable.few loads
    (fun needs => arrived p descends (portable.packed needs)) reached

/-- What stands for a reference among the packages installed in a directory of the tree stands for
it in the copy, if it is there at all. -/
theorem installed_portable {above : Path} (descends : above.Descends)
    (bare : Reference.isRelative reference = false)
    (notUp : ".." ∉ (Path.ofString reference).names)
    (portable : PortableIn d base extensions packed reference (above.mounted base))
    (loads : LoadsIn d extensions reference (above.mounted base))
    (reached : ∀ q : Path, q.Descends →
      (candidates d extensions reference (above.mounted base)).find? d.isFile =
        some (q.mounted base) → d'.isFile (q.mounted site) = true) :
    Copied base site ((candidates d extensions reference (above.mounted base)).find? d.isFile)
        ((candidates d' extensions reference (above.mounted site)).find? d'.isFile) ∧
      LoadsIn d' extensions reference (above.mounted site) := by
  have proper := pictures.straight'.proper
  have proper' := pictures.straight.proper
  obtain ⟨isPrefix, inFront⟩ := Reference.prefix_packageName bare
  have relative := Reference.ofString_bare bare
  have spelledIn (site : List String) (proper : Proper site) :
      packageIn reference (above.mounted site) = (packageIn reference above).mounted site :=
    Relocation.child_mounted_packages proper isPrefix
  have spelled (site : List String) (proper : Proper site) :
      ((above.mounted site).child packagesName).child reference =
        ((above.child packagesName).child reference).mounted site :=
    Relocation.child_mounted_packages proper relative
  obtain ⟨-, path, target, few, fewTargets, packs⟩ := portable
  obtain ⟨loadsPackage, loadsPath⟩ := loads
  rw [spelledIn _ proper] at target few fewTargets packs loadsPackage loadsPath
  rw [spelled _ proper] at path loadsPath
  simp only [candidates, spelledIn _ proper, spelled _ proper, List.find?_append] at reached
  have descendsIn : (packageIn reference above).Descends :=
    descends_packages descends fun up => notUp (inFront.subset up)
  obtain ⟨exports, loadsExport⟩ := exported_copied pictures tree descendsIn
    (fun text isTarget => (target text isTarget).keeps) few fewTargets loadsPackage
    (fun found => arrived _ descendsIn (packs found))
    fun q descends first => reached q descends (by rw [first, Option.some_or])
  have onward (none : (exportCandidates d ((packageIn reference above).mounted base)
      reference).find? d.isFile = none) :=
    path_portable pictures tree isSite isSite' named arrived (descends_packages descends notUp)
      path (loadsPath none)
      fun q descends first => reached q descends (by rw [none, Option.none_or, first])
  constructor
  · simp only [candidates, spelledIn _ proper, spelledIn _ proper', spelled _ proper,
      spelled _ proper', List.find?_append]
    exact exports.or fun none => (onward none).1
  · constructor
    · rw [spelledIn _ proper']
      exact loadsExport
    · rw [spelledIn _ proper', spelled _ proper']
      intro none
      obtain ⟨file, -, isFile, isCopy⟩ := exports
      rw [isCopy, Option.map_eq_none_iff] at none
      exact (onward (by rw [isFile, none, Option.map_none])).2

end Copy

/-! ## The directories above a script -/

/-- A directory above a path of the tree that is in the tree, and those before it. -/
theorem split_below {here names : List String} {front rest : List Path} (proper : Proper base)
    (proper' : Proper here)
    (split : (Path.ofNames (base ++ here)).ancestors = front ++ .ofNames (base ++ names) :: rest) :
    ∃ before behind, (Path.ofNames here).ancestors = before ++ .ofNames names :: behind ∧
      front = before.map (mounted base) := by
  have notAbove : Path.ofNames (base ++ names) ∉ (Path.ofNames base).ancestors.tail :=
    fun above => by
    obtain ⟨further, inFront, other, same⟩ := Relocation.mem_tail_ancestors proper above
    obtain rfl := congrArg Path.names same
    exact other (inFront.eq_of_length_le (List.prefix_append base names).length_le)
  rw [← Path.mounted_ofNames, Path.ancestors_mounted proper proper'] at split
  rcases List.append_eq_append_iff.mp split with ⟨more, -, above⟩ | ⟨more, below, behind⟩
  · exact absurd (above ▸ List.mem_append_right _ List.mem_cons_self) notAbove
  · cases more with
    | nil =>
        rw [List.nil_append] at behind
        exact absurd (behind ▸ List.mem_cons_self) notAbove
    | cons directory more =>
        obtain ⟨rfl, -⟩ := List.cons.inj behind
        obtain ⟨before, others, ancestors, rfl, spelled⟩ := List.map_eq_append_iff.mp below
        obtain ⟨directory, later, rfl, same, -⟩ := List.map_eq_cons_iff.mp spelled
        obtain ⟨further, -, rfl⟩ := (proper'.mem_ancestors directory).mp
          (ancestors ▸ List.mem_append_right _ List.mem_cons_self)
        obtain rfl : further = names := List.append_cancel_left (congrArg Path.names same)
        exact ⟨before, later, ancestors, rfl⟩

/-! ## References in the copy -/

theorem isHit_iff {directory : Path} : IsHit d extensions reference directory ↔
    directory.fileName? ≠ some packagesName ∧
      ∃ path, (candidates d extensions reference directory).find? d.isFile = some path := by
  rw [← Option.isSome_iff_exists, List.find?_isSome]
  exact ⟨fun ⟨named, there⟩ => ⟨named, there⟩, fun ⟨named, there⟩ => ⟨named, there⟩⟩

section Reference

variable (pictures : Pictures d' site d base) (tree : d.IsTree)
  (isSite : IsSite extensions d base) (isSite' : IsSite extensions d' site)
  (named : ∀ extension ∈ extensions, IsName extension)
  (arrived : ∀ p : Path, p.Descends → packed (p.mounted base) →
    d'.isFile ((p.mounted site).child Manifest.fileName) = true)
  {here : List String} (properHere : Proper here) {requirer' found : Path}
  (start : startOf requirer = .ofNames (base ++ here))
  (start' : startOf requirer' = .ofNames (site ++ here))
  (arrives : ∀ q : Path, q.Descends → found = q.mounted base → d'.isFile (q.mounted site) = true)
include pictures tree isSite isSite' named arrived arrives

include properHere start start' in
/-- What a path spells in a script of the copy stands for the file of the copy. -/
theorem path_found (limit : Option Path) (keeps : (startOf requirer).KeepsBelow base reference)
    (portable : PortablePath d base extensions packed (spelledIn d reference requirer))
    (loads : (fileCandidates extensions (spelledIn d reference requirer)).find? d.isFile = none →
      d.isDirectory (spelledIn d reference requirer) = true →
        d.LoadsManifest (spelledIn d reference requirer))
    (first : (pathCandidates d extensions (spelledIn d reference requirer)).find? d.isFile =
      some found) :
    ∃ q : Path, q.Descends ∧ found = q.mounted base ∧
      (pathFile extensions (Path.normalize d'.current ((startOf requirer').child reference))).answer
        d' limit = .ok (some (q.mounted site)) := by
  rw [start, ← Path.mounted_ofNames] at keeps
  have plain := aim_plain keeps.keeps (Path.plain_ofNames.mpr properHere).descends.toRooted
  have spelled : spelledIn d reference requirer = (aim (.ofNames here) reference).mounted base := by
    rw [spelledIn, start, ← Path.mounted_ofNames, normalize_aim keeps.keeps isSite.proper]
  rw [spelled] at portable loads first
  obtain ⟨⟨file, descends, isFound, isCopy⟩, loads'⟩ :=
    path_portable pictures tree isSite isSite' named
    arrived plain.descends portable loads
    fun q descends isFirst => arrives q descends (Option.some.inj (first.symm.trans isFirst))
  obtain ⟨q, rfl, rfl⟩ := Option.map_eq_some_iff.mp (isFound.symm.trans first)
  refine ⟨q, descends q rfl, rfl, ?_⟩
  rw [start', ← Path.mounted_ofNames, normalize_aim keeps.keeps isSite'.proper,
    pathFile_answer loads', isCopy]
  rfl

section Installed

variable (bare : Reference.isRelative reference = false)
  (notUp : ".." ∉ (Path.ofString reference).names)
  (portable : ∀ directory, Visits d extensions reference (startOf requirer).ancestors directory →
    PortableIn d base extensions packed reference directory)
  (loads : ∀ directory, Visits d extensions reference (startOf requirer).ancestors directory →
    directory.fileName? ≠ some packagesName → LoadsIn d extensions reference directory)
  {directory : Path}
  (deepest : IsDeepestHit d extensions reference (startOf requirer).ancestors directory)
  (first : (candidates d extensions reference directory).find? d.isFile = some found)
include bare notUp portable loads deepest first

/-- A directory of the tree that is looked at comes to the same in the copy. -/
theorem visited_copied {above : Path} (descends : above.Descends)
    (visits : Visits d extensions reference (startOf requirer).ancestors (above.mounted base))
    (isNamed : (above.mounted base).fileName? ≠ some packagesName) :
    Copied base site ((candidates d extensions reference (above.mounted base)).find? d.isFile)
        ((candidates d' extensions reference (above.mounted site)).find? d'.isFile) ∧
      LoadsIn d' extensions reference (above.mounted site) := by
  refine installed_portable pictures tree isSite isSite' named arrived descends bare notUp
    (portable _ visits) (loads _ visits isNamed) fun q descends isFirst => arrives q descends ?_
  obtain rfl := deepest.eq visits (isHit_iff.mpr ⟨isNamed, _, isFirst⟩)
  exact Option.some.inj (first.symm.trans isFirst)

theorem isHit_copied {front : List String} (proper : Proper front)
    (visits : Visits d extensions reference (startOf requirer).ancestors
      ((Path.ofNames front).mounted base)) :
    IsHit d' extensions reference ((Path.ofNames front).mounted site) ↔
      IsHit d extensions reference ((Path.ofNames front).mounted base) := by
  rw [isHit_iff, isHit_iff, ne_eq, ne_eq,
    Path.fileName?_mounted_iff isSite'.proper proper isSite'.named,
    ← Path.fileName?_mounted_iff isSite.proper proper isSite.named]
  refine and_congr_right fun isNamed => ?_
  obtain ⟨⟨file, -, isFile, isCopy⟩, -⟩ := visited_copied pictures tree isSite isSite' named arrived
    arrives bare notUp portable loads deepest first
      (Path.plain_ofNames.mpr proper).descends visits isNamed
  rw [isFile, isCopy]
  cases file <;> simp

include properHere start start' in
/-- The copy of the deepest hit is the deepest hit of the copy, and what is looked at in the copy
until then is a copy of what is looked at in the tree. -/
theorem deepest_copied : ∃ names, Proper names ∧ directory = (Path.ofNames names).mounted base ∧
    IsDeepestHit d' extensions reference (startOf requirer').ancestors
      ((Path.ofNames names).mounted site) ∧
    ∀ other, Visits d' extensions reference (startOf requirer').ancestors other →
      ∃ inner, Proper inner ∧ other = (Path.ofNames inner).mounted site ∧
        Visits d extensions reference (startOf requirer).ancestors
          ((Path.ofNames inner).mounted base) := by
  obtain ⟨names, rfl⟩ := (portable directory deepest.visits).below
  obtain ⟨front, rest, split, before, hit⟩ := id deepest
  have below := split
  rw [start] at below
  obtain ⟨nearer, further, ancestors, rfl⟩ := split_below isSite.proper properHere below
  rw [← Path.mounted_ofNames] at split hit
  have visited : ∀ above, above ∈ nearer ∨ above = .ofNames names → ∃ inner, Proper inner ∧
      above = .ofNames inner ∧
      Visits d extensions reference (startOf requirer).ancestors (above.mounted base) := by
    intro above member
    have isAbove : above ∈ (Path.ofNames here).ancestors := by
      rw [ancestors]
      rcases member with isNearer | rfl
      · exact List.mem_append_left _ isNearer
      · exact List.mem_append_right _ List.mem_cons_self
    obtain ⟨inner, inFront, rfl⟩ := (properHere.mem_ancestors above).mp isAbove
    refine ⟨inner, properHere.of_prefix inFront, rfl, ?_⟩
    rw [split, visits_iff before hit]
    exact member.imp (fun isNearer => List.mem_map_of_mem isNearer) (congrArg _)
  have same {inner : List String} (proper : Proper inner) :=
    isHit_copied pictures tree isSite isSite'
    named arrived arrives bare notUp portable loads deepest first proper
  have split' : (startOf requirer').ancestors = nearer.map (mounted site) ++
      (Path.ofNames names).mounted site ::
        (further.map (mounted site) ++ (Path.ofNames site).ancestors.tail) := by
    rw [start', ← Path.mounted_ofNames, Path.ancestors_mounted isSite'.proper properHere, ancestors]
    simp
  have before' : ∀ other ∈ nearer.map (mounted site), ¬ IsHit d' extensions reference other := by
    intro other member
    obtain ⟨above, isNearer, rfl⟩ := List.mem_map.mp member
    obtain ⟨inner, proper, rfl, visits⟩ := visited above (.inl isNearer)
    rw [same proper visits]
    exact before _ (List.mem_map_of_mem isNearer)
  obtain ⟨inner, proper, isInner, visits⟩ := visited _ (.inr rfl)
  obtain rfl : names = inner := congrArg Path.names isInner
  have hit' := (same proper visits).mpr hit
  refine ⟨names, proper, Path.mounted_ofNames _ _, ⟨_, _, split', before', hit'⟩,
    fun other visits' => ?_⟩
  rw [split', visits_iff before' hit'] at visits'
  rcases visits' with isNearer | rfl
  · obtain ⟨above, member, rfl⟩ := List.mem_map.mp isNearer
    obtain ⟨inner, proper, rfl, visits⟩ := visited above (.inl member)
    exact ⟨inner, proper, rfl, visits⟩
  · exact ⟨names, proper, rfl, visits⟩

include properHere start start' in
/-- What is installed for a script is installed for the script of the copy. -/
theorem installed_found (limit : Option Path) :
    ∃ q : Path, q.Descends ∧ found = q.mounted base ∧ ∃ package,
      (installed extensions reference (startOf requirer')).answer d' limit =
        .ok (some ⟨q.mounted site, package⟩) := by
  have looked {inner : List String} (proper : Proper inner) :=
    visited_copied pictures tree isSite isSite' named arrived arrives bare notUp portable
      loads deepest
      first (Path.plain_ofNames.mpr proper).descends
  obtain ⟨names, proper, rfl, deepest', visited⟩ :=
    deepest_copied pictures tree isSite isSite' named
    arrived properHere start start' arrives bare notUp portable loads deepest first
  obtain ⟨⟨file, descends, isFile, isCopy⟩, -⟩ := looked proper deepest.visits deepest.isHit.named
  obtain ⟨q, rfl, rfl⟩ := Option.map_eq_some_iff.mp (isFile.symm.trans first)
  refine ⟨q, descends q rfl, rfl, ?_⟩
  obtain ⟨found, answered, settles⟩ : ∃ found,
      (installedNext extensions reference (startOf requirer').ancestors).answer d' limit =
        .ok found ∧
        Settles d' extensions reference (startOf requirer').ancestors found := by
    refine installedNext_answer bare fun front directory rest isSplit noHit isNamed => ?_
    obtain ⟨inner, proper, rfl, visits⟩ := visited directory ⟨front, rest, isSplit, noHit⟩
    rw [ne_eq, Path.fileName?_mounted_iff isSite'.proper proper isSite'.named,
      ← Path.fileName?_mounted_iff isSite.proper proper isSite.named] at isNamed
    exact (looked proper visits isNamed).2
  cases settles with
  | @hit directory place deepest'' isFirst =>
      obtain rfl := deepest''.eq deepest'.visits deepest'.isHit
      obtain ⟨path, package⟩ := place
      obtain rfl : q.mounted site = path := Option.some.inj (isCopy.symm.trans isFirst)
      exact ⟨package, answered⟩
  | nothing noHit =>
      obtain ⟨front, rest, split, -, hit⟩ := deepest'
      exact absurd hit (noHit _ (split ▸ List.mem_append_right _ List.mem_cons_self))

end Installed

end Reference

/-- A reference that stays below a directory means in a copy of a script the copy of the file that
it means in the script, over the copies of the links on the way, if these and the manifests that are
needed are in the copy. -/
theorem resolve_copied (pictures : Pictures d' site d base) (tree : d.IsTree)
    (isSite : IsSite extensions d base) (isSite' : IsSite extensions d' site)
    (named : ∀ extension ∈ extensions, IsName extension)
    (arrived : ∀ p : Path, p.Descends → packed (p.mounted base) →
      d'.isFile ((p.mounted site).child Manifest.fileName) = true)
    {known known' : Manifests} (faithful : known.Faithful d) (faithful' : known'.Faithful d')
    {here inner : List String} {name : String}
    (isReal : d.IsReal (.ofNames (base ++ (here ++ [name]))))
    {package : Option Path} {links : List Link}
    (resolved :
      (((resolve extensions reference (.ofNames (base ++ (here ++ [name])))) d).run known).1 =
      .ok (.resolved (.ofNames (base ++ inner)) package links))
    (direct : Reference.IsDirect reference)
    (portable : Portable d base extensions packed reference (.ofNames (base ++ (here ++ [name]))))
    (carries : ∀ link ∈ links, d'.Carries site base link) {file : Disk.File}
    (there : d'.root.at? (site ++ inner) = some (.file file)) :
    ∃ package',
      (((resolve extensions reference (.ofNames (site ++ (here ++ [name])))) d').run known').1 =
        .ok (.resolved (.ofNames (site ++ inner)) package' (links.map (Link.moved base site))) := by
  have notBuiltin : Reference.isBuiltin reference = false := by
    by_contra builtin
    rw [Bool.not_eq_false] at builtin
    rw [resolve, if_pos builtin] at resolved
    cases resolved
  obtain ⟨found, finds, real, crossed⟩ :=
    (resolve_findsAt faithful rfl).value _ resolved _ _ _ rfl
  -- Both scripts are in copies of the same directory.
  obtain ⟨path, isPath⟩ := isReal
  obtain ⟨-, straightScript⟩ := tree.straight_of_realPath isPath
  obtain ⟨-, properScript⟩ := Path.proper_append.mp straightScript.proper
  have properHere := properScript.of_prefix (List.prefix_append here [name])
  have start (place : List String) (proper : Proper place) :
      startOf (.ofNames (place ++ (here ++ [name]))) = .ofNames (place ++ here) := by
    have whole : Proper (place ++ here ++ [name]) := by
      rw [List.append_assoc]
      exact Path.proper_append.mpr ⟨proper, properScript⟩
    rw [startOf, ← List.append_assoc, whole.parent?_concat]
    rfl
  have straight : d.Straight (base ++ here) :=
    straightScript.of_prefix ⟨[name], List.append_assoc ..⟩
  rw [start base isSite.proper] at crossed
  have takes := finds.takes
  have isFile : d.isFile found = true := by
    cases takes with
    | path _ _ first | installed _ _ _ first => exact List.find?_some first
  have arrives (q : Path) (descends : q.Descends) (isFound : found = q.mounted base) :=
    found_copy pictures tree straight descends (isFound ▸ isFile) (isFound ▸ crossed) carries
      (isFound ▸ real) there known'.boundary
  have isCopy (q : Path) (descends : q.Descends) (isFound : found = q.mounted base) :
      d'.isFile (q.mounted site) = true := by
    simp [Disk.isFile, (arrives q descends isFound).1]
  have realPath (q : Path) (descends : q.Descends) (isFound : found = q.mounted base) :
      d'.realPath (q.mounted site) = .ok (.ofNames (site ++ inner)) := by
    simp [Disk.realPath, (arrives q descends isFound).1, Except.map, Disk.Place.path]
  cases takes with
  | path relative loads first =>
      obtain ⟨keeps, travels⟩ := portable.path relative
      obtain ⟨q, descends, isFound, stands⟩ := path_found pictures tree isSite isSite' named arrived
        properHere (start base isSite.proper)
          (start site isSite'.proper) isCopy known'.boundary keeps
        travels loads first
      refine ⟨none, run_of_answer faithful' (resolve_relative notBuiltin relative stands
        (realPath q descends isFound) ?_) fun _ lacks => by cases lacks⟩
      rw [start site isSite'.proper]
      exact (arrives q descends isFound).2
  | installed bare loads deepest first =>
      have notUp : ".." ∉ (Path.ofString reference).names :=
        direct.resolve_left (by simp [bare])
      obtain ⟨q, descends, isFound, package', stands⟩ :=
        installed_found pictures tree isSite isSite'
        named arrived properHere (start base isSite.proper)
          (start site isSite'.proper) isCopy bare notUp
        (portable.installed bare) loads deepest first known'.boundary
      refine ⟨package', run_of_answer faithful' (resolve_installed notBuiltin bare stands
        (realPath q descends isFound) ?_) fun _ lacks => by cases lacks⟩
      rw [start site isSite'.proper]
      exact (arrives q descends isFound).2

end Resolution

end FunctionArchive
