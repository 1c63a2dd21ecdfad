import FunctionArchive.Proofs.Relocation.Resolution

/-!
# Installed packages of a project that was moved

A search upwards from a directory of a project goes through the directories of the project first,
and then through those above the site, in which nothing is installed and no manifest stands. So it
finds the same package of the project wherever the project is checked out
(`installed_parallel`), and the same manifest (`find_parallel`).
-/

set_option autoImplicit false

namespace FunctionArchive

open Query (Parallel SameWay Informed)
open Path (Proper IsName mounted)
open Disk (ofTree Inside LinksStay Hosts)

/-- What was found in a tree that stands at a site. -/
def Installed.mounted (site : List String) (place : Installed) : Installed :=
  ⟨place.path.mounted site, place.package.map (Path.mounted site)⟩

namespace Relocation

variable {tree : Disk.Node} {extensions : List String} {reach : Path → Bool} {d d' : Disk}
  {site site' : List String} {limit limit' : Option Path} {p directory above : Path}
  {reference : String}

/-! ## Above the site -/

/-- The directories above a site. -/
theorem mem_tail_ancestors (proper : Proper site)
    (isAbove : above ∈ (Path.ofNames site).ancestors.tail) :
    ∃ front, front <+: site ∧ front ≠ site ∧ above = .ofNames front := by
  rcases List.eq_nil_or_concat site with rfl | ⟨front, last, rfl⟩
  · cases isAbove
  · rw [List.concat_eq_append] at proper isAbove ⊢
    rw [proper.ancestors_concat, List.tail_cons,
      (proper.of_prefix (List.prefix_append _ _)).mem_ancestors] at isAbove
    obtain ⟨further, inFront, rfl⟩ := isAbove
    refine ⟨further, inFront.trans (List.prefix_append _ _), ?_, rfl⟩
    rintro rfl
    have short := inFront.length_le
    rw [List.length_append, List.length_singleton] at short
    omega

/-- Nothing is installed above the site. -/
theorem installedNext_above (hosts : d.Hosts site tree) {directories : List Path}
    (areAbove : ∀ above ∈ directories, above ∈ (Path.ofNames site).ancestors.tail)
    (known : Manifests) :
    ((Resolution.installedNext extensions reference directories) d).run known =
      (.ok none, known) := by
  induction directories with
  | nil => rfl
  | cons above rest ih =>
      obtain ⟨isAbove, others⟩ := List.forall_mem_cons.mp areAbove
      obtain ⟨front, inFront, strict, rfl⟩ := mem_tail_ancestors hosts.proper isAbove
      have packages : (Path.ofNames front).child Resolution.packagesName =
          .ofNames (front ++ [Resolution.packagesName]) :=
        (hosts.proper.of_prefix inFront).child_eq (by decide)
      rw [Resolution.installedNext, packages, Query.run_bind, Query.run_test]
      simp only [hosts.packages_above inFront strict, Bool.not_false, Bool.or_true, if_true]
      exact ih others

/-- No manifest stands above the site. -/
theorem findIn_above (hosts : d.Hosts site tree) {directories : List Path}
    (areAbove : ∀ above ∈ directories, above ∈ (Path.ofNames site).ancestors.tail)
    {known : Manifests} (informed : Informed d limit known) :
    ((Manifests.findIn directories d).run known).1 = .ok none ∧
      Informed d limit ((Manifests.findIn directories d).run known).2 := by
  induction directories generalizing known with
  | nil => exact ⟨rfl, informed⟩
  | cons above rest ih =>
      obtain ⟨isAbove, others⟩ := List.forall_mem_cons.mp areAbove
      obtain ⟨front, inFront, strict, rfl⟩ := mem_tail_ancestors hosts.proper isAbove
      have manifest : (Path.ofNames front).child Manifest.fileName =
          .ofNames (front ++ [Manifest.fileName]) :=
        (hosts.proper.of_prefix inFront).child_eq (by decide)
      obtain ⟨outcome, learns, boundary⟩ := informed.faithful.run_load (.ofNames front)
      rw [manifest, hosts.fetch_above inFront strict] at outcome
      rw [Manifests.findIn, Query.run_bind]
      generalize (Manifests.load (.ofNames front) d).run known = ended at outcome learns boundary ⊢
      obtain ⟨result, later⟩ := ended
      have learnt : Informed d limit later := ⟨learns, boundary.trans informed.boundary⟩
      cases outcome with
      | ok matched =>
          cases matched with
          | none =>
              dsimp only
              rw [Query.run_bind]
              show ((if later.boundary.any (·.same (.ofNames front)) then
                  (pure none : Query (Option Manifest)) else Manifests.findIn rest) d |>.run
                    later).1 = _ ∧
                Informed d limit ((if later.boundary.any (·.same (.ofNames front)) then
                  (pure none : Query (Option Manifest)) else Manifests.findIn rest) d
                    |>.run later).2
              split
              · exact ⟨rfl, learnt⟩
              · exact ih others learnt

/-! ## In the project -/

section Checkouts

variable (project : Contained tree) (named : ∀ extension ∈ extensions, IsName extension)
  (here : Checkout tree extensions reach d site limit)
  (there : Checkout tree extensions reach d' site' limit')

/-- The directories above a directory of the project. -/
theorem Contained.mem_ancestors (project : Contained tree)
    (isDirectory : (ofTree tree).IsRealDirectory directory)
    (isAbove : above ∈ directory.ancestors) :
    (ofTree tree).IsRealDirectory above ∧ ∃ front, Proper front ∧ above = .ofNames front := by
  obtain ⟨entries, stands⟩ := isDirectory.there
  have proper := project.proper_of_at? stands
  rw [Path.eq_ofNames isDirectory.absolute, proper.mem_ancestors] at isAbove
  obtain ⟨front, ⟨rest, split⟩, rfl⟩ := isAbove
  have properFront : Proper front := proper.of_prefix ⟨rest, split⟩
  refine ⟨⟨rfl, properFront.leadsDown, ?_⟩, front, properFront, rfl⟩
  rw [← split] at stands
  cases rest with
  | nil =>
      rw [List.append_nil] at stands
      exact ⟨entries, stands⟩
  | cons next others => exact Disk.Node.directory_of_at?_append stands (List.cons_ne_nil _ _)

section Bare

variable (mentions : Mentions tree directory reference)
  (bare : Reference.isRelative reference = false) (isAbove : above ∈ directory.ancestors)

include project mentions bare isAbove

theorem stays_reference : Stays tree ((above.child Resolution.packagesName).child reference) := by
  have isDirectory := project.directory_of_mentions mentions
  have stays := project.stays_directory (project.mem_ancestors isDirectory isAbove).1
  exact ⟨(stays.toRooted.child _).child _,
    project.bare directory reference mentions bare above isAbove⟩

theorem stays_package : Stays tree (Resolution.packageIn reference above) := by
  have isDirectory := project.directory_of_mentions mentions
  obtain ⟨isReal, -⟩ := project.mem_ancestors isDirectory isAbove
  have isPart : Path.IsPart Resolution.packagesName := by decide
  have packages := (project.stays_directory isReal).child_name project.links isPart (by decide)
  obtain ⟨relative, rest, split⟩ := Reference.prefix_packageName bare
  refine ⟨packages.toRooted.child _, ?_⟩
  by_cases blank : (Path.ofString (Reference.packageName reference)).names = []
  · exact (packages.child project.links relative (by simp [blank])).inside
  · have whole := project.bare directory reference mentions bare above isAbove
    rw [Path.child_of_relative _ (Reference.ofString_bare bare) (by simp [← split, blank]),
      ← split] at whole
    rw [Resolution.packageIn, Path.child_of_relative _ relative blank]
    dsimp only at whole ⊢
    rw [← List.append_assoc] at whole
    exact whole.of_append

omit project mentions bare isAbove in
theorem child_mounted_packages (proper : Proper site) {text : String}
    (relative : (Path.ofString text).absolute = false) :
    ((above.mounted site).child Resolution.packagesName).child text =
      ((above.child Resolution.packagesName).child text).mounted site := by
  have isPart : Path.IsPart Resolution.packagesName := by decide
  rw [Path.child_mounted_name proper above isPart]
  refine Path.child_mounted proper relative (.inl ?_)
  rw [Path.child_eq _ isPart]
  simp

include here there

/-- A package exports the same file for a reference, or none. -/
theorem exported_parallel :
    Parallel d d' limit limit' (Found tree site site')
      (Resolution.exported ((Resolution.packageIn reference above).mounted site) reference)
      (Resolution.exported ((Resolution.packageIn reference above).mounted site') reference) := by
  have stays := stays_package project mentions bare isAbove
  have same : d.isDirectory ((Resolution.packageIn reference above).mounted site) =
      d'.isDirectory ((Resolution.packageIn reference above).mounted site') := by
    rw [here.isDirectory_mounted stays, there.isDirectory_mounted stays]
  refine .andThen (.test same) fun isDirectory => ?_
  cases isDirectory with
  | false => exact .pure .none
  | true =>
      refine .bind (load_parallel project here there stays) ?_
      rintro m m' ⟨matched, matched'⟩
      rw [Manifest.bind_eq_of_matches matched _ fun _ _ => rfl,
        Manifest.bind_eq_of_matches matched' _ fun _ _ => rfl]
      cases exports : ((ofTree tree).manifestIn (Resolution.packageIn reference above)).bind
          (·.exportTarget? (Reference.subpath reference)) with
      | none => exact .pure .none
      | some target =>
          obtain ⟨manifest, isManifest, isTarget⟩ := Option.bind_eq_some_iff.mp exports
          have keeps :=
            project.exports directory reference mentions bare above isAbove manifest target
            isManifest isTarget
          obtain ⟨inner, proper, spelled⟩ := keeps.normalize stays.toRooted
          refine .bind (normalized_parallel _ _) ?_
          rintro _ _ ⟨rfl, rfl⟩
          rw [spelled site d.current here.proper, spelled site' d'.current there.proper]
          exact firstFile_parallel here.toHosts there.toHosts
            (List.forall_mem_singleton.mpr (stays_of_proper project.links proper))

include named

/-- The packages installed in a directory of the project hold the same file for a reference, or
none. -/
theorem installedIn_parallel :
    Parallel d d' limit limit' (Found tree site site')
      (Resolution.installedIn extensions
        ((above.mounted site).child Resolution.packagesName) reference)
      (Resolution.installedIn extensions ((above.mounted site').child Resolution.packagesName)
        reference) := by
  have relative := Reference.ofString_bare bare
  have relative' := (Reference.prefix_packageName bare).1
  unfold Resolution.installedIn
  rw [child_mounted_packages here.proper relative, child_mounted_packages here.proper relative',
    child_mounted_packages there.proper relative, child_mounted_packages there.proper relative']
  exact orElse_parallel (exported_parallel project here there mentions bare isAbove)
    (pathFile_parallel project named here there (stays_reference project mentions bare isAbove)
      (project.mains directory reference mentions _ (.bare bare isAbove)))

end Bare

/-! ## Searches -/

/-- Two searches that found the same among the packages of the project, or nothing. -/
def FoundInstalled (tree : Disk.Node) (site site' : List String) (found found' : Option Installed) :
    Prop :=
  ∃ place : Option Installed, (∀ p, place = some p → Stays tree p.path ∧
      (ofTree tree).isFile p.path = true ∧
      ∀ root, p.package = some root → (ofTree tree).IsRealDirectory root) ∧
    found = place.map (Installed.mounted site) ∧ found' = place.map (Installed.mounted site')

theorem FoundInstalled.none : FoundInstalled tree site site' none none :=
  ⟨Option.none, nofun, rfl, rfl⟩

/-- The real path of something in the project. -/
theorem realPath_parallel (here : d.Hosts site tree) (there : d'.Hosts site' tree)
    (stays : Stays tree p) :
    Parallel d d' limit limit'
      (fun real real' => ∃ inner, (ofTree tree).realPath p = .ok inner ∧
        real = inner.mounted site ∧ real' = inner.mounted site')
      (Resolution.realPath (p.mounted site)) (Resolution.realPath (p.mounted site')) := by
  refine .askDisk ?_
  rw [here.realPath_mounted stays, there.realPath_mounted stays]
  cases (ofTree tree).realPath p with
  | ok real => exact .inl ⟨_, _, rfl, rfl, real, rfl, rfl, rfl⟩
  | error fault => exact .inr ⟨fault, fault, rfl, rfl⟩

/-- The site does not lead through installed packages. -/
theorem packagesName_notMem (hosts : d.Hosts site tree) : Resolution.packagesName ∉ site := by
  intro member
  obtain ⟨front, rest, rfl⟩ := List.append_of_mem member
  have there := hosts.there
  rw [List.append_cons, Disk.Node.at?_append] at there
  obtain ⟨node, found, -⟩ := Option.bind_eq_some_iff.mp there
  exact (hosts.above front _ node (List.prefix_append _ _) (by simp) found).1 rfl

/-- No directory of a project becomes a directory of packages where the project stands. -/
theorem isPackages_mounted (hosts : d.Hosts site tree) {front : List String}
    (proper : Proper front) :
    (((Path.ofNames front).mounted site).fileName? == some Resolution.packagesName) =
      ((Path.ofNames front).fileName? == some Resolution.packagesName) := by
  have other : site.getLast? ≠ some Resolution.packagesName := fun last =>
    packagesName_notMem hosts (List.mem_of_getLast? last)
  rw [Bool.eq_iff_iff, beq_iff_eq, beq_iff_eq, Path.fileName?_mounted_iff hosts.proper proper other]

include project named here there

theorem installedNext_parallel (mentions : Mentions tree directory reference)
    (bare : Reference.isRelative reference = false) {directories : List Path}
    (areAbove : ∀ above ∈ directories, above ∈ directory.ancestors) :
    Parallel d d' limit limit' (FoundInstalled tree site site')
      (Resolution.installedNext extensions reference
        (directories.map (mounted site) ++ (Path.ofNames site).ancestors.tail))
      (Resolution.installedNext extensions reference
        (directories.map (mounted site') ++ (Path.ofNames site').ancestors.tail)) := by
  induction directories with
  | nil =>
      have nothing {d : Disk} {site : List String} (hosts : d.Hosts site tree)
          (known : Manifests) :=
        @installedNext_above tree extensions d site reference hosts _ (fun _ member => member) known
      refine .of_answers (a := none) (b := none) (fun known informed => ?_)
        (fun known informed => ?_) .none
      · rw [List.map_nil, List.nil_append, nothing here.toHosts]
        exact ⟨rfl, informed⟩
      · rw [List.map_nil, List.nil_append, nothing there.toHosts]
        exact ⟨rfl, informed⟩
  | cons above rest ih =>
      obtain ⟨isAbove, others⟩ := List.forall_mem_cons.mp areAbove
      have onward := ih others
      obtain ⟨isReal, front, proper, isFront⟩ :=
        project.mem_ancestors (project.directory_of_mentions mentions) isAbove
      have stays := project.stays_directory isReal
      have isPart : Path.IsPart Resolution.packagesName := by decide
      have packages := stays.child_name project.links isPart (by decide)
      have stays' := stays_package project mentions bare isAbove
      have relative' := (Reference.prefix_packageName bare).1
      have same : d.isDirectory ((above.mounted site).child Resolution.packagesName) =
          d'.isDirectory ((above.mounted site').child Resolution.packagesName) := by
        rw [Path.child_mounted_name here.proper _ isPart,
          Path.child_mounted_name there.proper _ isPart,
          here.isDirectory_mounted packages, there.isDirectory_mounted packages]
      have samePackage : d.isDirectory ((Resolution.packageIn reference above).mounted site) =
          d'.isDirectory ((Resolution.packageIn reference above).mounted site') := by
        rw [here.isDirectory_mounted stays', there.isDirectory_mounted stays']
      have named' : ((above.mounted site).fileName? == some Resolution.packagesName) =
          ((above.mounted site').fileName? == some Resolution.packagesName) := by
        rw [isFront, isPackages_mounted here.toHosts proper,
          isPackages_mounted there.toHosts proper]
      rw [List.map_cons, List.map_cons, List.cons_append, List.cons_append,
        Resolution.installedNext,
        Resolution.installedNext]
      refine .andThen (.test same) fun isDirectory => ?_
      rw [named']
      refine .ite onward ?_
      refine .bind (installedIn_parallel project named here there mentions bare isAbove) ?_
      rintro _ _ ⟨file, staysFile, rfl, rfl⟩
      cases file with
      | none => exact onward
      | some file =>
          obtain ⟨staysFile, isFile⟩ := staysFile file rfl
          dsimp only [Option.map_some]
          rw [child_mounted_packages here.proper relative',
            child_mounted_packages there.proper relative']
          refine .bind (.testIs samePackage) ?_
          rintro _ isPackage ⟨rfl, inMounted⟩
          have isDirectory := (here.isDirectory_mounted stays').symm.trans inMounted
          cases isPackage with
          | false =>
              refine .pure ⟨some ⟨file, none⟩, ?_, rfl, rfl⟩
              rintro _ ⟨⟩
              exact ⟨staysFile, isFile, fun _ none => absurd none (Option.some_ne_none _).symm⟩
          | true =>
              refine .bind (realPath_parallel here.toHosts there.toHosts stays') ?_
              rintro _ _ ⟨root, found, rfl, rfl⟩
              refine .pure ⟨some ⟨file, some root⟩, ?_, rfl, rfl⟩
              rintro _ ⟨⟩
              refine ⟨staysFile, isFile, ?_⟩
              rintro _ ⟨⟩
              exact Disk.isRealDirectory_of_isDirectory isDirectory found

end Checkouts

end Relocation

end FunctionArchive
