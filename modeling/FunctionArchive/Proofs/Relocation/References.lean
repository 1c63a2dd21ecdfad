import FunctionArchive.Proofs.Relocation.Installed

/-!
# References of a project that was moved

A reference in a project leads to the same file of the project wherever the project is checked out,
through the same package and over the same links (`resolve_parallel`). If it leads nowhere, the same
manifests say whether that is tolerated (`tolerance_parallel`).
-/

set_option autoImplicit false

namespace FunctionArchive

open Query (Parallel SameWay Informed)
open Path (Proper IsName IsPart mounted)
open Disk (ofTree Inside LinksStay Hosts)

/-- A link of a tree that stands at a site. -/
def Link.mounted (site : List String) (link : Link) : Link :=
  ⟨link.path.mounted site, link.target.mounted site⟩

namespace Relocation

variable {tree : Disk.Node} {extensions : List String} {reach : Path → Bool} {d d' : Disk}
  {site site' : List String} {limit limit' : Option Path} {p directory : Path} {reference : String}
  {front names : List String}

theorem Contained.eq_ofNames (project : Contained tree)
    (isDirectory : (ofTree tree).IsRealDirectory directory) :
    ∃ names, Proper names ∧ directory = .ofNames names := by
  obtain ⟨entries, stands⟩ := isDirectory.there
  exact ⟨_, project.proper_of_at? stands, Path.eq_ofNames isDirectory.absolute⟩

/-! ## Searches upwards -/

section Searches

variable (project : Contained tree) (here : Checkout tree extensions reach d site limit)
  (there : Checkout tree extensions reach d' site' limit')

include project here there

theorem installed_parallel (named : ∀ extension ∈ extensions, IsName extension)
    (mentions : Mentions tree directory reference) (bare : Reference.isRelative reference = false) :
    Parallel d d' limit limit' (FoundInstalled tree site site')
      (Resolution.installed extensions reference (directory.mounted site))
      (Resolution.installed extensions reference (directory.mounted site')) := by
  have search := installedNext_parallel project named here there mentions bare fun above => id
  obtain ⟨names, proper, rfl⟩ := project.eq_ofNames (project.directory_of_mentions mentions)
  unfold Resolution.installed
  rw [Path.ancestors_mounted here.proper proper, Path.ancestors_mounted there.proper proper]
  exact search

/-- The nearest manifest says the same. -/
theorem findIn_parallel {directories : List Path}
    (areReal : ∀ above ∈ directories, (ofTree tree).IsRealDirectory above) :
    Parallel d d' limit limit' (Option.Rel Manifest.Matches)
      (Manifests.findIn (directories.map (mounted site) ++ (Path.ofNames site).ancestors.tail))
      (Manifests.findIn
        (directories.map (mounted site') ++ (Path.ofNames site').ancestors.tail)) := by
  induction directories with
  | nil =>
      exact .of_answers (fun known informed => findIn_above here.toHosts (fun _ => id) informed)
        (fun known informed => findIn_above there.toHosts (fun _ => id) informed) .none
  | cons above rest ih =>
      obtain ⟨isReal, others⟩ := List.forall_mem_cons.mp areReal
      rw [List.map_cons, List.map_cons, List.cons_append, List.cons_append, Manifests.findIn,
        Manifests.findIn]
      refine .bind (load_parallel project here there (project.stays_directory isReal)) ?_
      rintro m m' ⟨matched, matched'⟩
      cases manifest : (ofTree tree).manifestIn above with
      | some found =>
          rw [manifest] at matched matched'
          obtain ⟨matched⟩ := matched
          obtain ⟨matched'⟩ := matched'
          exact .pure (.some (matched.trans matched'.symm))
      | none =>
          rw [manifest] at matched matched'
          cases matched
          cases matched'
          refine .bind .knowledge ?_
          rintro known known' ⟨boundary, boundary'⟩
          rw [boundary, boundary', here.boundary above isReal, there.boundary above isReal]
          exact .ite (.pure .none) (ih others)

theorem tolerance_parallel (isDirectory : (ofTree tree).IsRealDirectory directory)
    (package : String) :
    Parallel d d' limit limit' (Option.Rel fun _ _ => True)
      (Resolution.tolerance package (directory.mounted site))
      (Resolution.tolerance package (directory.mounted site')) := by
  have search := findIn_parallel project here there fun above isAbove =>
    (project.mem_ancestors isDirectory isAbove).1
  obtain ⟨names, proper, rfl⟩ := project.eq_ofNames isDirectory
  have found : Parallel d d' limit limit' (Option.Rel Manifest.Matches)
      (Manifests.find ((Path.ofNames names).mounted site))
      (Manifests.find ((Path.ofNames names).mounted site')) := by
    unfold Manifests.find
    rw [Path.ancestors_mounted here.proper proper, Path.ancestors_mounted there.proper proper]
    exact search
  refine .bind found fun m m' related => ?_
  cases related with
  | none => exact .pure .none
  | @some first second matched =>
      rw [Manifest.Matches] at matched
      generalize first.directory = root at matched
      subst matched
      refine .ite (.pure (.some trivial)) (.ite (.pure (.some trivial)) ?_)
      dsimp only
      cases second.name with
      | none => exact .pure .none
      | some name => exact .ite (.pure (.some trivial)) (.pure .none)

end Searches

/-! ## Links on the way -/

/-- Two values that one value has become at two sites. -/
def Both {α β : Type} (f f' : α → β) (holds : α → Prop) (b b' : β) : Prop :=
  ∃ a, holds a ∧ b = f a ∧ b' = f' a

/-- Lists of such values have become of one list. -/
theorem exists_of_forall₂ {α β : Type} {f f' : α → β} {holds : α → Prop} {bs bs' : List β}
    (both : List.Forall₂ (Both f f' holds) bs bs') :
    ∃ as : List α, (∀ a ∈ as, holds a) ∧ bs = as.map f ∧ bs' = as.map f' := by
  induction both with
  | nil => exact ⟨[], nofun, rfl, rfl⟩
  | cons first _ ih =>
      obtain ⟨a, isFirst, rfl, rfl⟩ := first
      obtain ⟨as, others, rfl, rfl⟩ := ih
      exact ⟨a :: as, List.forall_mem_cons.mpr ⟨isFirst, others⟩, rfl, rfl⟩

theorem forall₂_both {α β : Type} {f f' : α → β} {holds : α → Prop} {as : List α}
    (hold : ∀ a ∈ as, holds a) : List.Forall₂ (Both f f' holds) (as.map f) (as.map f') :=
  List.forall₂_map_left_iff.mpr (List.forall₂_map_right_iff.mpr
    (List.forall₂_same.mpr fun a member => ⟨a, hold a member, rfl, rfl⟩))

/-- A link of a tree: an entry of a directory, which leads to a path of the tree. -/
structure IsRooted (link : Link) : Prop where
  entry : ∃ front name, Path.isRedundant name = false ∧ link.path = .ofNames (front ++ [name])
  target : link.target.absolute = true

theorem IsRooted.path {link : Link} (rooted : IsRooted link) : link.path.absolute = true := by
  obtain ⟨front, name, -, spelled⟩ := rooted.entry
  rw [spelled]
  rfl

/-- Two runs that crossed the same links of the project. -/
def Crossed (site site' : List String) : List Link → List Link → Prop :=
  List.Forall₂ (Both (Link.mounted site) (Link.mounted site') IsRooted)

/-- Names that stay inside behind a path stay inside behind the real path of what is there. -/
theorem Contained.inside_of_realPath (project : Contained tree) (stays : Stays tree p) {real : Path}
    (found : (ofTree tree).realPath p = .ok real) (inside : Inside tree (p.names ++ names)) :
    Inside tree (real.names ++ names) := by
  obtain ⟨place, leads, rfl⟩ := Disk.find_of_realPath found
  have notLink := project.isTree.notLink_of_find leads
  have stands : tree.at? ([] ++ place.names) = some place.node := Disk.at?_of_find leads
  intro climbs
  have further := climbs.of_straight stands notLink (Disk.find_leadsDown leads)
  rw [Disk.find, Disk.lookUp, stays.absolute] at leads
  simp only [Bool.not_true, Bool.false_and, Bool.false_eq_true, if_false, Disk.namesOf,
    stays.absolute,
    if_true] at leads
  exact inside (further.of_leads (Disk.leads_of_walk leads))

section Links

variable (project : Contained tree) (here : d.Hosts site tree) (there : d'.Hosts site' tree)

include project here there

theorem linksFrom_parallel
    (parts : ∀ name ∈ names, '/' ∉ name.toList ∧ Path.isRedundant name = false)
    (stays : Stays tree (.ofNames front))
    (stem : (Path.ofNames front).stem = front) (inside : Inside tree (front ++ names)) :
    Parallel d d' limit limit' (Crossed site site')
      (Resolution.linksFrom ((Path.ofNames front).mounted site) names)
      (Resolution.linksFrom ((Path.ofNames front).mounted site') names) := by
  induction names generalizing front with
  | nil => exact .pure .nil
  | cons name rest ih =>
      obtain ⟨⟨noSlash, notRedundant⟩, others⟩ := List.forall_mem_cons.mp parts
      have isPart : IsPart name :=
        ⟨fun blank => by simp [blank, Path.isRedundant] at notRedundant, noSlash⟩
      rw [List.append_cons] at inside
      have next : (Path.ofNames front).child name = .ofNames (front ++ [name]) := by
        rw [Path.child_eq _ isPart, stem]
        rfl
      have staysNext : Stays tree (.ofNames (front ++ [name])) := by
        rw [← next]
        exact ⟨stays.toRooted.child name, by rw [next]; exact inside.of_append⟩
      have same : d.isLink ((Path.ofNames (front ++ [name])).mounted site) =
          d'.isLink ((Path.ofNames (front ++ [name])).mounted site') := by
        rw [here.isLink_mounted staysNext, there.isLink_mounted staysNext]
      rw [Resolution.linksFrom, Resolution.linksFrom, Path.child_mounted_name here.proper _ isPart,
        Path.child_mounted_name there.proper _ isPart, next]
      refine .andThen (.test same) fun isLink => ?_
      cases isLink with
      | false =>
          refine ih others staysNext ?_ inside
          simp [Path.stem, Path.ofNames, isPart.1]
      | true =>
          refine .bind (realPath_parallel here there staysNext) ?_
          rintro _ _ ⟨real, found, rfl, rfl⟩
          obtain ⟨spelled, straight⟩ := project.isTree.straight_of_realPath found
          have onward := ih others (stays_of_proper project.links straight.proper)
            straight.proper.stem_eq (project.inside_of_realPath staysNext found inside)
          rw [← spelled] at onward
          have rooted : IsRooted ⟨.ofNames (front ++ [name]), real⟩ :=
            ⟨⟨front, name, notRedundant, rfl⟩, by rw [spelled]; rfl⟩
          exact .bind onward fun links links' crossed => .pure (.cons ⟨_, rooted, rfl, rfl⟩ crossed)

theorem linksTo_parallel (proper : Proper front) (stays : Stays tree p) :
    Parallel d d' limit limit' (Crossed site site')
      (Resolution.linksTo ((Path.ofNames front).mounted site) (p.mounted site))
      (Resolution.linksTo ((Path.ofNames front).mounted site') (p.mounted site')) := by
  obtain ⟨above, inFront, below, found⟩ := Path.find?_isWithin_mounted proper stays.absolute
  have properAbove := proper.of_prefix inFront
  obtain ⟨rest, split⟩ := below
  have relative {site : List String} (properSite : Proper site) :
      (p.mounted site).relativeTo? ((Path.ofNames above).mounted site) = some rest := by
    rw [Path.relativeTo?_mounted properSite stays.absolute rfl,
      Path.relativeTo?_ofNames properAbove stays.absolute split]
  unfold Resolution.linksTo
  rw [found site here.proper, found site' there.proper]
  dsimp only
  rw [relative here.proper, relative there.proper]
  have inside := stays.inside.filter
  rw [← Path.components_of_absolute stays.absolute, ← split] at inside
  refine linksFrom_parallel project here there ?_ (stays_of_proper project.links properAbove)
    properAbove.stem_eq inside
  intro name member
  have isComponent : name ∈ p.components := split ▸ List.mem_append_right _ member
  rw [Path.components_of_absolute stays.absolute] at isComponent
  obtain ⟨among, notRedundant⟩ := List.mem_filter.mp isComponent
  exact ⟨stays.noSlash name among, by simpa using notRedundant⟩

end Links

/-! ## References -/

/-- Two runs that took a reference for the same: the same file and package of the project, reached
over the same links, or something that does not matter. -/
inductive Resolved (tree : Disk.Node) (site site' : List String) : Resolution → Resolution → Prop
  | builtin : Resolved tree site site' .builtin .builtin
  | optional (reason reason' : Tolerance) :
      Resolved tree site site' (.optional reason) (.optional reason')
  | resolved {file : Path} {package : Option Path} {links links' : List Link}
      (isFile : (ofTree tree).IsRealFile file)
      (isPackage : ∀ root, package = some root → (ofTree tree).IsRealDirectory root)
      (crossed : Crossed site site' links links') :
      Resolved tree site site' (.resolved (file.mounted site) (package.map (mounted site)) links)
        (.resolved (file.mounted site') (package.map (mounted site')) links')

section Checkouts

variable (project : Contained tree) (named : ∀ extension ∈ extensions, IsName extension)
  (here : Checkout tree extensions reach d site limit)
  (there : Checkout tree extensions reach d' site' limit')

include project here there

/-- What a file of the project means that was found for a reference. -/
theorem resolved_parallel (proper : Proper front) (stays : Stays tree p)
    (isFile : (ofTree tree).isFile p = true) {package : Option Path}
    (isPackage : ∀ root, package = some root → (ofTree tree).IsRealDirectory root) :
    Parallel d d' limit limit' (Resolved tree site site')
      (do
        return .resolved (← Resolution.realPath (p.mounted site)) (package.map (mounted site))
          (← Resolution.linksTo ((Path.ofNames front).mounted site) (p.mounted site)))
      (do
        return .resolved (← Resolution.realPath (p.mounted site')) (package.map (mounted site'))
          (← Resolution.linksTo ((Path.ofNames front).mounted site') (p.mounted site'))) := by
  refine .bind (realPath_parallel here.toHosts there.toHosts stays) ?_
  rintro _ _ ⟨real, found, rfl, rfl⟩
  refine .bind (linksTo_parallel project here.toHosts there.toHosts proper stays) ?_
  intro links links' crossed
  exact .pure (.resolved (Disk.isRealFile_of_isFile isFile found) isPackage crossed)

include named

/-- A reference means the same wherever the project is checked out. -/
theorem resolve_parallel {name : String} (proper : Proper (front ++ [name]))
    (mentions : Mentions tree (.ofNames front) reference) :
    Parallel d d' limit limit' (Resolved tree site site')
      (Resolution.resolve extensions reference ((Path.ofNames (front ++ [name])).mounted site))
      (Resolution.resolve extensions reference
        ((Path.ofNames (front ++ [name])).mounted site')) := by
  have properFront := proper.of_prefix (List.prefix_append _ _)
  unfold Resolution.resolve
  rw [Path.parent?_mounted here.proper proper, Path.parent?_mounted there.proper proper]
  simp only [Option.getD_some]
  split
  · exact .pure .builtin
  split
  · rename_i relative
    obtain ⟨inner, properInner, spelled⟩ :=
      (project.relative _ _ mentions relative).normalize ⟨rfl, properFront.noSlash⟩
    refine .bind (normalized_parallel _ _) ?_
    rintro _ _ ⟨rfl, rfl⟩
    rw [spelled site d.current here.proper, spelled site' d'.current there.proper]
    have keepsMain := project.mains _ _ mentions _ (.relative relative)
    have isInner : Path.normalize .root ((Path.ofNames front).child reference) = .ofNames inner :=
      spelled [] .root Path.proper_nil
    rw [isInner] at keepsMain
    refine .bind (pathFile_parallel project named here there
      (stays_of_proper project.links properInner) keepsMain) ?_
    rintro _ _ ⟨file, staysFile, rfl, rfl⟩
    cases file with
    | none => exact .throwMissing
    | some file =>
        obtain ⟨stays, isFile⟩ := staysFile file rfl
        have noPackage : ∀ root, (none : Option Path) = some root →
            (ofTree tree).IsRealDirectory root := nofun
        exact resolved_parallel project here there properFront stays isFile noPackage
  · rename_i bare
    have bare : Reference.isRelative reference = false := by simpa using bare
    refine .bind (installed_parallel project here there named mentions bare) ?_
    rintro _ _ ⟨place, stands, rfl, rfl⟩
    cases place with
    | none =>
        refine .bind
          (tolerance_parallel project here there (project.directory_of_mentions mentions) _) ?_
        intro reason reason' related
        cases related with
        | none => exact .throwMissing
        | some => exact .pure (.optional _ _)
    | some place =>
        obtain ⟨stays, isFile, isPackage⟩ := stands place rfl
        exact resolved_parallel project here there properFront stays isFile isPackage

end Checkouts

end Relocation

end FunctionArchive
