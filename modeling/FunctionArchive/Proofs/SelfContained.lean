import FunctionArchive.Proofs.Archive.Closures
import FunctionArchive.Proofs.Resolution.Portable

/-!
# Archives that stand for themselves

The archive of a script that is written to a fresh place can be used there: a static reference in it
means the copy of what it means in the tree (`assemble_selfContained`). The closure of the script
gathers each file that a reference means, and the links over which it is reached. Of the manifests
that tell where it is, the closure gathers those that are shipped with a package, but not that of a
directory in the script's own tree. Such a manifest must be in the closure for some other reason
(`GraphPolicy.Packs`).

A bundle names its entries from the common base of what it holds, so the archive is a copy of what
is there only if nothing above that base takes part: no link leads above it, and it is neither a
directory of packages nor beside a file under its name (`Bundle.HoldsTogether`).
-/

set_option autoImplicit false

namespace FunctionArchive

open FunctionArchive.Path (Proper IsName mounted)
open Disk (Node Pictures)
open Work (Ends)
open FunctionArchive.Action (Gives)

/-! ## What belongs into an archive -/

namespace GraphPolicy

variable (policy : GraphPolicy) (d : Disk) (boundary : Option Path) (start : Path)

/-- A closure gathers a file: a reference leads to it, or it is shipped with a package. -/
def Gathers (file : Path) : Prop :=
  policy.InClosure d boundary start (.file file) ∨
    ∃ root, policy.InClosure d boundary start (.package root) ∧ policy.Ships d root file

/-- A closure gathers what a path leads to from a script, and the links on the way. -/
def Packs (script path : Path) : Prop :=
  ∃ file links, d.isFile path = true ∧ d.realPath path = .ok file ∧
    policy.Gathers d boundary start file ∧
    (Resolution.linksTo (Resolution.startOf script) path).answer d boundary = .ok links ∧
    ∀ link ∈ links, policy.Crosses d boundary start link

end GraphPolicy

/-- A bundle whose archive holds together: its files are named by their real paths, its entries can
stand in one directory tree, its links lead to what is in the archive, and the directory from which
the names start is no directory of packages and has no file beside it. -/
structure Bundle.HoldsTogether (b : Bundle) (d : Disk) (extensions : List String) : Prop where
  real : ∀ e ∈ b.files, ∀ p, e.source = .file p → d.IsRealFile p
  sound : Archive.Assemblable b d
  home : ∀ e ∈ b.files, ∀ text, e.source = .link text →
    (Path.descend? e.parts.dropLast (Path.split text.toList)).isSome
  named : b.base.names.getLast? ≠ some Resolution.packagesName
  beside : ∀ extension ∈ extensions,
    d.isFile ((Path.ofNames b.base.names).appendToName extension) = false

namespace Bundle

variable {s : Settings} {f : FunctionSource} {d : Disk} {limit : Option Path} {b : Bundle}
  {policy : GraphPolicy} {start : Path}

theorem withGraph_ofClosure (chosen : GraphPolicy.ofSettings s f.config = .ok policy)
    (found : d.realPath f.entry = .ok start) (below : d.StaysBelow s.extensions) :
    Gives d limit (withGraph s f) fun b => ∃ g, b = ofGraph f.runtime g ∧ g.Standing d ∧
      g.IsClosure policy d limit start := by
  have isChosen : Gives d limit (Action.ofOutcome (GraphPolicy.ofSettings s f.config))
      (· = policy) :=
    .ofOutcome fun policy' made => Except.ok.inj (made.symm.trans chosen)
  refine .bind isChosen ?_
  rintro _ rfl
  rw [← (GraphPolicy.ofSettings_ok_iff.mp chosen).extensions] at below
  refine .bind (.query ((Graph.build_standing below f.entry).and (Graph.build_yields f.entry))) ?_
  rintro g ⟨standing, start', found', closed⟩
  refine .pure ?_
  cases found.symm.trans found'
  exact ⟨g, rfl, standing, closed⟩

end Bundle

/-! ## Writing the archive -/

namespace Archive

variable {b : Bundle} {f : FunctionSource} {w : World} {start made : Disk} {destination : Path}
  {dir : List String} {name : String} {extensions : List String}

/-- A place for a new directory of this name: nothing stands there, nor beside it under its name
with an extension. -/
structure FreshPlace (extensions : List String) (start : Disk) (destination : Path) (name : String)
    (made : Disk) (dir : List String) : Prop extends Prepared start destination name made dir where
  proper : Proper (dir ++ [name])
  named : name ≠ Resolution.packagesName
  absent : made.root.at? (dir ++ [name]) = none
  beside : ∀ extension ∈ extensions, made.root.at? (dir ++ [name ++ extension]) = none

/-- Entries that can stand in one directory tree stay below the directory in which they are
written. -/
theorem Assemblable.confined (sound : Assemblable b start) : Confined (contents b) where
  proper f member part inside := (sound.named f (mem_contents_iff.mp member) part inside).1
  apart link member _ f member' different inFront := by
    have ships := mem_contents_iff.mp member
    have ships' := mem_contents_iff.mp member'
    have same := sound.apart link f ships ships' inFront
    rw [Bundle.Ships, same] at ships
    exact different (Option.some.inj (ships'.symm.trans ships))

/-- A fresh place is clear. -/
theorem clear_of_absent (prepared : Prepared start destination name made dir)
    (absent : made.root.at? (dir ++ [name]) = none) : Clear start destination name := by
  intro made' dir' prepared'
  obtain rfl := Except.ok.inj (prepared.created.symm.trans prepared'.created)
  obtain rfl := prepared.enters.unique prepared'.enters
  rw [Disk.put, Node.alter_eq_self absent.symm]
  exact prepared.enters

/-- A directory is written where nothing stands, and nothing beside it changes. -/
theorem assemble_written (written : b.strategy ≠ .passthrough) (sound : Assemblable b w.disk)
    (isName : IsName f.name) (prepared : Prepared w.disk destination f.name made dir)
    (absent : made.root.at? (dir ++ [f.name]) = none) :
    ∃ archive w', (assemble b f destination .directory).run w = (.ok archive, w') ∧
      archive.path = destination.child f.name ∧
      DirectoryWritten destination dir f.name (leavesFor (contents b) (contentOf w.disk)) w'.disk ∧
      ∀ other, other ≠ f.name →
        w'.disk.root.at? (dir ++ [other]) = made.root.at? (dir ++ [other]) := by
  have passes : (b.strategy == .passthrough) = false := by simpa using written
  have isPath : pathFor b.strategy .directory f.name destination = destination.child f.name := by
    simp [pathFor, passes]
  have isNamed : nameFor b.strategy .directory f.name = f.name := by simp [nameFor, passes]
  have clear := clear_of_absent prepared absent
  have placeable : Placeable b f .directory w.disk destination := by
    refine ⟨?_, ?_, fun _ => sound.confined⟩
    · rwa [isNamed]
    · rwa [isNamed]
  -- What is written, and what is left as it was.
  have directory : Ends (· = w.disk) (writeAndCheck b f .directory (destination.child f.name))
      (fun _ => DirectoryWritten destination dir f.name (leavesFor (contents b) (contentOf w.disk)))
      (fun _ _ => False) := by
    have entries : Ends (· = w.disk) (writeBundle b f .directory (destination.child f.name))
        (fun _ => DirectoryWritten destination dir f.name
          (leavesFor (contents b) (contentOf w.disk)))
        (fun _ _ => False) := by
      unfold writeBundle
      rw [if_neg (by simp [passes])]
      exact (writeDirectory_written isName prepared (clear made dir prepared) (by simp [absent])
        (sound.plan (Disk.extends_of_createDirectories prepared.created))).mono
          (fun _ _ => And.right) fun _ _ => id
    refine .bind entries fun _ => .bind (checksumOf_ends fun d written => ?_) fun _ =>
      .pure fun _ => id
    obtain ⟨enters, n, there, bears⟩ := written
    obtain ⟨inside, isRoot⟩ := Node.shape_eq_hollow.mp bears.root
    obtain rfl : n = .directory inside := Option.some.inj isRoot
    have found : d.find (destination.child f.name) = .ok ⟨dir ++ [f.name], .directory inside⟩ :=
      Disk.lookUp_child_eq isName enters there (.inr fun _ isLink => by cases isLink)
    exact ⟨_, by rw [Checksum.ofPath, found]⟩
  have packed := writeAndCheck_ends written placeable
  rw [isNamed] at packed
  have both := (directory.and packed).weaken fun d (same : d = w.disk) => ⟨same, same⟩
  obtain ⟨archive, w', ran, path, isWritten, made', dir', prepared', placed⟩ :=
    assemble_succeeds (b := b) (f := f) (isPath ▸ both.mono (fun _ _ => id) fun _ _ => And.left)
  refine ⟨archive, w', ran, path.trans isPath, isWritten, fun other different => ?_⟩
  obtain rfl := Except.ok.inj (prepared.created.symm.trans prepared'.created)
  obtain rfl := prepared.enters.unique prepared'.enters
  have kept := congrArg (·.root.at? (dir ++ [other])) placed.rest
  rwa [Disk.at?_put_other isWritten.enters different,
    Disk.at?_put_other prepared.enters different] at kept

end Archive

/-! ## The closure in the archive -/

namespace Graph

variable {g : Graph} {d d' : Disk} {runtime : Runtime} {extensions site : List String} {n : Node}

/-- A closure that holds together stands. -/
theorem Standing.stands (standing : g.Standing d)
    (together : (Bundle.ofGraph runtime g).HoldsTogether d extensions) : g.Stands d :=
  Bundle.stands_of_outputs standing together.real

/-- The links of a closure that holds together lead to something below its base, and none of them to
its own directory. -/
theorem Standing.links_home (standing : g.Standing d) (tree : d.IsTree) (nonempty : g.files ≠ [])
    (notNative : runtime.isNative = false)
    (together : (Bundle.ofGraph runtime g).HoldsTogether d extensions) {link : Link}
    (member : link ∈ g.links) : (Bundle.baseOf g.places).names <+: link.target.names ∧
      Layout.linkTarget link.target link.path ≠ "" := by
  have stands := standing.stands together
  have isEntry := Graph.mem_outputs_of_link member (Bundle.baseOf g.places)
  constructor
  · obtain ⟨isBase, inside⟩ := Layout.baseOf_cases (stands.plain_places tree)
    obtain ⟨names, rebuilds⟩ := Bundle.rebuilds_of_link tree isBase
      (stands.base_directory tree nonempty).1 (stands.linked.holds link member)
      (inside _ (List.mem_append_right _ (List.mem_map_of_mem member)))
      (e := ⟨Layout.archiveName link.path (Bundle.baseOf g.places),
        .link (Layout.linkTarget link.target link.path), none⟩) rfl
    by_contra without
    have home := together.home _ isEntry _ rfl
    have same : (if names.isEmpty then [""] else names).dropLast = names.dropLast := by
      cases names <;> rfl
    rw [OutputFile.parts, rebuilds.named, rebuilds.proper.split_text, same, rebuilds.astray without]
      at home
    cases home
  · have told := together.sound.linked _
      (Archive.mem_contents_iff.mp (stands.ships tree notNative isEntry))
    exact fun blank => told (congrArg Source.link blank)

/-- What stands in the archive of a closure: each file that the closure gathers, with the same data,
and each link that is crossed. -/
structure Archived (policy : GraphPolicy) (d : Disk) (limit : Option Path) (start : Path)
    (base : List String) (d' : Disk) (site : List String) : Prop where
  pictures : Pictures d' site d base
  files : ∀ file, policy.Gathers d limit start file → ∃ inner f f',
    file = .ofNames (base ++ inner) ∧ d.root.at? (base ++ inner) = some (.file f) ∧
      d'.root.at? (site ++ inner) = some (.file f') ∧ f'.data = f.data
  links : ∀ link, policy.Crosses d limit start link → d'.Carries site base link

section Archived

variable {policy : GraphPolicy} {limit : Option Path} {start : Path}

theorem IsClosure.archived (closed : g.IsClosure policy d limit start) (standing : g.Standing d)
    (tree : d.IsTree) (notNative : runtime.isNative = false)
    (together : (Bundle.ofGraph runtime g).HoldsTogether d extensions) (proper : Proper site)
    (stood : d'.root.at? site = some n)
    (bears : Archive.Bears n (Archive.leavesFor (Archive.contents (Bundle.ofGraph runtime g))
      (Archive.contentOf d))) :
    Archived policy d limit start (Bundle.baseOf g.places).names d' site := by
  have stands := standing.stands together
  have nonempty : g.files ≠ [] := List.ne_nil_of_mem ((closed.files start).mpr (.inl .start))
  have home {link : Link} (member : link ∈ g.links) :=
    standing.links_home tree nonempty notNative together member
  have inArchive {inner : List String} {node : Node} (there : n.at? inner = some node) :
      d'.root.at? (site ++ inner) = some node := by
    rw [Node.at?_append, stood, Option.bind_some, there]
  refine ⟨stands.pictures tree nonempty notNative bears proper stood
    (fun link member => (home member).1)
    fun link member => (home member).2, fun file gathers => ?_, fun link crosses => ?_⟩
  · obtain ⟨inner, f, f', isPath, inTree, there, same⟩ :=
      stands.file_written tree nonempty notNative bears ((closed.files file).mpr gathers)
    exact ⟨inner, f, f', isPath, inTree, inArchive there, same⟩
  · obtain ⟨inner, isPath, there⟩ :=
      stands.link_written tree nonempty notNative bears ((closed.links link).mpr crosses)
    exact ⟨inner, _, isPath, inArchive there⟩

/-- A static reference of a script in the closure means in the copy of the script the copy of the
file that it means in the script, if it stays below the base and the manifests that are needed are
in the archive. -/
theorem Archived.resolve {base : List String}
    (archived : Archived policy d limit start base d' site)
    (below : d.StaysBelow policy.extensions)
    (isSite : Resolution.IsSite policy.extensions d base)
    (isSite' : Resolution.IsSite policy.extensions d' site)
    {script file : Path} {reference : String} {package : Option Path} {links : List Link}
    (inside : policy.InClosure d limit start (.file script))
    (refers : .static reference ∈ d.referencesIn script)
    (follows : policy.Follows d limit ⟨reference, script⟩ file package links)
    (portable : Resolution.Portable d base policy.extensions
      (fun directory => policy.Packs d limit start script (directory.child Manifest.fileName))
      reference script) :
    d'.read (file.moved base site) = d.read file ∧
      ∀ known : Manifests, known.Faithful d' → ∃ package',
      (((Resolution.resolve policy.extensions reference (script.moved base site)) d').run known).1 =
        .ok (.resolved (file.moved base site) package' (links.map (Link.moved base site))) := by
  have tree := below.tree
  have pictures := archived.pictures
  have asked : policy.InClosure d limit start (.request ⟨reference, script⟩) :=
    .refers inside refers
  -- The script and the file are below the base.
  obtain ⟨inner, f, f', rfl, inTree, there, same⟩ :=
    archived.files file (.inl (.leadsTo asked follows))
  obtain ⟨names, g, -, rfl, isScript, -⟩ := archived.files script (.inl inside)
  obtain ⟨entries, directory⟩ := isSite.root
  have some : names ≠ [] := by
    rintro rfl
    rw [List.append_nil] at isScript
    cases isScript.symm.trans directory
  obtain ⟨here, name, split⟩ := (List.eq_nil_or_concat names).resolve_left some
  rw [List.concat_eq_append] at split
  subst split
  have straight : d.Straight (base ++ (here ++ [name])) := tree.straight_of_at? isScript nofun
  have isReal : d.IsReal (.ofNames (base ++ (here ++ [name]))) := by
    refine ⟨.ofNames (base ++ (here ++ [name])), ?_⟩
    rw [Disk.realPath, Disk.find_of_at? isScript straight.proper.leadsDown nofun]
    rfl
  have carries : ∀ link ∈ links, d'.Carries site base link :=
    fun link member => archived.links link ⟨_, _, _, _, asked, follows, member⟩
  have startOf : Resolution.startOf (.ofNames (base ++ (here ++ [name]))) =
      .ofNames (base ++ here) := by
    have proper := straight.proper
    rw [← List.append_assoc] at proper
    rw [Resolution.startOf, ← List.append_assoc, proper.parent?_concat]
    rfl
  have straightHere : d.Straight (base ++ here) := straight.of_prefix ⟨[name], List.append_assoc ..⟩
  rw [Path.moved_ofNames, Path.moved_ofNames]
  constructor
  · have proper := (Path.proper_append.mp (tree.proper_of_at? inTree)).2
    have found' := Disk.find_of_at? there (isSite'.proper.mounted proper).leadsDown nofun
    have found := Disk.find_of_at? inTree (isSite.proper.mounted proper).leadsDown nofun
    simp [Disk.read, Disk.file, found, found', same, Except.map]
  · intro known faithful
    refine Resolution.resolve_copied pictures tree isSite isSite' below.extensions ?_
      (Manifests.faithful_empty limit d) faithful isReal follows.resolved
      (below.references _ isReal.mem_allPaths reference refers) portable carries there
    -- The manifests that are needed are found over links of the archive.
    intro p descends packs
    have isPart : Path.IsPart Manifest.fileName := by decide
    obtain ⟨manifest, crossed, isFile, real, gathers, linked, allCrossed⟩ := packs
    obtain ⟨rest, m, m', rfl, -, stands, -⟩ := archived.files manifest gathers
    rw [Path.child_mounted_name isSite.proper p isPart] at isFile real linked
    rw [startOf] at linked
    obtain ⟨found, -⟩ := Resolution.found_copy pictures tree straightHere
      (descends.child_name isPart (by decide)) isFile linked
      (fun link member => archived.links link (allCrossed link member)) real stands none
    rw [Path.child_mounted_name isSite'.proper p isPart]
    simp [Disk.isFile, found]

end Archived

end Graph

namespace Archive

open Resolution (IsSite Portable resolve)

variable {b : Bundle} {f : FunctionSource} {w w₁ : World} {s : Settings} {start made : Disk}
  {destination : Path} {dir : List String} {name : String} {extensions : List String}

/-- Where the archive has been written is a site. -/
theorem FreshPlace.isSite {d : Disk} (place : FreshPlace extensions start destination name made dir)
    (named : ∀ extension ∈ extensions, IsName extension)
    (rest : ∀ other, other ≠ name →
      d.root.at? (dir ++ [other]) = made.root.at? (dir ++ [other]))
    (there : ∃ entries, d.root.at? (dir ++ [name]) = some (.directory entries)) :
    IsSite extensions d (dir ++ [name]) := by
  refine ⟨place.proper, by simpa using place.named, there, fun extension member => ?_⟩
  obtain ⟨proper, isName⟩ := Path.proper_append.mp place.proper
  have isName := Path.proper_singleton.mp isName
  have isExtension := named extension member
  have spelled : (Path.ofNames (dir ++ [name])).appendToName extension =
      .ofNames (dir ++ [name ++ extension]) :=
    Path.appendToName_concat true dir isName.1.2 isExtension.1.2
  have different : name ++ extension ≠ name := fun same => isExtension.1.1 (by simpa using same)
  have absent := (rest _ different).trans (place.beside extension member)
  rw [spelled, Bool.eq_false_iff]
  intro isFile
  obtain ⟨entries, directory⟩ := there
  have whole := Disk.straight_of_proper place.proper directory nofun
  have straight := whole.of_prefix (List.prefix_append dir [name])
  have besideName : IsName (name ++ extension) := isName.append isExtension
  obtain ⟨real, file, found⟩ := Disk.isFile_iff.mp isFile
  rw [← proper.child_eq besideName.1] at found
  obtain ⟨dir', enters, ends⟩ := Disk.of_lookUp_child besideName found
  obtain rfl := straight.enters_eq enters
  rcases ends with isPlace | ⟨-, target, isLink⟩
  · have stands := Disk.at?_of_find found
    rw [isPlace, absent] at stands
    cases stands
  · cases absent.symm.trans isLink

/-- **An archive stands for itself.** When the archive of the closure of a script is written as a
directory to a fresh place, each static reference of a script in it means in the copy of the script
the copy of the file that it means in the script, over the copies of the same links, whatever is
known about manifests. The archive must hold together, what the reference means must be looked for
below the directory from which the archive starts, and where it takes a manifest to find it, the
archive must hold the manifest. -/
theorem assemble_selfContained {policy : GraphPolicy} {entry : Path}
    (chosen : GraphPolicy.ofSettings s f.config = .ok policy)
    (found : w.disk.realPath f.entry = .ok entry) (below : w.disk.StaysBelow s.extensions)
    (faithful : w.manifests.Faithful w.disk)
    (bundled : (Bundle.withGraph s f).run w = (.ok b, w₁)) (notNative : f.runtime.isNative = false)
    (together : b.HoldsTogether w.disk s.extensions)
    (place : FreshPlace s.extensions w.disk destination f.name made dir) :
    ∃ archive w₂, (assemble b f destination .directory).run w₁ = (.ok archive, w₂) ∧
      archive.path = destination.child f.name ∧
      w₂.disk.realPath archive.path = .ok (.ofNames (dir ++ [f.name])) ∧
      ∀ script reference file package links,
        policy.InClosure w.disk w.manifests.boundary entry (.file script) →
        .static reference ∈ w.disk.referencesIn script →
        policy.Follows w.disk w.manifests.boundary ⟨reference, script⟩ file package links →
        Portable w.disk b.base.names s.extensions (fun directory =>
          policy.Packs w.disk w.manifests.boundary entry script (directory.child Manifest.fileName))
          reference script →
        w₂.disk.read (file.moved b.base.names (dir ++ [f.name])) = w.disk.read file ∧
          ∀ known : Manifests, known.Faithful w₂.disk → ∃ package',
            (((resolve s.extensions reference (script.moved b.base.names (dir ++ [f.name])))
              w₂.disk).run known).1 =
                .ok (.resolved (file.moved b.base.names (dir ++ [f.name])) package'
                  (links.map (Link.moved b.base.names (dir ++ [f.name])))) := by
  have ended := Bundle.withGraph_ofClosure chosen found below w ⟨rfl, faithful, rfl⟩
  rw [bundled] at ended
  obtain ⟨knows, g, rfl, standing, closed⟩ := ended.well b rfl
  have isName := Path.proper_singleton.mp (Path.proper_append.mp place.proper).2
  have sameDisk : w₁.disk = w.disk := knows.disk
  have prepared : Prepared w₁.disk destination f.name made dir := sameDisk ▸ place.toPrepared
  obtain ⟨archive, w₂, ran, isPath, written, rest⟩ :=
    assemble_written (b := Bundle.ofGraph f.runtime g)
    nofun (sameDisk ▸ together.sound) isName prepared place.absent
  obtain ⟨enters, n, there, bears⟩ := written
  obtain ⟨entries, rfl⟩ : ∃ entries, n = .directory entries := by
    obtain ⟨entries, isRoot⟩ := Node.shape_eq_hollow.mp bears.root
    exact ⟨entries, Option.some.inj isRoot⟩
  have realPath : w₂.disk.find (destination.child f.name) =
      .ok ⟨dir ++ [f.name], .directory entries⟩ :=
    Disk.lookUp_child_eq isName enters there (.inr fun _ isLink => by cases isLink)
  refine ⟨archive, w₂, ran, isPath, by rw [isPath, Disk.realPath, realPath]; rfl, ?_⟩
  intro script reference file package links inside refers follows portable
  -- What has been written stands for the closure, and both are sites.
  have sameExtensions := (GraphPolicy.ofSettings_ok_iff.mp chosen).extensions
  rw [sameDisk] at bears
  have archived := closed.archived standing below.tree notNative together place.proper there bears
  have nonempty : g.files ≠ [] := List.ne_nil_of_mem ((closed.files entry).mpr (.inl .start))
  obtain ⟨straight, directory⟩ := (standing.stands together).base_directory below.tree nonempty
  have isSite : IsSite policy.extensions w.disk (Bundle.baseOf g.places).names := by
    rw [sameExtensions]
    exact ⟨straight.proper, together.named, directory, together.beside⟩
  have isSite' : IsSite policy.extensions w₂.disk (dir ++ [f.name]) := by
    rw [sameExtensions]
    exact place.isSite below.extensions rest ⟨entries, there⟩
  rw [← sameExtensions] at below portable ⊢
  exact archived.resolve below isSite isSite' inside refers follows portable

section Example

open Sample (app appSource leaf policy package index)
open FunctionArchive.Bundle (linkedPackage dataSettings graphFunction storedIndex storedPackage)

/-- The files and the link of the closure of a script with a linked package. -/
theorem pieces_linkedPackage {g : Graph} (closed : g.IsClosure policy linkedPackage.disk none app) :
    (∀ file, file ∈ g.files ↔ file = app ∨ file = storedIndex) ∧
      ∀ link, link ∈ g.links ↔ link = ⟨package "p", storedPackage⟩ := by
  have notScript : Script.isScript storedIndex = false := by decide
  constructor
  · intro file
    rw [Sample.onePackage_files Bundle.read_linkedPackage Bundle.resolve_linkedPackage notScript
      Bundle.fetch_linkedPackage Bundle.below_linkedPackage closed]
    constructor
    · rintro (isApp | isIndex | ⟨names, member, -, rfl⟩)
      · exact .inl isApp
      · exact .inr isIndex
      · cases List.mem_singleton.mp member
        exact .inr rfl
    · rintro (isApp | isIndex)
      · exact .inl isApp
      · exact .inr (.inl isIndex)
  · intro link
    rw [Sample.onePackage_links Bundle.read_linkedPackage Bundle.resolve_linkedPackage notScript
      Bundle.fetch_linkedPackage closed, List.mem_singleton]

theorem real_linkedPackage {file : Path} (among : file = app ∨ file = storedIndex) :
    linkedPackage.disk.IsRealFile file := by
  rcases among with rfl | rfl
  · exact ⟨rfl, by unfold Disk.LeadsDown; decide, ⟨appSource, 0o644, 0⟩, by cbv⟩
  · exact ⟨rfl, by unfold Disk.LeadsDown; decide, ⟨[], 0o644, 0⟩, by cbv⟩

/-- What a script with a linked package ships, from the root directory. -/
def linkedEntries : List OutputFile :=
  [⟨"a.js", .file app, none⟩, ⟨"store/p/index.json", .file storedIndex, none⟩,
    ⟨"node_modules/p", .link "../store/p", none⟩]

theorem entries_linkedPackage {g : Graph} (closed : g.IsClosure policy linkedPackage.disk none app)
    (standing : g.Standing linkedPackage.disk) : (Bundle.baseOf g.places).names = [] ∧
      ∀ e ∈ g.outputs (Bundle.baseOf g.places), e ∈ linkedEntries := by
  obtain ⟨files, links⟩ := pieces_linkedPackage closed
  have tree := Bundle.staysBelow_linkedPackage.tree
  have stands : g.Stands linkedPackage.disk :=
    ⟨standing.toLinked, fun file member => real_linkedPackage ((files file).mp member)⟩
  have isApp : app ∈ g.files := (files app).mpr (.inl rfl)
  have plain := stands.plain_places tree
  -- The base is above the script, which stands in the root directory.
  have noNames : (Bundle.baseOf g.places).names = [] := by
    obtain ⟨-, entries, directory⟩ := stands.base_directory tree (List.ne_nil_of_mem isApp)
    have inFront := (Layout.baseOf_cases plain).2 app (List.mem_append_left _ isApp)
    have fronts : (Bundle.baseOf g.places).names = [] ∨ (Bundle.baseOf g.places).names =
        ["a.js"] := by
      simpa [app, Path.ofNames, List.inits] using (List.mem_inits _ _).mpr inFront
    refine fronts.resolve_right fun isScript => ?_
    rw [isScript] at directory
    cases directory
  have named {p : Path} (member : p ∈ g.places) :
      Layout.archiveName p (Bundle.baseOf g.places) = "/".intercalate p.names := by
    obtain ⟨rest, split, named⟩ := Layout.baseOf_splits plain member
    rw [named, split, noNames, List.nil_append]
  refine ⟨noNames, fun e member => ?_⟩
  rcases List.mem_append.mp member with isFile | isLink
  · obtain ⟨file, among, rfl⟩ := List.mem_map.mp isFile
    rw [named (List.mem_append_left _ among)]
    rcases (files file).mp among with rfl | rfl
    · exact List.mem_cons_self
    · exact List.mem_cons_of_mem _ List.mem_cons_self
  · obtain ⟨link, among, rfl⟩ := List.mem_map.mp isLink
    rw [named (List.mem_append_right _ (List.mem_map_of_mem among))]
    cases (links link).mp among
    exact List.mem_cons_of_mem _ (List.mem_cons_of_mem _ (List.mem_singleton_self _))

theorem holdsTogether_linkedPackage {g : Graph}
    (closed : g.IsClosure policy linkedPackage.disk none app)
    (standing : g.Standing linkedPackage.disk) :
    (Bundle.ofGraph .script g).HoldsTogether linkedPackage.disk [".json"] := by
  obtain ⟨noNames, entries⟩ := entries_linkedPackage closed standing
  have isEntry {e : OutputFile} (member : e ∈ g.outputs (Bundle.baseOf g.places)) :
      e = ⟨"a.js", .file app, none⟩ ∨ e = ⟨"store/p/index.json", .file storedIndex, none⟩ ∨
        e = ⟨"node_modules/p", .link "../store/p", none⟩ := by
    simpa [linkedEntries] using entries e member
  have ships {e : OutputFile} (belongs : (Bundle.ofGraph .script g).Ships e) :=
    isEntry (Graph.Stands.mem_outputs rfl (mem_contents_iff.mpr belongs))
  constructor
  · intro e member path source
    rcases isEntry member with rfl | rfl | rfl <;> cases source
    · exact real_linkedPackage (.inl rfl)
    · exact real_linkedPackage (.inr rfl)
  · constructor
    · intro e belongs
      rcases ships belongs with rfl | rfl | rfl <;> decide
    · intro e e' belongs belongs'
      rcases ships belongs with rfl | rfl | rfl <;> rcases ships belongs' with rfl | rfl | rfl <;>
        decide
    · intro e path belongs source
      rcases ships belongs with rfl | rfl | rfl <;> cases source
      · exact ⟨⟨appSource, 0o644, 0⟩, by cbv⟩
      · exact ⟨⟨[], 0o644, 0⟩, by cbv⟩
    · intro e mode belongs override
      rcases ships belongs with rfl | rfl | rfl <;> cases override
    · intro e belongs
      rcases ships belongs with rfl | rfl | rfl <;> decide
  · intro e member text source
    rcases isEntry member with rfl | rfl | rfl <;> cases source
    decide
  · show (Bundle.baseOf g.places).names.getLast? ≠ _
    rw [noNames]
    decide
  · show ∀ extension ∈ _, linkedPackage.disk.isFile
      ((Path.ofNames (Bundle.baseOf g.places).names).appendToName extension) = false
    rw [noNames]
    simp only [List.forall_mem_cons]
    exact ⟨by cbv, List.forall_mem_nil _⟩

/-- The root directory is a place for the archive. -/
theorem freshPlace_linkedPackage :
    FreshPlace [".json"] linkedPackage.disk .root "fn" linkedPackage.disk [] := by
  have enters : linkedPackage.disk.Enters .root [] := ⟨_, Disk.leads_of_walk (by cbv)⟩
  refine ⟨⟨?_, enters⟩, ?_, by decide, by cbv, ?_⟩
  · rw [show holder (Path.root.child "fn") = .root by decide]
    exact Disk.createDirectories_of_enters enters
  · simp only [Proper, IsName, Path.IsPart]
    decide
  · simp only [List.forall_mem_cons]
    exact ⟨by cbv, List.forall_mem_nil _⟩

/-- The package is found without manifests. -/
theorem portable_linkedPackage (packed : Path → Prop) :
    Portable linkedPackage.disk [] [".json"] packed "p" app := by
  have missing : linkedPackage.disk.read ((package "p").child Manifest.fileName) =
      .error .notFound := by cbv
  have noManifest : linkedPackage.disk.manifestIn (package "p") = none := by
    simp [Disk.manifestIn, Manifests.fetch, missing]
  have inRoot : Resolution.packageIn "p" .root = package "p" := by cbv
  have spelled : (Path.root.child Resolution.packagesName).child "p" = package "p" := by cbv
  refine ⟨fun isRelative => absurd isRelative (by decide), fun _ directory visits => ?_⟩
  obtain rfl : directory = .root := by
    obtain ⟨front, rest, split, -⟩ := visits
    have among : directory ∈ (Resolution.startOf app).ancestors := by simp [split]
    have ancestors : (Resolution.startOf app).ancestors = [.root] := by cbv
    rwa [ancestors, List.mem_singleton] at among
  have noMain (text : String) : (linkedPackage.disk.manifestIn (package "p")).bind (·.main) ≠
      some text := by
    simp [noManifest]
  have noExport (text : String) : (linkedPackage.disk.manifestIn (package "p")).bind
      (·.exportTarget? (Reference.subpath "p")) ≠ some text := by
    simp [noManifest]
  have isDirectory : linkedPackage.disk.isDirectory (package "p") = true := by cbv
  have noExports : Resolution.exportCandidates linkedPackage.disk (package "p") "p" = [] := by
    simp [Resolution.exportCandidates, noManifest]
  have byPath : Resolution.pathCandidates linkedPackage.disk [".json"] (package "p") =
      [package "p", .ofNames ["node_modules", "p.json"], index "p"] := by
    simp only [Resolution.pathCandidates, isDirectory, if_true, Resolution.directoryCandidates,
      Resolution.mainCandidates, noManifest]
    cbv
  have directory : linkedPackage.disk.find (package "p") =
      .ok ⟨["store", "p"], .directory [("index.json", leaf [])]⟩ := by cbv
  have noFile : linkedPackage.disk.find (.ofNames ["node_modules", "p.json"]) =
      .error .notFound := by
    cbv
  have isIndex : linkedPackage.disk.find (index "p") =
      .ok ⟨["store", "p", "index.json"], leaf []⟩ := by
    cbv
  have inPackage : Resolution.PortablePath linkedPackage.disk [] [".json"] packed
      (package "p") := by
    refine ⟨fun text isMain => absurd isMain (noMain text), ?_, fun needs => absurd ?_ needs⟩
    · rw [byPath]
      simp [directory, noFile, isIndex]
    · rw [byPath]
      cbv
  refine ⟨⟨[], rfl⟩, spelled ▸ inPackage, ?_, ?_, ?_, ?_⟩
  · rw [inRoot]
    exact fun text isTarget => absurd isTarget (noExport text)
  · simp [inRoot, directory]
  · simp [inRoot, noExports]
  · simp [inRoot, noExports]

/-- The archive of a script with a linked package. In it the script refers to the copy of the
package, over the copy of the link. -/
theorem assemble_selfContained_linkedPackage : ∃ b w₁ archive w₂ package',
    (Bundle.withGraph dataSettings graphFunction).run linkedPackage = (.ok b, w₁) ∧
      b.HoldsTogether linkedPackage.disk [".json"] ∧
      FreshPlace [".json"] linkedPackage.disk .root "fn" linkedPackage.disk [] ∧
      (assemble b graphFunction .root .directory).run w₁ = (.ok archive, w₂) ∧
      (resolve [".json"] "p" (.ofNames ["fn", "a.js"])).answer w₂.disk none =
        .ok (.resolved (.ofNames ["fn", "store", "p", "index.json"]) package'
          [⟨.ofNames ["fn", "node_modules", "p"], .ofNames ["fn", "store", "p"]⟩]) := by
  obtain ⟨g₀, known, built, -⟩ := Bundle.build_linkedPackage
  obtain ⟨w₁, bundled⟩ := Bundle.withGraph_ok (s := dataSettings) (f := graphFunction)
    (w := linkedPackage) rfl built
  have read : GraphPolicy.ofSettings dataSettings graphFunction.config = .ok policy := rfl
  have realEntry : linkedPackage.disk.realPath graphFunction.entry = .ok app := by cbv
  have faithful := Manifests.faithful_empty none linkedPackage.disk
  -- The closure is what it is known to be.
  have ended := Bundle.withGraph_ofClosure (f := graphFunction) read realEntry
    Bundle.staysBelow_linkedPackage linkedPackage ⟨rfl, faithful, rfl⟩
  rw [show Bundle.withGraph dataSettings graphFunction =
    Bundle.withStrategy dataSettings graphFunction .graph from rfl, bundled] at ended
  obtain ⟨-, g, same, standing, closed⟩ := ended.well _ rfl
  rw [same] at bundled
  obtain ⟨noNames, -⟩ := entries_linkedPackage closed standing
  have together := holdsTogether_linkedPackage closed standing
  obtain ⟨archive, w₂, assembled, -, -, meaning⟩ := assemble_selfContained (f := graphFunction) read
    realEntry Bundle.staysBelow_linkedPackage faithful bundled rfl together freshPlace_linkedPackage
  obtain ⟨asked, follows⟩ := Sample.onePackage_leads Bundle.read_linkedPackage
    Bundle.resolve_linkedPackage
  have base : (Bundle.ofGraph graphFunction.runtime g).base.names = [] := noNames
  rw [base] at meaning
  obtain ⟨-, resolved⟩ := meaning app "p" storedIndex (some storedPackage) _ .start
    (by simp [Sample.referencesIn_app Bundle.read_linkedPackage]) follows (portable_linkedPackage _)
  obtain ⟨package', resolved⟩ := resolved (.empty none) (Manifests.faithful_empty none _)
  exact ⟨_, w₁, archive, w₂, package', bundled, together, freshPlace_linkedPackage,
    assembled, resolved⟩

end Example

end Archive

end FunctionArchive
