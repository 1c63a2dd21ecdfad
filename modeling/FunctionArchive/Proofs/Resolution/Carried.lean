import FunctionArchive.Proofs.Disk.Pictured
import FunctionArchive.Proofs.Path.Mounted
import FunctionArchive.Proofs.Relocation.Installed
import FunctionArchive.Proofs.Resolution.ByName
import FunctionArchive.Proofs.Resolution.ByPath

/-!
# References that are carried along

The links that are collected from a script to a file are all that a look-up of the file crosses. So
a file that a path leads to in a tree, and that stands in a copy of a part of the tree, is found
there by the same path if these links stand in the copy, and the links that are collected in the
copy are the copies of them (`found_copy`). A path below the directory at which the tree starts is
written as that directory and the names below it, so a copy changes the directory and nothing else
(`Path.moved`).

In the copy fewer of the candidates for a reference are files, and a manifest may be missing. What
is found first in the tree is still found first in the copy, if it stands there (`find?_copied`),
and a manifest of the copy says what that of the tree says (`manifest_copied`). A missing manifest
does no harm where it gives no file, or where an index file stands for the directory anyway
(`NeedsManifest`).

With this, what stands for a path of the tree is copied (`path_copied`), and so is what an installed
package exports (`exported_copied`). The root of the tree needs care: it is found under the name of
whatever directory it is put in, so nothing beside that may have its name (`IsSite`).
-/

set_option autoImplicit false

namespace FunctionArchive

open FunctionArchive.Path (Proper IsName mounted)
open Disk (Pictures Leads Node)

/-- The path at `site` of what is copied there from below `base`. -/
def Path.moved (base site : List String) (p : Path) : Path :=
  .ofNames (site ++ p.names.drop base.length)

theorem Path.moved_ofNames (base site names : List String) :
    (ofNames (base ++ names)).moved base site = ofNames (site ++ names) :=
  congrArg (fun rest => ofNames (site ++ rest)) List.drop_left

/-- A link, as it stands in a copy. -/
def Link.moved (base site : List String) (link : Link) : Link :=
  ⟨link.path.moved base site, link.target.moved base site⟩

/-- A link stands in a copy. -/
def Disk.Carries (d' : Disk) (site base : List String) (link : Link) : Prop :=
  ∃ names text, link.path = .ofNames (base ++ names) ∧
    d'.root.at? (site ++ names) = some (.link text)

namespace Resolution

variable {d d' : Disk} {site base here inner names : List String} {name : String}
  {start last found : Path} {links : List Link} {node : Node} {limit : Option Path}

/-- The links of a walk are those that are collected. -/
theorem Crosses.answer (crosses : Crosses d start names links last) (limit : Option Path) :
    (linksFrom start names).answer d limit = .ok links := by
  induction crosses with
  | arrive => rfl
  | pass noLink _ ih => exact linksFrom_pass noLink ih
  | cross isLink leads _ ih => exact linksFrom_cross isLink leads ih

/-- A path that ends in a name leads from the site where its components lead. -/
theorem find_mounted {entries : List (String × Node)} {q : Path} (proper : Proper site)
    (root : d.root.at? site = some (.directory entries)) (absolute : q.absolute = true)
    (named : Disk.EndsInName q) :
    d.find (q.mounted site) = Disk.walk d.root true Disk.maxLinks site q.components := by
  obtain ⟨front, last, split, kept⟩ := named
  have spelled : Disk.walk d.root true Disk.maxLinks [] (site ++ (front ++ [last])) = _ :=
    Disk.walk_filter_redundant kept Disk.maxLinks [] front site
  rw [← split, Disk.walk_straight_root root proper.leadsDown,
    ← Path.components_of_absolute absolute,
    Disk.walk_straight_root root proper.leadsDown] at spelled
  exact (Disk.walk_straight_root root proper.leadsDown).trans spelled

section Copy

variable (pictures : Pictures d' site d base) (tree : d.IsTree)
include pictures

/-- A way without links is one in the copy. -/
theorem straight_copy (straight : d.Straight (base ++ here)) : d'.Straight (site ++ here) := by
  refine ⟨Path.proper_append.mpr ⟨pictures.straight.proper,
    (Path.proper_append.mp straight.proper).2⟩, fun front inFront text there => ?_⟩
  rcases List.prefix_or_prefix_of_prefix inFront (List.prefix_append site here) with
    before | ⟨inside, rfl⟩
  · exact pictures.straight.noLink front before text there
  · have below := (List.prefix_append_right_inj site).mp inFront
    obtain ⟨node, isLink, copies⟩ := pictures.copies inside _ there
    cases copies
    exact straight.noLink _ ((List.prefix_append_right_inj base).mpr below) _ isLink

include tree

/-- A walk over links that stand in the copy can be made in the copy, if it ends at something
there. -/
theorem crosses_copy (crosses : Crosses d start names links last) (proper : Proper names)
    (starts : start = .ofNames (base ++ here)) (straight : d.Straight (base ++ here))
    (ends : last = .ofNames (base ++ inner)) (there : d'.root.at? (site ++ inner) = some node)
    (carries : ∀ link ∈ links, d'.Carries site base link) :
    (∃ bound, Leads d'.root true bound (site ++ here) names ⟨site ++ inner, node⟩) ∧
      Crosses d' (.ofNames (site ++ here)) names (links.map (Link.moved base site))
        (.ofNames (site ++ inner)) := by
  induction crosses generalizing here with
  | arrive =>
      obtain rfl : here = inner :=
        List.append_cancel_left (congrArg Path.names (starts.symm.trans ends))
      exact ⟨⟨0, .arrive there⟩, .arrive _⟩
  | @pass _ _ name rest links noLink _ ih =>
      subst starts
      obtain ⟨isName, properRest⟩ := List.forall_mem_cons.mp proper
      rw [straight.proper.child_eq isName.1] at noLink ih
      have noLinkHere : ∀ text, d.root.at? (base ++ here ++ [name]) ≠ some (.link text) :=
        fun text isLink => by
          rw [(straight.isLink_iff isName).mpr ⟨text, isLink⟩] at noLink
          cases noLink
      obtain ⟨⟨bound, leads⟩, walked⟩ := @ih (here ++ [name]) properRest
        (by rw [List.append_assoc]) (by simpa using straight.concat isName noLinkHere) ends carries
      obtain ⟨next, found⟩ := leads.start
      have noCopy : ∀ text, next ≠ .link text := by
        rintro text rfl
        obtain ⟨node, isLink, copies⟩ := pictures.copies _ _ found
        cases copies
        exact noLinkHere _ (by simpa using isLink)
      rw [← List.append_assoc] at found leads walked
      obtain ⟨entries, directory⟩ := Node.directory_of_at?_append found (List.cons_ne_nil _ _)
      have entry := (Node.at?_concat_of_directory directory name).symm.trans found
      have straight' := straight_copy pictures straight
      refine ⟨⟨bound, .down directory isName.notRedundant isName.2.2 entry noCopy leads⟩, ?_⟩
      refine .pass ?_ (by rwa [straight'.proper.child_eq isName.1])
      rw [straight'.proper.child_eq isName.1, Bool.eq_false_iff]
      intro isLink
      obtain ⟨text, there⟩ := (straight'.isLink_iff isName).mp isLink
      exact noCopy text (Option.some.inj (found.symm.trans there))
  | @cross _ target _ name rest links isLink leads _ ih =>
      subst starts
      obtain ⟨isName, properRest⟩ := List.forall_mem_cons.mp proper
      obtain ⟨carried, carriesRest⟩ := List.forall_mem_cons.mp carries
      have child := straight.proper.child_eq isName.1
      have straight' := straight_copy pictures straight
      have child' := straight'.proper.child_eq isName.1
      obtain ⟨names', text, isPath, linked⟩ := carried
      obtain rfl : names' = here ++ [name] := by
        have same := congrArg Path.names (isPath.symm.trans child)
        rw [List.append_assoc] at same
        exact List.append_cancel_left same
      obtain ⟨inner', -, leads', -, -⟩ := pictures.exists_target tree linked
      rw [child, List.append_assoc] at leads
      obtain rfl := Except.ok.inj (leads.symm.trans leads')
      obtain ⟨⟨bound, onward⟩, walked⟩ := ih properRest rfl
        (tree.straight_of_realPath leads).2 ends carriesRest
      obtain ⟨next, found⟩ := onward.start
      have goes (bound : Nat) (rest : List String) :=
        pictures.walk_target tree linked leads bound rest
      simp only [found] at goes
      refine ⟨⟨bound + 1, Disk.leads_of_walk ((goes bound rest).trans onward.walk_eq)⟩, ?_⟩
      have there : d'.root.at? (site ++ here ++ [name]) = some (.link text) := by
        rwa [List.append_assoc]
      obtain ⟨entries, directory⟩ := Node.directory_of_at?_append there (List.cons_ne_nil _ _)
      have real : d'.realPath ((Path.ofNames (site ++ here)).child name) =
          .ok (.ofNames (site ++ inner')) := by
        have way : Disk.walk d'.root true Disk.maxLinks [] (site ++ here ++ [name]) = _ :=
          Disk.walk_straight_root directory straight'.proper.leadsDown
        have arrives : Disk.walk d'.root true (Disk.maxLinks - 1) (site ++ inner') [] =
            .ok ⟨site ++ inner', next⟩ := by simp [Disk.walk, found]
        have whole := way.trans ((goes (Disk.maxLinks - 1) []).trans arrives)
        rw [child']
        exact congrArg (Except.map Disk.Place.path) whole
      have isLink' : d'.isLink ((Path.ofNames (site ++ here)).child name) = true := by
        rw [child']
        exact (straight'.isLink_iff isName).mpr ⟨text, there⟩
      have moved : Link.moved base site ⟨(Path.ofNames (base ++ here)).child name,
          .ofNames (base ++ inner')⟩ =
            ⟨(Path.ofNames (site ++ here)).child name, .ofNames (site ++ inner')⟩ := by
        rw [child, child', List.append_assoc, List.append_assoc]
        exact congrArg₂ Link.mk (Path.moved_ofNames ..) (Path.moved_ofNames ..)
      rw [List.map_cons, moved]
      exact .cross isLink' real walked

omit tree in
/-- What a path ends with by which a file is found is a name. -/
theorem endsInName {q : Path} (isFile : d.isFile (q.mounted base) = true) : Disk.EndsInName q := by
  obtain ⟨entries', root'⟩ := pictures.root'
  rcases List.eq_nil_or_concat q.names with none | ⟨front, last, split⟩
  · have found := pictures.straight'.stands root'
    simp [Path.mounted, none, Disk.isFile, found.find root'] at isFile
  · rw [List.concat_eq_append] at split
    refine ⟨front, last, split, Bool.eq_false_iff.mpr fun redundant => ?_⟩
    have ends : (q.mounted base).names.getLast? =
        some last := by simp [Path.mounted, Path.ofNames, split]
    rw [Disk.not_isFile_of_last ends (.inl redundant)] at isFile
    cases isFile

/-- A file that is found by a path whose links stand in the copy is found there too, over the copies
of these links. -/
theorem found_copy {file : Disk.File} (straight : d.Straight (base ++ here)) {q : Path}
    (descends : q.Descends) (isFile : d.isFile (q.mounted base) = true)
    (linked : (linksTo (.ofNames (base ++ here)) (q.mounted base)).answer d limit = .ok links)
    (carries : ∀ link ∈ links, d'.Carries site base link)
    (real : d.realPath (q.mounted base) = .ok (.ofNames (base ++ inner)))
    (there : d'.root.at? (site ++ inner) = some (.file file)) (limit' : Option Path) :
    d'.find (q.mounted site) = .ok ⟨site ++ inner, .file file⟩ ∧
      (linksTo (.ofNames (site ++ here)) (q.mounted site)).answer d' limit' =
        .ok (links.map (Link.moved base site)) := by
  obtain ⟨place, found, isPlace⟩ := Disk.find_of_realPath real
  have rooted : (q.mounted base).Rooted := ⟨rfl, List.forall_mem_append.mpr
    ⟨pictures.straight'.proper.noSlash, descends.noSlash⟩⟩
  obtain ⟨-, proper⟩ := Path.proper_append.mp straight.proper
  -- The directory that the file shares with the script, and what is left of its path from there.
  obtain ⟨above, inFront, ⟨rest, split⟩, shared⟩ :=
    Path.find?_isWithin_mounted proper descends.absolute
  have properAbove := proper.of_prefix inFront
  have relative (place : List String) (proper : Proper place) :
      (q.mounted place).relativeTo? ((Path.ofNames above).mounted place) = some rest := by
    rw [Path.relativeTo?_mounted proper descends.absolute rfl]
    exact Path.relativeTo?_ofNames properAbove descends.absolute split
  have straightAbove : d.Straight (base ++ above) :=
    straight.of_prefix ((List.prefix_append_right_inj base).mpr inFront)
  have properRest : Proper rest :=
    (Path.proper_append.mp (split ▸ descends.proper_components)).2
  -- The walk over the links in the tree, and the same walk in the copy.
  obtain ⟨start, rest', links', last, shared', -, relative', -, answered, crosses, arrives⟩ :=
    linksTo_crosses limit tree straight rooted found
  obtain rfl : base ++ above = start :=
    congrArg Path.names
      (Option.some.inj ((shared base pictures.straight'.proper).symm.trans shared'))
  obtain rfl := Option.some.inj ((relative base pictures.straight'.proper).symm.trans relative')
  obtain rfl := Except.ok.inj (linked.symm.trans answered)
  obtain ⟨⟨ending, rfl, straightEnd⟩, -⟩ := crosses.straight tree properRest rfl straightAbove
  have isEnd : ending = base ++ inner := by
    have reached := (Disk.leads_of_find arrives).names_eq straightEnd.proper straightEnd.noLink
    rw [List.nil_append] at reached
    exact reached.symm.trans (congrArg Path.names isPlace).symm
  obtain ⟨⟨bound, leads⟩, walked⟩ := crosses_copy pictures tree crosses properRest rfl straightAbove
    (congrArg Path.ofNames isEnd) there carries
  constructor
  · obtain ⟨entries, root⟩ := pictures.root
    obtain ⟨node, begins⟩ := leads.start
    have way := leads.behind begins properAbove.leadsDown fun text isLink =>
      (straight_copy pictures straightAbove).noLink _ List.prefix_rfl text (isLink ▸ begins)
    have same := find_mounted pictures.straight.proper root descends.absolute
      (endsInName pictures isFile)
    rw [← split] at same
    refine same.trans ((way.bounded Disk.maxLinks).resolve_left fun many => ?_)
    have refused := pictures.refused tree descends.notUp (same.trans many)
    cases refused.symm.trans found
  · unfold linksTo
    have isShared := shared site pictures.straight.proper
    rw [Path.mounted_ofNames] at isShared
    simp only [isShared, relative site pictures.straight.proper]
    exact walked.answer limit'

end Copy

end Resolution

open FunctionArchive.Path (Proper IsName IsPart mounted)
open Disk (Pictures)

variable {d d' : Disk} {site base : List String} {p q : Path} {extensions : List String}

/-! ## Directories -/

namespace Disk

/-- What has a child that is found is a directory. -/
theorem isDirectory_of_child {name : String} {place : Place} (isName : IsName name)
    (absolute : p.absolute = true) (found : d.find (p.child name) = .ok place) :
    d.isDirectory p = true := by
  obtain ⟨dir, enters, -⟩ := of_lookUp_child isName found
  exact isDirectory_of_enters enters (by simp [absolute])

theorem isDirectory_of_manifestIn {m : Manifest} (absolute : p.absolute = true)
    (there : d.manifestIn p = some m) : d.isDirectory p = true := by
  unfold manifestIn Manifests.fetch at there
  cases read : d.read (p.child Manifest.fileName) with
  | error fault => cases fault <;> simp [read] at there
  | ok bytes =>
      obtain ⟨dir, enters⟩ := exists_enters_of_read (by decide) read
      exact isDirectory_of_enters enters (by simp [absolute])

end Disk

namespace Resolution

/-! ## Candidates of a tree -/

section

variable (extensions)

/-- What may stand for a path of a tree as a file. The root of the tree is none, and nothing in the
tree is beside it. -/
def treeFiles (p : Path) : List Path := if p.names = [] then [] else fileCandidates extensions p

/-- The path of a tree that a text spells from another path of the tree. -/
def aim (p : Path) (text : String) : Path :=
  .ofNames ((Path.descend? [] (p.names ++ (Path.ofString text).names)).getD [])

/-- What a manifest at a path of a tree may mean by its main file. -/
def mainFiles (p : Path) (m : Option Manifest) : List Path :=
  match m.bind (·.main) with
  | none => []
  | some main => treeFiles extensions (aim p main) ++ indexCandidates extensions (aim p main)

/-- What may stand for a directory of a tree that holds this manifest. -/
def insideFiles (p : Path) (m : Option Manifest) : List Path :=
  mainFiles extensions p m ++ indexCandidates extensions p

/-- What a manifest at a path of a tree exports for a reference. -/
def exportFiles (p : Path) (reference : String) (m : Option Manifest) : List Path :=
  match m.bind (·.exportTarget? (Reference.subpath reference)) with
  | none => []
  | some target => [aim p target]

/-- A directory at which a tree starts. It is not one of installed packages, and no file beside it
has its name with an extension. -/
structure IsSite (d : Disk) (base : List String) : Prop where
  proper : Proper base
  named : base.getLast? ≠ some packagesName
  root : ∃ entries, d.root.at? base = some (.directory entries)
  beside : ∀ extension ∈ extensions, d.isFile ((Path.ofNames base).appendToName extension) = false

end

theorem normalize_aim {text : String} (keeps : p.Keeps text) (proper : Proper base)
    (current : Path) :
    Path.normalize current ((p.mounted base).child text) = (aim p text).mounted base := by
  obtain ⟨relative, stays⟩ := keeps
  obtain ⟨inner, arrives⟩ := Option.isSome_iff_exists.mp stays
  unfold aim
  rw [arrives]
  exact Path.normalize_child_mounted proper current relative arrives

theorem aim_plain {text : String} (keeps : p.Keeps text) (rooted : p.Rooted) :
    (aim p text).Plain := by
  obtain ⟨inner, proper, spelled⟩ := keeps.normalize rooted
  have same := (normalize_aim keeps Path.proper_nil .root).symm.trans
    (spelled [] .root Path.proper_nil)
  exact (Path.mounted_inj rfl rfl).mp same ▸ Path.plain_ofNames.mpr proper

theorem fileCandidates_mounted (some : p.names ≠ []) (base : List String) :
    fileCandidates extensions (p.mounted base) =
      (fileCandidates extensions p).map (mounted base) := by
  simp only [fileCandidates, List.map_cons, List.map_map]
  congr 1
  exact List.map_congr_left fun extension _ => Path.appendToName_mounted some extension

theorem isName_index {extension : String} (isName : IsName extension) :
    IsName ("index" ++ extension) :=
  Path.IsName.append (by decide) isName

/-- What is no directory has no candidates in it. -/
theorem find?_index_none (named : ∀ extension ∈ extensions, IsName extension)
    (absolute : p.absolute = true) (other : d.isDirectory p = false) :
    (indexCandidates extensions p).find? d.isFile = none := by
  rw [List.find?_eq_none]
  intro q among isFile
  obtain ⟨extension, member, rfl⟩ := List.mem_map.mp among
  obtain ⟨real, f, found⟩ := Disk.isFile_iff.mp isFile
  rw [Disk.isDirectory_of_child (isName_index (named extension member)) absolute found] at other
  cases other

theorem mem_fileCandidates (among : q ∈ treeFiles extensions p) :
    q.mounted base ∈ fileCandidates extensions (p.mounted base) := by
  unfold treeFiles at among
  split at among
  · cases among
  · rw [fileCandidates_mounted ‹_›]
    exact List.mem_map_of_mem among

section Descends

variable (named : ∀ extension ∈ extensions, IsName extension)
include named

theorem descends_treeFiles (descends : p.Descends) : ∀ q ∈ treeFiles extensions p, q.Descends := by
  unfold treeFiles
  split
  · exact List.forall_mem_nil _
  · rename_i some
    refine List.forall_mem_cons.mpr ⟨descends, fun q among => ?_⟩
    obtain ⟨extension, member, rfl⟩ := List.mem_map.mp among
    have isName := named extension member
    refine (descends.appendToName isName.1.2).resolve_right fun up => ?_
    obtain ⟨front, last, split⟩ := (List.eq_nil_or_concat p.names).resolve_left some
    rw [List.concat_eq_append] at split
    have spelled : p = ⟨true, front ++ [last]⟩ := by
      rw [← split]
      exact Path.eq_ofNames descends.absolute
    have noSlash : '/' ∉ last.toList := descends.noSlash last (by simp [split])
    rw [spelled, Path.appendToName_concat true front noSlash isName.1.2] at up
    exact Path.append_ne_up isName (by simpa using up)

theorem descends_indexCandidates (descends : p.Descends) :
    ∀ q ∈ indexCandidates extensions p, q.Descends := by
  intro q among
  obtain ⟨extension, member, rfl⟩ := List.mem_map.mp among
  have isName := isName_index (named extension member)
  exact descends.child_name isName.1 isName.2.2

theorem descends_insideFiles (descends : p.Descends) {m : Option Manifest}
    (keeps : ∀ main, m.bind (·.main) = some main → p.Keeps main) :
    ∀ q ∈ insideFiles extensions p m, q.Descends := by
  refine List.forall_mem_append.mpr ⟨?_, descends_indexCandidates named descends⟩
  unfold mainFiles
  cases isMain : m.bind (·.main) with
  | none => exact List.forall_mem_nil _
  | some main =>
      have plain := aim_plain (keeps main isMain) descends.toRooted
      exact List.forall_mem_append.mpr ⟨descends_treeFiles named plain.descends,
        descends_indexCandidates named plain.descends⟩

end Descends

section Site

variable (isSite : IsSite extensions d base) (named : ∀ extension ∈ extensions, IsName extension)
include isSite

theorem IsSite.find?_file (p : Path) : (fileCandidates extensions (p.mounted base)).find? d.isFile =
    ((treeFiles extensions p).map (mounted base)).find? d.isFile := by
  unfold treeFiles
  split
  · rename_i none
    obtain ⟨entries, root⟩ := isSite.root
    have itself : d.isFile (.ofNames base) = false := by
      have found := Disk.find_of_at? root isSite.proper.leadsDown fun _ isLink => by cases isLink
      simp [Disk.isFile, found]
    have spelled : p.mounted base = .ofNames base := by rw [Path.mounted, none, List.append_nil]
    rw [spelled, List.map_nil, List.find?_nil, List.find?_eq_none]
    refine List.forall_mem_cons.mpr ⟨by simpa using itself, ?_⟩
    rintro _ among
    obtain ⟨extension, member, rfl⟩ := List.mem_map.mp among
    simpa using isSite.beside extension member
  · rw [fileCandidates_mounted ‹_›]

include named

theorem IsSite.indexCandidates_eq (p : Path) :
    indexCandidates extensions (p.mounted base) =
      (indexCandidates extensions p).map (mounted base) := by
  simp only [indexCandidates, List.map_map]
  exact List.map_congr_left fun extension member =>
    Path.child_mounted_name isSite.proper p (isName_index (named extension member)).1

theorem IsSite.find?_main
    (keeps : ∀ main, (d.manifestIn (p.mounted base)).bind (·.main) = some main → p.Keeps main) :
    (mainCandidates d extensions (p.mounted base)).find? d.isFile =
      ((mainFiles extensions p (d.manifestIn (p.mounted base))).map (mounted base)).find?
        d.isFile := by
  unfold mainCandidates mainFiles
  cases isMain : (d.manifestIn (p.mounted base)).bind (·.main) with
  | none => rfl
  | some main =>
      simp only []
      rw [normalize_aim (keeps main isMain) isSite.proper, List.map_append, List.find?_append,
        List.find?_append, isSite.find?_file, isSite.indexCandidates_eq named]

/-- What stands for a directory of the tree is the first file among the paths of the tree for it. -/
theorem IsSite.find?_inside
    (keeps : ∀ main, (d.manifestIn (p.mounted base)).bind (·.main) = some main → p.Keeps main) :
    (if d.isDirectory (p.mounted base) then directoryCandidates d extensions (p.mounted base)
      else []).find? d.isFile =
      ((insideFiles extensions p (d.manifestIn (p.mounted base))).map (mounted base)).find?
        d.isFile := by
  unfold directoryCandidates insideFiles
  rw [List.map_append, List.find?_append, ← isSite.find?_main named keeps,
    ← isSite.indexCandidates_eq named]
  cases isDirectory : d.isDirectory (p.mounted base) with
  | true => rw [if_pos rfl, List.find?_append]
  | false =>
      have noManifest : d.manifestIn (p.mounted base) = none :=
        Option.eq_none_iff_forall_ne_some.mpr fun m there => by
          rw [Disk.isDirectory_of_manifestIn rfl there] at isDirectory
          cases isDirectory
      rw [find?_index_none named rfl isDirectory, mainCandidates, noManifest]
      rfl

/-- The paths of the tree that may stand for a directory are among its candidates. -/
theorem IsSite.mem_inside (isDirectory : d.isDirectory (p.mounted base) = true)
    (keeps : ∀ main, (d.manifestIn (p.mounted base)).bind (·.main) = some main → p.Keeps main)
    (among : q ∈ insideFiles extensions p (d.manifestIn (p.mounted base))) :
    q.mounted base ∈ pathCandidates d extensions (p.mounted base) := by
  have inIndex {q' : Path} (among : q ∈ indexCandidates extensions q') :
      q.mounted base ∈ indexCandidates extensions (q'.mounted base) := by
    rw [isSite.indexCandidates_eq named]
    exact List.mem_map_of_mem among
  unfold pathCandidates directoryCandidates
  rw [if_pos isDirectory]
  refine List.mem_append_right _ ?_
  rcases List.mem_append.mp among with main | index
  · refine List.mem_append_left _ ?_
    unfold mainFiles at main
    unfold mainCandidates
    cases isMain : (d.manifestIn (p.mounted base)).bind (·.main) with
    | none => simp [isMain] at main
    | some text =>
        simp only [isMain] at main ⊢
        rw [normalize_aim (keeps text isMain) isSite.proper]
        exact List.mem_append.mpr ((List.mem_append.mp main).imp mem_fileCandidates inIndex)
  · exact List.mem_append_right _ (inIndex index)

end Site

section Export

variable {reference : String} (proper : Proper base)
  (keeps : ∀ target, (d.manifestIn (p.mounted base)).bind
    (·.exportTarget? (Reference.subpath reference)) = some target → p.Keeps target)
include proper keeps

/-- What a package of the tree exports is a path of the tree. -/
theorem exportCandidates_eq : exportCandidates d (p.mounted base) reference =
    (exportFiles p reference (d.manifestIn (p.mounted base))).map (mounted base) := by
  unfold exportCandidates exportFiles
  cases isTarget : (d.manifestIn (p.mounted base)).bind
      (·.exportTarget? (Reference.subpath reference)) with
  | none => simp
  | some target =>
      obtain ⟨m, there, -⟩ := Option.bind_eq_some_iff.mp isTarget
      simp only [Disk.isDirectory_of_manifestIn rfl there, if_true]
      rw [normalize_aim (keeps target isTarget) proper]
      rfl

omit proper in
theorem descends_exportFiles (rooted : p.Rooted) :
    ∀ q ∈ exportFiles p reference (d.manifestIn (p.mounted base)), q.Descends := by
  unfold exportFiles
  cases isTarget : (d.manifestIn (p.mounted base)).bind
      (·.exportTarget? (Reference.subpath reference)) with
  | none => exact List.forall_mem_nil _
  | some target =>
      exact List.forall_mem_singleton.mpr (aim_plain (keeps target isTarget) rooted).descends

end Export

/-- A path does not stand for the same file without its manifest. -/
def NeedsManifest (d : Disk) (extensions : List String) (path : Path) : Prop :=
  (pathCandidates d extensions path).find? d.isFile ≠
    (fileCandidates extensions path ++ indexCandidates extensions path).find? d.isFile

/-! ## Lists of candidates -/

/-- What is found in the tree and what is found in the copy are the same path, or there is nothing
in either. -/
def Copied (base site : List String) (found found' : Option Path) : Prop :=
  ∃ file : Option Path, (∀ q, file = some q → q.Descends) ∧ found = file.map (mounted base) ∧
    found' = file.map (mounted site)

theorem Copied.none (base site : List String) : Copied base site none none :=
  ⟨Option.none, (fun _ found => by cases found), rfl, rfl⟩

/-- What is found first is copied, or what is found behind it. -/
theorem Copied.or {found found' more more' : Option Path} (first : Copied base site found found')
    (second : found = Option.none → Copied base site more more') :
    Copied base site (found.or more) (found'.or more') := by
  obtain ⟨file, descends, rfl, rfl⟩ := first
  cases file with
  | none => exact second rfl
  | some q => exact ⟨some q, descends, rfl, rfl⟩

section Candidates

variable (pictures : Pictures d' site d base) (tree : d.IsTree)
include pictures tree

/-- The first file among some paths of the tree is the first one among them in the copy, if it is a
file there at all. -/
theorem find?_copied {paths : List Path} (descend : ∀ q ∈ paths, q.Descends)
    (few : ∀ q ∈ paths, d.find (q.mounted base) ≠ .error .tooManyLinks)
    (reached : ∀ q ∈ paths, (paths.map (mounted base)).find? d.isFile = some (q.mounted base) →
      d'.isFile (q.mounted site) = true) :
    Copied base site ((paths.map (mounted base)).find? d.isFile)
      ((paths.map (mounted site)).find? d'.isFile) := by
  induction paths with
  | nil => exact .none base site
  | cons q rest ih =>
      obtain ⟨descends, descendRest⟩ := List.forall_mem_cons.mp descend
      obtain ⟨fewHere, fewRest⟩ := List.forall_mem_cons.mp few
      simp only [List.map_cons, List.find?_cons] at reached ⊢
      cases isFile : d.isFile (q.mounted base) with
      | true =>
          simp only [isFile] at reached ⊢
          rw [reached q List.mem_cons_self rfl]
          exact ⟨some q, by rintro _ ⟨⟩; exact descends, rfl, rfl⟩
      | false =>
          simp only [isFile] at reached ⊢
          have noCopy : d'.isFile (q.mounted site) = false := Bool.eq_false_iff.mpr fun isCopy => by
            rw [pictures.isFile tree descends.notUp fewHere isCopy] at isFile
            cases isFile
          rw [noCopy]
          exact ih descendRest fewRest fun q member => reached q (List.mem_cons_of_mem _ member)

/-! ## Manifests -/

/-- A manifest that can be read in the tree can be read in the copy, and says the same if it is
there. -/
theorem fetch_copied {m : Option Manifest} (level : ".." ∉ p.names)
    (fetched : Manifests.fetch d (p.mounted base) = .ok m) :
    ∃ m', Manifests.fetch d' (p.mounted site) = .ok m' ∧
      (m' = none ∧ d'.isFile (p.mounted site) = false ∨ Option.Rel Manifest.Matches m' m) := by
  have few : d.find (p.mounted base) ≠ .error .tooManyLinks := fun many => by
    simp [Manifests.fetch, Disk.read, Disk.file, many, Except.map] at fetched
  unfold Manifests.fetch at fetched ⊢
  cases found : d'.find (p.mounted site) with
  | error fault =>
      have noFile : d'.isFile (p.mounted site) = false := by simp [Disk.isFile, found]
      have refused : d'.read (p.mounted site) = .error fault := by
        simp [Disk.read, Disk.file, found, Except.map]
      rw [refused]
      rcases Disk.walk_refused found with rfl | rfl | rfl
      · exact ⟨none, rfl, .inl ⟨rfl, noFile⟩⟩
      · exact ⟨none, rfl, .inl ⟨rfl, noFile⟩⟩
      · exact absurd (pictures.refused tree level found) few
  | ok place =>
      obtain ⟨real, node⟩ := place
      cases node with
      | file f =>
          have read : d'.read (p.mounted site) = .ok f.data := by
            simp [Disk.read, Disk.file, found, Except.map]
          have read' := pictures.read tree level few read
          rw [read'] at fetched
          rw [read]
          simp only [Manifest.read] at fetched ⊢
          cases run : Json.Reader.run Manifest.readFields f.data with
          | error error => simp [run, Except.map] at fetched
          | ok fields =>
              simp only [run, Except.map, Except.ok.injEq] at fetched ⊢
              have alike (directory directory' : Path) :
                  (Manifest.ofFields directory fields).Matches (.ofFields directory' fields) := rfl
              exact ⟨_, rfl, .inr (fetched ▸ .some (alike _ _))⟩
      | directory entries =>
          have noFile : d'.isFile (p.mounted site) = false := by simp [Disk.isFile, found]
          have refused : d'.read (p.mounted site) = .error .isDirectory := by
            simp [Disk.read, Disk.file, found, Except.map]
          rw [refused]
          exact ⟨none, rfl, .inl ⟨rfl, noFile⟩⟩
      | link text =>
          have noFile : d'.isFile (p.mounted site) = false := by simp [Disk.isFile, found]
          have refused : d'.read (p.mounted site) = .error .isDirectory := by
            simp [Disk.read, Disk.file, found, Except.map]
          rw [refused]
          exact ⟨none, rfl, .inl ⟨rfl, noFile⟩⟩

/-- The same of the manifest in a directory. -/
theorem manifest_copied (descends : p.Descends) (loads : d.LoadsManifest (p.mounted base)) :
    d'.LoadsManifest (p.mounted site) ∧
      (d'.manifestIn (p.mounted site) = none ∧
          d'.isFile ((p.mounted site).child Manifest.fileName) = false ∨
        Option.Rel Manifest.Matches (d'.manifestIn (p.mounted site))
          (d.manifestIn (p.mounted base))) := by
  have isPart : IsPart Manifest.fileName := by decide
  have fetched := loads.fetch_eq
  rw [Path.child_mounted_name pictures.straight'.proper p isPart] at fetched
  obtain ⟨m', fetched', alike⟩ := fetch_copied pictures tree
    (descends.child_name isPart (by decide)).notUp fetched
  rw [← Path.child_mounted_name pictures.straight.proper p isPart] at fetched' alike
  have there : d'.manifestIn (p.mounted site) = m' := by rw [Disk.manifestIn, fetched']
  rw [there]
  exact ⟨⟨m', fetched'⟩, alike⟩

/-! ## Files at a path -/

section Path

variable (isSite : IsSite extensions d base) (isSite' : IsSite extensions d' site)
  (named : ∀ extension ∈ extensions, IsName extension) (descends : p.Descends)
include isSite isSite' named descends

/-- What stands for a path of the tree stands for it in the copy, if it is there at all, and so is
the manifest that is needed to find it. The manifest of the copy can be read where it is
consulted. -/
theorem path_copied
    (keeps : ∀ main, (d.manifestIn (p.mounted base)).bind (·.main) = some main → p.Keeps main)
    (few : ∀ q ∈ pathCandidates d extensions (p.mounted base), d.find q ≠ .error .tooManyLinks)
    (loads : (fileCandidates extensions (p.mounted base)).find? d.isFile = none →
      d.isDirectory (p.mounted base) = true → d.LoadsManifest (p.mounted base))
    (needed : NeedsManifest d extensions (p.mounted base) →
      d'.isFile ((p.mounted site).child Manifest.fileName) = true)
    (reached : ∀ q : Path, q.Descends →
      (pathCandidates d extensions (p.mounted base)).find? d.isFile = some (q.mounted base) →
        d'.isFile (q.mounted site) = true) :
    Copied base site ((pathCandidates d extensions (p.mounted base)).find? d.isFile)
        ((pathCandidates d' extensions (p.mounted site)).find? d'.isFile) ∧
      ((fileCandidates extensions (p.mounted site)).find? d'.isFile = none →
        d'.isDirectory (p.mounted site) = true → d'.LoadsManifest (p.mounted site)) := by
  -- What is looked for as a file.
  have files : Copied base site ((fileCandidates extensions (p.mounted base)).find? d.isFile)
      ((fileCandidates extensions (p.mounted site)).find? d'.isFile) := by
    rw [isSite.find?_file, isSite'.find?_file]
    refine find?_copied pictures tree (descends_treeFiles named descends)
      (fun q among => few _ (List.mem_append_left _ (mem_fileCandidates among)))
      fun q among first => reached q (descends_treeFiles named descends q among) ?_
    rw [pathCandidates, List.find?_append, isSite.find?_file, first, Option.some_or]
  -- What is looked for in the directory, if no file is there.
  suffices inside : (fileCandidates extensions (p.mounted base)).find? d.isFile = none →
      Copied base site
        ((if d.isDirectory (p.mounted base) then directoryCandidates d extensions (p.mounted base)
          else []).find? d.isFile)
        ((if d'.isDirectory (p.mounted site) then directoryCandidates d' extensions (p.mounted site)
          else []).find? d'.isFile) ∧
      (d'.isDirectory (p.mounted site) = true → d'.LoadsManifest (p.mounted site)) by
    constructor
    · unfold pathCandidates
      rw [List.find?_append, List.find?_append]
      exact files.or fun none => (inside none).1
    · obtain ⟨file, -, isFile, isCopy⟩ := files
      intro none
      rw [isCopy, Option.map_eq_none_iff] at none
      exact (inside (by rw [isFile, none, Option.map_none])).2
  intro none
  have fewHere := few _ (List.mem_append_left _ List.mem_cons_self)
  cases isDirectory : d.isDirectory (p.mounted base) with
  | false =>
      have other : d'.isDirectory (p.mounted site) = false := Bool.eq_false_iff.mpr fun isCopy => by
        rw [pictures.isDirectory tree descends.notUp fewHere isCopy] at isDirectory
        cases isDirectory
      simp only [other, Bool.false_eq_true, if_false, List.find?_nil]
      exact ⟨.none base site, fun there => by cases there⟩
  | true =>
      obtain ⟨loads', alike⟩ := manifest_copied pictures tree descends (loads none isDirectory)
      refine ⟨?_, fun _ => loads'⟩
      -- Without a manifest in the copy, the tree finds the same without it.
      obtain ⟨keeps', same, among⟩ :
          (∀ main, (d'.manifestIn (p.mounted site)).bind (·.main) = some main → p.Keeps main) ∧
          (if d.isDirectory (p.mounted base) then directoryCandidates d extensions (p.mounted base)
            else []).find? d.isFile =
            ((insideFiles extensions p (d'.manifestIn (p.mounted site))).map (mounted base)).find?
              d.isFile ∧
          ∀ q ∈ insideFiles extensions p (d'.manifestIn (p.mounted site)),
            q.mounted base ∈ pathCandidates d extensions (p.mounted base) := by
        rw [isSite.find?_inside named keeps]
        have isAmong (q : Path) := isSite.mem_inside (q := q) named isDirectory keeps
        rcases alike with ⟨noCopy, noFile⟩ | matched
        · have alone := not_not.mp (mt needed (by rw [noFile]; exact Bool.false_ne_true))
          rw [pathCandidates, List.find?_append, List.find?_append, none, Option.none_or,
            Option.none_or, isSite.find?_inside named keeps,
              isSite.indexCandidates_eq named] at alone
          rw [noCopy]
          exact ⟨(fun _ isMain => by cases isMain), alone, fun q member =>
            isAmong q (List.mem_append_right _ member)⟩
        · have sameMain := Manifest.bind_eq_of_matches matched (·.main) fun _ _ => rfl
          simp only [insideFiles, mainFiles, sameMain]
          exact ⟨keeps, trivial, isAmong⟩
      rw [isDirectory] at same
      rw [isSite'.find?_inside named keeps', same]
      refine find?_copied pictures tree (descends_insideFiles named descends keeps')
        (fun q member => few _ (among q member)) fun q member first =>
          reached q (descends_insideFiles named descends keeps' q member) ?_
      rw [pathCandidates, List.find?_append, none, Option.none_or, isDirectory, same, first]

end Path

/-! ## Files of installed packages -/

/-- What a package of the tree exports for a reference its copy exports, if it is there at all, and
so is the manifest. The manifest of the copy can be read where there is a package. -/
theorem exported_copied {reference : String} (descends : p.Descends)
    (keeps : ∀ target, (d.manifestIn (p.mounted base)).bind
      (·.exportTarget? (Reference.subpath reference)) = some target → p.Keeps target)
    (few : d.find (p.mounted base) ≠ .error .tooManyLinks)
    (fewTargets : ∀ q ∈ exportCandidates d (p.mounted base) reference,
      d.find q ≠ .error .tooManyLinks)
    (loads : d.isDirectory (p.mounted base) = true → d.LoadsManifest (p.mounted base))
    (needed : (exportCandidates d (p.mounted base) reference).find? d.isFile ≠ none →
      d'.isFile ((p.mounted site).child Manifest.fileName) = true)
    (reached : ∀ q : Path, q.Descends →
      (exportCandidates d (p.mounted base) reference).find? d.isFile = some (q.mounted base) →
        d'.isFile (q.mounted site) = true) :
    Copied base site ((exportCandidates d (p.mounted base) reference).find? d.isFile)
        ((exportCandidates d' (p.mounted site) reference).find? d'.isFile) ∧
      (d'.isDirectory (p.mounted site) = true → d'.LoadsManifest (p.mounted site)) := by
  cases isDirectory : d.isDirectory (p.mounted base) with
  | false =>
      have other : d'.isDirectory (p.mounted site) = false := Bool.eq_false_iff.mpr fun isCopy => by
        rw [pictures.isDirectory tree descends.notUp few isCopy] at isDirectory
        cases isDirectory
      simp only [exportCandidates, isDirectory, other, Bool.false_eq_true, if_false, List.find?_nil]
      exact ⟨.none base site, fun there => by cases there⟩
  | true =>
      obtain ⟨loads', alike⟩ := manifest_copied pictures tree descends (loads isDirectory)
      refine ⟨?_, fun _ => loads'⟩
      rcases alike with ⟨noCopy, noFile⟩ | matched
      · have nothing := not_not.mp (mt needed (by rw [noFile]; exact Bool.false_ne_true))
        have nothing' : exportCandidates d' (p.mounted site) reference = [] := by
          simp [exportCandidates, noCopy]
        rw [nothing, nothing']
        exact .none base site
      · have sameTarget := Manifest.bind_eq_of_matches matched
          (·.exportTarget? (Reference.subpath reference)) fun _ _ => rfl
        have descend := descends_exportFiles keeps descends.toRooted
        have same : exportFiles p reference (d'.manifestIn (p.mounted site)) =
            exportFiles p reference (d.manifestIn (p.mounted base)) := by
          unfold exportFiles
          rw [sameTarget]
        have spelled := exportCandidates_eq pictures.straight.proper (sameTarget ▸ keeps)
        rw [exportCandidates_eq pictures.straight'.proper keeps] at fewTargets reached ⊢
        rw [spelled, same]
        exact find?_copied pictures tree descend
          (fun q among => fewTargets _ (List.mem_map_of_mem among))
          fun q among first => reached q (descend q among) first

end Candidates

end Resolution

end FunctionArchive
