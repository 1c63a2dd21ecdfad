import FunctionArchive.Proofs.Graph.Links

/-!
# The files of a closure

Every file of a closure is at a plain path (`build_plain`, `buildPackages_plain`). Files that a
reference leads to are met by their real paths. The others are listed below the real directory of a
package, or below a directory beside it, by the names of entries (`filesBelow_proper`), although
links may stand on the way.
-/

set_option autoImplicit false

namespace FunctionArchive

open Query (Yields)
open Path (Plain Proper IsName)

namespace Disk

variable {d : Disk} {entries : List (String × Node)} {front names : List String} {node : Node}

/-! ## What a walk finds -/

/-- Entries below which all entries have the names of entries. -/
def Named (entries : List (String × Node)) : Prop :=
  ∀ names ∈ Node.descendantsOf entries, Proper names

theorem IsTree.named (tree : d.IsTree) (there : d.root.at? front = some (.directory entries)) :
    Named entries := by
  intro names below
  have inside : Path.ofNames (front ++ names) ∈ d.allPaths :=
    List.mem_cons_of_mem _ (List.mem_map_of_mem (Node.mem_descendants_append there below))
  exact (Path.proper_append.mp (tree.proper _ inside)).2

/-- Under named entries an entry bears the name of one, and so do all entries below it. -/
theorem Named.entry {name : String} (named : Named entries) (member : (name, node) ∈ entries) :
    IsName name ∧ ∀ inner, node = .directory inner → Named inner := by
  obtain ⟨itself, below⟩ := Node.mem_descendantsOf member
  refine ⟨Path.proper_singleton.mp (named _ itself), ?_⟩
  rintro inner rfl names inside
  exact fun other among => named _ (below names inside) other (List.mem_cons_of_mem _ among)

/-- A directory that an entry stands for is named. -/
theorem IsTree.named_of_resolveEntry {above : List Ancestor} {path : Path} {place : Place}
    {inner : List (String × Node)} (tree : d.IsTree)
    (named : ∀ inner, node = .directory inner → Named inner)
    (stands : resolveEntry d above path names node = .ok place)
    (directory : place.node = .directory inner) : Named inner := by
  cases node with
  | file f =>
      cases stands
      cases directory
  | directory entries =>
      cases stands
      exact named inner directory
  | link target =>
      cases found : d.find path with
      | error fault => simp [resolveEntry, found] at stands
      | ok reached =>
          have same : place = reached := by
            obtain ⟨real, node⟩ := reached
            cases node <;> simp only [resolveEntry, found] at stands
            · cases stands
              rfl
            · cases stands
              rfl
            · split at stands
              · cases stands
              · cases stands
                rfl
          subst same
          exact tree.named (directory ▸ at?_of_find found)

variable {skip : String → Bool} {found : List (List String)}

/-- A walk through named entries finds files by the names of entries, whatever links it follows. -/
theorem filesFrom_proper {depth : Nat} {above : List Ancestor} {path : Path} (tree : d.IsTree)
    (named : Named entries) (walked : filesFrom d skip depth above path front entries = .ok found) :
    ∀ names ∈ found, Proper names := by
  induction depth generalizing above path front entries found with
  | zero => cases walked
  | succ depth ih =>
      rw [filesFrom] at walked
      obtain ⟨groups, listed, flattened⟩ := ok_of_bind walked
      cases flattened
      intro names member
      obtain ⟨group, among, inside⟩ := List.mem_flatten.mp member
      obtain ⟨⟨name, node⟩, entry, answered⟩ := exists_of_mem_mapM_ok listed among
      obtain ⟨isName, below⟩ := named.entry (List.mem_mergeSort.mp entry)
      obtain ⟨place, stands, answered⟩ := ok_of_bind answered
      have alone (last : Except.ok [[name]] = (Except.ok group : Except Fault _)) :
          Proper names := by
        cases last
        cases List.mem_singleton.mp inside
        exact Path.proper_singleton.mpr isName
      split at answered
      · cases answered
        cases inside
      · split at answered
        · rename_i inner directory
          obtain ⟨found, walked, renamed⟩ := ok_of_bind answered
          cases renamed
          obtain ⟨rest, further, rfl⟩ := List.mem_map.mp inside
          have inner := tree.named_of_resolveEntry below stands directory
          exact List.forall_mem_cons.mpr ⟨isName, ih inner walked rest further⟩
        · exact alone answered

theorem filesBelow_proper {path : Path} (tree : d.IsTree)
    (walked : d.filesBelow skip path = .ok found) : ∀ names ∈ found, Proper names := by
  unfold filesBelow at walked
  split at walked
  · cases walked
  · rename_i names entries there
    exact filesFrom_proper tree (tree.named (at?_of_find there)) walked
  · cases walked
    exact List.forall_mem_singleton.mpr Path.proper_nil

end Disk

/-! ## What packages bring -/

namespace GraphPolicy

variable {policy : GraphPolicy} {d : Disk} {boundary : Option Path}

theorem Lists.plain {exclusion : Exclusion} {directory file : Path} (tree : d.IsTree)
    (plain : directory.Plain) (lists : Lists d exclusion directory file) : file.Plain := by
  obtain ⟨found, names, below, member, -, rfl⟩ := lists
  exact ⟨plain.absolute, Path.proper_append.mpr
    ⟨plain.proper, Disk.filesBelow_proper tree below names member⟩⟩

theorem Ships.plain {root file : Path} (tree : d.IsTree) (isReal : d.IsRealDirectory root)
    (ships : policy.Ships d root file) : file.Plain := by
  obtain ⟨entries, there⟩ := isReal.there
  have plain : root.Plain := ⟨isReal.absolute, tree.proper_of_at? there⟩
  cases ships with
  | own _ listed => exact listed.plain tree plain
  | beside _ _ listed =>
      exact listed.plain tree ((plain.descends.toRooted.child _).normalize d.current)

end GraphPolicy

/-! ## What a traversal meets -/

variable {policy : GraphPolicy} {d : Disk} {boundary : Option Path}

/-- Something real is at a plain path. -/
theorem Disk.IsTree.plain_of_isReal (tree : d.IsTree) {real : Path} (isReal : d.IsReal real) :
    real.Plain := by
  obtain ⟨path, found⟩ := isReal
  obtain ⟨names, straight⟩ := tree.straight_of_realPath found
  rw [names]
  exact Path.plain_ofNames.mpr straight.proper

/-- A finding that adds plain paths to a closure, and real packages. -/
def GraphFinding.IsPlaced (d : Disk) : GraphFinding → Prop
  | .visited file _ _ => file.Plain
  | .reached file package _ =>
    file.Plain ∧ ∀ entered, package = some entered → d.IsRealDirectory entered.root
  | .leftOut _ | .noted _ => True

theorem GraphPolicy.Follows.placed (tree : d.IsTree) {request : Request} {file : Path}
    {root : Option Path} {links : List Link}
    (follows : policy.Follows d boundary request file root links) :
    (GraphFinding.reached file (root.map d.enteredPackage) links).IsPlaced d := by
  refine ⟨tree.plain_of_isReal (Resolution.isReal_of_resolved _ follows.resolved).1, ?_⟩
  intro entered isEntered
  obtain ⟨real, isRoot, rfl⟩ := Option.map_eq_some_iff.mp isEntered
  exact (Resolution.places_of_resolved _ follows.resolved).2 real isRoot

namespace Traversal

variable {t rest : Traversal} {job : GraphJob} {findings : List GraphFinding}

/-- A traversal that has met files at plain paths and real packages. -/
structure Placed (d : Disk) (t : Traversal) : Prop where
  waiting : ∀ file ∈ t.files, file.Plain
  files : ∀ file ∈ t.graph.files, file.Plain
  packages : ∀ root ∈ t.graph.packages, d.IsRealDirectory root

theorem placed_begin (d : Disk) (entry : Path) : Placed d (begin d entry) :=
  ⟨List.forall_mem_nil _, List.forall_mem_nil _, List.forall_mem_nil _⟩

theorem Placed.meetFile (placed : Placed d t) {file : Path} (plain : file.Plain) :
    Placed d (t.meetFile file) := by
  unfold Traversal.meetFile
  split
  · refine { placed with waiting := List.forall_mem_append.mpr ⟨placed.waiting, ?_⟩ }
    exact List.forall_mem_singleton.mpr plain
  · exact placed

theorem Placed.meetPackage (placed : Placed d t) {entered : EnteredPackage}
    (isReal : d.IsRealDirectory entered.root) : Placed d (t.meetPackage entered) := by
  unfold Traversal.meetPackage
  split
  · refine { placed with packages := List.forall_mem_append.mpr ⟨placed.packages, ?_⟩ }
    exact List.forall_mem_singleton.mpr isReal
  · exact placed

theorem Placed.add (placed : Placed d t) {finding : GraphFinding} (isPlaced : finding.IsPlaced d) :
    Placed d (t.add finding) := by
  cases finding with
  | leftOut name => exact { placed with }
  | noted warning => exact { placed with }
  | visited file references dynamic =>
      refine ⟨placed.waiting, ?_, placed.packages⟩
      intro other member
      obtain ⟨node, among, rfl⟩ := List.mem_map.mp member
      rcases List.mem_append.mp among with before | new
      · exact placed.files _ (List.mem_map_of_mem before)
      · cases List.mem_singleton.mp new
        exact isPlaced
  | reached file package links =>
      obtain ⟨plain, entered⟩ := isPlaced
      have linked : Placed d (t.record fun g => { g with links := g.links ++ links }) :=
        { placed with }
      cases package with
      | none => exact linked.meetFile plain
      | some package => exact (linked.meetPackage (entered package rfl)).meetFile plain

theorem Placed.addAll (placed : Placed d t) (arePlaced : ∀ finding ∈ findings, finding.IsPlaced d) :
    Placed d (t.addAll findings) := by
  induction findings generalizing t with
  | nil => exact placed
  | cons finding others ih =>
      obtain ⟨first, later⟩ := List.forall_mem_cons.mp arePlaced
      exact ih (placed.add first) later

/-- What a job finds from a plain file is placed. -/
theorem placed_of_tells (tree : d.IsTree) (tells : policy.Tells d boundary job findings)
    (plain : ∀ file, job = .file file → file.Plain) : ∀ finding ∈ findings, finding.IsPlaced d := by
  intro finding member
  cases finding with
  | leftOut name => trivial
  | noted warning => trivial
  | visited file references dynamic =>
      exact plain file ((tells.visited file).mp ⟨references, dynamic, member⟩)
  | reached file package links =>
      obtain ⟨request, -, root, follows, rfl⟩ := (tells.reached file package links).mp member
      exact follows.placed tree

theorem Placed.next (placed : Placed d t) (next : t.next? = some (job, rest)) :
    Placed d rest ∧ ∀ file, job = .file file → file.Plain := by
  rcases next?_eq_some next with ⟨file, files, split, rfl, rfl⟩ |
    ⟨package, manifest, declared, -, -, rfl, rfl⟩
  · have waiting := placed.waiting
    rw [split] at waiting
    obtain ⟨plain, others⟩ := List.forall_mem_cons.mp waiting
    refine ⟨{ placed with waiting := others }, ?_⟩
    rintro _ ⟨⟩
    exact plain
  · exact ⟨{ placed with }, nofun⟩

theorem Placed.drain (tree : d.IsTree) (placed : Placed d t) :
    Yields d boundary (Traversal.drain policy t) (Placed d) := by
  refine (drain_yields (fun t job rest placed next => ?_) placed).mono fun _ => And.left
  obtain ⟨remaining, plain⟩ := placed.next next
  exact (perform_yields job).mono fun findings tells =>
    remaining.addAll (placed_of_tells tree tells plain)

end Traversal

/-! ## Finished closures -/

namespace Graph

theorem finish_plain {t : Traversal} (tree : d.IsTree) (placed : t.Placed d) :
    Yields d boundary (policy.finish t) fun g => ∀ file ∈ g.files, file.Plain := by
  refine .bind (placed.drain tree) fun last ended => ?_
  refine .bind (GraphPolicy.addPackages_yields last.graph) fun g adds => .pure fun file member => ?_
  rw [mem_files_sorted, adds.files] at member
  rcases member with met | ⟨root, entered, ships⟩
  · exact ended.files file met
  · exact ships.plain tree (ended.packages root entered)

/-- The files of the closure of a script are at plain paths. -/
theorem build_plain (tree : d.IsTree) (entry : Path) :
    Yields d boundary (build policy entry) fun g => ∀ file ∈ g.files, file.Plain := by
  refine .bind (Resolution.realPath_yields entry) fun start isReal => ?_
  refine .bind .read fun disk same => ?_
  rw [same]
  have placed := (Traversal.placed_begin d start).meetFile (tree.plain_of_isReal isReal)
  refine .bind (finish_plain tree placed) fun g plain => .pure ?_
  rw [files_markEntry]
  exact plain

/-- So are those of the closure of some packages. -/
theorem buildPackages_plain (tree : d.IsTree) (packages : List String) (requirer : Path) :
    Yields d boundary (buildPackages policy packages requirer) fun g =>
      ∀ file ∈ g.files, file.Plain := by
  refine .bind (Resolution.realPath_yields requirer) fun start _ => ?_
  have follows : ∀ name ∈ packages, Yields d boundary (policy.follow name start false)
      fun findings => ∀ finding ∈ findings, finding.IsPlaced d := by
    intro name _
    refine (GraphPolicy.follow_yields name start false).mono fun findings answers => ?_
    exact Traversal.placed_of_tells tree answers.tells_declared nofun
  refine .bind (.mapM_all packages follows) fun found arePlaced => ?_
  refine .bind .read fun disk same => ?_
  rw [same]
  have all : ∀ finding ∈ found.flatten, finding.IsPlaced d := by
    intro finding member
    obtain ⟨findings, among, inside⟩ := List.mem_flatten.mp member
    exact arePlaced findings among finding inside
  exact finish_plain tree ((Traversal.placed_begin d start).addAll all)

/-- A closure whose files are at plain paths and whose links stand and lead where they are said
to. -/
structure Standing (d : Disk) (g : Graph) : Prop extends g.Linked d where
  plain : ∀ file ∈ g.files, file.Plain

theorem build_standing (below : d.StaysBelow policy.extensions) (entry : Path) :
    Yields d boundary (build policy entry) (Standing d) :=
  ((build_linked below entry).and (build_plain below.tree entry)).mono fun _ ⟨linked, plain⟩ =>
    ⟨linked, plain⟩

theorem buildPackages_standing (below : d.StaysBelow policy.extensions) {packages : List String}
    (direct : ∀ name ∈ packages, Reference.IsDirect name) (requirer : Path) :
    Yields d boundary (buildPackages policy packages requirer) (Standing d) :=
  ((buildPackages_linked below direct requirer).and
    (buildPackages_plain below.tree packages requirer)).mono fun _ ⟨linked, plain⟩ =>
      ⟨linked, plain⟩

end Graph

end FunctionArchive
