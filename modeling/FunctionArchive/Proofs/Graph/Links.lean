import FunctionArchive.Proofs.Graph.Exactness
import FunctionArchive.Proofs.Manifest.Failure
import FunctionArchive.Proofs.Resolution.Links

/-!
# The links of a closure

Each link of a closure stands at a plain path, leads where it is said to lead and is there once
(`Graph.Linked`), whether the closure starts from a script (`build_linked`) or from packages
(`buildPackages_linked`). A traversal keeps this up since all its jobs look things up from real
directories: files are met by their real paths, and dependencies are declared in real packages
(`Grounded`).

All this is told of disks on which nothing leads upwards out of a directory of packages
(`Disk.StaysBelow`).
-/

set_option autoImplicit false

namespace FunctionArchive

open Query (Yields)
open Path (IsName)

/-- Entries and extensions have the names of entries, and what scripts refer to and packages depend
on does not lead upwards. -/
structure Disk.StaysBelow (d : Disk) (extensions : List String) : Prop where
  tree : d.IsTree
  extensions : ∀ extension ∈ extensions, IsName extension
  references : ∀ file ∈ d.allPaths, ∀ reference, .static reference ∈ d.referencesIn file →
    Reference.IsDirect reference
  dependencies : ∀ root ∈ d.allPaths, ∀ name ∈ d.dependenciesOf root, Reference.IsDirect name

/-- A direct reference that is looked up from a real directory. -/
structure Request.IsGrounded (d : Disk) (request : Request) : Prop where
  start : ∃ here, Resolution.startOf request.requirer = .ofNames here ∧ d.Straight here
  direct : Reference.IsDirect request.reference

variable {policy : GraphPolicy} {d : Disk} {boundary : Option Path}

/-! ## Where look-ups start -/

theorem Disk.StaysBelow.referring (below : d.StaysBelow policy.extensions) {file : Path}
    (isReal : d.IsReal file) {request : Request} (asked : request ∈ d.requests (.file file)) :
    request.IsGrounded d := by
  obtain ⟨found, there, asks⟩ := List.mem_filterMap.mp asked
  cases found with
  | dynamic expression => cases asks
  | static reference =>
      cases asks
      exact ⟨below.tree.startOf_real isReal,
        below.references file isReal.mem_allPaths reference there⟩

theorem Disk.StaysBelow.declaring (below : d.StaysBelow policy.extensions) {root : Path}
    (isReal : d.IsRealDirectory root) {name : String} (declared : name ∈ d.dependenciesOf root) :
    Request.IsGrounded d ⟨name, root.child Manifest.fileName⟩ := by
  obtain ⟨entries, there⟩ := isReal.there
  have names : root = .ofNames root.names := by
    obtain ⟨absolute, names⟩ := root
    obtain rfl := isReal.absolute
    rfl
  refine ⟨⟨root.names, isReal.startOf_manifest.trans names, ?_⟩, ?_⟩
  · exact below.tree.straight_of_at? there nofun
  · refine below.dependencies root ?_ name declared
    rw [names]
    exact Disk.mem_allPaths_of_at? there

/-- The links crossed from a real directory stand and lead where they are said to. -/
theorem GraphPolicy.Follows.holdsLink (below : d.StaysBelow policy.extensions) {request : Request}
    (grounded : request.IsGrounded d) {file : Path} {package : Option Path} {links : List Link}
    (follows : policy.Follows d boundary request file package links) :
    ∀ link ∈ links, d.HoldsLink link := by
  obtain ⟨here, start, straight⟩ := grounded.start
  exact Resolution.links_of_resolved below.tree
    (fun extension among => (below.extensions extension among).1.2) start straight
    grounded.direct follows.resolved

namespace Traversal

variable {t rest : Traversal} {job : GraphJob} {findings : List GraphFinding}

/-- All that is to be done starts from real directories, and the links are links of the disk. -/
structure Grounded (d : Disk) (t : Traversal) : Prop where
  files : ∀ file ∈ t.files, d.IsReal file
  declared : ∀ dependency ∈ t.declared, Request.IsGrounded d ⟨dependency.1, dependency.2⟩
  links : ∀ link ∈ t.graph.links, d.HoldsLink link

/-- What a finding needs in order to leave a traversal grounded: to come from a grounded request. -/
def FromGrounded (policy : GraphPolicy) (d : Disk) (boundary : Option Path) :
    GraphFinding → Prop
  | .reached file package links => ∃ (request : Request) (root : Option Path),
    request.IsGrounded d ∧ policy.Follows d boundary request file root links ∧
      package = root.map d.enteredPackage
  | .visited .. | .leftOut _ | .noted _ => True

theorem grounded_begin (d : Disk) (entry : Path) : Grounded d (begin d entry) :=
  ⟨List.forall_mem_nil _, List.forall_mem_nil _, List.forall_mem_nil _⟩

theorem Grounded.meetFile (grounded : Grounded d t) {file : Path} (isReal : d.IsReal file) :
    Grounded d (t.meetFile file) := by
  unfold Traversal.meetFile
  split
  · refine { grounded with files := List.forall_mem_append.mpr ⟨grounded.files, ?_⟩ }
    exact List.forall_mem_singleton.mpr isReal
  · exact grounded

theorem Grounded.meetPackage (below : d.StaysBelow policy.extensions) (grounded : Grounded d t)
    {root : Path} (isReal : d.IsRealDirectory root) :
    Grounded d (t.meetPackage (d.enteredPackage root)) := by
  unfold Traversal.meetPackage
  split
  · refine { grounded with declared := List.forall_mem_append.mpr ⟨grounded.declared, ?_⟩ }
    intro dependency member
    obtain ⟨name, declared, rfl⟩ := List.mem_map.mp member
    exact below.declaring isReal declared
  · exact grounded

theorem Grounded.add (below : d.StaysBelow policy.extensions) (grounded : Grounded d t)
    {finding : GraphFinding} (comes : FromGrounded policy d boundary finding) :
    Grounded d (t.add finding) := by
  cases finding with
  | visited file references dynamic => exact { grounded with }
  | leftOut name => exact { grounded with }
  | noted warning => exact { grounded with }
  | reached file package links =>
      obtain ⟨request, root, asked, follows, rfl⟩ := comes
      have linked : Grounded d (t.crossing links) :=
        { grounded with
          links := List.forall_mem_append.mpr ⟨grounded.links, follows.holdsLink below asked⟩ }
      have isReal := (Resolution.isReal_of_resolved _ follows.resolved).1
      cases root with
      | none => exact linked.meetFile isReal
      | some root =>
          have entered := (Resolution.places_of_resolved _ follows.resolved).2 root rfl
          exact (linked.meetPackage below entered).meetFile isReal

theorem Grounded.addAll (below : d.StaysBelow policy.extensions) (grounded : Grounded d t)
    (come : ∀ finding ∈ findings, FromGrounded policy d boundary finding) :
    Grounded d (t.addAll findings) := by
  induction findings generalizing t with
  | nil => exact grounded
  | cons finding others ih =>
      obtain ⟨first, later⟩ := List.forall_mem_cons.mp come
      exact ih (grounded.add below first) later

theorem Grounded.next (below : d.StaysBelow policy.extensions) (grounded : Grounded d t)
    (next : t.next? = some (job, rest)) :
    Grounded d rest ∧ ∀ request ∈ d.requests job, request.IsGrounded d := by
  rcases next?_eq_some next with ⟨file, files, split, rfl, rfl⟩ |
    ⟨package, manifest, declared, -, split, rfl, rfl⟩
  · have waiting := grounded.files
    rw [split] at waiting
    obtain ⟨isReal, others⟩ := List.forall_mem_cons.mp waiting
    exact ⟨{ grounded with files := others }, fun request => below.referring isReal⟩
  · have waiting := grounded.declared
    rw [split] at waiting
    obtain ⟨first, others⟩ := List.forall_mem_cons.mp waiting
    exact ⟨{ grounded with declared := others }, List.forall_mem_singleton.mpr first⟩

theorem fromGrounded_of_answers {requests : List Request}
    (grounded : ∀ request ∈ requests, request.IsGrounded d)
    (reached : ∀ file package links, .reached file package links ∈ findings →
      ∃ request ∈ requests, ∃ root, policy.Follows d boundary request file root links ∧
        package = root.map d.enteredPackage) :
    ∀ finding ∈ findings, FromGrounded policy d boundary finding := by
  intro finding member
  cases finding with
  | visited file references dynamic => trivial
  | leftOut name => trivial
  | noted warning => trivial
  | reached file package links =>
      obtain ⟨request, asked, root, follows, entered⟩ := reached file package links member
      exact ⟨request, root, grounded request asked, follows, entered⟩

theorem Grounded.drain (below : d.StaysBelow policy.extensions) (grounded : Grounded d t) :
    Yields d boundary (Traversal.drain policy t) (Grounded d) := by
  refine (drain_yields (fun t job rest grounded next => ?_) grounded).mono fun _ => And.left
  obtain ⟨remaining, asked⟩ := grounded.next below next
  refine (perform_yields job).mono fun findings tells => ?_
  exact remaining.addAll below (fromGrounded_of_answers asked fun file package links =>
    (tells.reached file package links).mp)

end Traversal

/-! ## Finished closures -/

/-- Each link of a closure is a link of the disk, and no two are at the same path. -/
structure Graph.Linked (d : Disk) (g : Graph) : Prop where
  holds : ∀ link ∈ g.links, d.HoldsLink link
  once : g.links.Pairwise fun a b => a.path ≠ b.path

/-- Links of a disk that stand at the same place are the same. -/
theorem Disk.HoldsLink.eq_of_path {a b : Link} (holds : d.HoldsLink a) (holds' : d.HoldsLink b)
    (same : a.path = b.path) : a = b := by
  obtain ⟨path, target⟩ := a
  obtain ⟨path', target'⟩ := b
  obtain rfl : path = path' := same
  cases holds.leads.symm.trans holds'.leads
  rfl

/-- Plain paths that denote the same are the same. -/
theorem Path.Plain.eq_of_same {p q : Path} (plain : p.Plain) (plain' : q.Plain)
    (same : p.same q = true) : p = q := by
  obtain ⟨absolute, components⟩ : p.absolute = q.absolute ∧ p.components = q.components := by
    simpa [Path.same] using same
  rw [plain.eq_ofNames, plain'.eq_ofNames] at components ⊢
  rw [plain.proper.components_eq, plain'.proper.components_eq] at components
  rw [components]

namespace Graph

variable {g : Graph}

theorem linked_sorted (holds : ∀ link ∈ g.links, d.HoldsLink link) : g.sorted.Linked d := by
  have held : ∀ link ∈ g.sorted.links, d.HoldsLink link :=
    fun link member => holds link (mem_sortedMembers.mp member)
  have nodup : g.sorted.links.Nodup := by
    refine nodup_sortedMembers (compareLex (compareOn Link.path) (compareOn Link.target)) ?_
    intro a inside b inside' equal
    have samePath := Path.same_of_compare (Ordering.then_eq_eq.mp equal).1
    have plain := (holds a inside).plain
    have plain' := (holds b inside').plain
    exact (holds a inside).eq_of_path (holds b inside') (plain.eq_of_same plain' samePath)
  refine ⟨held, nodup.imp_of_mem fun inside inside' different samePath => different ?_⟩
  exact (held _ inside).eq_of_path (held _ inside') samePath

theorem finish_linked {t : Traversal} (below : d.StaysBelow policy.extensions)
    (grounded : t.Grounded d) : Yields d boundary (policy.finish t) (Linked d) := by
  refine .bind (grounded.drain below) fun last ended => ?_
  refine .bind (GraphPolicy.addPackages_yields last.graph) fun g adds => .pure ?_
  exact linked_sorted (adds.links ▸ ended.links)

/-- The links of the closure of a script are links of the disk, each of them there once. -/
theorem build_linked (below : d.StaysBelow policy.extensions) (entry : Path) :
    Yields d boundary (build policy entry) (Linked d) := by
  refine .bind (Resolution.realPath_yields entry) fun start isReal => ?_
  refine .bind .read fun disk same => ?_
  rw [same]
  have grounded := (Traversal.grounded_begin d start).meetFile isReal
  exact .bind (finish_linked below grounded) fun g linked => .pure ⟨linked.holds, linked.once⟩

/-- So are those of the closure of some packages. -/
theorem buildPackages_linked (below : d.StaysBelow policy.extensions) {packages : List String}
    (direct : ∀ name ∈ packages, Reference.IsDirect name) (requirer : Path) :
    Yields d boundary (buildPackages policy packages requirer) (Linked d) := by
  refine .bind (Resolution.realPath_yields requirer) fun start isReal => ?_
  have follows : ∀ name ∈ packages, Yields d boundary (policy.follow name start false)
      fun findings => ∀ finding ∈ findings, Traversal.FromGrounded policy d boundary finding := by
    intro name among
    refine (GraphPolicy.follow_yields name start false).mono fun findings answers => ?_
    refine Traversal.fromGrounded_of_answers (List.forall_mem_singleton.mpr ?_) fun _ _ _ =>
      (answers.reached _ _ _).mp
    exact ⟨below.tree.startOf_real isReal, direct name among⟩
  refine .bind (.mapM_all packages follows) fun found come => ?_
  refine .bind .read fun disk same => ?_
  rw [same]
  have all : ∀ finding ∈ found.flatten, Traversal.FromGrounded policy d boundary finding := by
    intro finding member
    obtain ⟨findings, among, inside⟩ := List.mem_flatten.mp member
    exact come findings among finding inside
  exact finish_linked below ((Traversal.grounded_begin d start).addAll below all)

end Graph

end FunctionArchive
