import FunctionArchive.Graph.Traversal
import FunctionArchive.Proofs.Graph.Success
import FunctionArchive.Proofs.Relocation.References

/-!
# Traversals of a project that was moved

Wherever a project is checked out, a job finds the same in it (`perform_parallel`), and the findings
take a traversal the same way: it has met the same files and packages of the project, so it takes
up the same jobs next (`Traversal.Moved`) and comes to the same closure at last (`drain_parallel`).
-/

set_option autoImplicit false

namespace FunctionArchive

open Query (Parallel SameWay Informed)
open Path (Proper IsName IsPart mounted)
open Disk (ofTree Inside LinksStay Hosts)

/-! ## What stands at a site -/

/-- A file of a closure of a tree that stands at a site. -/
def GraphNode.mounted (site : List String) (n : GraphNode) : GraphNode :=
  { n with path := n.path.mounted site }

namespace Relocation

variable {tree : Disk.Node} {reach : Path → Bool} {d d' : Disk} {site site' : List String}
  {limit limit' : Option Path} {p file root : Path} {reference name : String} {front : List String}

/-! ## Findings -/

/-- A package of the project, with dependencies that its manifest declares. -/
structure Declares (tree : Disk.Node) (root : Path) (dependencies : List String) : Prop where
  isDirectory : (ofTree tree).IsRealDirectory root
  declared : ∀ dependency ∈ dependencies, dependency ∈ (ofTree tree).dependenciesOf root

/-- Two runs that entered the same package of the project. -/
inductive Entered (tree : Disk.Node) (site site' : List String) :
    EnteredPackage → EnteredPackage → Prop
  | intro {root : Path} {dependencies : List String} (declares : Declares tree root dependencies) :
      Entered tree site site' ⟨root.mounted site, dependencies⟩ ⟨root.mounted site', dependencies⟩

/-- Two runs that learnt the same about a closure, but for what they note. -/
inductive Learnt (tree : Disk.Node) (site site' : List String) : GraphFinding → GraphFinding → Prop
  | visited {file : Path} (isFile : (ofTree tree).IsRealFile file) (references : List String)
      (dynamic : Bool) :
      Learnt tree site site' (.visited (file.mounted site) references dynamic)
        (.visited (file.mounted site') references dynamic)
  | reached {file : Path} {package package' : Option EnteredPackage} {links links' : List Link}
      (isFile : (ofTree tree).IsRealFile file)
      (entered : Option.Rel (Entered tree site site') package package')
      (crossed : Crossed site site' links links') :
      Learnt tree site site' (.reached (file.mounted site) package links)
        (.reached (file.mounted site') package' links')
  | leftOut (package : String) : Learnt tree site site' (.leftOut package) (.leftOut package)
  | noted (warning warning' : Warning) : Learnt tree site site' (.noted warning) (.noted warning')

/-- A file of the project keeps its extension. -/
theorem Contained.extension?_mounted (project : Contained tree) (proper : Proper site)
    (isFile : (ofTree tree).IsRealFile file) :
    (file.mounted site).extension? = file.extension? := by
  obtain ⟨front, name, proper', rfl, -⟩ := project.startOf_file isFile
  exact Path.extension?_mounted proper proper'

/-- A file counts as installed by its place in the project. -/
theorem isInstalled_mounted (hosts : d.Hosts site tree) (isFile : (ofTree tree).IsRealFile file) :
    (file.mounted site).isInstalled = file.isInstalled := by
  rw [Path.isInstalled, Path.components_mounted hosts.proper isFile.absolute]
  simp [Path.isInstalled, packagesName_notMem hosts]

section Checkouts

variable {policy : GraphPolicy} (project : Contained tree)
  (named : ∀ extension ∈ policy.extensions, IsName extension)
  (here : Checkout tree policy.extensions reach d site limit)
  (there : Checkout tree policy.extensions reach d' site' limit')

include project here there

theorem enter_parallel (isDirectory : (ofTree tree).IsRealDirectory root) :
    Parallel d d' limit limit' (Entered tree site site') (GraphPolicy.enter (root.mounted site))
      (GraphPolicy.enter (root.mounted site')) := by
  refine .bind (load_parallel project here there (project.stays_directory isDirectory)) ?_
  rintro m m' ⟨matched, matched'⟩
  have dependencies {m : Option Manifest}
      (matched : Option.Rel Manifest.Matches m ((ofTree tree).manifestIn root)) :
      (m.map fun m => m.dependencies.map Prod.fst).getD [] = (ofTree tree).dependenciesOf root := by
    unfold Disk.dependenciesOf
    generalize (ofTree tree).manifestIn root = manifest at matched
    cases matched with
    | none => rfl
    | some alike =>
        rw [alike]
        rfl
  rw [dependencies matched, dependencies matched']
  exact .pure (.intro ⟨isDirectory, fun _ => id⟩)

include named

theorem follow_parallel (proper : Proper (front ++ [name]))
    (mentions : Mentions tree (.ofNames front) reference) (declared : Bool) :
    Parallel d d' limit limit' (List.Forall₂ (Learnt tree site site'))
      (policy.follow reference ((Path.ofNames (front ++ [name])).mounted site) declared)
      (policy.follow reference ((Path.ofNames (front ++ [name])).mounted site') declared) := by
  unfold GraphPolicy.follow
  split
  · exact .pure .nil
  refine .ite (.pure (.cons (.leftOut _) .nil)) (.ite (.pure .nil) ?_)
  refine .bind (resolve_parallel project named here there proper mentions).observing ?_
  intro outcome outcome' way
  cases way with
  | missing =>
      exact .ite (.pure (.cons (.noted _ _) .nil)) .throwMissing
  | @other fault fault' isOther isOther' =>
      cases fault with
      | missingDependency => exact absurd rfl (isOther _ _)
      | _ =>
          cases fault' with
          | missingDependency => exact absurd rfl (isOther' _ _)
          | _ => exact .throwOther isOther isOther'
  | ok resolved =>
      cases resolved with
      | builtin => exact .pure .nil
      | optional => exact .pure (.cons (.noted _ _) .nil)
      | @resolved file package links links' isFile isPackage crossed =>
          cases package with
          | none => exact .pure (.cons (.reached isFile .none crossed) .nil)
          | some root =>
              refine .bind (enter_parallel project here there (isPackage root rfl)) ?_
              intro entered entered' same
              exact .pure (.cons (.reached isFile (.some same) crossed) .nil)

theorem followFound_parallel (isFile : (ofTree tree).IsRealFile file) {found : Script.Reference}
    (mentioned : found ∈ (ofTree tree).referencesIn file) :
    Parallel d d' limit limit' (List.Forall₂ (Learnt tree site site'))
      (policy.followFound (file.mounted site) found)
      (policy.followFound (file.mounted site') found) := by
  cases found with
  | dynamic expression => exact .pure (.cons (.noted _ _) .nil)
  | static reference =>
      obtain ⟨front, name, proper, spelled, start, isDirectory⟩ := project.startOf_file isFile
      have mentions := Mentions.script isFile mentioned
      rw [start] at mentions
      have follows := follow_parallel project named here there proper mentions false
      rw [← spelled] at follows
      exact follows

theorem followScript_parallel (isFile : (ofTree tree).IsRealFile file) {scan : Script.Scan}
    (references : (ofTree tree).referencesIn file = scan.references) :
    Parallel d d' limit limit' (List.Forall₂ (Learnt tree site site'))
      (policy.followScript (file.mounted site) scan)
      (policy.followScript (file.mounted site') scan) := by
  have paired : List.Forall₂ (fun found found' =>
      found' = found ∧ found ∈ (ofTree tree).referencesIn file) scan.references scan.references :=
    List.forall₂_same.mpr fun found among => ⟨rfl, references ▸ among⟩
  have followed : Parallel d d' limit limit' (List.Forall₂ (List.Forall₂ (Learnt tree site site')))
      (scan.references.mapM (policy.followFound (file.mounted site)))
      (scan.references.mapM (policy.followFound (file.mounted site'))) := by
    refine .mapM paired ?_
    rintro found _ ⟨rfl, mentioned⟩
    exact followFound_parallel project named here there isFile mentioned
  unfold GraphPolicy.followScript
  rw [isInstalled_mounted here.toHosts isFile, isInstalled_mounted there.toHosts isFile]
  refine .bind followed fun found found' learnt => .pure ?_
  refine List.rel_append (List.rel_append ?_ (List.rel_flatten learnt))
    (.cons (.visited isFile _ _) .nil)
  split
  · exact .cons (.noted _ _) .nil
  · exact .nil

theorem visit_parallel (isFile : (ofTree tree).IsRealFile file) :
    Parallel d d' limit limit' (List.Forall₂ (Learnt tree site site'))
      (policy.visit (file.mounted site)) (policy.visit (file.mounted site')) := by
  have stays := project.stays_file isFile
  have isScript {site : List String} (proper : Proper site) :
      Script.isScript (file.mounted site) = Script.isScript file := by
    rw [Script.isScript, project.extension?_mounted proper isFile, Script.isScript]
  have dialect {site : List String} (proper : Proper site) :
      Script.Dialect.ofPath (file.mounted site) = .ofPath file := by
    rw [Script.Dialect.ofPath, project.extension?_mounted proper isFile, Script.Dialect.ofPath]
  have read : Parallel d d' limit limit'
      (fun bytes bytes' => bytes = bytes' ∧ (ofTree tree).read file = .ok bytes)
      (Query.askDisk "reading source file" (file.mounted site) (·.read (file.mounted site)))
      (Query.askDisk "reading source file" (file.mounted site') (·.read (file.mounted site'))) := by
    refine .askDisk ?_
    rw [here.read_mounted stays, there.read_mounted stays]
    cases (ofTree tree).read file with
    | ok bytes => exact .inl ⟨_, _, rfl, rfl, rfl, rfl⟩
    | error fault => exact .inr ⟨_, _, rfl, rfl⟩
  have visited : List.Forall₂ (Learnt tree site site') [.visited (file.mounted site) [] false]
      [.visited (file.mounted site') [] false] :=
    .cons (.visited isFile [] false) .nil
  unfold GraphPolicy.visit
  rw [isScript here.proper, isScript there.proper, isInstalled_mounted here.toHosts isFile,
    isInstalled_mounted there.toHosts isFile]
  cases script : Script.isScript file with
  | false =>
      simp only [Bool.not_false, if_true]
      exact .pure visited
  | true =>
      simp only [Bool.not_true, Bool.false_eq_true, if_false]
      refine .bind read ?_
      rintro bytes _ ⟨rfl, isRead⟩
      have scanned := Script.scan_alike (Utf8.decodeLossy bytes) (dialect here.proper)
      have scanned' := Script.scan_alike (Utf8.decodeLossy bytes) (dialect there.proper)
      rcases scanned with ⟨scan, inMounted, inTree⟩ | ⟨line, inMounted, inTree⟩
      · rcases scanned' with ⟨_, inMounted', inTree'⟩ | ⟨_, -, inTree'⟩
        · cases inTree.symm.trans inTree'
          rw [inMounted, inMounted']
          refine followScript_parallel project named here there isFile ?_
          rw [Disk.referencesIn, script, isRead]
          simp only [if_true, inTree]
        · cases inTree.symm.trans inTree'
      · rcases scanned' with ⟨_, -, inTree'⟩ | ⟨line', inMounted', -⟩
        · cases inTree.symm.trans inTree'
        · rw [inMounted, inMounted']
          refine .ite (.pure (.cons (.noted _ _) visited)) (.throwOther ?_ ?_) <;>
            rintro name origin ⟨⟩

end Checkouts

/-! ## Traversals -/

/-- Two runs that have the same to do. -/
inductive Due (tree : Disk.Node) (site site' : List String) : GraphJob → GraphJob → Prop
  | file {file : Path} (isFile : (ofTree tree).IsRealFile file) :
      Due tree site site' (.file (file.mounted site)) (.file (file.mounted site'))
  | declared {root : Path} {dependency : String} (isDirectory : (ofTree tree).IsRealDirectory root)
      (declared : dependency ∈ (ofTree tree).dependenciesOf root) :
      Due tree site site' (.declared dependency ((root.child Manifest.fileName).mounted site))
        (.declared dependency ((root.child Manifest.fileName).mounted site'))

/-- Two runs that have met the same of what stands in the project. -/
def MetAlike (tree : Disk.Node) (site site' : List String) (unmet unmet' : List Path) : Prop :=
  ∀ p : Path, p.absolute = true → (tree.at? p.names).isSome →
    unmet.contains (p.mounted site) = unmet'.contains (p.mounted site')

/-- Two closures of a project that are the same, but for what was noted. -/
structure SameClosure (tree : Disk.Node) (site site' : List String) (g g' : Graph) : Prop where
  entry : Both (mounted site) (mounted site') (·.absolute = true) g.entry g'.entry
  nodes : List.Forall₂ (Both (GraphNode.mounted site) (GraphNode.mounted site') (·.path.IsEntry))
    g.nodes g'.nodes
  packages : List.Forall₂ (Both (mounted site) (mounted site') (ofTree tree).IsRealDirectory)
    g.packages g'.packages
  external : g.external = g'.external
  links : Crossed site site' g.links g'.links

/-- Two traversals of a project that have come equally far. -/
structure SameProgress (tree : Disk.Node) (site site' : List String) (t t' : Traversal) : Prop where
  unmetFiles : MetAlike tree site site' t.unmetFiles t'.unmetFiles
  unmetPackages : MetAlike tree site site' t.unmetPackages t'.unmetPackages
  files :
    List.Forall₂ (fun file file' => Due tree site site' (.file file) (.file file')) t.files t'.files
  declared : List.Forall₂ (fun job job' =>
    Due tree site site' (.declared job.1 job.2) (.declared job'.1 job'.2)) t.declared t'.declared
  graph : SameClosure tree site site' t.graph t'.graph

theorem metAlike_allPaths (here : d.Hosts site tree) (there : d'.Hosts site' tree) :
    MetAlike tree site site' d.allPaths d'.allPaths := by
  intro p absolute stands
  obtain ⟨node, isThere⟩ := Option.isSome_iff_exists.mp stands
  have met {d : Disk} {site : List String} (hosts : d.Hosts site tree) :
      d.allPaths.contains (p.mounted site) = true := by
    rw [List.contains_iff_mem]
    refine Disk.mem_allPaths_of_at? (n := node.mounted site) ?_
    rw [hosts.at?_eq, isThere]
    rfl
  rw [met here, met there]

theorem MetAlike.without {unmet unmet' : List Path} (alike : MetAlike tree site site' unmet unmet')
    {q : Path} (isAbsolute : q.absolute = true) :
    MetAlike tree site site' (unmet.filter (· != q.mounted site))
      (unmet'.filter (· != q.mounted site')) := by
  intro p absolute stands
  have others {site : List String} (unmet : List Path) :
      (unmet.filter (· != q.mounted site)).contains (p.mounted site) =
        (unmet.contains (p.mounted site) && p != q) := by
    rw [Bool.eq_iff_iff, List.contains_iff_mem, List.mem_filter, Bool.and_eq_true,
      List.contains_iff_mem,
      bne, bne, Path.beq_mounted absolute isAbsolute]
  rw [others, others, alike p absolute stands]

namespace SameProgress

variable {t t' : Traversal}

theorem meetFile (same : SameProgress tree site site' t t')
    (isFile : (ofTree tree).IsRealFile file) :
    SameProgress tree site site' (t.meetFile (file.mounted site))
      (t'.meetFile (file.mounted site')) := by
  obtain ⟨f, stands⟩ := isFile.there
  have met := same.unmetFiles file isFile.absolute (Option.isSome_iff_exists.mpr ⟨_, stands⟩)
  unfold Traversal.meetFile
  rw [met]
  split
  · exact { same with
      unmetFiles := same.unmetFiles.without isFile.absolute
      files := List.rel_append same.files (.cons (.file isFile) .nil) }
  · exact same

theorem meetPackage (here : Proper site) (there : Proper site')
    (same : SameProgress tree site site' t t') {package package' : EnteredPackage}
    (entered : Entered tree site site' package package') :
    SameProgress tree site site' (t.meetPackage package) (t'.meetPackage package') := by
  obtain @⟨root, dependencies, isDirectory, declared⟩ := entered
  obtain ⟨entries, stands⟩ := isDirectory.there
  have met := same.unmetPackages root isDirectory.absolute
    (Option.isSome_iff_exists.mpr ⟨_, stands⟩)
  unfold Traversal.meetPackage
  rw [met]
  split
  · have manifest {site : List String} (proper : Proper site) :
        (root.mounted site).child Manifest.fileName = (root.child Manifest.fileName).mounted site :=
      Path.child_mounted_name proper root (by decide)
    have due : ∀ dependency ∈ dependencies, Due tree site site'
        (.declared dependency ((root.mounted site).child Manifest.fileName))
        (.declared dependency ((root.mounted site').child Manifest.fileName)) := by
      intro dependency member
      rw [manifest here, manifest there]
      exact .declared isDirectory (declared dependency member)
    exact { same with
      unmetPackages := same.unmetPackages.without isDirectory.absolute
      declared := List.rel_append same.declared
        (List.forall₂_map_left_iff.mpr (List.forall₂_map_right_iff.mpr (List.forall₂_same.mpr due)))
      graph := { same.graph with
        packages := List.rel_append same.graph.packages
          (.cons ⟨root, isDirectory, rfl, rfl⟩ .nil) } }
  · exact same

theorem add (project : Contained tree) (here : Proper site) (there : Proper site')
    (same : SameProgress tree site site' t t') {finding finding' : GraphFinding}
    (learnt : Learnt tree site site' finding finding') :
    SameProgress tree site site' (t.add finding) (t'.add finding') := by
  have graph := same.graph
  cases learnt with
  | visited isFile references dynamic =>
      obtain ⟨front, name, proper, spelled, -⟩ := project.startOf_file isFile
      have node : Both (GraphNode.mounted site) (GraphNode.mounted site') (·.path.IsEntry)
          ⟨_, false, references, dynamic⟩ ⟨_, false, references, dynamic⟩ :=
        ⟨⟨_, false, references, dynamic⟩, ⟨front, name, proper, spelled⟩, rfl, rfl⟩
      exact { same with graph :=
        { graph with nodes := List.rel_append graph.nodes (.cons node .nil) } }
  | leftOut package =>
      exact { same with graph :=
        { graph with external := congrArg (· ++ [package]) graph.external } }
  | noted warning warning' => exact { same with graph := { graph with } }
  | @reached file package package' links links' isFile entered crossed =>
      have linked : SameProgress tree site site'
          (t.record fun g => { g with links := g.links ++ links })
          (t'.record fun g => { g with links := g.links ++ links' }) :=
        { same with graph := { graph with links := List.rel_append graph.links crossed } }
      cases entered with
      | none => exact linked.meetFile isFile
      | some entered => exact (linked.meetPackage here there entered).meetFile isFile

theorem addAll (project : Contained tree) (here : Proper site) (there : Proper site')
    (same : SameProgress tree site site' t t') {findings findings' : List GraphFinding}
    (learnt : List.Forall₂ (Learnt tree site site') findings findings') :
    SameProgress tree site site' (t.addAll findings) (t'.addAll findings') := by
  induction learnt generalizing t t' with
  | nil => exact same
  | cons first _ ih => exact ih (same.add project here there first)

/-- The next job is the same. -/
theorem next? (same : SameProgress tree site site' t t') :
    Option.Rel (fun taken taken' => Due tree site site' taken.1 taken'.1 ∧
      SameProgress tree site site' taken.2 taken'.2) t.next? t'.next? := by
  obtain ⟨unmetFiles, unmetPackages, files, declared, graph⟩ := t
  obtain ⟨unmetFiles', unmetPackages', files', declared', graph'⟩ := t'
  obtain ⟨metFiles, metPackages, dueFiles, dueDeclared, sameGraph⟩ := same
  cases dueFiles with
  | cons due others => exact .some ⟨due, metFiles, metPackages, others, dueDeclared, sameGraph⟩
  | nil =>
      cases dueDeclared with
      | nil => exact .none
      | cons due others => exact .some ⟨due, metFiles, metPackages, .nil, others, sameGraph⟩

end SameProgress

/-! ## Jobs -/

section Checkouts

variable {policy : GraphPolicy} (project : Contained tree)
  (named : ∀ extension ∈ policy.extensions, IsName extension)
  (here : Checkout tree policy.extensions reach d site limit)
  (there : Checkout tree policy.extensions reach d' site' limit')

include project named here there

theorem perform_parallel {job job' : GraphJob} (due : Due tree site site' job job') :
    Parallel d d' limit limit' (List.Forall₂ (Learnt tree site site'))
      (Traversal.perform policy job)
      (Traversal.perform policy job') := by
  cases due with
  | file isFile =>
      rw [Traversal.perform, Traversal.perform]
      exact visit_parallel project named here there isFile
  | @declared root dependency isDirectory declared =>
      obtain ⟨names, proper, rfl⟩ := project.eq_ofNames isDirectory
      have isName : IsName Manifest.fileName := by decide
      have manifest : (Path.ofNames names).child Manifest.fileName =
          .ofNames (names ++ [Manifest.fileName]) := proper.child_eq isName.1
      rw [Traversal.perform, Traversal.perform, manifest]
      exact follow_parallel project named here there
        (Path.proper_append.mpr ⟨proper, Path.proper_singleton.mpr isName⟩)
        (.manifest isDirectory declared) true

/-- All jobs lead to the same closure. -/
theorem drain_parallel {t t' : Traversal} (same : SameProgress tree site site' t t') :
    Parallel d d' limit limit' (SameProgress tree site site') (Traversal.drain policy t)
      (Traversal.drain policy t') := by
  fun_induction Traversal.drain policy t generalizing t' with
  | case1 t done =>
      have related := same.next?
      rw [done] at related
      rw [Traversal.drain.eq_def policy t']
      split
      · exact .pure same
      · next job rest taken =>
        rw [taken] at related
        cases related
  | case2 t job rest next ih =>
      have related := same.next?
      rw [next] at related
      rw [Traversal.drain.eq_def policy t']
      split
      · next done =>
        rw [done] at related
        cases related
      · next job' rest' taken =>
        rw [taken] at related
        obtain ⟨due, onward⟩ := related
        exact .bind (perform_parallel project named here there due) fun findings findings' learnt =>
          ih findings (onward.addAll project here.proper there.proper learnt)

end Checkouts

end Relocation

end FunctionArchive
