import FunctionArchive.Disk.Walk
import FunctionArchive.Graph.Following

/-!
# Going through references

A traversal takes up one job after the other: a file that was reached is visited, and a dependency
that was declared by a package is followed. Files go first. What a job finds is added to the
closure and may give more jobs; a file becomes a job only when it is met for the first time, and so
do the dependencies of a package.

A traversal comes to an end because everything that can be met is on the disk: a package that is
met leaves fewer packages to be met, a file leaves fewer files, and a job that meets neither leaves
fewer jobs.
-/

set_option autoImplicit false

namespace FunctionArchive

/-- Something that is still to be done. -/
inductive GraphJob
  /-- To visit a file. -/
  | file (path : Path)
  /-- To follow a dependency that this manifest declares. -/
  | declared (package : String) (manifest : Path)
deriving DecidableEq, Repr

/-- How far the search for a closure has come. -/
structure Traversal where
  /-- Paths at which no file has been met yet. -/
  unmetFiles : List Path
  /-- Paths at which no package has been met yet. -/
  unmetPackages : List Path
  /-- Files to be visited. -/
  files : List Path := []
  /-- Declared dependencies to be followed, each with the manifest that declares it. -/
  declared : List (String × Path) := []
  /-- The closure as far as it is known. -/
  graph : Graph

namespace Traversal

/-- A traversal that has met nothing. -/
def begin (d : Disk) (entry : Path) : Traversal where
  unmetFiles := d.allPaths
  unmetPackages := d.allPaths
  graph := { entry }

/-- Meets a file; the first time, it is to be visited. A file is met by its real path, and every
real path is among the paths of the disk that a traversal begins with
(`Disk.realPath_mem_allPaths`), so what is not among them any more has been met before. -/
def meetFile (t : Traversal) (file : Path) : Traversal :=
  if t.unmetFiles.contains file then
    { t with unmetFiles := t.unmetFiles.filter (· != file), files := t.files ++ [file] }
  else t

/-- Meets a package; the first time, its dependencies are to be followed. -/
def meetPackage (t : Traversal) (package : EnteredPackage) : Traversal :=
  if t.unmetPackages.contains package.root then
    { t with
      unmetPackages := t.unmetPackages.filter (· != package.root)
      declared := t.declared ++
        package.dependencies.map (·, package.root.child Manifest.fileName)
      graph := { t.graph with packages := t.graph.packages ++ [package.root] } }
  else t

/-- Adds something to the closure that gives no more jobs. -/
def record (t : Traversal) (change : Graph → Graph) : Traversal :=
  { t with graph := change t.graph }

/-- Adds a finding. -/
def add (t : Traversal) : GraphFinding → Traversal
  | .visited file references dynamic =>
    t.record fun g => { g with nodes := g.nodes ++ [⟨file, false, references, dynamic⟩] }
  | .reached file package links =>
    let t := t.record fun g => { g with links := g.links ++ links }
    let t := match package with
      | some package => t.meetPackage package
      | none => t
    t.meetFile file
  | .leftOut package => t.record fun g => { g with external := g.external ++ [package] }
  | .noted warning => t.record fun g => { g with warnings := g.warnings ++ [warning] }

/-- Adds findings in order. -/
def addAll (t : Traversal) (findings : List GraphFinding) : Traversal :=
  findings.foldl add t

/-- The job to be taken up next, and the traversal without it. -/
def next? (t : Traversal) : Option (GraphJob × Traversal) :=
  match t.files, t.declared with
  | file :: rest, _ => some (.file file, { t with files := rest })
  | [], (package, manifest) :: rest =>
    some (.declared package manifest, { t with declared := rest })
  | [], [] => none

/-! ## Coming to an end -/

/-- How many jobs there are. -/
def jobs (t : Traversal) : Nat := t.files.length + t.declared.length

/-- A traversal that has met no more than another has as many jobs; otherwise there is less left to
meet. -/
def Shrinks (before after : Traversal) : Prop :=
  after.unmetPackages.length < before.unmetPackages.length ∨
    after.unmetPackages.length = before.unmetPackages.length ∧
      (after.unmetFiles.length < before.unmetFiles.length ∨
        after.unmetFiles.length = before.unmetFiles.length ∧ after.jobs = before.jobs)

theorem Shrinks.refl (t : Traversal) : t.Shrinks t :=
  .inr ⟨rfl, .inr ⟨rfl, rfl⟩⟩

theorem Shrinks.trans {a b c : Traversal} (hab : a.Shrinks b) (hbc : b.Shrinks c) :
    a.Shrinks c := by
  unfold Shrinks at *
  omega

theorem shrinks_record (t : Traversal) (change : Graph → Graph) : t.Shrinks (t.record change) :=
  .inr ⟨rfl, .inr ⟨rfl, rfl⟩⟩

/-- Leaving out a member makes a list shorter. -/
theorem length_filter_ne_lt {xs : List Path} {x : Path} (h : xs.contains x = true) :
    (xs.filter (· != x)).length < xs.length := by
  have hx : x ∈ xs := by simpa using h
  have hle := List.length_filter_le (· != x) xs
  rcases Nat.lt_or_eq_of_le hle with hlt | heq
  · exact hlt
  · have := (List.length_filter_eq_length_iff.1 heq) x hx
    simp at this

theorem shrinks_meetFile (t : Traversal) (file : Path) : t.Shrinks (t.meetFile file) := by
  unfold meetFile
  split
  · exact .inr ⟨rfl, .inl (length_filter_ne_lt ‹_›)⟩
  · exact .refl t

theorem shrinks_meetPackage (t : Traversal) (package : EnteredPackage) :
    t.Shrinks (t.meetPackage package) := by
  unfold meetPackage
  split
  · exact .inl (length_filter_ne_lt ‹_›)
  · exact .refl t

theorem shrinks_add (t : Traversal) (finding : GraphFinding) : t.Shrinks (t.add finding) := by
  cases finding with
  | visited => exact shrinks_record t _
  | leftOut => exact shrinks_record t _
  | noted => exact shrinks_record t _
  | reached file package links =>
    cases package with
    | none => exact (shrinks_record t _).trans (shrinks_meetFile _ _)
    | some package =>
      exact ((shrinks_record t _).trans (shrinks_meetPackage _ _)).trans (shrinks_meetFile _ _)

theorem shrinks_addAll (t : Traversal) (findings : List GraphFinding) :
    t.Shrinks (t.addAll findings) := by
  induction findings generalizing t with
  | nil => exact .refl t
  | cons finding rest ih => exact (shrinks_add t finding).trans (ih (t.add finding))

/-- Taking up a job leaves one job less and everything else as it was. -/
theorem jobs_of_next? {t rest : Traversal} {job : GraphJob} (h : t.next? = some (job, rest)) :
    rest.unmetPackages = t.unmetPackages ∧ rest.unmetFiles = t.unmetFiles ∧
      rest.jobs < t.jobs := by
  cases hf : t.files with
  | cons file files =>
    simp only [next?, hf, Option.some.injEq, Prod.mk.injEq] at h
    obtain ⟨-, rfl⟩ := h
    simp [jobs, hf]
  | nil =>
    cases hd : t.declared with
    | nil => simp [next?, hf, hd] at h
    | cons dependency declared =>
      simp only [next?, hf, hd, Option.some.injEq, Prod.mk.injEq] at h
      obtain ⟨-, rfl⟩ := h
      simp [jobs, hf, hd]

/-- What is left to meet, and the jobs. -/
def measure (t : Traversal) : Nat × Nat × Nat :=
  (t.unmetPackages.length, t.unmetFiles.length, t.jobs)

/-- Whatever a job finds, less is left than before. -/
theorem measure_addAll_lt {t rest : Traversal} {job : GraphJob}
    (h : t.next? = some (job, rest)) (findings : List GraphFinding) :
    Prod.Lex (· < ·) (Prod.Lex (· < ·) (· < ·)) (rest.addAll findings).measure t.measure := by
  obtain ⟨hp, hf, hj⟩ := jobs_of_next? h
  have hs := shrinks_addAll rest findings
  unfold Shrinks at hs
  rw [hp, hf] at hs
  simp only [measure, Prod.lex_def]
  omega

/-! ## Running -/

/-- Does a job. -/
def perform (policy : GraphPolicy) : GraphJob → Query (List GraphFinding)
  | .file path => policy.visit path
  | .declared package manifest => policy.follow package manifest true

/-- Does all jobs. -/
def drain (policy : GraphPolicy) (t : Traversal) : Query Traversal :=
  match _h : t.next? with
  | none => return t
  | some (job, rest) => do
    let findings ← perform policy job
    drain policy (rest.addAll findings)
termination_by t.measure
decreasing_by exact measure_addAll_lt _h findings

end Traversal

end FunctionArchive
