import FunctionArchive.Graph.Build
import FunctionArchive.Proofs.Graph.Traversal
import FunctionArchive.Proofs.Manifest.Failure
import Mathlib.Data.List.Flatten
import Mathlib.Data.List.Nodup
import Mathlib.Data.List.Perm.Basic
import Mathlib.Data.List.Perm.Subperm

/-!
# How a search runs

A search takes up one job after the other, and what a job finds may give more jobs, for files as
well as for declared dependencies. `Runs` tells which jobs a search takes up, and with which
traversal it ends up. Every search comes to an end after finitely many jobs: none is left, or one
fails (`exists_closing`).

What keeps jobs from coming again is the account of a search (`Accounted`). A file that was visited
or waits is met, so it never waits a second time, and a package that was entered gives its
dependencies no second time. Each job keeps the account (`Accounted.next`, `Accounted.addAll`), and
so does a run (`Runs.accounted`). Nothing is asked of the disk: files may refer to each other in
circles, packages may need each other, and links may lead anywhere, because what is met is named by
its real path and the disk has only so many.
-/

set_option autoImplicit false

namespace FunctionArchive

open Query (Yields)

/-! ## Jobs -/

/-- The file that a job visits. -/
def GraphJob.file? : GraphJob → Option Path
  | .file path => some path
  | .declared .. => none

/-- The dependency that a job follows, with the manifest that declares it. -/
def GraphJob.dependency? : GraphJob → Option (String × Path)
  | .file _ => none
  | .declared package manifest => some (package, manifest)

/-- The files that some jobs visit. -/
abbrev visitedFiles (jobs : List GraphJob) : List Path := jobs.filterMap GraphJob.file?

/-- The dependencies that some jobs follow. -/
abbrev followedDependencies (jobs : List GraphJob) : List (String × Path) :=
  jobs.filterMap GraphJob.dependency?

/-- A job either visits a file or follows a dependency. -/
theorem length_jobs (jobs : List GraphJob) :
    jobs.length = (visitedFiles jobs).length + (followedDependencies jobs).length := by
  induction jobs with
  | nil => rfl
  | cons job rest ih =>
      cases job with
      | file path =>
          show rest.length + 1 = (visitedFiles rest).length + 1 + (followedDependencies rest).length
          omega
      | declared package manifest =>
          show rest.length + 1 = (visitedFiles rest).length +
            ((followedDependencies rest).length + 1)
          omega

/-- The dependencies that a package gives to be followed. -/
def EnteredPackage.declares (package : EnteredPackage) : List (String × Path) :=
  package.dependencies.map (·, package.root.child Manifest.fileName)

/-- As many jobs as a search can have: one for each path of the disk, and one for each dependency
that a package there declares. -/
def Disk.mostJobs (d : Disk) : Nat :=
  d.allPaths.length + (d.allPaths.flatMap d.dependenciesOf).length

/-- Questions asked one after the other that come to an end have all been answered. -/
theorem Query.exists_of_run_bind {α β : Type} {q : Query α} {f : α → Query β} {d : Disk}
    {known known' : Manifests} {b : β} (run : ((q >>= f) d).run known = (.ok b, known')) :
    ∃ a between, (q d).run known = (.ok a, between) ∧ (f a d).run between = (.ok b, known') := by
  rw [run_bind] at run
  generalize (q d).run known = ended at run
  rcases ended with ⟨fault | a, between⟩
  · cases run
  · exact ⟨a, between, rfl, run⟩

namespace Traversal

variable {α : Type} {policy : GraphPolicy} {d : Disk} {t t' rest last : Traversal}
  {known known' : Manifests} {job : GraphJob} {jobs done : List GraphJob}
  {findings : List GraphFinding} {entered : List EnteredPackage}

/-! ## Runs -/

/-- A run: a traversal takes up some jobs, one after the other, and becomes another one. -/
inductive Runs (policy : GraphPolicy) (d : Disk) :
    Traversal → Manifests → List GraphJob → Traversal → Manifests → Prop
  | rest (t : Traversal) (known : Manifests) : Runs policy d t known [] t known
  | job {t rest last : Traversal} {known known' known'' : Manifests} {job : GraphJob}
      {jobs : List GraphJob} {findings : List GraphFinding} (next : t.next? = some (job, rest))
      (found : ((perform policy job) d).run known = (.ok findings, known'))
      (later : Runs policy d (rest.addAll findings) known' jobs last known'') :
      Runs policy d t known (job :: jobs) last known''

/-- What becomes of a search that has come to a traversal and should go on with `after`: there is
no job, or the next job fails. -/
inductive Closing (policy : GraphPolicy) (d : Disk) (after : Traversal → Query α) (t : Traversal)
    (known : Manifests) : Outcome α × Manifests → Prop
  | done (none : t.next? = none) : Closing policy d after t known (((after t) d).run known)
  | failed {rest : Traversal} {job : GraphJob} {fault : Fault} {known' : Manifests}
      (next : t.next? = some (job, rest))
      (fails : ((perform policy job) d).run known = (.error fault, known')) :
      Closing policy d after t known (.error fault, known')

/-- Doing all jobs is a run that comes to an end. -/
theorem exists_closing (policy : GraphPolicy) (d : Disk) (after : Traversal → Query α)
    (t : Traversal) (known : Manifests) :
    ∃ jobs last known', Runs policy d t known jobs last known' ∧
      Closing policy d after last known' (((drain policy t >>= after) d).run known) := by
  fun_induction drain policy t generalizing known with
  | case1 t done => exact ⟨[], t, known, .rest t known, .done done⟩
  | case2 t job rest next ih =>
      rw [bind_assoc, Query.run_bind]
      cases performed : ((perform policy job) d).run known with
      | mk outcome known' =>
          cases outcome with
          | error fault => exact ⟨[], t, known, .rest t known, .failed next performed⟩
          | ok findings =>
              obtain ⟨jobs, last, known'', runs, ending⟩ := ih findings known'
              exact ⟨job :: jobs, last, known'', .job next performed runs, ending⟩

/-! ## The account of a search -/

/-- The account of a search that has taken up some jobs and entered some packages. -/
structure Accounted (d : Disk) (jobs : List GraphJob) (entered : List EnteredPackage)
    (t : Traversal) : Prop where
  /-- No file is visited twice, and none that was visited waits. -/
  files : (visitedFiles jobs ++ t.files).Nodup
  filesReal : visitedFiles jobs ++ t.files ⊆ d.allPaths
  /-- What has not been met is what was not visited and does not wait. -/
  unmetFiles : ∀ file, file ∈ t.unmetFiles ↔
    file ∈ d.allPaths ∧ file ∉ visitedFiles jobs ++ t.files
  /-- No package is entered twice. -/
  packages : t.graph.packages.Nodup
  packagesReal : t.graph.packages ⊆ d.allPaths
  unmetPackages : ∀ root, root ∈ t.unmetPackages ↔ root ∈ d.allPaths ∧ root ∉ t.graph.packages
  roots : t.graph.packages = entered.map (·.root)
  /-- Each package has given its dependencies once. -/
  dependencies : followedDependencies jobs ++ t.declared = entered.flatMap EnteredPackage.declares

/-- A search that has met nothing yet. -/
theorem accounted_begin (d : Disk) (start : Path) : Accounted d [] [] (begin d start) := by
  constructor <;> simp [begin]

theorem Accounted.meetFile (accounted : Accounted d jobs entered t) (file : Path) :
    Accounted d jobs entered (t.meetFile file) := by
  unfold Traversal.meetFile
  by_cases unmet : file ∈ t.unmetFiles
  · rw [if_pos (List.contains_iff_mem.mpr unmet)]
    obtain ⟨real, new⟩ := (accounted.unmetFiles file).mp unmet
    refine { accounted with files := ?_, filesReal := ?_, unmetFiles := ?_ }
    · rw [← List.append_assoc, ← List.concat_eq_append]
      exact List.Nodup.concat new accounted.files
    · rw [← List.append_assoc]
      exact List.append_subset.mpr ⟨accounted.filesReal, by simpa using real⟩
    · intro other
      simp only [List.mem_filter, bne_iff_ne, accounted.unmetFiles other, List.mem_append,
        List.mem_singleton, not_or]
      tauto
  · rw [if_neg fun contained => unmet (List.contains_iff_mem.mp contained)]
    exact accounted

/-- Meeting a package that is new enters it. -/
theorem Accounted.meetPackage (accounted : Accounted d jobs entered t) (package : EnteredPackage) :
    Accounted d jobs entered (t.meetPackage package) ∨
      Accounted d jobs (entered ++ [package]) (t.meetPackage package) := by
  unfold Traversal.meetPackage
  by_cases unmet : package.root ∈ t.unmetPackages
  · rw [if_pos (List.contains_iff_mem.mpr unmet)]
    obtain ⟨real, new⟩ := (accounted.unmetPackages package.root).mp unmet
    refine .inr { accounted with
      packages := ?_, packagesReal := ?_, unmetPackages := ?_, roots := ?_, dependencies := ?_ }
    · rw [← List.concat_eq_append]
      exact List.Nodup.concat new accounted.packages
    · exact List.append_subset.mpr ⟨accounted.packagesReal, by simpa using real⟩
    · intro other
      simp only [List.mem_filter, bne_iff_ne, accounted.unmetPackages other, List.mem_append,
        List.mem_singleton, not_or]
      tauto
    · simp [accounted.roots]
    · rw [← List.append_assoc, accounted.dependencies]
      simp [EnteredPackage.declares]
  · rw [if_neg fun contained => unmet (List.contains_iff_mem.mp contained)]
    exact .inl accounted

/-- A finding reaches a package. -/
def Reaches (package : EnteredPackage) : GraphFinding → Prop
  | .reached _ reached _ => reached = some package
  | .visited .. | .leftOut _ | .noted _ => False

/-- A finding enters no package but the one that it reaches. -/
theorem Accounted.add (accounted : Accounted d jobs entered t) (finding : GraphFinding) :
    ∃ entered', Accounted d jobs entered' (t.add finding) ∧
      ∀ package ∈ entered', package ∈ entered ∨ Reaches package finding := by
  cases finding with
  | visited file references dynamic => exact ⟨entered, { accounted with }, fun _ => .inl⟩
  | leftOut name => exact ⟨entered, { accounted with }, fun _ => .inl⟩
  | noted warning => exact ⟨entered, { accounted with }, fun _ => .inl⟩
  | reached file package links =>
      have linked : Accounted d jobs entered (t.crossing links) := { accounted with }
      cases package with
      | none => exact ⟨entered, linked.meetFile file, fun _ => .inl⟩
      | some package =>
          rcases linked.meetPackage package with known | new
          · exact ⟨entered, known.meetFile file, fun _ => .inl⟩
          · refine ⟨entered ++ [package], new.meetFile file, ?_⟩
            intro other member
            rcases List.mem_append.mp member with before | last
            · exact .inl before
            · rw [List.mem_singleton.mp last]
              exact .inr rfl

theorem Accounted.addAll (accounted : Accounted d jobs entered t) (findings : List GraphFinding) :
    ∃ entered', Accounted d jobs entered' (t.addAll findings) ∧
      ∀ package ∈ entered', package ∈ entered ∨ ∃ finding ∈ findings, Reaches package finding := by
  induction findings generalizing t entered with
  | nil => exact ⟨entered, accounted, fun _ => .inl⟩
  | cons finding others ih =>
      obtain ⟨entered₁, first, from₁⟩ := accounted.add finding
      obtain ⟨entered₂, all, from₂⟩ := ih first
      refine ⟨entered₂, all, ?_⟩
      intro package member
      rcases from₂ package member with before | ⟨other, among, reaches⟩
      · rcases from₁ package before with old | reaches
        · exact .inl old
        · exact .inr ⟨finding, List.mem_cons_self, reaches⟩
      · exact .inr ⟨other, List.mem_cons_of_mem _ among, reaches⟩

/-- It does not matter to an account what was done and what waits, as long as it is the same
together. -/
theorem Accounted.of_same (accounted : Accounted d done entered t)
    (files : visitedFiles jobs ++ t'.files = visitedFiles done ++ t.files)
    (dependencies : followedDependencies jobs ++ t'.declared =
      followedDependencies done ++ t.declared)
    (unmetFiles : t'.unmetFiles = t.unmetFiles) (unmetPackages : t'.unmetPackages = t.unmetPackages)
    (graph : t'.graph = t.graph) : Accounted d jobs entered t' := by
  constructor
  · rw [files]
    exact accounted.files
  · rw [files]
    exact accounted.filesReal
  · rw [files, unmetFiles]
    exact accounted.unmetFiles
  · rw [graph]
    exact accounted.packages
  · rw [graph]
    exact accounted.packagesReal
  · rw [graph, unmetPackages]
    exact accounted.unmetPackages
  · rw [graph]
    exact accounted.roots
  · rw [dependencies]
    exact accounted.dependencies

/-- Taking up a job moves it from what waits to what was done. -/
theorem Accounted.next (accounted : Accounted d done entered t)
    (next : t.next? = some (job, rest)) : Accounted d (done ++ [job]) entered rest := by
  rcases next?_eq_some next with ⟨file, files, split, rfl, rfl⟩ |
    ⟨package, manifest, declared, -, split, rfl, rfl⟩
  · refine accounted.of_same ?_ ?_ rfl rfl rfl
    · simp [visitedFiles, GraphJob.file?, split]
    · simp [followedDependencies, GraphJob.dependency?]
  · refine accounted.of_same ?_ ?_ rfl rfl rfl
    · simp [visitedFiles, GraphJob.file?]
    · simp [followedDependencies, GraphJob.dependency?, split]

/-! ## The account of a run -/

/-- What is known of some packages is what the disk says. -/
def Faithful (d : Disk) (entered : List EnteredPackage) : Prop :=
  ∀ package ∈ entered, package = d.enteredPackage package.root

/-- Findings tell of a package what the disk says. -/
def TellTruly (d : Disk) (findings : List GraphFinding) : Prop :=
  ∀ finding ∈ findings, ∀ package, Reaches package finding →
    package = d.enteredPackage package.root

/-- Findings that answer requests tell what the disk says. -/
theorem tellTruly_of_reached {boundary : Option Path} {requests : List Request}
    (reached : ∀ file package links, .reached file package links ∈ findings →
      ∃ request ∈ requests, ∃ root, policy.Follows d boundary request file root links ∧
        package = root.map d.enteredPackage) : TellTruly d findings := by
  intro finding member package reaches
  cases finding with
  | reached file reached' links =>
      obtain ⟨request, -, root, -, same⟩ := reached file reached' links member
      cases root with
      | none => cases same.symm.trans reaches
      | some root =>
          cases same.symm.trans reaches
          rfl
  | _ => cases reaches

/-- A search that knows nothing but the truth is told what the disk says. -/
theorem perform_tellsTruly (job : GraphJob) (boundary : Option Path) :
    Yields d boundary (perform policy job) (TellTruly d) :=
  (perform_yields job).mono fun _ tells =>
    tellTruly_of_reached fun file package links => (tells.reached file package links).mp

theorem follow_tellsTruly (reference : String) (requirer : Path) (boundary : Option Path) :
    Yields d boundary (policy.follow reference requirer false) (TellTruly d) :=
  (GraphPolicy.follow_yields reference requirer false).mono fun _ answers =>
    tellTruly_of_reached fun file package links => (answers.reached file package links).mp

/-- A run keeps the account. -/
theorem Runs.accounted (runs : Runs policy d t known jobs last known')
    (accounted : Accounted d done entered t) :
    ∃ entered', Accounted d (done ++ jobs) entered' last ∧
      (known.Faithful d → Faithful d entered → Faithful d entered') := by
  induction runs generalizing done entered with
  | rest t known => exact ⟨entered, by rwa [List.append_nil], fun _ => id⟩
  | @job t rest last known known' known'' job jobs findings next found later ih =>
      obtain ⟨entered₁, all, reached⟩ := (accounted.next next).addAll findings
      obtain ⟨entered₂, whole, truly⟩ := ih all
      refine ⟨entered₂, by rwa [List.append_assoc] at whole, ?_⟩
      intro faithful before
      have told : Query.Ends d known.boundary (TellTruly d) (.ok findings, known') :=
        found ▸ perform_tellsTruly job known.boundary faithful rfl
      refine truly told.faithful ?_
      intro package member
      rcases reached package member with old | ⟨finding, among, reaches⟩
      · exact before package old
      · exact told.value findings rfl finding among package reaches

/-- The jobs that were taken up are no more than the disk allows. -/
theorem Accounted.length_le (accounted : Accounted d jobs entered t)
    (faithful : Faithful d entered) :
    jobs.length ≤ d.mostJobs := by
  have files : (visitedFiles jobs).length ≤ d.allPaths.length := by
    have once := accounted.files.of_append_left
    have real := (List.append_subset.mp accounted.filesReal).1
    exact (once.subperm real).length_le
  have dependencies : (followedDependencies jobs).length ≤
      (t.graph.packages.flatMap d.dependenciesOf).length := by
    have all := congrArg List.length accounted.dependencies
    have told : (entered.flatMap (·.declares)).length =
        (t.graph.packages.flatMap d.dependenciesOf).length := by
      rw [accounted.roots, List.flatMap_map, List.length_flatMap, List.length_flatMap]
      congr 1
      refine List.map_congr_left ?_
      intro package member
      rw [faithful package member]
      simp [EnteredPackage.declares, Disk.enteredPackage]
    rw [List.length_append, told] at all
    omega
  have packages : (t.graph.packages.flatMap d.dependenciesOf).length ≤
      (d.allPaths.flatMap d.dependenciesOf).length := by
    obtain ⟨roots, same, among⟩ := accounted.packages.subperm accounted.packagesReal
    rw [← (same.flatMap fun _ _ => .rfl).length_eq]
    exact (among.flatMap d.dependenciesOf).length_le
  rw [length_jobs jobs, Disk.mostJobs]
  omega

end Traversal

/-! ## Searches -/

/-- What a closure is searched for: a script, or some packages as if a script referred to them. -/
inductive Search
  | script (entry : Path)
  | packages (names : List String) (requirer : Path)

namespace Search

open Traversal (Runs Closing Accounted)

section

variable (policy : GraphPolicy)

/-- The closure that is searched for. -/
def closure : Search → Query Graph
  | .script entry => Graph.build policy entry
  | .packages names requirer => Graph.buildPackages policy names requirer

/-- What has been met before the first job. -/
def begin : Search → Query Traversal
  | .script entry => do
    let entry ← Resolution.realPath entry
    return (Traversal.begin (← read) entry).meetFile entry
  | .packages names requirer => do
    let requirer ← Resolution.realPath requirer
    let found ← names.mapM fun name => policy.follow name requirer false
    return (Traversal.begin (← read) requirer).addAll found.flatten

/-- What is done when no job is left. -/
def close : Search → Traversal → Query Graph
  | .script _, t => return (← policy.addPackages t.graph).sorted.markEntry
  | .packages _ _, t => return (← policy.addPackages t.graph).sorted

end

variable {policy : GraphPolicy} {d : Disk} {known known' : Manifests} {t : Traversal}

theorem closure_eq (search : Search) :
    search.closure policy =
      search.begin policy >>= fun t => t.drain policy >>= search.close policy := by
  cases search with
  | script entry =>
      simp only [closure, begin, Graph.build, GraphPolicy.finish, bind_assoc, pure_bind]
      rfl
  | packages names requirer =>
      simp only [closure, begin, Graph.buildPackages, GraphPolicy.finish, bind_assoc, pure_bind]
      rfl

/-- A search begins with nothing done. -/
theorem begin_accounted (search : Search)
    (begun : ((search.begin policy) d).run known = (.ok t, known')) :
    ∃ entered, Accounted d [] entered t ∧
      (known.Faithful d → known'.Faithful d ∧ Traversal.Faithful d entered) := by
  cases search with
  | script entry =>
      obtain ⟨start, known₁, resolved, begun⟩ := Query.exists_of_run_bind begun
      cases begun
      refine ⟨[], (Traversal.accounted_begin d start).meetFile start, ?_⟩
      intro faithful
      have learns : Query.Ends d known.boundary d.IsReal (.ok start, known') :=
        resolved ▸ Resolution.realPath_yields entry faithful rfl
      exact ⟨learns.faithful, List.forall_mem_nil _⟩
  | packages names requirer =>
      obtain ⟨start, known₁, resolved, begun⟩ := Query.exists_of_run_bind begun
      obtain ⟨found, known₂, followed, begun⟩ := Query.exists_of_run_bind begun
      cases begun
      obtain ⟨entered, accounted, reached⟩ :=
        (Traversal.accounted_begin d start).addAll found.flatten
      refine ⟨entered, accounted, ?_⟩
      intro faithful
      have learns : Query.Ends d known.boundary d.IsReal (.ok start, known₁) :=
        resolved ▸ Resolution.realPath_yields requirer faithful rfl
      have told : Query.Ends d known.boundary (∀ findings ∈ ·, Traversal.TellTruly d findings)
          (.ok found, known') :=
        followed ▸ Yields.mapM_all names
          (fun name _ => Traversal.follow_tellsTruly name start known.boundary)
          learns.faithful learns.boundary
      refine ⟨told.faithful, ?_⟩
      intro package member
      rcases reached package member with old | ⟨finding, among, reaches⟩
      · cases old
      · obtain ⟨findings, listed, inside⟩ := List.mem_flatten.mp among
        exact told.value found rfl findings listed finding inside package reaches

/-- A search for a closure does not even begin, or it runs through finitely many jobs: then nothing
is left, or a job fails. No file is visited twice, no package gives its dependencies twice, and
where manifests are known as they are, the disk says how many jobs there can be. -/
theorem closure_runs (search : Search) (policy : GraphPolicy) (d : Disk) (known : Manifests) :
    (∃ fault known', ((search.begin policy) d).run known = (.error fault, known') ∧
        ((search.closure policy) d).run known = (.error fault, known')) ∨
      ∃ t known₀ jobs last known' entered,
        ((search.begin policy) d).run known = (.ok t, known₀) ∧
          Runs policy d t known₀ jobs last known' ∧
          Closing policy d (search.close policy) last known'
            (((search.closure policy) d).run known) ∧
          Accounted d jobs entered last ∧ (known.Faithful d → jobs.length ≤ d.mostJobs) := by
  rw [closure_eq, Query.run_bind]
  cases begun : ((search.begin policy) d).run known with
  | mk outcome known₀ =>
      cases outcome with
      | error fault => exact .inl ⟨fault, known₀, rfl, rfl⟩
      | ok t =>
          obtain ⟨jobs, last, known', runs, ending⟩ :=
            Traversal.exists_closing policy d (search.close policy) t known₀
          obtain ⟨entered₀, accounted₀, true₀⟩ := begin_accounted search begun
          obtain ⟨entered, accounted, truly⟩ := runs.accounted accounted₀
          refine .inr ⟨t, known₀, jobs, last, known', entered, rfl, runs, ending, accounted, ?_⟩
          intro faithful
          obtain ⟨learnt, genuine⟩ := true₀ faithful
          exact accounted.length_le (truly learnt genuine)

end Search

end FunctionArchive
