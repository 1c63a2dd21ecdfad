import FunctionArchive.Proofs.Graph.Findings
import Mathlib.Data.List.Basic

/-!
# A traversal finds the least closure

Two facts stay true while a traversal takes up one job after the other. It is `Sound`: what it has
met and noted belongs to the least closure. And it is `Complete`: a file or package of the disk is
unmet, still a job, or noted; and where the requests of something noted lead has been met, unless
they are still jobs. While a job is under way only the second fact has an exception, that job.

Every step keeps both (`OnTrack.step`), so a whole run does (`OnTrack.drain`), in whatever order
files and dependencies came and however they lead back to each other. When no job is left, nothing
is missing: the noted files, packages, links and packages left out are those of the least closure
(`OnTrack.exact`).
-/

set_option autoImplicit false

namespace FunctionArchive

open Query (Yields)

namespace Traversal

variable {policy : GraphPolicy} {d : Disk} {boundary : Option Path} {start : Path}
  {t t' rest : Traversal} {job : GraphJob} {findings : List GraphFinding}

/-- The traversal after these links were noted. -/
abbrev crossing (t : Traversal) (links : List Link) : Traversal :=
  t.record fun g => { g with links := g.links ++ links }

theorem files_add_visited (t : Traversal) (file : Path) (references : List String)
    (dynamic : Bool) :
    (t.add (.visited file references dynamic)).graph.files = t.graph.files ++ [file] :=
  List.map_append

/-- The job that is taken up first is the first file, or the first declared dependency if there is
no file. -/
theorem next?_eq_some (next : t.next? = some (job, rest)) :
    (∃ file files, t.files = file :: files ∧ job = .file file ∧ rest = { t with files }) ∨
      ∃ package manifest declared, t.files = [] ∧ t.declared = (package, manifest) :: declared ∧
        job = .declared package manifest ∧ rest = { t with declared } := by
  cases files : t.files with
  | cons file others =>
      simp only [next?, files, Option.some.injEq, Prod.mk.injEq] at next
      obtain ⟨rfl, rfl⟩ := next
      exact .inl ⟨file, others, rfl, rfl, rfl⟩
  | nil =>
      cases declared : t.declared with
      | nil => simp [next?, files, declared] at next
      | cons dependency others =>
          simp only [next?, files, declared, Option.some.injEq, Prod.mk.injEq] at next
          obtain ⟨rfl, rfl⟩ := next
          exact .inr ⟨dependency.1, dependency.2, others, rfl, rfl, rfl, rfl⟩

/-! ## Nothing too much -/

section Sound

variable (policy d boundary start)

/-- What a traversal has met and noted belongs to the closure. -/
structure Sound (t : Traversal) : Prop where
  files : ∀ file ∈ t.files, policy.InClosure d boundary start (.file file)
  declared : ∀ dependency ∈ t.declared,
    policy.InClosure d boundary start (.request ⟨dependency.1, dependency.2⟩)
  nodes : ∀ file ∈ t.graph.files, policy.InClosure d boundary start (.file file)
  packages : ∀ root ∈ t.graph.packages, policy.InClosure d boundary start (.package root)
  links : ∀ link ∈ t.graph.links, policy.Crosses d boundary start link
  external : ∀ name ∈ t.graph.external, policy.LeavesPackage d boundary start name

/-- What a finding says belongs to the closure. -/
def Justified : GraphFinding → Prop
  | .visited file _ _ => policy.InClosure d boundary start (.file file)
  | .reached file package links => ∃ request root,
    policy.InClosure d boundary start (.request request) ∧
      policy.Follows d boundary request file root links ∧ package = root.map d.enteredPackage
  | .leftOut name => policy.LeavesPackage d boundary start name
  | .noted _ => True

end Sound

theorem Sound.meetFile (sound : Sound policy d boundary start t) {file : Path}
    (inside : policy.InClosure d boundary start (.file file)) :
    Sound policy d boundary start (t.meetFile file) := by
  unfold Traversal.meetFile
  split
  · refine { sound with files := fun file' member => ?_ }
    rcases List.mem_append.mp member with before | last
    · exact sound.files file' before
    · cases List.mem_singleton.mp last
      exact inside
  · exact sound

theorem Sound.meetPackage (sound : Sound policy d boundary start t) {root : Path}
    (inside : policy.InClosure d boundary start (.package root)) :
    Sound policy d boundary start (t.meetPackage (d.enteredPackage root)) := by
  unfold Traversal.meetPackage
  split
  · refine { sound with declared := fun dependency member => ?_, packages :=
      fun root' member => ?_ }
    · rcases List.mem_append.mp member with before | last
      · exact sound.declared dependency before
      · obtain ⟨name, declared, rfl⟩ := List.mem_map.mp last
        exact .declares inside declared
    · rcases List.mem_append.mp member with before | last
      · exact sound.packages root' before
      · cases List.mem_singleton.mp last
        exact inside
  · exact sound

/-- A finding that is justified keeps a traversal sound. -/
theorem Sound.add (sound : Sound policy d boundary start t) {finding : GraphFinding}
    (justified : Justified policy d boundary start finding) :
    Sound policy d boundary start (t.add finding) := by
  cases finding with
  | visited file references dynamic =>
      refine { sound with nodes := fun file' member => ?_ }
      rw [files_add_visited] at member
      rcases List.mem_append.mp member with before | last
      · exact sound.nodes file' before
      · cases List.mem_singleton.mp last
        exact justified
  | leftOut name =>
      refine { sound with external := fun name' member => ?_ }
      rcases List.mem_append.mp member with before | last
      · exact sound.external name' before
      · cases List.mem_singleton.mp last
        exact justified
  | noted warning => exact { sound with }
  | reached file package links =>
      obtain ⟨request, root, inside, follows, rfl⟩ := justified
      have linked : Sound policy d boundary start
          (t.crossing links) := by
        refine { sound with links := fun link member => ?_ }
        rcases List.mem_append.mp member with before | last
        · exact sound.links link before
        · exact ⟨request, file, root, links, inside, follows, last⟩
      cases root with
      | none => exact linked.meetFile (.leadsTo inside follows)
      | some root =>
          exact (linked.meetPackage (.enters inside follows)).meetFile (.leadsTo inside follows)

theorem Sound.addAll (sound : Sound policy d boundary start t)
    (justified : ∀ finding ∈ findings, Justified policy d boundary start finding) :
    Sound policy d boundary start (t.addAll findings) := by
  induction findings generalizing t with
  | nil => exact sound
  | cons finding others ih =>
      exact ih (sound.add (justified finding List.mem_cons_self))
        fun other member => justified other (List.mem_cons_of_mem _ member)

/-- A job that belongs to the closure: so do its requests, and the file that it goes through. -/
structure Sanctioned (policy : GraphPolicy) (d : Disk) (boundary : Option Path) (start : Path)
    (job : GraphJob) : Prop where
  requests : ∀ request ∈ d.requests job, policy.InClosure d boundary start (.request request)
  file : ∀ file, job = .file file → policy.InClosure d boundary start (.file file)

theorem Sound.next (sound : Sound policy d boundary start t) (next : t.next? = some (job, rest)) :
    Sound policy d boundary start rest ∧ Sanctioned policy d boundary start job := by
  rcases next?_eq_some next with ⟨file, files, split, rfl, rfl⟩ |
    ⟨package, manifest, declared, -, split, rfl, rfl⟩
  · have inside := sound.files file (by simp [split])
    refine ⟨{ sound with files := fun file' member => sound.files file' ?_ }, ?_, ?_⟩
    · exact split ▸ List.mem_cons_of_mem _ member
    · intro request member
      obtain ⟨found, there, asked⟩ := List.mem_filterMap.mp member
      cases found with
      | static reference =>
          cases asked
          exact .refers inside there
      | dynamic expression => cases asked
    · rintro _ ⟨⟩
      exact inside
  · have inside := sound.declared (package, manifest) (by simp [split])
    refine ⟨{ sound with declared := fun dependency member => sound.declared dependency ?_ }, ?_,
      ?_⟩
    · exact split ▸ List.mem_cons_of_mem _ member
    · intro request member
      cases List.mem_singleton.mp member
      exact inside
    · rintro _ ⟨⟩

theorem Sanctioned.justified (sanctioned : Sanctioned policy d boundary start job)
    (tells : policy.Tells d boundary job findings) :
    ∀ finding ∈ findings, Justified policy d boundary start finding := by
  intro finding member
  cases finding with
  | visited file references dynamic =>
      exact sanctioned.file file ((tells.visited file).mp ⟨references, dynamic, member⟩)
  | reached file package links =>
      obtain ⟨request, asked, root, follows, entered⟩ :=
        (tells.reached file package links).mp member
      exact ⟨request, root, sanctioned.requests request asked, follows, entered⟩
  | leftOut name =>
      obtain ⟨request, asked, leavesOut, named⟩ := (tells.leftOut name).mp member
      exact ⟨request, sanctioned.requests request asked, leavesOut, named⟩
  | noted warning => trivial

/-! ## Nothing too little -/

/-- A traversal that has met and noted at least what another has. -/
structure Grows (t t' : Traversal) : Prop where
  unmetFiles : t'.unmetFiles ⊆ t.unmetFiles
  unmetPackages : t'.unmetPackages ⊆ t.unmetPackages
  nodes : t.graph.files ⊆ t'.graph.files
  links : t.graph.links ⊆ t'.graph.links
  external : t.graph.external ⊆ t'.graph.external

theorem Grows.refl (t : Traversal) : Grows t t :=
  ⟨fun _ => id, fun _ => id, fun _ => id, fun _ => id, fun _ => id⟩

theorem Grows.trans {t'' : Traversal} (first : Grows t t') (second : Grows t' t'') : Grows t t'' :=
  ⟨List.Subset.trans second.unmetFiles first.unmetFiles,
    List.Subset.trans second.unmetPackages first.unmetPackages,
    List.Subset.trans first.nodes second.nodes, List.Subset.trans first.links second.links,
    List.Subset.trans first.external second.external⟩

theorem grows_meetFile (t : Traversal) (file : Path) : Grows t (t.meetFile file) := by
  unfold meetFile
  split
  · exact { Grows.refl t with unmetFiles := List.filter_subset_self _ }
  · exact .refl t

theorem grows_meetPackage (t : Traversal) (package : EnteredPackage) :
    Grows t (t.meetPackage package) := by
  unfold meetPackage
  split
  · exact { Grows.refl t with unmetPackages := List.filter_subset_self _ }
  · exact .refl t

theorem grows_add (t : Traversal) (finding : GraphFinding) : Grows t (t.add finding) := by
  cases finding with
  | visited file references dynamic =>
      refine { Grows.refl t with nodes := ?_ }
      rw [files_add_visited]
      exact List.subset_append_left _ _
  | leftOut name => exact { Grows.refl t with external := List.subset_append_left _ _ }
  | noted warning => exact { Grows.refl t with }
  | reached file package links =>
      have linked : Grows t (t.crossing links) :=
        { Grows.refl t with links := List.subset_append_left _ _ }
      cases package with
      | none => exact linked.trans (grows_meetFile _ file)
      | some package =>
          exact (linked.trans (grows_meetPackage _ package)).trans (grows_meetFile _ file)

theorem grows_addAll (t : Traversal) (findings : List GraphFinding) :
    Grows t (t.addAll findings) := by
  induction findings generalizing t with
  | nil => exact .refl t
  | cons finding others ih => exact (grows_add t finding).trans (ih (t.add finding))

/-- A traversal has taken note of a finding. -/
def Notes (t : Traversal) : GraphFinding → Prop
  | .visited file _ _ => file ∈ t.graph.files
  | .reached file package links =>
    file ∉ t.unmetFiles ∧ (∀ entered, package = some entered → entered.root ∉ t.unmetPackages) ∧
      links ⊆ t.graph.links
  | .leftOut name => name ∈ t.graph.external
  | .noted _ => True

theorem Notes.mono {finding : GraphFinding} (notes : t.Notes finding) (grows : Grows t t') :
    t'.Notes finding := by
  cases finding with
  | visited file references dynamic => exact grows.nodes notes
  | leftOut name => exact grows.external notes
  | noted warning => trivial
  | reached file package links =>
      obtain ⟨met, entered, linked⟩ := notes
      exact ⟨fun unmet => met (grows.unmetFiles unmet),
        fun package there unmet => entered package there (grows.unmetPackages unmet),
        List.Subset.trans linked grows.links⟩

theorem not_mem_unmetFiles_meetFile (t : Traversal) (file : Path) :
    file ∉ (t.meetFile file).unmetFiles := by
  unfold meetFile
  split
  · simp
  · rename_i met
    simpa using met

theorem not_mem_unmetPackages_meetPackage (t : Traversal) (package : EnteredPackage) :
    package.root ∉ (t.meetPackage package).unmetPackages := by
  unfold meetPackage
  split
  · simp
  · rename_i met
    simpa using met

theorem notes_add (t : Traversal) (finding : GraphFinding) : (t.add finding).Notes finding := by
  cases finding with
  | visited file references dynamic =>
      show file ∈ (t.add _).graph.files
      rw [files_add_visited]
      exact List.mem_append_right _ (List.mem_singleton_self file)
  | leftOut name => exact List.mem_append_right _ (List.mem_singleton_self name)
  | noted warning => trivial
  | reached file package links =>
      have linked : links ⊆ (t.crossing links).graph.links := List.subset_append_right _ _
      cases package with
      | none =>
          exact ⟨not_mem_unmetFiles_meetFile _ file, by simp,
            List.Subset.trans linked (grows_meetFile _ file).links⟩
      | some package =>
          have met := grows_meetFile ((t.crossing links).meetPackage package) file
          refine ⟨not_mem_unmetFiles_meetFile _ file, ?_,
            List.Subset.trans linked ((grows_meetPackage _ package).trans met).links⟩
          rintro _ ⟨⟩ unmet
          exact not_mem_unmetPackages_meetPackage _ package (met.unmetPackages unmet)

theorem notes_addAll (t : Traversal) (findings : List GraphFinding) :
    ∀ finding ∈ findings, (t.addAll findings).Notes finding := by
  induction findings generalizing t with
  | nil => exact List.forall_mem_nil _
  | cons first others ih =>
      intro finding member
      rcases List.mem_cons.mp member with rfl | later
      · exact (notes_add t finding).mono (grows_addAll _ others)
      · exact ih (t.add first) finding later

section Complete

variable (policy d boundary)

/-- A traversal has met where a request leads, or noted that it is left out. -/
structure Settled (t : Traversal) (request : Request) : Prop where
  reached : ∀ file package links, policy.Follows d boundary request file package links →
    file ∉ t.unmetFiles ∧ (∀ root, package = some root → root ∉ t.unmetPackages) ∧
      links ⊆ t.graph.links
  leftOut : policy.LeavesOut request → Reference.packageName request.reference ∈ t.graph.external

/-- Nothing gets lost: what has been met is noted or still a job, and the requests of what is noted
are settled or still a job. One job may be under way. -/
structure Complete (job : Option GraphJob) (t : Traversal) : Prop where
  files : ∀ file ∈ d.allPaths,
    file ∈ t.unmetFiles ∨ file ∈ t.files ∨ job = some (.file file) ∨ file ∈ t.graph.files
  packages : ∀ root ∈ d.allPaths, root ∈ t.unmetPackages ∨ root ∈ t.graph.packages
  visited : ∀ file ∈ t.graph.files,
    job = some (.file file) ∨ ∀ request ∈ d.requests (.file file),
      Settled policy d boundary t request
  entered : ∀ root ∈ t.graph.packages, ∀ name ∈ d.dependenciesOf root,
    (name, root.child Manifest.fileName) ∈ t.declared ∨
      job = some (.declared name (root.child Manifest.fileName)) ∨
        Settled policy d boundary t ⟨name, root.child Manifest.fileName⟩

end Complete

theorem Settled.mono {request : Request} (settled : Settled policy d boundary t request)
    (grows : Grows t t') : Settled policy d boundary t' request := by
  refine ⟨fun file package links follows => ?_, fun leavesOut => ?_⟩
  · obtain ⟨met, entered, linked⟩ := settled.reached file package links follows
    exact ⟨fun unmet => met (grows.unmetFiles unmet),
      fun root there unmet => entered root there (grows.unmetPackages unmet),
      List.Subset.trans linked grows.links⟩
  · exact grows.external (settled.leftOut leavesOut)

variable {under : Option GraphJob}

/-- What a complete traversal notes besides leaves it complete. -/
theorem Complete.grow (complete : Complete policy d boundary under t) (grows : Grows t t')
    (files : t'.unmetFiles = t.unmetFiles ∧ t'.files = t.files)
    (packages : t'.unmetPackages = t.unmetPackages ∧ t'.declared = t.declared ∧
      t'.graph.packages = t.graph.packages)
    (nodes : ∀ file ∈ t'.graph.files, file ∈ t.graph.files ∨ under = some (.file file)) :
    Complete policy d boundary under t' := by
  refine ⟨fun file real => ?_, fun root real => ?_, fun file noted => ?_,
    fun root noted name declared => ?_⟩
  · rw [files.1, files.2]
    rcases complete.files file real with unmet | waiting | job | noted
    · exact .inl unmet
    · exact .inr (.inl waiting)
    · exact .inr (.inr (.inl job))
    · exact .inr (.inr (.inr (grows.nodes noted)))
  · rw [packages.1, packages.2.2]
    exact complete.packages root real
  · rcases nodes file noted with before | job
    · exact (complete.visited file before).imp_right fun settled request asked =>
        (settled request asked).mono grows
    · exact .inl job
  · rw [packages.2.1]
    rw [packages.2.2] at noted
    exact (complete.entered root noted name declared).imp_right
      (Or.imp_right fun settled => settled.mono grows)

theorem Complete.meetFile (complete : Complete policy d boundary under t) (file : Path) :
    Complete policy d boundary under (t.meetFile file) := by
  have grows := grows_meetFile t file
  unfold Traversal.meetFile at grows ⊢
  split at grows
  · rename_i unmet
    rw [if_pos unmet]
    refine ⟨fun file' real => ?_, complete.packages, fun file' noted => ?_,
      fun root noted name declared => ?_⟩
    · rcases complete.files file' real with unmet' | waiting | job | noted
      · by_cases same : file' = file
        · exact .inr (.inl (by simp [same]))
        · exact .inl (by simp [unmet', same])
      · exact .inr (.inl (List.mem_append_left _ waiting))
      · exact .inr (.inr (.inl job))
      · exact .inr (.inr (.inr noted))
    · exact (complete.visited file' noted).imp_right fun settled request asked =>
        (settled request asked).mono grows
    · exact (complete.entered root noted name declared).imp_right
        (Or.imp_right fun settled => settled.mono grows)
  · rename_i met
    rw [if_neg met]
    exact complete

theorem Complete.meetPackage (complete : Complete policy d boundary under t) (root : Path) :
    Complete policy d boundary under (t.meetPackage (d.enteredPackage root)) := by
  have grows := grows_meetPackage t (d.enteredPackage root)
  unfold Traversal.meetPackage at grows ⊢
  split at grows
  · rename_i unmet
    rw [if_pos unmet]
    refine ⟨complete.files, fun root' real => ?_, fun file noted => ?_,
      fun root' noted name declared => ?_⟩
    · rcases complete.packages root' real with unmet' | noted
      · by_cases same : root' = root
        · exact .inr (List.mem_append_right _ (by simp [same, Disk.enteredPackage]))
        · exact .inl (by simp [unmet', same, Disk.enteredPackage])
      · exact .inr (List.mem_append_left _ noted)
    · exact (complete.visited file noted).imp_right fun settled request asked =>
        (settled request asked).mono grows
    · rcases List.mem_append.mp noted with before | last
      · rcases complete.entered root' before name declared with waiting | job | settled
        · exact .inl (List.mem_append_left _ waiting)
        · exact .inr (.inl job)
        · exact .inr (.inr (settled.mono grows))
      · cases List.mem_singleton.mp last
        exact .inl (List.mem_append_right _ (List.mem_map.mpr ⟨name, declared, rfl⟩))
  · rename_i met
    rw [if_neg met]
    exact complete

/-- What a finding needs in order not to break a complete traversal. -/
def Fits (d : Disk) (under : Option GraphJob) : GraphFinding → Prop
  | .visited file _ _ => under = some (.file file)
  | .reached _ package _ => ∃ root : Option Path, package = root.map d.enteredPackage
  | .leftOut _ | .noted _ => True

theorem Complete.add (complete : Complete policy d boundary under t) {finding : GraphFinding}
    (fits : Fits d under finding) : Complete policy d boundary under (t.add finding) := by
  cases finding with
  | visited file references dynamic =>
      refine complete.grow (grows_add t _) ⟨rfl, rfl⟩ ⟨rfl, rfl, rfl⟩ fun file' noted => ?_
      rw [files_add_visited] at noted
      rcases List.mem_append.mp noted with before | last
      · exact .inl before
      · cases List.mem_singleton.mp last
        exact .inr fits
  | leftOut name =>
      exact complete.grow (grows_add t _) ⟨rfl, rfl⟩ ⟨rfl, rfl, rfl⟩ fun _ => .inl
  | noted warning =>
      exact complete.grow (grows_add t _) ⟨rfl, rfl⟩ ⟨rfl, rfl, rfl⟩ fun _ => .inl
  | reached file package links =>
      obtain ⟨root, rfl⟩ := fits
      have linked : Complete policy d boundary under (t.crossing links) :=
        complete.grow { Grows.refl t with links := List.subset_append_left _ _ } ⟨rfl, rfl⟩
          ⟨rfl, rfl, rfl⟩ fun _ => .inl
      cases root with
      | none => exact linked.meetFile file
      | some root => exact (linked.meetPackage root).meetFile file

theorem Complete.addAll (complete : Complete policy d boundary under t)
    (fits : ∀ finding ∈ findings, Fits d under finding) :
    Complete policy d boundary under (t.addAll findings) := by
  induction findings generalizing t with
  | nil => exact complete
  | cons finding others ih =>
      exact ih (complete.add (fits finding List.mem_cons_self))
        fun other member => fits other (List.mem_cons_of_mem _ member)

theorem fits_of_tells (tells : policy.Tells d boundary job findings) :
    ∀ finding ∈ findings, Fits d (some job) finding := by
  intro finding member
  cases finding with
  | visited file references dynamic =>
      exact congrArg some ((tells.visited file).mp ⟨references, dynamic, member⟩)
  | reached file package links =>
      obtain ⟨request, -, root, -, entered⟩ := (tells.reached file package links).mp member
      exact ⟨root, entered⟩
  | leftOut name => trivial
  | noted warning => trivial

theorem settled_of_tells (tells : policy.Tells d boundary job findings)
    (notes : ∀ finding ∈ findings, t.Notes finding) :
    ∀ request ∈ d.requests job, Settled policy d boundary t request := by
  intro request asked
  refine ⟨fun file package links follows => ?_, fun leavesOut => ?_⟩
  · have member := (tells.reached file _ links).mpr ⟨request, asked, package, follows, rfl⟩
    obtain ⟨met, entered, linked⟩ := notes _ member
    refine ⟨met, ?_, linked⟩
    rintro root rfl
    exact entered _ rfl
  · exact notes _ ((tells.leftOut _).mpr ⟨request, asked, leavesOut, rfl⟩)

/-- A job is done when the traversal has taken note of all that it found. -/
theorem Complete.finish (complete : Complete policy d boundary (some job) t)
    (tells : policy.Tells d boundary job findings)
    (notes : ∀ finding ∈ findings, t.Notes finding) : Complete policy d boundary none t := by
  have settled := settled_of_tells tells notes
  refine ⟨fun file real => ?_, complete.packages, fun file noted => ?_,
    fun root noted name declared => ?_⟩
  · rcases complete.files file real with unmet | waiting | done | noted
    · exact .inl unmet
    · exact .inr (.inl waiting)
    · obtain ⟨references, dynamic, member⟩ := (tells.visited file).mpr (Option.some.inj done)
      exact .inr (.inr (.inr (notes _ member)))
    · exact .inr (.inr (.inr noted))
  · rcases complete.visited file noted with done | before
    · cases done
      exact .inr settled
    · exact .inr before
  · rcases complete.entered root noted name declared with waiting | done | before
    · exact .inl waiting
    · cases done
      exact .inr (.inr (settled _ (List.mem_singleton_self _)))
    · exact .inr (.inr before)

/-- Taking up a job puts it under way. -/
theorem Complete.next (complete : Complete policy d boundary none t)
    (next : t.next? = some (job, rest)) : Complete policy d boundary (some job) rest := by
  rcases next?_eq_some next with ⟨file, files, split, rfl, rfl⟩ |
    ⟨package, manifest, declared, -, split, rfl, rfl⟩
  · refine ⟨fun file' real => ?_, complete.packages, fun file' noted => ?_,
      fun root noted name declares => ?_⟩
    · rcases complete.files file' real with unmet | waiting | done | noted
      · exact .inl unmet
      · rw [split] at waiting
        rcases List.mem_cons.mp waiting with rfl | later
        · exact .inr (.inr (.inl rfl))
        · exact .inr (.inl later)
      · cases done
      · exact .inr (.inr (.inr noted))
    · rcases complete.visited file' noted with done | settled
      · cases done
      · exact .inr fun request asked => (settled request asked).mono { Grows.refl t with }
    · rcases complete.entered root noted name declares with waiting | done | settled
      · exact .inl waiting
      · cases done
      · exact .inr (.inr (settled.mono { Grows.refl t with }))
  · refine ⟨fun file' real => ?_, complete.packages, fun file' noted => ?_,
      fun root noted name declares => ?_⟩
    · rcases complete.files file' real with unmet | waiting | done | noted
      · exact .inl unmet
      · exact .inr (.inl waiting)
      · cases done
      · exact .inr (.inr (.inr noted))
    · rcases complete.visited file' noted with done | settled
      · cases done
      · exact .inr fun request asked => (settled request asked).mono { Grows.refl t with }
    · rcases complete.entered root noted name declares with waiting | done | settled
      · rw [split] at waiting
        rcases List.mem_cons.mp waiting with first | later
        · cases first
          exact .inr (.inl rfl)
        · exact .inl later
      · cases done
      · exact .inr (.inr (settled.mono { Grows.refl t with }))

/-! ## The whole run -/

variable (policy d boundary start)

/-- Between two jobs a traversal that has met the start has neither met too much nor lost
anything. -/
structure OnTrack (t : Traversal) : Prop where
  sound : Sound policy d boundary start t
  complete : Complete policy d boundary none t
  real : start ∈ d.allPaths
  met : start ∉ t.unmetFiles

variable {policy d boundary start}

theorem onTrack_begin (real : start ∈ d.allPaths) :
    OnTrack policy d boundary start ((begin d start).meetFile start) := by
  have nothing : Complete policy d boundary none (begin d start) := by
    refine ⟨fun _ => .inl, fun _ => .inl, ?_, ?_⟩
    · exact fun file noted => absurd noted List.not_mem_nil
    · exact fun root noted => absurd noted List.not_mem_nil
  have soundBegin : Sound policy d boundary start (begin d start) := by
    refine ⟨?_, ?_, ?_, ?_, ?_, ?_⟩ <;> exact fun _ noted => absurd noted List.not_mem_nil
  exact ⟨soundBegin.meetFile .start, nothing.meetFile start, real,
    not_mem_unmetFiles_meetFile _ start⟩

/-- A job that tells all about itself keeps a traversal on track. -/
theorem OnTrack.step (onTrack : OnTrack policy d boundary start t)
    (next : t.next? = some (job, rest)) (tells : policy.Tells d boundary job findings) :
    OnTrack policy d boundary start (rest.addAll findings) := by
  obtain ⟨sound, sanctioned⟩ := onTrack.sound.next next
  refine ⟨sound.addAll (sanctioned.justified tells), ?_, onTrack.real, fun unmet => ?_⟩
  · exact ((onTrack.complete.next next).addAll (fits_of_tells tells)).finish tells
      (notes_addAll rest findings)
  · have before := (grows_addAll rest findings).unmetFiles unmet
    rw [(jobs_of_next? next).2.1] at before
    exact onTrack.met before

/-- What every job keeps of a traversal still holds when no job is left. -/
theorem drain_yields {keeps : Traversal → Prop}
    (step : ∀ t job rest, keeps t → t.next? = some (job, rest) →
      Yields d boundary (perform policy job) fun findings => keeps (rest.addAll findings))
    (begins : keeps t) :
    Yields d boundary (drain policy t) fun last => keeps last ∧ last.next? = none := by
  fun_induction Traversal.drain policy t with
  | case1 t done => exact .pure ⟨begins, done⟩
  | case2 t job rest next ih => exact .bind (step t job rest begins next) ih

/-- Doing all jobs keeps a traversal on track and leaves no job. -/
theorem OnTrack.drain (onTrack : OnTrack policy d boundary start t) :
    Yields d boundary (Traversal.drain policy t) fun last =>
      OnTrack policy d boundary start last ∧ last.next? = none :=
  drain_yields (fun _ job _ onTrack next =>
    (perform_yields job).mono fun _ tells => onTrack.step next tells) onTrack

theorem next?_eq_none (done : t.next? = none) : t.files = [] ∧ t.declared = [] := by
  cases files : t.files with
  | cons file others => simp [next?, files] at done
  | nil =>
      cases declared : t.declared with
      | cons dependency others => simp [next?, files, declared] at done
      | nil => exact ⟨rfl, rfl⟩

/-- What a traversal that has no job left should have done about a piece of the closure. -/
def Holds (policy : GraphPolicy) (d : Disk) (boundary : Option Path) (t : Traversal) :
    Piece → Prop
  | .file path => path ∈ t.graph.files
  | .package root => root ∈ t.graph.packages
  | .request request => Settled policy d boundary t request

/-- A traversal on track that has no job left holds the whole closure. -/
theorem OnTrack.holds (onTrack : OnTrack policy d boundary start t) (done : t.next? = none)
    {piece : Piece} (inside : policy.InClosure d boundary start piece) :
    Holds policy d boundary t piece := by
  obtain ⟨files, declared⟩ := next?_eq_none done
  have noted {file : Path} (real : file ∈ d.allPaths) (met : file ∉ t.unmetFiles) :
      file ∈ t.graph.files := by
    simpa [files, met] using onTrack.complete.files file real
  induction inside with
  | start => exact noted onTrack.real onTrack.met
  | @refers file reference _ found ih =>
      rcases onTrack.complete.visited file ih with job | settled
      · cases job
      · exact settled _ (List.mem_filterMap.mpr ⟨_, found, rfl⟩)
  | @declares root dependency _ declares ih =>
      rcases onTrack.complete.entered root ih dependency declares with waiting | job | settled
      · simp [declared] at waiting
      · cases job
      · exact settled
  | leadsTo _ follows ih =>
      have real := (Resolution.isReal_of_resolved _ follows.resolved).1
      exact noted real.mem_allPaths (ih.reached _ _ _ follows).1
  | @enters request file root links _ follows ih =>
      have real := (Resolution.isReal_of_resolved _ follows.resolved).2 root rfl
      have met := (ih.reached _ _ _ follows).2.1 root rfl
      exact (onTrack.complete.packages root real.mem_allPaths).resolve_left met

/-- A closure that holds exactly what the least closure says, before the files of packages are
added. -/
structure Exact (policy : GraphPolicy) (d : Disk) (boundary : Option Path) (start : Path)
    (g : Graph) : Prop where
  files : ∀ file, file ∈ g.files ↔ policy.InClosure d boundary start (.file file)
  packages : ∀ root, root ∈ g.packages ↔ policy.InClosure d boundary start (.package root)
  links : ∀ link, link ∈ g.links ↔ policy.Crosses d boundary start link
  external : ∀ name, name ∈ g.external ↔ policy.LeavesPackage d boundary start name

theorem OnTrack.exact (onTrack : OnTrack policy d boundary start t) (done : t.next? = none) :
    Exact policy d boundary start t.graph := by
  refine ⟨fun file => ⟨onTrack.sound.nodes file, onTrack.holds done⟩,
    fun root => ⟨onTrack.sound.packages root, onTrack.holds done⟩,
    fun link => ⟨onTrack.sound.links link, ?_⟩,
    fun name => ⟨onTrack.sound.external name, ?_⟩⟩
  · rintro ⟨request, file, package, links, inside, follows, crossed⟩
    have settled : Settled policy d boundary t request := onTrack.holds done inside
    exact (settled.reached file package links follows).2.2 crossed
  · rintro ⟨request, inside, leavesOut, rfl⟩
    have settled : Settled policy d boundary t request := onTrack.holds done inside
    exact settled.leftOut leavesOut

end Traversal

end FunctionArchive
