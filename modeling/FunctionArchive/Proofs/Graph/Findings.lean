import FunctionArchive.Proofs.Graph.Closure

/-!
# What jobs find

A job of a traversal looks at some requests: visiting a file, at the static references in it;
following a declared dependency, at that one. What the job finds tells exactly where these requests
lead and which of them are left out (`GraphPolicy.Tells`), so a traversal need not know how the
findings came about (`Traversal.perform_yields`).
-/

set_option autoImplicit false

namespace FunctionArchive

open Query (Yields)

/-- A finding that speaks neither of a request nor of a file. -/
def GraphFinding.IsAside : GraphFinding → Prop
  | .noted _ => True
  | .visited .. | .reached .. | .leftOut _ => False

/-- A package with the dependencies that a disk says it declares. -/
def Disk.enteredPackage (d : Disk) (root : Path) : EnteredPackage := ⟨root, d.dependenciesOf root⟩

/-- The request that a reference found in a script makes. -/
def Script.Reference.request? (file : Path) : Script.Reference → Option Request
  | .static reference => some ⟨reference, file⟩
  | .dynamic _ => none

theorem Script.Reference.requests_cons (file : Path) (found : Script.Reference)
    (references : List Script.Reference) :
    (found :: references).filterMap (request? file) =
      (found.request? file).toList ++ references.filterMap (request? file) := by
  cases asked : found.request? file <;> simp [asked]

/-- The requests that a job looks at. -/
def Disk.requests (d : Disk) : GraphJob → List Request
  | .file path => (d.referencesIn path).filterMap (Script.Reference.request? path)
  | .declared package manifest => [⟨package, manifest⟩]

namespace GraphPolicy

variable (policy : GraphPolicy) (d : Disk) (boundary : Option Path)

/-- Findings that tell of some requests where they lead and which are left out, and nothing else of
that kind. -/
structure Answers (requests : List Request) (findings : List GraphFinding) : Prop where
  reached : ∀ file package links, .reached file package links ∈ findings ↔
    ∃ request ∈ requests, ∃ root, policy.Follows d boundary request file root links ∧
      package = root.map d.enteredPackage
  leftOut : ∀ name, .leftOut name ∈ findings ↔
    ∃ request ∈ requests, policy.LeavesOut request ∧
      name = Reference.packageName request.reference
  unvisited : ∀ file references dynamic, .visited file references dynamic ∉ findings

variable {policy d boundary}

theorem Answers.append {requests requests' : List Request} {findings findings' : List GraphFinding}
    (answers : Answers policy d boundary requests findings)
    (answers' : Answers policy d boundary requests' findings') :
    Answers policy d boundary (requests ++ requests') (findings ++ findings') := by
  refine ⟨fun file package links => ?_, fun name => ?_, fun file references dynamic member => ?_⟩
  · rw [List.mem_append, answers.reached, answers'.reached]
    simp only [List.mem_append, or_and_right, exists_or]
  · rw [List.mem_append, answers.leftOut, answers'.leftOut]
    simp only [List.mem_append, or_and_right, exists_or]
  · rcases List.mem_append.mp member with first | second
    · exact answers.unvisited _ _ _ first
    · exact answers'.unvisited _ _ _ second

/-- Requests that lead nowhere and are not left out are answered by anything aside. -/
theorem Answers.aside {requests : List Request} {findings : List GraphFinding}
    (aside : ∀ finding ∈ findings, finding.IsAside)
    (notFollowed : ∀ request ∈ requests, ∀ file package links,
      ¬ policy.Follows d boundary request file package links)
    (notLeftOut : ∀ request ∈ requests, ¬ policy.LeavesOut request) :
    Answers policy d boundary requests findings := by
  refine ⟨fun file package links => ⟨fun member => (aside _ member).elim, ?_⟩,
    fun name => ⟨fun member => (aside _ member).elim, ?_⟩, fun _ _ _ member => aside _ member⟩
  · rintro ⟨request, inside, root, follows, -⟩
    exact absurd follows (notFollowed request inside file root links)
  · rintro ⟨request, inside, leavesOut, -⟩
    exact absurd leavesOut (notLeftOut request inside)

/-- A request that leads nowhere and is not left out is answered by anything aside. -/
theorem Answers.unanswered {request : Request} {findings : List GraphFinding}
    (aside : ∀ finding ∈ findings, finding.IsAside)
    (notFollowed : ∀ file package links, ¬ policy.Follows d boundary request file package links)
    (notLeftOut : ¬ policy.LeavesOut request) :
    Answers policy d boundary [request] findings :=
  .aside aside (by simpa using notFollowed) (by simpa using notLeftOut)

/-- Asides are the answer when nothing is requested. -/
theorem Answers.nothing {findings : List GraphFinding}
    (aside : ∀ finding ∈ findings, finding.IsAside) : Answers policy d boundary [] findings :=
  .aside aside (List.forall_mem_nil _) (List.forall_mem_nil _)

/-- A request that is followed is answered by where it leads. -/
theorem Answers.followed {request : Request} {file : Path} {root : Option Path}
    {links : List Link} (follows : policy.Follows d boundary request file root links) :
    Answers policy d boundary [request] [.reached file (root.map d.enteredPackage) links] := by
  refine ⟨fun file' package links' => ⟨fun member => ?_, ?_⟩, fun name => ⟨fun member => ?_, ?_⟩,
    by simp⟩
  · obtain ⟨rfl, rfl, rfl⟩ : file' = file ∧ package = root.map d.enteredPackage ∧
        links' = links := by
      simpa using member
    exact ⟨request, List.mem_singleton_self _, root, follows, rfl⟩
  · rintro ⟨request', inside, root', follows', rfl⟩
    cases List.mem_singleton.mp inside
    cases follows.resolved.symm.trans follows'.resolved
    exact List.mem_singleton_self _
  · simp at member
  · rintro ⟨request', inside, leavesOut, -⟩
    cases List.mem_singleton.mp inside
    exact absurd leavesOut.external (by simp [follows.notExternal])

theorem Answers.toldLeftOut {request : Request} (leavesOut : policy.LeavesOut request) :
    Answers policy d boundary [request] [.leftOut (Reference.packageName request.reference)] := by
  refine ⟨fun file package links => ⟨fun member => ?_, ?_⟩, fun name => ⟨fun member => ?_, ?_⟩,
    by simp⟩
  · simp at member
  · rintro ⟨request', inside, root, follows, -⟩
    cases List.mem_singleton.mp inside
    exact absurd leavesOut.external (by simp [follows.notExternal])
  · cases List.mem_singleton.mp member
    exact ⟨request, List.mem_singleton_self _, leavesOut, rfl⟩
  · rintro ⟨request', inside, -, rfl⟩
    cases List.mem_singleton.mp inside
    exact List.mem_singleton_self _

theorem enter_yields (root : Path) :
    Yields d boundary (enter root) (· = d.enteredPackage root) := by
  refine .bind (.load root) ?_
  rintro answer ⟨fetched, there, related⟩
  refine .pure ?_
  have manifest : d.manifestIn root = fetched := by rw [Disk.manifestIn, there]
  rw [Disk.enteredPackage, Disk.dependenciesOf, manifest]
  cases related with
  | none => rfl
  | some matched => rw [matched]; rfl

/-- Following a request finds where it leads, or that it is left out. -/
theorem follow_yields (reference : String) (requirer : Path) (declared : Bool) :
    Yields d boundary (policy.follow reference requirer declared)
      (Answers policy d boundary [⟨reference, requirer⟩]) := by
  unfold follow
  split
  · rename_i builtin
    have provided (P : Prop) (notBuiltin : Reference.isBuiltin reference = false) : P := by
      simp [builtin] at notBuiltin
    exact .pure
      (.unanswered (List.forall_mem_nil _) (fun _ _ _ follows => provided _ follows.notBuiltin)
      fun leavesOut => provided _ leavesOut.notBuiltin)
  rename_i notBuiltin
  split
  · rename_i external
    exact .pure (.toldLeftOut ⟨by simpa using notBuiltin, external⟩)
  rename_i notExternal
  have notLeftOut : ¬ policy.LeavesOut ⟨reference, requirer⟩ :=
    fun leavesOut => notExternal leavesOut.external
  split
  · rename_i ignored
    refine .pure (.unanswered (List.forall_mem_nil _) (fun _ _ _ follows => ?_) notLeftOut)
    exact absurd follows.notIgnored (by simp [ignored])
  rename_i notIgnored
  refine .bind (Resolution.resolve_alike d _ _ _).observing_yields fun outcome same => ?_
  generalize answered : (Resolution.resolve policy.extensions reference requirer).answer d boundary
    = answer at same
  have unanswered {findings : List GraphFinding} (aside : ∀ finding ∈ findings, finding.IsAside)
      (nowhere : ∀ file package links, answer ≠ .ok (.resolved file package links)) :
      Answers policy d boundary [⟨reference, requirer⟩] findings := by
    refine .unanswered aside (fun file package links follows => ?_) notLeftOut
    exact nowhere file package links (answered.symm.trans follows.resolved)
  cases same with
  | error fault =>
      cases fault with
      | missingDependency name origin =>
          refine .ite (.pure (unanswered ?_ (by simp))) (.throw _)
          exact List.forall_mem_singleton.mpr trivial
      | _ => exact .throw _
  | ok similar =>
      cases similar with
      | tolerated reason reason' =>
          exact .pure (unanswered (List.forall_mem_singleton.mpr trivial) (by simp))
      | same =>
          rename_i resolution
          cases resolution with
          | builtin => exact .pure (unanswered (List.forall_mem_nil _) (by simp))
          | optional reason =>
              exact .pure (unanswered (List.forall_mem_singleton.mpr trivial) (by simp))
          | resolved path package links =>
              have follows : policy.Follows d boundary ⟨reference, requirer⟩ path package links :=
                ⟨by simpa using notBuiltin, by simpa using notExternal, by simpa using notIgnored,
                  answered⟩
              cases package with
              | none => exact .pure (.followed follows)
              | some root =>
                  refine .bind (enter_yields root) ?_
                  rintro _ rfl
                  exact .pure (.followed follows)

/-- What a script says answers the requests of its static references. -/
theorem followFound_yields (file : Path) (found : Script.Reference) :
    Yields d boundary (policy.followFound file found)
      (Answers policy d boundary (found.request? file).toList) := by
  cases found with
  | static reference => exact follow_yields reference file false
  | dynamic expression => exact .pure (.nothing (List.forall_mem_singleton.mpr trivial))

theorem Answers.flatten {file : Path} {references : List Script.Reference}
    {findings : List (List GraphFinding)}
    (each : List.Forall₂ (fun found => Answers policy d boundary (found.request? file).toList)
      references findings) :
    Answers policy d boundary (references.filterMap (Script.Reference.request? file))
      findings.flatten := by
  induction each with
  | nil => exact .nothing (List.forall_mem_nil _)
  | @cons found findings references others first _ ih =>
      rw [Script.Reference.requests_cons, List.flatten_cons]
      exact first.append ih

/-- Findings that tell all about a job: where its requests lead, which are left out, and which file
it went through. -/
structure Tells (policy : GraphPolicy) (d : Disk) (boundary : Option Path) (job : GraphJob)
    (findings : List GraphFinding) : Prop where
  reached : ∀ file package links, .reached file package links ∈ findings ↔
    ∃ request ∈ d.requests job, ∃ root, policy.Follows d boundary request file root links ∧
      package = root.map d.enteredPackage
  leftOut : ∀ name, .leftOut name ∈ findings ↔
    ∃ request ∈ d.requests job, policy.LeavesOut request ∧
      name = Reference.packageName request.reference
  visited : ∀ file, (∃ references dynamic, .visited file references dynamic ∈ findings) ↔
    job = .file file

theorem Answers.tells_declared {package : String} {manifest : Path} {findings : List GraphFinding}
    (answers : Answers policy d boundary [⟨package, manifest⟩] findings) :
    Tells policy d boundary (.declared package manifest) findings := by
  refine ⟨answers.reached, answers.leftOut, fun file => ⟨?_, by simp⟩⟩
  rintro ⟨references, dynamic, member⟩
  exact absurd member (answers.unvisited file references dynamic)

theorem Answers.tells_file {file : Path} {findings : List GraphFinding} {references : List String}
    {dynamic : Bool} (answers : Answers policy d boundary (d.requests (.file file)) findings) :
    Tells policy d boundary (.file file) (findings ++ [.visited file references dynamic]) := by
  refine ⟨fun file package links => ?_, fun name => ?_, fun file' => ⟨?_, ?_⟩⟩
  · rw [← answers.reached]
    simp
  · rw [← answers.leftOut]
    simp
  · rintro ⟨references', dynamic', member⟩
    rcases List.mem_append.mp member with before | last
    · exact absurd before (answers.unvisited _ _ _)
    · cases List.mem_singleton.mp last
      rfl
  · rintro ⟨⟩
    exact ⟨references, dynamic, by simp⟩

theorem followScript_yields {file : Path} {scan : Script.Scan}
    (there : d.referencesIn file = scan.references) :
    Yields d boundary (policy.followScript file scan) (Tells policy d boundary (.file file)) := by
  refine .bind (.mapM _ fun found _ => followFound_yields file found) fun found each => ?_
  have answers := Answers.flatten each
  rw [← there] at answers
  refine .pure (Answers.tells_file ?_)
  split
  · have note : Answers policy d boundary [] [.noted (.staticModuleSyntax file)] :=
      .nothing (List.forall_mem_singleton.mpr trivial)
    exact note.append answers
  · exact answers

/-- Visiting a file tells all about it. -/
theorem visit_yields (file : Path) :
    Yields d boundary (policy.visit file) (Tells policy d boundary (.file file)) := by
  have silent (nothing : d.referencesIn file = []) (asides : List GraphFinding)
      (aside : ∀ finding ∈ asides, finding.IsAside) :
      Tells policy d boundary (.file file) (asides ++ [.visited file [] false]) := by
    refine Answers.tells_file ?_
    rw [Disk.requests, nothing]
    exact .nothing aside
  unfold visit
  split
  · rename_i notScript
    refine .pure (silent ?_ [] (List.forall_mem_nil _))
    simp [Disk.referencesIn, by simpa using notScript]
  · rename_i script
    refine .bind (.askDisk fun bytes read => read) fun bytes read => ?_
    cases scanned : Script.scan (Utf8.decodeLossy bytes) file with
    | ok scan =>
       refine followScript_yields ?_
       simp [Disk.referencesIn, by simpa using script, read, scanned]
    | error fault =>
        cases fault with
        | source path line =>
          refine .ite (.pure (silent ?_ [_] (List.forall_mem_singleton.mpr trivial))) (.throw _)
          simp [Disk.referencesIn, by simpa using script, read, scanned]
        | _ => exact .throw _

end GraphPolicy

/-- Doing a job tells all about it. -/
theorem Traversal.perform_yields {policy : GraphPolicy} {d : Disk} {boundary : Option Path}
    (job : GraphJob) :
    Yields d boundary (Traversal.perform policy job) (policy.Tells d boundary job) := by
  cases job with
  | file path =>
      rw [perform]
      exact GraphPolicy.visit_yields path
  | declared package manifest =>
      rw [perform]
      exact (GraphPolicy.follow_yields package manifest true).mono fun _ => (·.tells_declared)

end FunctionArchive
