import FunctionArchive.Proofs.Graph.Exactness
import FunctionArchive.Proofs.Manifest.Failure

/-!
# When jobs succeed

What a traversal goes through is in order when each job comes to an end: a file can be scanned and
its references be followed, a package be entered and listed. A job that came to an end was in order
(`perform_doable`), and in a closure that is in order no job fails (`OnTrack.drain_succeeds`).

A declared dependency may be missing. That is all the leniency there is for it: once it is found,
it has to be in order like what the script itself requires.
-/

set_option autoImplicit false

namespace FunctionArchive

open Query (Yields Fails Succeeds)

/-- Scanning a script fails only because the parser refuses it. -/
theorem Script.scan_fault {text : String} {path : Path} {fault : Fault}
    (failed : Script.scan text path = .error fault) : ∃ line, fault = .source path line := by
  delta Script.scan at failed
  dsimp only at failed
  split at failed
  · cases failed
  · cases failed
    exact ⟨_, rfl⟩

/-- A script is scanned in the same way under a name with the same ending. -/
theorem Script.scan_alike (text : String) {p q : Path} (same : Dialect.ofPath p = .ofPath q) :
    (∃ scan, Script.scan text p = .ok scan ∧ Script.scan text q = .ok scan) ∨
      ∃ line, Script.scan text p = .error (.source p line) ∧
        Script.scan text q = .error (.source q line) := by
  delta Script.scan
  dsimp only
  rw [same]
  split
  · exact .inl ⟨_, rfl, rfl⟩
  · exact .inr ⟨_, rfl, rfl⟩

theorem Script.scan_ok {text : String} {p q : Path} {scan : Script.Scan}
    (scanned : Script.scan text p = .ok scan) (same : Dialect.ofPath p = .ofPath q) :
    Script.scan text q = .ok scan := by
  rcases scan_alike text same with ⟨scan', first, second⟩ | ⟨line, first, -⟩
  · cases scanned.symm.trans first
    exact second
  · cases scanned.symm.trans first

/-! ## What is in order -/

/-- A file can be scanned: it is no script, or a script that can be read and parsed. That of an
installed package need not be parsed. -/
def Disk.Scans (d : Disk) (file : Path) : Prop :=
  Script.isScript file = true → ∃ bytes, d.read file = .ok bytes ∧
    ((∃ scan, Script.scan (Utf8.decodeLossy bytes) file = .ok scan) ∨ file.isInstalled = true)

namespace GraphPolicy

variable (policy : GraphPolicy) (d : Disk) (boundary : Option Path)

/-- Following a request comes to an end: it need not be resolved, or resolving it has an answer. A
declared dependency may be missing. -/
inductive Answerable (request : Request) (declared : Bool) : Prop
  | builtin (provided : Reference.isBuiltin request.reference = true)
  | external (covered : policy.external.covers request.reference = true)
  | ignored (covered : policy.ignored.covers request.reference = true)
  | resolved {resolution : Resolution}
      (answered : (Resolution.resolve policy.extensions request.reference request.requirer).answer d
        boundary = .ok resolution)
  | missing {reference : String} {requirer : Path} (lenient : declared = true)
      (answered : (Resolution.resolve policy.extensions request.reference request.requirer).answer d
        boundary = .error (.missingDependency reference requirer))

/-- A file can be scanned and all its static references be followed. -/
structure Visitable (file : Path) : Prop where
  scans : d.Scans file
  references : ∀ reference, .static reference ∈ d.referencesIn file →
    policy.Answerable d boundary ⟨reference, file⟩ false

/-- The files of a package can be listed, and those of the directories that it needs beside it. -/
structure Listable (d : Disk) (root : Path) : Prop where
  own : ∃ found, d.filesBelow (· == Resolution.packagesName) root = .ok found
  beside : ∀ name ∈ Package.neededBeside (knownName d root) (knownVersion d root),
    d.isDirectory (Path.normalize d.current (root.child name)) = true →
      ∃ found, d.filesBelow (· == Resolution.packagesName)
        (Path.normalize d.current (root.child name)) = .ok found

/-- The dependencies that a package declares can be followed or are missing. -/
def Declarable (root : Path) : Prop :=
  ∀ dependency ∈ d.dependenciesOf root,
    policy.Answerable d boundary ⟨dependency, root.child Manifest.fileName⟩ true

/-- A package can be entered and gone through. -/
structure Enterable (root : Path) : Prop where
  loads : d.LoadsManifest root
  declarable : policy.Declarable d boundary root
  listable : Listable d root

/-- A piece of a closure stands in the way of nothing. -/
def InOrder : Piece → Prop
  | .file path => policy.Visitable d boundary path
  | .package root => policy.Enterable d boundary root
  | .request _ => True

/-- What a job has to go through is in order. -/
def Doable : GraphJob → Prop
  | .file path => policy.Visitable d boundary path
  | .declared package manifest => policy.Answerable d boundary ⟨package, manifest⟩ true

variable {policy d boundary}

/-! ## Following and visiting -/

theorem enter_succeeds {root : Path} (loads : d.LoadsManifest root) :
    Succeeds d boundary (enter root) := by
  obtain ⟨manifest, there⟩ := loads
  refine .bind (.load fun fault failed => ?_) (.load root) fun _ _ => .pure _
  cases there.symm.trans failed

theorem follow_answerable (reference : String) (requirer : Path) (declared : Bool) :
    Yields d boundary (policy.follow reference requirer declared) fun _ =>
      policy.Answerable d boundary ⟨reference, requirer⟩ declared := by
  unfold follow
  split
  · exact .pure (.builtin ‹_›)
  split
  · exact .pure (.external ‹_›)
  split
  · exact .pure (.ignored ‹_›)
  refine .bind (Resolution.resolve_alike d _ _ _).observing_yields fun outcome same => ?_
  generalize answered : (Resolution.resolve policy.extensions reference requirer).answer d boundary
    = answer at same
  cases same with
  | error fault =>
      cases fault with
      | missingDependency name origin =>
          cases declared with
          | false => exact .throw _
          | true => exact .pure (.missing rfl answered)
      | _ => exact .throw _
  | ok similar =>
      have resolved : policy.Answerable d boundary ⟨reference, requirer⟩ declared :=
        .resolved answered
      cases similar with
      | tolerated reason reason' => exact .pure resolved
      | same =>
          rename_i resolution
          cases resolution with
          | builtin => exact .pure resolved
          | optional reason => exact .pure resolved
          | resolved path package links =>
              cases package with
              | none => exact .pure resolved
              | some root => exact .bind (enter_yields root) fun _ _ => .pure resolved

/-- A request that is answerable is followed without a fault, if the package that it enters can be
entered. -/
theorem follow_succeeds {reference : String} {requirer : Path} {declared : Bool}
    (answerable : policy.Answerable d boundary ⟨reference, requirer⟩ declared)
    (loads : ∀ file root links,
      policy.Follows d boundary ⟨reference, requirer⟩ file (some root) links →
        d.LoadsManifest root) :
    Succeeds d boundary (policy.follow reference requirer declared) := by
  unfold follow
  split
  · exact .pure _
  rename_i notBuiltin
  split
  · exact .pure _
  rename_i notExternal
  split
  · exact .pure _
  rename_i notIgnored
  refine .bind (.observe _) (Resolution.resolve_alike d _ _ _).observing_yields
    fun outcome same => ?_
  generalize answered : (Resolution.resolve policy.extensions reference requirer).answer d boundary
    = answer at same
  cases same with
  | error fault =>
      cases answerable with
      | builtin provided => exact absurd provided notBuiltin
      | external covered => exact absurd covered notExternal
      | ignored covered => exact absurd covered notIgnored
      | resolved answered' => cases answered.symm.trans answered'
      | missing lenient answered' =>
          cases answered.symm.trans answered'
          exact .ite (fun _ => .pure _) fun strict => absurd lenient strict
  | ok similar =>
      cases similar with
      | tolerated reason reason' => exact .pure _
      | same =>
          rename_i resolution
          cases resolution with
          | builtin => exact .pure _
          | optional reason => exact .pure _
          | resolved path package links =>
              cases package with
              | none => exact .pure _
              | some root =>
                  have follows : policy.Follows d boundary ⟨reference, requirer⟩ path (some root)
                      links :=
                    ⟨by simpa using notBuiltin, by simpa using notExternal,
                      by simpa using notIgnored, answered⟩
                  exact .bind (enter_succeeds (loads path root links follows)) (enter_yields root)
                    fun _ _ => .pure _

theorem followFound_answerable (file : Path) (found : Script.Reference) :
    Yields d boundary (policy.followFound file found) fun _ =>
      ∀ request, found.request? file = some request →
        policy.Answerable d boundary request false := by
  cases found with
  | static reference =>
      refine (follow_answerable reference file false).mono ?_
      rintro _ answerable _ ⟨⟩
      exact answerable
  | dynamic expression => exact .pure nofun

/-- What visiting a file has gone through was in order. -/
theorem visit_visitable (file : Path) :
    Yields d boundary (policy.visit file) fun _ => policy.Visitable d boundary file := by
  unfold visit
  split
  · rename_i notScript
    have plain : Script.isScript file = false := by simpa using notScript
    refine .pure ⟨fun script => ?_, fun reference found => ?_⟩
    · cases plain.symm.trans script
    · simp [Disk.referencesIn, plain] at found
  · rename_i script
    refine .bind (.askDisk fun bytes read => read) fun bytes read => ?_
    cases scanned : Script.scan (Utf8.decodeLossy bytes) file with
    | ok scan =>
        have there : d.referencesIn file = scan.references := by
          simp [Disk.referencesIn, by simpa using script, read, scanned]
        refine .bind (.mapM_each _ fun found _ => followFound_answerable file found)
          fun findings each => .pure ⟨fun _ => ?_, fun reference found => ?_⟩
        · exact ⟨bytes, read, .inl ⟨scan, scanned⟩⟩
        · rw [there] at found
          exact each _ found _ rfl
    | error fault =>
        cases fault with
        | source path line =>
            dsimp only
            split
            · rename_i installed
              refine .pure ⟨fun _ => ⟨bytes, read, .inr installed⟩, fun reference found => ?_⟩
              simp [Disk.referencesIn, read, scanned] at found
            · exact .throw _
        | _ => exact .throw _

/-- A file that is in order is visited without a fault, if the packages that it enters can be
entered. -/
theorem visit_succeeds {file : Path} (visitable : policy.Visitable d boundary file)
    (loads : ∀ reference, .static reference ∈ d.referencesIn file → ∀ target root links,
      policy.Follows d boundary ⟨reference, file⟩ target (some root) links →
        d.LoadsManifest root) :
    Succeeds d boundary (policy.visit file) := by
  unfold visit
  split
  · exact .pure _
  · rename_i isScript
    have script : Script.isScript file = true := by simpa using isScript
    obtain ⟨bytes, read, scans⟩ := visitable.scans script
    refine .bind (.askDisk fun cause refused => ?_) (.askDisk fun bytes' read' => read')
      fun bytes' read' => ?_
    · cases read.symm.trans refused
    cases read.symm.trans read'
    cases scanned : Script.scan (Utf8.decodeLossy bytes) file with
    | ok scan =>
        have there : d.referencesIn file = scan.references := by
          simp [Disk.referencesIn, script, read, scanned]
        refine .bind (.mapM _ (fun found _ => followFound_yields file found) fun found member => ?_)
          (.mapM _ fun found _ => followFound_yields file found) fun _ _ => .pure _
        cases found with
        | static reference =>
            rw [← there] at member
            exact follow_succeeds (visitable.references reference member) (loads reference member)
        | dynamic expression => exact .pure _
    | error fault =>
        cases fault with
        | source path line =>
            refine .ite (fun _ => .pure _) fun notInstalled => ?_
            rcases scans with ⟨scan, scanned'⟩ | installed
            · cases scanned.symm.trans scanned'
            · exact absurd installed notInstalled
        | _ => cases (Script.scan_fault scanned).choose_spec

theorem Answerable.relax {request : Request}
    (answerable : policy.Answerable d boundary request false) :
    policy.Answerable d boundary request true := by
  cases answerable with
  | builtin provided => exact .builtin provided
  | external covered => exact .external covered
  | ignored covered => exact .ignored covered
  | resolved answered => exact .resolved answered
  | missing lenient _ => cases lenient

end GraphPolicy

/-! ## The whole run -/

namespace Traversal

variable {policy : GraphPolicy} {d : Disk} {boundary : Option Path} {start : Path}
  {t rest : Traversal} {job : GraphJob} {findings : List GraphFinding}

theorem perform_doable (job : GraphJob) :
    Yields d boundary (perform policy job) fun _ => policy.Doable d boundary job := by
  cases job with
  | file path =>
      rw [perform]
      exact GraphPolicy.visit_visitable path
  | declared package manifest =>
      rw [perform]
      exact GraphPolicy.follow_answerable package manifest true

variable (policy d boundary)

/-- What a traversal has noted was in order, apart from declared dependencies that are still to be
followed. -/
structure Cleared (t : Traversal) : Prop where
  files : ∀ file ∈ t.graph.files, policy.Visitable d boundary file
  declared : ∀ root ∈ t.graph.packages, ∀ dependency ∈ d.dependenciesOf root,
    (dependency, root.child Manifest.fileName) ∈ t.declared ∨
      policy.Answerable d boundary ⟨dependency, root.child Manifest.fileName⟩ true

variable {policy d boundary}

theorem Cleared.meetFile (cleared : Cleared policy d boundary t) (file : Path) :
    Cleared policy d boundary (t.meetFile file) := by
  unfold Traversal.meetFile
  split
  · exact { cleared with }
  · exact cleared

theorem Cleared.meetPackage (cleared : Cleared policy d boundary t) (root : Path) :
    Cleared policy d boundary (t.meetPackage (d.enteredPackage root)) := by
  unfold Traversal.meetPackage
  split
  · refine { cleared with declared := fun root' noted dependency declares => ?_ }
    rcases List.mem_append.mp noted with before | last
    · exact (cleared.declared root' before dependency declares).imp_left
        (List.mem_append_left _)
    · cases List.mem_singleton.mp last
      exact .inl (List.mem_append_right _ (List.mem_map.mpr ⟨dependency, declares, rfl⟩))
  · exact cleared

theorem Cleared.add (cleared : Cleared policy d boundary t) {finding : GraphFinding}
    (fits : Fits d (some job) finding) (doable : policy.Doable d boundary job) :
    Cleared policy d boundary (t.add finding) := by
  cases finding with
  | visited file references dynamic =>
      cases fits
      refine { cleared with files := fun file' noted => ?_ }
      rw [files_add_visited] at noted
      rcases List.mem_append.mp noted with before | last
      · exact cleared.files file' before
      · cases List.mem_singleton.mp last
        exact doable
  | leftOut name => exact { cleared with }
  | noted warning => exact { cleared with }
  | reached file package links =>
      obtain ⟨root, rfl⟩ := fits
      have linked : Cleared policy d boundary (t.crossing links) := { cleared with }
      cases root with
      | none => exact linked.meetFile file
      | some root => exact (linked.meetPackage root).meetFile file

theorem Cleared.addAll (cleared : Cleared policy d boundary t)
    (fits : ∀ finding ∈ findings, Fits d (some job) finding)
    (doable : policy.Doable d boundary job) : Cleared policy d boundary (t.addAll findings) := by
  induction findings generalizing t with
  | nil => exact cleared
  | cons finding others ih =>
      exact ih (cleared.add (fits finding List.mem_cons_self) doable)
        fun other member => fits other (List.mem_cons_of_mem _ member)

/-- A job that is known to be doable may be taken up. -/
theorem Cleared.next (cleared : Cleared policy d boundary t) (next : t.next? = some (job, rest))
    (doable : policy.Doable d boundary job) : Cleared policy d boundary rest := by
  rcases next?_eq_some next with ⟨file, files, -, -, rfl⟩ |
    ⟨package, manifest, declared, -, split, rfl, rfl⟩
  · exact { cleared with }
  · refine { cleared with declared := fun root noted dependency declares => ?_ }
    rcases cleared.declared root noted dependency declares with waiting | answerable
    · rw [split] at waiting
      rcases List.mem_cons.mp waiting with first | later
      · cases first
        exact .inr doable
      · exact .inl later
    · exact .inr answerable

/-- When all jobs are done, everything that was noted was in order. -/
theorem Cleared.drain (cleared : Cleared policy d boundary t) :
    Yields d boundary (Traversal.drain policy t) fun last =>
      Cleared policy d boundary last ∧ last.next? = none :=
  drain_yields (fun _ job _ cleared next =>
    ((perform_yields job).and (perform_doable job)).mono fun _ told =>
      (cleared.next next told.2).addAll (fits_of_tells told.1) told.2) cleared

theorem cleared_begin : Cleared policy d boundary ((begin d start).meetFile start) := by
  have nothing : Cleared policy d boundary (begin d start) :=
    ⟨fun _ noted => absurd noted List.not_mem_nil, fun _ noted => absurd noted List.not_mem_nil⟩
  exact nothing.meetFile start

/-- Doing all jobs fails only as one of them does. -/
theorem drain_fails {keeps : Traversal → Prop} {bad : Fault → Prop}
    (step : ∀ t job rest, keeps t → t.next? = some (job, rest) →
      Yields d boundary (perform policy job) fun findings => keeps (rest.addAll findings))
    (fails : ∀ t job rest, keeps t → t.next? = some (job, rest) →
      Fails d boundary (perform policy job) bad) (begins : keeps t) :
    Fails d boundary (drain policy t) bad := by
  fun_induction Traversal.drain policy t with
  | case1 t done => exact .pure _
  | case2 t job rest next ih =>
      exact .bind (fails t job rest begins next) (step t job rest begins next) ih

end Traversal

namespace GraphPolicy

variable {policy : GraphPolicy} {d : Disk} {boundary : Option Path} {start : Path}

/-- What is asked for in a closure that is in order can be followed. -/
theorem answerable_of_inClosure
    (inOrder : ∀ piece, policy.InClosure d boundary start piece → policy.InOrder d boundary piece)
    {request : Request} (inside : policy.InClosure d boundary start (.request request)) :
    policy.Answerable d boundary request true := by
  cases inside with
  | refers inside found => exact ((inOrder _ inside).references _ found).relax
  | declares inside declared => exact (inOrder _ inside).declarable _ declared

theorem loads_of_follows
    (inOrder : ∀ piece, policy.InClosure d boundary start piece → policy.InOrder d boundary piece)
    {request : Request} (inside : policy.InClosure d boundary start (.request request))
    (file root : Path) (links : List Link)
    (follows : policy.Follows d boundary request file (some root) links) : d.LoadsManifest root :=
  (inOrder _ (.enters inside follows)).loads

end GraphPolicy

namespace Traversal

variable {policy : GraphPolicy} {d : Disk} {boundary : Option Path} {start : Path}
  {t rest : Traversal} {job : GraphJob}

/-- In a closure that is in order no job fails. -/
theorem OnTrack.perform_succeeds
    (inOrder : ∀ piece, policy.InClosure d boundary start piece → policy.InOrder d boundary piece)
    (onTrack : OnTrack policy d boundary start t) (next : t.next? = some (job, rest)) :
    Succeeds d boundary (perform policy job) := by
  obtain ⟨-, sanctioned⟩ := onTrack.sound.next next
  cases job with
  | file path =>
      have inside := sanctioned.file path rfl
      rw [perform]
      exact GraphPolicy.visit_succeeds (inOrder _ inside) fun reference found =>
        GraphPolicy.loads_of_follows inOrder (.refers inside found)
  | declared package manifest =>
      have inside := sanctioned.requests _ (List.mem_singleton_self _)
      rw [perform]
      exact GraphPolicy.follow_succeeds (GraphPolicy.answerable_of_inClosure inOrder inside)
        (GraphPolicy.loads_of_follows inOrder inside)

theorem OnTrack.drain_succeeds
    (inOrder : ∀ piece, policy.InClosure d boundary start piece → policy.InOrder d boundary piece)
    (onTrack : OnTrack policy d boundary start t) :
    Succeeds d boundary (Traversal.drain policy t) :=
  drain_fails (fun _ job _ onTrack next =>
      (perform_yields job).mono fun _ tells => onTrack.step next tells)
    (fun _ _ _ onTrack next => onTrack.perform_succeeds inOrder next) onTrack

end Traversal

end FunctionArchive
