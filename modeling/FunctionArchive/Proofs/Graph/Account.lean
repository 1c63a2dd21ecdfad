import FunctionArchive.Proofs.Graph.Buildable

/-!
# What a closure tells about its files

A closure tells of each file that it went through which static references are in it and whether it
computes others, and it warns of every static reference that a package may lack and that is lacking
(`Graph.build_describes`). A file that was not gone through, but came with its package, is told of
as if nothing were in it.
-/

set_option autoImplicit false

namespace FunctionArchive

open Query (Yields)

/-- What a finding tells about a file. -/
def GraphFinding.node? : GraphFinding → Option GraphNode
  | .visited file references dynamic => some ⟨file, false, references, dynamic⟩
  | .reached .. | .leftOut _ | .noted _ => none

/-- What a finding warns of. -/
def GraphFinding.warning? : GraphFinding → Option Warning
  | .noted warning => some warning
  | .visited .. | .reached .. | .leftOut _ => none

theorem GraphFinding.mem_warnings {findings : List GraphFinding} {warning : Warning} :
    warning ∈ findings.filterMap warning? ↔ .noted warning ∈ findings := by
  rw [List.mem_filterMap]
  constructor
  · rintro ⟨finding, found, warns⟩
    cases finding with
    | noted warning =>
        cases warns
        exact found
    | _ => cases warns
  · exact fun found => ⟨_, found, rfl⟩

/-- What is to be told about a file that was gone through. -/
def GraphNode.ofFile (d : Disk) (file : Path) : GraphNode where
  path := file
  references := GraphPolicy.staticReferences (d.referencesIn file)
  dynamic := (d.referencesIn file).any GraphPolicy.isDynamic

/-! ## What a traversal tells -/

namespace Traversal

theorem nodes_meetFile (t : Traversal) (file : Path) :
    (t.meetFile file).graph.nodes = t.graph.nodes := by
  unfold meetFile
  split <;> rfl

theorem nodes_meetPackage (t : Traversal) (package : EnteredPackage) :
    (t.meetPackage package).graph.nodes = t.graph.nodes := by
  unfold meetPackage
  split <;> rfl

/-- A traversal tells about files what it has been told about them. -/
theorem nodes_addAll (t : Traversal) (findings : List GraphFinding) :
    (t.addAll findings).graph.nodes = t.graph.nodes ++ findings.filterMap GraphFinding.node? := by
  induction findings generalizing t with
  | nil => exact (List.append_nil _).symm
  | cons finding others ih =>
      rw [addAll, List.foldl_cons, ← addAll, ih]
      cases finding with
      | visited file references dynamic => simp [add, record, GraphFinding.node?]
      | leftOut name => rfl
      | noted warning => rfl
      | reached file package links =>
          cases package <;>
            simp [add, nodes_meetFile, nodes_meetPackage, record, GraphFinding.node?,
              List.filterMap_cons]

theorem entry_meetFile (t : Traversal) (file : Path) :
    (t.meetFile file).graph.entry = t.graph.entry := by
  unfold meetFile
  split <;> rfl

theorem entry_meetPackage (t : Traversal) (package : EnteredPackage) :
    (t.meetPackage package).graph.entry = t.graph.entry := by
  unfold meetPackage
  split <;> rfl

theorem entry_addAll (t : Traversal) (findings : List GraphFinding) :
    (t.addAll findings).graph.entry = t.graph.entry := by
  induction findings generalizing t with
  | nil => rfl
  | cons finding others ih =>
      rw [addAll, List.foldl_cons, ← addAll, ih]
      cases finding with
      | reached file package links =>
          cases package <;> simp [add, entry_meetFile, entry_meetPackage, record]
      | _ => rfl

theorem warnings_meetFile (t : Traversal) (file : Path) :
    (t.meetFile file).graph.warnings = t.graph.warnings := by
  unfold meetFile
  split <;> rfl

theorem warnings_meetPackage (t : Traversal) (package : EnteredPackage) :
    (t.meetPackage package).graph.warnings = t.graph.warnings := by
  unfold meetPackage
  split <;> rfl

/-- A traversal warns of what it has been warned of. -/
theorem warnings_addAll (t : Traversal) (findings : List GraphFinding) :
    (t.addAll findings).graph.warnings =
      t.graph.warnings ++ findings.filterMap GraphFinding.warning? := by
  induction findings generalizing t with
  | nil => exact (List.append_nil _).symm
  | cons finding others ih =>
      rw [addAll, List.foldl_cons, ← addAll, ih]
      cases finding with
      | visited file references dynamic => rfl
      | leftOut name => rfl
      | noted warning => simp [add, record, GraphFinding.warning?]
      | reached file package links =>
          cases package <;>
            simp [add, warnings_meetFile, warnings_meetPackage, record, GraphFinding.warning?,
              List.filterMap_cons]

end Traversal

/-! ## What jobs tell -/

/-- Only modules of the run time are taken for such. -/
theorem Resolution.resolve_builtin {d : Disk} {limit : Option Path} {extensions : List String}
    (reference : String) (requirer : Path) :
    Query.Yields d limit (resolve extensions reference requirer) fun resolution =>
      resolution = .builtin → Reference.isBuiltin reference = true := by
  have means (path directory : Path) (package : Option Path) :
      Query.Yields d limit
        (do return Resolution.resolved (← realPath path) package (← linksTo directory path))
        fun resolution => resolution = .builtin → Reference.isBuiltin reference = true :=
    .bind (realPath_yields _) fun _ _ => .bind (linksTo_steady d _ _).yields fun _ _ => .pure nofun
  unfold resolve
  split
  · exact .pure fun _ => ‹_›
  refine .ite ?_ ?_
  · refine .bind (normalized_yields _) fun path _ => ?_
    refine .bind (pathFile_steady d _ _).yields ?_
    rintro (_ | found) -
    · exact .throw _
    · exact means found _ none
  · refine .bind (installed_steady d _ _ _).yields ?_
    rintro (_ | found) -
    · refine .bind (tolerance_alike d _ _).yields ?_
      rintro (_ | reason) -
      · exact .throw _
      · exact .pure nofun
    · exact means found.path _ found.package

namespace GraphPolicy

variable (policy : GraphPolicy) (d : Disk) (boundary : Option Path)

/-- A request is lacking, and a package may lack it. -/
structure Tolerates (request : Request) : Prop where
  notBuiltin : Reference.isBuiltin request.reference = false
  notExternal : policy.external.covers request.reference = false
  notIgnored : policy.ignored.covers request.reference = false
  lacking : ∃ reason, (Resolution.resolve policy.extensions request.reference
    request.requirer).answer d boundary = .ok (.optional reason)

/-- Some warnings tell of a request that is lacking. -/
def WarnsOf (warnings : List Warning) (request : Request) : Prop :=
  ∃ reason, .optionalMissing request.reference request.requirer reason ∈ warnings

variable {policy d boundary}

/-- A reference that is looked at and can be answered leads somewhere or may be lacking. -/
theorem Answerable.meets {request : Request}
    (answerable : policy.Answerable d boundary request false)
    (notBuiltin : Reference.isBuiltin request.reference = false)
    (looked : ¬ policy.Skips request.reference) :
    (∃ file package links, policy.Follows d boundary request file package links) ∨
      policy.Tolerates d boundary request := by
  obtain ⟨notExternal, notIgnored⟩ := not_skips_iff.mp looked
  cases answerable with
  | builtin provided => cases notBuiltin.symm.trans provided
  | external covered => exact absurd (.inl covered) looked
  | ignored covered => exact absurd (.inr covered) looked
  | missing lenient => cases lenient
  | @resolved resolution answered =>
      cases resolution with
      | builtin =>
          have provided := (Resolution.resolve_builtin request.reference request.requirer
            (Manifests.faithful_empty boundary d) rfl).value _ answered rfl
          cases notBuiltin.symm.trans provided
      | optional reason => exact .inr ⟨notBuiltin, notExternal, notIgnored, reason, answered⟩
      | resolved file package links =>
          exact .inl ⟨file, package, links, notBuiltin, notExternal, notIgnored, answered⟩

theorem WarnsOf.mono {warnings warnings' : List Warning} {request : Request}
    (warns : WarnsOf warnings request) (more : warnings ⊆ warnings') :
    WarnsOf warnings' request := by
  obtain ⟨reason, member⟩ := warns
  exact ⟨reason, more member⟩

/-- Following a request that is lacking warns of it. -/
theorem follow_warnsOf (reference : String) (requirer : Path) (declared : Bool) :
    Yields d boundary (policy.follow reference requirer declared) fun findings =>
      policy.Tolerates d boundary ⟨reference, requirer⟩ →
        WarnsOf (findings.filterMap GraphFinding.warning?) ⟨reference, requirer⟩ := by
  unfold follow
  split
  · rename_i builtin
    exact .pure fun tolerates => nomatch tolerates.notBuiltin.symm.trans builtin
  split
  · rename_i external
    exact .pure fun tolerates => nomatch tolerates.notExternal.symm.trans external
  split
  · rename_i ignored
    exact .pure fun tolerates => nomatch tolerates.notIgnored.symm.trans ignored
  refine .bind (Resolution.resolve_alike d _ _ _).observing_yields fun outcome same => ?_
  generalize answered : (Resolution.resolve policy.extensions reference requirer).answer d boundary
    = answer at same
  have elsewhere {findings : List GraphFinding} (found : ∀ reason, answer ≠ .ok (.optional reason))
      (tolerates : policy.Tolerates d boundary ⟨reference, requirer⟩) :
      WarnsOf (findings.filterMap GraphFinding.warning?) ⟨reference, requirer⟩ := by
    obtain ⟨reason, lacking⟩ := tolerates.lacking
    exact absurd (answered.symm.trans lacking) (found reason)
  cases same with
  | error fault =>
      cases fault with
      | missingDependency name origin => exact .ite (.pure (elsewhere nofun)) (.throw _)
      | _ => exact .throw _
  | ok similar =>
      cases similar with
      | tolerated reason reason' => exact .pure fun _ => ⟨reason, List.mem_singleton_self _⟩
      | same =>
          rename_i resolution
          cases resolution with
          | builtin => exact .pure (elsewhere nofun)
          | optional reason => exact .pure fun _ => ⟨reason, List.mem_singleton_self _⟩
          | resolved path package links =>
              cases package with
              | none => exact .pure (elsewhere nofun)
              | some root => exact .bind (enter_yields root) fun _ _ => .pure (elsewhere nofun)

/-- Findings of a job that tell of its requests that are lacking, and of its file what is in it. -/
structure Accounts (policy : GraphPolicy) (d : Disk) (boundary : Option Path)
    (requests : List Request) (findings : List GraphFinding) : Prop where
  nodes : ∀ n ∈ findings.filterMap GraphFinding.node?, n = .ofFile d n.path
  warned : ∀ request ∈ requests, policy.Tolerates d boundary request →
    WarnsOf (findings.filterMap GraphFinding.warning?) request

theorem Accounts.append {requests requests' : List Request} {findings findings' : List GraphFinding}
    (first : Accounts policy d boundary requests findings)
    (second : Accounts policy d boundary requests' findings') :
    Accounts policy d boundary (requests ++ requests') (findings ++ findings') := by
  refine ⟨?_, ?_⟩
  · rw [List.filterMap_append]
    exact List.forall_mem_append.mpr ⟨first.nodes, second.nodes⟩
  · rw [List.filterMap_append]
    refine List.forall_mem_append.mpr
      ⟨fun request asked tolerates => ?_, fun request asked tolerates => ?_⟩
    · exact (first.warned request asked tolerates).mono (List.subset_append_left _ _)
    · exact (second.warned request asked tolerates).mono (List.subset_append_right _ _)

/-- Findings that tell about no file account for no request. -/
theorem Accounts.nothing {findings : List GraphFinding}
    (unvisited : findings.filterMap GraphFinding.node? = []) :
    Accounts policy d boundary [] findings :=
  ⟨by simp [unvisited], List.forall_mem_nil _⟩

theorem follow_accounts (reference : String) (requirer : Path) (declared : Bool) :
    Yields d boundary (policy.follow reference requirer declared)
      (Accounts policy d boundary [⟨reference, requirer⟩]) := by
  refine ((follow_yields reference requirer declared).and
    (follow_warnsOf reference requirer declared)).mono fun findings ⟨answers, warns⟩ => ?_
  refine ⟨fun n member => ?_, List.forall_mem_singleton.mpr warns⟩
  obtain ⟨finding, found, told⟩ := List.mem_filterMap.mp member
  cases finding with
  | visited file references dynamic => exact absurd found (answers.unvisited _ _ _)
  | _ => cases told

theorem followFound_accounts (file : Path) (found : Script.Reference) :
    Yields d boundary (policy.followFound file found)
      (Accounts policy d boundary (found.request? file).toList) := by
  cases found with
  | static reference => exact follow_accounts reference file false
  | dynamic expression => exact .pure (.nothing rfl)

theorem Accounts.flatten {file : Path} {references : List Script.Reference}
    {findings : List (List GraphFinding)}
    (each : List.Forall₂ (fun found => Accounts policy d boundary (found.request? file).toList)
      references findings) :
    Accounts policy d boundary (references.filterMap (Script.Reference.request? file))
      findings.flatten := by
  induction each with
  | nil => exact .nothing rfl
  | @cons found findings references others first _ ih =>
      rw [Script.Reference.requests_cons, List.flatten_cons]
      exact first.append ih

/-- Telling of a file what is in it accounts for it. -/
theorem Accounts.visited {file : Path} {requests : List Request} {findings : List GraphFinding}
    (accounts : Accounts policy d boundary requests findings) {references : List Script.Reference}
    (there : d.referencesIn file = references) :
    Accounts policy d boundary requests
      (findings ++ [.visited file (staticReferences references) (references.any isDynamic)]) := by
  refine ⟨?_, ?_⟩
  · rw [List.filterMap_append]
    refine List.forall_mem_append.mpr ⟨accounts.nodes, ?_⟩
    subst there
    exact List.forall_mem_singleton.mpr rfl
  · rw [List.filterMap_append]
    exact fun request asked tolerates =>
      (accounts.warned request asked tolerates).mono (List.subset_append_left _ _)

theorem followScript_accounts {file : Path} {scan : Script.Scan}
    (there : d.referencesIn file = scan.references) :
    Yields d boundary (policy.followScript file scan)
      (Accounts policy d boundary (d.requests (.file file))) := by
  refine .bind (.mapM _ fun found _ => followFound_accounts file found) fun found each => ?_
  have accounts := Accounts.flatten each
  refine .pure (Accounts.visited ?_ there)
  rw [Disk.requests, there]
  split
  · exact (Accounts.nothing rfl).append accounts
  · exact accounts

/-- Visiting a file accounts for it. -/
theorem visit_accounts (file : Path) :
    Yields d boundary (policy.visit file)
      (Accounts policy d boundary (d.requests (.file file))) := by
  have silent (empty : d.referencesIn file = []) {asides : List GraphFinding}
      (unvisited : asides.filterMap GraphFinding.node? = []) :
      Accounts policy d boundary (d.requests (.file file))
        (asides ++ [.visited file [] false]) := by
    have none : d.requests (.file file) = [] := by simp [Disk.requests, empty]
    have sorted : staticReferences [] = [] := by cbv
    have accounts := (@Accounts.nothing policy d boundary _ unvisited).visited empty
    rw [sorted] at accounts
    rw [none]
    exact accounts
  unfold visit
  split
  · rename_i notScript
    refine .pure (@silent ?_ [] rfl)
    simp [Disk.referencesIn, by simpa using notScript]
  · rename_i script
    refine .bind (.askDisk fun bytes read => read) fun bytes read => ?_
    cases scanned : Script.scan (Utf8.decodeLossy bytes) file with
    | ok scan =>
        refine followScript_accounts ?_
        simp [Disk.referencesIn, by simpa using script, read, scanned]
    | error fault =>
        cases fault with
        | source path line =>
            refine .ite (.pure (@silent ?_ [_] rfl)) (.throw _)
            simp [Disk.referencesIn, by simpa using script, read, scanned]
        | _ => exact .throw _

end GraphPolicy

namespace Traversal

variable {policy : GraphPolicy} {d : Disk} {boundary : Option Path} {start : Path}
  {t rest : Traversal} {job : GraphJob} {findings : List GraphFinding}

/-- Doing a job accounts for it. -/
theorem perform_accounts (job : GraphJob) :
    Yields d boundary (perform policy job) (policy.Accounts d boundary (d.requests job)) := by
  cases job with
  | file path =>
      rw [perform]
      exact GraphPolicy.visit_accounts path
  | declared package manifest =>
      rw [perform]
      exact GraphPolicy.follow_accounts package manifest true

/-! ## The whole run -/

/-- A traversal that tells of each file what is in it and warns of what is lacking there. -/
structure Describes (policy : GraphPolicy) (d : Disk) (boundary : Option Path) (start : Path)
    (t : Traversal) : Prop where
  entry : t.graph.entry = start
  nodes : ∀ n ∈ t.graph.nodes, n = .ofFile d n.path
  warned : ∀ file ∈ t.graph.files, ∀ request ∈ d.requests (.file file),
    policy.Tolerates d boundary request → GraphPolicy.WarnsOf t.graph.warnings request

theorem describes_begin (start : Path) :
    Describes policy d boundary start ((begin d start).meetFile start) := by
  have nothing : ((begin d start).meetFile start).graph.nodes = [] := nodes_meetFile _ _
  exact ⟨entry_meetFile _ _, by simp [nothing], by simp [Graph.files, nothing]⟩

/-- A job that is accounted for keeps a traversal telling what there is. -/
theorem Describes.step (describes : Describes policy d boundary start t)
    (next : t.next? = some (job, rest)) (tells : policy.Tells d boundary job findings)
    (accounts : policy.Accounts d boundary (d.requests job) findings) :
    Describes policy d boundary start (rest.addAll findings) := by
  have same : rest.graph = t.graph := by
    rcases next?_eq_some next with ⟨_, _, -, -, rfl⟩ | ⟨_, _, _, -, -, -, rfl⟩ <;> rfl
  refine ⟨?_, ?_, fun file noted request asked tolerates => ?_⟩
  · rw [entry_addAll, same]
    exact describes.entry
  · rw [nodes_addAll, same]
    exact List.forall_mem_append.mpr ⟨describes.nodes, accounts.nodes⟩
  · rw [warnings_addAll, same]
    rw [Graph.files, nodes_addAll, same, List.map_append] at noted
    rcases List.mem_append.mp noted with before | now
    · exact (describes.warned file before request asked tolerates).mono
        (List.subset_append_left _ _)
    · obtain ⟨n, told, rfl⟩ := List.mem_map.mp now
      obtain ⟨finding, found, isNode⟩ := List.mem_filterMap.mp told
      cases finding with
      | visited file references dynamic =>
          cases isNode
          cases (tells.visited file).mp ⟨references, dynamic, found⟩
          exact (accounts.warned request asked tolerates).mono (List.subset_append_right _ _)
      | _ => cases isNode

theorem Describes.drain (describes : Describes policy d boundary start t) :
    Yields d boundary (Traversal.drain policy t) (Describes policy d boundary start) := by
  refine (drain_yields (fun t job rest describes next => ?_) describes).mono fun _ ended => ended.1
  exact ((perform_yields job).and (perform_accounts job)).mono fun _ ⟨tells, accounts⟩ =>
    describes.step next tells accounts

end Traversal

/-! ## What a closure tells -/

namespace Graph

/-- A closure to which some files were added of which nothing is told. -/
structure Pads (g g' : Graph) : Prop where
  entry : g'.entry = g.entry
  files : g.files ⊆ g'.files
  nodes : ∀ n ∈ g'.nodes, n ∈ g.nodes ∨ n.path ∉ g.files ∧ n = { path := n.path }

theorem Pads.refl (g : Graph) : Pads g g := ⟨rfl, fun _ => id, fun _ => .inl⟩

theorem Pads.insert {g g' : Graph} (pads : Pads g g') (path : Path) : Pads g (g'.insert path) := by
  unfold Graph.insert
  split
  · exact pads
  · rename_i absent
    have notThere : path ∉ g'.files := by simpa [contains, Graph.files] using absent
    refine ⟨pads.entry, fun file there => ?_, fun n member => ?_⟩
    · rw [Graph.files, List.map_append]
      exact List.mem_append_left _ (pads.files there)
    · rcases List.mem_append.mp member with before | last
      · exact pads.nodes n before
      · cases List.mem_singleton.mp last
        exact .inr ⟨fun there => notThere (pads.files there), rfl⟩

theorem Pads.foldl_insert {g g' : Graph} (pads : Pads g g') (paths : List Path) :
    Pads g (paths.foldl Graph.insert g') := by
  induction paths generalizing g' with
  | nil => exact pads
  | cons path rest ih => exact ih (pads.insert path)

end Graph

namespace GraphPolicy

variable {policy : GraphPolicy} {d : Disk} {boundary : Option Path} {g g' : Graph}

theorem addBeside_pads (pads : g.Pads g') (root : Path) (beside : String) :
    Yields d boundary (policy.addBeside root g' beside) g.Pads := by
  refine .bind (Resolution.normalized_yields _) fun directory _ => ?_
  refine .bind (.test _) fun there _ => ?_
  refine .ite ?_ (.pure pads)
  exact .bind (packageFiles_yields _ _) fun files _ => .pure (pads.foldl_insert files)

theorem addPackage_pads (pads : g.Pads g') (root : Path) :
    Yields d boundary (policy.addPackage g' root) g.Pads := by
  refine .bind (.load root) fun manifest _ => ?_
  refine .bind (.ask fun _ _ => trivial) fun exclusion _ => ?_
  refine .bind (packageFiles_yields _ _) fun files _ => ?_
  exact .foldlM_keeps _ (fun _ padded beside _ => addBeside_pads padded root beside)
    (pads.foldl_insert files)

theorem addPackages_pads (g : Graph) : Yields d boundary (policy.addPackages g) g.Pads :=
  .foldlM_keeps _ (fun _ padded root _ => addPackage_pads padded root) (.refl g)

end GraphPolicy

namespace Graph

variable {policy : GraphPolicy} {d : Disk} {boundary : Option Path}

/-- What a closure tells about its files. -/
structure Describes (policy : GraphPolicy) (d : Disk) (boundary : Option Path) (start : Path)
    (g : Graph) : Prop where
  /-- Of a file that was gone through, what is in it. -/
  visited : ∀ n ∈ g.nodes, policy.InClosure d boundary start (.file n.path) →
    n = { GraphNode.ofFile d n.path with isEntry := n.path == start }
  /-- Of a file that came with its package, nothing. -/
  unvisited : ∀ n ∈ g.nodes, ¬ policy.InClosure d boundary start (.file n.path) →
    n = { path := n.path }
  warned : ∀ file reference, policy.InClosure d boundary start (.file file) →
    .static reference ∈ d.referencesIn file → policy.Tolerates d boundary ⟨reference, file⟩ →
      GraphPolicy.WarnsOf g.warnings ⟨reference, file⟩

/-- The closure to which a traversal leads tells what the traversal tells. -/
theorem describes_finish {start : Path} {t : Traversal} {g : Graph}
    (told : t.Describes policy d boundary start)
    (exact : Traversal.Exact policy d boundary start t.graph) (pads : t.graph.Pads g)
    (warnings : g.warnings = t.graph.warnings) :
    Describes policy d boundary start g.sorted.markEntry := by
  have marked {n : GraphNode} (member : n ∈ g.sorted.markEntry.nodes) :
      ∃ n' ∈ g.nodes, n = { n' with isEntry := n'.path == start } := by
    obtain ⟨n', sorted, rfl⟩ := List.mem_map.mp member
    have isEntry : g.sorted.entry = start := pads.entry.trans told.entry
    exact ⟨n', List.mem_mergeSort.mp sorted, by rw [isEntry]⟩
  refine ⟨fun n member inside => ?_, fun n member outside => ?_,
    fun file reference inside found tolerates => ?_⟩
  · obtain ⟨n', there, rfl⟩ := marked member
    have visited : n' ∈ t.graph.nodes :=
      (pads.nodes n' there).resolve_right fun padded => padded.1 ((exact.files _).mpr inside)
    conv_lhs => rw [told.nodes n' visited]
    rfl
  · obtain ⟨n', there, rfl⟩ := marked member
    have unvisited : n' ∉ t.graph.nodes := fun visited =>
      outside ((exact.files n'.path).mp (List.mem_map.mpr ⟨n', visited, rfl⟩))
    have notStart : (n'.path == start) = false := by
      refine beq_false_of_ne fun isStart => outside ?_
      show policy.InClosure d boundary start (.file n'.path)
      rw [isStart]
      exact .start
    rw [notStart, ((pads.nodes n' there).resolve_left unvisited).2]
  · have asked : ⟨reference, file⟩ ∈ d.requests (.file file) :=
      List.mem_filterMap.mpr ⟨_, found, rfl⟩
    have warned := told.warned file ((exact.files file).mpr inside) _ asked tolerates
    exact warned.mono (warnings ▸ List.Subset.refl _)

/-- A closure tells what is in its files, and warns of what is lacking there. -/
theorem build_describes (entry : Path) :
    Yields d boundary (build policy entry) fun g =>
      ∃ start, d.realPath entry = .ok start ∧ Describes policy d boundary start g := by
  refine .bind (.askDisk fun start found => found) fun start found => ?_
  refine .bind .read ?_
  rintro _ rfl
  have onTrack : Traversal.OnTrack policy _ boundary start _ :=
    Traversal.onTrack_begin (Disk.realPath_mem_allPaths found)
  refine .bind (.bind (onTrack.drain.and (Traversal.describes_begin start).drain)
    fun last ended => ?_) fun g finished => .pure ⟨start, found, finished⟩
  obtain ⟨⟨ended, done⟩, describes⟩ := ended
  refine .bind ((GraphPolicy.addPackages_pads last.graph).and
    (GraphPolicy.addPackages_yields last.graph)) fun g added => .pure ?_
  exact describes_finish describes (ended.exact done) added.1 added.2.warnings

end Graph

end FunctionArchive
