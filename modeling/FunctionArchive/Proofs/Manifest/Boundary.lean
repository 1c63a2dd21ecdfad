import FunctionArchive.Proofs.Disk.Staging
import FunctionArchive.Proofs.Disk.Straight
import FunctionArchive.Proofs.Manifest.Knowledge
import FunctionArchive.Resolution
import FunctionArchive.Strategy
import Mathlib

/-!
# How far up a manifest is looked for

A search for a manifest goes through the directories above its start until it comes to one that is
spelled like the boundary (`Manifests.searched`). What it finds stands in one of these directories
(`Manifests.Faithful.found_searched`), and nothing but the manifests in them matters to it
(`Manifests.run_findIn_congr`).

From a start that is spelled by its real path the directories above are real paths too. So a
boundary by its real path ends the search where it should, and a boundary that leads to the same
directory in another way, through a link or a step upwards, does not end it at all
(`Manifests.find_confined`).

The whole of Mathlib is imported for the examples at the end: `cbv` evaluates them with equations of
library functions, such as `List.lookup`, that Mathlib declares.
-/

set_option autoImplicit false

namespace FunctionArchive

/-! ## Directories by other spellings -/

/-- The directories above a directory that is spelled by its real path are spelled by theirs. -/
theorem Disk.Enters.of_ancestor {d : Disk} {p q : Path} {real : List String}
    (enters : d.Enters p real) (spelled : p.same (.ofNames real) = true)
    (above : q ∈ p.ancestors) :
    q.same (.ofNames q.components) = true ∧ d.Enters q q.components := by
  obtain ⟨entries, leads⟩ := enters
  have down : LeadsDown real := leads.leadsDown (List.forall_mem_nil _)
  have there : d.root.at? real = some (.directory entries) := leads.at?_names
  obtain ⟨absolute, components⟩ := Path.same_iff.mp spelled
  obtain ⟨isAbsolute, rest, split⟩ := Path.mem_ancestors_prefix absolute above
  rw [components, down.components_eq] at split
  rw [← split] at down there
  obtain ⟨outer, directory⟩ := Node.exists_directory_of_append there
  have down' : LeadsDown q.components := down.of_append_left
  have same : q.same (.ofNames q.components) = true :=
    Path.same_iff.mpr ⟨isAbsolute, down'.components_eq.symm⟩
  refine ⟨same, (enters_of_same same).mpr ⟨outer, leads_of_at? directory down' ?_⟩⟩
  intro target isLink
  cases isLink

/-! ## The directories of a search -/

namespace Manifests

variable {d d' : Disk} {known later : Manifests} {directories : List Path} {limit : Option Path}
  {boundary start here : Path} {m : Manifest}

/-- The directories into which a search looks at most: those up to the limit. -/
def searched (limit : Option Path) : List Path → List Path
  | [] => []
  | directory :: rest =>
    directory :: if limit.any (·.same directory) then [] else searched limit rest

theorem searched_subset (limit : Option Path) (directories : List Path) :
    searched limit directories ⊆ directories := by
  induction directories with
  | nil => exact List.Subset.refl _
  | cons directory rest ih =>
      rw [searched]
      split
      · simp
      · exact List.cons_subset_cons _ ih

/-- The directory above one that lies within the limit, but is not the limit, lies within it. -/
theorem isWithin_of_parent? {above : Path} (absolute : here.absolute = true)
    (within : here.isWithin boundary = true) (below : boundary.same here = false)
    (up : here.parent? = some above) : above.isWithin boundary = true := by
  obtain ⟨sameRoot, rest, split⟩ := (Path.isWithin_iff _ _).mp within
  obtain ⟨absolute', name, components⟩ := Path.components_of_parent? absolute up
  refine (Path.isWithin_iff _ _).mpr ⟨by rw [absolute', ← sameRoot, absolute], ?_⟩
  rcases List.eq_nil_or_concat rest with rfl | ⟨front, last, rfl⟩
  · rw [List.append_nil] at split
    have same : boundary.same here = true := Path.same_iff.mpr ⟨sameRoot.symm, split⟩
    rw [below] at same
    cases same
  · rw [components, List.concat_eq_append, ← List.append_assoc] at split
    exact ⟨front, (List.append_inj' split rfl).1⟩

/-- A search that starts below its limit does not leave it, as far as spelling goes. -/
theorem isWithin_of_searched (absolute : start.absolute = true)
    (within : start.isWithin boundary = true)
    (looked : here ∈ searched (some boundary) start.ancestors) : here.isWithin boundary = true := by
  unfold Path.ancestors at looked
  generalize start.names.length = bound at looked
  induction bound generalizing start with
  | zero =>
      have first : here = start := by simpa [Path.above, searched] using looked
      rw [first]
      exact within
  | succ bound ih =>
      rw [searched, Path.above] at looked
      rcases List.mem_cons.mp looked with rfl | further
      · exact within
      · by_cases last : boundary.same start = true
        · simp [last] at further
        · rw [Option.any_some, if_neg last] at further
          cases up : start.parent? with
          | none => simp [up, searched] at further
          | some above =>
              rw [up] at further
              have higher := isWithin_of_parent? absolute within (by simpa using last) up
              exact ih (Path.components_of_parent? absolute up).1 higher further

/-! ## What a search comes to -/

theorem run_findIn_cons (directory : Path) (rest : List Path) (d : Disk) (known : Manifests) :
    ((findIn (directory :: rest)) d).run known =
      match ((load directory) d).run known with
      | (.ok (some m), later) => (.ok (some m), later)
      | (.ok none, later) =>
        if later.boundary.any (·.same directory) then (.ok none, later)
        else ((findIn rest) d).run later
      | (.error fault, later) => (.error fault, later) := by
  rw [findIn, Query.run_bind]
  generalize ((load directory) d).run known = loaded
  obtain ⟨_ | _ | m, later⟩ := loaded
  · rfl
  · show ((if later.boundary.any (·.same directory) then (return none)
      else findIn rest : Query (Option Manifest)) d).run later =
        if later.boundary.any (·.same directory) then (.ok none, later)
        else ((findIn rest) d).run later
    split <;> rfl
  · rfl

@[simp] theorem record_boundary (known : Manifests) (path : Path) (read : Option Manifest) :
    (known.record path read).2.boundary = known.boundary := by
  cases read with
  | none => rfl
  | some m =>
      unfold record
      dsimp only
      split <;> rfl

/-- Loading a manifest leaves the boundary as it is. -/
theorem run_load_boundary (directory : Path) (d : Disk) (known : Manifests) :
    (((load directory) d).run known).2.boundary = known.boundary := by
  rw [run_load]
  split
  · rfl
  · split
    · exact record_boundary known _ _
    · rfl

/-- A manifest that is read belongs to the directory in which it stands, and that is one. -/
theorem directory_of_fetch (fetched : fetch d (here.child Manifest.fileName) = .ok (some m)) :
    m.directory.same here = true ∧ ∃ dir, d.Enters here dir := by
  have isName : Path.IsName Manifest.fileName := by decide
  have parent := Path.parent?_child here isName
  have components := Path.components_child here isName
  rw [Path.child_eq here isName.1, Path.components_concat _ _ isName.notRedundant] at components
  unfold fetch at fetched
  split at fetched
  · rename_i bytes reads
    refine ⟨?_, Disk.exists_enters_of_read isName reads⟩
    unfold Manifest.read at fetched
    split at fetched
    · cases fetched
      rw [Manifest.ofFields, parent]
      exact Path.same_iff.mpr ⟨rfl, (List.append_inj' components rfl).1⟩
    · cases fetched
  all_goals cases fetched

/-- What a search finds stands in one of the directories into which it looks. -/
theorem Faithful.found_searched (faithful : known.Faithful d)
    (found : ((findIn directories) d).run known = (.ok (some m), later)) :
    ∃ here ∈ searched known.boundary directories, ∃ there,
      fetch d (here.child Manifest.fileName) = .ok (some there) ∧ m.Respells there := by
  induction directories generalizing known with
  | nil => cases found
  | cons directory rest ih =>
      obtain ⟨outcome, learns, kept⟩ := faithful.run_load directory
      rw [run_findIn_cons] at found
      rw [searched]
      generalize ((load directory) d).run known = loaded at found outcome learns kept
      obtain ⟨_ | _ | first, known'⟩ := loaded
      · cases found
      · dsimp only at found kept
        rw [kept] at found
        split at found
        · cases found
        · rename_i notLimit
          obtain ⟨here, looked, there⟩ := ih learns found
          rw [kept] at looked
          exact ⟨here, by simp [notLimit, looked], there⟩
      · cases found
        refine ⟨directory, List.mem_cons_self, ?_⟩
        generalize fetch d (directory.child Manifest.fileName) = read at outcome ⊢
        cases outcome with
        | ok related =>
            cases related with
            | some respells => exact ⟨_, rfl, respells⟩

/-- Nothing matters to a search but the manifests in the directories into which it looks. -/
theorem run_findIn_congr
    (alike : ∀ here ∈ searched known.boundary directories,
      d'.read (here.child Manifest.fileName) = d.read (here.child Manifest.fileName)) :
    ((findIn directories) d').run known = ((findIn directories) d).run known := by
  induction directories generalizing known with
  | nil => rfl
  | cons directory rest ih =>
      have loads : ((load directory) d').run known = ((load directory) d).run known := by
        rw [run_load, run_load, fetch, fetch, alike directory List.mem_cons_self]
      have kept := run_load_boundary directory d known
      rw [run_findIn_cons, run_findIn_cons, loads]
      generalize ((load directory) d).run known = loaded at kept
      obtain ⟨_ | _ | first, known'⟩ := loaded
      · rfl
      · dsimp only at kept ⊢
        split
        · rfl
        · rename_i notLimit
          refine ih fun here looked => alike here ?_
          rw [kept] at notLimit looked
          rw [searched, if_neg notLimit]
          exact List.mem_cons_of_mem _ looked
      · rfl

/-- The same knowledge, without a boundary. -/
def unbounded (known : Manifests) : Manifests := { known with boundary := none }

@[simp] theorem lookUp_unbounded (known : Manifests) (path : Path) :
    known.unbounded.lookUp path = known.lookUp path := rfl

@[simp] theorem record_unbounded (known : Manifests) (path : Path) (read : Option Manifest) :
    known.unbounded.record path read =
      ((known.record path read).1, (known.record path read).2.unbounded) := by
  have earlier : known.unbounded.found? path = known.found? path := rfl
  cases read with
  | none => rfl
  | some m =>
      unfold record
      dsimp only
      rw [earlier]
      split <;> rfl

/-- The boundary makes no difference to what is loaded. -/
theorem run_load_unbounded (directory : Path) (d : Disk) (known : Manifests) :
    ((load directory) d).run known.unbounded =
      ((((load directory) d).run known).1, (((load directory) d).run known).2.unbounded) := by
  rw [run_load, run_load, lookUp_unbounded]
  split
  · rfl
  · split
    · rw [record_unbounded]
    · rfl

/-- A boundary that is the spelling of none of the directories does not end a search. -/
theorem run_findIn_unbounded
    (missed : ∀ here ∈ directories, known.boundary.any (·.same here) = false) :
    (((findIn directories) d).run known).1 =
      (((findIn directories) d).run known.unbounded).1 := by
  induction directories generalizing known with
  | nil => rfl
  | cons directory rest ih =>
      have kept := run_load_boundary directory d known
      rw [run_findIn_cons, run_findIn_cons, run_load_unbounded]
      generalize ((load directory) d).run known = loaded at kept
      obtain ⟨_ | _ | first, known'⟩ := loaded
      · rfl
      · dsimp only at kept ⊢
        rw [kept, missed directory List.mem_cons_self]
        refine ih fun here member => ?_
        rw [kept]
        exact missed here (List.mem_cons_of_mem _ member)
      · rfl

/-! ## The boundary -/

/-- Every directory into which a search looks is a real place or lies below it. -/
def LooksWithin (d : Disk) (base : List String) (limit : Option Path) (start : Path) : Prop :=
  ∀ here ∈ searched limit start.ancestors, ∀ dir, d.Enters here dir → base <+: dir

/-- Another disk on which the manifests at and below a real place read the same. -/
def SameWithin (base : List String) (d d' : Disk) : Prop :=
  ∀ dir, base <+: dir → d.Enters (.ofNames dir) dir →
    d'.read ((Path.ofNames dir).child Manifest.fileName) =
      d.read ((Path.ofNames dir).child Manifest.fileName)

/-- What is found by a search that does not look elsewhere stands at or below the place. -/
theorem Faithful.find_within {base : List String} (faithful : known.Faithful d)
    (looks : LooksWithin d base known.boundary start)
    (found : (((find start) d).run known).1 = .ok (some m)) :
    ∃ dir, d.Enters m.directory dir ∧ base <+: dir := by
  obtain ⟨here, looked, first, fetched, respells⟩ := faithful.found_searched (Prod.ext found rfl)
  obtain ⟨same, dir, enters⟩ := directory_of_fetch fetched
  refine ⟨dir, ?_, looks here looked dir enters⟩
  exact (Disk.enters_of_same (Path.same_trans respells.directory same)).mpr enters

section Bounded

variable {real base : List String} (starts : d.Enters start real)
  (spelled : start.same (.ofNames real) = true) (bounds : d.Enters boundary base)
  (within : base <+: real) (atBase : boundary.same (.ofNames base) = true)

include starts spelled bounds within atBase

/-- A search from a real path that is bounded by a real path looks into real paths at and below the
boundary only. -/
theorem real_of_searched (looked : here ∈ searched (some boundary) start.ancestors) :
    base <+: here.components ∧ here.same (.ofNames here.components) = true ∧
      d.Enters here here.components := by
  obtain ⟨entries, leads⟩ := starts
  obtain ⟨outer, leads'⟩ := bounds
  have down : Disk.LeadsDown real := leads.leadsDown (List.forall_mem_nil _)
  have down' : Disk.LeadsDown base := leads'.leadsDown (List.forall_mem_nil _)
  obtain ⟨absolute, components⟩ := Path.same_iff.mp spelled
  obtain ⟨absolute', components'⟩ := Path.same_iff.mp atBase
  rw [down.components_eq] at components
  rw [down'.components_eq] at components'
  have below : start.isWithin boundary = true :=
    (Path.isWithin_iff _ _).mpr ⟨absolute.trans absolute'.symm, by rwa [components, components']⟩
  have hereBelow := isWithin_of_searched absolute below looked
  rw [← components']
  exact ⟨((Path.isWithin_iff _ _).mp hereBelow).2,
    Disk.Enters.of_ancestor ⟨entries, leads⟩ spelled (searched_subset _ _ looked)⟩

theorem looksWithin : LooksWithin d base (some boundary) start := by
  intro here looked dir enters
  obtain ⟨below, -, enters'⟩ := real_of_searched starts spelled bounds within atBase looked
  rwa [enters.unique enters']

/-- Manifests elsewhere have no influence on the search. -/
theorem run_find_congr (configured : known.boundary = some boundary)
    (alike : SameWithin base d d') :
    ((find start) d').run known = ((find start) d).run known := by
  refine run_findIn_congr fun here looked => ?_
  rw [configured] at looked
  obtain ⟨below, same, enters⟩ := real_of_searched starts spelled bounds within atBase looked
  have isName : Path.IsName Manifest.fileName := by decide
  have reads (d : Disk) : d.read (here.child Manifest.fileName) =
      d.read ((Path.ofNames here.components).child Manifest.fileName) := by
    rw [Disk.read, Disk.read, Disk.file, Disk.file,
      Disk.find_eq_of_same (Path.child_same isName same) (IsManifestPath.endsInName ⟨_, rfl⟩)
        (IsManifestPath.endsInName ⟨_, rfl⟩) d]
  rw [reads d, reads d']
  exact alike _ below ((Disk.enters_of_same same).mp enters)

end Bounded

/-- Questions that come to the same on two disks may be put one after the other. -/
theorem run_bind_congr {α β : Type} {q : Query α} {f : α → Query β}
    (first : (q d').run known = (q d).run known)
    (next : ∀ a later, ((f a) d').run later = ((f a) d).run later) :
    ((q >>= f) d').run known = ((q >>= f) d).run known := by
  rw [Query.run_bind, Query.run_bind, first]
  generalize (q d).run known = ended
  obtain ⟨_ | a, later⟩ := ended
  · rfl
  · exact next a later

/-- Whether a missing package is tolerated is a matter of the manifest that is found. -/
theorem run_tolerance_congr
    (alike : ((find start) d').run known = ((find start) d).run known) (package : String) :
    ((Resolution.tolerance package start) d').run known =
      ((Resolution.tolerance package start) d).run known := by
  refine run_bind_congr alike fun found later => ?_
  cases found with
  | none => rfl
  | some m =>
      dsimp only
      split
      · rfl
      · split
        · rfl
        · cases m.name with
          | none => rfl
          | some name =>
              dsimp only
              split <;> rfl

/-- How a script is bundled is a matter of the manifest that is found and of the script itself. -/
theorem run_choose_congr {f : FunctionSource}
    (alike : ((find start) d').run known = ((find start) d).run known)
    (above : f.entry.parent? = some start) (source : d'.read f.entry = d.read f.entry) :
    ((Selection.choose f) d').run known = ((Selection.choose f) d).run known := by
  have inModule : ((Selection.inModulePackage f.entry) d').run known =
      ((Selection.inModulePackage f.entry) d).run known := by
    unfold Selection.inModulePackage
    rw [above]
    exact run_bind_congr alike fun _ _ => rfl
  have reads (later : Manifests) :
      ((Query.askDisk "reading entry file" f.entry (·.read f.entry)) d').run later =
        ((Query.askDisk "reading entry file" f.entry (·.read f.entry)) d).run later := by
    rw [Query.askDisk, Query.run_ask, Query.run_ask, source]
  have needs : ((Selection.needsEngine f) d').run known =
      ((Selection.needsEngine f) d).run known := by
    unfold Selection.needsEngine
    split
    · rfl
    · refine run_bind_congr inModule fun isModule later => ?_
      cases isModule with
      | true => rfl
      | false => exact run_bind_congr (reads later) fun _ _ => rfl
  unfold Selection.choose
  cases Selection.fixed? f with
  | some selection => rfl
  | none => exact run_bind_congr needs fun _ _ => rfl

/-- A search from a directory with a boundary at or above it. If all the directories into which it
looks are at or below the boundary, so is the manifest found. So it is when both are spelled by
their real paths, and then what stands above the boundary has no influence, neither on the search
nor on whether a missing package is tolerated nor on how a script in the directory is bundled. By
any other way to its directory the boundary has no effect on a search from a real path. -/
theorem find_confined {real base : List String} (faithful : known.Faithful d)
    (configured : known.boundary = some boundary) (bounds : d.Enters boundary base)
    (starts : d.Enters start real) (within : base <+: real) :
    (LooksWithin d base (some boundary) start →
      ∀ m, (((find start) d).run known).1 = .ok (some m) →
        ∃ dir, d.Enters m.directory dir ∧ base <+: dir) ∧
    (start.same (.ofNames real) = true →
      (boundary.same (.ofNames base) = true →
        LooksWithin d base (some boundary) start ∧
        ∀ d', SameWithin base d d' →
          ((find start) d').run known = ((find start) d).run known ∧
          (∀ package, ((Resolution.tolerance package start) d').run known =
            ((Resolution.tolerance package start) d).run known) ∧
          ∀ f : FunctionSource, f.entry.parent? = some start → d'.read f.entry = d.read f.entry →
            ((Selection.choose f) d').run known = ((Selection.choose f) d).run known) ∧
      (boundary.same (.ofNames base) = false →
        (((find start) d).run known).1 = (((find start) d).run known.unbounded).1)) := by
  refine ⟨fun looks m found => ?_, fun spelled => ⟨fun atBase => ?_, fun elsewhere => ?_⟩⟩
  · exact faithful.find_within (configured ▸ looks) found
  · refine ⟨looksWithin starts spelled bounds within atBase, fun d' alike => ?_⟩
    have finds := run_find_congr starts spelled bounds within atBase configured alike
    exact ⟨finds, run_tolerance_congr finds,
      fun f above source => run_choose_congr finds above source⟩
  · refine run_findIn_unbounded fun here above => ?_
    rw [configured, Option.any_some, Bool.eq_false_iff]
    intro same
    -- A boundary spelled like a real path leads there, so it is spelled like its own real path.
    obtain ⟨same', enters⟩ := starts.of_ancestor spelled above
    rw [bounds.unique ((Disk.enters_of_same same).mpr enters),
      Path.same_trans same same'] at elsewhere
    cases elsewhere

/-! ### A directory and a link to it -/

namespace Sample

/-- The bytes of a manifest that says nothing. -/
def blankSource : List UInt8 := [123, 125]

/-- A project with a directory and a link to it. The manifests stand above the directory. -/
def project (manifests : List (String × Disk.Node)) : Disk where
  root := .directory
    [("ws", .directory (("sub", .directory []) :: ("link", .link "sub") :: manifests))]
  current := .root
  now := 0

/-- The project with a manifest. -/
def described : Disk := project [("package.json", .file ⟨blankSource, 0o644, 0⟩)]

def workspace : Path := .ofNames ["ws"]

def sub : Path := .ofNames ["ws", "sub"]

/-- The directory with redundant names. -/
def dotted : Path := .ofNames ["ws", ".", "sub", ""]

/-- The directory by way of its own parent. -/
def climbing : Path := .ofNames ["ws", "sub", "..", "sub"]

def link : Path := .ofNames ["ws", "link"]

/-- The manifest above the directory. -/
theorem fetch_described : ∃ m, fetch described (workspace.child Manifest.fileName) = .ok (some m) ∧
    m.directory = workspace := by
  have reads : described.read (workspace.child Manifest.fileName) = .ok blankSource := by cbv
  have parsed : (Json.Reader.run Manifest.readFields blankSource).toOption.isSome = true := by
    cbv
  have parent : (workspace.child Manifest.fileName).parent? = some workspace := by decide
  cases result : Json.Reader.run Manifest.readFields blankSource with
  | error fault => simp [result, Except.toOption] at parsed
  | ok fields =>
      refine ⟨.ofFields workspace fields, ?_, rfl⟩
      simp only [fetch, reads, Manifest.read, result, parent, Except.map, Option.getD_some]

/-- A search that misses its boundary finds that manifest. -/
theorem find_described {start boundary : Path}
    (above : start.ancestors = [start, workspace, .root])
    (nothing : fetch described (start.child Manifest.fileName) = .ok none)
    (other : (start.child Manifest.fileName).same (workspace.child Manifest.fileName) = false)
    (missed : boundary.same start = false) :
    ∃ m, (((find start) described).run (.empty (some boundary))).1 = .ok (some m) ∧
      m.directory = workspace := by
  obtain ⟨m, fetched, directory⟩ := fetch_described
  refine ⟨m, ?_, directory⟩
  have first : ((load start) described).run (.empty (some boundary)) =
      (.ok none, ⟨some boundary, [], [start.child Manifest.fileName]⟩) := by
    rw [run_load, nothing]
    rfl
  have second : (((load workspace) described).run
      ⟨some boundary, [], [start.child Manifest.fileName]⟩).1 = .ok (some m) := by
    rw [run_load, fetched]
    simp [lookUp, found?, record, other]
  rw [find, above, run_findIn_cons, first]
  simp only [Option.any_some, missed, Bool.false_eq_true, if_false]
  rw [run_findIn_cons]
  generalize ((load workspace) described).run _ = ended at second ⊢
  obtain ⟨outcome, later⟩ := ended
  cases second
  rfl

/-- A search that starts in the directory and is bounded by it finds the manifest above. -/
def Escapes (start boundary : Path) : Prop :=
  described.Enters start ["ws", "sub"] ∧ described.Enters boundary ["ws", "sub"] ∧
    ∃ m, (((find start) described).run (.empty (some boundary))).1 = .ok (some m) ∧
      m.directory = workspace

/-- Below the directory nothing is different without the manifest. -/
theorem sameWithin_sub : SameWithin ["ws", "sub"] described (project []) := by
  intro dir below enters
  obtain ⟨entries, there⟩ := enters.at?
  have among := Disk.mem_allPaths_of_at? there
  have paths : described.allPaths = [[], ["ws"], ["ws", "sub"], ["ws", "link"],
      ["ws", "package.json"]].map Path.ofNames := by decide
  have places : dir = [] ∨ dir = ["ws"] ∨ dir = ["ws", "sub"] ∨ dir = ["ws", "link"] ∨
      dir = ["ws", "package.json"] := by simpa [paths, Path.ofNames] using among
  rcases places with rfl | rfl | rfl | rfl | rfl
  · exact absurd below (by decide)
  · exact absurd below (by decide)
  · cbv
  · exact absurd below (by decide)
  · exact absurd below (by decide)

end Sample

open Sample (described project workspace sub dotted climbing link Escapes)

/-- With redundant names in the boundary the manifest above it makes no difference. -/
theorem find_confined_project :
    ((find sub) (project [])).run (.empty (some dotted)) =
      ((find sub) described).run (.empty (some dotted)) := by
  have bounds : described.Enters dotted ["ws", "sub"] := ⟨[], Disk.leads_of_walk (by cbv)⟩
  have starts : described.Enters sub ["ws", "sub"] := ⟨[], Disk.leads_of_walk (by cbv)⟩
  have confined := find_confined (faithful_empty (some dotted) described) rfl bounds starts
    List.prefix_rfl
  exact (((confined.2 (by decide)).1 (by decide)).2 (project []) Sample.sameWithin_sub).1

/-- A boundary that leads to the directory in another way does not end the search there, nor does
the directory itself if the search starts from a link to it. The manifest above is found. -/
theorem find_pastBoundary :
    Escapes sub link ∧ Escapes sub climbing ∧ Escapes link sub ∧
      described.Enters workspace ["ws"] ∧ ¬ ["ws", "sub"] <+: ["ws"] := by
  have nothing : fetch described (sub.child Manifest.fileName) = .ok none := by cbv
  have nothing' : fetch described (link.child Manifest.fileName) = .ok none := by cbv
  have entersSub : described.Enters sub ["ws", "sub"] := ⟨[], Disk.leads_of_walk (by cbv)⟩
  have entersLink : described.Enters link ["ws", "sub"] := ⟨[], Disk.leads_of_walk (by cbv)⟩
  have entersClimbing : described.Enters climbing ["ws", "sub"] :=
    ⟨[], Disk.leads_of_walk (by cbv)⟩
  refine ⟨⟨entersSub, entersLink, ?_⟩, ⟨entersSub, entersClimbing, ?_⟩,
    ⟨entersLink, entersSub, ?_⟩, ⟨_, Disk.leads_of_walk (by cbv)⟩, by decide⟩
  · exact Sample.find_described rfl nothing (by decide) (by decide)
  · exact Sample.find_described rfl nothing (by decide) (by decide)
  · exact Sample.find_described rfl nothing' (by decide) (by decide)

end Manifests

end FunctionArchive
