import FunctionArchive.Packing
import FunctionArchive.Proofs.Archive.Preservation
import FunctionArchive.Proofs.Disk.Straight
import FunctionArchive.Proofs.World

/-!
# What a listing finds and what stops it

A listing finds, of each name, the first function in its directories (`functionsIn`). Whatever the
children of a directory are, they cost at most the function that each would have been, with one
exception: a child that leads nowhere, because a link dangles or turns in circles, stops the
listing, and so does a directory that is not there (`discover_exact`).
-/

set_option autoImplicit false

namespace FunctionArchive

open Disk (Node Place)
open Work (Ends)

variable {d : Disk} {s : Settings} {path entry directory : Path} {directories : List Path}
  {fault : Fault} {name : String}

/-- Where a path leads to a directory, the root is one. -/
theorem Disk.root_of_isDirectory (isDirectory : d.isDirectory path = true) :
    ∃ entries, d.root = .directory entries := by
  unfold Disk.isDirectory find lookUp at isDirectory
  split at isDirectory
  · next found =>
    split at found
    · cases found
    · generalize d.namesOf path = pending at found
      cases leads_of_walk found with
      | arrive there => exact ⟨_, Option.some.inj there⟩
      | stay directory _ _ => exact ⟨_, Option.some.inj directory⟩
      | up directory _ => exact ⟨_, Option.some.inj directory⟩
      | down directory _ _ _ _ _ => exact ⟨_, Option.some.inj directory⟩
      | follow directory _ _ _ _ _ => exact ⟨_, Option.some.inj directory⟩
  · cases isDirectory

namespace FunctionSource

/-- The function at a path, if one can be made out there. -/
def at? (d : Disk) (s : Settings) (path : Path) : Option FunctionSource :=
  (ofPath d s path).toOption.join

/-- The file that a function starts from can be read, unless it is a directory. -/
theorem nameAndEntry?_readable {entries : List (String × Node)} (root : d.root = .directory entries)
    (found : nameAndEntry? d path = .ok (some (name, entry))) :
    ∃ bytes, d.read entry = .ok bytes := by
  unfold nameAndEntry? at found
  split at found
  · cases found
  · have isFile : d.isFile entry = true := by
      simp only [Except.ok.injEq, Option.bind_eq_bind, Option.bind_eq_some_iff, Option.pure_def,
        Option.some.injEq, Prod.mk.injEq] at found
      obtain ⟨_, _, candidate, isFirst, -, rfl⟩ := found
      exact List.find?_some isFirst
    unfold Disk.isFile at isFile
    split at isFile
    · next file leads => exact ⟨file.data, by simp [Disk.read, Disk.file, leads, Except.map]⟩
    · cases isFile
  · next place notDirectory leads =>
    obtain ⟨stem, isStem, same⟩ := Option.map_eq_some_iff.mp (Except.ok.inj found)
    cases same
    obtain ⟨names, node⟩ := place
    cases node with
    | file file => exact ⟨file.data, by simp [Disk.read, Disk.file, leads, Except.map]⟩
    | link target => exact absurd rfl (Disk.notLink_of_find root leads target)
    | directory entries => exact absurd rfl (notDirectory names entries)

/-- A file that can be read is refused for its language alone. -/
theorem runtimeOf_refused {bytes : List UInt8} (read : d.read entry = .ok bytes)
    (refused : runtimeOf d entry = .error fault) :
    ∃ reason, fault = .unsupportedRuntime entry reason := by
  unfold runtimeOf at refused
  simp only [read] at refused
  split_ifs at refused with isScript isArchive isUnsupported isOther
  cases refused
  exact ⟨_, rfl⟩

theorem ofPath_astray {cause : Disk.Fault} (leads : d.find path = .error cause) :
    ofPath d s path = .error (.disk "reading function metadata" path cause) := by
  unfold ofPath nameAndEntry?
  rw [leads]
  rfl

/-- A path that leads somewhere is refused for its language alone. -/
theorem ofPath_refused {entries : List (String × Node)} {place : Place}
    (root : d.root = .directory entries) (leads : d.find path = .ok place)
    (refused : ofPath d s path = .error fault) :
    ∃ entry reason, fault = .unsupportedRuntime entry reason := by
  unfold ofPath at refused
  cases named : nameAndEntry? d path with
  | error flaw =>
      unfold nameAndEntry? at named
      rw [leads] at named
      split at named
      · next cause astray => cases astray
      · cases named
      · cases named
  | ok function =>
      rw [named] at refused
      rcases function with _ | ⟨name, entry⟩
      · cases refused
      · obtain ⟨bytes, read⟩ := nameAndEntry?_readable root named
        cases classified : runtimeOf d entry with
        | error flaw =>
            simp only [bind, Except.bind, classified] at refused
            cases refused
            obtain ⟨reason, rfl⟩ := runtimeOf_refused read classified
            exact ⟨entry, reason, rfl⟩
        | ok runtime? =>
            simp only [bind, Except.bind, classified] at refused
            cases runtime? <;> cases refused

end FunctionSource

namespace Discovery

/-! ## What stops a listing -/

/-- The children of a directory that are looked at. -/
def candidates (d : Disk) (directory : Path) : List Path :=
  (children d directory).toOption.getD []

/-- What is wrong with directories in which functions cannot be listed. -/
inductive Blocks (d : Disk) (directories : List Path) : Fault → Prop
  /-- One of them is not there. -/
  | missing {directory : Path} (member : directory ∈ directories)
      (isMissing : d.isDirectory directory = false) :
      Blocks d directories (.emptyDirectory directory)
  /-- A child of one of them leads nowhere. -/
  | astray {directory path : Path} {cause : Disk.Fault} (member : directory ∈ directories)
      (child : path ∈ candidates d directory) (leads : d.find path = .error cause) :
      Blocks d directories (.disk "reading function metadata" path cause)

/-- A directory that is there and has no child that leads nowhere. -/
structure IsSource (d : Disk) (directory : Path) : Prop where
  isDirectory : d.isDirectory directory = true
  leads : ∀ path ∈ candidates d directory, ∃ place, d.find path = .ok place

/-- Whatever stops a listing is the fault of one of its directories. -/
theorem Blocks.not_isSource (blocks : Blocks d directories fault) :
    ∃ directory ∈ directories, ¬IsSource d directory := by
  cases blocks with
  | missing member isMissing =>
      exact ⟨_, member, fun source => by simp [source.isDirectory] at isMissing⟩
  | astray member child leads =>
      refine ⟨_, member, fun source => ?_⟩
      obtain ⟨place, found⟩ := source.leads _ child
      cases found.symm.trans leads

theorem children_eq (isDirectory : d.isDirectory directory = true) :
    children d directory = .ok (candidates d directory) := by
  unfold candidates children
  have listed : ∃ names, d.list directory = .ok names := by
    unfold Disk.isDirectory at isDirectory
    split at isDirectory
    · next entries leads =>
      exact ⟨entries.map Prod.fst, by simp only [Disk.list, Disk.entries, leads, Except.map]⟩
    · cases isDirectory
  obtain ⟨names, listed⟩ := listed
  simp only [isDirectory, listed]
  rfl

/-! ## What a listing finds -/

/-- Adds a function to those found so far, unless one of them has its name. -/
def addNew (found : List FunctionSource) (f : FunctionSource) : List FunctionSource :=
  if found.any (·.name == f.name) then found else found ++ [f]

/-- Of each name, the first function that stands at a child of some directories. -/
def functionsIn (d : Disk) (s : Settings) (directories : List Path) : List FunctionSource :=
  ((directories.flatMap (candidates d)).filterMap (FunctionSource.at? d s)).eraseDupsBy
    fun f f' => f'.name == f.name

/-- To add functions one after the other is to keep the first of each name. -/
theorem foldl_addNew (functions found : List FunctionSource) :
    functions.foldl addNew found =
      List.eraseDupsBy.loop (fun f f' => f'.name == f.name) functions found.reverse := by
  induction functions generalizing found with
  | nil => rw [List.eraseDupsBy.loop, List.reverse_reverse, List.foldl_nil]
  | cons f rest ih =>
      rw [List.foldl_cons, ih, List.eraseDupsBy.loop, List.any_reverse, addNew]
      cases found.any (·.name == f.name) with
      | true => rfl
      | false => simp

/-- The functions found so far with what stands at a path. -/
def addAt (d : Disk) (s : Settings) (found : List FunctionSource) (path : Path) :
    List FunctionSource :=
  ((FunctionSource.at? d s path).map (addNew found)).getD found

theorem functionsIn_eq (directories : List Path) : functionsIn d s directories =
    directories.foldl (fun found directory => (candidates d directory).foldl (addAt d s) found)
      [] := by
  rw [functionsIn, List.eraseDupsBy, ← List.reverse_nil, ← foldl_addNew, List.foldl_filterMap,
    List.foldl_flatMap]
  congr 1
  funext found directory
  congr 1
  funext found path
  unfold addAt
  cases FunctionSource.at? d s path <;> rfl

/-- A child that leads somewhere costs at most the function that it would have been, and a note. -/
theorem addChild_run {w : World} {entries : List (String × Node)} {place : Place}
    (root : w.disk.root = .directory entries) (leads : w.disk.find path = .ok place)
    (found : List FunctionSource) :
    ∃ journal, (addChild s found path).run w =
      (.ok (addAt w.disk s found path), { w with journal }) := by
  unfold addChild addAt FunctionSource.at?
  rw [Work.run_bind, Work.run_get]
  dsimp only
  split
  · next nothing =>
    rw [nothing]
    exact ⟨w.journal, rfl⟩
  · next f isFunction =>
    rw [isFunction]
    show ∃ journal, _ = (Except.ok (addNew found f), { w with journal })
    unfold addNew
    split
    · exact ⟨_, rfl⟩
    · exact ⟨w.journal, rfl⟩
  · next entry reason refused =>
    rw [refused]
    exact ⟨_, rfl⟩
  · next fault other refused =>
    obtain ⟨entry, reason, rfl⟩ := FunctionSource.ofPath_refused root leads refused
    exact absurd rfl (other entry reason)

theorem addChild_ends {entries : List (String × Node)} (root : d.root = .directory entries)
    (found : List FunctionSource) :
    Ends (fun w : World => w.disk = d) (addChild s found path)
      (fun made w => w.disk = d ∧ (∃ place, d.find path = .ok place) ∧ made = addAt d s found path)
      (fun fault _ => ∃ cause, d.find path = .error cause ∧
        fault = .disk "reading function metadata" path cause) := by
  rintro w rfl
  cases leads : w.disk.find path with
  | error cause =>
      unfold addChild
      rw [Work.run_bind, Work.run_get]
      dsimp only
      rw [FunctionSource.ofPath_astray leads]
      exact Work.ended_error.mpr ⟨cause, rfl, rfl⟩
  | ok place =>
      obtain ⟨journal, run⟩ := addChild_run (s := s) root leads found
      rw [run]
      exact Work.ended_ok.mpr ⟨rfl, ⟨place, rfl⟩, rfl⟩

theorem addDirectory_ends (member : directory ∈ directories) (found : List FunctionSource) :
    Ends (fun w : World => w.disk = d) (addDirectory s found directory)
      (fun made w => w.disk = d ∧ IsSource d directory ∧
        made = (candidates d directory).foldl (addAt d s) found)
      (fun fault _ => Blocks d directories fault) := by
  refine .get fun w same => ?_
  subst same
  cases isDirectory : w.disk.isDirectory directory with
  | false =>
      simp only [children, isDirectory]
      exact fun _ _ => Work.ended_error.mpr (.missing member isDirectory)
  | true =>
      obtain ⟨entries, root⟩ := Disk.root_of_isDirectory isDirectory
      rw [children_eq isDirectory]
      have each (found : List FunctionSource) (path : Path)
          (child : path ∈ candidates w.disk directory) :
          Ends (fun w' : World => w'.disk = w.disk) (addChild s found path)
            (fun made w' => w'.disk = w.disk ∧ (∃ place, w.disk.find path = .ok place) ∧
              made = addAt w.disk s found path)
            (fun fault _ => Blocks w.disk directories fault) := by
        refine (addChild_ends root found).mono (fun _ _ => id) ?_
        rintro fault _ ⟨cause, leads, rfl⟩
        exact .astray member child leads
      have all := Ends.foldlM (candidates w.disk directory) each found
      refine (all.weaken fun w' same => congrArg World.disk same).mono ?_ fun _ _ => id
      exact fun made w' ⟨same, leads, isMade⟩ => ⟨same, ⟨isDirectory, leads⟩, isMade⟩

theorem discover_ends (directories : List Path) :
    Ends (fun w : World => w.disk = d) (discover s directories)
      (fun functions _ => (∀ directory ∈ directories, IsSource d directory) ∧
        functions = functionsIn d s directories)
      (fun fault _ => Blocks d directories fault) := by
  rw [functionsIn_eq]
  have all := Ends.foldlM directories
    (fun found directory member => addDirectory_ends (d := d) (s := s) member found) []
  exact all.mono (fun functions w ⟨_, sources, isMade⟩ => ⟨sources, isMade⟩) fun _ _ => id

end Discovery

/-! ## Packing what is listed -/

/-- What an action gives in any world, it gives as a run of its own. -/
theorem Action.apart_ends {α : Type} {limit : Option Path} {act : Action α} {holds : α → Prop}
    {flawed : Fault → Prop}
    (ends : Ends (fun _ => True) act (fun a _ => holds a) fun fault _ => flawed fault) :
    Ends (fun _ => True) (Action.apart limit act) (fun a _ => holds a) fun fault _ =>
      flawed fault := by
  intro w _
  have ended := ends { w with manifests := .empty limit } trivial
  show Work.Ended _ _ ((do
    let result ← Action.apart.observing act
    modify fun w' => { w' with manifests := w.manifests }
    Action.ofOutcome result : Action α).run { w with manifests := .empty limit })
  generalize isStart : ({ w with manifests := .empty limit } : World) = start at ended ⊢
  have observed : (Action.apart.observing act).run start =
      (.ok (act.run start).1, (act.run start).2) := rfl
  rw [Work.run_bind, observed]
  generalize act.run start = result at ended ⊢
  obtain ⟨outcome, w'⟩ := result
  cases outcome with
  | ok a => exact Work.ended_ok.mpr (Work.ended_ok.mp ended)
  | error fault => exact Work.ended_error.mpr (Work.ended_error.mp ended)

namespace Packing

open Discovery

/-- A function that cannot be packed keeps its slot. -/
theorem packSlots_ends (destination : Path) (functions : List FunctionSource) :
    Ends (fun _ => True) (functions.mapM (packSlot s destination))
      (fun slots _ => slots.map (·.function) = functions) (fun _ _ => False) := by
  induction functions with
  | nil => exact .pure fun _ _ => rfl
  | cons f rest ih =>
      rw [List.mapM_cons]
      have slot : Ends (fun _ => True) (packSlot s destination f) (fun slot _ => slot.function = f)
          (fun _ _ => False) := fun _ _ => Work.ended_ok.mpr rfl
      refine slot.bind fun made => .weaken (.given fun isFirst => ?_) fun w same => ⟨trivial, same⟩
      refine ih.bind fun slots => .pure fun w others => ?_
      rw [List.map_cons, isFirst, others]

theorem noteFailures_ends (slots : List Slot) :
    Ends (fun _ => True) (slots.forM noteFailure) (fun _ _ => True) (fun _ _ => False) := by
  induction slots with
  | nil => exact .pure fun _ _ => trivial
  | cons slot rest ih =>
      have noted : Ends (fun _ => True) (noteFailure slot) (fun _ _ => True)
          (fun _ _ => False) := by
        unfold noteFailure
        split
        · exact .pure fun _ _ => trivial
        · exact fun _ _ => Work.ended_ok.mpr trivial
      show Ends _ (noteFailure slot >>= fun _ => rest.forM noteFailure) _ _
      exact noted.bind fun _ => ih

/-- Every listed function has a slot, and nothing else stops the packing of all of them. -/
theorem packAll_functions (directories : List Path) (destination : Path) (w : World) :
    ((packAll s directories destination).run w).1.map (·.map (·.function)) =
      ((discover s directories).run w).1 := by
  unfold packAll
  rw [Work.run_bind]
  generalize (discover s directories).run w = listed
  obtain ⟨outcome, w'⟩ := listed
  cases outcome with
  | error fault => rfl
  | ok functions =>
      have equal {act : Action (List Slot)}
          (ends : Ends (fun _ => True) act (fun slots _ => slots.map (·.function) = functions)
            fun _ _ => False) : (act.run w').1.map (·.map (·.function)) = .ok functions := by
        have ended := ends w' trivial
        generalize act.run w' = result at ended
        obtain ⟨outcome, w''⟩ := result
        cases outcome with
        | ok slots =>
            have same := Work.ended_ok.mp ended
            exact congrArg Except.ok same
        | error fault => exact (Work.ended_error.mp ended).elim
      refine equal ?_
      have noted : Ends (fun _ => True)
          (Action.note .info s!"Packaging {functions.length} functions into {destination}")
          (fun _ _ => True) (fun _ _ => False) := fun _ _ => Work.ended_ok.mpr trivial
      refine noted.bind fun _ => ?_
      refine (Action.apart_ends (packSlots_ends destination functions)).bind fun slots => ?_
      refine .weaken (.given fun isListed => ?_) fun w same => ⟨trivial, same⟩
      exact (noteFailures_ends slots).bind fun _ => .pure fun _ _ => isListed

end Packing

namespace Discovery

/-- **What a listing finds, and what stops it.** Functions can be listed exactly when every
directory is there and each of its children leads somewhere; whatever else is wrong with a child
costs the function that it would have been. Otherwise the fault is that of a directory that is not
there or of a child that leads nowhere. Every function that is listed gets a slot when all are
packed. -/
theorem discover_exact (s : Settings) (directories : List Path) (destination : Path) (w : World) :
    ((∃ functions, ((discover s directories).run w).1 = .ok functions) ↔
        ∀ directory ∈ directories, IsSource w.disk directory) ∧
      (match ((discover s directories).run w).1 with
        | .ok functions => functions = functionsIn w.disk s directories
        | .error fault => Blocks w.disk directories fault) ∧
      ((Packing.packAll s directories destination).run w).1.map (·.map (·.function)) =
        ((discover s directories).run w).1 := by
  have ended := discover_ends (s := s) directories w rfl
  have slots := Packing.packAll_functions (s := s) directories destination w
  generalize (discover s directories).run w = listed at ended slots ⊢
  obtain ⟨outcome, w'⟩ := listed
  cases outcome with
  | ok functions =>
      obtain ⟨sources, isListed⟩ := Work.ended_ok.mp ended
      exact ⟨⟨fun _ => sources, fun _ => ⟨functions, rfl⟩⟩, isListed, slots⟩
  | error fault =>
      have blocks := Work.ended_error.mp ended
      refine ⟨⟨nofun, fun sources => ?_⟩, blocks, slots⟩
      obtain ⟨directory, member, notSource⟩ := blocks.not_isSource
      exact absurd (sources directory member) notSource

namespace Example

/-- A directory of functions with a script and a link that leads nowhere. -/
def besideDangling : World where
  disk := ⟨.directory [("src", .directory
    [("a.js", .file ⟨[], 0o644, 0⟩), ("gone", .link "nowhere")])], .root, 0⟩
  manifests := .empty none
  journal := []

end Example

/-- A child that leads nowhere stops the listing of a directory that is there. -/
theorem discover_dangling :
    Example.besideDangling.disk.isDirectory (.ofNames ["src"]) = true ∧
      ((discover Packing.plainSettings [.ofNames ["src"]]).run Example.besideDangling).1 =
        .error (.disk "reading function metadata" (.ofNames ["src", "gone"]) .notFound) :=
  ⟨by cbv, by cbv⟩

end Discovery

end FunctionArchive
