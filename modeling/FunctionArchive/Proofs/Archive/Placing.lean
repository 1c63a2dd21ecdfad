import FunctionArchive.Archive.Writing
import FunctionArchive.Proofs.Disk.Moves
import FunctionArchive.Proofs.World

/-!
# Moving archives into place

Changes of the file system and looks at it run as parts of the work on an archive (`run_change`,
`run_look`).

An archive is prepared beside its place and moved there when it is complete. The way to the
directory of the archive must not lead through what was at the place before (`Clear`): that is gone
when the archive is there. Then writing a zip archive either sets the entry at its place or changes
nothing but the directory above, which is created if it is missing (`writeZip_ends`).
-/

set_option autoImplicit false

namespace FunctionArchive

variable {α : Type}

namespace Writing

theorem run_change (g : Disk → Except Disk.Fault Disk) (d : Disk) :
    (change g).run d =
      match g d with
      | .ok d' => (.ok (), d')
      | .error cause => (.error (.io cause), d) := by
  unfold change
  rw [Work.run_bind, Work.run_get]
  dsimp only
  cases g d <;> rfl

theorem run_look (g : Disk → Except ArchiveFlaw α) (d : Disk) :
    (look g).run d = (g d, d) := by
  unfold look
  rw [Work.run_bind, Work.run_get]
  dsimp only
  cases g d <;> rfl

theorem run_attempt (g : Disk → Except Disk.Fault Disk) (d : Disk) :
    (attempt g).run d = (.ok (), (g d).toOption.getD d) := rfl

end Writing

namespace Work.Ends

variable {before : Disk → Prop} {work : Writing α} {failed : ArchiveFlaw → Disk → Prop}

theorem change {g : Disk → Except Disk.Fault Disk} {after : Unit → Disk → Prop}
    (done : ∀ d d', before d → g d = .ok d' → after () d')
    (refused : ∀ d cause, before d → g d = .error cause → failed (.io cause) d) :
    Ends before (Writing.change g) after failed := by
  intro d start
  rw [Writing.run_change]
  cases result : g d with
  | ok d' => exact ended_ok.mpr (done d d' start result)
  | error cause => exact ended_error.mpr (refused d cause start result)

/-- A change that keeps a property keeps it also when it is refused. -/
theorem keep {g : Disk → Except Disk.Fault Disk} {kept : Disk → Prop}
    (done : ∀ d d', kept d → g d = .ok d' → kept d') :
    Ends kept (Writing.change g) (fun _ => kept) (fun _ => kept) :=
  .change done fun _ _ holds _ => holds

/-- A change that can be made. -/
theorem does {g : Disk → Except Disk.Fault Disk} {d d' : Disk} (done : g d = .ok d') :
    Ends (· = d) (Writing.change g) (fun _ => (· = d')) failed := by
  refine .change ?_ ?_
  · rintro _ made rfl same
    exact Except.ok.inj (same.symm.trans done)
  · rintro _ cause rfl refused
    cases done.symm.trans refused

variable {after : α → Disk → Prop}

theorem look {g : Disk → Except ArchiveFlaw α}
    (done : ∀ d a, before d → g d = .ok a → after a d)
    (refused : ∀ d flaw, before d → g d = .error flaw → failed flaw d) :
    Ends before (Writing.look g) after failed := by
  intro d start
  rw [Writing.run_look]
  cases result : g d with
  | ok a => exact ended_ok.mpr (done d a start result)
  | error flaw => exact ended_error.mpr (refused d flaw start result)

/-- A look that finds something. -/
theorem finds {g : Disk → Except ArchiveFlaw α} {d : Disk} {a : α} (found : g d = .ok a) :
    Ends (· = d) (Writing.look g) (fun a' d' => d' = d ∧ a' = a) failed := by
  refine .look ?_ ?_
  · rintro _ a' rfl same
    exact ⟨rfl, Except.ok.inj (same.symm.trans found)⟩
  · rintro _ flaw rfl refused
    cases found.symm.trans refused

end Work.Ends

end FunctionArchive

namespace FunctionArchive.Archive

open Work (Ends)
open Disk (Node)

variable {d made start : Disk} {p q path destination : Path} {dir names : List String}
  {name fresh : String}

/-- What stands at some names has been set; everything else is as it was. -/
structure Placed (made : Disk) (names : List String) (d : Disk) : Prop where
  rest : d.put names none = made.put names none
  there : (∃ f, d.root.at? names = some (.file f)) ∨
    ∃ entries, d.root.at? names = some (.directory entries)

theorem Placed.enters (placed : Placed made names d) (notEmpty : names ≠ [])
    (clear : (made.put names none).Enters q dir) : d.Enters q dir := by
  rw [← placed.rest] at clear
  exact clear.of_put_none notEmpty

/-- What is at its place stays there when its permission bits are set. -/
theorem Placed.setMode (placed : Placed made (dir ++ [name]) d) (enters : d.Enters q dir)
    (isName : Path.IsName name) (mode : Nat) :
    ∃ d', d.setMode (q.child name) mode = .ok d' ∧ Placed made (dir ++ [name]) d' := by
  rcases placed.there with ⟨f, there⟩ | ⟨entries, there⟩
  · refine ⟨_, Disk.setMode_file enters isName there mode, ?_, .inl ⟨{ f with mode }, ?_⟩⟩
    · rw [Disk.put_put_none, placed.rest]
    · exact Disk.at?_put enters name _
  · exact ⟨d, Disk.setMode_directory enters isName there mode, placed⟩

/-- The disk on which an archive is worked on: the directory at its destination has been created and
can be entered. -/
structure Prepared (start : Disk) (destination : Path) (name : String) (made : Disk)
    (dir : List String) : Prop where
  created : start.createDirectories (holder (destination.child name)) = .ok made
  enters : made.Enters destination dir

/-- The destination is found without what is at the place of the archive. -/
def Clear (start : Disk) (destination : Path) (name : String) : Prop :=
  ∀ made dir, Prepared start destination name made dir →
    (made.put (dir ++ [name]) none).Enters destination dir

/-- A new archive is at its place. -/
def Packed (start : Disk) (destination : Path) (name : String) (d : Disk) : Prop :=
  ∃ made dir, Prepared start destination name made dir ∧ Placed made (dir ++ [name]) d

/-- Nothing has been done, but that the directory above the archive was created if it was not
there. -/
def Untouched (start : Disk) (path : Path) (d : Disk) : Prop :=
  d = start ∨
    (∀ dir, ¬ start.Enters (holder path) dir) ∧ start.createDirectories (holder path) = .ok d

theorem untouched_of_created (created : start.createDirectories (holder path) = .ok d) :
    Untouched start path d := by
  by_cases there : ∃ dir, start.Enters (holder path) dir
  · obtain ⟨dir, enters⟩ := there
    cases created.symm.trans (Disk.createDirectories_of_enters enters)
    exact .inl rfl
  · exact .inr ⟨fun dir enters => there ⟨dir, enters⟩, created⟩

theorem enters_holder (isName : Path.IsName name) :
    d.Enters (holder (destination.child name)) dir ↔ d.Enters destination dir := by
  obtain ⟨parent, above, same⟩ := Disk.enters_parent_child isName d destination dir
  rw [holder, above]
  exact same

theorem createDirectories_ends (start : Disk) (path : Path) :
    Ends (· = start) (Writing.change (·.createDirectories (holder path)))
      (fun _ d => start.createDirectories (holder path) = .ok d) (fun _ d => d = start) := by
  refine .change ?_ ?_
  · rintro d made rfl done
    exact done
  · rintro d cause rfl _
    rfl

theorem loadAll_ends {kept : Disk → Prop} (files : List OutputFile) :
    Ends kept (loadAll files) (fun _ => kept) fun _ => kept := by
  refine .mapM files fun f _ => ?_
  refine .bind (.look (fun _ _ start _ => start) fun _ _ start _ => start) fun content => ?_
  exact .pure fun _ => id

/-! ## Zip archives -/

/-- A file may take every place but that of a directory. -/
theorem directory_of_mayReplace {f : Disk.File} {there : Option Node} {cause : Disk.Fault}
    (refused : Disk.mayReplace (.file f) there = .error cause) :
    ∃ entries, there = some (.directory entries) := by
  cases there with
  | none => cases refused
  | some n =>
      cases n with
      | file g => cases refused
      | link target => cases refused
      | directory entries => exact ⟨entries, rfl⟩

/-- A file that is published is at its destination, or it was never there because a directory is. -/
theorem publish_ends (enters : made.Enters p dir) (isFresh : Path.IsName fresh)
    (isName : Path.IsName name) (different : fresh ≠ name)
    (absent : made.root.at? (dir ++ [fresh]) = none)
    (clear : (made.put (dir ++ [name]) none).Enters q dir) (data : List UInt8) :
    Ends (· = made) (publish (p.child fresh) (q.child name) data)
      (fun _ d => Placed made (dir ++ [name]) d ∧
        ∃ g, d.root.at? (dir ++ [name]) = some (.file g) ∧ g.data = data)
      (fun _ d => d = made ∧ ∃ entries, made.root.at? (dir ++ [name]) =
        some (.directory entries)) := by
  rintro d rfl
  set f : Disk.File := ⟨data, Disk.newFileMode, d.now⟩
  set staged := d.put (dir ++ [fresh]) (some (.file f))
  have there : staged.root.at? (dir ++ [fresh]) = some (.file f) :=
    Disk.at?_put enters fresh (some (.file f))
  have gone : staged.put (dir ++ [fresh]) none = d := Disk.put_remove absent (.file f)
  have stagedEnters : staged.Enters p dir := enters.beside absent _
  have entersToo : staged.Enters q dir := (clear.of_put_none (by simp)).beside absent _
  have moved := Disk.rename_child stagedEnters isFresh entersToo isName different there
  rw [gone] at moved
  rw [publish, Work.run_bind, Writing.run_change, Disk.write_absent enters isFresh absent data]
  simp only [Work.run_bind, Work.run_tryCatch, Writing.run_change]
  cases replaces : Disk.mayReplace (.file f) (staged.root.at? (dir ++ [name])) with
  | error cause =>
      rw [replaces] at moved
      have removed := Disk.remove_child stagedEnters isFresh there
      rw [gone] at removed
      simp only [staged, f] at moved removed
      simp only [moved, Except.map, Writing.run_attempt, removed]
      rw [Disk.at?_put_other enters (Ne.symm different)] at replaces
      exact Work.ended_error.mpr ⟨rfl, directory_of_mayReplace replaces⟩
  | ok =>
      rw [replaces] at moved
      have entersOut : d.Enters q dir := clear.of_put_none (by simp)
      have placed : Placed d (dir ++ [name]) (d.put (dir ++ [name]) (some (.file f))) :=
        ⟨Disk.put_put_same _ _ _ _, .inl ⟨f, Disk.at?_put entersOut name _⟩⟩
      have entersNow := placed.enters (by simp) clear
      have moded := Disk.setMode_file entersNow isName (Disk.at?_put entersOut name _) defaultMode
      have whole := Disk.at?_put entersNow name (some (.file { f with mode := defaultMode }))
      simp only [staged, f] at moved moded
      simp only [moved, Except.map, moded]
      refine Work.ended_ok.mpr ⟨⟨?_, .inl ⟨_, whole⟩⟩, _, whole, rfl⟩
      rw [Disk.put_put_none, placed.rest]

/-- Nothing is published from a directory that is not there. -/
theorem publish_nowhere (nowhere : ∀ dir, ¬ made.Enters p dir) (isFresh : Path.IsName fresh)
    (path : Path) (data : List UInt8) :
    Ends (· = made) (publish (p.child fresh) path data) (fun _ _ => False)
      (fun _ d => d = made) := by
  rintro d rfl
  rw [publish, Work.run_bind, Writing.run_change]
  cases written : d.write (p.child fresh) data with
  | ok d' =>
      obtain ⟨dir, enters, -⟩ := Disk.filesChild_of_write isFresh written
      exact absurd enters (nowhere dir)
  | error cause => exact Work.ended_error.mpr rfl

/-- Writing a zip archive puts it at its place or leaves nothing behind. -/
theorem writeZip_ends (isName : Path.IsName name) (clear : Clear start destination name)
    (files : List OutputFile) :
    Ends (· = start) (writeZip (destination.child name) files)
      (fun _ => Packed start destination name)
      (fun _ => Untouched start (destination.child name)) := by
  unfold writeZip
  refine .bind ((createDirectories_ends start _).mono (fun _ _ => id) fun _ _ => .inl) fun _ => ?_
  refine .bind ((loadAll_ends files).mono (fun _ _ => id) fun _ _ => untouched_of_created)
    fun contents => ?_
  refine .get fun made created => ?_
  rw [Path.fileName?_child destination isName]
  have isFresh : Path.IsName
      (made.freshName (holder (destination.child name)) ".tmp" (some name)) :=
    Disk.isName_freshName _ _ _ (by decide) (by decide)
  generalize Zip.write _ = data
  have untouched : ∀ d, d = made → Untouched start (destination.child name) d := by
    rintro d rfl
    exact untouched_of_created created
  by_cases somewhere : ∃ dir, made.Enters (holder (destination.child name)) dir
  · obtain ⟨dir, enters⟩ := somewhere
    have prepared : Prepared start destination name made dir :=
      ⟨created, (enters_holder isName).mp enters⟩
    have published := publish_ends enters isFresh isName (Disk.freshName_ne _ _ _ _)
      (Disk.freshName_absent enters _ _) (clear made dir prepared) data
    refine .bind (published.mono (fun _ d placed => ?_) fun _ d same => untouched d same.1) fun _ =>
      .pure fun _ => id
    exact ⟨made, dir, prepared, placed.1⟩
  · have published := publish_nowhere (fun dir enters => somewhere ⟨dir, enters⟩) isFresh
      (destination.child name) data
    exact .bind (published.mono (fun _ _ => False.elim) fun _ => untouched) fun _ =>
      .pure fun _ => id

end FunctionArchive.Archive
