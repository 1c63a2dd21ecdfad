import FunctionArchive.Proofs.Archive.Placing
import FunctionArchive.Proofs.Disk.Inside

/-!
# Writing directories

The entries of a directory are written below a new entry beside its place, which then takes that
place as a whole. Entries whose names lead downwards, none of them through a link of the archive,
are `Confined`: whatever happens, they change nothing but that new entry (`writeEntry_ends`). So
writing a directory puts it at its place, or nothing of it is left (`writeDirectory_ends`).
-/

set_option autoImplicit false

namespace FunctionArchive

namespace OutputFile

/-- The parts of the name of an entry. -/
def parts (f : OutputFile) : List String := Path.split f.name.toList

/-- Whether an entry is a link. -/
def isLink (f : OutputFile) : Bool :=
  match f.source with
  | .link _ => true
  | _ => false

theorem parts_eq_concat (f : OutputFile) : ∃ front last, f.parts = front ++ [last] := by
  have notEmpty : f.parts ≠ [] := by
    simp [parts, Path.split, List.splitOn_ne_nil]
  exact ⟨_, _, (List.dropLast_concat_getLast notEmpty).symm⟩

end OutputFile

namespace Archive

open Work (Ends)
open Disk (Node)

variable {d made start : Disk} {p q destination : Path} {dir : List String}
  {name fresh : String} {files : List OutputFile} {f : OutputFile}

/-- Entries that stay below the directory in which they are written: their names lead downwards, and
none of them leads through a link among them. -/
structure Confined (files : List OutputFile) : Prop where
  proper : ∀ f ∈ files, ∀ part ∈ f.parts, Path.IsName part
  apart : ∀ link ∈ files, link.isLink = true → ∀ f ∈ files, f ≠ link → ¬ link.parts <+: f.parts

/-- The names of the links among some entries. -/
def Linked (files : List OutputFile) (names : List String) : Prop :=
  ∃ link ∈ files, link.isLink = true ∧ link.parts = names

/-! ## Entries -/

/-- No link stands above an entry. -/
theorem Confined.free_above {front : List String} {last : String} (confined : Confined files)
    (member : f ∈ files) (split : f.parts = front ++ [last]) :
    ∀ before, before <+: front → ¬ Linked files before := by
  rintro before prefixed ⟨link, linkMember, isLink, rfl⟩
  by_cases same : f = link
  · subst same
    have short := prefixed.length_le
    simp only [split, List.length_append, List.length_singleton] at short
    omega
  · refine confined.apart link linkMember isLink f member same ?_
    rw [split]
    exact prefixed.trans (List.prefix_append _ _)

/-- Nor at an entry that is no link. -/
theorem Confined.free (confined : Confined files) (member : f ∈ files)
    (notLink : f.isLink = false) :
    ∀ before, before <+: f.parts → ¬ Linked files before := by
  rintro before prefixed ⟨link, linkMember, isLink, rfl⟩
  refine confined.apart link linkMember isLink f member ?_ prefixed
  rintro rfl
  simp [isLink] at notLink

/-- Whether an entry holds the text of a link. -/
def Content.isLink : Content → Bool
  | .file _ _ => false
  | .link _ => true

theorem isLink_of_load {content : Content} (loaded : load d f = .ok content) :
    f.isLink = content.isLink := by
  unfold load at loaded
  unfold OutputFile.isLink
  cases source : f.source with
  | bytes data =>
      simp only [source, Except.ok.injEq] at loaded
      rw [← loaded]
      rfl
  | link target =>
      simp only [source, Except.ok.injEq] at loaded
      rw [← loaded]
      rfl
  | file path =>
      simp only [source] at loaded
      cases read : d.file path with
      | error cause => simp [read] at loaded
      | ok g =>
          simp only [read, Except.ok.injEq] at loaded
          rw [← loaded]
          rfl

section Staging

variable (enters : made.Enters p dir) (isFresh : Path.IsName fresh)

include enters isFresh

/-- Writing an entry changes nothing but the directory that is being written. -/
theorem writeEntry_ends (confined : Confined files) (member : f ∈ files) :
    Ends (Disk.Stage made (dir ++ [fresh]) (Linked files)) (writeEntry (p.child fresh) f)
      (fun _ => Disk.Stage made (dir ++ [fresh]) (Linked files))
      (fun _ => Disk.Stage made (dir ++ [fresh]) (Linked files)) := by
  obtain ⟨front, last, split⟩ := f.parts_eq_concat
  have proper := confined.proper f member
  rw [split] at proper
  have properFront : ∀ part ∈ front, Path.IsName part := fun part inside =>
    proper part (by simp [inside])
  have isLast : Path.IsName last := proper last (by simp)
  have place : placeOf (p.child fresh) f.name = ((p.child fresh).below front).child last := by
    rw [← Path.below_concat, ← split]
    rfl
  have parent : (placeOf (p.child fresh) f.name).parent? = some ((p.child fresh).below front) := by
    rw [place, ← Path.below_concat, Path.parent?_below isFresh proper]
  unfold writeEntry
  simp only [parent]
  refine .bind (.keep fun d d' stage created => ?_) fun _ => ?_
  · exact stage.createDirectories enters isFresh properFront (confined.free_above member split)
      created
  have loads : Ends (Disk.Stage made (dir ++ [fresh]) (Linked files)) (Writing.look (load · f))
      (fun content d => Disk.Stage made (dir ++ [fresh]) (Linked files) d ∧
        f.isLink = content.isLink)
      (fun _ => Disk.Stage made (dir ++ [fresh]) (Linked files)) := by
    refine .look (fun d content stage loaded => ⟨stage, isLink_of_load loaded⟩) ?_
    exact fun _ _ stage _ => stage
  refine .bind loads fun content => .given fun isLink => ?_
  cases content with
  | file data mode =>
      have onFile {change : Disk → Except Disk.Fault Disk}
          (filed : ∀ d d', change d = .ok d' →
            d.FilesChild ((p.child fresh).below front) last d') :
          Ends (Disk.Stage made (dir ++ [fresh]) (Linked files)) (Writing.change change)
            (fun _ => Disk.Stage made (dir ++ [fresh]) (Linked files))
            (fun _ => Disk.Stage made (dir ++ [fresh]) (Linked files)) := by
        have free := confined.free member isLink
        rw [split] at free
        refine .keep fun d d' stage done => ?_
        exact stage.filesChild enters isFresh proper free (filed d d' done)
      rw [place]
      refine .bind (onFile fun d d' written => Disk.filesChild_of_write isLast written) fun _ => ?_
      refine .bind (onFile fun d d' moded => Disk.filesChild_of_touch isLast moded) fun _ => ?_
      refine .bind (onFile fun d d' dated => Disk.filesChild_of_touch isLast dated) fun _ => ?_
      exact .pure fun _ => id
  | link target =>
      rw [place, ← Path.below_concat]
      refine .bind (.keep fun d d' stage created => ?_) fun _ => .pure fun _ => id
      unfold Disk.createLink at created
      split at created
      · cases created
      · refine stage.create enters isFresh proper ?_ ?_ created
        · simpa using confined.free_above member split
        · intro back target' there
          cases back with
          | nil => exact ⟨f, member, isLink, by simp [split]⟩
          | cons first rest => simp [Node.at?, Node.child?] at there

/-- When the work on a directory is given up, nothing of it is left. -/
theorem stage_removed {linked : List String → Prop}
    (stage : Disk.Stage made (dir ++ [fresh]) linked d) :
    (d.removeDirectory (p.child fresh)).toOption.getD d = made := by
  obtain ⟨entries, there⟩ := stage.there
  rw [Disk.removeDirectory_child (stage.enters (by simp) enters) isFresh there, stage.rest]
  rfl

end Staging

/-! ## Taking the place of another directory -/

theorem run_replaceDirectory (staged root : Path) (d : Disk) :
    (replaceDirectory staged root).run d =
      match d.removeDirectory root with
      | .ok d' => (Writing.change (·.rename staged root)).run d'
      | .error .notFound => (Writing.change (·.rename staged root)).run d
      | .error cause => (.error (.io cause), d) := by
  unfold replaceDirectory
  rw [Work.run_bind, Work.run_get]
  dsimp only
  rw [Disk.Edit.run_replaceDirectory]
  simp only [Writing.run_change, Disk.Edit.run_change]
  cases d.removeDirectory root with
  | ok d' =>
      dsimp only
      cases d'.rename staged root <;> rfl
  | error fault =>
      cases fault with
      | notFound =>
          dsimp only
          cases d.rename staged root <;> rfl
      | _ => rfl

section Moving

variable (clearToo : (made.put (dir ++ [name]) none).Enters p dir)
  (clear : (made.put (dir ++ [name]) none).Enters q dir) (isFresh : Path.IsName fresh)
  (isName : Path.IsName name) (different : fresh ≠ name)

include clearToo clear isFresh isName different

/-- When nothing is at its place, the directory that was written is moved there. -/
theorem rename_stage {linked : List String → Prop}
    (stage : Disk.Stage made (dir ++ [fresh]) linked d) :
    ∃ d', (d.put (dir ++ [name]) none).rename (p.child fresh) (q.child name) = .ok d' ∧
      (Placed made (dir ++ [name]) d' ∧ d'.Enters p dir ∧ d'.root.at? (dir ++ [fresh]) = none) ∧
        d'.root.at? (dir ++ [name]) = d.root.at? (dir ++ [fresh]) := by
  obtain ⟨entries, there⟩ := stage.there
  set cleared := d.put (dir ++ [name]) none with cleared_eq
  have without : cleared.put (dir ++ [fresh]) none = made.put (dir ++ [name]) none := by
    rw [← stage.rest, cleared_eq]
    simp only [Disk.put, Node.alter_none_comm]
  have enters : cleared.Enters p dir := by
    rw [← without] at clearToo
    exact clearToo.of_put_none (by simp)
  have entersToo : cleared.Enters q dir := by
    rw [← without] at clear
    exact clear.of_put_none (by simp)
  have still : cleared.root.at? (dir ++ [fresh]) = some (.directory entries) := by
    rw [cleared_eq, Disk.at?_put_other (stage.enters (by simp) (clearToo.of_put_none (by simp)))
      different, there]
  have gone : cleared.root.at? (dir ++ [name]) = none := Node.at?_alter_none (by simp) _
  have absent : made.root.at? (dir ++ [fresh]) = none := by
    rw [← stage.rest]
    exact Node.at?_alter_none (by simp) _
  refine ⟨(made.put (dir ++ [name]) none).put (dir ++ [name]) (some (.directory entries)),
    ?_, ⟨⟨?_, .inr ⟨entries, Disk.at?_put clear name _⟩⟩, ?_, ?_⟩, ?_⟩
  · rw [Disk.rename_child enters isFresh entersToo isName different still, gone, without]
    rfl
  · rw [Disk.put_put_none, Disk.put_put_none]
  · exact clearToo.beside (Node.at?_alter_none (by simp) _) _
  · rw [Disk.at?_put_other clearToo different,
      Disk.at?_put_other (clearToo.of_put_none (by simp)) different, absent]
  · rw [Disk.at?_put clear, there]

/-- Replacing what is at the place of a directory succeeds as a whole or, if a file is there,
changes nothing. -/
theorem replaceDirectory_ends (linked : List String → Prop) (n : Node) :
    Ends (fun d => Disk.Stage made (dir ++ [fresh]) linked d ∧ d.root.at? (dir ++ [fresh]) = some n)
      (replaceDirectory (p.child fresh) (q.child name))
      (fun _ d => (Placed made (dir ++ [name]) d ∧ d.Enters p dir ∧
        d.root.at? (dir ++ [fresh]) = none) ∧ d.root.at? (dir ++ [name]) = some n)
      (fun _ d => Disk.Stage made (dir ++ [fresh]) linked d ∧
        ∃ f, d.root.at? (dir ++ [name]) = some (.file f)) := by
  rintro d ⟨stage, standing⟩
  obtain ⟨d', renamed, placed⟩ := rename_stage clearToo clear isFresh isName different stage
  rw [standing] at placed
  have entersToo : d.Enters q dir := stage.enters (by simp) (clear.of_put_none (by simp))
  have moved : (Writing.change (·.rename (p.child fresh) (q.child name))).run
      (d.put (dir ++ [name]) none) = (.ok (), d') := by
    rw [Writing.run_change, renamed]
  rw [run_replaceDirectory]
  cases removed : d.removeDirectory (q.child name) with
  | ok cleared =>
      obtain ⟨rfl, -⟩ := Disk.of_removeDirectory_child entersToo isName removed
      dsimp only
      rw [moved]
      exact Work.ended_ok.mpr placed
  | error cause =>
      by_cases notFound : cause = .notFound
      · subst notFound
        have absent := Disk.absent_of_removeDirectory entersToo isName removed
        have same : d.put (dir ++ [name]) none = d := by
          rw [Disk.put, Node.alter_eq_self absent.symm]
        rw [same] at moved
        dsimp only
        rw [moved]
        exact Work.ended_ok.mpr placed
      · have occupied := Disk.file_of_removeDirectory entersToo isName removed notFound
        cases cause with
        | notFound => exact absurd rfl notFound
        | _ => exact Work.ended_error.mpr ⟨stage, occupied⟩

end Moving

/-! ## Directories -/

/-- The work on a directory begins when an empty one has been made. -/
theorem stage_start {linked : List String → Prop} (enters : made.Enters p dir)
    (isFresh : Path.IsName fresh) (absent : made.root.at? (dir ++ [fresh]) = none) :
    Ends (· = made) (Writing.change (·.createDirectory (p.child fresh)))
      (fun _ => Disk.Stage made (dir ++ [fresh]) linked) (fun _ d => d = made) := by
  refine .change ?_ ?_
  · rintro d d' rfl created
    rw [Disk.createDirectory_absent enters isFresh absent] at created
    cases created
    have there := Disk.at?_put enters fresh (some (.directory []))
    refine ⟨Disk.put_remove absent _, ⟨[], there⟩, fun names target isLink => ?_⟩
    rw [Node.at?_append, there] at isLink
    cases names with
    | nil => cases isLink
    | cons first rest => simp [Node.at?, Node.child?] at isLink
  · rintro d cause rfl _
    rfl

/-- Without the directory above nothing is begun. -/
theorem createDirectory_nowhere (nowhere : ∀ dir, ¬ made.Enters p dir)
    (isFresh : Path.IsName fresh) :
    Ends (· = made) (Writing.change (·.createDirectory (p.child fresh))) (fun _ _ => False)
      (fun _ d => d = made) := by
  refine .change ?_ ?_
  · rintro d d' rfl created
    obtain ⟨dir, enters, -⟩ := Disk.of_create_child isFresh created
    exact absurd enters (nowhere dir)
  · rintro d cause rfl _
    rfl

/-- The work on a directory that was begun is completed or leaves no trace. -/
theorem writeInside_ends (enters : made.Enters p dir)
    (clearToo : (made.put (dir ++ [name]) none).Enters p dir)
    (clear : (made.put (dir ++ [name]) none).Enters q dir) (isFresh : Path.IsName fresh)
    (isName : Path.IsName name) (different : fresh ≠ name) (confined : Confined files) :
    Ends (Disk.Stage made (dir ++ [fresh]) (Linked files))
      (tryFinally (do
        let entries ← files.mapM (writeEntry (p.child fresh))
        replaceDirectory (p.child fresh) (q.child name)
        return entries) (Writing.attempt (·.removeDirectory (p.child fresh))))
      (fun _ => Placed made (dir ++ [name])) (fun _ d => d = made) := by
  have worked : Ends (Disk.Stage made (dir ++ [fresh]) (Linked files))
      (do
        let entries ← files.mapM (writeEntry (p.child fresh))
        replaceDirectory (p.child fresh) (q.child name)
        return entries)
      (fun _ d => Placed made (dir ++ [name]) d ∧ d.Enters p dir ∧
        d.root.at? (dir ++ [fresh]) = none)
      (fun _ => Disk.Stage made (dir ++ [fresh]) (Linked files)) := by
    refine .bind (.mapM files fun f member => writeEntry_ends enters isFresh confined member)
      fun entries => ?_
    have replaced : Ends (Disk.Stage made (dir ++ [fresh]) (Linked files))
        (replaceDirectory (p.child fresh) (q.child name))
        (fun _ d => Placed made (dir ++ [name]) d ∧ d.Enters p dir ∧
          d.root.at? (dir ++ [fresh]) = none)
        (fun _ => Disk.Stage made (dir ++ [fresh]) (Linked files)) := by
      intro d stage
      obtain ⟨inside, there⟩ := stage.there
      have ended := replaceDirectory_ends clearToo clear isFresh isName different (Linked files)
        (.directory inside)
      exact (ended.mono (fun _ _ => And.left) fun _ _ => And.left) d ⟨stage, there⟩
    exact .bind replaced fun _ => .pure fun _ => id
  refine worked.afterwards (Writing.run_attempt _) ?_ fun _ d stage =>
    stage_removed enters isFresh stage
  rintro entries d ⟨placed, entersNow, gone⟩
  cases removed : d.removeDirectory (p.child fresh) with
  | error cause => exact placed
  | ok d' => exact absurd gone (Disk.of_removeDirectory_child entersNow isFresh removed).2

/-- Writing a directory puts it at its place or leaves nothing behind. -/
theorem writeDirectory_ends (isName : Path.IsName name) (clear : Clear start destination name)
    (confined : Confined files) :
    Ends (· = start) (writeDirectory (destination.child name) files)
      (fun _ => Packed start destination name)
      (fun _ => Untouched start (destination.child name)) := by
  unfold writeDirectory
  refine .bind ((createDirectories_ends start _).mono (fun _ _ => id) fun _ _ => .inl) fun _ => ?_
  refine .get fun made created => ?_
  rw [Path.fileName?_child destination isName]
  set p := holder (destination.child name)
  have isFresh : Path.IsName (made.freshName p ".staged-" (some name)) :=
    Disk.isName_freshName _ _ _ (by decide) (by decide)
  have different := Disk.freshName_ne made p ".staged-" name
  have absent (dir : List String) (enters : made.Enters p dir) :=
    Disk.freshName_absent enters ".staged-" (some name)
  generalize made.freshName p ".staged-" (some name) = fresh at isFresh different absent
  have untouched : ∀ d, d = made → Untouched start (destination.child name) d := by
    rintro d rfl
    exact untouched_of_created created
  by_cases somewhere : ∃ dir, made.Enters p dir
  · obtain ⟨dir, enters⟩ := somewhere
    have entersToo := (enters_holder isName).mp enters
    have prepared : Prepared start destination name made dir := ⟨created, entersToo⟩
    have clear := clear made dir prepared
    have clearToo : (made.put (dir ++ [name]) none).Enters p dir := (enters_holder isName).mpr clear
    have started : Ends (· = made) (Writing.change (·.createDirectory (p.child fresh)))
        (fun _ => Disk.Stage made (dir ++ [fresh]) (Linked files)) (fun _ d => d = made) :=
      stage_start enters isFresh (absent dir enters)
    refine .bind (started.mono (fun _ _ => id) fun _ => untouched) fun _ => ?_
    have worked := writeInside_ends enters clearToo clear isFresh isName different confined
    refine .bind (worked.mono (fun _ _ => id) fun _ => untouched) fun entries => ?_
    have moded : Ends (Placed made (dir ++ [name]))
        (Writing.change (·.setMode (destination.child name) 0o755))
        (fun _ => Packed start destination name)
        (fun _ => Untouched start (destination.child name)) := by
      refine .change (fun d d' placed moded => ?_) fun d cause placed refused => ?_
      · obtain ⟨d'', moded', placed'⟩ := placed.setMode (placed.enters (by simp) clear) isName 0o755
        cases moded.symm.trans moded'
        exact ⟨made, dir, prepared, placed'⟩
      · obtain ⟨d'', moded', -⟩ := placed.setMode (placed.enters (by simp) clear) isName 0o755
        cases refused.symm.trans moded'
    exact .bind moded fun _ => .pure fun _ => id
  · have nothing := createDirectory_nowhere (fun dir enters => somewhere ⟨dir, enters⟩) isFresh
    exact .bind (nothing.mono (fun _ _ => id) fun _ => untouched) fun _ _ => False.elim

end Archive

end FunctionArchive
