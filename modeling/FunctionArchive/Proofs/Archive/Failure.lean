import FunctionArchive.Archive.Assembly
import FunctionArchive.Proofs.Archive.Directory
import Mathlib

/-!
# Failed assemblies

When the archive of a function cannot be assembled, nothing of the attempt is left but the directory
above the archive, which is created if it is missing (`assemble_failed`). The one exception is an
archive that was ready before: it is copied to its place and only then looked at, and when it turns
out to be none, the copy stays.

The whole of Mathlib is imported for the examples at the end: `cbv` evaluates them with equations of
library functions, such as `List.lookup`, that Mathlib declares.
-/

set_option autoImplicit false

namespace FunctionArchive.Archive

open Work (Ends)
open Disk (Node)

variable {b : Bundle} {f : FunctionSource} {format : ArchiveFormat} {start d : Disk}
  {destination path : Path} {name : String}

/-- The name of the archive of a function. -/
def nameFor (strategy : Strategy) (format : ArchiveFormat) (name : String) : String :=
  if strategy == .passthrough || format == .zip then name ++ ".zip" else name

theorem pathFor_eq (strategy : Strategy) (format : ArchiveFormat) (name : String)
    (destination : Path) :
    pathFor strategy format name destination =
      destination.child (nameFor strategy format name) := by
  unfold pathFor nameFor
  split <;> rfl

/-- An archive that can be put at its place without touching anything else: it has a proper name,
the way to its directory does not lead through what was there before, and no entry of a directory
leaves the directory. -/
structure Placeable (b : Bundle) (f : FunctionSource) (format : ArchiveFormat) (start : Disk)
    (destination : Path) : Prop where
  named : Path.IsName (nameFor b.strategy format f.name)
  clear : Clear start destination (nameFor b.strategy format f.name)
  confined : format = .directory → Confined (contents b)

/-! ## Archives that are written -/

theorem writeBundle_ends (written : b.strategy ≠ .passthrough)
    (placeable : Placeable b f format start destination) :
    Ends (· = start)
      (writeBundle b f format (destination.child (nameFor b.strategy format f.name)))
      (fun _ => Packed start destination (nameFor b.strategy format f.name))
      (fun _ => Untouched start (destination.child (nameFor b.strategy format f.name))) := by
  unfold writeBundle
  rw [if_neg (by simpa using written)]
  cases format with
  | zip => exact writeZip_ends placeable.named placeable.clear (contents b)
  | directory =>
      exact writeDirectory_ends placeable.named placeable.clear (placeable.confined rfl)

/-- The checksum of an archive that is at its place can be taken. -/
theorem checksum_of_packed (isName : Path.IsName name) (clear : Clear start destination name)
    (packed : Packed start destination name d) :
    ∃ checksum, Checksum.ofPath d (destination.child name) = .ok checksum := by
  obtain ⟨made, dir, prepared, placed⟩ := packed
  have enters := placed.enters (by simp) (clear made dir prepared)
  unfold Checksum.ofPath
  rcases placed.there with ⟨g, there⟩ | ⟨entries, there⟩
  · have found : d.find (destination.child name) = .ok ⟨dir ++ [name], .file g⟩ :=
      Disk.lookUp_child_eq isName enters there (.inr nofun)
    rw [found]
    exact ⟨_, rfl⟩
  · have found : d.find (destination.child name) = .ok ⟨dir ++ [name], .directory entries⟩ :=
      Disk.lookUp_child_eq isName enters there (.inr nofun)
    rw [found]
    exact ⟨_, rfl⟩

/-- Taking the checksum changes nothing. -/
theorem checksumOf_ends {kept : Disk → Prop} {failed : ArchiveFlaw → Disk → Prop}
    (there : ∀ d, kept d → ∃ checksum, Checksum.ofPath d path = .ok checksum) :
    Ends kept (checksumOf path) (fun _ => kept) failed := by
  refine .look (fun d _ holds _ => holds) fun d flaw holds refused => ?_
  obtain ⟨checksum, taken⟩ := there d holds
  simp [taken, Except.mapError] at refused

theorem writeAndCheck_ends (written : b.strategy ≠ .passthrough)
    (placeable : Placeable b f format start destination) :
    Ends (· = start)
      (writeAndCheck b f format (destination.child (nameFor b.strategy format f.name)))
      (fun _ => Packed start destination (nameFor b.strategy format f.name))
      (fun _ => Untouched start (destination.child (nameFor b.strategy format f.name))) := by
  refine .bind (writeBundle_ends written placeable) fun entries => ?_
  refine .bind (checksumOf_ends fun d packed => ?_) fun checksum => .pure fun _ => id
  exact checksum_of_packed placeable.named placeable.clear packed

/-! ## Archives that are ready -/

theorem step_ends {before : Disk → Prop} {after : Unit → Disk → Prop}
    {failed : CopyFlaw → Disk → Prop} {g : Disk → Except Disk.Fault Disk}
    (done : ∀ d d', before d → g d = .ok d' → after () d')
    (refused : ∀ d flaw, before d → failed flaw d) :
    Ends before (CopyFlaw.copyFile.step g) after failed := by
  intro d start
  rw [CopyFlaw.copyFile.step, Work.run_bind, Work.run_get]
  dsimp only
  cases result : g d with
  | ok d' => exact Work.ended_ok.mpr (done d d' start result)
  | error cause => exact Work.ended_error.mpr (refused d _ start)

/-- A copy of a file is at its place. -/
def Copied (start : Disk) (source path : Path) (d : Disk) : Prop :=
  ∃ made, Untouched start path made ∧ made.copy source path = .ok d

/-- A file is copied or nothing is done. -/
theorem copyFile_ends (start : Disk) (source path : Path) :
    Ends (· = start) (CopyFlaw.copyFile source path) (fun _ => Copied start source path)
      (fun _ => Untouched start path) := by
  have copying : Ends (Untouched start path) (CopyFlaw.copyFile.step (·.copy source path))
      (fun _ => Copied start source path) (fun _ => Untouched start path) :=
    step_ends (fun made d untouched copied => ⟨made, untouched, copied⟩)
      fun _ _ untouched => untouched
  unfold CopyFlaw.copyFile
  refine .get fun d same => ?_
  subst same
  cases d.find source with
  | error cause =>
      rintro d rfl
      exact Work.ended_error.mpr (.inl rfl)
  | ok place =>
      obtain ⟨names, node⟩ := place
      cases node with
      | link target =>
          rintro d rfl
          exact Work.ended_error.mpr (.inl rfl)
      | directory entries =>
          rintro d rfl
          exact Work.ended_error.mpr (.inl rfl)
      | file g =>
          cases above : path.parent? with
          | none => exact copying.weaken fun made same => .inl same
          | some parent =>
              have creating : Ends (· = d)
                  (CopyFlaw.copyFile.step (·.createDirectories parent))
                  (fun _ => Untouched d path) (fun _ => Untouched d path) := by
                refine step_ends ?_ fun _ _ same => .inl same
                rintro start made rfl created
                refine untouched_of_created ?_
                rwa [holder, above]
              exact .bind creating fun _ => copying

/-- What an archive that was ready leaves when it turns out to be none: its copy. -/
def Miscopied (start : Disk) (source path : Path) (d : Disk) : Prop :=
  Copied start source path d ∧ ∀ data, d.read path = .ok data → Zip.read? data = none

/-- A copy of an archive is at its place and can be read as one. -/
def PassedOn (start : Disk) (source path : Path) (d : Disk) : Prop :=
  Copied start source path d ∧ ∃ data, d.read path = .ok data

theorem passOn_ends (start : Disk) (source path : Path) :
    Ends (· = start) (passOn source path) (fun _ => PassedOn start source path)
      (fun _ d => Untouched start path d ∨ Miscopied start source path d) := by
  unfold passOn
  refine .get fun d same => ?_
  subst same
  have ended := copyFile_ends d source path d rfl
  generalize (CopyFlaw.copyFile source path).run d = result at ended ⊢
  obtain ⟨outcome, d'⟩ := result
  cases outcome with
  | error flaw =>
      have untouched : Untouched d path d' := ended.badly flaw rfl
      rintro d rfl
      exact Work.ended_error.mpr (.inl untouched)
  | ok =>
      have copied : Copied d source path d' := ended.well () rfl
      rintro d rfl
      rw [Work.run_bind]
      show Work.Ended _ _ ((Writing.look _).run d')
      rw [Writing.run_look]
      cases read : d'.read path with
      | error cause => exact Work.ended_error.mpr (.inr ⟨copied, by simp [read]⟩)
      | ok data =>
          cases listed : Zip.read? data with
          | none =>
              have refused : listZip data = .error .notAnArchive := by simp [listZip, listed]
              simp only [refused]
              refine Work.ended_error.mpr (.inr ⟨copied, fun data' same => ?_⟩)
              cases read.symm.trans same
              exact listed
          | some listing =>
              obtain ⟨entries, taken⟩ : ∃ entries, listZip data = .ok entries := by
                simp [listZip, listed]
              simp only [taken]
              exact Work.ended_ok.mpr ⟨copied, data, read⟩

theorem checksum_of_read {data : List UInt8} (read : d.read path = .ok data) :
    ∃ checksum, Checksum.ofPath d path = .ok checksum := by
  unfold Disk.read Disk.file at read
  unfold Checksum.ofPath
  cases found : d.find path with
  | error fault => simp [found, Except.map] at read
  | ok place =>
      obtain ⟨names, node⟩ := place
      cases node <;> exact ⟨_, rfl⟩

/-! ## All archives -/

/-- What is left when an archive cannot be assembled. -/
theorem writeAndCheck_failed
    (written : b.strategy ≠ .passthrough → Placeable b f format start destination) :
    Ends (· = start) (writeAndCheck b f format (pathFor b.strategy format f.name destination))
      (fun _ _ => True)
      (fun _ d => Untouched start (pathFor b.strategy format f.name destination) d ∨
        b.strategy = .passthrough ∧
          Miscopied start f.entry (pathFor b.strategy format f.name destination) d) := by
  by_cases ready : b.strategy = .passthrough
  · unfold writeAndCheck writeBundle
    rw [if_pos (by simp [ready])]
    refine .bind ((passOn_ends start f.entry _).mono (fun _ _ => id) fun _ d => ?_)
      fun entries => ?_
    · exact Or.imp_right fun miscopied => ⟨ready, miscopied⟩
    · refine .bind (checksumOf_ends fun d passed => ?_) fun checksum => .pure fun _ _ => trivial
      obtain ⟨-, data, read⟩ := passed
      exact checksum_of_read read
  · rw [pathFor_eq]
    exact (writeAndCheck_ends ready (written ready)).mono (fun _ _ _ => trivial) fun _ _ => .inl

theorem run_act {α : Type} (path : Path) (work : Writing α) (w : World) :
    (act path work).run w =
      match work.run w.disk with
      | (.ok a, disk) => (.ok a, { w with disk })
      | (.error flaw, disk) => (.error (.archive path flaw), { w with disk }) := by
  unfold act
  rw [Work.run_bind, Work.run_get]
  dsimp only
  rcases work.run w.disk with ⟨outcome, disk⟩
  cases outcome <;> rfl

/-- An assembly leaves the disk that the work on its archive leaves, and fails when that fails. -/
theorem assemble_ended {after failed : Disk → Prop} {w w' : World} {outcome : Outcome Archive}
    (ended : Work.Ended (fun _ => after) (fun _ => failed)
      ((writeAndCheck b f format (pathFor b.strategy format f.name destination)).run w.disk))
    (run : (assemble b f destination format).run w = (outcome, w')) :
    match outcome with
    | .ok _ => after w'.disk
    | .error _ => failed w'.disk := by
  unfold assemble at run
  rw [Work.run_bind, run_act] at run
  generalize (writeAndCheck b f format (pathFor b.strategy format f.name destination)).run
    w.disk = result at ended run
  obtain ⟨written, disk⟩ := result
  cases written with
  | error flaw =>
      cases run
      exact ended.badly flaw rfl
  | ok written =>
      obtain ⟨entries, checksum⟩ := written
      cases run
      exact ended.well _ rfl

/-- **A failed assembly leaves nothing behind**, but that the directory above the archive may have
been created, and but for the copy of an archive that turns out to be none. -/
theorem assemble_failed {w w' : World} {fault : Fault}
    (placeable : b.strategy ≠ .passthrough → Placeable b f format w.disk destination)
    (failed : (assemble b f destination format).run w = (.error fault, w')) :
    Untouched w.disk (pathFor b.strategy format f.name destination) w'.disk ∨
      b.strategy = .passthrough ∧
        Miscopied w.disk f.entry (pathFor b.strategy format f.name destination) w'.disk :=
  assemble_ended (writeAndCheck_failed placeable w.disk rfl) failed

section Example

/-- A file that bears the name of an archive but is none, and an archive of that name from an
earlier run. -/
def spoiledArchive : World where
  disk :=
    { root := .directory
        [("src", .directory [("fn.zip", .file ⟨[80, 75], 0o644, 0⟩)]),
          ("out", .directory [("fn.zip", .file ⟨[1, 2, 3], 0o644, 0⟩)])]
      current := .root
      now := 0 }
  manifests := .empty none
  journal := []

/-- A function whose archive is ready. -/
def readyFunction : FunctionSource := ⟨"fn", .ofNames ["src", "fn.zip"], .archive, "zip", {}⟩

/-- The bundle of a function whose archive is ready. -/
def readyBundle : Bundle := ⟨.passthrough, .archive, .ofNames ["src"], [], [], none⟩

/-- The bundle of a script of which one file has been lost. -/
def tornBundle : Bundle where
  strategy := .graph
  runtime := .script
  base := .ofNames ["src"]
  files := [⟨"fn.js", .bytes [1], none⟩, ⟨"lost.js", .file (.ofNames ["src", "lost.js"]), none⟩]
  warnings := []
  recovered := none

theorem placeable_tornBundle :
    Placeable tornBundle readyFunction .directory spoiledArchive.disk (.ofNames ["out"]) := by
  have enters : spoiledArchive.disk.Enters (.ofNames ["out"]) ["out"] :=
    ⟨[("fn.zip", .file ⟨[1, 2, 3], 0o644, 0⟩)], Disk.leads_of_walk (by cbv)⟩
  have sorted : contents tornBundle = tornBundle.files := by cbv
  refine ⟨by decide, ?_, fun _ => ?_⟩
  · rintro made dir ⟨created, entered⟩
    have above : holder ((Path.ofNames ["out"]).child "fn") = .ofNames ["out"] := by
      decide
    have same : holder ((Path.ofNames ["out"]).child
        (nameFor tornBundle.strategy .directory readyFunction.name)) = .ofNames ["out"] := above
    rw [same, Disk.createDirectories_of_enters enters] at created
    cases created
    obtain rfl := entered.unique enters
    exact ⟨[("fn.zip", .file ⟨[1, 2, 3], 0o644, 0⟩)], Disk.leads_of_walk (by cbv)⟩
  · constructor <;> rw [sorted] <;> decide

theorem assemble_failed_tornBundle :
    ∃ fault w', (assemble tornBundle readyFunction (.ofNames ["out"]) .directory).run
        spoiledArchive = (.error fault, w') ∧
      Untouched spoiledArchive.disk
        (pathFor tornBundle.strategy .directory readyFunction.name (.ofNames ["out"])) w'.disk := by
  rcases run : (assemble tornBundle readyFunction (.ofNames ["out"]) .directory).run
    spoiledArchive with ⟨outcome, w'⟩
  have refused : outcome.toOption = none := by
    rw [show outcome = ((assemble tornBundle readyFunction (.ofNames ["out"]) .directory).run
      spoiledArchive).1 by rw [run]]
    cbv
  cases outcome with
  | ok archive => cases refused
  | error fault =>
      have left := assemble_failed (fun _ => placeable_tornBundle) run
      exact ⟨fault, w', rfl, left.resolve_right fun ready => absurd ready.1 (by decide)⟩

/-- An archive that turns out to be none takes the place of the earlier one. -/
theorem assemble_spoiledArchive :
    ∃ fault, ((assemble readyBundle readyFunction (.ofNames ["out"]) .zip).run
        spoiledArchive).1 = .error fault ∧
      spoiledArchive.disk.read (.ofNames ["out", "fn.zip"]) = .ok [1, 2, 3] ∧
      ((assemble readyBundle readyFunction (.ofNames ["out"]) .zip).run
        spoiledArchive).2.disk.read (.ofNames ["out", "fn.zip"]) = .ok [80, 75] := by
  have failed : ((assemble readyBundle readyFunction (.ofNames ["out"]) .zip).run
      spoiledArchive).1.toOption = none := by cbv
  have before : spoiledArchive.disk.read (.ofNames ["out", "fn.zip"]) = .ok [1, 2, 3] := by cbv
  have later : ((assemble readyBundle readyFunction (.ofNames ["out"]) .zip).run
      spoiledArchive).2.disk.read (.ofNames ["out", "fn.zip"]) = .ok [80, 75] := by cbv
  cases outcome : ((assemble readyBundle readyFunction (.ofNames ["out"]) .zip).run
      spoiledArchive).1 with
  | ok archive =>
      rw [outcome] at failed
      cases failed
  | error fault => exact ⟨fault, rfl, before, later⟩

end Example

end FunctionArchive.Archive
