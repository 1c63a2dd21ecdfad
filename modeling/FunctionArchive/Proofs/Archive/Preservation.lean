import FunctionArchive.Packing
import FunctionArchive.Proofs.Archive.Failure
import FunctionArchive.Proofs.Bundling

/-!
# What packing preserves

Packing a function reads files and changes nothing but the entry at the place of its archive, apart
from the directory above it (`pack_preserves`). That needs an output that is apart from what is
read: a file that is only found through the place of the archive is lost when the archive takes that
place.
-/

set_option autoImplicit false

namespace FunctionArchive

namespace Disk

variable {d d' : Disk} {p : Path} {f : File}

/-- A file that is read is read as it was from everything that has all that was there. -/
theorem Extends.file (grown : d.Extends d') (read : d.file p = .ok f) : d'.file p = .ok f := by
  unfold Disk.file find lookUp at *
  have names : d'.namesOf p = d.namesOf p := by rw [namesOf, namesOf, grown.current]
  cases empty : (!p.absolute && p.names.isEmpty) with
  | true => simp [empty] at read
  | false =>
      simp only [empty, Bool.false_eq_true, if_false, names] at read ⊢
      cases found : walk d.root true maxLinks [] (d.namesOf p) with
      | error fault => simp [found] at read
      | ok place =>
          obtain ⟨reached, node⟩ := place
          cases node with
          | link target => simp [found] at read
          | directory entries => simp [found] at read
          | file g =>
              simp only [found, Except.ok.injEq] at read
              subst read
              obtain ⟨m, leads, same⟩ := (leads_of_walk found).extend grown.root
              cases Node.eq_file_of_outline same
              rw [leads.walk_eq]

theorem extends_put_none {names : List String} (notEmpty : names ≠ []) (d : Disk) :
    (d.put names none).Extends d :=
  ⟨Node.extends_of_removed notEmpty d.root, rfl, rfl⟩

end Disk

namespace Archive

open Work (Ends)
open Disk (Node)

variable {b : Bundle} {f : FunctionSource} {format : ArchiveFormat} {start made d : Disk}
  {destination source path q : Path} {name : String} {dir : List String}

/-! ## Copies -/

/-- A copy that does not go through a link changes nothing but the entry at its place. -/
theorem copy_placed (isName : Path.IsName name)
    (plain : ∀ dir target, made.Enters q dir → made.root.at? (dir ++ [name]) ≠ some (.link target))
    (copied : made.copy source (q.child name) = .ok d) :
    ∃ dir, made.Enters q dir ∧ Placed made (dir ++ [name]) d := by
  unfold Disk.copy at copied
  obtain ⟨g, -, copied⟩ := Disk.ok_of_bind copied
  obtain ⟨emptied, cleared, copied⟩ := Disk.ok_of_bind copied
  obtain ⟨data, -, copied⟩ := Disk.ok_of_bind copied
  obtain ⟨filled, written, moded⟩ := Disk.ok_of_bind copied
  obtain ⟨dir, enters, ends⟩ := Disk.of_writeNew_child isName cleared
  obtain ⟨lone, h, rfl⟩ := ends.resolve_left fun ⟨target, isLink⟩ => plain dir target enters isLink
  have clear := enters.without_file lone
  have there := Disk.at?_put enters name (some (.file h))
  have first : Placed made (dir ++ [name]) (made.put (dir ++ [name]) (some (.file h))) :=
    ⟨Disk.put_put_none _ _ _, .inl ⟨h, there⟩⟩
  have entersFirst := first.enters (by simp) clear
  obtain ⟨dir', enters', ends'⟩ := Disk.of_writeNew_child isName written
  obtain rfl := enters'.unique entersFirst
  obtain ⟨-, h', rfl⟩ := ends'.resolve_left fun ⟨target, isLink⟩ => by
    cases there.symm.trans isLink
  have second : Placed made (dir' ++ [name])
      ((made.put (dir' ++ [name]) (some (.file h))).put (dir' ++ [name]) (some (.file h'))) := by
    refine ⟨?_, .inl ⟨h', Disk.at?_put entersFirst name _⟩⟩
    rw [Disk.put_put_none, Disk.put_put_none]
  obtain ⟨d', moded', third⟩ := second.setMode (second.enters (by simp) clear) isName g.mode
  cases moded.symm.trans moded'
  exact ⟨dir', enters, third⟩

/-! ## Whole archives -/

/-- What an assembly changes: the entry at the place of the archive, in a directory that may have
been created, and nothing else. -/
def Framed (start : Disk) (destination : Path) (name : String) (d : Disk) : Prop :=
  Untouched start (destination.child name) d ∨ Packed start destination name d

theorem prepared_of_untouched (isName : Path.IsName name)
    (untouched : Untouched start (destination.child name) made)
    (enters : made.Enters destination dir) :
    Prepared start destination name made dir := by
  rcases untouched with rfl | ⟨-, created⟩
  · exact ⟨Disk.createDirectories_of_enters ((enters_holder isName).mpr enters), enters⟩
  · exact ⟨created, enters⟩

/-- No link stands at the place of an archive. -/
def Plain (start : Disk) (destination : Path) (name : String) : Prop :=
  ∀ made dir target, Prepared start destination name made dir →
    made.root.at? (dir ++ [name]) ≠ some (.link target)

theorem packed_of_copied (isName : Path.IsName name) (plain : Plain start destination name)
    (copied : Copied start source (destination.child name) d) :
    Packed start destination name d := by
  obtain ⟨made, untouched, copied⟩ := copied
  have noLink (dir : List String) (target : String) (enters : made.Enters destination dir) :
      made.root.at? (dir ++ [name]) ≠ some (.link target) :=
    plain made dir target (prepared_of_untouched isName untouched enters)
  obtain ⟨dir, enters, placed⟩ := copy_placed isName noLink copied
  exact ⟨made, dir, prepared_of_untouched isName untouched enters, placed⟩

end Archive

/-! ## Inputs -/

/-- The file on the disk that holds what belongs into an archive. -/
def Source.path? : Source → Option Path
  | .file path => some path
  | _ => none

/-- The files that are read for the archive of a bundle. -/
def Bundle.inputs (b : Bundle) (f : FunctionSource) : List Path :=
  f.entry :: b.files.filterMap (·.source.path?)

namespace Archive

variable {b : Bundle} {f : FunctionSource} {format : ArchiveFormat} {start made d : Disk}
  {destination source path q : Path} {name : String} {dir : List String}

/-- An archive whose place is apart from everything that is read for it: it can be put there, a copy
goes through no link, and all inputs are found without what was there before. -/
structure Apart (b : Bundle) (f : FunctionSource) (format : ArchiveFormat) (start : Disk)
    (destination : Path) : Prop where
  named : Path.IsName (nameFor b.strategy format f.name)
  written : b.strategy ≠ .passthrough → Placeable b f format start destination
  copied : b.strategy = .passthrough → Plain start destination (nameFor b.strategy format f.name)
  inputs : ∀ made dir, Prepared start destination (nameFor b.strategy format f.name) made dir →
    ∀ p ∈ b.inputs f, ∀ file, start.file p = .ok file →
      (made.put (dir ++ [nameFor b.strategy format f.name]) none).file p = .ok file

/-- Writing an archive changes nothing but its entry, whether it succeeds or not. -/
theorem writeAndCheck_framed (apart : Apart b f format start destination) :
    Work.Ends (· = start)
      (writeAndCheck b f format (pathFor b.strategy format f.name destination))
      (fun _ => Framed start destination (nameFor b.strategy format f.name))
      (fun _ => Framed start destination (nameFor b.strategy format f.name)) := by
  rw [pathFor_eq]
  by_cases ready : b.strategy = .passthrough
  · have packed {d : Disk} := @packed_of_copied start d destination f.entry
      (nameFor b.strategy format f.name) apart.named (apart.copied ready)
    unfold writeAndCheck writeBundle
    rw [if_pos (by simp [ready])]
    have passed := passOn_ends start f.entry (destination.child (nameFor b.strategy format f.name))
    have framed : Work.Ends (· = start)
        (passOn f.entry (destination.child (nameFor b.strategy format f.name)))
        (fun _ => Framed start destination (nameFor b.strategy format f.name))
        (fun _ => Framed start destination (nameFor b.strategy format f.name)) := by
      refine passed.mono (fun _ d copied => .inr (packed copied.1)) ?_
      rintro flaw d (untouched | miscopied)
      · exact .inl untouched
      · exact .inr (packed miscopied.1)
    refine framed.bind fun entries => ?_
    refine .bind (.look (fun d checksum framed _ => framed) fun d flaw framed _ => framed)
      fun checksum => .pure fun _ => id
  · exact (writeAndCheck_ends ready (apart.written ready)).mono (fun _ _ => Or.inr)
      fun _ _ => Or.inl

/-- Inputs that are apart from the archive keep their content. -/
theorem Framed.input {p : Path} {file : Disk.File} (apart : Apart b f format start destination)
    (framed : Framed start destination (nameFor b.strategy format f.name) d)
    (input : p ∈ b.inputs f) (read : start.file p = .ok file) : d.file p = .ok file := by
  rcases framed with (rfl | ⟨-, created⟩) | ⟨made, dir, prepared, placed⟩
  · exact read
  · exact (Disk.extends_of_createDirectories created).file read
  · have without := apart.inputs made dir prepared p input file read
    rw [← placed.rest] at without
    exact (Disk.extends_put_none (by simp) d).file without

end Archive

namespace Packing

open Archive

variable {s : Settings} {f : FunctionSource} {destination : Path}

/-- **Packing preserves its inputs.** With an engine that keeps to its own directory and an archive
whose place is apart from what is read for it, packing a function changes nothing but the entry of
the archive, and every file that is read for the archive keeps its content. -/
theorem pack_preserves {w w' : World} {outcome : Outcome Archive} (contained : s.engine.Contained)
    (apart : ∀ b w₁, (Bundle.make s f).run w = (.ok b, w₁) →
      Apart b f s.format w.disk destination)
    (run : (pack s f destination).run w = (outcome, w')) :
    (w'.disk = w.disk ∨ ∃ b w₁, (Bundle.make s f).run w = (.ok b, w₁) ∧
      Framed w.disk destination (nameFor b.strategy s.format f.name) w'.disk) ∧
    ∀ p file, (p = f.entry ∨ ∃ b w₁, (Bundle.make s f).run w = (.ok b, w₁) ∧ p ∈ b.inputs f) →
      w.disk.file p = .ok file → w'.disk.file p = .ok file := by
  unfold pack at run
  rw [Work.run_bind] at run
  have left := Bundle.make_leaves (s := s) (f := f) (d := w.disk) contained w rfl
  rcases made : (Bundle.make s f).run w with ⟨bundled, w₁⟩
  rw [made] at run left
  cases bundled with
  | error fault =>
      have same : w₁.disk = w.disk := left.badly fault rfl
      cases run
      exact ⟨.inl same, fun p file _ read => by rw [same, read]⟩
  | ok b =>
      have same : w₁.disk = w.disk := left.well b rfl
      have apart := apart b w₁ made
      have ended := assemble_ended (writeAndCheck_framed apart w₁.disk same) run
      have framed : Framed w.disk destination (nameFor b.strategy s.format f.name) w'.disk := by
        cases outcome <;> exact ended
      refine ⟨.inr ⟨b, w₁, rfl, framed⟩, fun p file reads read => framed.input apart ?_ read⟩
      rcases reads with rfl | ⟨b', w₂, made', member⟩
      · exact List.mem_cons_self
      · cases made'
        exact member

section Example

/-- An engine that refuses all work. -/
def idleEngine : Engine := ⟨"idle", fun _ => throw (.other "idle")⟩

/-- Settings without options. -/
def plainSettings : Settings := ⟨{}, [], none, .zip, [".js"], false, none, idleEngine⟩

/-- A function that is an executable. -/
def nativeFunction : FunctionSource := ⟨"fn", .ofNames ["src", "fn.zip"], .otherNative, "", {}⟩

theorem contained_idleEngine : plainSettings.engine.Contained := by
  rintro r names d d' outcome - there run
  cases run
  exact ⟨rfl, there⟩

theorem apart_nativeFunction :
    Apart (.ofSingleFile .binary nativeFunction) nativeFunction .zip spoiledArchive.disk
      (.ofNames ["out"]) := by
  have named : nameFor (Bundle.ofSingleFile .binary nativeFunction).strategy .zip
      nativeFunction.name = "fn.zip" := by decide
  have enters : spoiledArchive.disk.Enters (.ofNames ["out"]) ["out"] :=
    ⟨[("fn.zip", .file ⟨[1, 2, 3], 0o644, 0⟩)], Disk.leads_of_walk (by cbv)⟩
  have prepared {made : Disk} {dir : List String}
      (prepared : Prepared spoiledArchive.disk (.ofNames ["out"]) "fn.zip" made dir) :
      made = spoiledArchive.disk ∧ dir = ["out"] := by
    obtain ⟨created, entered⟩ := prepared
    have above : holder ((Path.ofNames ["out"]).child "fn.zip") = .ofNames ["out"] := by
      decide
    rw [above, Disk.createDirectories_of_enters enters] at created
    cases created
    exact ⟨rfl, entered.unique enters⟩
  have clear : Clear spoiledArchive.disk (.ofNames ["out"]) "fn.zip" := by
    intro made dir ready
    obtain ⟨rfl, rfl⟩ := prepared ready
    exact ⟨[], Disk.leads_of_walk (by cbv)⟩
  refine ⟨by decide, fun _ => ⟨by decide, ?_, ?_⟩, ?_, ?_⟩
  · rw [named]
    exact clear
  · rintro ⟨⟩
  · rintro ⟨⟩
  · rw [named]
    intro made dir ready p member file read
    obtain ⟨rfl, rfl⟩ := prepared ready
    have entry : p = .ofNames ["src", "fn.zip"] := by
      simpa [Bundle.inputs, Bundle.ofSingleFile, Source.path?, nativeFunction] using member
    subst entry
    rw [← read]
    cbv

theorem pack_preserves_nativeFunction :
    ∃ outcome w', (pack plainSettings nativeFunction (.ofNames ["out"])).run spoiledArchive =
        (outcome, w') ∧
      spoiledArchive.disk.file nativeFunction.entry = .ok ⟨[80, 75], 0o644, 0⟩ ∧
      w'.disk.file nativeFunction.entry = .ok ⟨[80, 75], 0o644, 0⟩ := by
  rcases run : (pack plainSettings nativeFunction (.ofNames ["out"])).run spoiledArchive
    with ⟨outcome, w'⟩
  have read : spoiledArchive.disk.file nativeFunction.entry = .ok ⟨[80, 75], 0o644, 0⟩ := by cbv
  have preserves := pack_preserves contained_idleEngine (fun b w₁ made => ?_) run
  · exact ⟨outcome, w', rfl, read, preserves.2 _ _ (.inl rfl) read⟩
  · have bundled : (Bundle.make plainSettings nativeFunction).run spoiledArchive =
        (.ok (.ofSingleFile .binary nativeFunction), spoiledArchive) := rfl
    cases bundled.symm.trans made
    exact apart_nativeFunction

/-- An archive without entries, ready to be shipped. -/
def readyArchive : World where
  disk :=
    { root := .directory
        [("src", .directory [("fn.zip", .file ⟨[80, 75, 5, 6] ++ List.replicate 18 0, 0o644, 0⟩)])]
      current := .root
      now := 0 }
  manifests := .empty none
  journal := []

theorem pack_readyArchive :
    readyArchive.disk.read readyFunction.entry = .ok ([80, 75, 5, 6] ++ List.replicate 18 0) ∧
      ((pack plainSettings readyFunction (.ofNames ["src"])).run readyArchive).2.disk.read
        readyFunction.entry = .ok [] := by
  constructor <;> cbv

end Example

end Packing

end FunctionArchive
