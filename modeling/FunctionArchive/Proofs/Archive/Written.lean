import FunctionArchive.Proofs.Archive.Preservation
import FunctionArchive.Proofs.Disk.Planting

/-!
# What is written

Where nothing stands in the way, an archive is written as a whole. The tree of a directory then has
a leaf for each entry, and besides only the directories above the leaves (`Bears`): one more entry
makes one more leaf (`writeEntry_ends`), so all of them are there in the end
(`writeDirectory_written`). The file of a zip archive holds what the entries are packed into
(`writeZip_written`).
-/

set_option autoImplicit false

namespace FunctionArchive.Archive

open Work (Ends)
open Disk (Node Plot)
open Disk.Plot (plant Open Grown)

variable {d made start : Disk} {p destination : Path} {dir : List String} {name fresh : String}
  {files : List OutputFile} {f : OutputFile} {content : Content} {n : Node}

/-! ## Loading -/

/-- What an entry holds does not change while nothing is lost. -/
theorem load_extends {d' : Disk} (grown : d.Extends d') (loaded : load d f = .ok content) :
    load d' f = .ok content := by
  unfold load at *
  cases source : f.source with
  | bytes data => simpa only [source] using loaded
  | link target => simpa only [source] using loaded
  | file path =>
      simp only [source] at loaded ⊢
      cases read : d.file path with
      | error cause => simp [read] at loaded
      | ok g =>
          rw [grown.file read]
          simpa only [read] using loaded

/-! ## Trees that bear entries -/

/-- What stands in a directory for an entry. -/
def Content.node : Content → Node
  | .file data mode => .file ⟨data, mode, earliestTime⟩
  | .link target => .link target

theorem Content.bare_node (content : Content) : content.node.Bare := by
  cases content <;> rfl

/-- A tree with these leaves, and with nothing else but the directories above them. -/
structure Bears (n : Node) (leaves : List (List String × Content)) : Prop where
  tidy : Checksum.Tidy n
  root : n.shape [] = some Node.hollow
  leaf : ∀ leaf ∈ leaves, n.shape leaf.1 = some leaf.2.node
  only : ∀ names m, n.shape names = some m → names = [] ∨ ∃ leaf ∈ leaves, names <+: leaf.1

/-- Neither of two places is at or above the other. -/
def Unrelated (a b : List String) : Prop := ¬ a <+: b ∧ ¬ b <+: a

theorem bears_hollow : Bears Node.hollow [] := by
  refine ⟨Checksum.tidy_hollow, rfl, List.forall_mem_nil _, fun names m there => ?_⟩
  cases names with
  | nil => exact .inl rfl
  | cons name rest => cases there

namespace Bears

variable {leaves : List (List String × Content)} {front : List String} {last : String}
  (bears : Bears n leaves) (apart : ∀ leaf ∈ leaves, Unrelated leaf.1 (front ++ [last]))

include bears apart

/-- The way to a new leaf is open. -/
theorem isOpen : Open n front := by
  intro before m prefixed there
  rcases bears.only before m there with rfl | ⟨leaf, member, back, whole⟩
  · exact Option.some.inj (there.symm.trans bears.root)
  · have stands := bears.leaf leaf member
    rw [← whole] at stands
    by_cases here : back = []
    · subst here
      rw [List.append_nil] at whole
      exact absurd (whole ▸ prefixed.trans (List.prefix_append _ _)) (apart leaf member).1
    · exact Option.some.inj (there.symm.trans (Node.shape_of_below stands here))

/-- Nothing stands where a new leaf belongs. -/
theorem absent : n.shape (front ++ [last]) = none := by
  cases there : n.shape (front ++ [last]) with
  | none => rfl
  | some m =>
      rcases bears.only _ m there with nothing | ⟨leaf, member, below⟩
      · simp at nothing
      · exact absurd below (apart leaf member).2

/-- A tree with one more leaf. -/
theorem concat {n' : Node} (grown : Grown n front n')
    (proper : ∀ part ∈ front ++ [last], Path.IsName part ∧ '\x00' ∉ part.toList)
    (content : Content) :
    Bears (n'.alter (fun _ => some content.node) (front ++ [last]))
      (leaves ++ [(front ++ [last], content)]) := by
  have absent : n'.shape (front ++ [last]) = none := by
    rw [grown.kept _ (Disk.Plot.concat_not_below front last), bears.absent apart]
  have set := Node.shape_set content.bare_node (grown.added front List.prefix_rfl) (.inl absent)
  have tidyNode : Checksum.Tidy content.node := by
    cases content <;> exact Checksum.tidy_of_counts rfl
  refine ⟨?_, ?_, fun leaf member => ?_, fun names m there => ?_⟩
  · exact (grown.tidy (fun part member => (proper part (by simp [member])).2) bears.tidy).set
      tidyNode proper
  · rw [set, Function.update_of_ne (by simp), grown.added [] List.nil_prefix]
  · rw [set]
    rcases List.mem_append.mp member with before | new
    · obtain ⟨notAbove, notBelow⟩ := apart leaf before
      have different : leaf.1 ≠ front ++ [last] := fun same => notAbove (same ▸ List.prefix_rfl)
      rw [Function.update_of_ne different, grown.kept _ fun inFront =>
        notAbove (inFront.trans (List.prefix_append _ _)), bears.leaf leaf before]
    · obtain rfl := List.mem_singleton.mp new
      exact Function.update_self ..
  · by_cases here : names <+: front ++ [last]
    · exact .inr ⟨_, List.mem_append_right _ List.mem_cons_self, here⟩
    · have different : names ≠ front ++ [last] := fun same => here (same ▸ List.prefix_rfl)
      rw [set, Function.update_of_ne different, grown.kept _ fun inFront =>
        here (inFront.trans (List.prefix_append _ _))] at there
      refine (bears.only names m there).imp_right ?_
      rintro ⟨leaf, member, below⟩
      exact ⟨leaf, List.mem_append_left _ member, below⟩

end Bears

/-! ## Entries -/

/-- An entry that can be written into a directory: its parts are names of entries, and a link has a
text. -/
structure Writes (f : OutputFile) (content : Content) : Prop where
  proper : ∀ part ∈ f.parts, Path.IsName part ∧ '\x00' ∉ part.toList
  linked : content ≠ .link ""

/-- Writing an entry adds its leaf. -/
theorem writeEntry_written {leaves : List (List String × Content)} (plot : Plot made p dir fresh)
    (bears : Bears n leaves) (apart : ∀ leaf ∈ leaves, Unrelated leaf.1 f.parts)
    (writes : Writes f content) (loaded : load made f = .ok content) :
    Ends (· = plant made dir fresh n) (writeEntry (p.child fresh) f)
      (fun entry d => entry = content.entry f.name ∧
        ∃ n', d = plant made dir fresh n' ∧ Bears n' (leaves ++ [(f.parts, content)]))
      (fun _ _ => False) := by
  obtain ⟨front, last, split⟩ := f.parts_eq_concat
  obtain ⟨proper, linked⟩ := writes
  rw [split] at proper apart ⊢
  have named : ∀ part ∈ front ++ [last], Path.IsName part := fun part member =>
    (proper part member).1
  obtain ⟨n', created, grown⟩ := plot.createDirectories
    (fun part member => named part (by simp [member])) (bears.isOpen apart)
  have above := grown.added front List.prefix_rfl
  have absent : n'.shape (front ++ [last]) = none := by
    rw [grown.kept _ (Disk.Plot.concat_not_below front last), bears.absent apart]
  have done := bears.concat apart grown proper content
  have place : placeOf (p.child fresh) f.name = (p.child fresh).below (front ++ [last]) := by
    rw [← split]
    rfl
  have parent : (placeOf (p.child fresh) f.name).parent? = some ((p.child fresh).below front) := by
    rw [place, Path.parent?_below plot.isFresh named]
  unfold writeEntry
  simp only [parent]
  refine .bind (.does created) fun _ => ?_
  refine .bind (.finds (load_extends (plot.extends_plant n') loaded)) fun content' => ?_
  refine .given fun same => ?_
  subst same
  rw [place]
  cases content' with
  | file data mode =>
      have set (g : Disk.File) :
          (n'.alter (fun _ => some (.file g)) (front ++ [last])).at? (front ++ [last]) =
            some (.file g) := by
        obtain ⟨entries, directory⟩ := Node.shape_eq_hollow.mp above
        exact Node.at?_alter directory last
      have still (g : Disk.File) :
          (n'.alter (fun _ => some (.file g)) (front ++ [last])).shape front =
            some Node.hollow := by
        rw [Node.shape_set (Node.bare_file g) above (.inl absent),
          Function.update_of_ne (by simp), above]
      refine .bind (.does (plot.write named above absent data)) fun _ => ?_
      refine .bind (.does (plot.touch named (still _) (set _) _)) fun _ => ?_
      rw [Node.alter_set]
      refine .bind (.does (plot.touch named (still _) (set _) _)) fun _ => .pure ?_
      rintro _ rfl
      exact ⟨rfl, _, congrArg _ (Node.alter_set _ _ _ _), done⟩
  | link target =>
      have notEmpty : target.isEmpty = false := by
        rw [Bool.eq_false_iff]
        intro empty
        exact linked (congrArg Content.link (String.isEmpty_iff.mp empty))
      have linkCreated := plot.create named above absent (.link target)
      rw [← show Disk.createLink _ _ target = _ from if_neg (by simp [notEmpty])] at linkCreated
      refine .bind (.does linkCreated) fun _ => .pure ?_
      rintro _ rfl
      exact ⟨rfl, _, rfl, done⟩

/-! ## Directories -/

/-- Entries that can be written into a directory together: each of them can, and none is at or above
the place of another. What they hold is given. -/
structure Plan (made : Disk) (files : List OutputFile) (content : OutputFile → Content) : Prop where
  loads : ∀ f ∈ files, load made f = .ok (content f)
  writes : ∀ f ∈ files, Writes f (content f)
  apart : (files.map OutputFile.parts).Pairwise Unrelated

/-- The leaves for some entries. -/
def leavesFor (files : List OutputFile) (content : OutputFile → Content) :
    List (List String × Content) :=
  files.map fun f => (f.parts, content f)

/-- What the archive says of some entries. -/
def entriesFor (files : List OutputFile) (content : OutputFile → Content) : List ArchiveEntry :=
  files.map fun f => (content f).entry f.name

/-- The disk on which some entries have been written. -/
def Sown (made : Disk) (dir : List String) (fresh : String) (content : OutputFile → Content)
    (done : List OutputFile) (d : Disk) : Prop :=
  ∃ n, d = plant made dir fresh n ∧ Bears n (leavesFor done content)

section Plan

variable {contentOf : OutputFile → Content}

/-- Writing the entries one after the other gives a tree with all of them. -/
theorem writeEntries_written (plot : Plot made p dir fresh) (plan : Plan made files contentOf) :
    Ends (Sown made dir fresh contentOf []) (files.mapM (writeEntry (p.child fresh)))
      (fun entries d => entries = entriesFor files contentOf ∧
        Sown made dir fresh contentOf files d)
      (fun _ _ => False) := by
  refine .mapM_along fun done f rest whole => ?_
  rintro d ⟨n, rfl, bears⟩
  have member : f ∈ files := by simp [← whole]
  have apart : ∀ leaf ∈ leavesFor done contentOf, Unrelated leaf.1 f.parts := by
    intro leaf inside
    obtain ⟨g, before, rfl⟩ := List.mem_map.mp inside
    have pairs := plan.apart
    rw [← whole, List.map_append, List.map_cons] at pairs
    exact (List.pairwise_append.mp pairs).2.2 _ (List.mem_map_of_mem before) _ List.mem_cons_self
  have written := writeEntry_written plot bears apart (plan.writes f member) (plan.loads f member)
  refine written.mono ?_ (fun _ _ => id) _ rfl
  rintro entry d ⟨same, n', disk, more⟩
  exact ⟨same, n', disk, by simpa [leavesFor] using more⟩

/-- A directory that bears the entries of an archive is at its place. -/
structure DirectoryWritten (destination : Path) (dir : List String) (name : String)
    (leaves : List (List String × Content)) (d : Disk) : Prop where
  enters : d.Enters destination dir
  bears : ∃ n, d.root.at? (dir ++ [name]) = some n ∧ Bears n leaves

/-- The tree that has been written takes its place. -/
theorem replaceDirectory_written {q : Path} (plot : Plot made p dir fresh)
    (clear : (made.put (dir ++ [name]) none).Enters q dir)
    (clearToo : (made.put (dir ++ [name]) none).Enters p dir) (isName : Path.IsName name)
    (different : fresh ≠ name) (free : ∀ f, made.root.at? (dir ++ [name]) ≠ some (.file f)) :
    Ends (Sown made dir fresh contentOf files) (replaceDirectory (p.child fresh) (q.child name))
      (fun _ d => DirectoryWritten q dir name (leavesFor files contentOf) d ∧ d.Enters p dir ∧
        d.root.at? (dir ++ [fresh]) = none)
      (fun _ _ => False) := by
  rintro d ⟨n, rfl, bears⟩
  obtain ⟨entries, isRoot⟩ := Node.shape_eq_hollow.mp bears.root
  have stage := plot.stage (Option.some.inj isRoot)
  have replaced := replaceDirectory_ends clearToo clear plot.isFresh isName different _ n _
    ⟨stage, plot.at?_site n⟩
  refine ⟨fun _ done => ?_, fun flaw refused => ?_⟩
  · obtain ⟨⟨placed, entersNow, gone⟩, there⟩ := replaced.well _ done
    exact ⟨⟨placed.enters (by simp) clear, n, there, bears⟩, entersNow, gone⟩
  · obtain ⟨still, f, occupied⟩ := replaced.badly flaw refused
    refine free f ?_
    rw [← still.rest, Disk.at?_put_other (still.enters (by simp) plot.enters) different.symm,
      occupied]

/-- A directory is written at its place, unless a file is there. -/
theorem writeDirectory_written (isName : Path.IsName name)
    (prepared : Prepared start destination name made dir)
    (clear : (made.put (dir ++ [name]) none).Enters destination dir)
    (free : ∀ f, made.root.at? (dir ++ [name]) ≠ some (.file f))
    (plan : Plan made files contentOf) :
    Ends (· = start) (writeDirectory (destination.child name) files)
      (fun entries d => entries = entriesFor files contentOf ∧
        DirectoryWritten destination dir name (leavesFor files contentOf) d)
      (fun _ _ => False) := by
  unfold writeDirectory
  refine .bind (.does prepared.created) fun _ => .get fun made' same => ?_
  subst same
  rw [Path.fileName?_child destination isName]
  have enters := (enters_holder isName).mpr prepared.enters
  have clearToo := (enters_holder isName).mpr clear
  set p := holder (destination.child name)
  have plot : Plot made' p dir (made'.freshName p ".staged-" (some name)) :=
    ⟨enters, Disk.isName_freshName _ _ _ (by decide) (by decide), Disk.freshName_absent enters _ _⟩
  have different := Disk.freshName_ne made' p ".staged-" name
  generalize made'.freshName p ".staged-" (some name) = fresh at plot different
  have started : Ends (· = made') (Writing.change (·.createDirectory (p.child fresh)))
      (fun _ => Sown made' dir fresh contentOf []) (fun _ _ => False) := by
    have created := Disk.createDirectory_absent enters plot.isFresh plot.absent
    exact (Ends.does created).mono (fun _ d same => ⟨Node.hollow, same, bears_hollow⟩) fun _ _ => id
  refine .bind started fun _ => ?_
  have worked : Ends (Sown made' dir fresh contentOf [])
      (do
        let entries ← files.mapM (writeEntry (p.child fresh))
        replaceDirectory (p.child fresh) (destination.child name)
        return entries)
      (fun entries d => entries = entriesFor files contentOf ∧
        DirectoryWritten destination dir name (leavesFor files contentOf) d ∧ d.Enters p dir ∧
          d.root.at? (dir ++ [fresh]) = none) (fun _ _ => False) := by
    refine .bind (writeEntries_written plot plan) fun entries => ?_
    refine .weaken (.given fun same => ?_) fun d done => And.symm done
    exact .bind (replaceDirectory_written plot clear clearToo isName different free) fun _ =>
      .pure fun d done => ⟨same, done⟩
  have tidied : Ends (Sown made' dir fresh contentOf [])
      (tryFinally (do
        let entries ← files.mapM (writeEntry (p.child fresh))
        replaceDirectory (p.child fresh) (destination.child name)
        return entries) (Writing.attempt (·.removeDirectory (p.child fresh))))
      (fun entries d => entries = entriesFor files contentOf ∧
        DirectoryWritten destination dir name (leavesFor files contentOf) d)
          (fun _ _ => False) := by
    refine worked.afterwards (Writing.run_attempt _) ?_ fun _ _ => id
    rintro entries d ⟨same, written, entersNow, gone⟩
    cases removed : d.removeDirectory (p.child fresh) with
    | error cause => exact ⟨same, written⟩
    | ok d' => exact absurd gone (Disk.of_removeDirectory_child entersNow plot.isFresh removed).2
  refine .bind tidied fun entries => ?_
  rintro d ⟨same, written⟩
  obtain ⟨n, there, bears⟩ := written.bears
  obtain ⟨inside, isRoot⟩ := Node.shape_eq_hollow.mp bears.root
  rw [show n = .directory inside from Option.some.inj isRoot] at there
  have moded := Disk.setMode_directory written.enters isName there 0o755
  refine Ends.bind (.does moded) (fun _ => .pure ?_) d rfl
  rintro _ rfl
  exact ⟨same, written⟩

/-! ## Zip archives -/

/-- A zip archive with the entries is at its place. -/
structure ZipWritten (destination : Path) (dir : List String) (name : String)
    (entries : List Zip.Entry) (d : Disk) : Prop where
  enters : d.Enters destination dir
  holds : ∃ g, d.root.at? (dir ++ [name]) = some (.file g) ∧ g.data = Zip.write entries

/-- The entries of a zip archive for some files. -/
def zipEntriesFor (files : List OutputFile) (content : OutputFile → Content) : List Zip.Entry :=
  files.map fun f => (content f).zipEntry f.name

/-- All entries are loaded. -/
theorem loadAll_loads (loads : ∀ f ∈ files, load made f = .ok (contentOf f)) :
    Ends (· = made) (loadAll files)
      (fun contents d => contents = files.map (fun f => (f.name, contentOf f)) ∧ d = made)
      (fun _ _ => False) := by
  have each (done : List OutputFile) (f : OutputFile) (rest : List OutputFile)
      (whole : done ++ f :: rest = files) :
      Ends (· = made) (do return (f.name, ← Writing.look (load · f)))
        (fun loaded d => loaded = (f.name, contentOf f) ∧ d = made) (fun _ _ => False) := by
    refine .bind (.finds (loads f (by simp [← whole]))) fun content => .pure ?_
    rintro d ⟨same, rfl⟩
    exact ⟨rfl, same⟩
  exact .mapM_along each

/-- A zip archive is written at its place, unless a directory is there. -/
theorem writeZip_written (isName : Path.IsName name)
    (prepared : Prepared start destination name made dir)
    (free : made.root.at? (dir ++ [name]) = none ∨ ∃ f, made.root.at? (dir ++ [name]) =
      some (.file f))
    (loads : ∀ f ∈ files, load made f = .ok (contentOf f)) :
    Ends (· = start) (writeZip (destination.child name) files)
      (fun entries d => entries = entriesFor files contentOf ∧
        ZipWritten destination dir name (zipEntriesFor files contentOf) d)
      (fun _ _ => False) := by
  unfold writeZip
  refine .bind (.does prepared.created) fun _ => ?_
  refine .bind (loadAll_loads loads) fun contents => ?_
  refine .weaken (.given fun loaded => ?_) fun d done => And.symm done
  refine .get fun made' same => ?_
  subst same
  rw [Path.fileName?_child destination isName]
  have enters := (enters_holder isName).mpr prepared.enters
  have clear := prepared.enters.without_file free
  have published := publish_ends enters (Disk.isName_freshName _ _ _ (by decide) (by decide)) isName
    (Disk.freshName_ne made' (holder (destination.child name)) ".tmp" name)
    (Disk.freshName_absent enters _ _) clear
  refine .bind ((published _).mono (fun _ _ => id) ?_) fun _ => .pure ?_
  · rintro _ d ⟨-, inside, occupied⟩
    rcases free with nothing | ⟨f, there⟩
    · cases nothing.symm.trans occupied
    · cases there.symm.trans occupied
  · rintro d ⟨placed, g, there, holds⟩
    rw [loaded, List.map_map] at holds ⊢
    exact ⟨rfl, placed.enters (by simp) clear, g, there, holds⟩

end Plan

end FunctionArchive.Archive
