import FunctionArchive.Proofs.Archive.Faithful
import FunctionArchive.Proofs.ArchivedLinks
import FunctionArchive.Proofs.Disk.Pictured
import FunctionArchive.Proofs.Layout.Ways

/-!
# Closures in an archive

The archive of a closure holds each of its files and links at its place below the common base, and
nothing but the directories on the way to them (`file_written`, `link_written`, `only_written`). A
link leads from its own directory straight to the place of its target. So what is written is a copy
of a part of the tree (`pictures`).
-/

set_option autoImplicit false

namespace FunctionArchive

open FunctionArchive.Path (Proper)
open Disk (Node Pictures)
open Archive (Bears Content contents contentOf leavesFor)
open FunctionArchive.Bundle (baseOf)
open Layout (archiveName linkTarget wayTo)

namespace Graph.Stands

variable {d d' : Disk} {g : Graph} {p : Path} {link : Link} {e e' : OutputFile} {n node : Node}
  {names site : List String} {runtime : Runtime}

section Base

variable (tree : d.IsTree) (stands : g.Stands d)
include tree stands

theorem plain_places : ∀ p ∈ g.places, p.Plain :=
  fun p member => (stands.isPlace tree p member).plain

/-- The base of a closure is a directory. -/
theorem base_directory (nonempty : g.files ≠ []) :
    d.Straight (baseOf g.places).names ∧
      ∃ entries, d.root.at? (baseOf g.places).names = some (.directory entries) := by
  obtain ⟨first, rest, split⟩ := List.exists_cons_of_ne_nil nonempty
  have member : first ∈ g.files := by simp [split]
  have isPlace := stands.isPlace tree first (List.mem_append_left _ member)
  have places : g.places = first :: (rest ++ g.links.map (·.path)) := by
    rw [Graph.places, split, List.cons_append]
  have inFront : (baseOf g.places).names <+: first.names.dropLast := by
    have plain := stands.plain_places tree
    rw [places] at plain ⊢
    exact Layout.baseOf_prefix_parent plain
  obtain ⟨more, joined⟩ := inFront
  obtain ⟨entries, above⟩ := isPlace.leaf.above
  rw [← joined] at above
  have directory : ∃ entries, d.root.at? (baseOf g.places).names = some (.directory entries) := by
    cases more with
    | nil => exact ⟨entries, by simpa using above⟩
    | cons next others => exact Node.directory_of_at?_append above (List.cons_ne_nil _ _)
  obtain ⟨inside, there⟩ := directory
  exact ⟨tree.straight_of_at? there nofun, inside, there⟩

/-- The places of a closure are below its base. -/
theorem below_base (nonempty : g.files ≠ []) (member : p ∈ g.places) : ∃ rest, rest ≠ [] ∧
    p = .ofNames ((baseOf g.places).names ++ rest) ∧
    archiveName p (baseOf g.places) = "/".intercalate rest ∧ Proper rest := by
  have plain := stands.plain_places tree p member
  obtain ⟨rest, split, named⟩ := Layout.baseOf_splits (stands.plain_places tree) member
  obtain ⟨-, entries, directory⟩ := stands.base_directory tree nonempty
  refine ⟨rest, ?_, ?_, named, (Path.proper_append.mp (split ▸ plain.proper)).2⟩
  · rintro rfl
    rw [← List.append_nil (baseOf g.places).names, ← split] at directory
    exact (stands.isPlace tree p member).leaf.notDirectory entries directory
  · rw [← split]
    exact plain.eq_ofNames

omit tree in
/-- A file of a closure does not stand at the place of a link. -/
theorem file_ne_link (member : p ∈ g.files) (member' : link ∈ g.links) : p ≠ link.path := by
  obtain ⟨file, there⟩ := (stands.files p member).there
  refine (stands.linked.holds link member').ne_of_file fun text isLink => ?_
  cases there.symm.trans isLink

/-- Entries of a closure of one name are the same. -/
theorem entry_unique (member : e ∈ g.outputs (baseOf g.places))
    (member' : e' ∈ g.outputs (baseOf g.places)) (same : e'.name = e.name) : e' = e := by
  have samePlace {p q : Path} (inside : p ∈ g.places) (inside' : q ∈ g.places) :=
    Layout.archiveName_inj (stands.plain_places tree) inside inside'
  have ofFile {p : Path} (member : p ∈ g.files) : p ∈ g.places := List.mem_append_left _ member
  have ofLink {link : Link} (member : link ∈ g.links) : link.path ∈ g.places :=
    List.mem_append_right _ (List.mem_map_of_mem member)
  rcases List.mem_append.mp member with isFile | isLink <;>
    rcases List.mem_append.mp member' with isFile' | isLink'
  · obtain ⟨p, among, rfl⟩ := List.mem_map.mp isFile
    obtain ⟨q, among', rfl⟩ := List.mem_map.mp isFile'
    rw [samePlace (ofFile among') (ofFile among) same]
  · obtain ⟨p, among, rfl⟩ := List.mem_map.mp isFile
    obtain ⟨link, among', rfl⟩ := List.mem_map.mp isLink'
    exact absurd (samePlace (ofFile among) (ofLink among') same.symm)
      (stands.file_ne_link among among')
  · obtain ⟨link, among, rfl⟩ := List.mem_map.mp isLink
    obtain ⟨p, among', rfl⟩ := List.mem_map.mp isFile'
    exact absurd (samePlace (ofFile among') (ofLink among) same) (stands.file_ne_link among' among)
  · obtain ⟨link, among, rfl⟩ := List.mem_map.mp isLink
    obtain ⟨link', among', rfl⟩ := List.mem_map.mp isLink'
    rw [(stands.linked.holds link' among').eq_of_path (stands.linked.holds link among)
      (samePlace (ofLink among') (ofLink among) same)]

/-- All entries of a closure belong into its archive. -/
theorem ships (notNative : runtime.isNative = false) (member : e ∈ g.outputs (baseOf g.places)) :
    e ∈ contents (Bundle.ofGraph runtime g) := by
  rw [Archive.mem_contents, Bundle.fileNamed?]
  have isFound : (List.find? (·.name == e.name) (g.outputs (baseOf g.places))).isSome :=
    List.find?_isSome.mpr ⟨e, member, beq_self_eq_true _⟩
  obtain ⟨e', found⟩ := Option.isSome_iff_exists.mp isFound
  obtain rfl := stands.entry_unique tree member (List.mem_of_find?_eq_some found)
    (by simpa using List.find?_some found)
  simpa [Bundle.ofGraph, notNative] using found

omit tree stands in
theorem mem_outputs (notNative : runtime.isNative = false)
    (member : e ∈ contents (Bundle.ofGraph runtime g)) : e ∈ g.outputs (baseOf g.places) := by
  rw [Archive.mem_contents, Bundle.fileNamed?] at member
  simp only [Bundle.ofGraph, notNative, Bool.false_eq_true] at member
  exact List.mem_of_find?_eq_some member

end Base

/-! ## What stands in the archive -/

/-- A file or a link looks the same from outside. -/
theorem at?_of_shape (there : n.shape names = some node)
    (leaf : ∀ entries, node ≠ .directory entries) :
    n.at? names = some node := by
  obtain ⟨m, found, looks⟩ := Option.map_eq_some_iff.mp there
  cases m with
  | directory entries => exact absurd looks.symm (leaf _)
  | file f | link text =>
      rw [found]
      exact congrArg some looks

section Written

variable (tree : d.IsTree) (stands : g.Stands d) (nonempty : g.files ≠ [])
  (notNative : runtime.isNative = false)
  (bears : Bears n (leavesFor (contents (Bundle.ofGraph runtime g)) (contentOf d)))
include tree stands notNative bears

/-- What stands in the archive for an entry of a closure. -/
theorem leaf_written {rest : List String} (some : rest ≠ []) (proper : Proper rest)
    (named : e.name = "/".intercalate rest) (member : e ∈ g.outputs (baseOf g.places)) :
    n.at? rest = Option.some (contentOf d e).node := by
  have parts : e.parts = rest := by
    rw [OutputFile.parts, named]
    exact Path.split_intercalate proper.noSlash some
  have leaf := bears.leaf (e.parts, contentOf d e)
    (List.mem_map_of_mem (stands.ships tree notNative member))
  rw [parts] at leaf
  refine at?_of_shape leaf ?_
  cases contentOf d e <;> exact fun _ same => by cases same

include nonempty

/-- A file of a closure stands in the archive with the same data. -/
theorem file_written (member : p ∈ g.files) : ∃ rest file file',
    p = .ofNames ((baseOf g.places).names ++ rest) ∧
    d.root.at? ((baseOf g.places).names ++ rest) = some (.file file) ∧
    n.at? rest = some (.file file') ∧ file'.data = file.data := by
  obtain ⟨rest, some, isPath, named, proper⟩ :=
    stands.below_base tree nonempty (List.mem_append_left _ member)
  have written := stands.leaf_written tree notNative bears some proper named
    (List.mem_append_left _ (List.mem_map_of_mem member))
  obtain ⟨-, down, file, there⟩ := stands.files p member
  subst isPath
  have found : d.file (.ofNames ((baseOf g.places).names ++ rest)) = .ok file := by
    have isFound : d.find (.ofNames ((baseOf g.places).names ++ rest)) = _ :=
      Disk.find_of_at? there down nofun
    rw [Disk.file, isFound]
  simp only [contentOf, Archive.load, found] at written
  exact ⟨rest, file, _, rfl, there, written, rfl⟩

/-- A link of a closure stands in the archive. -/
theorem link_written (member : link ∈ g.links) : ∃ rest,
    link.path = .ofNames ((baseOf g.places).names ++ rest) ∧
    n.at? rest = some (.link (linkTarget link.target link.path)) := by
  obtain ⟨rest, some, isPath, named, proper⟩ :=
    stands.below_base tree nonempty (List.mem_append_right _ (List.mem_map_of_mem member))
  have isEntry := Graph.mem_outputs_of_link member (baseOf g.places)
  exact ⟨rest, isPath, stands.leaf_written tree notNative bears some proper named isEntry⟩

/-- What stands in the archive is the root or at the place of a closure, or above it. -/
theorem only_written (there : n.at? names = some node) : names = [] ∨ ∃ p ∈ g.places, ∃ rest,
    p = .ofNames ((baseOf g.places).names ++ rest) ∧ names <+: rest := by
  have seen : n.shape names = some node.outline := by rw [Node.shape, there, Option.map_some]
  refine (bears.only names _ seen).imp_right ?_
  rintro ⟨leaf, member, inFront⟩
  obtain ⟨e, isEntry, rfl⟩ := List.mem_map.mp member
  obtain ⟨p, among, named⟩ := g.named_outputs _ e (mem_outputs notNative isEntry)
  obtain ⟨rest, some, isPath, named', proper⟩ := stands.below_base tree nonempty among
  have parts : e.parts = rest := by
    rw [OutputFile.parts, named, named']
    exact Path.split_intercalate proper.noSlash some
  exact ⟨p, among, rest, isPath, parts ▸ inFront⟩

/-- What stands in the archive is the root, or a file or a link of the closure, or a directory above
such a place. -/
theorem cases_written (there : n.at? names = some node) :
    (∃ entries, node = .directory entries ∧
      ∃ entries', d.root.at? ((baseOf g.places).names ++ names) = some (.directory entries')) ∨
    (∃ file file', node = .file file' ∧
      d.root.at? ((baseOf g.places).names ++ names) = some (.file file) ∧ file'.data = file.data) ∨
    ∃ link ∈ g.links, link.path = .ofNames ((baseOf g.places).names ++ names) ∧
      node = .link (linkTarget link.target link.path) := by
  obtain ⟨entries, root⟩ := Node.shape_eq_hollow.mp bears.root
  rcases stands.only_written tree nonempty notNative bears there with
    rfl | ⟨p, among, rest, isPath, more, rfl⟩
  · refine .inl ⟨entries, Option.some.inj (there.symm.trans root), ?_⟩
    rw [List.append_nil]
    exact (stands.base_directory tree nonempty).2
  -- What stands at the place itself.
  have isLeaf : ∃ m m', n.at? (names ++ more) = some m ∧
      d.root.at? ((baseOf g.places).names ++ (names ++ more)) = some m' ∧
      ((∃ file file', m = .file file' ∧ m' = .file file ∧ file'.data = file.data) ∨
        ∃ link ∈ g.links, link.path = p ∧ m = .link (linkTarget link.target link.path)) := by
    rcases List.mem_append.mp among with isFile | isLink
    · obtain ⟨rest', file, file', isPath', inTree, inArchive, same⟩ :=
        stands.file_written tree nonempty notNative bears isFile
      obtain rfl := List.append_cancel_left (congrArg Path.names (isPath'.symm.trans isPath))
      exact ⟨_, _, inArchive, inTree, .inl ⟨file, file', rfl, rfl, same⟩⟩
    · obtain ⟨link, member, rfl⟩ := List.mem_map.mp isLink
      obtain ⟨rest', isPath', inArchive⟩ := stands.link_written tree nonempty notNative bears member
      obtain rfl := List.append_cancel_left (congrArg Path.names (isPath'.symm.trans isPath))
      obtain ⟨onDisk, inTree⟩ := (stands.linked.holds link member).there
      rw [isPath] at inTree
      exact ⟨_, _, inArchive, inTree, .inr ⟨link, member, rfl, rfl⟩⟩
  obtain ⟨m, m', inArchive, inTree, kind⟩ := isLeaf
  rcases List.eq_nil_or_concat more with rfl | ⟨front, last, split⟩
  · rw [List.append_nil] at inArchive inTree isPath
    obtain rfl := Option.some.inj (there.symm.trans inArchive)
    rcases kind with ⟨file, file', rfl, rfl, same⟩ | ⟨link, member, rfl, rfl⟩
    · exact .inr (.inl ⟨file, file', rfl, inTree, same⟩)
    · exact .inr (.inr ⟨link, member, isPath, rfl⟩)
  · have below : more ≠ [] := by simp [split]
    obtain ⟨inside, directory⟩ := Node.directory_of_at?_append inArchive below
    rw [← List.append_assoc] at inTree
    exact .inl ⟨inside, Option.some.inj (there.symm.trans directory),
      Node.directory_of_at?_append inTree below⟩

/-- What stands in the archive of a closure is a copy of a part of the tree, if its links lead to
something below the base and none of them to its own directory. -/
theorem pictures (proper : Proper site) (stood : d'.root.at? site = some n)
    (home : ∀ link ∈ g.links, (baseOf g.places).names <+: link.target.names)
    (told : ∀ link ∈ g.links, linkTarget link.target link.path ≠ "") :
    Pictures d' site d (baseOf g.places).names := by
  obtain ⟨entries, root⟩ := Node.shape_eq_hollow.mp bears.root
  obtain rfl : n = .directory entries := Option.some.inj root
  have within (names : List String) (node : Node)
      (there : d'.root.at? (site ++ names) = some node) :
      (Node.directory entries).at? names = some node := by
    rwa [Node.at?_append, stood, Option.bind_some] at there
  refine ⟨Disk.straight_of_proper proper stood nofun, (stands.base_directory tree nonempty).1,
    ⟨entries, stood⟩, ?_, ?_⟩
  · intro names node there
    rcases stands.cases_written tree nonempty notNative bears (within names node there) with
      ⟨inside, rfl, inside', inTree⟩ | ⟨file, file', rfl, inTree, same⟩ |
        ⟨link, member, isPath, rfl⟩
    · exact ⟨_, inTree, .directory _ _⟩
    · exact ⟨_, inTree, .file same⟩
    · obtain ⟨onDisk, inTree⟩ := (stands.linked.holds link member).there
      rw [isPath] at inTree
      exact ⟨_, inTree, .link _ _⟩
  · intro names text there
    rcases stands.cases_written tree nonempty notNative bears (within names _ there) with
      ⟨inside, isDirectory, -⟩ | ⟨file, file', isFile, -⟩ | ⟨link, member, isPath, isText⟩
    · cases isDirectory
    · cases isFile
    cases isText
    obtain ⟨rest, some, isPath', -, -⟩ := stands.below_base tree nonempty
      (List.mem_append_right _ (List.mem_map_of_mem member))
    obtain rfl := List.append_cancel_left (congrArg Path.names (isPath'.symm.trans isPath))
    obtain ⟨front, name, split⟩ := (List.eq_nil_or_concat rest).resolve_left some
    rw [List.concat_eq_append] at split
    obtain ⟨target, isTarget⟩ := home link member
    have holds := stands.linked.holds link member
    obtain ⟨isReal, way⟩ := tree.straight_of_realPath holds.leads
    have plain : link.target.Plain := by
      rw [isReal]
      exact Path.plain_ofNames.mpr way.proper
    have whole : link.path = .ofNames ((baseOf g.places).names ++ front ++ [name]) := by
      rw [isPath, split, List.append_assoc]
    have properPath : Proper ((baseOf g.places).names ++ front ++ [name]) := by
      have proper := holds.plain.proper
      rwa [whole] at proper
    have text : linkTarget link.target link.path = "/".intercalate (wayTo target front) := by
      rw [whole, Layout.linkTarget_eq plain properPath, ← isTarget, Layout.wayTo_append]
    refine ⟨front, name, target, split, ?_, fun same => told link member ?_, text⟩
    · rw [← isPath, holds.leads, isReal, isTarget]
    · rw [text, Layout.text_wayTo_eq_empty_iff]
      · exact same
      · have proper := plain.proper
        rw [← isTarget] at proper
        exact (Path.proper_append.mp proper).2

end Written

end Graph.Stands

end FunctionArchive
