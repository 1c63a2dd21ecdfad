import FunctionArchive.Archive.Writing
import FunctionArchive.Proofs.Archive.Written
import FunctionArchive.Proofs.Text.Utf8
import FunctionArchive.Proofs.Zip.ReadBack
import Mathlib.Data.List.Induction
import Mathlib.Data.List.Sort

/-!
# Reading archives back

Under each name an archive holds the first file of that name, and under that of the note of an
executable the note (`mem_contents`). The files are listed in the order of the bytes of their names,
so the list says no more than what is under which name: whatever has the same first files has the
same contents (`contents_congr`).

What an archive holds is found by reading it: a zip archive entry by entry (`readZip`), a directory
leaf by leaf (`readTree`). Both give the names of the entries in order, each with what was put into
the archive under that name (`readZip_write`, `readTree_of_bears`).
-/

set_option autoImplicit false

namespace FunctionArchive

/-- What belongs into the archive of a bundle under a name: the note of an executable under its own,
else the first file of the name. -/
def Bundle.fileNamed? (b : Bundle) (name : String) : Option OutputFile :=
  if b.runtime.isNative ∧ name = Archive.noteName then some (Archive.noteFor b.runtime)
  else b.files.find? (·.name == name)

namespace Archive

variable {b : Bundle} {files : List OutputFile} {f g : OutputFile} {name : String}

/-! ## The first file of each name -/

theorem firstOfEach_concat (files : List OutputFile) (f : OutputFile) :
    firstOfEach (files ++ [f]) =
      if (firstOfEach files).any (·.name == f.name) then firstOfEach files
      else firstOfEach files ++ [f] := by
  simp [firstOfEach]

/-- A file is kept if it is the first one of its name. -/
theorem mem_firstOfEach : f ∈ firstOfEach files ↔ files.find? (·.name == f.name) = some f := by
  induction files using List.reverseRecOn generalizing f with
  | nil => simp [firstOfEach]
  | append_singleton files g ih =>
      have taken : (firstOfEach files).any (·.name == g.name) = true ↔
          (files.find? (·.name == g.name)).isSome := by
        rw [List.any_eq_true]
        constructor
        · rintro ⟨kept, member, same⟩
          rw [← eq_of_beq same, ih.mp member]
          rfl
        · intro found
          obtain ⟨kept, first⟩ := Option.isSome_iff_exists.mp found
          have same : kept.name = g.name := by simpa using List.find?_some first
          exact ⟨kept, ih.mpr (same ▸ first), by simp [same]⟩
      rw [firstOfEach_concat, List.find?_append]
      cases found : files.find? (·.name == f.name) with
      | some first =>
          have kept : f ∈ firstOfEach files ↔ first = f := by rw [ih, found, Option.some.injEq]
          split
          · simpa using kept
          · rename_i free
            have different : f ≠ g := by
              rintro rfl
              exact free (taken.mpr (by rw [found]; rfl))
            simpa [different] using kept
      | none =>
          have notKept : f ∉ firstOfEach files := by
            rw [ih, found]
            exact (Option.some_ne_none f).symm
          rw [Option.none_or]
          split
          · rename_i occupied
            have different : g.name ≠ f.name := by
              intro same
              rw [taken, same, found] at occupied
              cases occupied
            simp [notKept, different]
          · have alone : f = g ↔ [g].find? (·.name == f.name) = some f := by
              by_cases same : g.name = f.name
              · simp [same, eq_comm]
              · have different : f ≠ g := fun equal => same (equal ▸ rfl)
                simp [same, different]
            simpa [notKept] using alone

theorem nodup_firstOfEach (files : List OutputFile) :
    ((firstOfEach files).map (·.name)).Nodup := by
  induction files using List.reverseRecOn with
  | nil => exact List.nodup_nil
  | append_singleton files f ih =>
      rw [firstOfEach_concat]
      split
      · exact ih
      · rename_i free
        rw [List.map_append, List.nodup_append]
        refine ⟨ih, by simp, ?_⟩
        rintro name among other last rfl
        obtain ⟨kept, member, rfl⟩ := List.mem_map.mp among
        exact free (List.any_eq_true.mpr ⟨kept, member, by simpa using last⟩)

/-! ## Contents -/

/-- The contents are what belongs into the archive. -/
theorem mem_contents : f ∈ contents b ↔ b.fileNamed? f.name = some f := by
  rw [contents, List.mem_mergeSort, mem_firstOfEach, Bundle.fileNamed?]
  by_cases isNative : b.runtime.isNative = true
  · by_cases isNote : f.name = noteName
    · simp [isNative, isNote, noteFor]
    · have different : ¬ noteName = f.name := fun same => isNote same.symm
      simp [isNative, isNote, noteFor, different]
  · simp [isNative]

/-- Listed in the order of the bytes of their names, without a name that is there twice. -/
abbrev InOrder (files : List OutputFile) : Prop :=
  files.Pairwise fun f g => Utf8.encode f.name < Utf8.encode g.name

/-- The contents are in order. -/
theorem inOrder_contents (b : Bundle) : InOrder (contents b) := by
  rw [contents]
  generalize (if b.runtime.isNative then noteFor b.runtime :: b.files else b.files) = files
  set sorted := (firstOfEach files).mergeSort fun f g => f.name ≤ g.name
  have increasing : sorted.Pairwise fun f g => f.name ≤ g.name := by
    have ordered : sorted.Pairwise fun f g => decide (f.name ≤ g.name) = true := by
      refine List.pairwise_mergeSort (fun f g h first second => ?_) (fun f g => ?_) _
      · rw [decide_eq_true_eq] at *
        exact first.trans second
      · simpa using le_total f.name g.name
    simpa using ordered
  have different : sorted.Pairwise fun f g => f.name ≠ g.name := by
    have names : (sorted.map (·.name)).Nodup :=
      ((List.mergeSort_perm (firstOfEach files) _).map _).nodup_iff.mpr (nodup_firstOfEach files)
    exact List.pairwise_map.mp names
  refine (increasing.and different).imp ?_
  rintro f g ⟨notAfter, unequal⟩
  exact Utf8.encode_lt_iff.mpr (lt_of_le_of_ne notAfter unequal)

/-- What is under each name says what the contents are. -/
theorem contents_congr {b' : Bundle} (same : ∀ name, b.fileNamed? name = b'.fileNamed? name) :
    contents b = contents b' := by
  have byName {b : Bundle} : (contents b).Pairwise fun f g => f.name < g.name :=
    (inOrder_contents b).imp Utf8.encode_lt_iff.mp
  have irrefl : Std.Irrefl fun f g : OutputFile => f.name < g.name := ⟨fun f => lt_irrefl f.name⟩
  have antisymm : Std.Antisymm fun f g : OutputFile => f.name < g.name :=
    ⟨fun f g before after => absurd after (lt_asymm before)⟩
  refine byName.eq_of_mem_iff byName fun f => ?_
  rw [mem_contents, mem_contents, same]

end Archive

theorem Path.intercalate_split (text : String) : "/".intercalate (split text.toList) = text := by
  refine String.toList_inj.mp ?_
  rw [String.toList_intercalate, split, List.map_map]
  have same : String.toList ∘ String.ofList = id := funext fun chars => String.toList_ofList
  rw [same, List.map_id]
  exact List.intercalate_splitOn '/'

namespace Archive

open Disk (Node)

variable {files : List OutputFile} {content : OutputFile → Content} {n leaf : Node} {text : String}

/-! ## Reading -/

/-- What a file or a link in a directory holds. -/
def Content.ofNode? : Node → Option Content
  | .file f => some (.file f.data f.mode)
  | .link target => some (.link target)
  | .directory _ => none

/-- The files and links in a tree, each with its path in the tree. -/
def heldIn (n : Node) : List (String × Content) :=
  n.leaves.filterMap fun (names, leaf) => (Content.ofNode? leaf).map ("/".intercalate names, ·)

/-- What a tree holds, in the order of the paths. -/
def readTree (n : Node) : List (String × Content) :=
  (heldIn n).mergeSort fun a b => a.1 ≤ b.1

/-- What an entry of a zip archive holds. -/
def Content.ofRecord? (l : Zip.Listing) (r : Zip.Record) : Option Content := do
  let data ← l.content? r
  let mode ← r.mode?
  if mode / 0o10000 * 0o10000 == Zip.linkKind then return .link (← Utf8.decode? data)
  else return .file data (mode % 0o1000)

/-- What a zip archive holds, entry by entry. -/
def readZip (data : List UInt8) : Option (List (String × Content)) := do
  let l ← Zip.read? data
  l.records.mapM fun r => return (r.name, ← Content.ofRecord? l r)

/-- What the archive at a path holds. -/
def readBack (format : ArchiveFormat) (d : Disk) (path : Path) : Option (List (String × Content)) :=
  match format, d.find path with
  | .zip, .ok ⟨_, .file g⟩ => readZip g.data
  | .directory, .ok ⟨_, .directory entries⟩ => some (readTree (.directory entries))
  | _, _ => none

/-- What some files hold, each under its name. -/
def listingFor (files : List OutputFile) (content : OutputFile → Content) :
    List (String × Content) :=
  files.map fun f => (f.name, content f)

theorem byName_listingFor (inOrder : InOrder files) :
    (listingFor files content).Pairwise fun a b => a.1 < b.1 :=
  List.pairwise_map.mpr (inOrder.imp Utf8.encode_lt_iff.mp)

/-- A list in the order of the names is told by what is in it. -/
theorem eq_of_byName {xs ys : List (String × Content)} (byName : xs.Pairwise fun a b => a.1 < b.1)
    (byName' : ys.Pairwise fun a b => a.1 < b.1) (same : ∀ a, a ∈ xs ↔ a ∈ ys) : xs = ys := by
  have irrefl : Std.Irrefl fun a b : String × Content => a.1 < b.1 := ⟨fun a => lt_irrefl a.1⟩
  have antisymm : Std.Antisymm fun a b : String × Content => a.1 < b.1 :=
    ⟨fun a b before after => absurd after (lt_asymm before)⟩
  exact byName.eq_of_mem_iff byName' same

/-! ## Directories -/

theorem Content.ofNode?_node (content : Content) : ofNode? content.node = some content := by
  cases content <;> rfl

/-- What holds something is a leaf that counts. -/
theorem Content.counts {content : Content} (holds : ofNode? leaf = some content) :
    (∃ item, Checksum.Item.ofNode? leaf = some item) ∧ leaf.Bare ∧ leaf ≠ Node.hollow := by
  cases leaf with
  | file f => exact ⟨⟨_, rfl⟩, rfl, nofun⟩
  | link target => exact ⟨⟨_, rfl⟩, rfl, nofun⟩
  | directory entries => cases holds

theorem Content.eq_node {content : Content} (looks : leaf.outline = content.node) :
    leaf = content.node := by
  cases content with
  | file data mode => exact Node.eq_file_of_outline looks
  | link target => exact Node.eq_link_of_outline looks

/-- What a tree holds stands in it. -/
theorem mem_readTree (tidy : Checksum.Tidy n) {held : Content} : (text, held) ∈ readTree n ↔
    ∃ names, (n.at? names).bind Content.ofNode? = some held ∧ "/".intercalate names = text := by
  rw [readTree, List.mem_mergeSort, heldIn, List.mem_filterMap]
  constructor
  · rintro ⟨⟨names, leaf⟩, listed, same⟩
    obtain ⟨held', holds, rfl, rfl⟩ : ∃ held', Content.ofNode? leaf = some held' ∧
        "/".intercalate names = text ∧ held' = held := by simpa using same
    obtain ⟨⟨item, counts⟩, -, -⟩ := Content.counts holds
    exact ⟨names, by simp [(Checksum.mem_leaves tidy counts).mp listed, holds], rfl⟩
  · rintro ⟨names, there, rfl⟩
    obtain ⟨leaf, stands, holds⟩ := Option.bind_eq_some_iff.mp there
    obtain ⟨⟨item, counts⟩, -, -⟩ := Content.counts holds
    exact ⟨(names, leaf), (Checksum.mem_leaves tidy counts).mpr stands, by simp [holds]⟩

/-- What a tree holds is listed in the order of the paths, none of which is there twice. -/
theorem byName_readTree (tidy : Checksum.Tidy n) : (readTree n).Pairwise fun a b => a.1 < b.1 := by
  have increasing : (readTree n).Pairwise fun a b => a.1 ≤ b.1 := by
    have ordered : (readTree n).Pairwise fun a b => decide (a.1 ≤ b.1) = true := by
      refine List.pairwise_mergeSort (fun a b c first second => ?_) (fun a b => ?_) _
      · rw [decide_eq_true_eq] at *
        exact first.trans second
      · simpa using le_total a.1 b.1
    simpa using ordered
  have different : (readTree n).Pairwise fun a b => a.1 ≠ b.1 := by
    have leaves := List.pairwise_map.mp (Checksum.nodup_leaves n tidy)
    have spelt : (heldIn n).Pairwise fun a b => a.1 ≠ b.1 := by
      rw [heldIn, List.pairwise_filterMap]
      refine leaves.imp_of_mem ?_
      rintro ⟨names, leaf⟩ ⟨names', leaf'⟩ listed listed' apart a first b second same
      obtain ⟨held, holds, rfl⟩ := Option.map_eq_some_iff.mp first
      obtain ⟨held', holds', rfl⟩ := Option.map_eq_some_iff.mp second
      obtain ⟨⟨item, counts⟩, -, -⟩ := Content.counts holds
      obtain ⟨⟨item', counts'⟩, -, -⟩ := Content.counts holds'
      have proper := (tidy.of_at? ((Checksum.mem_leaves tidy counts).mp listed)).1
      have proper' := (tidy.of_at? ((Checksum.mem_leaves tidy counts').mp listed')).1
      exact apart (proper.text_inj proper' same)
    exact List.pairwise_map.mp (((List.mergeSort_perm (heldIn n) _).map Prod.fst).nodup_iff.mpr
      (List.pairwise_map.mpr spelt))
  exact (increasing.and different).imp fun both => lt_of_le_of_ne both.1 both.2

/-- A tree that bears some entries holds just these. -/
theorem readTree_of_bears (bears : Bears n (leavesFor files content)) (inOrder : InOrder files) :
    readTree n = listingFor files content := by
  refine eq_of_byName (byName_readTree bears.tidy) (byName_listingFor inOrder) ?_
  rintro ⟨text, held⟩
  rw [mem_readTree bears.tidy, listingFor, List.mem_map]
  constructor
  · rintro ⟨names, there, rfl⟩
    obtain ⟨leaf, stands, holds⟩ := Option.bind_eq_some_iff.mp there
    obtain ⟨-, bare, notHollow⟩ := Content.counts holds
    have looks : n.shape names = some leaf := by rw [Node.shape, stands, Option.map_some, bare]
    rcases bears.only names leaf looks with rfl | ⟨⟨place, held'⟩, member, back, whole⟩
    · exact absurd (Option.some.inj (looks.symm.trans bears.root)) notHollow
    · have shape := bears.leaf _ member
      by_cases here : back = []
      · subst here
        rw [List.append_nil] at whole
        subst whole
        cases looks.symm.trans shape
        cases (Content.ofNode?_node held').symm.trans holds
        obtain ⟨f, among, same⟩ := List.mem_map.mp member
        cases same
        exact ⟨f, among, by rw [OutputFile.parts, Path.intercalate_split]⟩
      · rw [← whole] at shape
        have above := Node.shape_of_below shape here
        exact absurd (Option.some.inj (looks.symm.trans above)) notHollow
  · rintro ⟨f, member, same⟩
    cases same
    obtain ⟨leaf, stands, looks⟩ := Option.map_eq_some_iff.mp
      (bears.leaf (f.parts, content f) (List.mem_map_of_mem member))
    refine ⟨f.parts, ?_, Path.intercalate_split f.name⟩
    rw [stands, Content.eq_node looks]
    exact Content.ofNode?_node _

/-! ## Zip archives -/

/-- An entry of a zip archive whose permission bits are no more than that. -/
def Content.Moded : Content → Prop
  | .file _ mode => mode < 0o1000
  | .link _ => True

/-- An entry of a zip archive holds what was packed into it. -/
theorem Content.ofRecord?_pack {held : Content} (moded : held.Moded) (l : Zip.Listing)
    (name : String)
    (offset : Nat) (there : l.content? ((held.zipEntry name).pack.record offset) =
      some (held.zipEntry name).data) :
    ofRecord? l ((held.zipEntry name).pack.record offset) = some held := by
  have known : 0 < (held.zipEntry name).mode := by
    cases held <;> exact Nat.add_pos_left (by decide) _
  have given : ((held.zipEntry name).pack.record offset).mode? = some (held.zipEntry name).mode :=
    Zip.mode?_record known offset
  rw [ofRecord?, there, given]
  simp only [Option.bind_eq_bind, Option.bind_some]
  cases held with
  | file data mode =>
      have bound : mode < 0o1000 := moded
      have kind : (zipEntry name (.file data mode)).mode = Zip.fileKind + mode := by
        rw [zipEntry, Zip.Entry.file, Nat.mod_eq_of_lt bound]
      have isFile : ((Zip.fileKind + mode) / 0o10000 * 0o10000 == Zip.linkKind) = false := by
        rw [beq_eq_false_iff_ne, Zip.fileKind, Zip.linkKind]
        omega
      have bits : (Zip.fileKind + mode) % 0o1000 = mode := by
        rw [Zip.fileKind]
        omega
      rw [kind, isFile, bits]
      rfl
  | link target =>
      have kind : (zipEntry name (.link target)).mode = Zip.linkKind + linkMode % 0o1000 := rfl
      have isLink : ((Zip.linkKind + linkMode % 0o1000) / 0o10000 * 0o10000 == Zip.linkKind) =
          true := by decide
      have decoded : Utf8.decode? (zipEntry name (.link target)).data = some target :=
        Utf8.decode?_encode target
      rw [kind, isLink, decoded]
      rfl

theorem Content.name_zipEntry (name : String) (held : Content) :
    (held.zipEntry name).name = name := by
  cases held <;> rfl

/-- A zip archive holds what it was written with. -/
theorem readZip_write (inOrder : InOrder files) (moded : ∀ f ∈ files, (content f).Moded)
    (writable : Zip.Writable (zipEntriesFor files content)) :
    readZip (Zip.write (zipEntriesFor files content)) = some (listingFor files content) := by
  have names : (zipEntriesFor files content).map (·.name) = files.map (·.name) := by
    rw [zipEntriesFor, List.map_map]
    exact List.map_congr_left fun f _ => (content f).name_zipEntry f.name
  have different : ((zipEntriesFor files content).map (·.name)).Nodup := by
    rw [names]
    exact List.pairwise_map.mpr (inOrder.imp fun before => (Utf8.encode_lt_iff.mp before).ne)
  have packed : (zipEntriesFor files content).map Zip.Entry.pack =
      files.map fun f => ((content f).zipEntry f.name).pack := List.map_map
  rw [readZip, Zip.read?_write writable different]
  show (Zip.recordsFrom 0 ((zipEntriesFor files content).map Zip.Entry.pack)).mapM _ = _
  rw [packed]
  refine Zip.mapM_recordsFrom fun front f back split => ?_
  have entries : (zipEntriesFor files content).map Zip.Entry.pack =
      front.map (fun f => ((content f).zipEntry f.name).pack) ++
        ((content f).zipEntry f.name).pack ::
          back.map fun f => ((content f).zipEntry f.name).pack := by
    rw [packed, split, List.map_append, List.map_cons]
  have held := Content.ofRecord?_pack (moded f (by simp [split])) _ f.name _
    (Zip.content?_write writable entries)
  rw [Nat.zero_add, held]
  show some (((content f).zipEntry f.name).name, content f) = _
  rw [Content.name_zipEntry]

end Archive

end FunctionArchive
