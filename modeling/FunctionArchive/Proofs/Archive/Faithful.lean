import FunctionArchive.Proofs.Archive.ReadBack

/-!
# Archives are what was asked for

An archive that is assembled from entries that can stand in one directory tree holds under each name
the first entry of that name and nothing else, in whichever format it is written
(`assemble_faithful`). What it holds is found by reading it back. The list that comes with the
archive says the same, in the order of the bytes of the names, and it does not matter how files of
different names were ordered.

A directory takes the place of an earlier one only if the way to its destination does not lead
through that one (`Ready`). Otherwise the earlier directory is removed and nothing takes its place
(`assemble_withinItself`).
-/

set_option autoImplicit false

namespace FunctionArchive

/-- Whether an entry belongs into the archive of a bundle. -/
def Bundle.Ships (b : Bundle) (f : OutputFile) : Prop := b.fileNamed? f.name = some f

namespace Archive

open Work (Ends)
open Disk (Node)

variable {b : Bundle} {start made d : Disk} {path q : Path} {dir : List String} {name : String}
  {files : List OutputFile} {f : OutputFile} {content : Content} {format : ArchiveFormat}
  {listing : List (String × Content)}

/-! ## What is asked for -/

/-- What an entry stands for: a file, whose permission bits are those that the entry gives, or else
those of its source, or else the usual ones; or a link. -/
inductive Means (d : Disk) (f : OutputFile) : Content → Prop
  | bytes {data : List UInt8} (source : f.source = .bytes data) :
      Means d f (.file data (f.mode.getD 0o644))
  | file {path : Path} {file : Disk.File} (source : f.source = .file path)
      (read : d.file path = .ok file) :
      Means d f (.file file.data (f.mode.getD (file.mode % 0o1000)))
  | link {target : String} (source : f.source = .link target) : Means d f (.link target)

/-- What is loaded is what an entry stands for. -/
theorem load_eq_ok : load d f = .ok content ↔ Means d f content := by
  constructor
  · intro loaded
    unfold load at loaded
    cases source : f.source with
    | bytes data =>
        simp only [source, Except.ok.injEq] at loaded
        exact loaded ▸ .bytes source
    | link target =>
        simp only [source, Except.ok.injEq] at loaded
        exact loaded ▸ .link source
    | file path =>
        simp only [source] at loaded
        cases read : d.file path with
        | error cause => simp [read] at loaded
        | ok file =>
            simp only [read, Except.ok.injEq] at loaded
            exact loaded ▸ .file source read
  · rintro (source | ⟨source, read⟩ | source)
    · simp [load, source, defaultMode]
    · simp [load, source, read]
    · simp [load, source]

/-- A list that says what is under each name in the archive of a bundle, in the order of the bytes
of the names. -/
structure Lists (b : Bundle) (d : Disk) (listing : List (String × Content)) : Prop where
  inOrder : listing.Pairwise fun x y => Utf8.encode x.1 < Utf8.encode y.1
  mem_iff : ∀ name content,
    (name, content) ∈ listing ↔ ∃ f, b.fileNamed? name = some f ∧ Means d f content

/-- There is only one such list. -/
theorem Lists.unique {listing' : List (String × Content)} (lists : Lists b d listing)
    (lists' : Lists b d listing') : listing = listing' := by
  refine eq_of_byName (lists.inOrder.imp Utf8.encode_lt_iff.mp)
    (lists'.inOrder.imp Utf8.encode_lt_iff.mp) ?_
  rintro ⟨name, content⟩
  rw [lists.mem_iff, lists'.mem_iff]

/-- Entries that can stand in one directory tree: their names are paths that lead downwards, no one
through the place of another, their sources can be read, and links have a text.

The modes may be any permission bits, also without the right to write, since what changes a file
system here may do everything (`Disk`). A process that is held to permissions could not set the time
of a file in a directory after it has given it a mode without the owner's right to write. -/
structure Assemblable (b : Bundle) (d : Disk) : Prop where
  named : ∀ f, b.Ships f → ∀ part ∈ f.parts, Path.IsName part ∧ '\x00' ∉ part.toList
  apart : ∀ f g, b.Ships f → b.Ships g → f.parts <+: g.parts → f.name = g.name
  readable : ∀ f path, b.Ships f → f.source = .file path → ∃ file, d.file path = .ok file
  moded : ∀ f mode, b.Ships f → f.mode = some mode → mode < 0o1000
  linked : ∀ f, b.Ships f → f.source ≠ .link ""

/-- The place of an archive is free, or an archive of the same format is there. An earlier directory
must not be on the way to itself. -/
def Free (format : ArchiveFormat) (made : Disk) (q : Path) (dir : List String) (name : String) :
    Prop :=
  made.root.at? (dir ++ [name]) = none ∨
    match format with
    | .zip => ∃ f, made.root.at? (dir ++ [name]) = some (.file f)
    | .directory => (∃ entries, made.root.at? (dir ++ [name]) = some (.directory entries)) ∧
        (made.put (dir ++ [name]) none).Enters q dir

/-- The entries of a zip archive with what is listed. -/
def zipEntriesOf (listing : List (String × Content)) : List Zip.Entry :=
  listing.map fun entry => entry.2.zipEntry entry.1

/-- An archive can be written at a path: the directory above it is there or can be created, the
place is free, and the numbers of a zip archive fit into their bytes. -/
structure Ready (format : ArchiveFormat) (start : Disk) (path : Path)
    (listing : List (String × Content)) : Prop where
  place : ∃ q name made dir, path = q.child name ∧ Path.IsName name ∧
    Prepared start q name made dir ∧ Free format made q dir name
  fits : format = .zip → Zip.Writable (zipEntriesOf listing)

/-! ## Entries -/

theorem name_of_fileNamed? (belongs : b.fileNamed? name = some f) : f.name = name := by
  unfold Bundle.fileNamed? at belongs
  split at belongs
  · rename_i isNote
    cases belongs
    exact isNote.2.symm
  · simpa using List.find?_some belongs

theorem mem_contents_iff : f ∈ contents b ↔ b.Ships f := mem_contents

/-- What an entry holds. -/
def contentOf (d : Disk) (f : OutputFile) : Content := (load d f).toOption.getD (.link "")

namespace Assemblable

variable (sound : Assemblable b d)

include sound

theorem loads (member : f ∈ contents b) : load d f = .ok (contentOf d f) := by
  obtain ⟨content, means⟩ : ∃ content, Means d f content := by
    cases source : f.source with
    | bytes data => exact ⟨_, .bytes source⟩
    | link target => exact ⟨_, .link source⟩
    | file path =>
        obtain ⟨file, read⟩ := sound.readable f path (mem_contents_iff.mp member) source
        exact ⟨_, .file source read⟩
  rw [contentOf, load_eq_ok.mpr means]
  rfl

theorem means (member : f ∈ contents b) : Means d f (contentOf d f) :=
  load_eq_ok.mp (sound.loads member)

theorem modes (member : f ∈ contents b) : (contentOf d f).Moded := by
  have given {mode : Nat} (bits : mode < 0o1000) : f.mode.getD mode < 0o1000 := by
    cases override : f.mode with
    | none => exact bits
    | some mode' => exact sound.moded f mode' (mem_contents_iff.mp member) override
  have means := sound.means member
  generalize contentOf d f = content at means
  cases means with
  | bytes source => exact given (by decide)
  | file source read => exact given (Nat.mod_lt _ (by decide))
  | link source => trivial

theorem writes (member : f ∈ contents b) : Writes f (contentOf d f) := by
  refine ⟨sound.named f (mem_contents_iff.mp member), ?_⟩
  have means := sound.means member
  generalize contentOf d f = content at means
  rintro rfl
  cases means with
  | link source => exact sound.linked f (mem_contents_iff.mp member) source

theorem unrelated : ((contents b).map OutputFile.parts).Pairwise Unrelated := by
  rw [List.pairwise_map]
  refine (inOrder_contents b).imp_of_mem fun {f g} among among' before => ?_
  have different : f.name ≠ g.name := (Utf8.encode_lt_iff.mp before).ne
  have ships := mem_contents_iff.mp among
  have ships' := mem_contents_iff.mp among'
  exact ⟨fun above => different (sound.apart f g ships ships' above),
    fun below => different (sound.apart g f ships' ships below).symm⟩

/-- The entries can be written where nothing has been lost. -/
theorem plan (grown : d.Extends made) : Plan made (contents b) (contentOf d) :=
  ⟨fun _ member => load_extends grown (sound.loads member), fun _ member => sound.writes member,
    sound.unrelated⟩

/-- What the entries hold is what is asked for. -/
theorem lists : Lists b d (listingFor (contents b) (contentOf d)) := by
  refine ⟨List.pairwise_map.mpr (inOrder_contents b), fun name content => ?_⟩
  rw [listingFor, List.mem_map]
  constructor
  · rintro ⟨f, member, same⟩
    cases same
    exact ⟨f, mem_contents.mp member, sound.means member⟩
  · rintro ⟨f, belongs, means⟩
    obtain rfl := name_of_fileNamed? belongs
    refine ⟨f, mem_contents.mpr belongs, ?_⟩
    rw [contentOf, load_eq_ok.mpr means]
    rfl

end Assemblable

/-! ## Writing -/

/-- The list that comes with an archive. -/
def entriesOf (listing : List (String × Content)) : List ArchiveEntry :=
  listing.map fun entry => entry.2.entry entry.1

/-- An archive is written as a whole and can be read back. -/
theorem writeBundle_written {f : FunctionSource} (written : b.strategy ≠ .passthrough)
    (sound : Assemblable b start)
    (ready : Ready format start path (listingFor (contents b) (contentOf start))) :
    Ends (· = start) (writeBundle b f format path)
      (fun entries d => entries = entriesOf (listingFor (contents b) (contentOf start)) ∧
        readBack format d path = some (listingFor (contents b) (contentOf start)))
      (fun _ _ => False) := by
  obtain ⟨⟨q, name, made, dir, rfl, isName, prepared, free⟩, fits⟩ := ready
  have grown := Disk.extends_of_createDirectories prepared.created
  have plan := sound.plan grown
  have entries : entriesFor (contents b) (contentOf start) =
      entriesOf (listingFor (contents b) (contentOf start)) := by
    simp [entriesFor, entriesOf, listingFor]
  unfold writeBundle
  rw [if_neg (by simpa using written)]
  cases format with
  | zip =>
      refine (writeZip_written isName prepared free plan.loads).mono ?_ fun _ _ => id
      rintro _ d ⟨rfl, enters, g, there, whole⟩
      have packed : zipEntriesFor (contents b) (contentOf start) =
          zipEntriesOf (listingFor (contents b) (contentOf start)) := by
        simp [zipEntriesFor, zipEntriesOf, listingFor]
      have found : d.find (q.child name) = .ok ⟨dir ++ [name], .file g⟩ :=
        Disk.lookUp_child_eq isName enters there (.inr fun _ same => by cases same)
      refine ⟨entries, ?_⟩
      simp only [readBack, found, whole]
      exact readZip_write (inOrder_contents b) (fun f member => sound.modes member)
        (packed ▸ fits rfl)
  | directory =>
      have clear : (made.put (dir ++ [name]) none).Enters q dir := by
        rcases free with absent | ⟨-, clear⟩
        · rw [Disk.put, Node.alter_eq_self absent.symm]
          exact prepared.enters
        · exact clear
      have noFile (f : Disk.File) : made.root.at? (dir ++ [name]) ≠ some (.file f) := by
        rcases free with absent | ⟨⟨inside, there⟩, -⟩
        · simp [absent]
        · simp [there]
      refine (writeDirectory_written isName prepared clear noFile plan).mono ?_ fun _ _ => id
      rintro _ d ⟨rfl, enters, n, there, bears⟩
      obtain ⟨inside, isRoot⟩ := Node.shape_eq_hollow.mp bears.root
      obtain rfl : n = .directory inside := Option.some.inj isRoot
      have found : d.find (q.child name) = .ok ⟨dir ++ [name], .directory inside⟩ :=
        Disk.lookUp_child_eq isName enters there (.inr fun _ same => by cases same)
      refine ⟨entries, ?_⟩
      simp only [readBack, found]
      rw [readTree_of_bears bears (inOrder_contents b)]

/-- An archive that can be read back has a checksum. -/
theorem checksum_of_readBack (held : readBack format d path = some listing) :
    ∃ checksum, Checksum.ofPath d path = .ok checksum := by
  unfold readBack at held
  unfold Checksum.ofPath
  split at held
  · rename_i found
    exact ⟨_, by rw [found]⟩
  · rename_i found
    exact ⟨_, by rw [found]⟩
  · cases held

/-- Writing an archive and taking its checksum succeeds. -/
theorem writeAndCheck_written {f : FunctionSource} (written : b.strategy ≠ .passthrough)
    (sound : Assemblable b start)
    (ready : Ready format start path (listingFor (contents b) (contentOf start))) :
    Ends (· = start) (writeAndCheck b f format path)
      (fun made d => made.1 = entriesOf (listingFor (contents b) (contentOf start)) ∧
        readBack format d path = some (listingFor (contents b) (contentOf start)))
      (fun _ _ => False) := by
  refine .bind (writeBundle_written written sound ready) fun entries => ?_
  refine .weaken (.given fun same => ?_) fun d done => And.symm done
  refine .bind (checksumOf_ends fun d held => checksum_of_readBack held) fun checksum => .pure ?_
  exact fun d held => ⟨same, held⟩

/-- An assembly whose archive is written succeeds. -/
theorem assemble_succeeds {f : FunctionSource} {destination : Path} {w : World}
    {after : List ArchiveEntry × String → Disk → Prop}
    (ends : Ends (· = w.disk)
      (writeAndCheck b f format (pathFor b.strategy format f.name destination)) after
      (fun _ _ => False)) :
    ∃ archive w', (assemble b f destination format).run w = (.ok archive, w') ∧
      archive.path = pathFor b.strategy format f.name destination ∧
      after (archive.entries, archive.checksum) w'.disk := by
  have ended := ends w.disk rfl
  unfold assemble
  rw [Work.run_bind, run_act]
  generalize (writeAndCheck b f format (pathFor b.strategy format f.name destination)).run
    w.disk = result at ended
  obtain ⟨outcome, disk⟩ := result
  cases outcome with
  | error flaw => exact (ended.badly flaw rfl).elim
  | ok made => exact ⟨_, _, rfl, rfl, ended.well made rfl⟩

/-- What is under each name does not depend on the order of files of different names. -/
theorem fileNamed?_reordered (alike : ∀ name,
    files.filter (·.name == name) = b.files.filter (·.name == name)) (name : String) :
    { b with files }.fileNamed? name = b.fileNamed? name := by
  unfold Bundle.fileNamed?
  rw [← List.head?_filter, alike, List.head?_filter]

/-- **Assembly is faithful.** For entries that can stand in one directory tree there is a list of
what is under each name, such that an archive that can be written is written, holds just what is
listed, and comes with entries that say so, in either format and in whatever order the files of
different names were given. This is said of a process that may do everything: for one that is held
to permissions, a directory can be written only if each file in it has the owner's right to
write. -/
theorem assemble_faithful (written : b.strategy ≠ .passthrough) (sound : Assemblable b start) :
    ∃ listing, Lists b start listing ∧
      ∀ (files : List OutputFile) (f : FunctionSource) (destination : Path)
        (format : ArchiveFormat) (w : World),
        (∀ name, files.filter (·.name == name) = b.files.filter (·.name == name)) →
        w.disk = start → Ready format start (pathFor b.strategy format f.name destination) listing →
        ∃ archive w', (assemble { b with files } f destination format).run w = (.ok archive, w') ∧
          archive.path = pathFor b.strategy format f.name destination ∧
          archive.entries = entriesOf listing ∧
          readBack format w'.disk archive.path = some listing := by
  refine ⟨_, sound.lists, ?_⟩
  rintro files f destination format w alike rfl ready
  have same := fileNamed?_reordered alike
  have soundToo : Assemblable { b with files } w.disk := by
    have ships (f : OutputFile) : ({ b with files } : Bundle).Ships f ↔ b.Ships f := by
      rw [Bundle.Ships, Bundle.Ships, same]
    obtain ⟨named, apart, readable, moded, linked⟩ := sound
    simp only [← ships] at named apart readable moded linked
    exact ⟨named, apart, readable, moded, linked⟩
  rw [← contents_congr same] at ready ⊢
  obtain ⟨archive, w', run, path, entries, held⟩ :=
    assemble_succeeds
      (writeAndCheck_written (b := { b with files }) (f := f) written soundToo ready)
  exact ⟨archive, w', run, path, entries, path ▸ held⟩

section Example

/-- A file that belongs into archives, and an archive of an earlier run. -/
def earlierOutput : World where
  disk :=
    { root := .directory
        [("src", .directory [("a.js", .file ⟨[49], 0o600, 7⟩)]),
          ("out", .directory [("fn", .directory [("old.js", .file ⟨[48], 0o644, 0⟩)])])]
      current := .root
      now := 9 }
  manifests := .empty none
  journal := []

/-- A bundle with a file from the disk, a link, and two files of one name. -/
def mixedBundle : Bundle where
  strategy := .graph
  runtime := .script
  base := .ofNames ["src"]
  files := [⟨"up", .link "lib/a.js", none⟩, ⟨"b.js", .bytes [50], none⟩,
    ⟨"lib/a.js", .file (.ofNames ["src", "a.js"]), none⟩, ⟨"b.js", .bytes [51], some 0o755⟩]
  warnings := []
  recovered := none

/-- The same files in another order. -/
def reorderedFiles : List OutputFile :=
  [⟨"b.js", .bytes [50], none⟩, ⟨"b.js", .bytes [51], some 0o755⟩,
    ⟨"lib/a.js", .file (.ofNames ["src", "a.js"]), none⟩, ⟨"up", .link "lib/a.js", none⟩]

def mixedFunction : FunctionSource := ⟨"fn", .ofNames ["src", "a.js"], .script, "js", {}⟩

theorem contents_mixedBundle : contents mixedBundle =
    [⟨"b.js", .bytes [50], none⟩, ⟨"lib/a.js", .file (.ofNames ["src", "a.js"]), none⟩,
      ⟨"up", .link "lib/a.js", none⟩] := by
  have kept : firstOfEach mixedBundle.files =
      [⟨"up", .link "lib/a.js", none⟩, ⟨"b.js", .bytes [50], none⟩,
        ⟨"lib/a.js", .file (.ofNames ["src", "a.js"]), none⟩] := by cbv
  show (firstOfEach mixedBundle.files).mergeSort _ = _
  rw [kept]
  simp [List.mergeSort]

theorem assemblable_mixedBundle : Assemblable mixedBundle earlierOutput.disk := by
  have ships {f : OutputFile} (belongs : mixedBundle.Ships f) : f = ⟨"b.js", .bytes [50], none⟩ ∨
      f = ⟨"lib/a.js", .file (.ofNames ["src", "a.js"]), none⟩ ∨
      f = ⟨"up", .link "lib/a.js", none⟩ := by
    have member := mem_contents_iff.mpr belongs
    simpa [contents_mixedBundle] using member
  refine ⟨?_, ?_, ?_, ?_, ?_⟩
  · intro f belongs
    rcases ships belongs with rfl | rfl | rfl <;> decide
  · intro f g belongs belongs'
    rcases ships belongs with rfl | rfl | rfl <;> rcases ships belongs' with rfl | rfl | rfl <;>
      decide
  · intro f path belongs source
    rcases ships belongs with rfl | rfl | rfl <;> cases source
    exact ⟨⟨[49], 0o600, 7⟩, by cbv⟩
  · intro f mode belongs override
    rcases ships belongs with rfl | rfl | rfl <;> cases override
  · intro f belongs
    rcases ships belongs with rfl | rfl | rfl <;> decide

theorem reordered_mixedBundle (name : String) :
    reorderedFiles.filter (·.name == name) = mixedBundle.files.filter (·.name == name) := by
  by_cases up : name = "up"
  · subst up
    cbv
  · by_cases lib : name = "lib/a.js"
    · subst lib
      cbv
    · simp [reorderedFiles, mixedBundle, List.filter_cons, Ne.symm up, Ne.symm lib]

/-- The directory in which the earlier archive is. -/
theorem ready_earlierOutput (listing : List (String × Content)) :
    Ready .directory earlierOutput.disk ((Path.ofNames ["out"]).child "fn") listing := by
  have enters : earlierOutput.disk.Enters (.ofNames ["out"]) ["out"] :=
    ⟨[("fn", .directory [("old.js", .file ⟨[48], 0o644, 0⟩)])], Disk.leads_of_walk (by cbv)⟩
  refine ⟨⟨.ofNames ["out"], "fn", earlierOutput.disk, ["out"], rfl, by decide, ⟨?_, enters⟩,
    .inr ⟨⟨_, rfl⟩, ⟨[], Disk.leads_of_walk (by cbv)⟩⟩⟩, fun same => by cases same⟩
  rw [show holder ((Path.ofNames ["out"]).child "fn") = .ofNames ["out"] by decide]
  exact Disk.createDirectories_of_enters enters

/-- A bundle with a single link. -/
def linkBundle : Bundle where
  strategy := .graph
  runtime := .script
  base := .ofNames ["src"]
  files := [⟨"up", .link "a.js", none⟩]
  warnings := []
  recovered := none

theorem contents_linkBundle : contents linkBundle = [⟨"up", .link "a.js", none⟩] := by cbv

theorem assemblable_linkBundle (d : Disk) : Assemblable linkBundle d := by
  have ships {f : OutputFile} (belongs : linkBundle.Ships f) : f = ⟨"up", .link "a.js", none⟩ := by
    have member := mem_contents_iff.mpr belongs
    simpa [contents_linkBundle] using member
  refine ⟨?_, ?_, ?_, ?_, ?_⟩
  · intro f belongs
    obtain rfl := ships belongs
    decide
  · intro f g belongs belongs' _
    rw [ships belongs, ships belongs']
  · intro f path belongs source
    obtain rfl := ships belongs
    cases source
  · intro f mode belongs override
    obtain rfl := ships belongs
    cases override
  · intro f belongs
    obtain rfl := ships belongs
    decide

theorem lists_linkBundle (d : Disk) : Lists linkBundle d [("up", .link "a.js")] := by
  have lists := (assemblable_linkBundle d).lists
  rw [contents_linkBundle] at lists
  exact lists

/-- Where no zip archive is yet. -/
theorem ready_freePlace :
    Ready .zip earlierOutput.disk ((Path.ofNames ["out"]).child "fn.zip")
      [("up", .link "a.js")] := by
  have enters : earlierOutput.disk.Enters (.ofNames ["out"]) ["out"] :=
    ⟨[("fn", .directory [("old.js", .file ⟨[48], 0o644, 0⟩)])], Disk.leads_of_walk (by cbv)⟩
  refine ⟨⟨.ofNames ["out"], "fn.zip", earlierOutput.disk, ["out"], rfl, by decide, ⟨?_, enters⟩,
    .inl (by cbv)⟩, fun _ => ⟨by decide, ?_, ?_⟩⟩
  · rw [show holder ((Path.ofNames ["out"]).child "fn.zip") = .ofNames ["out"] by decide]
    exact Disk.createDirectories_of_enters enters
  · rintro e member
    obtain rfl : e = .link "up" linkMode "a.js" := List.mem_singleton.mp member
    constructor <;> cbv
  · cbv

/-- An earlier directory is replaced by one that holds what is asked for, whatever the order of the
files; a zip archive holds the same. -/
theorem assemble_faithful_earlierOutput :
    (∃ archive w', (assemble { mixedBundle with files := reorderedFiles } mixedFunction
        (.ofNames ["out"]) .directory).run earlierOutput = (.ok archive, w') ∧
      ∃ listing, Lists mixedBundle earlierOutput.disk listing ∧
        archive.entries = entriesOf listing ∧
        readBack .directory w'.disk archive.path = some listing) ∧
    ∃ archive w', (assemble linkBundle mixedFunction (.ofNames ["out"]) .zip).run earlierOutput =
        (.ok archive, w') ∧
      archive.entries = [⟨"up", 0o777, 4⟩] ∧
      readBack .zip w'.disk archive.path = some [("up", .link "a.js")] := by
  constructor
  · obtain ⟨listing, lists, assembled⟩ := assemble_faithful (by decide) assemblable_mixedBundle
    obtain ⟨archive, w', run, -, entries, held⟩ := assembled reorderedFiles mixedFunction
      (.ofNames ["out"]) .directory earlierOutput reordered_mixedBundle rfl
      (ready_earlierOutput listing)
    exact ⟨archive, w', run, listing, lists, entries, held⟩
  · obtain ⟨listing, lists, assembled⟩ :=
      assemble_faithful (by decide) (assemblable_linkBundle earlierOutput.disk)
    obtain rfl := lists.unique (lists_linkBundle _)
    obtain ⟨archive, w', run, -, entries, held⟩ := assembled linkBundle.files mixedFunction
      (.ofNames ["out"]) .zip earlierOutput (fun _ => rfl) rfl ready_freePlace
    exact ⟨archive, w', run, entries, held⟩

/-- An archive whose destination is reached through the archive of an earlier run cannot take its
place, and the earlier one is gone. -/
theorem assemble_withinItself :
    Assemblable linkBundle earlierOutput.disk ∧
      Prepared earlierOutput.disk (.ofNames ["out", "fn", ".."]) "fn" earlierOutput.disk ["out"] ∧
      (∃ entries, earlierOutput.disk.root.at? ["out", "fn"] = some (.directory entries)) ∧
      ((assemble linkBundle mixedFunction (.ofNames ["out", "fn", ".."]) .directory).run
        earlierOutput).1.toOption = none ∧
      ((assemble linkBundle mixedFunction (.ofNames ["out", "fn", ".."]) .directory).run
        earlierOutput).2.disk.find (.ofNames ["out", "fn"]) = .error .notFound := by
  have enters : earlierOutput.disk.Enters (.ofNames ["out", "fn", ".."]) ["out"] :=
    ⟨[("fn", .directory [("old.js", .file ⟨[48], 0o644, 0⟩)])], Disk.leads_of_walk (by cbv)⟩
  refine ⟨assemblable_linkBundle _, ⟨?_, enters⟩, ⟨_, rfl⟩, ?_, ?_⟩
  · rw [show holder ((Path.ofNames ["out", "fn", ".."]).child "fn") =
      .ofNames ["out", "fn", ".."] by decide]
    exact Disk.createDirectories_of_enters enters
  · cbv
  · cbv

end Example

end Archive

end FunctionArchive
