import FunctionArchive.Executable.Image

/-!
# ELF

A file in this format has a table of segments, by which it is loaded, and a table of sections, by
which it is linked. A segment can hold the entries for the dynamic linker, which name further tables
by their addresses in memory. Everything that these tables announce must be in the file: names are
text, and symbols and relocations are complete.
-/

set_option autoImplicit false

namespace FunctionArchive.Executable

/-- A segment of a file. -/
structure Segment where
  kind : Nat
  offset : Nat
  address : Nat
  fileSize : Nat
  memorySize : Nat

namespace Segment

/-- The kind of a segment that is loaded into memory. -/
def loaded : Nat := 1

/-- The kind of a segment with entries for the dynamic linker. -/
def linking : Nat := 2

end Segment

/-- Where in the file an address of memory lies. -/
def offsetOf? (segments : List Segment) (address : Nat) : Option Nat :=
  let holder := segments.find? fun s =>
    s.kind == Segment.loaded && s.address ≤ address && address - s.address < s.memorySize
  holder.bind fun s =>
    let offset := s.offset + (address - s.address)
    if offset < addressBound then some offset else none

/-- A section of a file. -/
structure Section where
  kind : Nat
  address : Nat
  offset : Nat
  size : Nat
  link : Nat
  entrySize : Nat

namespace Section

/-- The kind of a section with symbols. -/
def symbols : Nat := 2

/-- The kind of a section with relocations that come with an addend. -/
def fullRelocations : Nat := 4

/-- The kind of a section that takes no room in the file. -/
def empty : Nat := 8

/-- The kind of a section with relocations. -/
def relocations : Nat := 9

/-- The kinds of sections with the versions of symbols: those defined, those needed, and those of
each symbol. -/
def versions : List Nat := [0x6FFFFFFD, 0x6FFFFFFE, 0x6FFFFFFF]

/-- Whether a section lies within a file of a size and within memory. -/
def fits (s : Section) (size : Nat) : Bool :=
  s.kind == empty || s.size == 0 ||
    (s.offset + s.size ≤ size && s.address + s.size < addressBound)

end Section

/-- A file in the ELF format, with the number of bytes that its addresses have. -/
structure Elf where
  image : Image
  width : Nat

namespace Elf

/-- Whether addresses have eight bytes. -/
def isWide (e : Elf) : Bool := e.width == 8

/-- The size of the header. -/
def headerSize (e : Elf) : Nat := if e.isWide then 64 else 52

/-- The size of an entry of the table of segments. -/
def segmentSize (e : Elf) : Nat := if e.isWide then 56 else 32

/-- The size of an entry of the table of sections. -/
def sectionSize (e : Elf) : Nat := if e.isWide then 64 else 40

/-- The size of a symbol. -/
def symbolSize (e : Elf) : Nat := if e.isWide then 24 else 16

/-- The size of a relocation. -/
def relocationSize (e : Elf) (isFull : Bool) : Nat := if isFull then 3 * e.width else 2 * e.width

/-- An address at an offset. -/
def address? (e : Elf) (offset : Nat) : Option Nat := e.image.number? e.width offset

/-- A number of two bytes in the part of the header behind the addresses. -/
def small? (e : Elf) (offset : Nat) : Option Nat := e.image.number? 2 (24 + 3 * e.width + offset)

/-! ## Segments and sections -/

/-- Reads a segment. -/
def segment? (e : Elf) (offset : Nat) : Option Segment := do
  guard (e.image.hasRun offset e.segmentSize)
  let fields := offset + (if e.isWide then 8 else 4)
  return {
    kind := ← e.image.number? 4 offset
    offset := ← e.address? fields
    address := ← e.address? (fields + e.width)
    fileSize := ← e.address? (fields + 3 * e.width)
    memorySize := ← e.address? (fields + 4 * e.width) }

/-- Reads the segments. -/
def segments? (e : Elf) : Option (List Segment) := do
  let table ← e.address? (24 + e.width)
  let count ← e.small? 8
  guard (e.image.hasRoom count e.segmentSize)
  readTable e.segment? e.segmentSize table count

/-- Reads a section. -/
def section? (e : Elf) (offset : Nat) : Option Section := do
  guard (e.image.hasRun offset e.sectionSize)
  let fields := offset + 8
  return {
    kind := ← e.image.number? 4 (offset + 4)
    address := ← e.address? (fields + e.width)
    offset := ← e.address? (fields + 2 * e.width)
    size := ← e.address? (fields + 3 * e.width)
    link := ← e.image.number? 4 (fields + 4 * e.width)
    entrySize := ← e.address? (fields + 5 * e.width + 8) }

/-- Reads the sections. A file with very many of them keeps their number in the first one. -/
def sections? (e : Elf) : Option (List Section) := do
  let table ← e.address? (24 + 2 * e.width)
  if table == 0 then return []
  else
    let first ← e.section? table
    let announced ← e.small? 12
    let count := if announced == 0 then first.size else announced
    guard (e.image.hasRoom count e.sectionSize)
    return first :: (← readTable e.section? e.sectionSize (table + e.sectionSize) (count - 1))

/-- Whether the names in the section with an index are there. Where the index has no room, the first
section has it; an index of no section is as good as none. -/
def hasNames (e : Elf) (sections : List Section) (index : Nat) : Bool :=
  let index := if index == 0xFFFF then (sections.head?.map (·.link)).getD 0 else index
  match sections[index]? with
  | none => true
  | some s => s.fits e.image.size && e.image.hasTexts s.offset s.size

/-- Whether as many symbols are there. -/
def hasSymbols (e : Elf) (offset count : Nat) : Bool :=
  e.image.hasRun offset (count * e.symbolSize)

/-- Whether the symbols of the last section that has some are there, with their names. -/
def hasSectionSymbols (e : Elf) (sections : List Section) : Bool :=
  match sections.reverse.find? (·.kind == Section.symbols) with
  | none => true
  | some s =>
    e.hasSymbols s.offset (if s.entrySize == 0 then 0 else s.size / s.entrySize) &&
      e.hasNames sections s.link

/-- Whether the relocations of a section are there, if it is a section with relocations. -/
def hasSectionRelocations (e : Elf) (s : Section) : Bool :=
  if s.kind == Section.relocations || s.kind == Section.fullRelocations then
    s.fits e.image.size && (s.size == 0 || e.image.hasRun s.offset s.size)
  else true

/-- Whether the first section of a kind is there, if the file has one. -/
def hasFirst (e : Elf) (sections : List Section) (kind : Nat) : Bool :=
  match sections.find? (·.kind == kind) with
  | none => true
  | some s => e.image.hasRun s.offset s.size

/-! ## Dynamic linking -/

/-- What an entry for the dynamic linker can say. -/
inductive Tag
  | hash
  | names
  | symbols
  | fullRelocations
  | fullRelocationsSize
  | namesSize
  | relocations
  | relocationsSize
  | callRelocations
  | callRelocationsSize
  | callRelocationsKind
  | quickHash
deriving DecidableEq

namespace Tag

/-- The number of a tag. -/
def code : Tag → Nat
  | callRelocationsSize => 2
  | hash => 4
  | names => 5
  | symbols => 6
  | fullRelocations => 7
  | fullRelocationsSize => 8
  | namesSize => 10
  | relocations => 17
  | relocationsSize => 18
  | callRelocationsKind => 20
  | callRelocations => 23
  | quickHash => 0x6FFFFEF5

end Tag

/-- The entries for the dynamic linker, each a tag and its value. -/
structure Linking where
  segments : List Segment
  entries : List (Nat × Nat)

namespace Linking

/-- The value of a tag; the last one counts, and without any it is zero. -/
def value (l : Linking) (tag : Tag) : Nat := (l.entries.reverse.lookup tag.code).getD 0

/-- Where in the file the address of a tag lies. -/
def place? (l : Linking) (tag : Tag) : Option Nat :=
  (l.entries.reverse.lookup tag.code).bind (offsetOf? l.segments)

/-- Where in the file the address of a tag lies, or the start of the file. -/
def place (l : Linking) (tag : Tag) : Nat := (l.place? tag).getD 0

end Linking

/-- The entries for the dynamic linker, up to the one that ends them. -/
def linkingEntries? (e : Elf) (s : Segment) : Option (List (Nat × Nat)) := do
  guard (s.fileSize == 0 || e.image.hasRun s.offset s.fileSize)
  let pairs ← readTable (fun offset => do
    return (← e.address? offset, ← e.address? (offset + e.width))) (2 * e.width) s.offset
      (s.fileSize / (2 * e.width))
  return pairs.takeWhile (·.1 != 0)

/-- The highest number of a symbol in some relocations; none if they are incomplete. -/
def highestSymbol? (e : Elf) (offset size : Nat) (isFull : Bool) : Option Nat := do
  guard (size == 0 || e.image.hasRun offset size)
  let step := e.relocationSize isFull
  let symbols ← readTable (fun offset => do
    let symbol ← e.address? (offset + e.width)
    return symbol / (if e.isWide then 0x100000000 else 0x100)) step offset (size / step)
  return symbols.foldl max 0

/-- Machines whose hash tables have wide entries if their addresses are wide. -/
def wideHashMachines : List Nat := [22, 41]

/-- How many symbols a hash table has. -/
def hashCount? (e : Elf) (offset : Nat) : Option Nat := do
  let machine ← e.image.number? 2 18
  e.image.number? (if wideHashMachines.contains machine && e.isWide then 8 else 4) (offset + 4)

/-- The number behind the last link of a chain whose links start at an offset; the last one is odd.
The bound exceeds the number of links in the file. -/
def chainEnd? (e : Elf) : Nat → Nat → Nat → Option Nat
  | 0, _, _ => none
  | bound + 1, offset, number => do
    let link ← e.image.number? 4 offset
    if link % 2 == 1 then return number + 1 else chainEnd? e bound (offset + 4) (number + 1)

/-- How many symbols a hash table of the quick kind has: the chain that starts last tells. -/
def quickHashCount? (e : Elf) (offset : Nat) : Option Nat := do
  let bucketCount ← e.image.number? 4 offset
  let first ← e.image.number? 4 (offset + 4)
  let filterSize ← e.image.number? 4 (offset + 8)
  guard (bucketCount != 0 && first != 0 && filterSize != 0)
  let buckets := offset + 16 + filterSize * e.width
  let starts ← readTable (e.image.number? 4) 4 buckets bucketCount
  let start := starts.foldl max 0
  if start < first then return 0
  else
    chainEnd? e (e.image.size + 1) (buckets + bucketCount * 4 + (start - first) * 4) start

/-- How many symbols the hash tables speak of. -/
def hashedCount? (e : Elf) (l : Linking) : Option Nat :=
  match l.place? .quickHash, l.place? .hash with
  | some offset, _ => e.quickHashCount? offset
  | none, some offset => e.hashCount? offset
  | none, none => some 0

/-- Whether everything that the dynamic linker needs is there. -/
def hasLinking (e : Elf) (segments : List Segment) : Bool :=
  match segments.find? (·.kind == Segment.linking) with
  | none => true
  | some s =>
    let fits : Option Unit := do
      let l : Linking := ⟨segments, ← e.linkingEntries? s⟩
      guard (e.image.hasTexts (l.place .names) (l.value .namesSize))
      let full ← e.highestSymbol? (l.place .fullRelocations) (l.value .fullRelocationsSize) true
      let plain ← e.highestSymbol? (l.place .relocations) (l.value .relocationsSize) false
      let calls ← e.highestSymbol? (l.place .callRelocations) (l.value .callRelocationsSize)
        (l.value .callRelocationsKind == Tag.fullRelocations.code)
      let hashed ← e.hashedCount? l
      let highest := max full (max plain calls)
      let count := if highest == 0 then hashed else max hashed (highest + 1)
      guard (e.hasSymbols (l.place .symbols) count)
    fits.isSome

/-! ## Files -/

/-- Whether everything that a file announces is there. -/
def isComplete (e : Elf) : Bool :=
  let complete : Option Unit := do
    guard (e.headerSize ≤ e.image.size)
    let segments ← e.segments?
    let sections ← e.sections?
    guard (e.hasNames sections (← e.small? 14))
    guard (e.hasSectionSymbols sections)
    guard (e.hasLinking segments)
    guard (sections.all e.hasSectionRelocations)
    guard (Section.versions.all (e.hasFirst sections))
  complete.isSome

/-- A file that starts with the mark of this format. -/
def ofData? (data : Array UInt8) : Option Elf := do
  let width ← match (data[4]? : Option UInt8) with
    | some 1 => some 4
    | some 2 => some 8
    | _ => none
  let image ← match (data[5]? : Option UInt8) with
    | some 1 => some (littleImage data)
    | some 2 => some (bigImage data)
    | _ => none
  return ⟨image, width⟩

end Elf

end FunctionArchive.Executable
