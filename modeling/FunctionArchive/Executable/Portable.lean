import FunctionArchive.Executable.Image

/-!
# PE

A file in this format starts with a header for an older system, which says where its own header is.
Behind that stand a table of directories and a table of sections. The directories name further
tables by their addresses in memory, and the sections tell where in the file these are. What a
directory announces must be there; only the table of exported names may be missing.
-/

set_option autoImplicit false

namespace FunctionArchive.Executable

/-- What a directory says of a table: its address and its size. -/
structure Extent where
  address : Nat
  size : Nat
deriving DecidableEq

/-- A part of a file that is loaded into memory. -/
structure Block where
  memorySize : Nat
  address : Nat
  fileSize : Nat
  offset : Nat

/-- A number rounded down to a multiple of a power of two. -/
def roundDown (unit n : Nat) : Nat := n / unit * unit

/-- A number rounded up to a multiple of a power of two. -/
def roundUp (unit n : Nat) : Nat := roundDown unit (n + unit - 1)

namespace Block

/-- The size of a page of memory. -/
def page : Nat := 0x1000

/-- Blocks of the file start at multiples of this number. -/
def filePage : Nat := 0x200

/-- How many bytes of a block are loaded. Sizes are rounded up to whole pages, and a block is cut
where the next one can begin. -/
def loadedSize (alignment : Nat) (b : Block) : Nat :=
  let fromFile := roundUp alignment (b.offset + b.fileSize) - roundDown filePage b.offset
  let size := min fromFile (roundUp page b.fileSize)
  if b.memorySize == 0 then size else min size (roundUp page b.memorySize)

/-- Where in the file an address is, if it belongs to the block. -/
def offsetOf? (alignment : Nat) (b : Block) (address : Nat) : Option Nat :=
  if b.address ≤ address && address < b.address + b.loadedSize alignment then
    some (address - b.address + roundDown filePage b.offset)
  else none

end Block

/-- A file in the PE format: its bytes, how blocks are aligned in it, and the blocks. -/
structure Portable where
  image : Image
  isWide : Bool
  base : Nat
  alignment : Nat
  blocks : List Block

/-- Whether a number is a power of two. -/
def isPowerOfTwo (n : Nat) : Bool := n != 0 && n &&& (n - 1) == 0

namespace Portable

/-- How many bytes a wide number of this file has. -/
def width (p : Portable) : Nat := if p.isWide then 8 else 4

/-- Where in the file an address is. -/
def offsetOf? (p : Portable) (address : Nat) : Option Nat :=
  if isPowerOfTwo p.alignment then p.blocks.findSome? (·.offsetOf? p.alignment address) else none

/-- Where in the file an address is that is given together with the base of the program. -/
def offsetAboveBase? (p : Portable) (address : Nat) : Option Nat :=
  if p.base ≤ address then p.offsetOf? (address - p.base) else none

/-- A number of four bytes. -/
def word? (p : Portable) (offset : Nat) : Option Nat := p.image.number? 4 offset

/-- A wide number. -/
def wide? (p : Portable) (offset : Nat) : Option Nat := p.image.number? p.width offset

/-- Whether a table lies within the file. -/
def hasExtent (p : Portable) (e : Extent) : Bool :=
  (p.offsetOf? e.address).any (p.image.hasRun · e.size)

/-! ## Imported names -/

/-- Whether the name of an import is there. Imports by number have none, and an address without a
place in the file is passed over. -/
def hasImport (p : Portable) (reference : Nat) : Bool :=
  let isNumber := reference / (if p.isWide then 0x8000000000000000 else 0x80000000) == 1
  isNumber ||
    match p.offsetOf? (reference % 0x80000000) with
    | none => true
    | some offset => p.image.hasRun offset 2 && p.image.hasText (offset + 2)

/-- Whether numbers follow each other up to a zero, each as it should be; the bound exceeds how many
there can be in the file. -/
def hasNumbers (p : Portable) (isGood : Nat → Bool) : Nat → Nat → Bool
  | 0, _ => false
  | bound + 1, offset =>
    match p.wide? offset with
    | none => false
    | some 0 => true
    | some n => isGood n && hasNumbers p isGood bound (offset + p.width)

/-- More numbers than there can be in the file. -/
def numberBound (p : Portable) : Nat := p.image.size + 1

/-- Whether the imports of a library are there: their names, and the table for their addresses,
which may also stand in for the table of names. -/
def hasLibrary (p : Portable) (names library addresses : Nat) : Bool :=
  let hasNames (offset : Nat) : Bool := p.hasNumbers p.hasImport p.numberBound offset
  (p.offsetOf? library).any p.image.hasText &&
    match p.offsetOf? names, p.offsetOf? addresses with
    | _, none => false
    | some offset, some table => hasNames offset && p.hasNumbers (fun _ => true) p.numberBound table
    | none, some table => hasNames table

/-- Whether the libraries of a table of imports are there; the bound exceeds how many there can
be. -/
def hasLibraries (p : Portable) : Nat → Nat → Bool
  | 0, _ => false
  | bound + 1, offset =>
    match p.word? offset, p.word? (offset + 12), p.word? (offset + 16) with
    | some names, some library, some addresses =>
      library == 0 || addresses == 0 ||
        (p.hasLibrary names library addresses && hasLibraries p bound (offset + 20))
    | _, _, _ => false

/-- Whether the imports are there. -/
def hasImports (p : Portable) (e : Extent) : Bool :=
  (p.offsetOf? e.address).any (p.hasLibraries p.numberBound)

/-! ## Debugging -/

/-- Whether a record for debuggers is there: its mark and so many further bytes, and behind them
a name that fills the rest. With another mark it is none of these records. -/
def hasDebugName (p : Portable) (mark fixed offset size : Nat) : Bool :=
  match p.word? offset with
  | none => false
  | some found =>
    fixed + 4 ≤ size && (found != mark ||
      (p.image.hasRun (offset + 4) fixed && offset + size ≤ p.image.size))

/-- Marks of records that tell how a program was laid out. -/
def layoutMarks : List Nat := [0x4C544347, 0x50475500]

/-- Whether an entry for debuggers is sound: one of a known kind has its data. -/
def hasDebugEntry (p : Portable) (kind size offset : Nat) : Bool :=
  match kind with
  | 2 => p.hasDebugName 0x53445352 20 offset size && p.hasDebugName 0x3031424E 12 offset size
  | 12 => p.image.hasRun offset 20
  | 13 =>
    match p.word? offset with
    | none => false
    | some mark => !layoutMarks.contains mark || (4 ≤ size && offset + size ≤ p.image.size)
  | 16 =>
    size == 0 || (p.word? offset).any fun length => offset + 4 + length ≤ p.image.size
  | 20 => p.image.hasRun offset 4
  | _ => true

/-- The size of an entry for debuggers. -/
def debugSize : Nat := 28

/-- Whether what debuggers need is there. The table has no room for a part of an entry. -/
def hasDebugging (p : Portable) (e : Extent) : Bool :=
  match p.offsetOf? e.address with
  | none => false
  | some offset =>
    p.image.hasRun offset e.size && e.size % debugSize == 0 &&
      (List.range (e.size / debugSize)).all fun n =>
        let entry := offset + n * debugSize
        match p.word? (entry + 12), p.word? (entry + 16), p.word? (entry + 24) with
        | some kind, some size, some data => p.hasDebugEntry kind size data
        | _, _, _ => false

/-! ## Further tables -/

/-- Whether the data that each thread has of its own is there, and the functions that are called for
each thread. -/
def hasThreadData (p : Portable) (e : Extent) : Bool :=
  match p.offsetOf? e.address with
  | none => false
  | some offset =>
    p.image.hasRun offset (4 * p.width + 8) &&
      match p.wide? offset, p.wide? (offset + p.width), p.wide? (offset + 2 * p.width),
          p.wide? (offset + 3 * p.width) with
      | some start, some stop, some index, some calls =>
        (start == 0 || stop == 0 || (start ≤ stop &&
          (p.offsetAboveBase? start).any fun data => data + (stop - start) ≤ p.image.size)) &&
        (index == 0 || p.base ≤ index) &&
        (calls == 0 || (p.offsetAboveBase? calls).any fun table =>
          p.hasNumbers (fun call => (p.offsetAboveBase? call).isSome) p.numberBound table)
      | _, _, _, _ => false

/-- The size of an entry of the table for exceptions. -/
def exceptionSize : Nat := 12

/-- The processor whose table for exceptions is read. -/
def exceptionProcessor : Nat := 0x8664

/-- Whether the table for exceptions is there. -/
def hasExceptions (p : Portable) (e : Extent) : Bool :=
  e.size % exceptionSize == 0 && (p.offsetOf? e.address).any (· % 4 == 0)

/-- Whether the resources are there: the table, and its first directory with its entries. -/
def hasResources (p : Portable) (e : Extent) : Bool :=
  match p.offsetOf? e.address with
  | none => false
  | some offset =>
    p.image.hasRun offset e.size && p.image.hasRun offset 16 &&
      match p.image.number? 2 (offset + 12), p.image.number? 2 (offset + 14) with
      | some named, some numbered => offset + 16 + (named + numbered) * 8 ≤ p.image.size
      | _, _ => false

/-- The mark of the description of a managed program. -/
def managedMark : Nat := 0x424A5342

/-- Whether a managed program is there: its header, and the description that the header names. -/
def hasManaged (p : Portable) (e : Extent) : Bool :=
  match p.offsetOf? e.address with
  | none => false
  | some offset =>
    p.image.hasRun offset 72 &&
      ((p.word? (offset + 8)).bind p.offsetOf?).any fun description =>
        p.word? description == some managedMark

/-- Revisions of certificates. -/
def certificateRevisions : List Nat := [0x100, 0x200]

/-- Kinds of certificates. -/
def certificateKinds : List Nat := [1, 2, 3, 4]

/-- Whether certificates fill a run of the file. The bound exceeds how many there can be. -/
def hasCertificates (p : Portable) (stop : Nat) : Nat → Nat → Bool
  | 0, _ => false
  | bound + 1, offset =>
    if stop ≤ offset then true
    else
      match p.word? offset, p.image.number? 2 (offset + 4), p.image.number? 2 (offset + 6) with
      | some size, some revision, some kind =>
        let behind := offset + 8 + (size - 8)
        behind ≤ p.image.size && certificateRevisions.contains revision &&
          certificateKinds.contains kind && hasCertificates p stop bound (roundUp 8 behind)
      | _, _, _ => false

/-! ## Directories -/

/-- Whether the table that a directory names is there. Directories are known by their numbers; the
others name nothing that is read. The directory of certificates gives a place in the file. -/
def hasDirectory (p : Portable) (processor number : Nat) (e : Extent) : Bool :=
  match number with
  | 1 => p.hasImports e
  | 2 => p.hasResources e
  | 3 => processor != exceptionProcessor || p.hasExceptions e
  | 4 =>
    e.address + e.size ≤ p.image.size &&
      p.hasCertificates (e.address + e.size) p.numberBound e.address
  | 5 => p.hasExtent e
  | 6 => p.hasDebugging e
  | 9 => p.hasThreadData e
  | 10 => p.hasExtent e
  | 14 => p.hasManaged e
  | _ => true

/-- How many directories there are at most. -/
def directoryLimit : Nat := 16

/-! ## The header -/

/-- The value of a digit in base 64. -/
def base64Digit? (b : UInt8) : Option Nat :=
  let n := b.toNat
  if 65 ≤ n && n ≤ 90 then some (n - 65)
  else if 97 ≤ n && n ≤ 122 then some (n - 97 + 26)
  else if 48 ≤ n && n ≤ 57 then some (n - 48 + 52)
  else if n == 43 then some 62
  else if n == 47 then some 63
  else none

/-- The value of a digit in base ten. -/
def decimalDigit? (b : UInt8) : Option Nat :=
  if 48 ≤ b.toNat && b.toNat ≤ 57 then some (b.toNat - 48) else none

/-- The number that digits stand for. -/
def numberOf? (base : Nat) (digit? : UInt8 → Option Nat) (digits : List UInt8) : Option Nat :=
  digits.foldlM (fun n b => (digit? b).map (n * base + ·)) 0

/-- The offset that a section name stands for when it begins with a slash: the rest is a number,
perhaps with a plus sign in front, or behind a second slash a number in base 64. -/
def nameOffset? (name : List UInt8) : Option Nat :=
  match name.takeWhile (· != 0) with
  | 47 :: 47 :: digits => numberOf? 64 base64Digit? digits
  | 47 :: 43 :: digits | 47 :: digits =>
    if digits.isEmpty then none else numberOf? 10 decimalDigit? digits
  | _ => none

/-- Reads a section. A name that is too long for it is in a table of texts. -/
def block? (i : Image) (texts offset : Nat) : Option Block := do
  guard (i.hasRun offset 40)
  let name := i.run offset 8
  if name.head? == some 47 then
    guard (i.hasText (texts + (← nameOffset? name)))
  return {
    memorySize := ← i.number? 4 (offset + 8)
    address := ← i.number? 4 (offset + 12)
    fileSize := ← i.number? 4 (offset + 16)
    offset := ← i.number? 4 (offset + 20) }

/-- Reads a directory. -/
def extent? (i : Image) (offset : Nat) : Option Extent := do
  return { address := ← i.number? 4 offset, size := ← i.number? 4 (offset + 4) }

/-- Whether the second header of a file, with these blocks, is complete and what it announces is
there. -/
def hasProgram (i : Image) (processor offset : Nat) (blocks : List Block) : Option Unit := do
  let isWide ← match ← i.number? 2 offset with
    | 0x10B => some false
    | 0x20B => some true
    | _ => none
  let fixed := if isWide then 112 else 96
  guard (i.hasRun offset fixed)
  let count ← i.number? 4 (offset + fixed - 4)
  guard (count ≤ directoryLimit)
  let extents ← readTable (extent? i) 8 (offset + fixed) count
  let p : Portable := {
    image := i
    isWide, blocks
    base := ← if isWide then i.number? 8 (offset + 24) else i.number? 4 (offset + 28)
    alignment := ← i.number? 4 (offset + 36) }
  guard (extents.zipIdx.all fun (e, number) =>
    (e.address == 0 && e.size == 0) || p.hasDirectory processor number e)

/-- Where the header for the older system ends. -/
def oldHeaderSize : Nat := 0x40

/-- The mark of this format. -/
def mark : Nat := 0x4550

/-- The mark of a note of the tools that made a file. -/
def toolsMark : Nat := 0x68636952

/-- The mark at the start of such a note. -/
def toolsStart : Nat := 0x536E6144

/-- Whether a note of the tools that made a file is sound. It stands between the headers and ends
with its mark and a number, which is mixed into all that stands before; it consists of numbers of
four bytes. -/
def hasTools (i : Image) (stop : Nat) : Bool :=
  let offsets := (List.range (stop - oldHeaderSize)).map (oldHeaderSize + ·)
  match offsets.find? fun o => o + 8 ≤ stop && i.number? 4 o == some toolsMark with
  | none => true
  | some note =>
    let starts := offsets.filter fun o => (o - oldHeaderSize) % 4 == 0
    match i.number? 4 (note + 4), starts.find? fun o => stop < o + 4 ||
        (do return Nat.xor (← i.number? 4 o) (← i.number? 4 (note + 4))) == some toolsStart with
    | some _, some start => start + 4 ≤ stop && start + 4 < note && (note - start) % 4 == 0
    | _, _ => true

/-- Whether everything that a file with the mark of the older system announces is there. -/
def isComplete (data : Array UInt8) : Bool :=
  let i := littleImage data
  let complete : Option Unit := do
    guard (i.hasRun 0 oldHeaderSize)
    let start ← i.number? 4 0x3C
    guard ((← i.number? 4 start) == mark)
    guard (oldHeaderSize ≤ start)
    guard (hasTools i start)
    guard (i.hasRun start 24)
    let processor ← i.number? 2 (start + 4)
    let count ← i.number? 2 (start + 6)
    let symbols ← i.number? 4 (start + 12)
    let symbolCount ← i.number? 4 (start + 16)
    let size ← i.number? 2 (start + 20)
    guard (i.hasRoom count 40)
    let blocks ← readTable (block? i (symbols + symbolCount * 18)) 40 (start + 24 + size) count
    if size != 0 then hasProgram i processor (start + 24) blocks
  complete.isSome

end Portable

end FunctionArchive.Executable
