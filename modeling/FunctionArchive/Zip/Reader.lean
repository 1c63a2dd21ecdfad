import FunctionArchive.Zip.Bytes
import FunctionArchive.Zip.Record

/-!
# Reading zip archives

An archive is read from its end. It ends with a record that says where the directory is and how many
entries it lists. If its numbers are too small for that, a wider record stands in front of it, and
between them a pointer to the wider one. Something may stand in front of the archive, so the places
that these records name are looked for from there on; how far they have moved is how far the archive
has.

The last place that can be the end of an archive, and whose directory can be read, says what is in
it. Something may stand behind it, too. Of several entries with one name the last is meant, at the
place of the first. An archive counts only if each entry is where the directory says and could be
taken out.
-/

set_option autoImplicit false

namespace FunctionArchive.Zip

open ByteReader (bytes skip number require expect)

/-! ## The end of an archive -/

/-- The mark of the wider record. -/
def wideEndMark : Nat := 0x06064b50

/-- The mark of the pointer to the wider record. -/
def pointerMark : Nat := 0x07064b50

/-- How many bytes the pointer has. -/
def pointerSize : Nat := 20

/-- How many bytes a header of the directory has at least. -/
def headerSize : Nat := 46

/-- Where the directory of an archive starts, how many entries are read from it, and by how much
the archive is moved. -/
structure Directory where
  start : Nat
  count : Nat
  shift : Nat
deriving DecidableEq, Repr

/-- The record at the end of an archive. -/
structure End where
  disk : Nat
  directoryDisk : Nat
  /-- How many entries this part of the archive has. -/
  countHere : Nat
  count : Nat
  directory : Nat

/-- Reads the record at the end of an archive. -/
def readEnd : ByteReader End := do
  expect 4 endMark
  let disk ← number 2
  let directoryDisk ← number 2
  let countHere ← number 2
  let count ← number 2
  skip 4
  let directory ← number 4
  let commentLength ← number 2
  skip commentLength
  return { disk, directoryDisk, countHere, count, directory }

namespace End

/-- Whether the numbers may be too small. -/
def isNarrow (e : End) : Bool := e.count == 0xFFFF || e.directory == 0xFFFFFFFF

/-- Where the directory is, for a record that stands at an offset. The directory of an archive
without entries is nowhere else than the record says. -/
def locate? (data : List UInt8) (e : End) (position : Nat) : Option Directory := do
  guard (e.disk == e.directoryDisk)
  if e.count == 0 then
    let shift := position - e.directory
    return { start := e.directory + shift, count := e.countHere, shift }
  else
    guard (e.directory < position)
    let start ← (placesBetween directoryMark data e.directory position).head?
    return { start, count := e.countHere, shift := start - e.directory }

end End

/-- A pointer to the wider record. -/
structure Pointer where
  disk : Nat
  target : Nat
  disks : Nat

/-- Reads a pointer to the wider record. -/
def readPointer : ByteReader Pointer := do
  expect 4 pointerMark
  let disk ← number 4
  let target ← number 8
  let disks ← number 4
  return { disk, target, disks }

/-- The wider record. -/
structure WideEnd extends End where
  recordSize : Nat
  made : Nat
  needed : Nat

/-- Reads the wider record. -/
def readWideEnd : ByteReader WideEnd := do
  expect 4 wideEndMark
  let recordSize ← number 8
  let made ← number 2
  let needed ← number 2
  let disk ← number 4
  let directoryDisk ← number 4
  let countHere ← number 8
  let count ← number 8
  skip 8
  let directory ← number 8
  return { recordSize, made, needed, disk, directoryDisk, countHere, count, directory }

namespace WideEnd

/-- Whether a record at a place can be the one that a pointer at an offset is for: it reaches up to
the pointer, and there is room for the headers in front of it. -/
def fits (w : WideEnd) (pointer : Pointer) (place offset : Nat) : Bool :=
  44 ≤ w.recordSize && w.recordSize + 12 == offset - place &&
    w.directoryDisk == pointer.disk && w.count * headerSize + w.directory ≤ place

/-- Whether what the record says makes sense. -/
def isSound (w : WideEnd) : Bool :=
  w.countHere ≤ w.count && w.needed ≤ w.made && w.disk == w.directoryDisk

end WideEnd

namespace Pointer

/-- Where the directory is, for a pointer that stands at an offset. -/
def locate? (data : List UInt8) (p : Pointer) (offset : Nat) : Option Directory := do
  guard (p.target < offset && p.disks ≤ 1)
  let (w, place) ← (placesBetween wideEndMark data p.target offset).findSome? fun place => do
    let (w, _) ← readWideEnd.run (data.drop place)
    guard (w.fits p place offset)
    return (w, place)
  guard w.isSound
  let shift := place - p.target
  return { start := w.directory + shift, count := w.count, shift }

end Pointer

/-- The pointer in front of a record that stands at an offset, with its own offset. -/
def pointerBefore? (data : List UInt8) (position : Nat) : Option (Pointer × Nat) := do
  guard (pointerSize ≤ position)
  let offset := position - pointerSize
  let (pointer, _) ← readPointer.run (data.drop offset)
  return (pointer, offset)

/-- Where the directory is if the archive ends at an offset, from which on these bytes stand. -/
def directoryFrom? (data : List UInt8) (position : Nat) (bytes : List UInt8) :
    Option Directory := do
  let (e, _) ← readEnd.run bytes
  let pointer? := if e.isNarrow then pointerBefore? data position else none
  match pointer? with
  | some (pointer, offset) => pointer.locate? data offset
  | none => e.locate? data position

/-! ## The directory and its entries -/

/-- An archive: its bytes, what is listed, and by how much it is moved. -/
structure Listing where
  data : List UInt8
  records : List Record
  shift : Nat

/-- Keeps the last entry of each name, at the place of the first. -/
def distinct (records : List Record) : List Record :=
  records.foldl (fun kept r =>
    if kept.any (·.name == r.name) then kept.map fun k => if k.name == r.name then r else k
    else kept ++ [r]) []

/-- The first offset that cannot be written in any archive. -/
def offsetBound : Nat := 0x10000000000000000

/-- What a directory lists. -/
def Directory.list? (data : List UInt8) (d : Directory) : Option Listing := do
  let (records, _) ← (readRecords d.count).run (data.drop d.start)
  guard (records.all (·.offset + d.shift < offsetBound))
  return ⟨data, distinct records, d.shift⟩

/-- Reads the directory of an archive. -/
def list? (data : List UInt8) : Option Listing :=
  (placesOf (little 4 endMark) 0 data []).findSome? fun (position, bytes) => do
    (← directoryFrom? data position bytes).list? data

namespace Listing

/-- Where the kept form of an entry starts: behind the header in front of it. -/
def body? (l : Listing) (r : Record) : Option (List UInt8) :=
  (header.run (l.data.drop (r.offset + l.shift))).map Prod.snd
where
  /-- Passes over the header of an entry. -/
  header : ByteReader Unit := do
    expect 4 localMark
    let _ ← bytes 22
    let nameLength ← number 2
    let extraLength ← number 2
    modify (·.drop (nameLength + extraLength))

/-- Whether an entry is where it should be and could be taken out. -/
def holds (l : Listing) (r : Record) : Bool :=
  r.isOpen && Record.knownMethods.contains r.method && (l.body? r).isSome

/-- The data of an entry. -/
def content? (l : Listing) (r : Record) : Option (List UInt8) := do
  let body ← l.body? r
  (← r.method?).unpack? (body.take r.keptSize)

end Listing

/-- Reads an archive. -/
def read? (data : List UInt8) : Option Listing := do
  let l ← list? data
  guard (l.records.all l.holds)
  return l

end FunctionArchive.Zip
