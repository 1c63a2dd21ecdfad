import FunctionArchive.Text.CodePage437
import FunctionArchive.Zip.Bytes

/-!
# Headers of the directory

What the directory of an archive says of an entry: a header of fixed form, a name, fields for what
the header has no room for, and a comment. Such a field can widen the numbers of the header or give
the name in Unicode. A field of a known kind must have the form of its kind, also where nothing is
done with it; a field of another kind is passed over.
-/

set_option autoImplicit false

namespace FunctionArchive.Zip

open ByteReader (bytes skip number require expect)

/-- A moment as archives write it, in steps of two seconds. -/
structure Moment where
  date : Nat
  time : Nat
deriving DecidableEq, Repr

namespace Moment

/-- A number with at least two digits. -/
def twoDigits (n : Nat) : String :=
  if n < 10 then s!"0{n}" else s!"{n}"

/-- A moment as text. -/
def text (m : Moment) : String :=
  s!"{1980 + m.date / 512}-{twoDigits (m.date / 32 % 16)}-{twoDigits (m.date % 32)} " ++
    s!"{twoDigits (m.time / 2048)}:{twoDigits (m.time / 32 % 64)}:{twoDigits (m.time % 32 * 2)}"

end Moment

/-- What the directory of an archive says of an entry. -/
structure Record where
  system : Nat
  flags : Nat
  method : Nat
  modified : Moment
  keptSize : Nat
  size : Nat
  attributes : Nat
  offset : Nat
  /-- The bytes of the name. -/
  rawName : List UInt8
  name : String
  comment : String
  /-- Whether a field says that the data has been made unreadable. -/
  sealed : Bool
deriving DecidableEq, Repr

namespace Record

/-- The mode of an entry, if it has one. On other systems only two attributes are known. -/
def mode? (r : Record) : Option Nat :=
  if r.attributes == 0 then none
  else if r.system == modeSystem then some (r.attributes / 65536)
  else if r.system == 0 then
    let usual := if r.attributes / 16 % 2 == 1 then 0o40775 else fileKind + 0o664
    let isReadOnly := r.attributes % 2 == 1
    some (if isReadOnly then usual &&& 0o555 else usual)
  else none

/-- Whether an entry can be taken out without a secret. -/
def isOpen (r : Record) : Bool := r.flags % 2 == 0 && !r.sealed

/-- Numbers of the methods by which entries can be kept. -/
def knownMethods : List Nat := [0, 8, 9, 12, 14, 93, 95, 98]

/-- The number of the method of which only a field can tell more. -/
def sealedMethod : Nat := 99

/-- The method of an entry, if it is one that is written here. -/
def method? (r : Record) : Option Method :=
  [Method.stored, .deflated].find? (·.code == r.method)

end Record

/-- The text of a name or a comment. -/
def textOf (flags : Nat) (bytes : List UInt8) : String :=
  if flags / unicodeFlag % 2 == 1 then Utf8.decodeLossy bytes else CodePage437.decode bytes

/-! ## Fields -/

/-- What stands in a number of four bytes that is too large for them. -/
def full : Nat := 0xFFFFFFFF

/-- A number of the header, which a field of wide numbers replaces if the header has no room for it,
and in any case if the field has room for all. -/
def widen (all : Bool) (n : Nat) : ByteReader Nat :=
  if all || n == full then number 8 else return n

/-- A field of wide numbers. -/
def readWide (length : Nat) (r : Record) : ByteReader Record := do
  let all := 24 ≤ length
  let before := (← get).length
  let size ← widen all r.size
  let keptSize ← widen all r.keptSize
  let offset ← widen all r.offset
  let used := before - (← get).length
  require (used ≤ length)
  skip (length - used)
  return { r with size, keptSize, offset }

/-- A field with three moments in fine steps. -/
def readFineTimes (length : Nat) : ByteReader Unit := do
  require (length == 32)
  skip 4
  expect 2 1
  expect 2 24
  skip 24

/-- A field with up to three moments. Its first byte says which there are, but a field with room for
a single one has that one alone. -/
def readTimes (length : Nat) : ByteReader Unit := do
  let flags ← number 1
  let has (bit : Nat) : Bool := flags / bit % 2 == 1
  let count := ([1, 2, 4, 8, 16, 32, 64, 128].filter has).length
  require (length == 5 || length == 1 + 4 * count)
  if has 1 || length == 5 then skip 4
  if has 2 && 5 < length then skip 4
  if has 4 && 5 < length then skip 4

/-- A field with a text in Unicode. The text that it is meant for has the check sum it begins
with. -/
def readUnicode (length : Nat) (plain : List UInt8) : ByteReader (List UInt8) := do
  skip 1
  let sum ← number 4
  require (5 ≤ length)
  let text ← bytes (length - 5)
  require (sum == (Crc32.ofBytes plain).toNat)
  return text

/-- A field that says how the data has been made unreadable. -/
def readSeal (length : Nat) : ByteReader Unit := do
  require (length == 7)
  let version ← number 2
  expect 2 0x4541
  let strength ← number 1
  skip 2
  require ((version == 1 || version == 2) && (1 ≤ strength && strength ≤ 3))

/-- A field, behind its kind and length. -/
def readField (kind length : Nat) (r : Record) : ByteReader Record :=
  match kind with
  | 0x0001 => readWide length r
  | 0x000A => do
    readFineTimes length
    return r
  | 0x5455 => do
    readTimes length
    return r
  | 0x6375 => do
    let text ← readUnicode length (Utf8.encode r.comment)
    return { r with comment := ← (Utf8.decode? text : Option String) }
  | 0x7075 => do
    let rawName ← readUnicode length r.rawName
    return { r with rawName, name := ← (Utf8.decode? rawName : Option String) }
  | 0x9901 => do
    readSeal length
    return { r with sealed := true }
  | _ => do
    skip length
    return r

/-- All fields. A single byte at the end is none. The bound exceeds the number of fields. -/
def readFields : Nat → Record → ByteReader Record
  | 0, r => return r
  | bound + 1, r => do
    if (← get).length ≤ 1 then return r
    else
      let kind ← number 2
      let length ← number 2
      readFields bound (← readField kind length r)

/-! ## Headers -/

/-- Reads a header of the directory. -/
def readRecord : ByteReader Record := do
  expect 4 directoryMark
  let made ← number 2
  skip 2
  let flags ← number 2
  let method ← number 2
  let time ← number 2
  let date ← number 2
  skip 4
  let keptSize ← number 4
  let size ← number 4
  let nameLength ← number 2
  let extraLength ← number 2
  let commentLength ← number 2
  skip 4
  let attributes ← number 4
  let offset ← number 4
  let rawName ← bytes nameLength
  let extra ← bytes extraLength
  let comment ← bytes commentLength
  let plain : Record := {
    system := made / 256
    flags, method, keptSize, size, attributes, offset, rawName
    modified := ⟨date, time⟩
    name := textOf flags rawName
    comment := textOf flags comment
    sealed := false }
  let (r, _) ← ((readFields (extraLength + 1) plain).run extra : Option _)
  require (r.sealed || r.method != Record.sealedMethod)
  return r

/-- Reads as many headers of the directory. -/
def readRecords : Nat → ByteReader (List Record)
  | 0 => return []
  | count + 1 => do
    let record ← readRecord
    return record :: (← readRecords count)

end FunctionArchive.Zip
