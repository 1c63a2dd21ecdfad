import FunctionArchive.Deflate
import FunctionArchive.Digest.Crc32
import FunctionArchive.Text.Utf8

/-!
# Zip archives

An archive holds its entries one behind the other, each with a header in front, and ends with a
directory that repeats the headers and says where each entry starts. Numbers are written with the
lowest byte first. All entries bear the earliest time that can be written, so what is in an archive
depends on its entries alone.
-/

set_option autoImplicit false

namespace FunctionArchive.Zip

/-- How the data of an entry is kept. -/
inductive Method
  /-- As it is. -/
  | stored
  | deflated
deriving DecidableEq, Repr

namespace Method

/-- The number of a method. -/
def code : Method → Nat
  | .stored => 0
  | .deflated => 8

/-- The version of the format that can read it. -/
def version : Method → Nat
  | .stored => 10
  | .deflated => 20

/-- The form in which data is kept. -/
def pack : Method → List UInt8 → List UInt8
  | .stored, data => data
  | .deflated, data => Deflate.compress data

/-- The data that is kept in this form. -/
def unpack? : Method → List UInt8 → Option (List UInt8)
  | .stored, data => some data
  | .deflated, data => Deflate.decode? data

end Method

/-- Something to be put into an archive. -/
structure Entry where
  name : String
  /-- The kind of the entry and its permission bits. -/
  mode : Nat
  method : Method
  data : List UInt8
deriving DecidableEq, Repr

/-- The kind of a file in a mode. -/
def fileKind : Nat := 0o100000

/-- The kind of a link in a mode. -/
def linkKind : Nat := 0o120000

/-- A file with permission bits. -/
def Entry.file (name : String) (mode : Nat) (data : List UInt8) : Entry :=
  ⟨name, fileKind + mode % 0o1000, .deflated, data⟩

/-- A link; its text is the data. -/
def Entry.link (name : String) (mode : Nat) (target : String) : Entry :=
  ⟨name, linkKind + mode % 0o1000, .stored, Utf8.encode target⟩

/-! ## Writing -/

/-- A number in this many bytes, the lowest first. -/
def little : Nat → Nat → List UInt8
  | 0, _ => []
  | count + 1, n => UInt8.ofNat n :: little count (n / 256)

/-- The mark of a header in front of an entry. -/
def localMark : Nat := 0x04034b50

/-- The mark of a header in the directory. -/
def directoryMark : Nat := 0x02014b50

/-- The mark of the end of an archive. -/
def endMark : Nat := 0x06054b50

/-- The system whose modes are used. -/
def modeSystem : Nat := 3

/-- The flag of a name in Unicode. -/
def unicodeFlag : Nat := 0x800

/-- The date of all entries, the first day of 1980. -/
def earliestDate : Nat := 0x21

/-- An entry in the form in which it is kept. -/
structure Packed where
  entry : Entry
  kept : List UInt8

/-- An entry in the form in which it is kept. -/
def Entry.pack (e : Entry) : Packed := ⟨e, e.method.pack e.data⟩

namespace Packed

/-- The bytes of the name. -/
def name (p : Packed) : List UInt8 := Utf8.encode p.entry.name

/-- The flags of an entry. -/
def flags (p : Packed) : Nat :=
  if p.name.all (· < 128) then 0 else unicodeFlag

/-- What both headers say. -/
def common (p : Packed) : List UInt8 :=
  little 2 p.entry.method.version ++ little 2 p.flags ++ little 2 p.entry.method.code ++
    little 2 0 ++ little 2 earliestDate ++ little 4 (Crc32.ofBytes p.entry.data).toNat ++
    little 4 p.kept.length ++ little 4 p.entry.data.length ++ little 2 p.name.length ++ little 2 0

/-- An entry with the header in front of it. -/
def body (p : Packed) : List UInt8 :=
  little 4 localMark ++ p.common ++ p.name ++ p.kept

/-- The header in the directory of an entry that starts at an offset. -/
def header (p : Packed) (offset : Nat) : List UInt8 :=
  little 4 directoryMark ++ little 2 (modeSystem * 256 + p.entry.method.version) ++ p.common ++
    little 2 0 ++ little 2 0 ++ little 2 0 ++ little 4 (p.entry.mode * 65536) ++
    little 4 offset ++ p.name

end Packed

/-- The directory of entries that stand one behind the other from an offset on. -/
def directory : Nat → List Packed → List UInt8
  | _, [] => []
  | offset, p :: rest => p.header offset ++ directory (offset + p.body.length) rest

/-- The end of an archive. -/
def ending (count size offset : Nat) : List UInt8 :=
  little 4 endMark ++ little 2 0 ++ little 2 0 ++ little 2 count ++ little 2 count ++
    little 4 size ++ little 4 offset ++ little 2 0

/-- The bytes of an archive with these entries. -/
def write (entries : List Entry) : List UInt8 :=
  let packed := entries.map Entry.pack
  let bodies := (packed.map (·.body)).flatten
  let directory := directory 0 packed
  bodies ++ directory ++ ending entries.length directory.length bodies.length

end FunctionArchive.Zip
