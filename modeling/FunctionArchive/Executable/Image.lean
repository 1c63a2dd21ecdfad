import FunctionArchive.Text.Utf8

/-!
# The bytes of an executable

Executables are made of tables that name each other by offsets. What is looked for at an offset may
not be there, so numbers, runs of bytes and texts are read with their bounds checked.
-/

set_option autoImplicit false

namespace FunctionArchive.Executable

/-- The number made of these bytes, the last one the lowest. -/
def bigEndian (bytes : List UInt8) : Nat :=
  bytes.foldl (fun n b => n * 256 + b.toNat) 0

/-- A file with the order of the bytes in its numbers. -/
structure Image where
  data : Array UInt8
  littleEndian : Bool

/-- The file with numbers whose lowest byte comes first. -/
def littleImage (data : Array UInt8) : Image := ⟨data, true⟩

/-- The file with numbers whose highest byte comes first. -/
def bigImage (data : Array UInt8) : Image := ⟨data, false⟩

/-- The first address that does not fit in eight bytes. -/
def addressBound : Nat := 0x10000000000000000

namespace Image

/-- How long the file is. -/
def size (i : Image) : Nat := i.data.size

/-- The bytes of a run. -/
def run (i : Image) (offset length : Nat) : List UInt8 :=
  (i.data.extract offset (offset + length)).toList

/-- Whether a run of bytes lies within the file. Even an empty run starts at one of its bytes. -/
def hasRun (i : Image) (offset length : Nat) : Bool :=
  offset < i.size && offset + length ≤ i.size

/-- The number of `count` bytes at an offset, if they are all there. -/
def number? (i : Image) (count offset : Nat) : Option Nat :=
  if i.hasRun offset count then
    let bytes := i.run offset count
    some (bigEndian (if i.littleEndian then bytes.reverse else bytes))
  else none

/-- Whether a text stands at an offset. It reaches up to a zero or to the end of the file. -/
def hasText (i : Image) (offset : Nat) : Bool :=
  offset < i.size &&
    (Utf8.decode? ((i.run offset (i.size - offset)).takeWhile (· != 0))).isSome

/-- Whether a run of bytes holds texts with a zero behind each. A zero ends every character, so the
run is read as a whole. -/
def hasTexts (i : Image) (offset length : Nat) : Bool :=
  offset + length ≤ i.size && (Utf8.decode? (i.run offset length)).isSome

/-- Whether a file has room for as many entries of a size, wherever they stand. -/
def hasRoom (i : Image) (count entrySize : Nat) : Bool := count ≤ i.size / entrySize

end Image

/-- Reads as many entries of a table, each `step` bytes behind the one before. -/
def readTable {α : Type} (read : Nat → Option α) (step : Nat) : Nat → Nat → Option (List α)
  | _, 0 => some []
  | offset, count + 1 => do
    let entry ← read offset
    return entry :: (← readTable read step (offset + step) count)

end FunctionArchive.Executable
