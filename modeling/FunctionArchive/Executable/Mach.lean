import FunctionArchive.Executable.Image

/-!
# Mach-O

A file in this format starts with a header and a list of commands that tell how it is loaded. Each
command has a kind and a size, and the kind decides what else it has. A file counts only if its
commands are complete and what they announce is in the file.
-/

set_option autoImplicit false

namespace FunctionArchive.Executable

/-- A file in the Mach-O format. -/
structure Mach where
  image : Image
  /-- Whether addresses have eight bytes. -/
  isWide : Bool

namespace Mach

/-- The size of the header. -/
def headerSize (m : Mach) : Nat := if m.isWide then 32 else 28

/-- A number of four bytes. -/
def word? (m : Mach) (offset : Nat) : Option Nat := m.image.number? 4 offset

/-! ## Commands -/

/-- A command: its kind, and where it stands. -/
structure Command where
  kind : Nat
  offset : Nat

/-- The command that names a segment with narrow addresses. -/
def narrowSegment : Nat := 0x1

/-- The command that names a segment with wide addresses. -/
def wideSegment : Nat := 0x19

/-- The command that tells where the symbols are. -/
def symbolTable : Nat := 0x2

/-- The command that tells the state of the first thread. -/
def firstThread : Nat := 0x5

/-- The command that tells the state of another thread. -/
def otherThread : Nat := 0x4

/-- The command that tells where in the program to begin. -/
def mainEntry : Nat := 0x80000028

/-- The commands that name a library or a path where libraries are: in order, one that is loaded,
the file itself, one that may be missing, a path, one that is handed on, one that is loaded late,
and one that loads this file. -/
def nameCommands : List Nat :=
  [0xC, 0xD, 0x80000018, 0x8000001C, 0x8000001F, 0x20, 0x80000023]

/-- How many bytes a command of a kind has at least. Of an unknown one only the kind and the size
are read. -/
def leastSize (kind : Nat) : Nat :=
  if [0xC, 0xD, 0x80000018, 0x8000001F, 0x20, 0x80000023].contains kind then 24
  else if [0xE, 0xF, 0x12, 0x13, 0x14, 0x15, 0x17, 0x8000001C, 0x27, 0x2D].contains kind then 12
  else if [0x3, 0x4, 0x5, 0x9, 0x16, 0x1D, 0x1E, 0x24, 0x25, 0x26, 0x29, 0x2A, 0x2B, 0x2E, 0x2F,
      0x30, 0x80000033, 0x80000034].contains kind then 16
  else if [0x6, 0x7, 0x10, 0x21].contains kind then 20
  else if [0x2, 0x1B, 0x2C, 0x32, 0x80000028].contains kind then 24
  else if kind == 0x80000035 then 32
  else if kind == 0x11 || kind == 0x31 then 40
  else if kind == 0x22 || kind == 0x80000022 then 48
  else if kind == narrowSegment then 56
  else if kind == 0x1A || kind == wideSegment then 72
  else if kind == 0xB then 80
  else 8

/-- Reads as many commands, each behind the one before. A command that is as short as nothing is
read over and over. -/
def readCommands (m : Mach) : Nat → Nat → Option (List Command)
  | 0, _ => some []
  | count + 1, offset => do
    let kind ← m.word? offset
    let size ← m.word? (offset + 4)
    guard (offset + size ≤ m.image.size && m.image.hasRun offset (leastSize kind))
    return ⟨kind, offset⟩ :: (← readCommands m count (offset + size))

/-! ## What commands announce -/

/-- How many numbers the state of a thread has at most. -/
def threadLimit : Nat := 70

/-- Whether the state of a thread is there. -/
def hasThread (m : Mach) (offset : Nat) : Bool :=
  match m.word? (offset + 12) with
  | none => false
  | some count => count ≤ threadLimit && offset + 16 + count * 4 ≤ m.image.size

/-- Processors of which it is known where the state of a thread says what to run next. -/
def knownProcessors : List Nat := [7, 12, 18, 0x01000007, 0x0100000C, 0x0200000C]

/-- Whether the data of a segment is there. -/
def hasSegment (m : Mach) (offset size : Option Nat) : Bool :=
  match offset, size with
  | some offset, some size => size == 0 || m.image.hasRun offset size
  | _, _ => false

/-- Whether the symbols are in the file and their names behind them. -/
def hasSymbols (m : Mach) (offset : Nat) : Bool :=
  match m.word? (offset + 8), m.word? (offset + 16) with
  | some symbols, some names => symbols ≤ names && symbols < m.image.size
  | _, _ => false

/-- Whether the name of a library or a path is there. -/
def hasName (m : Mach) (offset : Nat) : Bool :=
  (m.word? (offset + 8)).any fun name => m.image.hasText (offset + name)

/-- Whether what a command announces is there. -/
def holds (m : Mach) (c : Command) : Bool :=
  if c.kind == narrowSegment then m.hasSegment (m.word? (c.offset + 32)) (m.word? (c.offset + 36))
  else if c.kind == wideSegment then
    m.hasSegment (m.image.number? 8 (c.offset + 40)) (m.image.number? 8 (c.offset + 48))
  else if c.kind == symbolTable then m.hasSymbols c.offset
  else if c.kind == firstThread then
    m.hasThread c.offset && (m.word? 4).any knownProcessors.contains
  else if c.kind == otherThread then m.hasThread c.offset
  else if nameCommands.contains c.kind then m.hasName c.offset
  else true

/-- The name of the segment with the program. -/
def programSegment : List UInt8 := "__TEXT\x00".toUTF8.toList

/-- Whether a command names the segment with the program. -/
def isProgram (m : Mach) (c : Command) : Bool :=
  (c.kind == narrowSegment || c.kind == wideSegment) &&
    m.image.run (c.offset + 8) 7 == programSegment

/-- Whether everything that a file announces is there. -/
def isComplete (m : Mach) : Bool :=
  let complete : Option Unit := do
    guard (32 ≤ m.image.size)
    let count ← m.word? 16
    let size ← m.word? 20
    guard (count ≤ size / 8 && size ≤ m.image.size)
    let commands ← m.readCommands count m.headerSize
    guard (commands.all m.holds)
    guard (commands.all (·.kind != mainEntry) || commands.any m.isProgram)
  complete.isSome

end Mach

end FunctionArchive.Executable
