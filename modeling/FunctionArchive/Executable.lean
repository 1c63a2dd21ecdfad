import FunctionArchive.Executable.Elf
import FunctionArchive.Executable.Mach
import FunctionArchive.Executable.Portable

/-!
# Native executables

Executables are recognised by their object format and not by name: ELF, Mach-O (also with several
architectures in one file) and PE. A file counts only if the headers and tables that its format
announces lie within it. Which toolchain built an executable shows in texts that the toolchain
leaves in it.
-/

set_option autoImplicit false

namespace FunctionArchive.Executable

/-- Whether a file is an executable. Shorter files than the first block of a header are none. -/
def isExecutable (bytes : List UInt8) : Bool :=
  let data := bytes.toArray
  if data.size < 16 then false
  else
    match (bigImage data).number? 4 0 with
    | some 0x7F454C46 => (Elf.ofData? data).any Elf.isComplete
    | some 0xCAFEBABE => true
    | some 0xFEEDFACE => Mach.isComplete ⟨bigImage data, false⟩
    | some 0xFEEDFACF => Mach.isComplete ⟨bigImage data, true⟩
    | some 0xCEFAEDFE => Mach.isComplete ⟨littleImage data, false⟩
    | some 0xCFFAEDFE => Mach.isComplete ⟨littleImage data, true⟩
    | some _ => (bigImage data).number? 2 0 == some 0x4D5A && Portable.isComplete data
    | none => false

/-- Whether the bytes of a marker stand somewhere in a file. -/
def holds (marker : List UInt8) : List UInt8 → Bool
  | [] => marker.isEmpty
  | b :: rest => marker.isPrefixOf (b :: rest) || holds marker rest

/-- The bytes of a text. -/
def marker (text : String) : List UInt8 := text.toUTF8.toList

/-- What a Go toolchain leaves in its executables. -/
def goMarker : List UInt8 := 0xFF :: marker " Go buildinf:"

/-- What a Rust toolchain leaves in its executables. -/
def rustMarkers : List (List UInt8) := [marker "/rustc/", marker "rust_begin_unwind"]

end FunctionArchive.Executable
