import FunctionArchive.Bundle
import FunctionArchive.Json.Printer
import FunctionArchive.Sorted

/-!
# Archives

The entries of an archive are ordered by name and no name is there twice: of several files with one
name the first is kept. An executable is shipped with a note that says what runs it.
-/

set_option autoImplicit false

namespace FunctionArchive

/-- An entry of a finished archive. -/
structure ArchiveEntry where
  name : String
  /-- The permission bits. -/
  mode : Nat
  size : Nat
deriving DecidableEq, Repr

/-- A packed function. -/
structure Archive where
  path : Path
  entries : List ArchiveEntry
  runtime : Runtime
  strategy : Strategy
  checksum : String
  warnings : List Warning
  /-- What the strategy that was tried first complained of, if it failed. -/
  recovered : Option (List String)
deriving DecidableEq, Repr

namespace Archive

/-- The permission bits of an entry when its source has none. -/
def defaultMode : Nat := 0o644

/-- The permission bits of a link. -/
def linkMode : Nat := 0o777

/-- The name of the note that says what runs an executable. -/
def noteName : String := "toolchain.json"

/-- The note that says what runs an executable. -/
def noteFor (runtime : Runtime) : OutputFile :=
  ⟨noteName, .bytes (Utf8.encode (Json.object [("runtime", .string runtime.name)]).render),
    some defaultMode⟩

/-- The first file of each name. -/
def firstOfEach (files : List OutputFile) : List OutputFile :=
  files.foldl (fun kept f => if kept.any (·.name == f.name) then kept else kept ++ [f]) []

/-- The files that make up the archive of a bundle, in the order of their names. -/
def contents (b : Bundle) : List OutputFile :=
  let files := if b.runtime.isNative then noteFor b.runtime :: b.files else b.files
  (firstOfEach files).mergeSort fun a b => a.name ≤ b.name

end Archive

end FunctionArchive
