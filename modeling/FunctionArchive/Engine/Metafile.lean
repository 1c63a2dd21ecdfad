import FunctionArchive.Json.Record
import FunctionArchive.Reference
import FunctionArchive.Sorted

/-!
# What a bundle refers to

An engine can leave a document that lists, for each file that it wrote, what the file imports and
which of these imports it left outside. The packages behind those imports are what a bundle still
needs at run time.
-/

set_option autoImplicit false

namespace FunctionArchive

namespace Metafile

/-- An import of a written file. -/
structure Import where
  path : String
  /-- Whether it was left outside. -/
  external : Bool
deriving DecidableEq, Repr

/-- A written file. -/
structure Output where
  imports : List Import
deriving DecidableEq, Repr

end Metafile

/-- What an engine tells about the files that it wrote. -/
structure Metafile where
  outputs : List (String × Metafile.Output)
deriving DecidableEq, Repr

namespace Metafile

open Json (Reader)
open Json.Reader (RecordField)

/-! ## Reading -/

/-- The fields of an import. -/
def importFields : List (RecordField Import) :=
  [⟨"path", true, fun _ i => do return { i with path := ← Reader.expectString }⟩,
    ⟨"external", false, fun _ i => do return { i with external := ← Reader.expectBool }⟩]

/-- Reads an import. -/
def readImport : Nat → Reader Import :=
  Reader.expectRecord "struct MetaImport" importFields ⟨"", false⟩

/-- The fields of a written file. -/
def outputFields : List (RecordField Output) :=
  [⟨"imports", false, fun bound _ => do return ⟨← Reader.expectList readImport bound⟩⟩]

/-- Reads a written file. -/
def readOutput : Nat → Reader Output :=
  Reader.expectRecord "struct MetaOutput" outputFields ⟨[]⟩

/-- The fields of a document. -/
def fields : List (RecordField Metafile) :=
  [⟨"outputs", false, fun bound _ => do return ⟨← Reader.expectTable readOutput bound⟩⟩]

/-- Reads a document. -/
def read : List UInt8 → Except Json.ReadError Metafile :=
  Reader.run (Reader.expectRecord "struct Metafile" fields ⟨[]⟩)

/-! ## Packages -/

/-- Whether an import leads to a package that the bundle does not hold. -/
def Import.leavesPackage (i : Import) : Bool :=
  i.external && !Reference.isRelative i.path && !Reference.isBuiltin i.path

/-- The packages that the written files still need, in the order of their names. -/
def packages (m : Metafile) : List String :=
  let imports := (m.outputs.flatMap (·.2.imports)).filter Import.leavesPackage
  sortedTexts (imports.map fun i => Reference.packageName i.path)

end Metafile

end FunctionArchive
