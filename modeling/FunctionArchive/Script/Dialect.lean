import FunctionArchive.Path

/-!
# Dialects of scripts

The extension of a file tells whether it is a script and in which dialect it is written. Case
counts.
-/

set_option autoImplicit false

namespace FunctionArchive.Script

/-- What a dialect has beyond the plain language. -/
structure Dialect where
  /-- Type annotations. -/
  types : Bool
  /-- Markup elements as expressions. -/
  markup : Bool
deriving DecidableEq, Repr, Inhabited

/-- The dialect of a file. -/
def Dialect.ofPath (path : Path) : Dialect :=
  match path.extension? with
  | some "ts" | some "cts" | some "mts" => ⟨true, false⟩
  | some "tsx" => ⟨true, true⟩
  | some "jsx" => ⟨false, true⟩
  | _ => ⟨false, false⟩

/-- The extensions of scripts. -/
def extensions : List String :=
  ["js", "cjs", "mjs", "jsx", "ts", "cts", "mts", "tsx"]

/-- Whether a file is a script. -/
def isScript (path : Path) : Bool :=
  match path.extension? with
  | some extension => extensions.contains extension
  | none => false

end FunctionArchive.Script
