import FunctionArchive.Path

/-!
# Warnings

Problems that do not stop a function from being packed. Each is a cause; its wording is in
`Warning.message`.
-/

set_option autoImplicit false

namespace FunctionArchive

/-- Why a missing package is tolerated. -/
inductive Tolerance
  /-- This manifest declares it as an optional dependency. -/
  | optionalDependency (manifest : Path)
  /-- This manifest declares it as an optional peer. -/
  | optionalPeer (manifest : Path)
  /-- This package is known to load it only when it is there. -/
  | knownPackage (package : String)
deriving DecidableEq, Repr

/-- The wording of a reason. -/
def Tolerance.message : Tolerance → String
  | .optionalDependency manifest => s!"optional dependency of {manifest}"
  | .optionalPeer manifest => s!"optional peer dependency of {manifest}"
  | .knownPackage package => s!"conditionally required by {package}"

/-- Why the references of a shipped file are not known. -/
inductive Unscanned
  /-- The parser refused the file at this line. -/
  | syntaxError (line : Nat)
deriving DecidableEq, Repr

/-- A problem that does not stop the packing. -/
inductive Warning
  /-- A reference computed at run time, which is not followed. -/
  | dynamicReference (file : Path) (expression : String)
  /-- A missing dependency that may be missing. -/
  | optionalMissing (reference : String) (requirer : Path) (reason : Tolerance)
  /-- A dependency that a shipped package declares and that is not installed. -/
  | undeclaredMissing (package : String) (declaredBy : Path)
  /-- Static imports and exports, which are not followed. -/
  | staticModuleSyntax (file : Path)
  /-- A file of an installed package that the parser refused; it is shipped all the same. -/
  | unparsedSource (file : Path) (line : Nat)
  /-- A warning of the bundling engine. -/
  | engine (text : String)
deriving DecidableEq, Repr

/-- The wording of a refusal by the parser, as far as the library words it. -/
def parseFailureMessage (file : Path) (line : Nat) : String :=
  s!"failed to parse {file} at line {line}"

/-- The wording of a warning. -/
def Warning.message : Warning → String
  | .dynamicReference file expression =>
    "dynamic reference `" ++ expression ++ s!"` in {file} was not followed"
  | .optionalMissing reference requirer reason =>
    s!"'{reference}' required from {requirer} is not installed ({reason.message})"
  | .undeclaredMissing package declaredBy =>
    s!"'{package}' declared by {declaredBy} is not installed"
  | .staticModuleSyntax file =>
    s!"{file} uses import/export syntax; its static imports were not followed"
  | .unparsedSource file line =>
    s!"references in {file} were not scanned: {parseFailureMessage file line}"
  | .engine text => s!"engine: {text}"

end FunctionArchive
