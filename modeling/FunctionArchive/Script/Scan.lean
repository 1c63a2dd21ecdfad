import FunctionArchive.Fault
import FunctionArchive.Script.Finding
import FunctionArchive.Script.Parser

/-!
# Scanning scripts

Scanning a source gives the references that it makes when it runs, and whether it uses the syntax
of modules: declares imports or exports, or asks for the module that it is.
-/

set_option autoImplicit false

namespace FunctionArchive.Script

/-- What a source says about other modules. -/
structure Scan where
  references : List Reference
  /-- Whether the source has imports, exports or `import.meta`. -/
  moduleSyntax : Bool
deriving DecidableEq, Repr

/-- Whether a statement is an import or an export. -/
def Stmt.isModuleItem : Stmt → Bool
  | .moduleItem _ => true
  | _ => false

/-- The reference that a finding is. -/
def Finding.reference? : Finding → Option Reference
  | .reference r => some r
  | .importMeta => none

/-- Reads the references off the statements of a source. -/
def Scan.ofProgram (source : Array Char) (program : List Stmt) : Scan :=
  let findings := Stmt.findingsAll source program
  { references := findings.filterMap Finding.reference?
    moduleSyntax := program.any Stmt.isModuleItem || findings.contains .importMeta }

/-- Scans the text of a file. -/
def scan (text : String) (path : Path) : Outcome Scan :=
  let source := text.toList.toArray
  match parse (Dialect.ofPath path) source with
  | .ok program => .ok (Scan.ofProgram source program)
  | .error line => .error (.source path line)

end FunctionArchive.Script
