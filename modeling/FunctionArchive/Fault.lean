import FunctionArchive.Disk.Fault
import FunctionArchive.Glob
import FunctionArchive.Json.Reader
import FunctionArchive.Warning

/-!
# Faults

Everything that can stop a function from being packed, as causes. The wording of each is in
`Fault.message`, so that a caller decides on the cause and never on a text.
-/

set_option autoImplicit false

namespace FunctionArchive

/-- What can be wrong with the settings of a run. -/
inductive ConfigFlaw
  /-- A pattern that cannot be read, and what it is a pattern of. -/
  | pattern (kind text : String) (error : Glob.PatternError)
  /-- No function may ever be packed. -/
  | noConcurrency
  /-- An extension without a name. -/
  | emptyExtension
deriving DecidableEq, Repr

/-- The wording of a flaw. -/
def ConfigFlaw.message : ConfigFlaw → String
  | .pattern kind text error => s!"invalid {kind} pattern '{text}': {error.message}"
  | .noConcurrency => "concurrency limit must be at least 1"
  | .emptyExtension => "empty resolution extension"

/-- Why a file could not be copied. -/
inductive CopyFlaw
  /-- There is nothing to be copied. -/
  | missing (path : Path) (cause : Disk.Fault)
  /-- What is to be copied is not a file. -/
  | notFile (path : Path)
  /-- The file system refused. -/
  | io (cause : Disk.Fault)
deriving DecidableEq, Repr

/-- The wording of a flaw. -/
def CopyFlaw.message : CopyFlaw → String
  | .missing path cause => s!"{path} does not exist: {cause.message}"
  | .notFile path => s!"{path} is not a file"
  | .io cause => cause.message

/-- Why an archive could not be written. -/
inductive ArchiveFlaw
  /-- The file system refused. -/
  | io (cause : Disk.Fault)
  /-- A file that belongs into the archive could not be read. -/
  | source (path : Path) (cause : Disk.Fault)
  /-- The archive to be passed on could not be copied. -/
  | copy (flaw : CopyFlaw)
  /-- The archive to be passed on is not one. -/
  | notAnArchive
  /-- What was written could not be read again. -/
  | checksum (cause : Disk.Fault)
deriving DecidableEq, Repr

/-- The wording of a flaw; a broken archive is only named. -/
def ArchiveFlaw.message : ArchiveFlaw → String
  | .io cause => cause.message
  | .source path cause => s!"{path}: {cause.message}"
  | .copy flaw => flaw.message
  | .notAnArchive => "invalid Zip archive"
  | .checksum cause => cause.message

/-- Why a function cannot be packed. -/
inductive Fault
  /-- A manifest that is not valid JSON of the expected shape. -/
  | manifest (path : Path) (error : Json.ReadError)
  /-- A script that the parser refuses at a line. -/
  | source (path : Path) (line : Nat)
  /-- A reference that leads nowhere and may not. -/
  | missingDependency (reference : String) (requirer : Path)
  /-- The bundling engine failed, with its own messages. -/
  | engine (name message : String) (errors : List String)
  /-- The archive could not be written. -/
  | archive (path : Path) (flaw : ArchiveFlaw)
  /-- A function of a kind that cannot be packed. -/
  | unsupportedRuntime (path : Path) (reason : String)
  /-- A directory of functions that is not there. -/
  | emptyDirectory (path : Path)
  /-- A file operation that failed while something was being done. -/
  | disk (context : String) (path : Path) (cause : Disk.Fault)
  | config (flaw : ConfigFlaw)
  /-- A file operation that failed, without further words. -/
  | io (cause : Disk.Fault)
  | other (message : String)
deriving DecidableEq, Repr

namespace Fault

/-- The wording of a fault. -/
def message : Fault → String
  | .manifest path error => s!"failed to parse manifest {path}: {error.message}"
  | .source path line => parseFailureMessage path line
  | .missingDependency reference requirer =>
    s!"cannot find module '{reference}' required from {requirer}"
  | .engine name message _ => s!"{name} failed to bundle: {message}"
  | .archive path flaw => s!"failed to write archive {path}: {flaw.message}"
  | .unsupportedRuntime path reason => s!"unsupported runtime for {path}: {reason}"
  | .emptyDirectory path => s!"functions directory {path} does not exist"
  | .disk context path cause => s!"error {context} at {path}: {cause.message}"
  | .config flaw => s!"invalid configuration: {flaw.message}"
  | .io cause => cause.message
  | .other message => message

/-- The messages behind a fault: those of the engine where it gave any, otherwise its wording. -/
def details : Fault → List String
  | .engine name message errors =>
    if errors.isEmpty then [(Fault.engine name message errors).message] else errors
  | fault => [fault.message]

end Fault

/-- The fault that a failed copy is. -/
def CopyFlaw.toFault : CopyFlaw → Fault
  | .io cause => .io cause
  | flaw => .other flaw.message

/-- A computation that may end with a fault. -/
abbrev Outcome := Except Fault

end FunctionArchive
