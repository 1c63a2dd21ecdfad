import FunctionArchive.Path

/-!
# Refusals of a file system

Why an operation on files was refused, with the wording and the number under which the operating
system reports it.
-/

set_option autoImplicit false

namespace FunctionArchive.Disk

/-- Why a file operation was refused. -/
inductive Fault
  | notFound
  | permissionDenied
  | alreadyExists
  | notDirectory
  | isDirectory
  | invalidArgument
  | execFormat
  | directoryNotEmpty
  | tooManyLinks
  /-- A text was expected and the bytes are not UTF-8. -/
  | invalidUtf8
  /-- A directory tree could not be gone through because of one of its entries. -/
  | atEntry (path : Path) (cause : Fault)
  /-- A directory tree contains a link back to a directory that holds it. -/
  | cycle (path ancestor : Path)
deriving DecidableEq, Repr, Inhabited

/-- The wording of a refusal. -/
def Fault.message : Fault → String
  | .notFound => "No such file or directory (os error 2)"
  | .permissionDenied => "Permission denied (os error 13)"
  | .alreadyExists => "File exists (os error 17)"
  | .notDirectory => "Not a directory (os error 20)"
  | .isDirectory => "Is a directory (os error 21)"
  | .invalidArgument => "Invalid argument (os error 22)"
  | .execFormat => "Exec format error (os error 8)"
  | .directoryNotEmpty => "Directory not empty (os error 39)"
  | .tooManyLinks => "Too many levels of symbolic links (os error 40)"
  | .invalidUtf8 => "stream did not contain valid UTF-8"
  | .atEntry path cause => s!"IO error for operation on {path}: {cause.message}"
  | .cycle path ancestor => s!"File system loop found: {path} points to an ancestor {ancestor}"

end FunctionArchive.Disk
