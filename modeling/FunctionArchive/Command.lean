import FunctionArchive.Engine

/-!
# Commands

A command is a program with its arguments and the directory in which it starts. It ends by itself
or is ended by a signal, and leaves what it wrote to its two outputs.
-/

set_option autoImplicit false

namespace FunctionArchive

/-- A program to be started. -/
structure Command where
  program : Path
  arguments : List String
  directory : Path
deriving DecidableEq, Repr

/-- How a command came to its end. -/
inductive Exit
  | status (code : Nat)
  | signal (number : Nat)
deriving DecidableEq, Repr

namespace Exit

/-- Whether all went well. -/
def isSuccess : Exit → Bool
  | .status code => code == 0
  | .signal _ => false

/-- The names of signals, in the order of their numbers from one on. -/
def signalNames : List String :=
  ["HUP", "INT", "QUIT", "ILL", "TRAP", "ABRT", "BUS", "FPE", "KILL", "USR1", "SEGV", "USR2",
    "PIPE", "ALRM", "TERM"]

/-- The wording of an end. -/
def message : Exit → String
  | .status code => s!"exit status: {code}"
  | .signal number =>
    match signalNames[number - 1]? with
    | some name => s!"signal: {number} (SIG{name})"
    | none => s!"signal: {number}"

end Exit

/-- What is left of a command. -/
structure CommandResult where
  exit : Exit
  output : List UInt8
  errors : List UInt8
deriving DecidableEq, Repr

/-- A way to run commands: what is left of one, or why it cannot be started. -/
abbrev Runner := Command → StateM Disk (Except Disk.Fault CommandResult)

/-- Where commands run. -/
structure CommandHost where
  /-- The directories in which a program that is only named is searched for. -/
  searchPath : List Path
  run : Runner

/-- Whether a path leads to a file that may be executed. -/
def Disk.isProgram (d : Disk) (path : Path) : Bool :=
  match d.file path with
  | .ok f => f.mode &&& 0o111 != 0
  | .error _ => false

/-- The file of a program that is only named. -/
def CommandHost.find? (host : CommandHost) (name : String) (d : Disk) : Option Path :=
  (host.searchPath.map (·.child name)).find? d.isProgram

end FunctionArchive
