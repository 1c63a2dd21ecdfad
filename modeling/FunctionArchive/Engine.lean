import FunctionArchive.Disk.Change
import FunctionArchive.Fault

/-!
# Bundling engines

An engine turns a script into a single file and names the modules that it left outside. What it
does in between is its own affair; it works in a directory of its own, which is removed afterwards.
-/

set_option autoImplicit false

namespace FunctionArchive

/-- What an engine is asked for. -/
structure EngineRequest where
  /-- The script to bundle. -/
  entry : Path
  /-- Modules to be left as references. -/
  externalModules : List String
  /-- Modules that must not be bundled. -/
  ignoredModules : List String
  /-- Where the engine may write. -/
  directory : Path
deriving DecidableEq, Repr

/-- What an engine made. -/
structure EngineResult where
  /-- The file that holds the bundle. -/
  file : Path
  /-- Modules that the bundle still refers to. -/
  externalModules : List String
  warnings : List String
deriving DecidableEq, Repr

/-- Work on a file system that may fail; what was done until then stays done. -/
abbrev Task := ExceptT Fault (StateM Disk)

namespace Task

/-- A change of the file system, with what it was made for. -/
def change (context : String) (path : Path) (f : Disk → Except Disk.Fault Disk) : Task Unit := do
  match f (← get) with
  | .ok d => set d
  | .error fault => throw (.disk context path fault)

/-- A question to the file system, with what it was asked for. -/
def ask {α : Type} (context : String) (path : Path) (f : Disk → Except Disk.Fault α) : Task α := do
  match f (← get) with
  | .ok a => return a
  | .error fault => throw (.disk context path fault)

/-- A change of the file system that is left out if it is refused. -/
def attempt (f : Disk → Except Disk.Fault Disk) : Task Unit :=
  modify fun d => (f d).toOption.getD d

end Task

/-- An engine: its name, and how it bundles. -/
structure Engine where
  name : String
  bundle : EngineRequest → Task EngineResult

end FunctionArchive
