import FunctionArchive.Executable
import FunctionArchive.FunctionConfig
import FunctionArchive.Path

/-!
# Functions

A function is what one archive is made from: the file that it starts from and what runs it.
-/

set_option autoImplicit false

namespace FunctionArchive

/-- What runs a function. -/
inductive Runtime
  /-- A script. -/
  | script
  /-- Executables by the toolchain that built them. -/
  | go
  | rust
  | otherNative
  /-- An archive that is ready to be shipped. -/
  | archive
deriving DecidableEq, Repr, Inhabited

namespace Runtime

/-- The name of a run time in listings and in archives. -/
def name : Runtime → String
  | .script => "js"
  | .go => "go"
  | .rust => "rust"
  | .otherNative => "provided"
  | .archive => "zip"

/-- Whether the function is an executable. -/
def isNative : Runtime → Bool
  | .go | .rust | .otherNative => true
  | .script | .archive => false

/-- The run time of an executable file. -/
def ofExecutable? (bytes : List UInt8) : Option Runtime :=
  if Executable.isExecutable bytes then
    if Executable.holds Executable.goMarker bytes then some .go
    else if Executable.rustMarkers.any (Executable.holds · bytes) then some .rust
    else some .otherNative
  else none

end Runtime

/-- A function to be packed. -/
structure FunctionSource where
  /-- The name of the function and of its archive. -/
  name : String
  /-- The file that it starts from. -/
  entry : Path
  runtime : Runtime
  /-- The extension of that file in lower case, without its dot. -/
  extension : String
  config : FunctionConfig
deriving DecidableEq, Repr

end FunctionArchive
