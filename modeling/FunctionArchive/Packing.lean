import FunctionArchive.Archive.Assembly
import FunctionArchive.Batch
import FunctionArchive.Bundling
import FunctionArchive.Discovery

/-!
# Packing functions

Packing bundles a function and assembles its archive. Many functions are packed in one run and
share what it knows about manifests; a failure of one function stays in its own slot.
-/

set_option autoImplicit false

namespace FunctionArchive.Packing

/-- Packs a function into a directory. -/
def pack (s : Settings) (f : FunctionSource) (destination : Path) : Action Archive := do
  let bundle ← Bundle.make s f
  Archive.assemble bundle f destination s.format

/-- Packs the function at a path, in a run of its own. -/
def packPath (s : Settings) (path destination : Path) : Action Archive := do
  match ← Action.ofOutcome (FunctionSource.ofPath (← get).disk s path) with
  | some f => Action.apart s.boundary (pack s f destination)
  | none => throw (.unsupportedRuntime path "not a recognised function entry point")

/-- A function and what came of packing it. -/
structure Slot where
  function : FunctionSource
  result : Outcome Archive

/-- Packs a function and keeps a failure as the result. -/
def packSlot (s : Settings) (destination : Path) (f : FunctionSource) : Action Slot :=
  ExceptT.mk do return .ok ⟨f, ← (pack s f destination).run⟩

/-- Notes a failure in the journal. -/
def noteFailure (slot : Slot) : Action Unit :=
  match slot.result with
  | .ok _ => pure ()
  | .error fault =>
    Action.note .error s!"Failed to package '{slot.function.name}': {fault.message}"

/-- Packs all functions in some directories, in a run of its own. -/
def packAll (s : Settings) (directories : List Path) (destination : Path) :
    Action (List Slot) := do
  let functions ← Discovery.discover s directories
  Action.note .info s!"Packaging {functions.length} functions into {destination}"
  let slots ← Action.apart s.boundary (functions.mapM (packSlot s destination))
  slots.forM noteFailure
  return slots

/-- A file that a function is made from. -/
structure FunctionFile where
  function : FunctionSource
  path : Path
deriving DecidableEq, Repr

/-- The files that a function is made from. -/
def filesOf (s : Settings) (f : FunctionSource) : Action (List FunctionFile) := do
  match f.runtime with
  | .script =>
    let policy ← Action.ofOutcome (GraphPolicy.ofSettings s f.config)
    let graph ← Action.query (Graph.build policy f.entry)
    return graph.files.map (⟨f, ·⟩)
  | _ => return [⟨f, f.entry⟩]

/-- The files that the functions in some directories are made from, in a run of its own. -/
def listFiles (s : Settings) (directories : List Path) : Action (List FunctionFile) :=
  Action.apart s.boundary do
    let functions ← Discovery.discover s directories
    return (← functions.mapM (filesOf s)).flatten

end FunctionArchive.Packing
