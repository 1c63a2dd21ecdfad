import FunctionArchive.Bundle
import FunctionArchive.Graph.Build
import FunctionArchive.World

/-!
# Bundling a function

Each strategy makes a bundle in its own way. When the configuration names a second strategy, it is
tried after a failure of the first: if it succeeds, the bundle keeps what the first complained of,
and if it fails too, the first failure is the one that counts.
-/

set_option autoImplicit false

namespace FunctionArchive

namespace Engine

/-- The directory in which an engine works. -/
def stagingDirectory : Path := .ofNames ["staging"]

/-- Works in a directory that is there only for this work. -/
def inStaging {α : Type} (work : Path → Task α) : Task α := do
  Task.change "creating engine staging directory" .root (·.createDirectory stagingDirectory)
  tryFinally (work stagingDirectory) (Task.attempt (·.removeDirectory stagingDirectory))

/-- Bundles a script: the content of the bundle and what the engine told. -/
def bundleScript (e : Engine) (entry : Path) (config : FunctionConfig) :
    Task (List UInt8 × EngineResult) :=
  inStaging fun directory => do
    let result ← e.bundle ⟨entry, config.externalModules, config.ignoredModules, directory⟩
    let bundled ← Task.ask "reading bundled output" result.file (·.read result.file)
    return (bundled, result)

end Engine

namespace Bundle

/-- The modules that an engine left outside and that must be shipped: those that neither the run
time nor the configuration takes care of. -/
def toShip (external ignored : ModuleFilter) (left : List String) : List String :=
  left.filter fun name =>
    !Reference.isBuiltin name && !external.covers name && !ignored.covers name

/-- Bundles a script with the files that it refers to. -/
def withGraph (s : Settings) (f : FunctionSource) : Action Bundle := do
  let policy ← Action.ofOutcome (GraphPolicy.ofSettings s f.config)
  return ofGraph f.runtime (← Action.query (Graph.build policy f.entry))

/-- Bundles a script with the engine. -/
def withEngine (s : Settings) (f : FunctionSource) : Action Bundle := do
  let (bundled, result) ← Action.task (s.engine.bundleScript f.entry f.config)
  let external ← Action.ofOutcome (ModuleFilter.make f.config.externalModules)
  let ignored ← Action.ofOutcome (ModuleFilter.make f.config.ignoredModules)
  let names := toShip external ignored result.externalModules
  let packages ← if names.isEmpty then pure none
    else do
      let policy ← Action.ofOutcome (GraphPolicy.ofSettings s f.config)
      some <$> Action.query (Graph.buildPackages policy names f.entry)
  let entry ← Action.query (Resolution.realPath f.entry)
  return ofEngine f.runtime (entry.withExtension "js") bundled result.warnings packages

/-- Bundles a function with a strategy. -/
def withStrategy (s : Settings) (f : FunctionSource) : Strategy → Action Bundle
  | .passthrough => return ofSingleFile .passthrough f
  | .binary => return ofSingleFile .binary f
  | .graph => withGraph s f
  | .engine => withEngine s f

/-- Turns to a second strategy after a failure of the first. -/
def recover (s : Settings) (f : FunctionSource) (failure : Fault) (fallback : Strategy) :
    Action Bundle := do
  Action.note .warning
    s!"'{f.name}' failed to bundle ({failure.message}); retrying with the {fallback.name} strategy"
  try
    let bundle ← withStrategy s f fallback
    pure { bundle with recovered := some failure.details }
  catch _ => throw failure

/-- Bundles a function with the strategies of a selection. -/
def withSelection (s : Settings) (f : FunctionSource) (selection : Selection) : Action Bundle :=
  match selection.fallback with
  | none => withStrategy s f selection.primary
  | some fallback =>
    try withStrategy s f selection.primary
    catch failure => recover s f failure fallback

/-- Bundles a function. -/
def make (s : Settings) (f : FunctionSource) : Action Bundle := do
  let selection ← Action.query (Selection.choose f)
  let bundle ← withSelection s f selection
  for warning in bundle.warnings do
    Action.note .warning s!"{f.name}: {warning.message}"
  return bundle

end Bundle

end FunctionArchive
