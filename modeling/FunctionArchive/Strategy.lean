import FunctionArchive.FunctionSource
import FunctionArchive.Manifest.Cache
import FunctionArchive.Script.Scan

/-!
# Choosing a strategy

How a function is packed follows from what runs it, then from the configuration. A script for which
nothing is pinned is looked at: one that uses the syntax of modules needs the engine, any other is
packed with the files that it refers to.
-/

set_option autoImplicit false

namespace FunctionArchive

/-- How a function is packed. -/
inductive Strategy
  /-- A ready archive, as it is. -/
  | passthrough
  /-- An executable, as a single file. -/
  | binary
  /-- The closure of a script. -/
  | graph
  /-- What a bundling engine makes of a script. -/
  | engine
deriving DecidableEq, Repr, Inhabited

/-- The name of a strategy. -/
def Strategy.name : Strategy → String
  | .passthrough => "passthrough"
  | .binary => "binary"
  | .graph => "graph"
  | .engine => "engine"

/-- A strategy, and the one to turn to if it fails. -/
structure Selection where
  primary : Strategy
  fallback : Option Strategy := none
deriving DecidableEq, Repr

namespace Selection

/-- The selection that is pinned. -/
def ofChoice : StrategyChoice → Selection
  | .graph => ⟨.graph, none⟩
  | .engine => ⟨.engine, none⟩
  | .engineWithFallback => ⟨.engine, some .graph⟩

/-- The selection that needs no look at the source. -/
def fixed? (f : FunctionSource) : Option Selection :=
  match f.runtime with
  | .archive => some ⟨.passthrough, none⟩
  | .go | .rust | .otherNative => some ⟨.binary, none⟩
  | .script => f.config.strategy.map ofChoice

/-- Extensions of scripts that always need the engine. -/
def engineExtensions : List String := ["mjs", "mts", "ts", "cts"]

/-- Whether a source can be parsed and uses the syntax of modules. -/
def hasModuleSyntax (bytes : List UInt8) (path : Path) : Bool :=
  match Script.scan (Utf8.decodeLossy bytes) path with
  | .ok scan => scan.moduleSyntax
  | .error _ => false

/-- Whether the nearest manifest makes the scripts of a directory modules. -/
def inModulePackage (entry : Path) : Query Bool := do
  match entry.parent? with
  | none => return false
  | some directory => return (← Manifests.find directory).any (·.isModule)

/-- Whether a script that is not pinned needs the engine. -/
def needsEngine (f : FunctionSource) : Query Bool := do
  if engineExtensions.contains f.extension then return true
  if ← inModulePackage f.entry then return true
  let bytes ← Query.askDisk "reading entry file" f.entry (·.read f.entry)
  return hasModuleSyntax bytes f.entry

/-- The selection for a function. -/
def choose (f : FunctionSource) : Query Selection := do
  match fixed? f with
  | some selection => return selection
  | none => return ⟨if ← needsEngine f then .engine else .graph, none⟩

end Selection

end FunctionArchive
