/-!
# Options of one function

The options that may differ between the functions of one run, and how an override is laid over
the defaults: a pinned strategy replaces the one below it, and the lists accumulate without
repeating an entry that is already there.
-/

set_option autoImplicit false

namespace FunctionArchive

/-- A packing strategy pinned by the configuration. -/
inductive StrategyChoice
  /-- Follow the references and ship what they reach. -/
  | graph
  /-- Leave the script to the bundling engine. -/
  | engine
  /-- Try the engine, and follow the references when it fails. -/
  | engineWithFallback
deriving DecidableEq, Repr, Inhabited

namespace StrategyChoice

/-- All choices, in the order in which help texts list them. -/
def all : List StrategyChoice := [.graph, .engine, .engineWithFallback]

/-- The name of a choice in configuration files and on the command line. -/
def name : StrategyChoice → String
  | .graph => "graph"
  | .engine => "engine"
  | .engineWithFallback => "engine-with-fallback"

/-- The choice of that name. -/
def ofName? (text : String) : Option StrategyChoice :=
  all.find? (·.name == text)

end StrategyChoice

/-- The options of one function. -/
structure FunctionConfig where
  /-- The strategy, if it is pinned. -/
  strategy : Option StrategyChoice := none
  /-- Modules that are not shipped because the place where the function runs has them. -/
  externalModules : List String := []
  /-- Modules that are left out altogether. -/
  ignoredModules : List String := []
  /-- Patterns of files that are never shipped with a package. -/
  excludeFiles : List String := []
deriving DecidableEq, Repr, Inhabited

namespace FunctionConfig

/-- `base`, then the entries of `extra` that are not there yet. Repetitions inside `base` stay. -/
def accumulate (base extra : List String) : List String :=
  extra.foldl (fun out item => if out.contains item then out else out ++ [item]) base

/-- Lays `overlay` on top of `base`. -/
def mergedWith (base overlay : FunctionConfig) : FunctionConfig where
  strategy := overlay.strategy <|> base.strategy
  externalModules := accumulate base.externalModules overlay.externalModules
  ignoredModules := accumulate base.ignoredModules overlay.ignoredModules
  excludeFiles := accumulate base.excludeFiles overlay.excludeFiles

end FunctionConfig

end FunctionArchive
