import FunctionArchive.Settings
import FunctionArchive.Toml.Document

/-!
# Configuration files

A configuration file may set any option of a run, and overrides for functions by patterns of their
names. A key that is not known is a fault, except inside an override. An override is a table, or a
list that gives its fields in their order.
-/

set_option autoImplicit false

namespace FunctionArchive

/-- What a configuration file says; every part may be missing. -/
structure ConfigFile where
  strategy : Option StrategyChoice := none
  externalModules : List String := []
  ignoredModules : List String := []
  excludeFiles : List String := []
  concurrency : Option Nat := none
  archiveFormat : Option ArchiveFormat := none
  extensions : Option (List String) := none
  sourceMaps : Option Bool := none
  /-- The last directory in which a search for a manifest looks. -/
  boundary : Option Path := none
  /-- The bundling program. -/
  esbuild : Option Path := none
  /-- Overrides by patterns of names, in the order of the patterns. -/
  functions : List (String × FunctionConfig) := []
deriving DecidableEq, Repr

namespace ConfigFile

/-! ## Values -/

/-- One of some choices, by its name; the name may also be the only key of a table, with nothing
behind it. -/
def choice? {α : Type} (ofName? : String → Option α) : Toml → Option α
  | .string name => ofName? name
  | .table _ [(name, .table _ [])] => ofName? name
  | .table _ [(name, .list [])] => ofName? name
  | _ => none

/-- A path. -/
def path? (value : Toml) : Option Path :=
  value.string?.map .ofString

/-! ## Overrides -/

/-- The keys of an override, in the order in which a list gives their values. -/
def overrideKeys : List String :=
  ["strategy", "external_modules", "ignored_modules", "exclude_files"]

/-- Stores a value of an override; other keys do not matter. -/
def setOverride (config : FunctionConfig) (key : String) (value : Toml) : Option FunctionConfig :=
  match key with
  | "strategy" => do
    return { config with strategy := some (← choice? StrategyChoice.ofName? value) }
  | "external_modules" => do return { config with externalModules := ← value.strings? }
  | "ignored_modules" => do return { config with ignoredModules := ← value.strings? }
  | "exclude_files" => do return { config with excludeFiles := ← value.strings? }
  | _ => some config

/-- An override. -/
def override? (value : Toml) : Option FunctionConfig := do
  let entries ← match value.entries?, value.items? with
    | some entries, _ => some entries
    | none, some items => some (overrideKeys.zip items)
    | none, none => none
  entries.foldlM (fun config (key, value) => setOverride config key value) {}

/-- The overrides, in the order of their patterns. -/
def overrides? (value : Toml) : Option (List (String × FunctionConfig)) := do
  let overrides ← (← value.entries?).mapM fun (pattern, value) => do
    return (pattern, ← override? value)
  return overrides.mergeSort fun a b => a.1 ≤ b.1

/-! ## Reading -/

/-- Stores a value of the file. -/
def set (file : ConfigFile) (key : String) (value : Toml) : Option ConfigFile :=
  match key with
  | "strategy" => do
    return { file with strategy := some (← choice? StrategyChoice.ofName? value) }
  | "external_modules" => do return { file with externalModules := ← value.strings? }
  | "ignored_modules" => do return { file with ignoredModules := ← value.strings? }
  | "exclude_files" => do return { file with excludeFiles := ← value.strings? }
  | "concurrency" => do return { file with concurrency := some (← value.natural?) }
  | "archive_format" => do
    return { file with archiveFormat := some (← choice? ArchiveFormat.ofName? value) }
  | "extensions" => do return { file with extensions := some (← value.strings?) }
  | "include_source_maps" => do return { file with sourceMaps := some (← value.boolean?) }
  | "manifest_boundary" => do return { file with boundary := some (← path? value) }
  | "esbuild" => do return { file with esbuild := some (← path? value) }
  | "functions" => do return { file with functions := ← overrides? value }
  | _ => none

/-- Reads the text of a configuration file. -/
def ofText? (text : String) : Option ConfigFile := do
  (← Toml.read? text).foldlM (fun file (key, value) => file.set key value) {}

/-- Why a configuration file cannot be used. -/
inductive Flaw
  /-- There is no text to be read. -/
  | unreadable (path : Path)
  /-- The text is no configuration. -/
  | malformed (path : Path)
deriving DecidableEq, Repr

/-- The wording of a flaw. -/
def Flaw.message : Flaw → String
  | .unreadable path => s!"reading config file {path}"
  | .malformed path => s!"parsing config file {path}"

/-- Reads the configuration file at a path. -/
def load (d : Disk) (path : Path) : Except Flaw ConfigFile :=
  match d.readText path with
  | .error _ => .error (.unreadable path)
  | .ok text =>
    match ofText? text with
    | some file => .ok file
    | none => .error (.malformed path)

end ConfigFile

end FunctionArchive
