import FunctionArchive.Fault
import FunctionArchive.Path
import FunctionArchive.Text.Blank

/-!
# Package manifests

The fields of a package manifest that matter for packing. Manifests of installed packages are not
always well typed, so a field of the wrong kind counts as absent, and so does a single entry of the
wrong kind in a table of dependencies. What stops the reading is a document that is not JSON, one
that is neither an object nor a list, and a field that is given twice. A list stands for the fields
in their fixed order.
-/

set_option autoImplicit false

namespace FunctionArchive

/-- The fields of a manifest as they are written. -/
structure Manifest.Fields where
  name : Option String := none
  version : Option String := none
  main : Option String := none
  moduleType : Option String := none
  exportMap : Option Json := none
  dependencies : List (String × String) := []
  optionalDependencies : List (String × String) := []
  peerDependencies : List (String × String) := []
  /-- For each peer, whether it may be missing. -/
  peerOptional : List (String × Bool) := []

/-- A package manifest and the directory it was found in. -/
structure Manifest where
  directory : Path
  name : Option String
  version : Option String
  /-- The file that stands for the package. -/
  main : Option String
  /-- Which module system its scripts use. -/
  moduleType : Option String
  /-- What the package makes visible, as written. -/
  exportMap : Option Json
  /-- Declared dependencies in the order of their names, like the other tables. -/
  dependencies : List (String × String)
  optionalDependencies : List String
  peerDependencies : List (String × String)
  peerOptional : List (String × Bool)

namespace Manifest

open Json (Reader)

/-- The name of a manifest file. -/
def fileName : String := "package.json"

/-! ## Fields -/

/-- The fields of a manifest, in the order in which a list gives them. -/
inductive Field
  | name
  | version
  | main
  | moduleType
  | exportMap
  | dependencies
  | optionalDependencies
  | peerDependencies
  | peerMeta
deriving DecidableEq, Repr

/-- All fields in order. -/
def Field.all : List Field :=
  [.name, .version, .main, .moduleType, .exportMap, .dependencies, .optionalDependencies,
    .peerDependencies, .peerMeta]

/-- The key of a field. -/
def Field.key : Field → String
  | .name => "name"
  | .version => "version"
  | .main => "main"
  | .moduleType => "type"
  | .exportMap => "exports"
  | .dependencies => "dependencies"
  | .optionalDependencies => "optionalDependencies"
  | .peerDependencies => "peerDependencies"
  | .peerMeta => "peerDependenciesMeta"

/-- Inserts an entry in the order of keys. A known key takes the new value. -/
def insertSorted {α : Type} (key : String) (value : α) :
    List (String × α) → List (String × α)
  | [] => [(key, value)]
  | (k, v) :: rest =>
    if key == k then (key, value) :: rest
    else if key < k then (key, value) :: (k, v) :: rest
    else (k, v) :: insertSorted key value rest

/-- The entries of a table whose value can be used, in the order of keys. -/
def table {α : Type} (decode : Json → Option α) : Json → List (String × α)
  | .object entries =>
    entries.foldl (fun out (key, value) =>
      match decode value with
      | some value => insertSorted key value out
      | none => out) []
  | _ => []

/-- Whether a peer may be missing, from its entry in the table of peers: an object or a list of at
most one item. An answer that is not a truth value means no. -/
def peerMeta? : Json → Option Bool
  | .object entries => some (((Json.entry? entries "optional").bind Json.bool?).getD false)
  | .array [] => some false
  | .array [item] => some (item.bool?.getD false)
  | _ => none

/-- Stores the value of a field. -/
def Fields.set (fields : Fields) (value : Json) : Field → Fields
  | .name => { fields with name := value.string? }
  | .version => { fields with version := value.string? }
  | .main => { fields with main := value.string? }
  | .moduleType => { fields with moduleType := value.string? }
  | .exportMap =>
    { fields with exportMap := match value with
      | .null => none
      | _ => some value }
  | .dependencies => { fields with dependencies := table Json.string? value }
  | .optionalDependencies => { fields with optionalDependencies := table Json.string? value }
  | .peerDependencies => { fields with peerDependencies := table Json.string? value }
  | .peerMeta => { fields with peerOptional := table peerMeta? value }

/-! ## Reading -/

/-- Reads one entry of a manifest object, given the fields read and those already seen. -/
def readEntry (depth bound : Nat) (state : Fields × List Field) (key : String) :
    Reader (Fields × List Field) := do
  match Field.all.find? (·.key == key) with
  | none => do
    Reader.colon
    Reader.skip bound
    return state
  | some field =>
    if state.2.contains field then Reader.stopLater (.duplicateField key)
    else do
      Reader.colon
      let value ← Reader.value bound depth
      return (state.1.set value field, field :: state.2)

/-- Reads the fields of a manifest from a list, as far as it goes. -/
def readItems (depth : Nat) : Nat → Bool → Fields → List Field → Reader Fields
  | 0, _, fields, _ | _, _, fields, [] => pure fields
  | bound + 1, first, fields, field :: rest => do
    if ← Reader.hasElement first then do
      let value ← Reader.value bound depth
      readItems depth bound false (fields.set value field) rest
    else pure fields

/-- Reads the fields of a manifest. -/
def readFields (bound : Nat) : Reader Fields := do
  let depth := Reader.nestingLimit
  match ← Reader.peekPart with
  | some b =>
    if b == Reader.code '{' then do
      let (fields, _) ← Reader.object bound depth (readEntry (depth - 1)) (({}, []))
      return fields
    else if b == Reader.code '[' then do
      Reader.drop
      Reader.closedBy Reader.endArray (readItems (depth - 1) bound true {} Field.all)
    else Reader.unexpected "struct RawManifest"
  | none => Reader.stopAhead .eofValue

/-- The manifest with these fields in a directory. A blank main file counts as absent. -/
def ofFields (directory : Path) (fields : Fields) : Manifest where
  directory
  name := fields.name
  version := fields.version
  main := fields.main.filter (!Text.isBlankText ·)
  moduleType := fields.moduleType
  exportMap := fields.exportMap
  dependencies := fields.dependencies
  optionalDependencies := fields.optionalDependencies.map (·.1)
  peerDependencies := fields.peerDependencies
  peerOptional := fields.peerOptional

/-- Reads the manifest found at a path. -/
def read (path : Path) (bytes : List UInt8) : Outcome Manifest :=
  match Reader.run readFields bytes with
  | .ok fields => .ok (ofFields (path.parent?.getD ⟨false, []⟩) fields)
  | .error error => .error (.manifest path error)

/-! ## Questions -/

/-- The path of the manifest file. -/
def path (m : Manifest) : Path := m.directory.child fileName

/-- Whether a package is declared as an optional dependency. -/
def isOptional (m : Manifest) (package : String) : Bool :=
  m.optionalDependencies.contains package

/-- Whether a package is a peer that may be missing. -/
def isPeerOptional (m : Manifest) (package : String) : Bool :=
  (Json.entry? m.peerOptional package).getD false

/-- Whether the scripts of the package use static imports. -/
def isModule (m : Manifest) : Bool := m.moduleType == some "module"

end Manifest

end FunctionArchive
