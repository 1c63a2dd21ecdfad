import FunctionArchive.Graph
import FunctionArchive.Layout
import FunctionArchive.Strategy

/-!
# Bundles

A bundle is everything that belongs into the archive of a function, entry by entry, before anything
is written. An entry names a file on the disk, or has its content with it, or is a link.
-/

set_option autoImplicit false

namespace FunctionArchive

/-- Where an entry of an archive comes from. -/
inductive Source
  /-- A file on the disk. -/
  | file (path : Path)
  /-- Content that is not on the disk. -/
  | bytes (data : List UInt8)
  /-- A link with this text. -/
  | link (target : String)
deriving DecidableEq, Repr

/-- An entry that belongs into an archive. -/
structure OutputFile where
  /-- The path of the entry in the archive. -/
  name : String
  source : Source
  /-- The permission bits, if they are not those of the source. -/
  mode : Option Nat := none
deriving DecidableEq, Repr

/-- What belongs into the archive of a function. -/
structure Bundle where
  strategy : Strategy
  runtime : Runtime
  /-- The directory from which the names of the entries start. -/
  base : Path
  files : List OutputFile
  warnings : List Warning
  /-- What the strategy that was tried first complained of, if it failed. -/
  recovered : Option (List String)
deriving DecidableEq, Repr

namespace Graph

/-- The places of a closure: its files and the links to them. -/
def places (g : Graph) : List Path := g.files ++ g.links.map (·.path)

/-- The entries of an archive that hold a closure. -/
def outputs (g : Graph) (base : Path) : List OutputFile :=
  (g.files.map fun path => ⟨Layout.archiveName path base, .file path, none⟩) ++
    g.links.map fun link =>
      ⟨Layout.archiveName link.path base, .link (Layout.linkTarget link.target link.path), none⟩

end Graph

namespace Bundle

/-- The directory from which the names of some entries start. -/
def baseOf (paths : List Path) : Path :=
  (Layout.commonBase? paths).getD ⟨false, []⟩

/-- The bundle of a function that is shipped as a single file. -/
def ofSingleFile (strategy : Strategy) (f : FunctionSource) : Bundle :=
  let base := f.entry.parent?.getD ⟨false, []⟩
  { strategy
    runtime := f.runtime
    base
    files := [⟨Layout.archiveName f.entry base, .file f.entry, none⟩]
    warnings := []
    recovered := none }

/-- The bundle of a closure. -/
def ofGraph (runtime : Runtime) (g : Graph) : Bundle :=
  let base := baseOf g.places
  { strategy := .graph
    runtime
    base
    files := g.outputs base
    warnings := g.warnings
    recovered := none }

/-- The bundle of what an engine made for a script, with the closure of the packages that it left
outside. -/
def ofEngine (runtime : Runtime) (script : Path) (bundled : List UInt8) (warnings : List String)
    (packages : Option Graph) : Bundle :=
  let places := (packages.map Graph.places).getD []
  let base := baseOf (script :: places)
  { strategy := .engine
    runtime
    base
    files := ⟨Layout.archiveName script base, .bytes bundled, none⟩ ::
      (packages.map (·.outputs base)).getD []
    warnings := warnings.map .engine ++ (packages.map (·.warnings)).getD []
    recovered := none }

end Bundle

end FunctionArchive
