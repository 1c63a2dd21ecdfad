import FunctionArchive.Path
import FunctionArchive.Text.Utf8

/-!
# Layout of an archive

An archive keeps the arrangement of the files that it is made from: names in it are paths relative
to the deepest directory that holds them all, and a link in it leads to its target by a relative
path, so the whole can be unpacked anywhere.

A name on a disk is a sequence of bytes and need not be a text, while names in an archive are texts.
A path is therefore laid out in its raw form (`Path.raw`), in which each name is given by its bytes,
a character below 256 for each. Names of paths are only compared with each other and with the empty
name, `.` and `..`, so all that is said about paths holds of raw ones too. Where a raw name is made
part of an archive, replacement characters stand in for what is no text in it (`shown`).
-/

set_option autoImplicit false

namespace FunctionArchive

/-! ## Names by their bytes -/

/-- The raw form of a name that is a text: a character for each byte of its characters. -/
def Path.rawName (name : String) : String :=
  String.ofList ((name.toList.flatMap String.utf8EncodeChar).map fun b => Char.ofNat b.toNat)

/-- The raw form of a path. -/
def Path.raw (p : Path) : Path := ⟨p.absolute, p.names.map rawName⟩

namespace Layout

/-- The bytes that a raw name stands for. -/
def bytesOf (rawName : String) : List UInt8 := rawName.toList.map fun c => UInt8.ofNat c.toNat

/-- The text that is shown for a raw name. -/
def shown (rawName : String) : String := Utf8.decodeLossy (bytesOf rawName)

/-! ## The base of some paths -/

/-- The first directory, on the way up from `base`, in which a path lies. -/
def shrinkTo (path base : Path) : Option Path :=
  base.ancestors.find? path.isWithin

/-- Shrinks a directory until all paths lie in it. -/
def shrinkToAll (base : Path) : List Path → Option Path
  | [] => some base
  | path :: rest => (shrinkTo path base).bind (shrinkToAll · rest)

/-- The deepest directory that holds all paths. -/
def commonBase? : List Path → Option Path
  | [] => none
  | first :: rest => first.parent?.bind (shrinkToAll · rest)

/-! ## Names in an archive -/

/-- Whether a component of a path is a name and not a step. -/
def isName (component : String) : Bool :=
  component != "." && component != ".."

/-- The names that lead to a path in an archive that starts at `base`. -/
def entryNames (path base : Path) : List String :=
  ((path.relativeTo? base).getD path.components).filter isName

/-- The name in an archive of what is at a raw path, for an archive that starts at `base`. -/
def rawArchiveName (path base : Path) : String :=
  "/".intercalate ((entryNames path base).map shown)

/-- The name in an archive of what is at a path whose names are texts. -/
def archiveName (path base : Path) : String := rawArchiveName path.raw base.raw

/-! ## Texts of links -/

/-- What two lists have in common at the front. -/
def commonFront : List String → List String → List String
  | a :: as, b :: bs => if a == b then a :: commonFront as bs else []
  | _, _ => []

/-- The way from the directory of a link to its target: how many steps lead up, and the names that
lead down from there. -/
def stepsTo (target link : Path) : Nat × List String :=
  let origin := (link.parent?.getD link).components
  let shared := (commonFront origin target.components).length
  (origin.length - shared, target.components.drop shared)

/-- The text of a link at the raw path `link` that leads to `target`, as seen from the directory of
the link. -/
def rawLinkTarget (target link : Path) : String :=
  let (ups, names) := stepsTo target link
  "/".intercalate (List.replicate ups ".." ++ names.map shown)

/-- The text of a link where the names of both paths are texts. -/
def linkTarget (target link : Path) : String := rawLinkTarget target.raw link.raw

end Layout

end FunctionArchive
