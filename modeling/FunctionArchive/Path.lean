/-!
# File paths

A path is a root marker and a list of names, kept exactly as they were written: a doubled
separator shows as an empty name and a lone dot as the name `.`. Two spellings of one path differ
in those redundant names only, so everything that asks what a path denotes reads its
`components`, from which they are gone, while printing a path gives its spelling back.

`Path.normalize` also resolves `..` against the name before it. It does so on the spelling alone
and never looks at a disk, so the result of normalising is a plain path: absolute and free of
redundant names and of `..`.

Names are Unicode texts. A name on a disk may be any sequence of bytes; one that is not valid UTF-8
is no text, and paths through it are outside of what is described here. Only the layout of an
archive, where such a name would change, is told for names by their bytes as well (`Path.raw`).
-/

set_option autoImplicit false

namespace FunctionArchive

/-- A file path as it was written. -/
structure Path where
  /-- Whether the path starts at the root. -/
  absolute : Bool
  /-- The names between the separators, redundant ones included. -/
  names : List String
deriving DecidableEq, Repr, Inhabited

namespace Path

/-! ## Spelling -/

/-- The root directory. -/
def root : Path := ⟨true, []⟩

/-- The absolute path through these names. -/
def ofNames (names : List String) : Path := ⟨true, names⟩

/-- The names between the slashes of a text. -/
def split (chars : List Char) : List String :=
  (chars.splitOn '/').map String.ofList

/-- Reads a path off its spelling. -/
def ofString (text : String) : Path :=
  match text.toList with
  | [] => ⟨false, []⟩
  | ['/'] => ⟨true, []⟩
  | '/' :: rest => ⟨true, split rest⟩
  | chars => ⟨false, split chars⟩

/-- The spelling of a path. -/
def text (p : Path) : String :=
  (if p.absolute then "/" else "") ++ "/".intercalate p.names

instance : ToString Path := ⟨text⟩

/-! ## What a path denotes -/

/-- Names that do not lead anywhere. -/
def isRedundant (name : String) : Bool :=
  name == "" || name == "."

/-- The names that lead somewhere. A leading dot of a relative path counts as one. -/
def components (p : Path) : List String :=
  match p.absolute, p.names with
  | false, "." :: rest => "." :: rest.filter (!isRedundant ·)
  | _, names => names.filter (!isRedundant ·)

/-- Whether two spellings denote the same path. -/
def same (p q : Path) : Bool :=
  p.absolute == q.absolute && p.components == q.components

/-- Paths are ordered by their components, an ancestor before everything below it. -/
instance : Ord Path :=
  ⟨fun p q => (compare q.absolute p.absolute).then (compare p.components q.components)⟩

/-! ## Moving up and down -/

/-- The names without the redundant ones at the end. -/
def trimEnd (absolute : Bool) (names : List String) : List String :=
  let kept := (names.reverse.dropWhile isRedundant).reverse
  if kept.isEmpty && !absolute && names.head? == some "." then ["."] else kept

/-- The directory that holds the last component; a bare root has none. -/
def parent? (p : Path) : Option Path :=
  let names := trimEnd p.absolute p.names
  if names.isEmpty then none
  else some ⟨p.absolute, trimEnd p.absolute names.dropLast⟩

/-- The last component, unless it is a step upwards. -/
def fileName? (p : Path) : Option String :=
  (trimEnd p.absolute p.names).getLast?.filter fun name => name != ".." && name != "."

/-- `q` as seen from `p`: an absolute path stands for itself. An empty path adds a separator. -/
def join (p q : Path) : Path :=
  if q.absolute then q
  else if p.names.isEmpty then ⟨p.absolute, q.names⟩
  else
    let base := if p.names.getLast? == some "" then p.names.dropLast else p.names
    ⟨p.absolute, base ++ if q.names.isEmpty then [""] else q.names⟩

/-- The entry of this name in the directory `p`. -/
def child (p : Path) (name : String) : Path :=
  p.join (ofString name)

/-- The directories above `p`, the nearest first, as far as `bound` of them. -/
def above : Nat → Path → List Path
  | 0, _ => []
  | bound + 1, p =>
    match p.parent? with
    | none => []
    | some q => q :: above bound q

/-- `p` itself, then the directories above it, the nearest first. Each step up drops a name, so
there are no more of them than names. -/
def ancestors (p : Path) : List Path :=
  p :: above p.names.length p

/-- What remains of `p` below `base`, if it lies there. -/
def relativeTo? (p base : Path) : Option (List String) :=
  if p.absolute == base.absolute && base.components.isPrefixOf p.components then
    some (p.components.drop base.components.length)
  else
    none

/-- Whether `p` is `base` or lies below it. -/
def isWithin (p base : Path) : Bool :=
  (p.relativeTo? base).isSome

/-- Appends text to the last name. A slash in the text starts another name. -/
def appendToName (p : Path) (suffix : String) : Path :=
  match p.names.reverse with
  | [] => ⟨p.absolute, split suffix.toList⟩
  | last :: before => ⟨p.absolute, before.reverse ++ split (last ++ suffix).toList⟩

/-! ## Extensions -/

/-- The part before the last dot and the part after it. A dot in front belongs to the name, so
`.profile` has no extension, and `archive.` has an empty one. -/
def splitExtension (name : String) : String × Option String :=
  let back := name.toList.reverse
  let after := back.takeWhile (· != '.')
  match back.dropWhile (· != '.') with
  | '.' :: stem =>
    if stem.isEmpty then (name, none)
    else (String.ofList stem.reverse, some (String.ofList after.reverse))
  | _ => (name, none)

/-- The last name without its extension. -/
def fileStem? (p : Path) : Option String :=
  p.fileName?.map fun name => (splitExtension name).1

/-- What follows the last dot of the last name. -/
def extension? (p : Path) : Option String :=
  p.fileName?.bind fun name => (splitExtension name).2

/-- The path with another extension on its last name. -/
def withExtension (p : Path) (extension : String) : Path :=
  match p.fileName? with
  | none => p
  | some name =>
    ⟨p.absolute, (trimEnd p.absolute p.names).dropLast ++
      [(splitExtension name).1 ++ "." ++ extension]⟩

/-! ## Normalising -/

/-- One step of normalising: the names passed so far, the last one first. -/
def step (passed : List String) (name : String) : List String :=
  if isRedundant name then passed
  else if name == ".." then passed.tail
  else name :: passed

/-- The plain path that `p` spells when relative paths start from `base`. -/
def normalize (base p : Path) : Path :=
  ofNames ((((if p.absolute then [] else base.names) ++ p.names).foldl step []).reverse)

end Path

end FunctionArchive
