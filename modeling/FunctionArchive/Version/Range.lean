import FunctionArchive.Version

/-!
# Version ranges

A range is a list of comparators that must all hold, or the wildcard `*`, which is the empty list.
A comparator has an operator and a version whose last parts may be missing; without an operator it
means "compatible with". A pre-release is in a range only when one of the comparators names a
pre-release of the same three numbers.
-/

set_option autoImplicit false

namespace FunctionArchive

/-- The relation a comparator asks for. -/
inductive Comparison
  | exact
  | greater
  | greaterEq
  | less
  | lessEq
  | tilde
  | caret
deriving DecidableEq, Repr

/-- One condition on a version. -/
structure Comparator where
  comparison : Comparison
  major : Nat
  minor : Option Nat
  patch : Option Nat
  pre : PreRelease
deriving DecidableEq, Repr

/-- A range of versions. -/
structure VersionRange where
  comparators : List Comparator
deriving DecidableEq, Repr

namespace Comparator

/-- Agrees in every part that is given. -/
def holdsExactly (c : Comparator) (v : Version) : Bool :=
  v.major == c.major && c.minor.all (v.minor == ·) && c.patch.all (v.patch == ·) && v.pre == c.pre

/-- How the version compares with the given parts, the first difference deciding. A missing part
decides nothing, so the comparison ends there. -/
def order? (c : Comparator) (v : Version) : Option Ordering :=
  if v.major != c.major then some (compare v.major c.major) else
    match c.minor with
    | none => none
    | some minor =>
      if v.minor != minor then some (compare v.minor minor) else
        match c.patch with
        | none => none
        | some patch =>
          if v.patch != patch then some (compare v.patch patch) else some (compare v.pre c.pre)

/-- Equal in the given parts up to the minor number, and not below the comparator. -/
def holdsTilde (c : Comparator) (v : Version) : Bool :=
  v.major == c.major && c.minor.all (v.minor == ·) &&
    match c.patch with
    | none => (compare v.pre c.pre).isGE
    | some patch =>
      if v.patch != patch then decide (v.patch > patch) else (compare v.pre c.pre).isGE

/-- Equal up to the first number that is not zero, and not below the comparator. -/
def holdsCaret (c : Comparator) (v : Version) : Bool :=
  v.major == c.major &&
    match c.minor, c.patch with
    | none, _ => true
    | some minor, none => if c.major > 0 then decide (v.minor ≥ minor) else v.minor == minor
    | some minor, some patch =>
      if c.major > 0 && v.minor != minor then decide (v.minor > minor)
      else if v.minor != minor then false
      else if (c.major > 0 || minor > 0) && v.patch != patch then decide (v.patch > patch)
      else if v.patch != patch then false
      else (compare v.pre c.pre).isGE

/-- Whether a version satisfies the comparator. -/
def holds (c : Comparator) (v : Version) : Bool :=
  match c.comparison with
  | .exact => c.holdsExactly v
  | .greater => c.order? v == some .gt
  | .greaterEq => c.holdsExactly v || c.order? v == some .gt
  | .less => c.order? v == some .lt
  | .lessEq => c.holdsExactly v || c.order? v == some .lt
  | .tilde => c.holdsTilde v
  | .caret => c.holdsCaret v

/-- Whether the comparator names a pre-release of the version's three numbers. -/
def admitsPreRelease (c : Comparator) (v : Version) : Bool :=
  c.major == v.major && c.minor == some v.minor && c.patch == some v.patch && c.pre != ⟨[]⟩

end Comparator

namespace VersionRange

/-- The range of all versions. -/
def everything : VersionRange := ⟨[]⟩

/-- Whether a version lies in the range. -/
def contains (r : VersionRange) (v : Version) : Bool :=
  r.comparators.all (·.holds v) &&
    (v.pre == ⟨[]⟩ || r.comparators.any (·.admitsPreRelease v))

/-! ## Reading -/

/-- Blanks in front of a text are skipped. -/
def skipBlanks (chars : List Char) : List Char :=
  chars.dropWhile (· == ' ')

/-- What follows a wildcard. -/
def wildcard? : List Char → Option (List Char)
  | '*' :: rest | 'x' :: rest | 'X' :: rest => some rest
  | _ => none

/-- The operator in front of a comparator. -/
def readComparison : List Char → Option Comparison × List Char
  | '=' :: rest => (some .exact, rest)
  | '>' :: '=' :: rest => (some .greaterEq, rest)
  | '>' :: rest => (some .greater, rest)
  | '<' :: '=' :: rest => (some .lessEq, rest)
  | '<' :: rest => (some .less, rest)
  | '~' :: rest => (some .tilde, rest)
  | '^' :: rest => (some .caret, rest)
  | rest => (none, rest)

/-- A part of a comparator that may be missing or a wildcard. -/
inductive Part
  | missing
  | wildcard
  | number (value : Nat)
deriving DecidableEq, Repr

/-- The number of a part, if it has one. -/
def Part.number? : Part → Option Nat
  | .number value => some value
  | _ => none

/-- The part behind a dot. -/
def readPart? (chars : List Char) : Option (Part × List Char) :=
  match chars with
  | '.' :: rest =>
    match wildcard? rest with
    | some rest => some (.wildcard, rest)
    | none => (Version.readNumber? rest).map fun (n, rest) => (.number n, rest)
  | _ => some (.missing, chars)

/-- One comparator and what follows it. -/
def readComparator? (chars : List Char) : Option (Comparator × List Char) := do
  let (written, rest) := readComparison chars
  let (major, rest) ← Version.readNumber? (skipBlanks rest)
  let (minor, rest) ← readPart? rest
  let (patch, rest) ← readPart? rest
  if minor == .wildcard && patch.number?.isSome then none
  let (pre, rest) ← if patch.number?.isSome then Version.readPreRelease? rest
    else some (⟨[]⟩, rest)
  let rest ← if patch.number?.isSome then Version.skipBuild? rest else some rest
  let unwritten : Comparison :=
    if minor == .wildcard || patch == .wildcard then .exact else .caret
  return ({ comparison := written.getD unwritten, major, minor := minor.number?,
            patch := patch.number?, pre }, skipBlanks rest)

/-- Comparators between commas; no more than `bound` of them. -/
def readComparators? : Nat → List Char → Option (List Comparator)
  | 0, _ => none
  | bound + 1, chars => do
    let (first, rest) ← readComparator? chars
    match rest with
    | [] => return [first]
    | ',' :: rest => return first :: (← readComparators? bound (skipBlanks rest))
    | _ => none

/-- The largest number of comparators in a range. -/
def maxComparators : Nat := 32

/-- Reads a range. -/
def read? (text : String) : Option VersionRange :=
  let chars := skipBlanks text.toList
  match wildcard? chars with
  | some rest => if (skipBlanks rest).isEmpty then some everything else none
  | none => (readComparators? maxComparators chars).map VersionRange.mk

end VersionRange

end FunctionArchive
