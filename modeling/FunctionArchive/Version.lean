/-!
# Semantic versions

A version is three numbers, an optional list of pre-release identifiers and an optional list of
build identifiers. Numbers have no leading zeros and fit in 64 bits. Build identifiers are checked
and forgotten: no order and no range looks at them.

Pre-release lists are compared from the left; numbers come before words and in numeric order, and
a version without a pre-release list comes after every version with one.
-/

set_option autoImplicit false

namespace FunctionArchive

/-- A pre-release list: the identifiers between the dots, none for a release. -/
structure PreRelease where
  identifiers : List String
deriving DecidableEq, Repr, Inhabited

/-- A version. -/
structure Version where
  major : Nat
  minor : Nat
  patch : Nat
  pre : PreRelease := ⟨[]⟩
deriving DecidableEq, Repr, Inhabited

namespace PreRelease

/-- Whether an identifier is a number. -/
def isNumeric (identifier : String) : Bool :=
  identifier.toList.all Char.isDigit

/-- Numbers before words, numbers by size, words by their characters. -/
def compareIdentifiers (a b : String) : Ordering :=
  match isNumeric a, isNumeric b with
  | true, true => (compare a.length b.length).then (compare a b)
  | true, false => .lt
  | false, true => .gt
  | false, false => compare a b

/-- Compares identifier by identifier; of two lists that agree the longer is greater. -/
def compareLists : List String → List String → Ordering
  | [], [] => .eq
  | [], _ :: _ => .lt
  | _ :: _, [] => .gt
  | a :: as, b :: bs => (compareIdentifiers a b).then (compareLists as bs)

/-- A release is greater than each of its pre-releases. -/
instance : Ord PreRelease where
  compare a b :=
    match a.identifiers, b.identifiers with
    | [], [] => .eq
    | [], _ => .gt
    | _, [] => .lt
    | as, bs => compareLists as bs

end PreRelease

namespace Version

/-! ## Reading -/

/-- The first number that does not fit in 64 bits. -/
def numberBound : Nat := 18446744073709551616

/-- A number at the front of a text, without leading zeros, and what follows it. -/
def readNumber? (chars : List Char) : Option (Nat × List Char) :=
  let digits := chars.takeWhile Char.isDigit
  let value := digits.foldl (fun n c => n * 10 + (c.toNat - '0'.toNat)) 0
  match digits with
  | [] => none
  | '0' :: _ :: _ => none
  | _ => if value < numberBound then some (value, chars.drop digits.length) else none

/-- Whether a character may stand in an identifier. -/
def isIdentifierChar (c : Char) : Bool :=
  c.isAlphanum || c == '-'

/-- Identifiers between dots at the front of a text, none of them empty, and what follows them.
Where leading zeros are refused, a number of several digits must not start with one. -/
def readIdentifiers? (leadingZeros : Bool) (chars : List Char) :
    Option (List String × List Char) :=
  let body := chars.takeWhile fun c => isIdentifierChar c || c == '.'
  let identifiers := (String.ofList body).splitOn "."
  let wellFormed (identifier : String) : Bool :=
    identifier != "" &&
      (leadingZeros || !PreRelease.isNumeric identifier || identifier.length == 1 ||
        identifier.toList.head? != some '0')
  if identifiers.all wellFormed then some (identifiers, chars.drop body.length) else none

/-- A pre-release list behind its dash, if there is one. -/
def readPreRelease? (chars : List Char) : Option (PreRelease × List Char) :=
  match chars with
  | '-' :: rest => (readIdentifiers? false rest).map fun (ids, rest) => (⟨ids⟩, rest)
  | _ => some (⟨[]⟩, chars)

/-- What follows the build identifiers behind a plus sign, if there are any. -/
def skipBuild? (chars : List Char) : Option (List Char) :=
  match chars with
  | '+' :: rest => (readIdentifiers? true rest).map (·.2)
  | _ => some chars

/-- Drops a dot. -/
def dot? : List Char → Option (List Char)
  | '.' :: rest => some rest
  | _ => none

/-- Reads a complete version. -/
def read? (text : String) : Option Version := do
  let (major, rest) ← readNumber? text.toList
  let (minor, rest) ← readNumber? (← dot? rest)
  let (patch, rest) ← readNumber? (← dot? rest)
  let (pre, rest) ← readPreRelease? rest
  let rest ← skipBuild? rest
  if rest.isEmpty then some { major, minor, patch, pre } else none

end Version

end FunctionArchive
