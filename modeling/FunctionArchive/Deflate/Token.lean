/-!
# Tokens of compressed data

Compressed data is a series of tokens: a byte as it is, or a copy of some bytes that stand further
in front. A copy may reach into the bytes that it produces itself, so one token can stand for a
long run. Tokens are written as symbols of two alphabets, one for bytes and lengths of copies and
one for distances; a symbol for a range of values is followed by bits that say which it is.
-/

set_option autoImplicit false

namespace FunctionArchive.Deflate

/-- A step in rebuilding data. -/
inductive Token
  | literal (b : UInt8)
  | copy (length distance : Nat)
deriving DecidableEq, Repr

/-- Where a copy may come from: as many bytes back as can be addressed. -/
def maxDistance : Nat := 32768

/-- Copies of this length are the longest. -/
def maxLength : Nat := 258

/-! ## Rebuilding data -/

/-- Appends bytes that stand at a distance in front of the end, one by one. -/
def copyBytes (distance : Nat) : Nat → Array UInt8 → Array UInt8
  | 0, out => out
  | count + 1, out => copyBytes distance count (out.push (out.getD (out.size - distance) 0))

/-- The data with what a token stands for, unless the token reaches too far back. -/
def Token.apply? (out : Array UInt8) : Token → Option (Array UInt8)
  | .literal b => some (out.push b)
  | .copy length distance =>
    if 0 < distance && distance ≤ out.size then some (copyBytes distance length out) else none

/-! ## Symbols -/

/-- A symbol that stands for a range of values: the first of them, and how many bits tell them
apart. -/
structure Range where
  first : Nat
  bits : Nat
deriving DecidableEq, Repr

/-- Ranges that follow each other from a value on, with these numbers of bits. -/
def rangesFrom (first : Nat) : List Nat → List Range
  | [] => []
  | bits :: rest => ⟨first, bits⟩ :: rangesFrom (first + Nat.pow 2 bits) rest

/-- The ranges of lengths. The longest length has a symbol of its own. -/
def lengthRanges : Array Range :=
  (rangesFrom 3 [0, 0, 0, 0, 0, 0, 0, 0, 1, 1, 1, 1, 2, 2, 2, 2, 3, 3, 3, 3, 4, 4, 4, 4,
    5, 5, 5, 5] ++ [Range.mk 258 0]).toArray

/-- The ranges of distances. -/
def distanceRanges : Array Range :=
  (rangesFrom 1 [0, 0, 0, 0, 1, 1, 2, 2, 3, 3, 4, 4, 5, 5, 6, 6, 7, 7, 8, 8, 9, 9, 10, 10,
    11, 11, 12, 12, 13, 13]).toArray

/-- The last range that starts at or before a value, with its index. -/
def rangeOf (ranges : Array Range) (value : Nat) : Nat × Range :=
  let index := ((ranges.findIdx? (value < ·.first)).getD ranges.size) - 1
  (index, ranges.getD index ⟨value, 0⟩)

/-- The symbol that ends a block. -/
def endSymbol : Nat := 256

/-- The first symbol of a length. -/
def firstLengthSymbol : Nat := 257

/-- A number written in a fixed number of bits. -/
structure Extra where
  value : Nat
  bits : Nat
deriving DecidableEq, Repr

/-- The symbol of a length and what is written behind it. -/
def lengthSymbol (length : Nat) : Nat × Extra :=
  let (index, range) := rangeOf lengthRanges length
  (firstLengthSymbol + index, ⟨length - range.first, range.bits⟩)

/-- The symbol of a distance and what is written behind it. -/
def distanceSymbol (distance : Nat) : Nat × Extra :=
  let (index, range) := rangeOf distanceRanges distance
  (index, ⟨distance - range.first, range.bits⟩)

end FunctionArchive.Deflate
