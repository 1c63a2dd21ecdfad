import FunctionArchive.Zip

/-!
# Reading bytes

Numbers and runs of bytes are taken from the front of some data, or the data is refused. What an
archive says of itself is found by marks, so the places at which a mark stands can be listed too.
-/

set_option autoImplicit false

namespace FunctionArchive.Zip

/-- A step of reading. -/
abbrev ByteReader := StateT (List UInt8) Option

namespace ByteReader

/-- As many bytes. -/
def bytes (count : Nat) : ByteReader (List UInt8) := do
  let all ← get
  let taken := all.take count
  if taken.length == count then
    set (all.drop count)
    return taken
  else failure

/-- Passes over as many bytes. -/
def skip (count : Nat) : ByteReader Unit := do
  let _ ← bytes count

/-- The number that some bytes make, the lowest first. -/
def ofLittle (bytes : List UInt8) : Nat :=
  bytes.foldr (fun b n => b.toNat + 256 * n) 0

/-- A number in as many bytes. -/
def number (count : Nat) : ByteReader Nat := return ofLittle (← bytes count)

/-- Goes on only if something holds. -/
def require (condition : Bool) : ByteReader Unit :=
  if condition then pure () else failure

/-- Goes on only with this number. -/
def expect (count value : Nat) : ByteReader Unit := do
  require ((← number count) == value)

end ByteReader

/-- The places at which some bytes begin like this, the last one first, each with what follows. -/
def placesOf (mark : List UInt8) : Nat → List UInt8 → List (Nat × List UInt8) →
    List (Nat × List UInt8)
  | _, [], found => found
  | offset, b :: rest, found =>
    placesOf mark (offset + 1) rest
      (if mark.isPrefixOf (b :: rest) then (offset, b :: rest) :: found else found)

/-- The places between two offsets at which a number of four bytes stands, the first one first. -/
def placesBetween (mark : Nat) (data : List UInt8) (start stop : Nat) : List Nat :=
  ((placesOf (little 4 mark) start ((data.drop start).take (stop - start)) []).map
    Prod.fst).reverse

end FunctionArchive.Zip
