/-!
# UTF-8

Decoding of bytes into characters. A byte sequence that is no character is cut off as short as the
standard recommends: as far as its bytes could still have been the start of one. `decode` reports
each such piece as `none`, so that strict decoding (`decode?`) refuses exactly when there is one,
and lossy decoding (`decodeLossy`) puts one replacement character for each.
-/

set_option autoImplicit false

namespace FunctionArchive.Utf8

/-- How many more bytes the lead byte asks for, the least and the greatest value the first of them
may have, and the bits the lead byte contributes. -/
def lead? (b : UInt8) : Option (Nat × UInt8 × UInt8 × Nat) :=
  if b < 0x80 then some (0, 0x80, 0xBF, b.toNat)
  else if b < 0xC2 then none
  else if b < 0xE0 then some (1, 0x80, 0xBF, b.toNat - 0xC0)
  else if b == 0xE0 then some (2, 0xA0, 0xBF, 0)
  else if b == 0xED then some (2, 0x80, 0x9F, 0xD)
  else if b < 0xF0 then some (2, 0x80, 0xBF, b.toNat - 0xE0)
  else if b == 0xF0 then some (3, 0x90, 0xBF, 0)
  else if b < 0xF4 then some (3, 0x80, 0xBF, b.toNat - 0xF0)
  else if b == 0xF4 then some (3, 0x80, 0x8F, 4)
  else none

/-- Reads `count` continuation bytes, the first of them within the given limits. Gives the code
point, or nothing when a byte does not fit, and the bytes from there on. -/
def continuation : Nat → UInt8 → UInt8 → Nat → List UInt8 → Option Nat × List UInt8
  | 0, _, _, value, bytes => (some value, bytes)
  | _ + 1, _, _, _, [] => (none, [])
  | count + 1, low, high, value, b :: rest =>
    if low ≤ b && b ≤ high then
      continuation count 0x80 0xBF (value * 64 + (b.toNat - 0x80)) rest
    else
      (none, b :: rest)

/-- Decodes at most `bound` characters or malformed pieces. -/
def decodeFrom : Nat → List UInt8 → List (Option Char)
  | 0, _ | _, [] => []
  | bound + 1, b :: rest =>
    match lead? b with
    | none => none :: decodeFrom bound rest
    | some (count, low, high, bits) =>
      let (value, rest) := continuation count low high bits rest
      value.map Char.ofNat :: decodeFrom bound rest

/-- The characters of a byte sequence, `none` for each malformed piece. -/
def decode (bytes : List UInt8) : List (Option Char) :=
  decodeFrom bytes.length bytes

/-- The text of well-formed bytes. -/
def decode? (bytes : List UInt8) : Option String :=
  ((decode bytes).mapM id).map String.ofList

/-- The text of any bytes, with the replacement character for each malformed piece. -/
def decodeLossy (bytes : List UInt8) : String :=
  String.ofList ((decode bytes).map (·.getD (Char.ofNat 0xFFFD)))

/-- The bytes of a text. -/
def encode (text : String) : List UInt8 :=
  text.toUTF8.toList

end FunctionArchive.Utf8
