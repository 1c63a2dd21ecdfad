/-!
# CRC-32

The check sum that archives keep of each entry: the remainder of the data, read as a polynomial
over the bits, with all bits turned over at the start and at the end.
-/

set_option autoImplicit false

namespace FunctionArchive.Crc32

/-- One bit further. -/
def shift (remainder : UInt32) : UInt32 :=
  if remainder &&& 1 == 1 then (remainder >>> 1) ^^^ 0xEDB88320 else remainder >>> 1

/-- One byte further. -/
def step (remainder : UInt32) (b : UInt8) : UInt32 :=
  Nat.repeat shift 8 (remainder ^^^ b.toUInt32)

/-- The check sum of some data. -/
def ofBytes (data : List UInt8) : UInt32 :=
  ~~~ data.foldl step 0xFFFFFFFF

end FunctionArchive.Crc32
