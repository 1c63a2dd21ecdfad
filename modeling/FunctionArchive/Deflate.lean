import FunctionArchive.Deflate.Decoder

/-!
# Compression

Data is compressed by cutting it into tokens and writing these in their shortest form. The result
is read back before it is used; should it not give the data again, the data is stored without any
code, as it always can be.
-/

set_option autoImplicit false

namespace FunctionArchive.Deflate

/-- Blocks without a code. -/
def storeBlocks : Nat → Nat → List UInt8 → List Bool
  | 0, _, _ => []
  | bound + 1, position, bytes =>
    let block := bytes.take maxStored
    let rest := bytes.drop maxStored
    let bits := writeStored position rest.isEmpty block
    if rest.isEmpty then bits else bits ++ storeBlocks bound (position + bits.length) rest

/-- Data as it is, in the form of compressed data. -/
def store (data : List UInt8) : List UInt8 :=
  packBits (storeBlocks (data.length / maxStored + 1) 0 data)

/-- Compresses data. -/
def compress (data : List UInt8) : List UInt8 :=
  let encoded := encode (cut .usual data) data
  if decode? encoded == some data then encoded else store data

end FunctionArchive.Deflate
