import FunctionArchive.Deflate.Encoder

/-!
# Reading compressed data

The reader goes through the blocks bit by bit and rebuilds the data. It gives up when the bits end
too early, when they are no code of the alphabet, and when a copy reaches in front of the data.
-/

set_option autoImplicit false

namespace FunctionArchive.Deflate

/-- The bits that are still to be read. -/
structure Input where
  bits : List Bool
  /-- How many have been read. -/
  position : Nat

/-- A step of reading. -/
abbrev BitReader := StateT Input Option

namespace BitReader

/-- The next bit. -/
def bit : BitReader Bool := do
  let i ← get
  match i.bits with
  | [] => failure
  | b :: rest =>
    set (⟨rest, i.position + 1⟩ : Input)
    return b

/-- A number, its lowest bit first. -/
def number : Nat → BitReader Nat
  | 0 => return 0
  | count + 1 => do
    let b ← bit
    return 2 * (← number count) + if b then 1 else 0

/-- Goes on to the next whole byte. -/
def align : BitReader Unit := do
  discard (number ((8 - (← get).position % 8) % 8))

/-- Bytes as they are. -/
def bytes : Nat → Array UInt8 → BitReader (Array UInt8)
  | 0, out => return out
  | count + 1, out => do
    let value ← number 8
    bytes count (out.push (UInt8.ofNat value))

end BitReader

/-! ## Codes -/

/-- A code arranged for reading: how many codes of each length there are, and the symbols in the
order of their codes. -/
structure Decoder where
  counts : Array Nat
  symbols : Array Nat

/-- The decoder for a code with these lengths. -/
def Decoder.ofLengths (lengths : List Nat) : Decoder :=
  let longest := lengths.foldl max 0
  let indexed := lengths.zipIdx
  { counts := countLengths lengths longest
    symbols := ((List.range longest).flatMap fun n =>
      (indexed.filter fun entry => entry.1 == n + 1).map (·.2)).toArray }

/-- Reads a symbol. The code read so far has `length` bits; among the codes of that length it stands
`code - first` places behind the first one, whose symbol is at `index`. -/
def Decoder.symbolFrom (d : Decoder) : Nat → Nat → Nat → Nat → Nat → BitReader Nat
  | 0, _, _, _, _ => failure
  | bound + 1, length, code, first, index => do
    let b ← BitReader.bit
    let code := code + if b then 1 else 0
    let count := d.counts.getD length 0
    if code < first + count then
      match d.symbols[index + (code - first)]? with
      | some symbol => return symbol
      | none => failure
    else d.symbolFrom bound (length + 1) (2 * code) (2 * (first + count)) (index + count)

/-- Reads a symbol. -/
def Decoder.symbol (d : Decoder) : BitReader Nat :=
  d.symbolFrom 15 1 0 0 0

/-! ## Blocks -/

/-- The value that a symbol of some ranges stands for. -/
def valueOf (ranges : Array Range) (index : Nat) : BitReader Nat := do
  match ranges[index]? with
  | none => failure
  | some range => return range.first + (← BitReader.number range.bits)

/-- Reads the copy whose length this symbol begins. -/
def readCopy (distances : Decoder) (symbol : Nat) : BitReader Token := do
  let length ← valueOf lengthRanges (symbol - firstLengthSymbol)
  let distance ← valueOf distanceRanges (← distances.symbol)
  return .copy length distance

/-- Reads tokens up to the end of a block and rebuilds what they stand for. -/
def readTokens (symbols distances : Decoder) : Nat → Array UInt8 → BitReader (Array UInt8)
  | 0, _ => failure
  | bound + 1, out => do
    let symbol ← symbols.symbol
    if symbol == endSymbol then return out
    let token ← if symbol < endSymbol then pure (.literal (UInt8.ofNat symbol))
      else readCopy distances symbol
    match token.apply? out with
    | some out => readTokens symbols distances bound out
    | none => failure

/-- Reads lengths that are described by items. -/
def readLengths (items : Decoder) : Nat → Nat → List Nat → BitReader (List Nat)
  | 0, _, _ => failure
  | bound + 1, count, before => do
    if count ≤ before.length then
      if count == before.length then return before.reverse else failure
    match ← items.symbol with
    | 16 =>
      match before with
      | [] => failure
      | last :: _ =>
        let n := 3 + (← BitReader.number 2)
        readLengths items bound count (List.replicate n last ++ before)
    | 17 => do
      let n := 3 + (← BitReader.number 3)
      readLengths items bound count (List.replicate n 0 ++ before)
    | 18 => do
      let n := 11 + (← BitReader.number 7)
      readLengths items bound count (List.replicate n 0 ++ before)
    | value => readLengths items bound count (value :: before)

/-- Reads the description of a code. -/
def readHeader : BitReader (Decoder × Decoder) := do
  let symbolCount := 257 + (← BitReader.number 5)
  let distanceCount := 1 + (← BitReader.number 5)
  let itemCount := 4 + (← BitReader.number 4)
  let values ← (List.range itemCount).mapM fun _ => BitReader.number 3
  let lengths := (itemOrder.zip values).foldl
    (fun out (s, length) => out.setIfInBounds s length) (Array.replicate 19 0)
  let total := symbolCount + distanceCount
  let all ← readLengths (.ofLengths lengths.toList) (total + 1) total []
  return (.ofLengths (all.take symbolCount), .ofLengths (all.drop symbolCount))

/-- Reads a block without a code. -/
def readStored (out : Array UInt8) : BitReader (Array UInt8) := do
  BitReader.align
  let length ← BitReader.number 16
  let check ← BitReader.number 16
  if length + check == 65535 then BitReader.bytes length out else failure

/-- The fixed code, for reading. -/
def fixedDecoders : Decoder × Decoder :=
  (.ofLengths Lengths.fixed.symbols.toList, .ofLengths Lengths.fixed.distances.toList)

/-- Reads a block. A token takes at least one bit. -/
def readBlock (out : Array UInt8) : BitReader (Array UInt8) := do
  let bound := (← get).bits.length + 1
  match ← BitReader.number 2 with
  | 0 => readStored out
  | 1 => readTokens fixedDecoders.1 fixedDecoders.2 bound out
  | 2 =>
    let (symbols, distances) ← readHeader
    readTokens symbols distances bound out
  | _ => failure

/-- Reads blocks up to the last one. -/
def readBlocks : Nat → Array UInt8 → BitReader (Array UInt8)
  | 0, _ => failure
  | bound + 1, out => do
    let final ← BitReader.bit
    let out ← readBlock out
    if final then return out else readBlocks bound out

/-- The data that some bytes are the compressed form of. -/
def decode? (bytes : List UInt8) : Option (List UInt8) :=
  let bits := byteBits bytes
  ((readBlocks (bits.length + 1) #[]).run ⟨bits, 0⟩).map fun result => result.1.toList

end FunctionArchive.Deflate
