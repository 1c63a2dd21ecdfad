import FunctionArchive.Deflate.Huffman
import FunctionArchive.Deflate.Search

/-!
# Writing compressed data

Tokens are written in blocks. A block uses the fixed code, or a code made for it and described in
front of it, or gives the data without any code, whichever is shortest; of the codes the fixed one
is taken when it is not longer. The bits of a number come the lowest first, those of a code the
first first.
-/

set_option autoImplicit false

namespace FunctionArchive.Deflate

/-- The bits of a number, the lowest first. -/
def numberBits (value count : Nat) : List Bool :=
  (List.range count).map value.testBit

/-- The bits of an extra. -/
def Extra.write (e : Extra) : List Bool := numberBits e.value e.bits

/-- Lengths of the codes of both alphabets. -/
structure Lengths where
  symbols : Array Nat
  distances : Array Nat

/-- The fixed code. -/
def Lengths.fixed : Lengths where
  symbols := (List.replicate 144 8 ++ List.replicate 112 9 ++ List.replicate 24 7 ++
    List.replicate 8 8).toArray
  distances := Array.replicate 30 5

/-- The symbols that a token is written with, and what is written behind each. -/
def Token.symbol : Token → Nat × Extra
  | .literal b => (b.toNat, ⟨0, 0⟩)
  | .copy length _ => lengthSymbol length

/-- The symbol of the distance of a copy. -/
def Token.distanceSymbol? : Token → Option (Nat × Extra)
  | .literal _ => none
  | .copy _ distance => some (distanceSymbol distance)

/-- How often each symbol occurs. -/
def weightsOf (size : Nat) (symbols : List Nat) : Array Nat :=
  symbols.foldl (fun weights s => weights.modify s (· + 1)) (Array.replicate size 0)

/-- How often each symbol occurs in a block, which ends with a symbol of its own. -/
def symbolWeights (tokens : List Token) : Array Nat :=
  weightsOf 286 (endSymbol :: tokens.map (·.symbol.1))

/-- How often each symbol of a distance occurs in a block. -/
def distanceWeights (tokens : List Token) : Array Nat :=
  weightsOf 30 (tokens.filterMap fun t => t.distanceSymbol?.map Prod.fst)

/-- The code made for a block. -/
def Lengths.for (tokens : List Token) : Lengths where
  symbols := lengthsOf (symbolWeights tokens) 15
  distances := lengthsOf (distanceWeights tokens) 15

/-! ## Describing a code -/

/-- A part of the description of a code: a length, or a run of equal lengths. -/
structure Item where
  symbol : Nat
  extra : Extra

/-- How many items at the front are equal to the first. -/
def runLength (value : Nat) : List Nat → Nat
  | [] => 0
  | n :: rest => if n == value then runLength value rest + 1 else 0

/-- Takes up to `count` items off a run of this length, given the length before it. -/
def runItems (value : Nat) (before : Option Nat) : Nat → Nat → List Item
  | 0, _ => []
  | bound + 1, count =>
    if count == 0 then []
    else if value == 0 then
      if count < 3 then List.replicate count ⟨0, ⟨0, 0⟩⟩
      else if count ≤ 10 then [⟨17, ⟨count - 3, 3⟩⟩]
      else
        let taken := min count 138
        ⟨18, ⟨taken - 11, 7⟩⟩ :: runItems value (some 0) bound (count - taken)
    else if before != some value then
      ⟨value, ⟨0, 0⟩⟩ :: runItems value (some value) bound (count - 1)
    else if count < 3 then List.replicate count ⟨value, ⟨0, 0⟩⟩
    else
      let taken := min count 6
      ⟨16, ⟨taken - 3, 2⟩⟩ :: runItems value (some value) bound (count - taken)

/-- The description of some lengths. -/
def describe : Nat → Option Nat → List Nat → List Item
  | 0, _, _ => []
  | _, _, [] => []
  | bound + 1, before, value :: rest =>
    let count := runLength value rest + 1
    runItems value before (count + 1) count ++
      describe bound (some value) (rest.drop (count - 1))

/-- The lengths up to the last that is not zero. -/
def trimLengths (lengths : Array Nat) : List Nat :=
  (lengths.toList.reverse.dropWhile (· == 0)).reverse

/-- The order in which the lengths of the code for items are written. -/
def itemOrder : List Nat :=
  [16, 17, 18, 0, 8, 7, 9, 6, 10, 5, 11, 4, 12, 3, 13, 2, 14, 1, 15]

/-- A description of a code. -/
structure Header where
  symbolCount : Nat
  distanceCount : Nat
  items : List Item
  /-- The lengths of the code in which the items are written. -/
  itemLengths : Array Nat
  /-- How many of these lengths are written. -/
  itemCount : Nat

/-- The description of a code. Lengths of the two alphabets are described apart. -/
def Header.of (l : Lengths) : Header :=
  let symbols := trimLengths l.symbols
  let distances := trimLengths l.distances
  let items := describe symbols.length none symbols ++ describe distances.length none distances
  let lengths := lengthsOf (weightsOf 19 (items.map (·.symbol))) 7
  let unused := (itemOrder.reverse.takeWhile fun s => lengths.getD s 0 == 0).length
  { symbolCount := symbols.length
    distanceCount := distances.length
    items
    itemLengths := lengths
    itemCount := max 4 (itemOrder.length - unused) }

/-- The bits of a description. -/
def Header.write (h : Header) : List Bool :=
  let codes := codesOf h.itemLengths
  numberBits (h.symbolCount - 257) 5 ++ numberBits (h.distanceCount - 1) 5 ++
    numberBits (h.itemCount - 4) 4 ++
    ((itemOrder.take h.itemCount).map fun s => numberBits (h.itemLengths.getD s 0) 3).flatten ++
    (h.items.map fun item => codes.getD item.symbol [] ++ item.extra.write).flatten

/-! ## Blocks -/

/-- How many bits a symbol takes with what is written behind it. -/
def costOf (lengths : Array Nat) (s : Nat × Extra) : Nat :=
  lengths.getD s.1 0 + s.2.bits

/-- How many bits the tokens of a block take, with the symbol at the end. -/
def Lengths.cost (l : Lengths) (tokens : List Token) : Nat :=
  tokens.foldl (fun sum t =>
    sum + costOf l.symbols t.symbol + (t.distanceSymbol?.map (costOf l.distances)).getD 0)
    (l.symbols.getD endSymbol 0)

/-- How many bits a description takes. -/
def Header.cost (h : Header) : Nat :=
  14 + 3 * h.itemCount +
    h.items.foldl (fun sum item => sum + h.itemLengths.getD item.symbol 0 + item.extra.bits) 0

/-- The bits of the tokens of a block in a code. -/
def Lengths.write (l : Lengths) (tokens : List Token) : List Bool :=
  let symbols := codesOf l.symbols
  let distances := codesOf l.distances
  let bits (codes : Array (List Bool)) (s : Nat × Extra) := codes.getD s.1 [] ++ s.2.write
  (tokens.map fun t =>
    bits symbols t.symbol ++ (t.distanceSymbol?.map (bits distances)).getD []).flatten ++
    symbols.getD endSymbol []

/-- The bits of bytes. -/
def byteBits (bytes : List UInt8) : List Bool :=
  (bytes.map fun b => numberBits b.toNat 8).flatten

/-- How many bytes a number of bits fills, with the kind of a block in front. -/
def blockBytes (bits : Nat) : Nat := (bits + 3 + 7) / 8

/-- How many bytes a block without a code can have. -/
def maxStored : Nat := 65535

/-- The bits of a block without a code, written when so many bits stand before it. -/
def writeStored (position : Nat) (final : Bool) (bytes : List UInt8) : List Bool :=
  final :: numberBits 0 2 ++ List.replicate ((13 - position % 8) % 8) false ++
    numberBits bytes.length 16 ++ numberBits (65535 - bytes.length) 16 ++ byteBits bytes

/-- The bits of a block with the fixed code. -/
def writeFixed (final : Bool) (tokens : List Token) : List Bool :=
  final :: numberBits 1 2 ++ Lengths.fixed.write tokens

/-- The bits of a block with a code of its own. -/
def writeDynamic (final : Bool) (h : Header) (l : Lengths) (tokens : List Token) : List Bool :=
  final :: numberBits 2 2 ++ h.write ++ l.write tokens

/-- The bits of a block in its shortest form; `bytes` are what the tokens stand for. -/
def writeBlock (position : Nat) (final : Bool) (tokens : List Token) (bytes : List UInt8) :
    List Bool :=
  if tokens.isEmpty then writeFixed final tokens
  else
    let l := Lengths.for tokens
    let h := Header.of l
    let fixed := blockBytes (Lengths.fixed.cost tokens)
    let dynamic := blockBytes (h.cost + l.cost tokens)
    if bytes.length + 4 ≤ min fixed dynamic && bytes.length ≤ maxStored then
      writeStored position final bytes
    else if fixed ≤ dynamic then writeFixed final tokens
    else writeDynamic final h l tokens

/-- How many bytes a token stands for. -/
def Token.size : Token → Nat
  | .literal _ => 1
  | .copy length _ => length

/-- How many tokens a block has at most. -/
def blockTokens : Nat := 16383

/-- The bits of tokens that stand for these bytes, block by block, written when so many bits stand
before them. Even an empty rest makes a last block. -/
def writeBlocks : Nat → Nat → List Token → List UInt8 → List Bool
  | 0, _, _, _ => []
  | bound + 1, position, tokens, bytes =>
    let block := tokens.take blockTokens
    if block.length < blockTokens then writeBlock position true block bytes
    else
      let size := (block.map Token.size).sum
      let bits := writeBlock position false block (bytes.take size)
      bits ++ writeBlocks bound (position + bits.length) (tokens.drop blockTokens) (bytes.drop size)

/-- The byte with these bits, the first one the lowest. -/
def byteOfBits (bits : List Bool) : UInt8 :=
  UInt8.ofNat (bits.foldr (fun b n => 2 * n + if b then 1 else 0) 0)

/-- The bytes that bits fill, behind those that have been filled, which come last one first. -/
def packOnto (filled : List UInt8) : List Bool → List UInt8
  | b0 :: b1 :: b2 :: b3 :: b4 :: b5 :: b6 :: b7 :: rest =>
    packOnto (byteOfBits [b0, b1, b2, b3, b4, b5, b6, b7] :: filled) rest
  | [] => filled.reverse
  | rest => (byteOfBits rest :: filled).reverse

/-- The bytes that bits fill. -/
def packBits (bits : List Bool) : List UInt8 := packOnto [] bits

/-- Compresses data that has been cut into tokens. -/
def encode (tokens : List Token) (bytes : List UInt8) : List UInt8 :=
  packBits (writeBlocks (tokens.length / blockTokens + 1) 0 tokens bytes)

end FunctionArchive.Deflate
