/-!
# SHA-256

A message is padded to whole blocks of 64 bytes, and each block in turn
is mixed into a state of eight words.
-/

set_option autoImplicit false

namespace FunctionArchive.Sha256

/-- The eight words that are carried from block to block. -/
structure State where
  a : UInt32
  b : UInt32
  c : UInt32
  d : UInt32
  e : UInt32
  f : UInt32
  g : UInt32
  h : UInt32
deriving DecidableEq, Repr

namespace State

/-- The state before the first block. -/
def start : State :=
  ⟨0x6a09e667, 0xbb67ae85, 0x3c6ef372, 0xa54ff53a, 0x510e527f, 0x9b05688c, 0x1f83d9ab, 0x5be0cd19⟩

/-- Adds two states word by word. -/
def add (s t : State) : State :=
  ⟨s.a + t.a, s.b + t.b, s.c + t.c, s.d + t.d, s.e + t.e, s.f + t.f, s.g + t.g, s.h + t.h⟩

/-- The words of a state in order. -/
def words (s : State) : List UInt32 := [s.a, s.b, s.c, s.d, s.e, s.f, s.g, s.h]

end State

/-- The constants of the 64 rounds. -/
def roundConstants : List UInt32 :=
  [0x428a2f98, 0x71374491, 0xb5c0fbcf, 0xe9b5dba5, 0x3956c25b, 0x59f111f1, 0x923f82a4, 0xab1c5ed5,
    0xd807aa98, 0x12835b01, 0x243185be, 0x550c7dc3, 0x72be5d74, 0x80deb1fe, 0x9bdc06a7, 0xc19bf174,
    0xe49b69c1, 0xefbe4786, 0x0fc19dc6, 0x240ca1cc, 0x2de92c6f, 0x4a7484aa, 0x5cb0a9dc, 0x76f988da,
    0x983e5152, 0xa831c66d, 0xb00327c8, 0xbf597fc7, 0xc6e00bf3, 0xd5a79147, 0x06ca6351, 0x14292967,
    0x27b70a85, 0x2e1b2138, 0x4d2c6dfc, 0x53380d13, 0x650a7354, 0x766a0abb, 0x81c2c92e, 0x92722c85,
    0xa2bfe8a1, 0xa81a664b, 0xc24b8b70, 0xc76c51a3, 0xd192e819, 0xd6990624, 0xf40e3585, 0x106aa070,
    0x19a4c116, 0x1e376c08, 0x2748774c, 0x34b0bcb5, 0x391c0cb3, 0x4ed8aa4a, 0x5b9cca4f, 0x682e6ff3,
    0x748f82ee, 0x78a5636f, 0x84c87814, 0x8cc70208, 0x90befffa, 0xa4506ceb, 0xbef9a3f7, 0xc67178f2]

/-- Turns a word to the right. -/
def rotate (word amount : UInt32) : UInt32 :=
  (word >>> amount) ||| (word <<< (32 - amount))

/-- One round: a constant and a word of the schedule are mixed in. -/
def State.mix (s : State) (constant word : UInt32) : State :=
  let choice := (s.e &&& s.f) ^^^ (~~~s.e &&& s.g)
  let majority := (s.a &&& s.b) ^^^ (s.a &&& s.c) ^^^ (s.b &&& s.c)
  let low := rotate s.e 6 ^^^ rotate s.e 11 ^^^ rotate s.e 25
  let high := rotate s.a 2 ^^^ rotate s.a 13 ^^^ rotate s.a 22
  let first := s.h + low + choice + constant + word
  ⟨first + high + majority, s.a, s.b, s.c, s.d + first, s.e, s.f, s.g⟩

/-- The word that follows the last sixteen of a schedule, of which the latest comes first. -/
def nextWord : List UInt32 → UInt32
  | [_, w2, _, _, _, _, w7, _, _, _, _, _, _, _, w15, w16] =>
    w16 + (rotate w15 7 ^^^ rotate w15 18 ^^^ (w15 >>> 3)) + w7 +
      (rotate w2 17 ^^^ rotate w2 19 ^^^ (w2 >>> 10))
  | _ => 0

/-- Goes through the rounds that are left. The window holds the words of the coming rounds, the
next one last. -/
def rounds : List UInt32 → List UInt32 → State → State
  | [], _, s => s
  | constant :: constants, window, s =>
    let word := window.getLast?.getD 0
    rounds constants ((nextWord window :: window).take 16) (s.mix constant word)

/-- The word made of four bytes, the first one the highest. -/
def word (b0 b1 b2 b3 : UInt8) : UInt32 :=
  (b0.toUInt32 <<< 24) ||| (b1.toUInt32 <<< 16) ||| (b2.toUInt32 <<< 8) ||| b3.toUInt32

/-- The words that some bytes make. -/
def wordsOf : List UInt8 → List UInt32
  | b0 :: b1 :: b2 :: b3 :: rest => word b0 b1 b2 b3 :: wordsOf rest
  | _ => []

/-- Mixes a block into the state. -/
def compress (s : State) (block : List UInt8) : State :=
  s.add (rounds roundConstants (wordsOf block).reverse s)

/-- Mixes whole blocks into the state, as far as the bound allows. -/
def compressAll : Nat → State → List UInt8 → State
  | 0, s, _ => s
  | bound + 1, s, bytes =>
    if bytes.isEmpty then s else compressAll bound (compress s (bytes.take 64)) (bytes.drop 64)

/-- The bytes of a number below 2^64, the highest first. -/
def lengthBytes (n : Nat) : List UInt8 :=
  (List.range 8).map fun i => UInt8.ofNat (n >>> (8 * (7 - i)))

/-- What follows a message of this length: a single bit, and as many zeros as bring it, together
with its length in bits, to whole blocks. -/
def padding (length : Nat) : List UInt8 :=
  0x80 :: List.replicate ((119 - length % 64) % 64) 0 ++ lengthBytes (8 * length)

/-- The bytes of a word, the highest first. -/
def bytesOf (w : UInt32) : List UInt8 :=
  [(w >>> 24).toUInt8, (w >>> 16).toUInt8, (w >>> 8).toUInt8, w.toUInt8]

/-- The digest of a message. -/
def digest (message : List UInt8) : List UInt8 :=
  let padded := message ++ padding message.length
  ((compressAll padded.length .start padded).words.map bytesOf).flatten

/-- The digit of a number below sixteen. -/
def hexDigit (n : Nat) : Char :=
  if n < 10 then Char.ofNat (48 + n) else Char.ofNat (87 + n)

/-- Bytes as pairs of digits. -/
def hex (bytes : List UInt8) : String :=
  String.ofList ((bytes.map fun b => [hexDigit (b.toNat / 16), hexDigit (b.toNat % 16)]).flatten)

/-- The digest of a message as text. -/
def hexDigest (message : List UInt8) : String := hex (digest message)

end FunctionArchive.Sha256
