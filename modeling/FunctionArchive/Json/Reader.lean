import FunctionArchive.Json.Printer
import FunctionArchive.Text.Quoted
import FunctionArchive.Text.Utf8

/-!
# Reading JSON

A strict reader over bytes. It reads in one pass and stops at the first fault, so which of two
faults is reported follows from the order of reading. A `Stop` says why reading ended and which
bytes were left; line and column are counted from those at the very end.

Besides whole values (`value`) there are the pieces from which typed documents are read: entries
of an object one by one (`entries`), elements of an array (`elements`), and `skip`, which passes
over a value that nobody wants. Skipping is laxer than reading: it knows no number range, no
surrogate pairs, no encoding and no limit on nesting.

Faults found after the fact, such as a repeated field, have no place of their own. They are settled
where the value that contains them ends.
-/

set_option autoImplicit false

namespace FunctionArchive.Json

/-- Why reading stopped. -/
inductive Cause
  | eofValue
  | eofString
  | eofObject
  | eofList
  | expectedValue
  | expectedIdent
  | expectedColon
  | expectedCommaOrBrace
  | expectedCommaOrBracket
  | keyMustBeString
  | trailingComma
  | trailingCharacters
  | invalidNumber
  | numberOutOfRange
  | invalidEscape
  | invalidCodePoint
  | loneSurrogate
  | endOfHexEscape
  | controlCharacter
  | recursionLimit
  | duplicateField (name : String)
  | missingField (name : String)
  /-- A value of another kind than expected; both are described in words. -/
  | invalidType (found expected : String)
  /-- A list that ends too early for the record that it stands for. -/
  | invalidLength (length : Nat) (expected : String)
deriving DecidableEq, Repr

/-- The wording of a cause. -/
def Cause.message : Cause → String
  | .eofValue => "EOF while parsing a value"
  | .eofString => "EOF while parsing a string"
  | .eofObject => "EOF while parsing an object"
  | .eofList => "EOF while parsing a list"
  | .expectedValue => "expected value"
  | .expectedIdent => "expected ident"
  | .expectedColon => "expected `:`"
  | .expectedCommaOrBrace => "expected `,` or `\x7d`"
  | .expectedCommaOrBracket => "expected `,` or `]`"
  | .keyMustBeString => "key must be a string"
  | .trailingComma => "trailing comma"
  | .trailingCharacters => "trailing characters"
  | .invalidNumber => "invalid number"
  | .numberOutOfRange => "number out of range"
  | .invalidEscape => "invalid escape"
  | .invalidCodePoint => "invalid unicode code point"
  | .loneSurrogate => "lone leading surrogate in hex escape"
  | .endOfHexEscape => "unexpected end of hex escape"
  | .controlCharacter => "control character (\\u0000-\\u001F) found while parsing a string"
  | .recursionLimit => "recursion limit exceeded"
  | .duplicateField name => "duplicate field `" ++ name ++ "`"
  | .missingField name => "missing field `" ++ name ++ "`"
  | .invalidType found expected => "invalid type: " ++ found ++ ", expected " ++ expected
  | .invalidLength length expected => s!"invalid length {length}, expected {expected}"

/-- A fault and the line and column at which it shows. -/
structure ReadError where
  cause : Cause
  line : Nat
  column : Nat
deriving DecidableEq, Repr

/-- The wording of a fault with its place. -/
def ReadError.message (e : ReadError) : String :=
  s!"{e.cause.message} at line {e.line} column {e.column}"

/-- Where reading stopped. -/
structure Stop where
  cause : Cause
  /-- The bytes that had not been read. -/
  unread : List UInt8
  /-- Whether the fault is the next byte and not the one before. -/
  ahead : Bool
  /-- Whether the place is final. -/
  settled : Bool

/-- A reader takes bytes from the front or stops. -/
abbrev Reader (α : Type) := List UInt8 → Except Stop (α × List UInt8)

namespace Reader

variable {α β σ : Type}

instance : Monad Reader where
  pure a := fun bytes => .ok (a, bytes)
  bind r f := fun bytes =>
    match r bytes with
    | .ok (a, rest) => f a rest
    | .error stop => .error stop

/-- Stops at the byte that has just been read. -/
def stop (cause : Cause) : Reader α :=
  fun bytes => .error ⟨cause, bytes, false, true⟩

/-- Stops at the byte that comes next. -/
def stopAhead (cause : Cause) : Reader α :=
  fun bytes => .error ⟨cause, bytes, true, true⟩

/-- Stops with a fault whose place is settled later. -/
def stopLater (cause : Cause) : Reader α :=
  fun bytes => .error ⟨cause, bytes, false, false⟩

/-! ## Bytes -/

/-- Blanks between the parts of a document. -/
def isBlank (b : UInt8) : Bool :=
  b == 0x20 || b == 0x0A || b == 0x09 || b == 0x0D

/-- Whether a byte is a decimal digit. -/
def isDigit (b : UInt8) : Bool := 0x30 ≤ b && b ≤ 0x39

/-- The next byte, which stays. -/
def peek : Reader (Option UInt8) :=
  fun bytes => .ok (bytes.head?, bytes)

/-- The next byte, which is taken. -/
def next : Reader (Option UInt8) :=
  fun bytes => .ok (bytes.head?, bytes.tail)

/-- Takes the next byte. -/
def drop : Reader Unit :=
  fun bytes => .ok ((), bytes.tail)

/-- Takes the digits at the front. -/
def takeDigits : Reader (List UInt8) :=
  fun bytes => .ok (bytes.takeWhile isDigit, bytes.dropWhile isDigit)

/-- Passes blanks and gives the byte after them, which stays. -/
def peekPart : Reader (Option UInt8) := fun bytes =>
  let rest := bytes.dropWhile isBlank
  .ok (rest.head?, rest)

/-- The code of an ASCII character. -/
def code (c : Char) : UInt8 := c.toNat.toUInt8

/-- The rest of a word whose first letter has been read. -/
def word : List Char → Reader Unit
  | [] => pure ()
  | c :: cs => do
    match ← next with
    | none => stop .eofValue
    | some b => if b == code c then word cs else stop .expectedIdent

/-! ## Strings -/

/-- The value of a hexadecimal digit. -/
def hexValue? (b : UInt8) : Option Nat :=
  if isDigit b then some (b.toNat - 0x30)
  else if 0x61 ≤ b && b ≤ 0x66 then some (b.toNat - 0x61 + 10)
  else if 0x41 ≤ b && b ≤ 0x46 then some (b.toNat - 0x41 + 10)
  else none

/-- Four hexadecimal digits. -/
def hexEscape : Reader Nat := fun bytes =>
  match bytes with
  | a :: b :: c :: d :: rest =>
    match [a, b, c, d].mapM hexValue? with
    | some digits => .ok (digits.foldl (fun n digit => n * 16 + digit) 0, rest)
    | none => stop .invalidEscape rest
  | _ => stop .eofString []

/-- The next byte of a string. -/
def stringByte : Reader UInt8 := do
  match ← next with
  | none => stop .eofString
  | some b => pure b

/-- The byte of a one-letter escape. -/
def simpleEscape? (b : UInt8) : Option UInt8 :=
  if b == code '"' || b == code '\\' || b == code '/' then some b
  else if b == code 'b' then some 0x08
  else if b == code 'f' then some 0x0C
  else if b == code 'n' then some 0x0A
  else if b == code 'r' then some 0x0D
  else if b == code 't' then some 0x09
  else none

/-- A byte that must follow the first half of a surrogate pair. -/
def expectInPair (c : Char) : Reader Unit := do
  match ← peek with
  | none => stop .eofString
  | some b => do
    drop
    if b == code c then pure () else stop .endOfHexEscape

/-- A character given by its code, as one or two escapes of sixteen bits. -/
def unicodeEscape : Reader Char := do
  let high ← hexEscape
  if 0xDC00 ≤ high && high ≤ 0xDFFF then stop .loneSurrogate
  else if high < 0xD800 || 0xDBFF < high then pure (Char.ofNat high)
  else do
    expectInPair '\\'
    expectInPair 'u'
    let low ← hexEscape
    if low < 0xDC00 || 0xDFFF < low then stop .loneSurrogate
    else pure (Char.ofNat ((high - 0xD800) * 1024 + (low - 0xDC00) + 0x10000))

/-- The bytes of an escape whose backslash has been read. -/
def escape : Reader (List UInt8) := do
  let b ← stringByte
  if b == code 'u' then return Utf8.encode (← unicodeEscape).toString
  match simpleEscape? b with
  | some byte => return [byte]
  | none => stop .invalidEscape

/-- The bytes of a string up to its closing quote; `taken` holds those read, the last first. The
bound is the number of bytes left. -/
def stringBytes : Nat → List UInt8 → Reader (List UInt8)
  | 0, _ => stop .eofString
  | bound + 1, taken => do
    match ← peek with
    | none => stop .eofString
    | some b => do
      drop
      if b == code '"' then return taken.reverse
      else if b == code '\\' then do
        let bytes ← escape
        stringBytes bound (bytes.reverse ++ taken)
      else if b < 0x20 then stop .controlCharacter
      else stringBytes bound (b :: taken)

/-- A string whose opening quote has been read. -/
def string : Reader String := do
  let bytes ← fun bytes => stringBytes (bytes.length + 1) [] bytes
  match Utf8.decode? bytes with
  | some text => pure text
  | none => stop .invalidCodePoint

/-- Passes over an escape. -/
def skipEscape : Reader Unit := do
  let b ← stringByte
  if b == code 'u' then do
    let _ ← hexEscape
    pure ()
  else if (simpleEscape? b).isSome then pure ()
  else stop .invalidEscape

/-- Passes over a string whose opening quote has been read. -/
def skipStringBytes : Nat → Reader Unit
  | 0 => stop .eofString
  | bound + 1 => do
    match ← peek with
    | none => stop .eofString
    | some b =>
      if b == code '"' then drop
      else if b == code '\\' then do
        drop
        skipEscape
        skipStringBytes bound
      else if b < 0x20 then stop .controlCharacter
      else do
        drop
        skipStringBytes bound

/-- Passes over a string whose opening quote has been read. -/
def skipString : Reader Unit :=
  fun bytes => skipStringBytes (bytes.length + 1) bytes

/-! ## Numbers -/

/-- The first whole number that does not fit in 64 bits. -/
def wholeBound : Nat := 18446744073709551616

/-- The digits that fit in 64 bits, and the number of those that do not. -/
def fitDigits : Nat → List UInt8 → Nat × Nat
  | value, [] => (value, 0)
  | value, b :: rest =>
    let more := value * 10 + (b.toNat - 0x30)
    if more < wholeBound then fitDigits more rest else (value, rest.length + 1)

/-- `significand · 10^exponent` as a double: the significand is rounded first and scaled by one
power of ten, in steps of 308 below the smallest. The bound is the number of steps. -/
def scale : Nat → Float → Int → Option Float
  | 0, x, _ => some x
  | bound + 1, x, exponent =>
    if exponent.natAbs ≤ 308 then
      let power := Float.ofScientific 1 false exponent.natAbs
      if 0 ≤ exponent then
        let scaled := x * power
        if scaled.isInf then none else some scaled
      else some (x / power)
    else if x == 0.0 then some x
    else if 0 ≤ exponent then none
    else scale bound (x / 1e308) (exponent + 308)

/-- A double from its decimal parts. -/
def double (negative : Bool) (significand : Nat) (exponent : Int) : Reader JsonNumber :=
  match scale (exponent.natAbs / 308 + 2) significand.toUInt64.toFloat exponent with
  | some x => pure (.double (if negative then -x else x))
  | none => stop .numberOutOfRange

/-- An exponent, from its letter on. -/
def exponentPart (negative : Bool) (significand : Nat) (start : Int) : Reader JsonNumber := do
  drop
  let below ← do
    match ← peek with
    | some b =>
      if b == code '+' then do
        drop
        pure false
      else if b == code '-' then do
        drop
        pure true
      else pure false
    | none => pure false
  match ← next with
  | none => stop .eofValue
  | some b =>
    if !isDigit b then stop .invalidNumber
    else fun bytes =>
      let digits := b :: bytes.takeWhile isDigit
      let fits := (List.range (digits.length + 1)).reverse.find? fun n =>
        (digits.take n).foldl (fun v d => v * 10 + (d.toNat - 0x30)) 0 ≤ 2147483647
      if fits == some digits.length then
        let size : Int := digits.foldl (fun v d => v * 10 + (d.toNat - 0x30)) (0 : Nat)
        double negative significand (if below then start - size else start + size)
          (bytes.dropWhile isDigit)
      else if significand != 0 && !below then
        stop .numberOutOfRange (bytes.drop (fits.getD 0))
      else
        .ok (.double (if negative then -0.0 else 0.0), bytes.dropWhile isDigit)

/-- Whether an exponent follows. -/
def exponentFollows : Reader Bool := do
  match ← peek with
  | some b => pure (b == code 'e' || b == code 'E')
  | none => pure false

/-- A fraction, from its point on, and an exponent if one follows. -/
def fractionPart (negative : Bool) (significand : Nat) (start : Int) : Reader JsonNumber := do
  drop
  let digits ← takeDigits
  if digits.isEmpty then
    match ← peek with
    | some _ => stopAhead .invalidNumber
    | none => stopAhead .eofValue
  else
    let (value, unfit) := fitDigits significand digits
    let exponent := start - ((digits.length - unfit : Nat) : Int)
    if ← exponentFollows then exponentPart negative value exponent
    else double negative value exponent

/-- What may follow the whole part of a number. -/
def afterWhole (negative : Bool) (value unfit : Nat) : Reader JsonNumber := do
  match ← peek with
  | some b =>
    if b == code '.' then fractionPart negative value unfit
    else if b == code 'e' || b == code 'E' then exponentPart negative value unfit
    else whole
  | none => whole
where
  whole : Reader JsonNumber :=
    if unfit > 0 then double negative value unfit
    else if !negative then pure (.natural value)
    else if value == 0 || value > 9223372036854775808 then
      pure (.double (-value.toUInt64.toFloat))
    else pure (.negative value)

/-- A number whose sign has been read. -/
def number (negative : Bool) : Reader JsonNumber := do
  match ← next with
  | none => stop .eofValue
  | some b =>
    if b == code '0' then do
      match ← peek with
      | some d => if isDigit d then stopAhead .invalidNumber else afterWhole negative 0 0
      | none => afterWhole negative 0 0
    else if isDigit b then do
      let digits ← takeDigits
      let (value, unfit) := fitDigits 0 (b :: digits)
      afterWhole negative value unfit
    else stop .invalidNumber

/-- Passes over an exponent, from its letter on. -/
def skipExponent : Reader Unit := do
  drop
  match ← peek with
  | some b => if b == code '+' || b == code '-' then drop else pure ()
  | none => pure ()
  match ← next with
  | some b =>
    if isDigit b then do
      let _ ← takeDigits
      pure ()
    else stop .invalidNumber
  | none => stop .invalidNumber

/-- Passes over a number whose sign has been read. -/
def skipNumber : Reader Unit := do
  match ← next with
  | none => stop .invalidNumber
  | some b =>
    if b == code '0' then
      match ← peek with
      | some d => if isDigit d then stopAhead .invalidNumber else pure ()
      | none => pure ()
    else if isDigit b then do
      let _ ← takeDigits
      pure ()
    else stop .invalidNumber
  match ← peek with
  | some b =>
    if b == code '.' then do
      drop
      let digits ← takeDigits
      if digits.isEmpty then stopAhead .invalidNumber
      else if ← exponentFollows then skipExponent
      else pure ()
    else if b == code 'e' || b == code 'E' then skipExponent
    else pure ()
  | none => pure ()

/-! ## Objects and arrays -/

/-- The colon between a key and its value. -/
def colon : Reader Unit := do
  match ← peekPart with
  | none => stopAhead .eofObject
  | some b => if b == code ':' then drop else stopAhead .expectedColon

/-- Whether another key follows; its opening quote stays. -/
def hasKey (first : Bool) : Reader Bool := do
  match ← peekPart with
  | none => stopAhead .eofObject
  | some b =>
    if b == code '}' then pure false
    else if first then
      if b == code '"' then pure true else stopAhead .keyMustBeString
    else if b == code ',' then do
      drop
      match ← peekPart with
      | none => stopAhead .eofValue
      | some b =>
        if b == code '"' then pure true
        else if b == code '}' then stopAhead .trailingComma
        else stopAhead .keyMustBeString
    else stopAhead .expectedCommaOrBrace

/-- Whether another element follows. -/
def hasElement (first : Bool) : Reader Bool := do
  match ← peekPart with
  | none => stopAhead .eofList
  | some b =>
    if b == code ']' then pure false
    else if first then pure true
    else if b == code ',' then do
      drop
      match ← peekPart with
      | none => stopAhead .eofValue
      | some b => if b == code ']' then stopAhead .trailingComma else pure true
    else stopAhead .expectedCommaOrBracket

/-- The end of an object. -/
def endObject : Reader Unit := do
  match ← peekPart with
  | none => stopAhead .eofObject
  | some b =>
    if b == code '}' then drop
    else if b == code ',' then stopAhead .trailingComma
    else stopAhead .trailingCharacters

/-- The end of an array. -/
def endArray : Reader Unit := do
  match ← peekPart with
  | none => stopAhead .eofList
  | some b =>
    if b == code ']' then drop
    else if b == code ',' then do
      drop
      match ← peekPart with
      | some b => if b == code ']' then stopAhead .trailingComma else stopAhead .trailingCharacters
      | none => stopAhead .trailingCharacters
    else stopAhead .trailingCharacters

/-- Runs `body` and then the end of the container. A fault without a place is settled after the
end, as far as the end can be read. -/
def closedBy (finish : Reader Unit) (body : Reader α) : Reader α := fun bytes =>
  match body bytes with
  | .ok (a, rest) =>
    match finish rest with
    | .ok (_, rest) => .ok (a, rest)
    | .error stop => .error stop
  | .error stop =>
    if stop.settled then .error stop
    else
      match finish stop.unread with
      | .ok (_, rest) => .error { stop with unread := rest, settled := true }
      | .error failed => .error { stop with unread := failed.unread, settled := true }

/-- The entries of an object whose brace has been read. Each key is read and handed to `step`
together with what has been gathered; `step` reads the rest of the entry. -/
def entriesFrom (step : Nat → σ → String → Reader σ) : Nat → Bool → σ → Reader σ
  | 0, _, _ => stop .recursionLimit
  | bound + 1, first, gathered => do
    if ← hasKey first then do
      drop
      let key ← string
      let gathered ← step bound gathered key
      entriesFrom step bound false gathered
    else pure gathered

/-- The elements of an array whose bracket has been read. -/
def elementsFrom (step : Nat → σ → Reader σ) : Nat → Bool → σ → Reader σ
  | 0, _, _ => stop .recursionLimit
  | bound + 1, first, gathered => do
    if ← hasElement first then do
      let gathered ← step bound gathered
      elementsFrom step bound false gathered
    else pure gathered

/-- An object, from its brace on. `bound` limits the entries and `depth` the nesting left. -/
def object (bound depth : Nat) (step : Nat → σ → String → Reader σ) (start : σ) : Reader σ := do
  if depth ≤ 1 then stopAhead .recursionLimit
  else do
    drop
    closedBy endObject (entriesFrom step bound true start)

/-- An array, from its bracket on. -/
def array (bound depth : Nat) (step : Nat → σ → Reader σ) (start : σ) : Reader σ := do
  if depth ≤ 1 then stopAhead .recursionLimit
  else do
    drop
    closedBy endArray (elementsFrom step bound true start)

/-! ## Values -/

/-- A whole value. `bound` exceeds the number of bytes left, so that it never ends the reading. -/
def value : Nat → Nat → Reader Json
  | 0, _ => stop .recursionLimit
  | bound + 1, depth => do
    match ← peekPart with
    | none => stopAhead .eofValue
    | some b =>
      if b == code 'n' then do
        drop
        word ['u', 'l', 'l']
        pure .null
      else if b == code 't' then do
        drop
        word ['r', 'u', 'e']
        pure (.bool true)
      else if b == code 'f' then do
        drop
        word ['a', 'l', 's', 'e']
        pure (.bool false)
      else if b == code '-' then do
        drop
        return .number (← number true)
      else if isDigit b then return .number (← number false)
      else if b == code '"' then do
        drop
        return .string (← string)
      else if b == code '[' then do
        if depth ≤ 1 then stopAhead .recursionLimit
        else do
          drop
          let items ← closedBy endArray (items bound (depth - 1) true [])
          return .array items.reverse
      else if b == code '{' then do
        if depth ≤ 1 then stopAhead .recursionLimit
        else do
          drop
          let entries ← closedBy endObject (fields bound (depth - 1) true [])
          return .object (merge entries.reverse)
      else stopAhead .expectedValue
where
  /-- The items of an array, the last first. -/
  items : Nat → Nat → Bool → List Json → Reader (List Json)
    | 0, _, _, _ => stop .recursionLimit
    | bound + 1, depth, first, taken => do
      if ← hasElement first then do
        let item ← value bound depth
        items bound depth false (item :: taken)
      else pure taken
  /-- The fields of an object, the last first. -/
  fields : Nat → Nat → Bool → List (String × Json) → Reader (List (String × Json))
    | 0, _, _, _ => stop .recursionLimit
    | bound + 1, depth, first, taken => do
      if ← hasKey first then do
        drop
        let key ← string
        colon
        let item ← value bound depth
        fields bound depth false ((key, item) :: taken)
      else pure taken
  /-- Entries in order of first appearance with the last value of each key. -/
  merge (entries : List (String × Json)) : List (String × Json) :=
    entries.foldl (fun out (key, item) => setEntry out key item) []

/-- Passes over a value. -/
def skip : Nat → Reader Unit
  | 0 => stop .recursionLimit
  | bound + 1 => do
    match ← peekPart with
    | none => stopAhead .eofValue
    | some b =>
      if b == code 'n' then do
        drop
        word ['u', 'l', 'l']
      else if b == code 't' then do
        drop
        word ['r', 'u', 'e']
      else if b == code 'f' then do
        drop
        word ['a', 'l', 's', 'e']
      else if b == code '-' then do
        drop
        skipNumber
      else if isDigit b then skipNumber
      else if b == code '"' then do
        drop
        skipString
      else if b == code '[' then do
        drop
        items bound true
      else if b == code '{' then do
        drop
        fields bound true
      else stopAhead .expectedValue
where
  /-- The items of an array and its bracket. A comma must be followed by an item. -/
  items : Nat → Bool → Reader Unit
    | 0, _ => stop .recursionLimit
    | bound + 1, first => do
      match ← peekPart with
      | none => stopAhead .eofList
      | some b =>
        if b == code ']' then drop
        else if first then do
          skip bound
          items bound false
        else if b == code ',' then do
          drop
          skip bound
          items bound false
        else stopAhead .expectedCommaOrBracket
  /-- The fields of an object and its brace. -/
  fields : Nat → Bool → Reader Unit
    | 0, _ => stop .recursionLimit
    | bound + 1, first => do
      match ← peekPart with
      | none => stopAhead .eofObject
      | some b =>
        if b == code '}' then drop
        else do
          if first then pure ()
          else if b == code ',' then drop
          else stopAhead .expectedCommaOrBrace
          match ← peekPart with
          | none => stopAhead .eofObject
          | some b => if b == code '"' then drop else stopAhead .keyMustBeString
          skipString
          match ← peekPart with
          | none => stopAhead .eofObject
          | some b => if b == code ':' then drop else stopAhead .expectedColon
          skip bound
          fields bound false

/-! ## Values of an expected kind -/

/-- The words for a number that stands in the place of something else. -/
def describeNumber : JsonNumber → String
  | .natural n => s!"integer `{n}`"
  | .negative n => s!"integer `-{n}`"
  | .double x => "floating point `" ++ JsonNumber.renderDouble x ++ "`"

/-- Stops because the value in front is not of the expected kind. A scalar is read to its end
first, and a fault inside it comes before its kind. -/
def unexpected (expected : String) : Reader α := do
  let refuse (found : String) : Reader α := stop (.invalidType found expected)
  match ← peekPart with
  | none => stopAhead .eofValue
  | some b =>
    if b == code 'n' then do
      drop
      word ['u', 'l', 'l']
      refuse "null"
    else if b == code 't' then do
      drop
      word ['r', 'u', 'e']
      refuse "boolean `true`"
    else if b == code 'f' then do
      drop
      word ['a', 'l', 's', 'e']
      refuse "boolean `false`"
    else if b == code '-' then do
      drop
      refuse (describeNumber (← number true))
    else if isDigit b then refuse (describeNumber (← number false))
    else if b == code '"' then do
      drop
      refuse ("string " ++ Text.quote (← string))
    else if b == code '[' then refuse "sequence"
    else if b == code '{' then refuse "map"
    else stopAhead .expectedValue

/-- Nothing but blanks may be left. -/
def endDocument : Reader Unit := do
  match ← peekPart with
  | none => pure ()
  | some _ => stopAhead .trailingCharacters

/-! ## Documents -/

/-- The deepest nesting of arrays and objects that is read. -/
def nestingLimit : Nat := 128

/-- The line and column of a number of bytes read. -/
def place (bytes : List UInt8) (read : Nat) : Nat × Nat :=
  let before := bytes.take read
  let lineBreak := code '\n'
  (1 + before.count lineBreak, (before.reverse.takeWhile (· != lineBreak)).length)

/-- Reads a whole document. The reader is given a bound that exceeds the number of bytes. -/
def run (document : Nat → Reader α) (bytes : List UInt8) : Except ReadError α :=
  let reader : Reader α := do
    let a ← document (bytes.length + 2)
    endDocument
    pure a
  match reader bytes with
  | .ok (a, _) => .ok a
  | .error stop =>
    let read := bytes.length - stop.unread.length
    let read := if stop.ahead then min bytes.length (read + 1) else read
    let (line, column) := place bytes read
    .error ⟨stop.cause, line, column⟩

end Reader

end FunctionArchive.Json
