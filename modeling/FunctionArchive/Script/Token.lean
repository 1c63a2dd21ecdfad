import FunctionArchive.Text.IdentifierChars

/-!
# Tokens of scripts

A token is read from a position of the source: first what separates tokens is passed over, then
the longest token that starts there is taken. Whether a slash divides or opens a regular
expression, and how the text of a template or of markup goes on, depends on where the token
stands, so those are read by the parser through `regexStop` and `templatePiece`.

Malformed text makes a token too, one that fits nowhere and remembers what to blame. The reader is
generous where the fault cannot change the meaning: a string may end with its line, and a comment
with the source.
-/

set_option autoImplicit false

namespace FunctionArchive.Script

/-- What a token is. -/
inductive Kind
  /-- A name or a key word. -/
  | word (text : String)
  /-- A word with an escape behind its first character. It is malformed where the word is
  reserved. -/
  | escapedWord (text : String)
  /-- A word whose first character is an escape or no letter of ASCII. It is never a key word. -/
  | name (text : String)
  | number
  | text (value : String)
  /-- Punctuation; a backquote opens a template. -/
  | mark (text : String)
  /-- The end of the source. -/
  | finish
  /-- Malformed text and the position to blame for it. -/
  | fault (position : Nat)
deriving DecidableEq, Repr, Inhabited

/-- Whether a token is a text in quotes. -/
def Kind.isText : Kind → Bool
  | .text _ => true
  | _ => false

/-- A token and the stretch of the source that it covers. A comment in the form that pages of markup
hide scripts with belongs to the token behind it. -/
structure Token where
  kind : Kind
  start : Nat
  stop : Nat
  /-- Whether a line ends between the previous token and this one. The end of the source ends
  one. -/
  newLine : Bool
deriving Repr, Inhabited

namespace Token

/-! ## Characters -/

/-- Whether a character ends a line. -/
def endsLine (c : Char) : Bool :=
  c == '\n' || c == '\r' || c == '\u2028' || c == '\u2029'

/-- Whether a character separates tokens within a line. -/
def isSpace (c : Char) : Bool :=
  c == ' ' || c == '\t' || c == '\x0b' || c == '\x0c' || c == '\u00a0' || c == '\ufeff' ||
    c == '\u1680' || ('\u2000' ≤ c && c ≤ '\u200a') || c == '\u202f' || c == '\u205f' ||
    c == '\u3000'

/-- The value of a hexadecimal digit. -/
def hexDigit? (c : Char) : Option Nat :=
  if '0' ≤ c && c ≤ '9' then some (c.toNat - '0'.toNat)
  else if 'a' ≤ c && c ≤ 'f' then some (c.toNat - 'a'.toNat + 10)
  else if 'A' ≤ c && c ≤ 'F' then some (c.toNat - 'A'.toNat + 10)
  else none

/-- Whether the source goes on with this text. -/
def hasText (source : Array Char) (i : Nat) (text : List Char) : Bool :=
  (source.extract i (i + text.length)).toList == text

/-- The first position from `i` on whose character fails the test. -/
def passWhile (source : Array Char) (test : Char → Bool) (i : Nat) : Nat :=
  if h : i < source.size then
    if test source[i] then passWhile source test (i + 1) else i
  else i
termination_by source.size - i

/-- The first position from `i` on at which the text stands, or the end of the source. -/
def find (source : Array Char) (text : List Char) (i : Nat) : Nat :=
  if i < source.size then
    if hasText source i text then i else find source text (i + 1)
  else source.size
termination_by source.size - i

/-- The line of a position; the first line is 1. No line starts at the end of the source. -/
def lineAt (source : Array Char) (position : Nat) : Nat :=
  (List.range (min position (source.size - 1))).foldl (fun line i =>
    match source[i]? with
    | some '\n' => line + 1
    | some '\r' => if source[i + 1]? == some '\n' then line else line + 1
    | _ => line) 1

/-! ## What separates tokens -/

/-- Passes over blanks and comments. Gives the position behind them and whether a line ended before
it. Each round passes at least one character. -/
def passBlanks (source : Array Char) : Nat → Nat → Bool → Nat × Bool
  | 0, i, newLine => (i, newLine)
  | rounds + 1, i, newLine =>
    match source[i]? with
    | none => (i, newLine)
    | some c =>
      if isSpace c then passBlanks source rounds (i + 1) newLine
      else if endsLine c then passBlanks source rounds (i + 1) true
      else if hasText source i ['/', '/'] ||
          (hasText source i ['#', '!'] && (i == 0 || (i == 1 && source[0]? == some '\ufeff'))) then
        passBlanks source rounds (passWhile source (!endsLine ·) i) newLine
      else if hasText source i ['/', '*'] then
        let stop := find source ['*', '/'] (i + 2)
        let crossed := (source.extract i stop).any endsLine
        passBlanks source rounds (min (stop + 2) source.size) (newLine || crossed)
      else (i, newLine)

/-- Passes over comments in the form that pages of markup hide scripts with, and over what separates
tokens behind them. -/
def passHidden (source : Array Char) : Nat → Nat → Bool → Nat × Bool
  | 0, i, newLine => (i, newLine)
  | rounds + 1, i, newLine =>
    if hasText source i ['<', '!', '-', '-'] || (newLine && hasText source i ['-', '-', '>']) then
      let (i, newLine) :=
        passBlanks source (source.size - i + 1) (passWhile source (!endsLine ·) i) newLine
      passHidden source rounds i newLine
    else (i, newLine)

/-! ## Escapes -/

/-- A number of exactly `count` hexadecimal digits at `i`. -/
def hexNumber? (source : Array Char) : Nat → Nat → Nat → Option Nat
  | 0, _, value => some value
  | count + 1, i, value => do
    let digit ← hexDigit? (← source[i]?)
    hexNumber? source count (i + 1) (value * 16 + digit)

/-- The code point of a Unicode escape whose `u` stands before `i`, and the position after it. -/
def codePoint? (source : Array Char) (i : Nat) : Option (Nat × Nat) :=
  if source[i]? == some '{' then
    let stop := passWhile source (fun c => (hexDigit? c).isSome) (i + 1)
    if stop == i + 1 || source[stop]? != some '}' then none
    else do
      let value ← hexNumber? source (stop - (i + 1)) (i + 1) 0
      if value ≤ 0x10FFFF then some (value, stop + 1) else none
  else do
    let value ← hexNumber? source 4 i 0
    some (value, i + 4)

/-- Whether a code point is no character by itself. -/
def isSurrogate (n : Nat) : Bool :=
  0xD800 ≤ n && n ≤ 0xDFFF

/-- The characters that a Unicode escape stands for. Half a surrogate pair keeps its spelling. -/
def unicodeEscape? (source : Array Char) (i : Nat) : Option (List Char × Nat) := do
  let (value, stop) ← codePoint? source i
  if isSurrogate value then some ('\\' :: 'u' :: (source.extract i stop).toList, stop)
  else some ([Char.ofNat value], stop)

/-- Whether a character is an octal digit. -/
def isOctal (c : Char) : Bool :=
  '0' ≤ c && c ≤ '7'

/-- An octal escape at `i`: at most three digits, and at most 255. -/
def octalEscape (source : Array Char) (i : Nat) : List Char × Nat :=
  let digits := ((source.extract i (i + 3)).toList.takeWhile isOctal).map
    (·.toNat - '0'.toNat)
  let value := digits.foldl (· * 8 + ·) 0
  if 255 < value then ([Char.ofNat (value / 8)], i + 2)
  else ([Char.ofNat value], i + digits.length)

/-- What the escape with this character after its backslash, at `i`, stands for, and the position
after it. A template allows no octal escapes. -/
def escape? (source : Array Char) (template : Bool) (i : Nat) (c : Char) :
    Option (List Char × Nat) :=
  match c with
  | 'n' => some (['\n'], i + 1)
  | 't' => some (['\t'], i + 1)
  | 'r' => some (['\r'], i + 1)
  | 'b' => some (['\x08'], i + 1)
  | 'f' => some (['\x0c'], i + 1)
  | 'v' => some (['\x0b'], i + 1)
  | 'x' => do
    let value ← hexNumber? source 2 (i + 1) 0
    some ([Char.ofNat value], i + 3)
  | 'u' => unicodeEscape? source (i + 1)
  | '\r' => some ([], if source[i + 1]? == some '\n' then i + 2 else i + 1)
  | '\n' | '\u2028' | '\u2029' => some ([], i + 1)
  | _ =>
    if !isOctal c then some ([c], i + 1)
    else if c == '0' && !(source[i + 1]?.any isOctal) then some (['\x00'], i + 1)
    else if template then none
    else some (octalEscape source i)

/-! ## Names, strings and numbers -/

/-- The rest of a name at `i`, after the characters already read, the last one first. Which
characters an escape may stand for is not asked. -/
def nameFrom (source : Array Char) : Nat → Nat → List Char → Option (List Char × Nat)
  | 0, i, passed => some (passed.reverse, i)
  | rounds + 1, i, passed =>
    match source[i]? with
    | some '\\' =>
      if source[i + 1]? != some 'u' then none
      else do
        let (chars, stop) ← unicodeEscape? source (i + 2)
        nameFrom source rounds stop (chars.reverse ++ passed)
    | some c =>
      if Text.continuesIdentifier c then nameFrom source rounds (i + 1) (c :: passed)
      else some (passed.reverse, i)
    | none => some (passed.reverse, i)

/-- The name at `i`, which starts with the character `c`, and the position after it. -/
def nameAt (source : Array Char) (i : Nat) (c : Char) : Kind × Nat :=
  match nameFrom source (source.size - i) i [] with
  | none => (.fault i, i + 1)
  | some (chars, stop) =>
    let text := String.ofList chars
    if !c.isAlpha then (.name text, stop)
    else if (source.extract i stop).contains '\\' then (.escapedWord text, stop)
    else (.word text, stop)

/-- The rest of a string up to its quote, or the position of a malformed escape in it. A string that
is not closed ends with its line. -/
def textFrom (source : Array Char) (quote : Char) :
    Nat → Nat → List Char → Except Nat (List Char × Nat)
  | 0, i, passed => .ok (passed.reverse, i)
  | rounds + 1, i, passed =>
    match source[i]? with
    | none => .ok (passed.reverse, i)
    | some c =>
      if c == quote then .ok (passed.reverse, i + 1)
      else if c == '\n' || c == '\r' then .ok (passed.reverse, i)
      else if c == '\\' then
        match source[i + 1]? with
        | none => .error i
        | some e =>
          match escape? source false (i + 1) e with
          | none => .error i
          | some (chars, stop) => textFrom source quote rounds stop (chars.reverse ++ passed)
      else textFrom source quote rounds (i + 1) (c :: passed)

/-- Whether a character belongs to the digits of a base; digits may be grouped. -/
def isDigitOf (base : Nat) (c : Char) : Bool :=
  c == '_' || (hexDigit? c).any (· < base)

/-- The position after the digits of a base. Without any, it is known where they should start. -/
def digits (source : Array Char) (base i : Nat) : Except Nat Nat :=
  let stop := passWhile source (isDigitOf base) i
  if stop == i then .error i else .ok stop

/-- The position after the exponent at `i`; without an `e` there is none to pass. -/
def exponent (source : Array Char) (i : Nat) : Except Nat Nat :=
  if source[i]?.any (fun c => c == 'e' || c == 'E') then
    let signed := source[i + 1]?.any fun c => c == '+' || c == '-'
    digits source 10 (if signed then i + 2 else i + 1)
  else .ok i

/-- The position after the decimal number at `i`. A number with a leading zero is octal if all its
digits are, and then has neither fraction nor exponent. -/
def decimal (source : Array Char) (i : Nat) : Except Nat Nat :=
  let whole := passWhile source (isDigitOf 10) i
  let digits := (source.extract i whole).toList
  if source[whole]? == some 'n' then .ok (whole + 1)
  else if digits.length > 1 && digits.head? == some '0' && digits.all (isDigitOf 8) then .ok whole
  else if source[whole]? == some '.' then
    exponent source (passWhile source (isDigitOf 10) (whole + 1))
  else exponent source whole

/-- The position after the number at `i`, or after the part of it that is well-formed. No name may
follow directly, except behind the `n` of a number that has no limits. -/
def number (source : Array Char) (i : Nat) : Except Nat Nat := do
  let based (base : Nat) : Except Nat Nat := do
    let stop ← digits source base (i + 2)
    return if source[stop]? == some 'n' then stop + 1 else stop
  let stop ← if source[i]? != some '0' then decimal source i
    else match source[i + 1]? with
      | some 'x' | some 'X' => based 16
      | some 'o' | some 'O' => based 8
      | some 'b' | some 'B' => based 2
      | _ => decimal source i
  if source[stop - 1]? != some 'n' && source[stop]?.any Text.startsIdentifier then .error stop
  else .ok stop

/-! ## Punctuation -/

/-- The punctuation marks, longer ones before those that they start with. -/
def marks : List (List Char) :=
  [">>>=", "...", "===", "!==", "**=", "<<=", ">>=", ">>>", "&&=", "||=", "??=", "=>", "==", "!=",
    "<=", ">=", "&&", "||", "??", "++", "--", "+=", "-=", "*=", "/=", "%=", "&=", "|=", "^=",
    "<<", ">>", "**", "\x7b", "\x7d", "(", ")", "[", "]", ";", ",", "<", ">", "+", "-", "*", "/",
    "%", "&", "|", "^", "!", "~", "?", ":", "=", "@", "#", "`", "."].map String.toList

/-- The mark at `i`. -/
def mark? (source : Array Char) (i : Nat) : Option (List Char) :=
  (marks.filter fun m => m.head? == source[i]?).find? (hasText source i)

/-! ## Tokens -/

/-- The kind of the token at `i`, where a character stands that separates no tokens, and the
position after the token. -/
def kindAt (source : Array Char) (i : Nat) (c : Char) : Kind × Nat :=
  if c.isDigit || (c == '.' && source[i + 1]?.any Char.isDigit) then
    match number source i with
    | .ok stop => (.number, stop)
    | .error stop => (.fault i, stop)
  else if c == '\'' || c == '"' then
    match textFrom source c (source.size - i) (i + 1) [] with
    | .ok (chars, stop) => (.text (String.ofList chars), stop)
    | .error position => (.fault position, position + 1)
  else if c == '\\' || Text.startsIdentifier c then nameAt source i c
  else
    match mark? source i with
    | some m => (.mark (String.ofList m), i + m.length)
    | none => (.fault i, i + 1)

/-- The first token from `i` on. -/
def read (source : Array Char) (i : Nat) : Token :=
  let (start, newLine) := passBlanks source (source.size - i + 1) i (i == 0)
  let (head, newLine) := passHidden source (source.size - start + 1) start newLine
  match source[head]? with
  | none => ⟨.finish, head, head, true⟩
  | some c =>
    let (kind, stop) := kindAt source head c
    ⟨kind, start, stop, newLine⟩

/-! ## Text that depends on its place -/

/-- The position after a regular expression whose first slash stands before `i`, its flags
included. A slash between brackets does not close it, and it may not leave its line. -/
def regexStop (source : Array Char) : Nat → Nat → Bool → Option Nat
  | 0, _, _ => none
  | rounds + 1, i, bracketed =>
    match source[i]? with
    | none => none
    | some c =>
      if endsLine c then none
      else if c == '\\' then
        if source[i + 1]?.any endsLine then none
        else regexStop source rounds (i + 2) bracketed
      else if c == '[' then regexStop source rounds (i + 1) true
      else if c == ']' then regexStop source rounds (i + 1) false
      else if c == '/' && !bracketed then
        match source[i + 1]? with
        | some f =>
          if Text.startsIdentifier f then some (passWhile source Text.continuesIdentifier (i + 1))
          else some (i + 1)
        | none => some (i + 1)
      else regexStop source rounds (i + 1) bracketed

/-- A piece of the text of a template. -/
structure Piece where
  /-- Its value, or the position of the last malformed escape in it. -/
  value : Except Nat (List Char)
  /-- The position after what ends the piece. -/
  stop : Nat
  /-- Whether the template ends here; otherwise a value follows. -/
  closed : Bool

/-- The piece of a template from `i` on, after the characters already read, the last one first. A
template that is not closed has none. Every line ends with the same character in the value. -/
def templatePiece? (source : Array Char) : Nat → Nat → Except Nat (List Char) → Option Piece
  | 0, _, _ => none
  | rounds + 1, i, passed =>
    match source[i]? with
    | none => none
    | some '\x60' => some ⟨passed.map List.reverse, i + 1, true⟩
    | some '\r' =>
      if source[i + 1]? == some '\n' then templatePiece? source rounds (i + 1) passed
      else templatePiece? source rounds (i + 1) (passed.map ('\n' :: ·))
    | some '\\' =>
      match source[i + 1]? with
      | none => none
      | some e =>
        match escape? source true (i + 1) e with
        | none => templatePiece? source rounds (i + 2) (.error i)
        | some (chars, stop) =>
          templatePiece? source rounds stop (passed.map (chars.reverse ++ ·))
    | some '$' =>
      if source[i + 1]? == some '{' then some ⟨passed.map List.reverse, i + 2, false⟩
      else templatePiece? source rounds (i + 1) (passed.map ('$' :: ·))
    | some c => templatePiece? source rounds (i + 1) (passed.map (c :: ·))

end Token

end FunctionArchive.Script
