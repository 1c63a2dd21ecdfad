import FunctionArchive.Json.Reader
import Mathlib.Data.List.Nodup

/-!
# Spellings of JSON values

One value can be written in many ways: with blanks between its parts, with characters as they are or
escaped, and with numbers in positional or exponent notation. A `Spelling` is a value as it is
written; every spelling is well formed, since its parts carry what the grammar asks of them. It has
a text (`text`), which is what a reader is given, and a value (`value?`), which is what the text
stands for. Only a number that leaves the range of doubles while it is scaled has none.

An object has each of its keys once, also where one is written twice (`Spelling.nodup_of_value?`),
so that looking up a key finds its entry (`entry?_eq_some_iff`).
-/

set_option autoImplicit false

namespace FunctionArchive.Json

open Reader (code)

/-! ## Blanks -/

/-- A blank between the parts of a document. -/
inductive Blank
  | space
  | tab
  | lineFeed
  | carriageReturn
deriving DecidableEq, Repr

def Blank.byte : Blank → UInt8
  | .space => 0x20
  | .tab => 0x09
  | .lineFeed => 0x0A
  | .carriageReturn => 0x0D

/-- The text of some blanks. -/
def blanks (run : List Blank) : List UInt8 := run.map Blank.byte

/-! ## Strings -/

/-- A hexadecimal digit, in capitals or not. -/
structure HexDigit where
  value : Fin 16
  capital : Bool

def HexDigit.byte (d : HexDigit) : UInt8 :=
  if d.value.val < 10 then .ofNat (0x30 + d.value)
  else if d.capital then .ofNat (0x37 + d.value)
  else .ofNat (0x57 + d.value)

/-- Four hexadecimal digits. -/
structure HexCode where
  first : HexDigit
  second : HexDigit
  third : HexDigit
  fourth : HexDigit

namespace HexCode

def value (c : HexCode) : Nat :=
  ((c.first.value.val * 16 + c.second.value) * 16 + c.third.value) * 16 + c.fourth.value

def text (c : HexCode) : List UInt8 :=
  [c.first.byte, c.second.byte, c.third.byte, c.fourth.byte]

end HexCode

/-- An escape of one letter. -/
inductive Escape
  | quote
  | backslash
  | slash
  | backspace
  | formFeed
  | lineFeed
  | carriageReturn
  | tab

namespace Escape

def letter : Escape → UInt8
  | .quote => code '"'
  | .backslash => code '\\'
  | .slash => code '/'
  | .backspace => code 'b'
  | .formFeed => code 'f'
  | .lineFeed => code 'n'
  | .carriageReturn => code 'r'
  | .tab => code 't'

/-- The character that is meant. -/
def char : Escape → Char
  | .quote => '"'
  | .backslash => '\\'
  | .slash => '/'
  | .backspace => '\x08'
  | .formFeed => '\x0C'
  | .lineFeed => '\n'
  | .carriageReturn => '\r'
  | .tab => '\t'

end Escape

/-- A character of a string as it is written: as it is, unless it is a control character, a quote or
a backslash; by an escape of one letter; or by its code, as one unit of sixteen bits or as two that
are a pair of surrogates. -/
inductive Piece
  | plain (c : Char) (allowed : 0x20 ≤ c.toNat ∧ c ≠ '"' ∧ c ≠ '\\')
  | escape (e : Escape)
  | unit (u : HexCode) (alone : u.value < 0xD800 ∨ 0xDFFF < u.value)
  | pair (high low : HexCode) (isHigh : 0xD800 ≤ high.value ∧ high.value ≤ 0xDBFF)
      (isLow : 0xDC00 ≤ low.value ∧ low.value ≤ 0xDFFF)

namespace Piece

def text : Piece → List UInt8
  | .plain c _ => String.utf8EncodeChar c
  | .escape e => [code '\\', e.letter]
  | .unit u _ => code '\\' :: code 'u' :: u.text
  | .pair high low _ _ => code '\\' :: code 'u' :: high.text ++ code '\\' :: code 'u' :: low.text

/-- The character that is meant. -/
def char : Piece → Char
  | .plain c _ => c
  | .escape e => e.char
  | .unit u _ => Char.ofNat u.value
  | .pair high low _ _ =>
    Char.ofNat ((high.value - 0xD800) * 1024 + (low.value - 0xDC00) + 0x10000)

/-- A string without its quotes. -/
def texts (s : List Piece) : List UInt8 := s.flatMap text

/-- The string that is meant. -/
def string (s : List Piece) : String := String.ofList (s.map char)

end Piece

/-! ## Numbers -/

/-- A decimal digit. -/
def digit (d : Fin 10) : UInt8 := .ofNat (0x30 + d.val)

/-- One or more decimal digits. -/
structure Digits where
  first : Fin 10
  rest : List (Fin 10)

namespace Digits

def text (d : Digits) : List UInt8 := (d.first :: d.rest).map digit

def value (d : Digits) : Nat := (d.first :: d.rest).foldl (fun n d => n * 10 + d.val) 0

end Digits

inductive Sign
  | absent
  | plus
  | minus
deriving DecidableEq

def Sign.text : Sign → List UInt8
  | .absent => []
  | .plus => [code '+']
  | .minus => [code '-']

/-- An exponent of ten. -/
structure Exponent where
  capital : Bool
  sign : Sign
  digits : Digits

/-- A number as it is written. The whole part has no leading zero. -/
structure Numeral where
  negative : Bool
  whole : Digits
  plain : whole.first = 0 → whole.rest = []
  fraction : Option Digits
  exponent : Option Exponent

/-- `significand · 10^exponent` as a double, if it stays finite while it is scaled. -/
def double? (negative : Bool) (significand : Nat) (exponent : Int) : Option JsonNumber :=
  (Reader.scale (exponent.natAbs / 308 + 2) significand.toUInt64.toFloat exponent).map fun x =>
    .double (if negative then -x else x)

namespace Exponent

def text (e : Exponent) : List UInt8 :=
  code (if e.capital then 'E' else 'e') :: (e.sign.text ++ e.digits.text)

/-- A significand with this exponent. An exponent of more than 31 bits leaves zero, or nothing. -/
def scale? (e : Exponent) (negative : Bool) (significand : Nat) (start : Int) : Option JsonNumber :=
  if e.digits.value ≤ 2147483647 then
    double? negative significand
      (if e.sign = .minus then start - e.digits.value else start + e.digits.value)
  else if significand ≠ 0 ∧ e.sign ≠ .minus then none
  else some (.double (if negative then -0.0 else 0.0))

end Exponent

namespace Numeral

/-- A numeral without its sign. -/
def unsigned (n : Numeral) : List UInt8 :=
  n.whole.text ++ ((n.fraction.elim [] fun digits => code '.' :: digits.text) ++
    n.exponent.elim [] Exponent.text)

def text (n : Numeral) : List UInt8 :=
  if n.negative then code '-' :: n.unsigned else n.unsigned

/-- A number without fraction and exponent that fits in 64 bits. -/
def wholeNumber (negative : Bool) (size : Nat) : JsonNumber :=
  if !negative then .natural size
  else if size == 0 || size > 9223372036854775808 then .double (-size.toUInt64.toFloat)
  else .negative size

/-- The number that is meant: whole if it is written without fraction and exponent and fits in 64
bits, and otherwise the double that follows from as many digits as fit. -/
def value? (n : Numeral) : Option JsonNumber :=
  let (size, unfit) := Reader.fitDigits 0 n.whole.text
  match n.fraction with
  | none =>
    match n.exponent with
    | none =>
      if unfit = 0 then some (wholeNumber n.negative size) else double? n.negative size unfit
    | some e => e.scale? n.negative size unfit
  | some digits =>
    let (significand, more) := Reader.fitDigits size digits.text
    let start : Int := unfit - ((digits.text.length - more : Nat) : Int)
    match n.exponent with
    | none => double? n.negative significand start
    | some e => e.scale? n.negative significand start

end Numeral

/-! ## Values -/

/-- The blanks in front of an item of an array. The first item has no comma in front of it. -/
structure Gap where
  beforeComma : List Blank
  before : List Blank

def Gap.text (gap : Gap) (first : Bool) : List UInt8 :=
  (if first then [] else blanks gap.beforeComma ++ [code ',']) ++ blanks gap.before

/-- What stands in front of the value of a member of an object. -/
structure Heading where
  gap : Gap
  key : List Piece
  beforeColon : List Blank
  beforeValue : List Blank

namespace Heading

def text (heading : Heading) (first : Bool) : List UInt8 :=
  heading.gap.text first ++ code '"' :: (Piece.texts heading.key ++
    code '"' :: (blanks heading.beforeColon ++ code ':' :: blanks heading.beforeValue))

/-- The key of the member. -/
def name (heading : Heading) : String := Piece.string heading.key

end Heading

/-- A value as it is written. `close` stands before the closing bracket. -/
inductive Spelling
  | null
  | bool (b : Bool)
  | number (n : Numeral)
  | string (s : List Piece)
  | array (items : List (Gap × Spelling)) (close : List Blank)
  | object (members : List (Heading × Spelling)) (close : List Blank)

namespace Spelling

mutual
/-- The text of a value. -/
def text : Spelling → List UInt8
  | .null => ['n', 'u', 'l', 'l'].map code
  | .bool true => ['t', 'r', 'u', 'e'].map code
  | .bool false => ['f', 'a', 'l', 's', 'e'].map code
  | .number n => n.text
  | .string s => code '"' :: (Piece.texts s ++ [code '"'])
  | .array items close => code '[' :: (itemTexts true items ++ (blanks close ++ [code ']']))
  | .object members close => code '{' :: (memberTexts true members ++ (blanks close ++ [code '}']))

/-- The text of the items of an array. -/
def itemTexts : Bool → List (Gap × Spelling) → List UInt8
  | _, [] => []
  | first, (gap, item) :: rest => gap.text first ++ (item.text ++ itemTexts false rest)

/-- The text of the members of an object. -/
def memberTexts : Bool → List (Heading × Spelling) → List UInt8
  | _, [] => []
  | first, (heading, item) :: rest => heading.text first ++ (item.text ++ memberTexts false rest)
end

mutual
/-- How deep arrays and objects lie inside one another. -/
def nesting : Spelling → Nat
  | .array items _ => nestingOfItems items + 1
  | .object members _ => nestingOfMembers members + 1
  | _ => 0

/-- The deepest nesting of an item. -/
def nestingOfItems : List (Gap × Spelling) → Nat
  | [] => 0
  | (_, item) :: rest => max item.nesting (nestingOfItems rest)

/-- The deepest nesting of a member. -/
def nestingOfMembers : List (Heading × Spelling) → Nat
  | [] => 0
  | (_, item) :: rest => max item.nesting (nestingOfMembers rest)
end

mutual
/-- The numbers in a value. -/
def numerals : Spelling → List Numeral
  | .number n => [n]
  | .array items _ => numeralsOfItems items
  | .object members _ => numeralsOfMembers members
  | _ => []

/-- The numbers in the items of an array. -/
def numeralsOfItems : List (Gap × Spelling) → List Numeral
  | [] => []
  | (_, item) :: rest => item.numerals ++ numeralsOfItems rest

/-- The numbers in the members of an object. -/
def numeralsOfMembers : List (Heading × Spelling) → List Numeral
  | [] => []
  | (_, item) :: rest => item.numerals ++ numeralsOfMembers rest
end

/-- The object with these entries, in order of first appearance and with the last value of each
key. -/
def objectOf (entries : List (String × Json)) : Json :=
  .object (entries.foldl (fun out (key, item) => setEntry out key item) [])

mutual
/-- The value that is meant, if every number in it has one. -/
def value? : Spelling → Option Json
  | .null => some .null
  | .bool b => some (.bool b)
  | .number n => n.value?.map .number
  | .string s => some (.string (Piece.string s))
  | .array items _ => (itemValues? items).map .array
  | .object members _ => (memberValues? members).map objectOf

/-- The values of the items of an array. -/
def itemValues? : List (Gap × Spelling) → Option (List Json)
  | [] => some []
  | (_, item) :: rest => do return (← item.value?) :: (← itemValues? rest)

/-- The keys and values of the members of an object. -/
def memberValues? : List (Heading × Spelling) → Option (List (String × Json))
  | [] => some []
  | (heading, item) :: rest => do return (heading.name, ← item.value?) :: (← memberValues? rest)
end

/-- What holds of a value when it holds of its items or of the values of its members holds of every
value. -/
theorem byParts {holds : Spelling → Prop} (null : holds .null) (bool : ∀ b, holds (.bool b))
    (number : ∀ n, holds (.number n)) (string : ∀ s, holds (.string s))
    (array : ∀ items close, (∀ item ∈ items, holds item.2) → holds (.array items close))
    (object : ∀ members close, (∀ m ∈ members, holds m.2) → holds (.object members close))
    (s : Spelling) : holds s :=
  match s with
  | .null => null
  | .bool b => bool b
  | .number n => number n
  | .string s => string s
  | .array items close => array items close fun (_, item) member =>
    have := List.sizeOf_lt_of_mem member
    byParts null bool number string array object item
  | .object members close => object members close fun (_, item) member =>
    have := List.sizeOf_lt_of_mem member
    byParts null bool number string array object item
termination_by sizeOf s
decreasing_by
  all_goals
    simp_all
    omega

/-- A value is meant if every number in it has one. -/
theorem exists_value? (s : Spelling) (numbers : ∀ n ∈ s.numerals, n.value?.isSome) :
    ∃ v, s.value? = some v := by
  induction s using byParts with
  | null => exact ⟨_, rfl⟩
  | bool b => exact ⟨_, rfl⟩
  | number n =>
      obtain ⟨x, value⟩ := Option.isSome_iff_exists.mp (numbers n (List.mem_singleton_self n))
      exact ⟨_, Option.map_eq_some_iff.mpr ⟨x, value, rfl⟩⟩
  | string s => exact ⟨_, rfl⟩
  | array items close each =>
      have all : ∃ values, itemValues? items = some values := by
        rw [numerals] at numbers
        clear close
        induction items with
        | nil => exact ⟨_, rfl⟩
        | cons item rest ih =>
            obtain ⟨here, there⟩ := List.forall_mem_cons.mp each
            obtain ⟨numbersHere, numbersThere⟩ := List.forall_mem_append.mp numbers
            obtain ⟨v, value⟩ := here numbersHere
            obtain ⟨values, others⟩ := ih there numbersThere
            exact ⟨v :: values, by simp [itemValues?, value, others]⟩
      obtain ⟨values, means⟩ := all
      exact ⟨_, Option.map_eq_some_iff.mpr ⟨values, means, rfl⟩⟩
  | object members close each =>
      have all : ∃ entries, memberValues? members = some entries := by
        rw [numerals] at numbers
        clear close
        induction members with
        | nil => exact ⟨_, rfl⟩
        | cons m rest ih =>
            obtain ⟨here, there⟩ := List.forall_mem_cons.mp each
            obtain ⟨numbersHere, numbersThere⟩ := List.forall_mem_append.mp numbers
            obtain ⟨v, value⟩ := here numbersHere
            obtain ⟨entries, others⟩ := ih there numbersThere
            exact ⟨(m.1.name, v) :: entries, by simp [memberValues?, value, others]⟩
      obtain ⟨entries, means⟩ := all
      exact ⟨_, Option.map_eq_some_iff.mpr ⟨entries, means, rfl⟩⟩

end Spelling

/-! ## Documents -/

/-- A document that is an object, as it is written. -/
structure Document where
  before : List Blank
  members : List (Heading × Spelling)
  close : List Blank
  after : List Blank

/-- The value of the first member with a key. -/
def memberValue? (members : List (Heading × Spelling)) (key : String) : Option Json :=
  (members.find? (·.1.name == key)).bind (·.2.value?)

/-- The value of a key in an object, and nothing for other values. -/
def atKey? : Json → String → Option Json
  | .object entries, key => entry? entries key
  | _, _ => none

namespace Document

def text (d : Document) : List UInt8 :=
  blanks d.before ++ ((Spelling.object d.members d.close).text ++ blanks d.after)

/-- The value of the member with a key. -/
def value? (d : Document) (key : String) : Option Json := memberValue? d.members key

/-- The value of an entry of the table that is the value of a key. -/
def tableValue? (d : Document) (key entry : String) : Option Json :=
  (d.value? key).bind (atKey? · entry)

end Document

/-! ## Entries of objects -/

section Entries

variable {α : Type} {entries : List (String × α)} {key : String} {value : α}

theorem entry?_eq_some_iff (distinct : (entries.map Prod.fst).Nodup) :
    entry? entries key = some value ↔ (key, value) ∈ entries := by
  rw [Json.entry?, Option.map_eq_some_iff]
  constructor
  · rintro ⟨entry, found, rfl⟩
    have isKey := List.find?_some found
    rw [beq_iff_eq] at isKey
    exact isKey ▸ List.mem_of_find?_eq_some found
  · intro member
    obtain ⟨before, after, rfl⟩ := List.append_of_mem member
    refine ⟨(key, value), List.find?_eq_some_iff_append.mpr
      ⟨beq_self_eq_true key, before, after, rfl, fun other earlier => ?_⟩, rfl⟩
    rw [List.map_append, List.nodup_append] at distinct
    have apart : other.1 ≠ key :=
      distinct.2.2 _ (List.mem_map_of_mem earlier) _ List.mem_cons_self
    simpa using apart

theorem keys_setEntry (entries : List (String × α)) (key : String) (value : α) :
    (setEntry entries key value).map Prod.fst =
      if key ∈ entries.map Prod.fst then entries.map Prod.fst
      else entries.map Prod.fst ++ [key] := by
  induction entries with
  | nil => rfl
  | cons entry rest ih =>
      obtain ⟨k, v⟩ := entry
      rw [setEntry]
      by_cases same : k = key
      · simp [same]
      · have other : key ≠ k := Ne.symm same
        simp only [beq_eq_false_iff_ne.mpr same, Bool.false_eq_true, if_false, List.map_cons, ih,
          List.mem_cons, other, false_or]
        split <;> rfl

theorem nodup_setEntry (distinct : (entries.map Prod.fst).Nodup) (key : String) (value : α) :
    ((setEntry entries key value).map Prod.fst).Nodup := by
  rw [keys_setEntry]
  split
  · exact distinct
  · next fresh =>
      rw [← List.concat_eq_append]
      exact distinct.concat fresh

namespace Spelling

/-- The entries of an object have different keys, also where a key is written twice. -/
theorem nodup_objectOf (written : List (String × Json)) :
    ∃ entries, objectOf written = .object entries ∧ (entries.map Prod.fst).Nodup := by
  refine ⟨_, rfl, ?_⟩
  have gathered (out : List (String × Json)) (distinct : (out.map Prod.fst).Nodup) :
      ((written.foldl (fun out (key, item) => setEntry out key item) out).map Prod.fst).Nodup := by
    induction written generalizing out with
    | nil => exact distinct
    | cons entry rest ih => exact ih _ (nodup_setEntry distinct entry.1 entry.2)
  exact gathered [] List.nodup_nil

theorem nodup_of_value? {s : Spelling} {entries : List (String × Json)}
    (means : s.value? = some (.object entries)) : (entries.map Prod.fst).Nodup := by
  cases s with
  | object members close =>
      obtain ⟨written, -, same⟩ := Option.map_eq_some_iff.mp means
      obtain ⟨entries', same', distinct⟩ := nodup_objectOf written
      cases same'.symm.trans same
      exact distinct
  | array items close =>
      obtain ⟨values, -, same⟩ := Option.map_eq_some_iff.mp means
      cases same
  | number n =>
      obtain ⟨x, -, same⟩ := Option.map_eq_some_iff.mp means
      cases same
  | null => cases means
  | bool b => cases means
  | string s => cases means

end Spelling

end Entries

end FunctionArchive.Json
