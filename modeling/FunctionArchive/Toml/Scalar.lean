import FunctionArchive.Toml.Table

/-!
# Words of a configuration document

Values without quotes and brackets: truth values, whole numbers in four bases, floating-point
numbers, and moments in time. A word is given as its characters, and it is a value only as a whole.
Of floating-point numbers and moments only the form is kept.
-/

set_option autoImplicit false

namespace FunctionArchive.Toml

/-! ## Numbers -/

/-- The value of a digit in bases up to sixteen. -/
def digitValue? (c : Char) : Option Nat :=
  if c.isDigit then some (c.toNat - '0'.toNat)
  else if 'a' ≤ c && c ≤ 'f' then some (c.toNat - 'a'.toNat + 10)
  else if 'A' ≤ c && c ≤ 'F' then some (c.toNat - 'A'.toNat + 10)
  else none

/-- Whether a character is a digit of a base. -/
def isDigitOf (base : Nat) (c : Char) : Bool :=
  (digitValue? c).any (· < base)

/-- Digits of a base, with single underscores between them. -/
def digits? (base : Nat) (chars : List Char) : Option (List Char) :=
  let groups := chars.splitOn '_'
  if groups.all fun group => !group.isEmpty && group.all (isDigitOf base) then some groups.flatten
  else none

/-- The number that digits of a base stand for. -/
def valueOf (base : Nat) (digits : List Char) : Nat :=
  digits.foldl (fun n c => n * base + (digitValue? c).getD 0) 0

/-- The sign in front and what follows it. -/
def splitSign : List Char → Option Bool × List Char
  | '+' :: rest => (some false, rest)
  | '-' :: rest => (some true, rest)
  | chars => (none, chars)

/-- Digits of base ten without a needless zero in front. -/
def decimal? (chars : List Char) : Option (List Char) :=
  match digits? 10 chars with
  | some ('0' :: _ :: _) => none
  | found => found

/-- Half of the number of whole numbers of 128 bits. -/
def halfRange : Int := 0x80000000000000000000000000000000

/-- The widest whole numbers are those of 128 bits, with or without a sign. -/
def bounded? (n : Int) : Option Int :=
  if -halfRange ≤ n && n < 2 * halfRange then some n else none

/-- A whole number. Only base ten has signs. -/
def integer? (chars : List Char) : Option Int :=
  let based (base : Nat) (rest : List Char) : Option Int :=
    (digits? base rest).bind fun digits => bounded? (valueOf base digits : Nat)
  match chars with
  | '0' :: 'x' :: rest => based 16 rest
  | '0' :: 'o' :: rest => based 8 rest
  | '0' :: 'b' :: rest => based 2 rest
  | _ =>
    let (sign, rest) := splitSign chars
    (decimal? rest).bind fun digits =>
      let n : Int := (valueOf 10 digits : Nat)
      bounded? (if sign == some true then -n else n)

/-- The exponent behind its letter. -/
def exponent? (chars : List Char) : Option Int :=
  let (sign, rest) := splitSign chars
  (digits? 10 rest).map fun digits =>
    let n : Int := (valueOf 10 digits : Nat)
    if sign == some true then -n else n

/-- Whether a character announces an exponent. -/
def isExponentMark (c : Char) : Bool := c == 'e' || c == 'E'

/-- The floating-point number `digits · 10^exponent`. -/
structure Magnitude where
  digits : List Char
  exponent : Int

/-- A floating-point number without its sign: it has a fraction, an exponent, or both. -/
def magnitude? (chars : List Char) : Option Magnitude := do
  let plain := chars.takeWhile fun c => c != '.' && !isExponentMark c
  let whole ← decimal? plain
  match chars.drop plain.length with
  | [] => none
  | '.' :: behind =>
    let fraction ← digits? 10 (behind.takeWhile (!isExponentMark ·))
    let exponent ← match behind.dropWhile (!isExponentMark ·) with
      | [] => some 0
      | _ :: power => exponent? power
    return ⟨whole ++ fraction, exponent - fraction.length⟩
  | _ :: power => return ⟨whole, ← exponent? power⟩

namespace Magnitude

/-- The least number that is nearer to twice the largest power of two than to any double. -/
def limit : Nat := 0x3fffffffffffff * Nat.pow 2 970

/-- How many digits the limit has. -/
def limitLength : Nat := 309

/-- Whether a double is near the number. The number is compared with the limit only where their
digits before the point are as many, so no large power is computed. -/
def isFinite (m : Magnitude) : Bool :=
  let digits := m.digits.dropWhile (· == '0')
  let length : Int := digits.length + m.exponent
  if digits.isEmpty || length < limitLength then true
  else if length > limitLength then false
  else
    valueOf 10 digits * Nat.pow 10 m.exponent.toNat <
      limit * Nat.pow 10 (-m.exponent).toNat

end Magnitude

/-- Whether characters are a floating-point number. Only a number that says so is infinite. -/
def isFloat (chars : List Char) : Bool :=
  let (_, rest) := splitSign chars
  rest == "inf".toList || rest == "nan".toList || (magnitude? rest).any Magnitude.isFinite

/-! ## Moments -/

/-- A number of exactly so many digits. -/
def fixed? (count : Nat) (chars : List Char) : Option Nat :=
  if chars.length == count && chars.all Char.isDigit then some (valueOf 10 chars) else none

/-- How many days a month has. -/
def daysIn (year month : Nat) : Nat :=
  let leap := year % 4 == 0 && (year % 100 != 0 || year % 400 == 0)
  if month == 2 then (if leap then 29 else 28)
  else if [4, 6, 9, 11].contains month then 30
  else 31

/-- Whether characters are a date. -/
def isDate (chars : List Char) : Bool :=
  match chars.splitOn '-' with
  | [year, month, day] =>
    match fixed? 4 year, fixed? 2 month, fixed? 2 day with
    | some year, some month, some day =>
      1 ≤ month && month ≤ 12 && 1 ≤ day && day ≤ daysIn year month
    | _, _, _ => false
  | _ => false

/-- Whether characters are hours and minutes. -/
def isHourMinute (hour minute : List Char) : Bool :=
  (fixed? 2 hour).any (· ≤ 23) && (fixed? 2 minute).any (· ≤ 59)

/-- Whether characters are seconds, perhaps with a fraction. -/
def isSecond (chars : List Char) : Bool :=
  let whole := chars.takeWhile (· != '.')
  (fixed? 2 whole).any (· ≤ 60) &&
    match chars.drop whole.length with
    | [] => true
    | _ :: fraction => !fraction.isEmpty && fraction.all Char.isDigit

/-- Whether characters are a time of day. -/
def isTime (chars : List Char) : Bool :=
  match chars.splitOn ':' with
  | [hour, minute, second] => isHourMinute hour minute && isSecond second
  | _ => false

/-- Whether characters are a distance from universal time. -/
def isOffset (chars : List Char) : Bool :=
  match chars.splitOn ':' with
  | [hour, minute] => isHourMinute hour minute
  | _ => false

/-- Whether characters are a time of day, perhaps with its distance from universal time. -/
def isTimeWithOffset (chars : List Char) : Bool :=
  let isMark (c : Char) : Bool := c == 'Z' || c == 'z' || c == '+' || c == '-'
  let time := chars.takeWhile (!isMark ·)
  isTime time &&
    match chars.drop time.length with
    | [] | ['Z'] | ['z'] => true
    | '+' :: offset | '-' :: offset => isOffset offset
    | _ => false

/-- Whether a character stands between a date and a time. -/
def isMomentMark (c : Char) : Bool := c == 'T' || c == 't' || c == ' '

/-- Whether characters are a moment: a date, a time of day, or both. -/
def isMoment (chars : List Char) : Bool :=
  isDate chars || isTime chars ||
    (isDate (chars.take 10) &&
      match chars.drop 10 with
      | mark :: time => isMomentMark mark && isTimeWithOffset time
      | [] => false)

/-! ## Words -/

/-- The value of a word. -/
def word? (chars : List Char) : Option Toml :=
  if chars == "true".toList then some (.boolean true)
  else if chars == "false".toList then some (.boolean false)
  else
    match integer? chars with
    | some n => some (.integer n)
    | none =>
      if isFloat chars then some .float
      else if isMoment chars then some .moment
      else none

end FunctionArchive.Toml
