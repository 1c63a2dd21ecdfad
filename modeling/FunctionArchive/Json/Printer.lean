import FunctionArchive.Json.Value
import FunctionArchive.Decimal.Shortest

/-!
# Writing JSON

The compact form of a value: no blanks, entries in their own order, and strings with escapes only
for quotes, backslashes and control characters. A double is written with the fewest digits that
read back, positionally while its point lies within sixteen digits and not more than five places
to the right of the front, and with at least one digit behind the point there.
-/

set_option autoImplicit false

namespace FunctionArchive

namespace JsonNumber

/-- The digits of a number, as characters. -/
def digitChars (n : Nat) : List Char := Nat.toDigits 10 n

/-- A positive double. `point` is the number of digits in front of the decimal point. -/
def renderPositive (x : Float) : String :=
  let d := Decimal.shortest x
  let digits := digitChars d.digits
  let length : Int := digits.length
  let point : Int := length + d.exponent
  if 0 ≤ d.exponent && point ≤ 16 then
    String.ofList (digits ++ List.replicate d.exponent.toNat '0') ++ ".0"
  else if 0 < point && point ≤ 16 then
    String.ofList (digits.take point.toNat ++ '.' :: digits.drop point.toNat)
  else if -5 < point && point ≤ 0 then
    "0." ++ String.ofList (List.replicate (-point).toNat '0' ++ digits)
  else
    let mantissa :=
      match digits with
      | first :: second :: rest => String.ofList (first :: '.' :: second :: rest)
      | _ => String.ofList digits
    mantissa ++ "e" ++ toString (point - 1)

/-- A finite double. -/
def renderDouble (x : Float) : String :=
  let size := if x == 0.0 then "0.0" else renderPositive x.abs
  if Decimal.isNegative x then "-" ++ size else size

/-- The text of a number. -/
def render : JsonNumber → String
  | .natural n => toString n
  | .negative n => "-" ++ toString n
  | .double x => renderDouble x

end JsonNumber

namespace Json

/-- A character of a string, escaped where it has to be. -/
def escapeChar (c : Char) : String :=
  if c == '"' then "\\\""
  else if c == '\\' then "\\\\"
  else if c == '\n' then "\\n"
  else if c == '\r' then "\\r"
  else if c == '\t' then "\\t"
  else if c.toNat == 8 then "\\b"
  else if c.toNat == 12 then "\\f"
  else if c.toNat < 32 then
    "\\u00" ++ String.ofList [Nat.digitChar (c.toNat / 16), Nat.digitChar (c.toNat % 16)]
  else c.toString

/-- A string between quotes. -/
def quote (s : String) : String :=
  "\"" ++ String.join (s.toList.map escapeChar) ++ "\""

mutual
/-- The compact text of a value. -/
def render : Json → String
  | .null => "null"
  | .bool b => if b then "true" else "false"
  | .number n => n.render
  | .string s => quote s
  | .array items => "[" ++ ",".intercalate (renderItems items) ++ "]"
  | .object entries => "\x7b" ++ ",".intercalate (renderEntries entries) ++ "\x7d"

/-- The texts of the items of an array. -/
def renderItems : List Json → List String
  | [] => []
  | item :: rest => render item :: renderItems rest

/-- The texts of the entries of an object. -/
def renderEntries : List (String × Json) → List String
  | [] => []
  | (key, value) :: rest => (quote key ++ ":" ++ render value) :: renderEntries rest
end

end Json

end FunctionArchive
