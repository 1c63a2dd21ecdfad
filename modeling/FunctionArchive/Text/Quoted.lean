import FunctionArchive.Text.Unprintable

/-!
# Quoted text

A text between double quotes, as it is shown in messages: quotes, backslashes and characters that
cannot be shown by themselves are written as escapes.
-/

set_option autoImplicit false

namespace FunctionArchive.Text

/-- A character by its number, in hexadecimal digits. -/
def numberEscape (c : Char) : List Char :=
  ['\\', 'u', '{'] ++ Nat.toDigits 16 c.toNat ++ ['}']

/-- A character inside quotes. -/
def quoteChar (c : Char) : List Char :=
  if c == '"' then ['\\', '"']
  else if c == '\\' then ['\\', '\\']
  else if c == '\n' then ['\\', 'n']
  else if c == '\r' then ['\\', 'r']
  else if c == '\t' then ['\\', 't']
  else if c == '\x00' then ['\\', '0']
  else if isPrintable c then [c]
  else numberEscape c

/-- A text in quotes. -/
def quote (text : String) : String :=
  String.ofList ('"' :: text.toList.flatMap quoteChar ++ ['"'])

end FunctionArchive.Text
