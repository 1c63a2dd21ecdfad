/-!
# Blanks

The characters that count as white space in text: those with the Unicode property of that name.
-/

set_option autoImplicit false

namespace FunctionArchive.Text

/-- Whether a character is white space. -/
def isBlank (c : Char) : Bool :=
  let n := c.toNat
  (9 ≤ n && n ≤ 13) || n == 0x20 || n == 0x85 || n == 0xA0 || n == 0x1680 ||
    (0x2000 ≤ n && n ≤ 0x200A) || n == 0x2028 || n == 0x2029 || n == 0x202F || n == 0x205F ||
    n == 0x3000

/-- The characters without blanks at either end. -/
def trimChars (chars : List Char) : List Char :=
  ((chars.dropWhile isBlank).reverse.dropWhile isBlank).reverse

/-- A text without blanks at either end. -/
def trim (text : String) : String :=
  String.ofList (trimChars text.toList)

/-- Whether a text holds nothing but blanks. -/
def isBlankText (text : String) : Bool :=
  text.toList.all isBlank

end FunctionArchive.Text
