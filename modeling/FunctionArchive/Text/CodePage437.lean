/-!
# The character set of the first personal computers

Names in archives that are not marked as Unicode are written in this set. Its first half is ASCII.
-/

set_option autoImplicit false

namespace FunctionArchive.CodePage437

/-- The characters of the second half. -/
def upperHalf : List Char :=
  ("ÇüéâäàåçêëèïîìÄÅÉæÆôöòûùÿÖÜ¢£¥₧ƒáíóúñÑªº¿⌐¬½¼¡«»░▒▓│┤╡╢╖╕╣║╗╝╜╛┐" ++
    "└┴┬├─┼╞╟╚╔╩╦╠═╬╧╨╤╥╙╘╒╓╫╪┘┌█▄▌▐▀αßΓπΣσµτΦΘΩδ∞φε∩≡±≥≤⌠⌡÷≈°∙·√ⁿ²■\u00a0").toList

/-- The character of a byte. -/
def charOf (b : UInt8) : Char :=
  if b < 128 then Char.ofNat b.toNat else upperHalf.getD (b.toNat - 128) '?'

/-- The text that bytes stand for. -/
def decode (bytes : List UInt8) : String := String.ofList (bytes.map charOf)

end FunctionArchive.CodePage437
