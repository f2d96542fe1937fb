import ClassCoupling.Text.Utf8

/-!
Member names. A name is UTF-8 when its header says so; otherwise its bytes stand
for the characters of code page 437.
-/
namespace ClassCoupling.Archive

def upperCharacters : Array Char :=
  ("ÇüéâäàåçêëèïîìÄÅ" ++
    "ÉæÆôöòûùÿÖÜ¢£¥₧ƒ" ++
    "áíóúñÑªº¿⌐¬½¼¡«»" ++
    "░▒▓│┤╡╢╖╕╣║╗╝╜╛┐" ++
    "└┴┬├─┼╞╟╚╔╩╦╠═╬╧" ++
    "╨╤╥╙╘╒╓╫╪┘┌█▄▌▐▀" ++
    "αßΓπΣσµτΦΘΩδ∞φε∩" ++
    "≡±≥≤⌠⌡÷≈°∙·√ⁿ²■\u00a0").toList.toArray

def codePageCharacter (byte : UInt8) : Char :=
  if byte < 0x80 then Char.ofNat byte.toNat
  else upperCharacters.getD (byte.toNat - 0x80) ' '

def decodeName (isUtf8 : Bool) (bytes : List UInt8) : String :=
  if isUtf8 then Utf8.decodeLossy bytes else String.ofList (bytes.map codePageCharacter)

end ClassCoupling.Archive
