import ServiceCatalog.Text.Lenient

/-!
# Names in archives

Names and comments of an archive are marked as UTF-8 or else written in the character set of the system
that archives come from, which has a character for every byte.  No name is refused: a name that is marked
as UTF-8 and is not is read leniently.
-/

namespace ServiceCatalog.ArchiveName

/-- The characters of the bytes from 128 on, in names that are not marked as UTF-8. -/
def highCharacters : Array Char :=
  ("ÇüéâäàåçêëèïîìÄÅÉæÆôöòûùÿÖÜ¢£¥₧ƒ" ++
    "áíóúñÑªº¿⌐¬½¼¡«»░▒▓│┤╡╢╖╕╣║╗╝╜╛┐" ++
    "└┴┬├─┼╞╟╚╔╩╦╠═╬╧╨╤╥╙╘╒╓╫╪┘┌█▄▌▐▀" ++
    "αßΓπΣσµτΦΘΩδ∞φε∩≡±≥≤⌠⌡÷≈°∙·√ⁿ²■\u00A0").toList.toArray

/-- The character of a byte in a name that is not marked as UTF-8. -/
def character (b : UInt8) : Char :=
  if b.toNat < 128 then Char.ofNat b.toNat else highCharacters.getD (b.toNat - 128) '?'

/-- The name that bytes spell. -/
def read (isUtf8 : Bool) (bytes : List UInt8) : String :=
  if isUtf8 then Text.lenient bytes else String.ofList (bytes.map character)

/-- A name of bytes below 128 is the same in both ways of writing. -/
theorem read_ascii (bytes : List UInt8) (h : ∀ b ∈ bytes, b.toNat < 0x80) :
    read true bytes = read false bytes := by
  have plain : bytes.map character = bytes.map fun b => Char.ofNat b.toNat :=
    List.map_congr_left fun b hb => if_pos (h b hb)
  simp [read, Text.lenient, Text.lenientFrom_ascii bytes h, plain]

end ServiceCatalog.ArchiveName
