import GuildPolicy.Text.CodeRanges

namespace GuildPolicy.Text

/-- The characters with the property White_Space. -/
def blankRanges : CodeRanges := [
  (0x9, 0xd), (0x20, 0x20), (0x85, 0x85), (0xa0, 0xa0), (0x1680, 0x1680), (0x2000, 0x200a),
  (0x2028, 0x2029), (0x202f, 0x202f), (0x205f, 0x205f), (0x3000, 0x3000)]

def isBlank (c : Char) : Bool := blankRanges.contains c

def trimStart (s : List Char) : List Char := s.dropWhile isBlank

def trim (s : String) : String :=
  String.ofList (trimStart (trimStart s.toList).reverse).reverse

end GuildPolicy.Text
