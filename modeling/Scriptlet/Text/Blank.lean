import Scriptlet.Text.Ranges

/-! # Blanks

White space between tokens: the characters of the bidirectional classes WS, B and S and of the
general category Zs (Unicode 14). The four information separators U+001C to U+001F belong to them.
-/

namespace Scriptlet.Text

/-- The blanks, in ascending order. -/
def blankRanges : Ranges :=
  [
    (0x9, 0xD), (0x1C, 0x20), (0x85, 0x85), (0xA0, 0xA0), (0x1680, 0x1680), (0x2000, 0x200A),
    (0x2028, 0x2029), (0x202F, 0x202F), (0x205F, 0x205F), (0x3000, 0x3000)
  ]

def isBlank (c : Char) : Bool := blankRanges.contains c.toNat

end Scriptlet.Text
