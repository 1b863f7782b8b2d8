/-
This file says which characters are blank: those with the white space property.
-/

import EstreeScopes.Text.Ranges

namespace EstreeScopes.Text

/-- The ranges of blank characters, in increasing order. -/
def blankRanges : Ranges :=
  [ (0x9, 0xd), (0x20, 0x20), (0x85, 0x85), (0xa0, 0xa0), (0x1680, 0x1680), (0x2000, 0x200a),
    (0x2028, 0x2029), (0x202f, 0x202f), (0x205f, 0x205f), (0x3000, 0x3000) ]

/-- Whether a character is blank. -/
def isBlank (char : Char) : Bool := blankRanges.hold char

/-- A text without the blanks at its ends. -/
def trimmed (text : List Char) : List Char :=
  ((text.dropWhile isBlank).reverse.dropWhile isBlank).reverse

end EstreeScopes.Text
