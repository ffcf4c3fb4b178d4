import SqlGateway.Text.Ranges

/-!
# Blanks

The characters that separate words: spaces of every width, line ends, tabs and the four
information separators.
-/

namespace SqlGateway.Text

def blankRanges : Ranges :=
  [(9, 13), (28, 32), (133, 133), (160, 160), (5760, 5760), (8192, 8202), (8232, 8233),
   (8239, 8239), (8287, 8287), (12288, 12288)]

def isBlank (c : Char) : Bool :=
  blankRanges.has c.toNat

end SqlGateway.Text
