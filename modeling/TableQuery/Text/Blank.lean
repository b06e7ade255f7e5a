/- White space in texts.

   Two classes are used: the code points that may surround a word, and the ASCII blanks alone, which
   leave out the four information separators. -/

import TableQuery.Text.Basic

set_option autoImplicit false
set_option relaxedAutoImplicit false

namespace TableQuery.CodePoint

/-- The white space of the Unicode standard, outside ASCII. -/
def wideBlanks : List (Nat × Nat) :=
  [(0x85, 0x85), (0xA0, 0xA0), (0x1680, 0x1680), (0x2000, 0x200A), (0x2028, 0x2029),
   (0x202F, 0x202F), (0x205F, 0x205F), (0x3000, 0x3000)]

/-- White space around a word: the Unicode class and the information separators. -/
def isBlank (c : CodePoint) : Bool :=
  c.liesIn [(0x09, 0x0D), (0x1C, 0x20)] || c.liesIn wideBlanks

/-- White space that a number reader skips by itself: blanks and line ends, but no separators. -/
def isAsciiBlank (c : CodePoint) : Bool := c.liesIn [(0x09, 0x0D), (0x20, 0x20)]

end TableQuery.CodePoint

namespace TableQuery.Text

def strip (t : Text) : Text := t.trimmed CodePoint.isBlank

end TableQuery.Text
