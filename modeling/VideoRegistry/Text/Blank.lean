/-!
# Blank characters

White space is the Unicode property `White_Space`: the ASCII blanks, the next
line and no-break space, and the spaces and separators of the general blocks.
Zero-width characters and the byte order mark are not blank.  Every trimming in
this library uses this class.
-/

namespace VideoRegistry.Text

/-- The inclusive ranges of code points with the property `White_Space`. -/
def blankRanges : List (Nat × Nat) :=
  [(0x09, 0x0D), (0x20, 0x20), (0x85, 0x85), (0xA0, 0xA0), (0x1680, 0x1680),
    (0x2000, 0x200A), (0x2028, 0x2029), (0x202F, 0x202F), (0x205F, 0x205F),
    (0x3000, 0x3000)]

def isBlank (c : Char) : Bool :=
  blankRanges.any fun range => range.1 ≤ c.toNat && c.toNat ≤ range.2

def trimStart (text : List Char) : List Char :=
  text.dropWhile isBlank

def trimEnd (text : List Char) : List Char :=
  (text.reverse.dropWhile isBlank).reverse

def trim (text : List Char) : List Char :=
  trimEnd (trimStart text)

/-- Trims a string on both sides. -/
def trimmed (text : String) : String :=
  String.ofList (trim text.toList)

end VideoRegistry.Text
