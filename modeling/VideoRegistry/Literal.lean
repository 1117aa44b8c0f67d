/-!
# Number literals

The registry writes values as unsigned decimal literals or as hexadecimal
literals with the lead `0x` and upper-case digits.  Both classes are ASCII.
-/

namespace VideoRegistry.Literal

def isUpperHexDigit (c : Char) : Bool :=
  c.isDigit || ('A' ≤ c && c ≤ 'F')

def isDecimal (text : String) : Bool :=
  !text.toList.isEmpty && text.toList.all Char.isDigit

def isHex (text : String) : Bool :=
  match text.toList with
  | '0' :: 'x' :: digits => !digits.isEmpty && digits.all isUpperHexDigit
  | _ => false

/-- Whether a text is a literal of either class. -/
def isNumber (text : String) : Bool :=
  isDecimal text || isHex text

end VideoRegistry.Literal
