import VideoRegistry.Text.Pieces

/-!
# Names of types and enumerators

The registry names types in camel case and enum values in upper snake case.
The generated header drops the type's lead from every value and turns the rest
back into camel case.  Letters, digits and case are those of ASCII; all other
characters are carried along.
-/

namespace VideoRegistry.Naming

/-- A word begins at an upper-case letter after a lower-case letter or a digit,
and at a digit after a lower-case letter. -/
def beginsWord (previous : Option Char) (c : Char) : Bool :=
  match previous with
  | none => false
  | some p =>
      (c.isUpper && (p.isLower || p.isDigit)) || (c.isDigit && p.isLower)

def upperSnakeFrom (previous : Option Char) : List Char → List Char
  | [] => []
  | c :: rest =>
      let upper := c.toUpper :: upperSnakeFrom (some c) rest
      if beginsWord previous c then '_' :: upper else upper

/-- `StdVideoH264ProfileIdc` becomes `STD_VIDEO_H264_PROFILE_IDC`. -/
def upperSnake (name : String) : String :=
  String.ofList (upperSnakeFrom none name.toList)

/-- A letter keeps its case at the start and after an underscore or a digit. -/
def keepsCase (previous : Option Char) : Bool :=
  match previous with
  | none => true
  | some p => p = '_' || p.isDigit

/-- Underscores are dropped, except between two digits if `keepNumbers` asks to
keep numbers apart. -/
def camelFrom (keepNumbers : Bool) (previous : Option Char) :
    List Char → List Char
  | [] => []
  | c :: rest =>
      let following := camelFrom keepNumbers (some c) rest
      if c = '_' then
        if keepNumbers && previous.any Char.isDigit && rest.head?.any Char.isDigit
        then '_' :: following
        else following
      else if keepsCase previous then c :: following
      else c.toLower :: following

/-- The UTF-8 bytes of a text, each as the character of that code. -/
def byteChars (text : List Char) : List Char :=
  text.flatMap fun c =>
    (String.utf8EncodeChar c).map fun byte => Char.ofNat byte.toNat

/-- `MONOCHROME_4_2_0` becomes `Monochrome420`, or `Monochrome4_2_0` if numbers
are kept apart.  The conversion runs over the bytes of the name. -/
def camel (keepNumbers : Bool) (name : String) : String :=
  String.ofList (camelFrom keepNumbers none (byteChars name.toList))

/-- What every value of an enum begins with. -/
def valueLead (enumName : String) : String :=
  upperSnake enumName ++ "_"

/-- The enumerator of a value: `STD_VIDEO_H264_PROFILE_IDC_HIGH` of
`StdVideoH264ProfileIdc` is `eHigh`. -/
def enumerator (enumName valueName : String) : String :=
  "e" ++ camel true (Text.stripLead valueName (valueLead enumName))

def parted (c : Char) : Bool :=
  c = ' ' || c = '*'

def spaceStarsFrom (previous : Option Char) : List Char → List Char
  | [] => []
  | c :: rest =>
      let following := spaceStarsFrom (some c) rest
      if c = '*' then
        if previous.any fun p => !parted p then ' ' :: '*' :: following
        else if rest.head?.any fun next => !parted next then
          '*' :: ' ' :: following
        else '*' :: following
      else c :: following

/-- Separates a star from the token beside it: in front if it is glued there,
else behind. -/
def spaceStars (text : String) : String :=
  String.ofList (spaceStarsFrom none text.toList)

end VideoRegistry.Naming
