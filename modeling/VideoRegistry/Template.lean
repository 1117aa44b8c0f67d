import VideoRegistry.NameMap

/-!
# Text templates

A template is a text with named slots, written `$`, `\x7b`, name, `\x7d` in its
source form.  Filling a template needs exactly one text for every slot and none
besides; the texts are put in as they are and never searched for slots.
-/

namespace VideoRegistry

inductive Segment where
  | text (content : String)
  | slot (name : String)
deriving DecidableEq, Repr

abbrev Template := List Segment

namespace Template

/-- Puts a character in front of a template, in its leading text if any. -/
def consChar (c : Char) : Template → Template
  | .text content :: rest => .text (String.singleton c ++ content) :: rest
  | template => .text (String.singleton c) :: template

def isClosing (c : Char) : Bool := c = '}'

/-- Reads slots from the left: a slot's name runs to the first closing brace and
is not empty.  Whatever is no slot is text. -/
def parseFrom (source : List Char) : Template :=
  match source with
  | [] => []
  | '$' :: '{' :: rest =>
      match _hclosing : rest.dropWhile (!isClosing ·) with
      | [] => consChar '$' (parseFrom ('{' :: rest))
      | _ :: tail =>
          let name := rest.takeWhile (!isClosing ·)
          if name.isEmpty then consChar '$' (parseFrom ('{' :: rest))
          else .slot (String.ofList name) :: parseFrom tail
  | c :: rest => consChar c (parseFrom rest)
termination_by source.length
decreasing_by
  · simp
  · simp
  · have hle := (List.dropWhile_sublist (!isClosing ·) (l := rest)).length_le
    rw [‹rest.dropWhile _ = _›] at hle
    simp only [List.length_cons] at hle ⊢
    omega
  · simp

def parse (source : String) : Template :=
  parseFrom source.toList

def slot? : Segment → Option String
  | .text _ => none
  | .slot name => some name

/-- The distinct names of a template's slots, in order of the names. -/
def slots (template : Template) : List String :=
  (NameMap.ofList ((template.filterMap slot?).map fun name => (name, ()))).names

/-- Why texts do not fit a template. -/
inductive Mismatch where
  | repeated (key : String)
  | uneven (missing unused : List String)
deriving DecidableEq, Repr

def Mismatch.message : Mismatch → String
  | .repeated key => s!"template replacement <{key}> supplied more than once"
  | .uneven missing unused =>
      "template placeholders do not match replacements: missing [" ++
        ", ".intercalate missing ++ "], unused [" ++ ", ".intercalate unused ++ "]"

/-- The first key that an earlier key repeats. -/
def repeatedKey? (seen : List String) : List String → Option String
  | [] => none
  | key :: keys =>
      if key ∈ seen then some key else repeatedKey? (key :: seen) keys

def check (template : Template) (fillings : List (String × String)) :
    Except Mismatch Unit :=
  match repeatedKey? [] (fillings.map Prod.fst) with
  | some key => .error (.repeated key)
  | none =>
      let supplied := (NameMap.ofList fillings).names
      let missing := template.slots.filter (· ∉ supplied)
      let unused := supplied.filter (· ∉ template.slots)
      if missing.isEmpty && unused.isEmpty then .ok ()
      else .error (.uneven missing unused)

/-- The text of a segment; a slot without a filling has none. -/
def fillSegment (fillings : List (String × String)) : Segment → String
  | .text content => content
  | .slot name => ((fillings.find? fun filling => filling.1 = name).map
      Prod.snd).getD ""

/-- Fills every slot of a template. -/
def fill (template : Template) (fillings : List (String × String)) :
    Except Mismatch String := do
  template.check fillings
  return String.join (template.map (fillSegment fillings))

end Template

end VideoRegistry
