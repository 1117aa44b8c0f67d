import VideoRegistry.Diagnostic.Cause
import VideoRegistry.NameMap
import VideoRegistry.Text.Pieces
import VideoRegistry.Xml.Node

/-!
# Rules for elements

Which attributes and children an element has to have or may have.  A missing
part and a required attribute with a value of its own end the work; what is
merely unknown, and an optional attribute with such a value, is a warning.
-/

namespace VideoRegistry

abbrev Attributes := NameMap String

/-- An attribute whose value is a list of allowed tokens; with none given, every
value is allowed. -/
structure AttributeRule where
  name : String
  allowed : List String := []
deriving DecidableEq, Repr

/-- A child that is required, at least once or exactly once. -/
structure ChildRule where
  tag : String
  once : Bool
deriving DecidableEq, Repr

/-- The tokens of a value that a rule does not allow. -/
def AttributeRule.unexpected (rule : AttributeRule) (value : String) :
    List String :=
  if rule.allowed.isEmpty then []
  else (Text.tokens value ",").filter fun token => !rule.allowed.contains token

def collectAttributes (line : Nat) (attributes : Attributes) :
    List (String × String) → Checked Attributes
  | [] => .ok attributes
  | (name, value) :: rest =>
      if attributes.contains name then .error ⟨line, .repeatedAttribute name⟩
      else collectAttributes line (attributes.insert name value) rest

/-- The attributes of an element by name.  Two attributes of one name, in
different name spaces, are a fault. -/
def attributesOf (element : Xml.Element) : Checked Attributes :=
  collectAttributes element.line NameMap.empty element.attributes

def Attributes.valueOf (attributes : Attributes) (name : String) : String :=
  (attributes.get? name).getD ""

/-- The first rule that the attributes break. -/
def checkRequired (line : Nat) (attributes : Attributes) :
    List AttributeRule → Checked Unit
  | [] => .ok ()
  | rule :: rules =>
      match attributes.get? rule.name with
      | none => .error ⟨line, .missingAttribute rule.name⟩
      | some value =>
          match rule.unexpected value with
          | token :: _ => .error ⟨line, .unexpectedValue rule.name token⟩
          | [] => checkRequired line attributes rules

/-- What there is to say about an attribute that is not required. -/
def attributeWarnings (line : Nat) (required optional : List AttributeRule)
    (name value : String) : List Warning :=
  if required.any fun rule => rule.name = name then []
  else
    match optional.find? fun rule => rule.name = name with
    | none => Located.warnUnless false line (.unknownAttribute name) []
    | some rule =>
        if rule.allowed.isEmpty then []
        else Located.warnAbout (rule.allowed.contains ·) (fun _ => line)
          (.unexpectedValue name ·) (Text.tokens value ",")

theorem attributeWarnings_eq (line : Nat) (required optional : List AttributeRule)
    (name value : String) :
    attributeWarnings line required optional name value =
      if required.any fun rule => rule.name = name then []
      else
        match optional.find? fun rule => rule.name = name with
        | none => [⟨line, .unknownAttribute name⟩]
        | some rule => (rule.unexpected value).map fun token =>
            ⟨line, .unexpectedValue name token⟩ := by
  unfold attributeWarnings
  split
  · rfl
  · split
    · rfl
    · next rule _ =>
        rw [Located.warnAbout_eq, AttributeRule.unexpected]
        split <;> rfl

def checkAttributes (line : Nat) (attributes : Attributes)
    (required optional : List AttributeRule) : Checked (List Warning) :=
  (checkRequired line attributes required).map fun _ =>
    attributes.entries.flatMap fun (name, value) =>
      attributeWarnings line required optional name value

/-- A warning for every child that is neither required nor optional. -/
def unknownElements (children : List Xml.Element) (required : List ChildRule)
    (optional : List String) : List Warning :=
  Located.warnAbout
    (fun child => (required.any fun rule => rule.tag = child.tag) ||
      optional.contains child.tag)
    Xml.ElementOf.line (fun child => .unknownElement child.tag) children

theorem unknownElements_eq (children : List Xml.Element) (required : List ChildRule)
    (optional : List String) :
    unknownElements children required optional =
      (children.filter fun child =>
        !((required.any fun rule => rule.tag = child.tag) ||
          optional.contains child.tag)).map fun child =>
        ⟨child.line, .unknownElement child.tag⟩ :=
  Located.warnAbout_eq ..

/-- Counts the required children. -/
def checkCounts (line : Nat) (children : List Xml.Element) :
    List ChildRule → Checked Unit
  | [] => .ok ()
  | rule :: rules => do
      let count := children.countP fun child => child.tag = rule.tag
      require (0 < count) line (.missingElement rule.tag)
      require (!rule.once || count = 1) line (.repeatedElement rule.tag count)
      checkCounts line children rules

/-- What an element has to have and may have. -/
structure ElementRule where
  attributes : List AttributeRule := []
  optionalAttributes : List AttributeRule := []
  children : List ChildRule := []
  optionalChildren : List String := []

/-- Checks an element and gives its attributes and the warnings about it. -/
def ElementRule.check (rule : ElementRule) (element : Xml.Element) :
    Checked (Attributes × List Warning) := do
  let attributes ← attributesOf element
  let warnings ← checkAttributes element.line attributes rule.attributes
    rule.optionalAttributes
  checkCounts element.line element.elements rule.children
  return (attributes, warnings ++
    unknownElements element.elements rule.children rule.optionalChildren)

end VideoRegistry
