import VideoRegistry.Config.Basic
import VideoRegistry.Diagnostic.Failure
import VideoRegistry.Literal
import VideoRegistry.Registry.Banner
import VideoRegistry.Registry.Declarator
import VideoRegistry.Registry.Schema

/-!
# Reading a registry

The sections of a registry document are read in document order, so a type has to
be declared before something names it.  Every element is checked against its
rule before it is read; reading resolves no dependencies between structs.
-/

namespace VideoRegistry

open Xml (Element)

namespace Registry

/-- Adds a type; a taken name is a fault. -/
def declare (registry : Registry) (name : String) (line : Nat)
    (definition : Definition) (kind : Declared) : Checked Registry :=
  match registry.declare? name line definition with
  | some extended => .ok extended
  | none => .error ⟨line, .alreadyDeclared kind name⟩

/-- Gives the enum of a name its values. -/
def fillEnum (registry : Registry) (name : String) (values : List EnumValue) :
    Registry :=
  { registry with
    types := registry.types.map fun entry =>
      if entry.name = name then { entry with definition := .enum values }
      else entry }

end Registry

/-! ## Types -/

def plainRule : ElementRule := {}

def defineRule : ElementRule where
  attributes := [⟨"category", ["define"]⟩]
  optionalAttributes := [⟨"requires", []⟩]
  children := [⟨"name", true⟩]
  optionalChildren := ["type"]

/-- The text of the last child of a tag. -/
def lastText (element : Element) (tag : String) : String :=
  (((element.named tag).getLast?).map Xml.ElementOf.text).getD ""

def readDefine (registry : Registry) (element : Element) : Checked Registry := do
  let (attributes, warnings) ← defineRule.check element
  let requires := attributes.get? "requires"
  let name := lastText element "name"
  let type := lastText element "type"
  let isDefine := fun other => registry.hasCategory other .define
  require (requires.all isDefine) element.line
    (.defineRequires name (requires.getD ""))
  require (type.isEmpty || isDefine type) element.line (.defineOfType name type)
  (registry.warn warnings).declare name element.line (.define requires) .define

def enumTypeRule : ElementRule where
  attributes := [⟨"category", ["enum"]⟩, ⟨"name", []⟩]

def readEnumType (registry : Registry) (element : Element) :
    Checked Registry := do
  let (attributes, warnings) ← enumTypeRule.check element
  (registry.warn warnings).declare (attributes.valueOf "name") element.line
    (.enum []) .enum

def inclusionRule : ElementRule where
  attributes := [⟨"category", ["include"]⟩, ⟨"name", []⟩]

def readInclusion (registry : Registry) (element : Element) :
    Checked Registry := do
  let (attributes, warnings) ← inclusionRule.check element
  (registry.warn warnings).declare (attributes.valueOf "name") element.line
    .inclusion .type

def externalRule : ElementRule where
  attributes := [⟨"name", []⟩, ⟨"requires", []⟩]

/-- A type that an included header provides. -/
def readExternal (registry : Registry) (element : Element) :
    Checked Registry := do
  let (attributes, warnings) ← externalRule.check element
  let name := attributes.valueOf "name"
  let required := attributes.valueOf "requires"
  require (registry.hasCategory required .inclusion) element.line
    (.typeRequires name required)
  (registry.warn warnings).declare name element.line (.external required) .type

/-! ## Structs -/

def memberRule : ElementRule where
  children := [⟨"name", true⟩, ⟨"type", true⟩]
  optionalChildren := ["comment", "enum"]

/-- Whether an element that gives an array size stands between brackets. -/
def betweenBrackets (place : Xml.Neighbourhood) : Bool :=
  let before := (Xml.textOf? place.before).getD ""
  let after := (Xml.textOf? place.after).getD ""
  (Text.trimEnd before.toList).getLast? = some '[' &&
    (Text.trimStart after.toList).head? = some ']'

/-- Reads one child of a member into what is known of the member so far. -/
def readMemberPart (member : Member) (place : Xml.Neighbourhood) :
    Checked Member :=
  let element := place.element
  if element.tag = "enum" then do
    require (betweenBrackets place) member.line (.arrayBrackets element.text)
    return { member with arraySizes := member.arraySizes ++ [element.text] }
  else if element.tag = "name" then do
    let modifiers ← readModifiers place.after
    return { member with
      name := element.text
      arraySizes := member.arraySizes ++ modifiers.arraySizes
      bitCount := modifiers.bitCount }
  else if element.tag = "type" then
    .ok { member with type := typeSpelling place }
  else .ok member

def readMemberParts (member : Member) (warnings : List Warning) :
    List Xml.Neighbourhood → Checked (Member × List Warning)
  | [] => .ok (member, warnings)
  | place :: rest => do
      let (_, noticed) ← plainRule.check place.element
      let member ← readMemberPart member place
      readMemberParts member (warnings ++ noticed) rest

/-- Reads a member that follows the given ones. -/
def readMember (earlier : List Member) (element : Element) :
    Checked (Member × List Warning) := do
  let (_, warnings) ← memberRule.check element
  let draft : Member := { type := {}, name := "", line := element.line }
  let (member, warnings) ← readMemberParts draft warnings element.placed
  require (!member.name.isEmpty) element.line .namelessMember
  require (member.arraySizes.isEmpty || member.bitCount.isNone) element.line
    (.arrayAndBitfield member.name)
  require (earlier.all fun other => other.name != member.name) element.line
    (.repeatedMember member.name)
  return (member, warnings)

def readMembers (members : List Member) (warnings : List Warning) :
    List Element → Checked (List Member × List Warning)
  | [] => .ok (members, warnings)
  | element :: rest => do
      let (member, noticed) ← readMember members element
      readMembers (members ++ [member]) (warnings ++ noticed) rest

def structRule : ElementRule where
  attributes := [⟨"category", ["struct"]⟩, ⟨"name", []⟩]
  optionalAttributes := [⟨"comment", []⟩, ⟨"requires", []⟩]
  children := [⟨"member", false⟩]
  optionalChildren := ["comment"]

def readStruct (registry : Registry) (element : Element) : Checked Registry := do
  let (attributes, warnings) ← structRule.check element
  let name := attributes.valueOf "name"
  let requires := attributes.get? "requires"
  require (requires.all registry.declares) element.line
    (.structRequires name (requires.getD ""))
  require (!registry.declares name) element.line (.alreadyDeclared .struct name)
  let (members, warnings) ← readMembers [] warnings (element.named "member")
  (registry.warn warnings).declare name element.line (.struct members) .struct

/-- Reads a declared type according to its category.  Without a category it is
a type of an included header, or else the type `int` and nothing besides. -/
def readType (registry : Registry) (element : Element) : Checked Registry := do
  let attributes ← attributesOf element
  match attributes.get? "category" with
  | some "define" => readDefine registry element
  | some "enum" => readEnumType registry element
  | some "include" => readInclusion registry element
  | some "struct" => readStruct registry element
  | some other => .error ⟨element.line, .unknownCategory other⟩
  | none =>
      if attributes.contains "requires" then readExternal registry element
      else do
        require (attributes.entries = [("name", "int")]) element.line .unknownType
        registry.declare "int" element.line .unknown .type

def typesRule : ElementRule where
  attributes := [⟨"comment", []⟩]
  children := [⟨"type", false⟩]

def readTypes (registry : Registry) (element : Element) : Checked Registry := do
  let (_, warnings) ← typesRule.check element
  (element.named "type").foldlM readType (registry.warn warnings)

/-! ## Values of enums -/

def valueRule : ElementRule where
  attributes := [⟨"name", []⟩, ⟨"value", []⟩]
  optionalAttributes := [⟨"comment", []⟩]

/-- Reads a value of an enum that follows the given ones. -/
def readValue (enumName : String) (earlier : List EnumValue)
    (element : Element) : Checked (EnumValue × List Warning) := do
  let (attributes, warnings) ← valueRule.check element
  let name := attributes.valueOf "name"
  let value := attributes.valueOf "value"
  let lead := Naming.valueLead enumName
  require (Text.beginsWith name lead) element.line (.valueLead name lead)
  require (Literal.isNumber value) element.line (.unknownConstant value)
  require (earlier.all fun other => other.name != name) element.line
    (.repeatedValue name enumName)
  return (⟨name, value, element.line⟩, warnings)

def readValues (enumName : String) (values : List EnumValue)
    (warnings : List Warning) :
    List Element → Checked (List EnumValue × List Warning)
  | [] => .ok (values, warnings)
  | element :: rest => do
      let (value, noticed) ← readValue enumName values element
      readValues enumName (values ++ [value]) (warnings ++ noticed) rest

def enumsRule : ElementRule where
  attributes := [⟨"name", []⟩, ⟨"type", ["enum"]⟩]
  children := [⟨"enum", false⟩]
  optionalChildren := ["comment"]

/-- Gives a declared enum its values, once. -/
def readEnums (registry : Registry) (element : Element) : Checked Registry := do
  let (attributes, warnings) ← enumsRule.check element
  let name := attributes.valueOf "name"
  match (registry.find? name).bind TypeEntry.values? with
  | none => .error ⟨element.line, .noSuchEnum name⟩
  | some filled =>
      require filled.isEmpty element.line (.enumAlreadyFilled name)
      let (values, warnings) ←
        readValues name [] warnings (element.named "enum")
      return (registry.warn warnings).fillEnum name values

/-! ## Extensions -/

def constantRule : ElementRule where
  attributes := [⟨"name", []⟩, ⟨"value", []⟩]

/-- Whether a name is one of the two constants that every extension gives about
itself; they are not registry constants. -/
def describesExtension (name : String) : Bool :=
  Text.endsWith name "_SPEC_VERSION" || Text.endsWith name "_EXTENSION_NAME"

def readConstant (registry : Registry) (extension : Extension)
    (element : Element) : Checked (Registry × Extension) := do
  let attributes ← attributesOf element
  let warnings ← checkAttributes element.line attributes constantRule.attributes []
  let registry :=
    registry.warn (unknownElements element.elements [] [] ++ warnings)
  let name := attributes.valueOf "name"
  let value := attributes.valueOf "value"
  if describesExtension name then return (registry, extension)
  require (Literal.isNumber value) element.line (.unknownConstant value)
  require (!extension.constants.contains name) element.line
    (.repeatedConstant name)
  return (registry, { extension with
    constants := extension.constants.insert name ⟨value, element.line⟩ })

def requiredTypeRule : ElementRule where
  attributes := [⟨"name", []⟩]
  optionalAttributes := [⟨"comment", []⟩]

/-- Reads a required type.  The name of a codec header is a dependency on the
extension that it stands for; any other type joins the extension's list. -/
def readRequiredType (config : Config) (registry : Registry)
    (extension : Extension) (element : Element) :
    Checked (Registry × Extension) := do
  let (attributes, warnings) ← requiredTypeRule.check element
  let registry := registry.warn warnings
  let name := attributes.valueOf "name"
  match config.dialect.headerExtension? name with
  | some provider =>
      require extension.depends.isNone element.line
        (.secondHeader extension.name name)
      match registry.extensionPosition? provider with
      | none => .error ⟨element.line, .unknownHeader extension.name name⟩
      | some position =>
          return (registry, { extension with depends := some position })
  | none =>
      require (registry.declares name) element.line (.unknownRequiredType name)
      require (!extension.types.contains name) element.line
        (.repeatedRequirement name extension.name)
      return ({ registry with
          ownership := registry.ownership.add name registry.extensions.length },
        { extension with types := extension.types ++ [name] })

def readRequirement (config : Config) (state : Registry × Extension)
    (element : Element) : Checked (Registry × Extension) :=
  if element.tag = "enum" then readConstant state.1 state.2 element
  else if element.tag = "type" then
    readRequiredType config state.1 state.2 element
  else .ok state

def requireRule : ElementRule where
  optionalChildren := ["enum", "type"]

def readRequire (config : Config) (state : Registry × Extension)
    (element : Element) : Checked (Registry × Extension) := do
  let (_, warnings) ← requireRule.check element
  element.elements.foldlM (readRequirement config)
    (state.1.warn warnings, { state.2 with requireLine := element.line })

def extensionRule : ElementRule where
  attributes := [⟨"name", []⟩, ⟨"comment", []⟩, ⟨"supported", []⟩]
  children := [⟨"require", false⟩]

def readExtension (config : Config) (registry : Registry) (element : Element) :
    Checked Registry := do
  let (attributes, warnings) ← extensionRule.check element
  let name := attributes.valueOf "name"
  let supported := attributes.valueOf "supported"
  require (registry.extensionPosition? name).isNone element.line
    (.repeatedExtension name)
  require (supported = config.dialect.supported) element.line
    (.unsupported name supported)
  let (registry, extension) ← (element.named "require").foldlM
    (readRequire config)
    (registry.warn warnings, { name := name, line := element.line })
  return { registry with extensions := registry.extensions ++ [extension] }

def extensionsRule : ElementRule where
  children := [⟨"extension", false⟩]

def readExtensions (config : Config) (registry : Registry) (element : Element) :
    Checked Registry := do
  let (_, warnings) ← extensionsRule.check element
  (element.named "extension").foldlM (readExtension config)
    (registry.warn warnings)

/-! ## The document -/

/-- The text of a comment, with the warnings about it. -/
def readComment (element : Element) : Checked (String × List Warning) :=
  (plainRule.check element).map fun (_, warnings) => (element.text, warnings)

def readSection (config : Config) (registry : Registry) (element : Element) :
    Checked Registry :=
  match element.tag with
  | "comment" => do
      let (comment, warnings) ← readComment element
      let registry := registry.warn warnings
      if isLicence comment then
        return { registry with copyright := banner comment }
      else return registry
  | "enums" => readEnums registry element
  | "extensions" => readExtensions config registry element
  | "types" => readTypes registry element
  | _ => .ok registry

def registryRule : ElementRule where
  children := [⟨"extensions", true⟩, ⟨"types", true⟩]
  optionalChildren := ["comment", "enums"]

def documentChildren : List ChildRule := [⟨"registry", true⟩]

/-- The sections of a document, read into a registry without other contents. -/
def readSections (config : Config) (document : Xml.Document) :
    Checked Registry := do
  checkCounts document.line document.elements documentChildren
  match document.elements.find? fun element => element.tag = "registry" with
  | none => .error ⟨document.line, .missingElement "registry"⟩
  | some element =>
      let (_, warnings) ← registryRule.check element
      let noticed := unknownElements document.elements documentChildren []
      element.elements.foldlM (readSection config)
        (Registry.warn {} (noticed ++ warnings))

/-- Reads a document.  A registry without a licence comment is refused. -/
def readDocument (config : Config) (document : Xml.Document) :
    Except Failure Registry := do
  let registry ← (readSections config document).orFail
  if registry.copyright.isEmpty then .error .noCopyright else .ok registry

end VideoRegistry
