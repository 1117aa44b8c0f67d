import VideoRegistry.Diagnostic.Located

/-!
# Causes of faults and warnings

What can be wrong with a registry document, as data, and the wording of each
cause.  `Fault` holds the causes that end the work, `Finding` those that are
reported as warnings.
-/

namespace VideoRegistry

/-- The kinds of declaration that may clash with an earlier one. -/
inductive Declared where
  | define
  | enum
  | type
  | struct
deriving DecidableEq, Repr

def Declared.word : Declared → String
  | .define => "define"
  | .enum => "enum"
  | .type => "type"
  | .struct => "struct"

/-- What is wrong with the text behind a member's name. -/
inductive ModifierFault where
  | noOpening
  | noClosing
  | emptyBrackets
  | nestedOpening
  | noBitCount
  | unknown
deriving DecidableEq, Repr

def ModifierFault.wording (text : String) : ModifierFault → String
  | .noOpening => s!"could not find '[' in <{text}>"
  | .noClosing => s!"could not find ']' in <{text}>"
  | .emptyBrackets => s!"missing content between '[' and ']' in <{text}>"
  | .nestedOpening => s!"mismatched '[' in <{text}>"
  | .noBitCount => s!"missing bit count in <{text}>"
  | .unknown => s!"unknown modifier <{text}>"

inductive Fault where
  | repeatedAttribute (name : String)
  | missingAttribute (name : String)
  | unexpectedValue (name token : String)
  | missingElement (tag : String)
  | repeatedElement (tag : String) (count : Nat)
  | modifier (fault : ModifierFault) (text : String)
  | unknownCategory (category : String)
  | unknownType
  | alreadyDeclared (kind : Declared) (name : String)
  | defineRequires (name required : String)
  | defineOfType (name type : String)
  | typeRequires (name required : String)
  | structRequires (name required : String)
  | arrayBrackets (size : String)
  | namelessMember
  | arrayAndBitfield (member : String)
  | repeatedMember (member : String)
  | noSuchEnum (name : String)
  | enumAlreadyFilled (name : String)
  | valueLead (value lead : String)
  | unknownConstant (value : String)
  | repeatedValue (value enum : String)
  | repeatedExtension (name : String)
  | unsupported (extension supported : String)
  | repeatedConstant (name : String)
  | secondHeader (extension header : String)
  | unknownHeader (extension header : String)
  | unknownRequiredType (name : String)
  | repeatedRequirement (type extension : String)
  | foreignStruct (user used owner extension : String)
  | unlistedStruct (user used extension : String)
  | unownedStruct (name : String)
  | sharedStruct (name : String)
  | unknownMemberType (type : String)
  | unknownArraySize (member size : String)
  | clashingEnumerator (value enum enumerator : String)
  | decoratedBitfield (member type : String)
  | decoratedArray (member type : String)
  | emptyEnum (member enum : String)
deriving DecidableEq, Repr

def Fault.wording : Fault → String
  | .repeatedAttribute name => s!"attribute <{name}> listed more than once"
  | .missingAttribute name => s!"missing attribute <{name}>"
  | .unexpectedValue name token =>
      s!"unexpected attribute value <{token}> in attribute <{name}>"
  | .missingElement tag => s!"missing required element <{tag}>"
  | .repeatedElement tag count =>
      s!"required element <{tag}> is supposed to be listed exactly once, " ++
        s!"but is listed {count}"
  | .modifier fault text => fault.wording text
  | .unknownCategory category => s!"unknown category <{category}> encountered"
  | .unknownType => "unknown type"
  | .alreadyDeclared kind name => kind.word ++ s!" <{name}> already specified"
  | .defineRequires name required =>
      s!"define <{name}> requires unknown type <{required}>"
  | .defineOfType name type => s!"define <{name}> of unknown type <{type}>"
  | .typeRequires name required => s!"type <{name}> requires unknown <{required}>"
  | .structRequires name required =>
      s!"struct <{name}> requires unknown type <{required}>"
  | .arrayBrackets size =>
      s!"struct member array specification is ill-formatted: <{size}>"
  | .namelessMember => "struct member without a name"
  | .arrayAndBitfield member =>
      s!"struct member <{member}> is both an array and a bitfield"
  | .repeatedMember member => s!"struct member name <{member}> already used"
  | .noSuchEnum name => s!"enum <{name}> is not listed as enum in the types section"
  | .enumAlreadyFilled name => s!"enum <{name}> already holds values"
  | .valueLead value lead =>
      s!"encountered enum value <{value}> that does not begin with " ++
        s!"expected prefix <{lead}>"
  | .unknownConstant value => s!"enum value uses unknown constant <{value}>"
  | .repeatedValue value enum =>
      s!"enum value <{value}> already part of enum <{enum}>"
  | .repeatedExtension name => s!"already encountered extension <{name}>"
  | .unsupported extension supported =>
      s!"extension <{extension}> has unknown supported type <{supported}>"
  | .repeatedConstant name => s!"required enum <{name}> already specified"
  | .secondHeader extension header =>
      s!"extension <{extension}> already depends on another header, got <{header}>"
  | .unknownHeader extension header =>
      s!"extension <{extension}> uses unknown header <{header}>"
  | .unknownRequiredType name => s!"unknown required type <{name}>"
  | .repeatedRequirement type extension =>
      s!"type <{type}> already required by extension <{extension}>"
  | .foreignStruct user used owner extension =>
      s!"struct <{user}> uses struct <{used}>, which is required by extension " ++
        s!"<{owner}>, but extension <{extension}> does not depend on it"
  | .unlistedStruct user used extension =>
      s!"struct <{user}> uses struct <{used}>, which is required neither by " ++
        s!"extension <{extension}> nor by the extension it depends on"
  | .unownedStruct name => s!"structure <{name}> not required by any extension"
  | .sharedStruct name => s!"structure <{name}> required by more than one extension"
  | .unknownMemberType type => s!"struct member uses unknown type <{type}>"
  | .unknownArraySize member size =>
      s!"struct member <{member}> uses unknown constant <{size}> as array size"
  | .clashingEnumerator value enum enumerator =>
      s!"enum value <{value}> of enum <{enum}> maps to already used name " ++
        s!"<{enumerator}>"
  | .decoratedBitfield member type =>
      s!"bitfield member <{member}> of type <{type}> must not be decorated"
  | .decoratedArray member type =>
      s!"array member <{member}> of type <{type}> must not be decorated"
  | .emptyEnum member enum =>
      s!"struct member <{member}> uses enum <{enum}> which has no values"

inductive Finding where
  | unknownAttribute (name : String)
  | unexpectedValue (name token : String)
  | unknownElement (tag : String)
  | neverRequired (type struct : String)
deriving DecidableEq, Repr

def Finding.wording : Finding → String
  | .unknownAttribute name => s!"unknown attribute <{name}>"
  | .unexpectedValue name token =>
      s!"unexpected attribute value <{token}> in attribute <{name}>"
  | .unknownElement tag => s!"unknown element <{tag}>"
  | .neverRequired type struct =>
      s!"struct member type <{type}> used in struct <{struct}> is never " ++
        "required for any extension"

abbrev SpecError := Located Fault

abbrev Warning := Located Finding

def SpecError.text (error : SpecError) : String :=
  error.faultText Fault.wording

def Warning.text (warning : Warning) : String :=
  warning.warningText Finding.wording

/-- The outcome of a step that may end with a fault. -/
abbrev Checked := Except SpecError

/-- Ends with a fault unless a condition holds. -/
def require (holds : Bool) (line : Nat) (fault : Fault) : Checked Unit :=
  if holds then .ok () else .error ⟨line, fault⟩

end VideoRegistry
