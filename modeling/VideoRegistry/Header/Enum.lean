import VideoRegistry.Config.Basic
import VideoRegistry.Diagnostic.Failure
import VideoRegistry.Header.Templates
import VideoRegistry.Naming
import VideoRegistry.Registry.Basic

/-!
# Blocks of enums

An enum is emitted as a scoped enum without the lead of its name.  Its
enumerators are the renamed values; two values may not get one name.
-/

namespace VideoRegistry

/-- A declaration of the header: the registry name of the declared type, the
name it has in the header, and the text. -/
structure Block where
  source : String
  name : String
  text : String
deriving DecidableEq, Repr

namespace Header

/-- The name that a registry type has in the header. -/
def declaredName (config : Config) (type : String) : String :=
  Text.stripLead type config.names.typeLead

/-- The enumerators of an enum with their literals; none is in `used`. -/
def enumerators (enum : String) (used : List String) :
    List EnumValue → Checked (List (String × String))
  | [] => .ok []
  | value :: rest => do
      let name := Naming.enumerator enum value.name
      require (!used.contains name) value.line
        (.clashingEnumerator value.name enum name)
      let following ← enumerators enum (used ++ [name]) rest
      return (name, value.value) :: following

def enumeratorLine (enumerator : String × String) : String :=
  "    " ++ enumerator.1 ++ " = " ++ enumerator.2 ++ ",\n"

/-- A text without the last occurrence of a character. -/
def eraseLast (c : Char) (text : String) : String :=
  String.ofList (text.toList.reverse.erase c).reverse

/-- What stands between the braces: a line for every enumerator, the last one
without a comma. -/
def enumBody (enumerators : List (String × String)) : String :=
  if enumerators.isEmpty then ""
  else "\n" ++ eraseLast ',' (String.join (enumerators.map enumeratorLine)) ++ "  "

def enumBlock (config : Config) (entry : TypeEntry) (values : List EnumValue) :
    Except Failure Block := do
  let enumerators ← (enumerators entry.name [] values).orFail
  let name := declaredName config entry.name
  let text ← (enumFrame.fill
    [("enumName", name), ("enumValues", enumBody enumerators)]).mapError
      Failure.template
  return ⟨entry.name, name, text⟩

end Header

end VideoRegistry
