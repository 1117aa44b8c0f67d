import VideoRegistry.Diagnostic.Cause
import VideoRegistry.NameMap
import VideoRegistry.Registry.Ownership
import VideoRegistry.Text.Pieces

/-!
# The registry

Declared types, the extensions that emit them, and what was noticed while
reading.  Types are known by name and extensions by position; a list of an
extension holds the names of the types it emits, in the order of emission.
-/

namespace VideoRegistry

inductive Category where
  | define
  | enum
  | struct
  | external
  | inclusion
  | unknown
deriving DecidableEq, Repr

/-- A value of an enum; its value is a number literal. -/
structure EnumValue where
  name : String
  value : String
  line : Nat
deriving DecidableEq, Repr

/-- A type as a member spells it: `const int8_t *` is the name `int8_t` between
`const` and `*`. -/
structure TypeSpelling where
  before : String := ""
  name : String := ""
  behind : String := ""
deriving DecidableEq, Repr, Inhabited

/-- What is left of the name of a registry type without its lead.  With an empty
lead there are no registry types. -/
def registryName? (typeLead name : String) : Option String :=
  if typeLead.isEmpty then none
  else (Text.after? typeLead.toList name.toList).map String.ofList

/-- The spelling of a type in the header: registry types lose their lead and
are qualified, others stay as they are. -/
def TypeSpelling.compose (spelling : TypeSpelling)
    (qualifier typeLead : String) : String :=
  let base :=
    match registryName? typeLead spelling.name with
    | some rest => qualifier ++ "::" ++ rest
    | none => spelling.name
  (if spelling.before.isEmpty then "" else spelling.before ++ " ") ++ base ++
    (if spelling.behind.isEmpty then "" else " " ++ spelling.behind)

/-- A member of a struct.  Array sizes are listed outermost first; a reader
never gives a member both array sizes and a bit count. -/
structure Member where
  type : TypeSpelling
  name : String
  arraySizes : List String := []
  bitCount : Option String := none
  line : Nat
deriving DecidableEq, Repr

inductive Definition where
  | define (requires : Option String)
  | enum (values : List EnumValue)
  | struct (members : List Member)
  | external (requires : String)
  | inclusion
  | unknown
deriving DecidableEq, Repr

def Definition.category : Definition → Category
  | .define _ => .define
  | .enum _ => .enum
  | .struct _ => .struct
  | .external _ => .external
  | .inclusion => .inclusion
  | .unknown => .unknown

structure TypeEntry where
  name : String
  line : Nat
  definition : Definition
deriving DecidableEq, Repr

def TypeEntry.category (entry : TypeEntry) : Category :=
  entry.definition.category

def TypeEntry.members? (entry : TypeEntry) : Option (List Member) :=
  match entry.definition with
  | .struct members => some members
  | _ => none

def TypeEntry.values? (entry : TypeEntry) : Option (List EnumValue) :=
  match entry.definition with
  | .enum values => some values
  | _ => none

/-- A constant that an extension gives, by its literal. -/
structure Constant where
  value : String
  line : Nat
deriving DecidableEq, Repr

structure Extension where
  name : String
  line : Nat
  depends : Option Nat := none
  requireLine : Nat := 0
  constants : NameMap Constant := NameMap.empty
  types : List String := []
deriving DecidableEq, Repr

structure Registry where
  copyright : String := ""
  types : List TypeEntry := []
  ownership : Ownership := Ownership.empty
  extensions : List Extension := []
  warnings : List Warning := []
deriving DecidableEq, Repr

namespace Registry

/-- The position of a type among the declared types. -/
def position? (registry : Registry) (name : String) : Option Nat :=
  registry.types.findIdx? fun entry => entry.name = name

def find? (registry : Registry) (name : String) : Option TypeEntry :=
  (registry.position? name).bind fun position => registry.types[position]?

def declares (registry : Registry) (name : String) : Bool :=
  (registry.position? name).isSome

theorem find?_eq (registry : Registry) (name : String) :
    registry.find? name = registry.types.find? fun entry => entry.name = name :=
  List.find?_eq_bind_findIdx?_getElem?.symm

theorem declares_eq_isSome (registry : Registry) (name : String) :
    registry.declares name = (registry.find? name).isSome := by
  rw [declares, position?, List.findIdx?_isSome, find?_eq, List.isSome_find?]

def hasCategory (registry : Registry) (name : String) (category : Category) :
    Bool :=
  (registry.find? name).any fun entry => entry.category = category

def isStruct (registry : Registry) (name : String) : Bool :=
  registry.hasCategory name .struct

/-- The line a type was declared on. -/
def lineOf (registry : Registry) (name : String) : Nat :=
  ((registry.find? name).map TypeEntry.line).getD 0

/-- The members of a type; none if it is no struct. -/
def membersOf (registry : Registry) (name : String) : List Member :=
  ((registry.find? name).bind TypeEntry.members?).getD []

/-- The structs among the types of a struct's members, in member order and each
once. -/
def memberStructs (registry : Registry) (name : String) : List String :=
  (((registry.membersOf name).map fun member => member.type.name).filter
    registry.isStruct).eraseDups

/-- The entries of all structs with their members, in declaration order. -/
def structs (registry : Registry) : List (TypeEntry × List Member) :=
  registry.types.filterMap fun entry =>
    entry.members?.map fun members => (entry, members)

/-- Adds a type, unless its name is taken. -/
def declare? (registry : Registry) (name : String) (line : Nat)
    (definition : Definition) : Option Registry :=
  if registry.declares name then none
  else some { registry with
    types := registry.types ++ [⟨name, line, definition⟩] }

/-- The position of the first extension of the given name. -/
def extensionPosition? (registry : Registry) (name : String) : Option Nat :=
  registry.extensions.findIdx? fun extension => extension.name = name

def extensionName (registry : Registry) (position : Nat) : String :=
  ((registry.extensions[position]?).map Extension.name).getD ""

/-- The types that the extension at a position lists. -/
def listOf (registry : Registry) (position : Nat) : List String :=
  ((registry.extensions[position]?).map Extension.types).getD []

/-- The constants that the extension at a position gives. -/
def constantsOf (registry : Registry) (position : Nat) : NameMap Constant :=
  ((registry.extensions[position]?).map Extension.constants).getD NameMap.empty

def warn (registry : Registry) (warnings : List Warning) : Registry :=
  { registry with warnings := registry.warnings ++ warnings }

end Registry

end VideoRegistry
