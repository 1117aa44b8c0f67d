import VideoRegistry.Header.Enum

/-!
# Blocks of structs

A struct is emitted with the layout of its native type: it converts to it by
reference, compares member by member, and gives every member that is no bitfield
a default.
-/

namespace VideoRegistry.Header

/-- The external types known to have a comparison of their own.  Values of other
external types are compared as bytes. -/
def comparable : List String :=
  ["char", "double", "DWORD", "float", "HANDLE", "HINSTANCE", "HMONITOR", "HWND",
    "int", "int8_t", "int16_t", "int32_t", "int64_t", "LPCWSTR", "size_t",
    "uint8_t", "uint16_t", "uint32_t", "uint64_t"]

/-- Whether a member is compared as bytes. -/
def comparesBytes (registry : Registry) (member : Member) : Bool :=
  registry.hasCategory member.type.name .external &&
    member.type.behind.isEmpty && member.arraySizes.isEmpty &&
    !comparable.contains member.type.name

def comparison (registry : Registry) (member : Member) : String :=
  let name := member.name
  if comparesBytes registry member then
    "( memcmp( &" ++ name ++ ", &rhs." ++ name ++ ", sizeof( " ++
      member.type.name ++ " ) ) == 0 )"
  else "( " ++ name ++ " == rhs." ++ name ++ " )"

def compareOperators (registry : Registry) (name : String)
    (members : List Member) : Except Failure String :=
  (compareFrame.fill [("name", name),
    ("compareMembers", "\n          && ".intercalate
      (members.map (comparison registry)))]).mapError Failure.template

def undecorated (type : TypeSpelling) : Bool :=
  type.before.isEmpty && type.behind.isEmpty

/-- An array of native elements, wrapped by its number of dimensions. -/
def arrayWrapper (config : Config) (element : String) (sizes : List String) :
    String :=
  config.names.outerNamespace ++ "::ArrayWrapper" ++ toString sizes.length ++
    "D<" ++ element ++ ", " ++ ", ".intercalate sizes ++ ">"

/-- The type of a member in the header.  A bitfield of a registry type keeps the
native type; it and an array have nothing around their type. -/
def memberType (config : Config) (member : Member) : Checked String :=
  let type := member.type
  if member.bitCount.isSome && Text.beginsWith type.name config.names.typeLead then
    (require (undecorated type) member.line
      (.decoratedBitfield member.name type.name)).map fun _ => type.name
  else if member.arraySizes.isEmpty then
    .ok (type.compose config.names.qualifiedNamespace config.names.typeLead)
  else
    (require (undecorated type) member.line
      (.decoratedArray member.name type.name)).map fun _ =>
        arrayWrapper config type.name member.arraySizes

/-- The default of a member whose type in the header is `typeText`: the first
value of its enum, or else an empty pair of braces. -/
def defaultValue (registry : Registry) (member : Member) (typeText : String) :
    Checked String :=
  match (registry.find? member.type.name).bind TypeEntry.values? with
  | none => .ok "\x7b\x7d"
  | some values =>
      if !member.arraySizes.isEmpty || !member.type.behind.isEmpty then
        .ok "\x7b\x7d"
      else
        match values with
        | [] => .error ⟨member.line, .emptyEnum member.name member.type.name⟩
        | first :: _ => .ok (typeText ++ "::" ++
            Naming.enumerator member.type.name first.name)

/-- The declaration of a member, with its bit count or its default. -/
def memberLine (config : Config) (registry : Registry) (member : Member) :
    Checked String := do
  let typeText ← memberType config member
  let ending ←
    match member.bitCount with
    | some bits => .ok (" : " ++ bits)
    | none => (defaultValue registry member typeText).map (" = " ++ ·)
  return "    " ++ typeText ++ " " ++ member.name ++ ending ++ ";\n"

def structBlock (config : Config) (registry : Registry) (entry : TypeEntry)
    (members : List Member) : Except Failure Block := do
  let name := declaredName config entry.name
  let compare ← compareOperators registry name members
  let lines ← (members.mapM (memberLine config registry)).orFail
  let text ← (structFrame.fill
    [("structureType", name), ("nativeType", entry.name),
      ("compareOperators", compare), ("members", String.join lines)]).mapError
      Failure.template
  return ⟨entry.name, name, text⟩

end VideoRegistry.Header
