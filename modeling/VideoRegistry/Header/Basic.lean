import VideoRegistry.Header.Struct

/-!
# The header

The header holds the enums of all extensions and then the structs of all
extensions, each in a section of its extension.  It is built as blocks first and
put into its frames at the end.
-/

namespace VideoRegistry

/-- The blocks of one kind that an extension emits, in the order of its list. -/
structure HeaderSection where
  extension : String
  blocks : List Block
deriving DecidableEq, Repr

def HeaderSection.render (part : HeaderSection) : String :=
  if part.blocks.isEmpty then ""
  else "\n    //=== " ++ part.extension ++ " ===\n" ++
    String.join (part.blocks.map fun block => "\n" ++ block.text)

structure Header where
  enums : List HeaderSection
  structs : List HeaderSection
deriving DecidableEq, Repr

namespace Header

/-- The blocks that a list of types gives; a type of another kind gives none. -/
def blocksOf (registry : Registry)
    (block? : TypeEntry → Option (Except Failure Block)) :
    List String → Except Failure (List Block)
  | [] => .ok []
  | name :: rest =>
      match (registry.find? name).bind block? with
      | none => blocksOf registry block? rest
      | some result => do
          let block ← result
          let blocks ← blocksOf registry block? rest
          return block :: blocks

def sectionsOf (registry : Registry)
    (block? : TypeEntry → Option (Except Failure Block)) :
    List Extension → Except Failure (List HeaderSection)
  | [] => .ok []
  | extension :: rest => do
      let blocks ← blocksOf registry block? extension.types
      let sections ← sectionsOf registry block? rest
      return ⟨extension.name, blocks⟩ :: sections

def enumBlock? (config : Config) (entry : TypeEntry) :
    Option (Except Failure Block) :=
  entry.values?.map (enumBlock config entry)

def structBlock? (config : Config) (registry : Registry) (entry : TypeEntry) :
    Option (Except Failure Block) :=
  entry.members?.map (structBlock config registry entry)

/-- The blocks of the header of a checked registry. -/
def ofRegistry (config : Config) (registry : Registry) :
    Except Failure Header := do
  let enums ← sectionsOf registry (enumBlock? config) registry.extensions
  let structs ←
    sectionsOf registry (structBlock? config registry) registry.extensions
  return ⟨enums, structs⟩

def includeLine (target : String) : String :=
  "#include <" ++ target ++ ">"

/-- The text of a header. -/
def render (config : Config) (copyright : String) (header : Header) :
    Except Template.Mismatch String := do
  let enums ← enumsFrame.fill
    [("enums", String.join (header.enums.map HeaderSection.render))]
  let structs ← structsFrame.fill
    [("structs", String.join (header.structs.map HeaderSection.render))]
  frame.fill
    [("copyright", copyright), ("guard", config.output.guard),
      ("includes", "\n".intercalate (config.includes.map includeLine)),
      ("namespace", config.names.outerNamespace),
      ("videoNamespace", config.names.videoNamespace),
      ("videoNamespaceDefault", config.names.videoNamespaceDefault),
      ("enums", enums), ("structs", structs)]

end Header

/-- The header text of a checked registry. -/
def Registry.emit (registry : Registry) (config : Config) :
    Except Failure String := do
  let header ← Header.ofRegistry config registry
  (header.render config registry.copyright).mapError Failure.template

end VideoRegistry
