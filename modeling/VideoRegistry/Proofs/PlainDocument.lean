import VideoRegistry.Registry.Reader

/-!
# Plain documents

Registry documents without anything optional: a licence comment, the type `int`,
structs and extensions, every element on the first line.  With the names of
`brief` they are small enough to be read by evaluation.
-/

namespace VideoRegistry.Plain

open Xml (Node Document)

/-- Registry types begin with `S`, and the header `v/va.h` stands for the
extension `va`. -/
def brief : Config where
  names := { typeLead := "S" }
  dialect := { headerDir := "v/", headerStem := "v" }

/-- A member whose type is a name with a text behind it. -/
def member (type behind name : String) : Member where
  type := { name := type, behind := behind }
  name := name
  line := 1

/-- An extension with one `require` element. -/
def extension (name : String) (depends : Option Nat) (types : List String) :
    Extension where
  name := name
  line := 1
  depends := depends
  requireLine := 1
  types := types

/-- The registry of some structs and extensions, with the lists in step with the
ownership. -/
def registry (structs : List (String × List Member))
    (extensions : List Extension) : Registry where
  copyright := banner "Copyright"
  types := ⟨"int", 1, .unknown⟩ ::
    structs.map fun struct => ⟨struct.1, 1, .struct struct.2⟩
  ownership := ⟨extensions.zipIdx.flatMap fun entry =>
    entry.1.types.map fun type => (type, entry.2)⟩
  extensions := extensions

def element (tag : String) (attributes : List (String × String))
    (children : List Node) : Node :=
  .element ⟨1, tag, attributes, children⟩

def memberNode (member : Member) : Node :=
  element "member" []
    [element "type" [] [.text 1 member.type.name],
      .text 1 (member.type.behind ++ " "),
      element "name" [] [.text 1 member.name]]

def structNode (struct : String × List Member) : Node :=
  element "type" [("category", "struct"), ("name", struct.1)]
    (struct.2.map memberNode)

/-- An extension that requires codec headers and types by name. -/
def extensionNode (extension : String × List String) : Node :=
  element "extension"
    [("name", extension.1), ("comment", ""), ("supported", "vulkan")]
    [element "require" [] (extension.2.map fun required =>
      element "type" [("name", required)] [])]

def document (structs : List (String × List Member))
    (extensions : List (String × List String)) : Document where
  nodes := [element "registry" []
    [element "comment" [] [.text 1 "Copyright"],
      element "types" [("comment", "")]
        (element "type" [("name", "int")] [] :: structs.map structNode),
      element "extensions" [] (extensions.map extensionNode)]]

/-- A document with declarations of any kind and with sections of enum values. -/
def documentOf (types values : List Node)
    (extensions : List (String × List String)) : Document where
  nodes := [element "registry" []
    (element "comment" [] [.text 1 "Copyright"] ::
      element "types" [("comment", "")] types :: values ++
        [element "extensions" [] (extensions.map extensionNode)])]

end VideoRegistry.Plain
