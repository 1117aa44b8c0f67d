import VideoRegistry.Xml.Chunk
import VideoRegistry.Xml.Namespace
import VideoRegistry.Xml.Node
import VideoRegistry.Xml.Reference

/-!
# Reading documents

The chunks of a document are put together to a tree.  The open elements form a
stack; a closing tag has to name the innermost one as it was written.  Texts
that touch become one node, with the line of the first.
-/

namespace VideoRegistry.Xml

/-- An element whose closing tag is still to come; its children are kept last
first. -/
structure OpenElement where
  line : Nat
  name : QualifiedName
  attributes : List (String × String)
  scope : Scope
  children : List Node

/-- What has been read: the open elements, innermost first, and the nodes of the
document itself, last first. -/
structure Progress where
  opened : List OpenElement
  nodes : List Node

namespace Progress

def start : Progress := ⟨[], []⟩

/-- Adds a node to the innermost open element. -/
def put (progress : Progress) (node : Node) : Progress :=
  match progress.opened with
  | [] => { progress with nodes := node :: progress.nodes }
  | inner :: outer =>
      { progress with
        opened := { inner with children := node :: inner.children } :: outer }

/-- Adds a text to the innermost open element, joining it to a text before. -/
def putText (progress : Progress) (line : Nat) (content : String) : Progress :=
  match progress.opened with
  | [] => progress
  | inner :: outer =>
      let children :=
        match inner.children with
        | .text first before :: rest => .text first (before ++ content) :: rest
        | children => .text line content :: children
      { progress with opened := { inner with children := children } :: outer }

def closed (element : OpenElement) : Node :=
  .element ⟨element.line, String.ofList element.name.localName,
    element.attributes, element.children.reverse⟩

/-- Whether another element may begin: inside one, or as the first of all. -/
def allowsElement (progress : Progress) : Bool :=
  !progress.opened.isEmpty ||
    progress.nodes.all fun node => node.element?.isNone

end Progress

def readComment? (body : List Char) : Option Node :=
  if body.all isAllowed && (Text.cut? ['-', '-'] body).isNone &&
      body.getLast? != some '-' then
    some (.comment (String.ofList body))
  else none

/-- An instruction; one that looks like a declaration has no place behind the
start of a document. -/
def readInstruction? (body : List Char) : Option Node :=
  let target := body.takeWhile isNameChar
  let content := skipSpaces (body.dropWhile isNameChar)
  if (Text.after? ['x', 'm', 'l', ' '] body).isNone && beginsName target &&
      content.all isAllowed then
    some (.instruction (String.ofList target) (String.ofList content))
  else none

def readCharacters? (body : List Char) : Option String :=
  if body.all isAllowed && (Text.cut? verbatimEnd body).isNone then
    (readText? body).map String.ofList
  else none

/-- The element that an opening tag begins. -/
def openElement? (outer : Scope) (line : Nat) (name : QualifiedName)
    (attributes : List RawAttribute) : Option OpenElement := do
  let read ← attributes.mapM fun attr =>
    (readValue? attr.value).map fun value => { attr with value := value }
  let (declared, attributes) ← declarations? read
  let scope := declared ++ outer
  if allowsElement scope name && allowsAttributes scope attributes then
    return ⟨line, name, attributes.map fun attr =>
      (String.ofList attr.name.localName, String.ofList attr.value), scope, []⟩
  else none

/-- Takes in one chunk. -/
def Progress.step? (progress : Progress) (line : Nat) :
    Chunk → Option Progress
  | .text body =>
      if progress.opened.isEmpty then
        if body.all isSpace then some progress else none
      else (readCharacters? body).map (progress.putText line)
  | .verbatim body =>
      if progress.opened.isEmpty || !body.all isAllowed then none
      else some (progress.putText line (String.ofList (readVerbatim body)))
  | .comment body => (readComment? body).map progress.put
  | .instruction body => (readInstruction? body).map progress.put
  | .tag body =>
      match readTag? body with
      | none => none
      | some (.opening name attributes closes) =>
          if progress.allowsElement then
            let outer := ((progress.opened.head?).map OpenElement.scope).getD []
            (openElement? outer line name attributes).map fun element =>
              if closes then progress.put (Progress.closed element)
              else { progress with opened := element :: progress.opened }
          else none
      | some (.closing name) =>
          match progress.opened with
          | inner :: outer =>
              if inner.name = name then
                some (Progress.put { progress with opened := outer }
                  (Progress.closed inner))
              else none
          | [] => none

def Progress.run? (progress : Progress) :
    List (Nat × Chunk) → Option Progress
  | [] => some progress
  | (line, chunk) :: rest =>
      (progress.step? line chunk).bind fun next => next.run? rest

/-- What may stand behind a part of a declaration: white space or its end. -/
def afterGap? (text : List Char) : Option (List Char) :=
  if text.head?.any isSpace then some (skipSpaces text)
  else if (Text.after? instructionEnd text).isSome then some text
  else none

/-- A part of a declaration that may be left out. -/
def afterOptional? (name text : List Char) : Option (List Char) :=
  if (Text.after? name text).isSome then (readAttribute? text).map Prod.snd
  else some text

/-- What follows the declaration of a document.  A declaration gives the
version, and after that the encoding and whether the document stands alone. -/
def afterDeclaration? (text : List Char) : Option (List Char) :=
  match Text.after? "<?xml ".toList text with
  | none => some text
  | some rest => do
      let rest := skipSpaces rest
      let _ ← Text.after? "version".toList rest
      let (_, rest) ← readAttribute? rest
      let rest ← afterGap? rest
      let hasEncoding := (Text.after? "encoding".toList rest).isSome
      let rest ← afterOptional? "encoding".toList rest
      let rest ← if hasEncoding then afterGap? rest else some rest
      let rest ← afterOptional? "standalone".toList rest
      Text.after? instructionEnd (skipSpaces rest)

/-- What follows a byte order mark. -/
def afterMark (text : List Char) : List Char :=
  match text with
  | '\uFEFF' :: rest => rest
  | _ => text

namespace Document

/-- Reads a document; fails if it is not well-formed. -/
def parse? (source : String) : Option Document := do
  let text := afterMark source.toList
  let body ← afterDeclaration? text
  let first := 1 + (text.take (text.length - body.length)).count '\n'
  let chunks ← chunks? body
  let progress ← Progress.start.run? (numbered first chunks)
  let document : Document := ⟨progress.nodes.reverse⟩
  if progress.opened.isEmpty && !document.elements.isEmpty then some document
  else none

end Document

end VideoRegistry.Xml
