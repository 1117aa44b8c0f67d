/-!
# Documents as trees

An element has the line of its opening bracket, its name and the names of its
attributes without name spaces, and its children.  A text has the line of its
first character.  Comments and processing instructions are nodes of their own,
so they part the texts around them.
-/

namespace VideoRegistry.Xml

structure ElementOf (ν : Type) where
  line : Nat
  tag : String
  attributes : List (String × String)
  children : List ν

inductive Node where
  | element (content : ElementOf Node)
  | text (line : Nat) (content : String)
  | comment (content : String)
  | instruction (target content : String)

abbrev Element := ElementOf Node

def Node.element? : Node → Option Element
  | .element found => some found
  | _ => none

/-- A document holds one element, among comments and instructions. -/
structure Document where
  nodes : List Node

namespace Document

def elements (document : Document) : List Element :=
  document.nodes.filterMap Node.element?

/-- The line that a document as a whole begins on. -/
def line (_ : Document) : Nat := 1

end Document

/-- An element between its neighbours. -/
structure Neighbourhood where
  before : Option Node
  element : Element
  after : Option Node

/-- The elements among some nodes, each with the node before and behind it. -/
def neighbourhoods (before : Option Node) : List Node → List Neighbourhood
  | [] => []
  | node :: rest =>
      let following := neighbourhoods (some node) rest
      match node with
      | .element found => ⟨before, found, rest.head?⟩ :: following
      | _ => following

namespace ElementOf

/-- The child elements, without the texts, comments and instructions. -/
def elements (element : Element) : List Element :=
  element.children.filterMap Node.element?

/-- The child elements, each between its neighbours. -/
def placed (element : Element) : List Neighbourhood :=
  neighbourhoods none element.children

/-- The child elements of one tag. -/
def named (element : Element) (tag : String) : List Element :=
  element.elements.filter fun child => child.tag = tag

/-- The text an element begins with; empty if it begins with anything else. -/
def text (element : Element) : String :=
  match element.children with
  | .text _ content :: _ => content
  | _ => ""

end ElementOf

/-- The text of a neighbour, if it is a text. -/
def textOf? : Option Node → Option String
  | some (.text _ content) => some content
  | _ => none

end VideoRegistry.Xml
