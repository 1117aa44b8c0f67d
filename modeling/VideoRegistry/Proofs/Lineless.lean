import VideoRegistry.Proofs.AlikeDocuments

/-!
# Documents without lines

A line of a document only shows in faults and warnings.  So documents that are
the same but for lines have the same header, wherever line breaks stand.
-/

namespace VideoRegistry

namespace Xml

mutual

/-- A node whose lines are all forgotten. -/
def Node.lineless : Node → Node
  | .element content => .element (linelessElement content)
  | .text _ content => .text 0 content
  | .comment content => .comment content
  | .instruction target content => .instruction target content

def linelessElement : ElementOf Node → ElementOf Node
  | ⟨_, tag, attributes, children⟩ => ⟨0, tag, attributes, linelessNodes children⟩

def linelessNodes : List Node → List Node
  | [] => []
  | node :: rest => node.lineless :: linelessNodes rest

end

/-- A document whose lines are all forgotten. -/
def Document.lineless (document : Document) : Document :=
  ⟨linelessNodes document.nodes⟩

theorem linelessElement_eq (element : Element) :
    linelessElement element =
      ⟨0, element.tag, element.attributes, linelessNodes element.children⟩ := by
  cases element
  rfl

theorem linelessNodes_eq_map (nodes : List Node) :
    linelessNodes nodes = nodes.map Node.lineless := by
  induction nodes with
  | nil => rfl
  | cons node rest ih => rw [linelessNodes, ih, List.map_cons]

theorem filterMap_element?_lineless (nodes : List Node) :
    (linelessNodes nodes).filterMap Node.element? =
      (nodes.filterMap Node.element?).map linelessElement := by
  rw [linelessNodes_eq_map, List.filterMap_map, List.map_filterMap]
  congr 1
  funext node
  cases node <;> rfl

theorem keepsElements_lineless : KeepsElements linelessElement where
  tag element := by rw [linelessElement_eq]
  attributes element := by rw [linelessElement_eq]
  elements element := by
    rw [linelessElement_eq]
    exact filterMap_element?_lineless element.children

theorem text_lineless (element : Element) :
    (linelessElement element).text = element.text := by
  rcases element with ⟨line, tag, attributes, _ | ⟨_ | _ | _ | _, rest⟩⟩ <;> rfl

theorem textOf?_lineless (node : Option Node) :
    textOf? (node.map Node.lineless) = textOf? node := by
  rcases node with _ | (_ | _ | _ | _) <;> rfl

def linelessPlace (place : Neighbourhood) : Neighbourhood where
  before := place.before.map Node.lineless
  element := linelessElement place.element
  after := place.after.map Node.lineless

theorem neighbourhoods_lineless (before : Option Node) (nodes : List Node) :
    neighbourhoods (before.map Node.lineless) (linelessNodes nodes) =
      (neighbourhoods before nodes).map linelessPlace := by
  induction nodes generalizing before with
  | nil => rfl
  | cons node rest ih =>
      have hrest := ih (some node)
      rw [Option.map_some] at hrest
      cases node with
      | element content =>
          simp only [linelessNodes, Node.lineless, neighbourhoods, List.map_cons,
            linelessPlace, List.cons.injEq, Neighbourhood.mk.injEq, true_and]
          refine ⟨?_, hrest⟩
          rw [linelessNodes_eq_map, List.head?_map]
      | text line content => exact hrest
      | comment content => exact hrest
      | instruction target content => exact hrest

end Xml

open Xml (Element Neighbourhood)

theorem samePart_lineless (place : Neighbourhood) :
    SamePart place (Xml.linelessPlace place) where
  head := (Xml.keepsElements_lineless.sameTree place.element).head
  text _ := Xml.text_lineless place.element
  size _ := by
    rw [betweenBrackets, betweenBrackets, Xml.linelessPlace]
    simp only [Xml.textOf?_lineless]
  modifiers _ := by
    rw [neighbourText, neighbourText, Xml.linelessPlace, Xml.textOf?_lineless]
  spelling _ := by
    rw [typeSpelling, typeSpelling, Xml.linelessPlace]
    simp only [Xml.textOf?_lineless, Xml.text_lineless]

theorem keepsSection_lineless (element : Element) :
    KeepsSection Xml.linelessElement element where
  comment _ _ := Xml.text_lineless element
  types _ type _ := by
    refine ⟨fun child _ _ => Xml.text_lineless child, fun member _ => ?_⟩
    have hplaced : (Xml.linelessElement member).placed =
        member.placed.map Xml.linelessPlace := by
      rw [Xml.linelessElement_eq]
      exact Xml.neighbourhoods_lineless none member.children
    rw [hplaced, List.forall₂_map_right_iff, List.forall₂_same]
    exact fun place _ => samePart_lineless place

/-- Without its lines a document is read alike. -/
theorem sameReading_lineless (document : Xml.Document) :
    SameReading document document.lineless :=
  sameReading_of_keeps Xml.keepsElements_lineless
    (Xml.filterMap_element?_lineless document.nodes)
    fun _ _ element _ => keepsSection_lineless element

/-- Without its lines a document has the same header. -/
theorem generateFrom_lineless {config : Config} (document : Xml.Document)
    (text : String) :
    generateFrom config document.lineless = .ok text ↔
      generateFrom config document = .ok text :=
  (generateFrom_eq_ok_iff_of_sameReading (sameReading_lineless document) text).symm

end VideoRegistry
