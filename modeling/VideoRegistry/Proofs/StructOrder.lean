import VideoRegistry.Proofs.Lineless
import VideoRegistry.Proofs.Declarations

/-!
# The order of struct declarations

Two documents that differ in the order of their struct declarations, and else in
lines at most, have the same header, or none of them has one.  The structs must
not name types that they require, since these have to be declared before.
-/

namespace VideoRegistry

open Xml (Element Node SameHead SameTree)
open Relation (EqvGen)

instance : DecidablePred DeclaresStruct := fun element =>
  inferInstanceAs (Decidable (_ ∈ element.attributes))

/-! ## Structs that pass other types -/

/-- A struct that names no type it requires, or no struct at all. -/
def PlainlyDeclared (element : Element) : Prop :=
  DeclaresStruct element → RequiresNothing element

theorem eqvGen_swapped_cons {elements others : List Element} (element : Element)
    (hswaps : EqvGen Swapped elements others) :
    EqvGen Swapped (element :: elements) (element :: others) := by
  induction hswaps with
  | rel _ _ hswapped =>
      cases hswapped with
      | mk front first second back hstruct hnothing hother =>
          exact .rel _ _
            (.mk (element :: front) first second back hstruct hnothing hother)
  | refl elements => exact .refl _
  | symm _ _ _ ih => exact .symm _ _ ih
  | trans _ _ _ _ _ ihfirst ihsecond => exact .trans _ _ _ ihfirst ihsecond

/-- Of two neighbours one of which is a struct either may come first. -/
theorem eqvGen_swapped_pair (front back : List Element) {first second : Element}
    (hstruct : DeclaresStruct first ∨ DeclaresStruct second)
    (hfirst : PlainlyDeclared first) (hsecond : PlainlyDeclared second) :
    EqvGen Swapped (front ++ first :: second :: back)
      (front ++ second :: first :: back) := by
  rcases hstruct with hstruct | hstruct
  · exact .rel _ _ (.mk front first second back hstruct (hfirst hstruct) hsecond)
  · exact .symm _ _ (.rel _ _
      (.mk front second first back hstruct (hsecond hstruct) hfirst))

/-- An element may come to the front of types that it may pass one by one. -/
theorem eqvGen_swapped_front {front : List Element} (back : List Element)
    {element : Element}
    (hstruct : ∀ other ∈ front, DeclaresStruct other ∨ DeclaresStruct element)
    (hfront : ∀ other ∈ front, PlainlyDeclared other)
    (helement : PlainlyDeclared element) :
    EqvGen Swapped (front ++ element :: back) (element :: (front ++ back)) := by
  induction front with
  | nil => exact .refl _
  | cons first rest ih =>
      obtain ⟨hfirstStruct, hrestStruct⟩ := List.forall_mem_cons.1 hstruct
      obtain ⟨hfirst, hrest⟩ := List.forall_mem_cons.1 hfront
      have hpassed := eqvGen_swapped_cons first (ih hrestStruct hrest)
      exact .trans _ _ _ hpassed
        (eqvGen_swapped_pair [] (rest ++ back) hfirstStruct hfirst helement)

/-- What the lists have in common without and with regard to order. -/
structure SameButStructs (elements others : List Element) : Prop where
  rest : others.filter (¬ DeclaresStruct ·) =
    elements.filter (¬ DeclaresStruct ·)
  structs : (others.filter (DeclaresStruct ·)).Perm
    (elements.filter (DeclaresStruct ·))

namespace SameButStructs

variable {element : Element} {elements others front back : List Element}

theorem mem_iff (hsame : SameButStructs elements others) :
    element ∈ others ↔ element ∈ elements := by
  by_cases hstruct : DeclaresStruct element
  · have hmem := hsame.structs.mem_iff (a := element)
    simpa [hstruct] using hmem
  · have hmem := congrArg (element ∈ ·) hsame.rest
    simpa [hstruct] using hmem

/-- The first element of the one list comes behind elements that it may pass in
the other. -/
theorem exists_split (hsame : SameButStructs (element :: elements) others) :
    ∃ front back, others = front ++ element :: back ∧
      ∀ other ∈ front, DeclaresStruct other ∨ DeclaresStruct element := by
  by_cases hstruct : DeclaresStruct element
  · obtain ⟨front, back, hsplit⟩ :=
      List.append_of_mem (hsame.mem_iff.2 List.mem_cons_self)
    exact ⟨front, back, hsplit, fun _ _ => Or.inr hstruct⟩
  · have hrest := hsame.rest
    rw [List.filter_cons_of_pos (by simpa using hstruct),
      List.filter_eq_cons_iff] at hrest
    obtain ⟨front, back, hsplit, hfront, -, -⟩ := hrest
    exact ⟨front, back, hsplit, fun other hother =>
      Or.inl (by simpa using hfront other hother)⟩

theorem tail (hsame : SameButStructs (element :: elements)
      (front ++ element :: back))
    (hpassed : ∀ other ∈ front, DeclaresStruct other ∨ DeclaresStruct element) :
    SameButStructs elements (front ++ back) := by
  obtain ⟨hrest, hstructs⟩ := hsame
  simp only [List.filter_append, List.filter_cons] at hrest hstructs
  by_cases hstruct : DeclaresStruct element
  · simp only [hstruct, not_true_eq_false, decide_false, decide_true, if_true,
      Bool.false_eq_true, if_false] at hrest hstructs
    refine ⟨by rw [List.filter_append, hrest], ?_⟩
    rw [List.filter_append]
    exact (List.perm_middle.symm.trans hstructs).cons_inv
  · have hnone : front.filter (¬ DeclaresStruct ·) = [] := by
      simpa [hstruct] using hpassed
    simp only [hstruct, not_false_eq_true, decide_false, decide_true, if_true,
      Bool.false_eq_true, if_false] at hrest hstructs
    rw [hnone, List.nil_append] at hrest
    refine ⟨?_, by rwa [List.filter_append]⟩
    rw [List.filter_append, hnone, List.nil_append]
    exact (List.cons.inj hrest).2

/-- Types that differ in the order of the structs among them are put in each
other's order by swaps of neighbours. -/
theorem eqvGen_swapped (hsame : SameButStructs elements others)
    (hplain : ∀ element ∈ elements, PlainlyDeclared element) :
    EqvGen Swapped elements others := by
  induction elements generalizing others with
  | nil =>
      have hnone : others = [] :=
        List.eq_nil_iff_forall_not_mem.2 fun other hother => by
          simpa using hsame.mem_iff.1 hother
      rw [hnone]
      exact .refl _
  | cons element rest ih =>
      obtain ⟨helement, hrest⟩ := List.forall_mem_cons.1 hplain
      obtain ⟨front, back, rfl, hpassed⟩ := hsame.exists_split
      have hfront : ∀ other ∈ front, PlainlyDeclared other :=
        fun other hother =>
          hplain other (hsame.mem_iff.1 (List.mem_append_left _ hother))
      have htail := ih (hsame.tail hpassed) hrest
      have hmoved := eqvGen_swapped_front back hpassed hfront helement
      exact .trans _ _ _ (eqvGen_swapped_cons element htail) (.symm _ _ hmoved)

end SameButStructs

/-! ## Documents -/

namespace Xml

/-- The element declares a struct, if it is within the types of a registry. -/
def IsStruct (element : Element) : Prop :=
  element.tag = "type" ∧ DeclaresStruct element

instance : DecidablePred IsStruct := fun element =>
  inferInstanceAs (Decidable (element.tag = "type" ∧ DeclaresStruct element))

/-- The elements among some nodes. -/
def elementsAmong (nodes : List Node) : List Element :=
  nodes.filterMap Node.element?

/-- Within the types of a registry the structs, none of which names a type that it
requires, stand in another order. -/
structure StructsReordered (nodes others : List Node) : Prop where
  rest : (elementsAmong others).filter (¬ IsStruct ·) =
    (elementsAmong nodes).filter (¬ IsStruct ·)
  structs : ((elementsAmong others).filter (IsStruct ·)).Perm
    ((elementsAmong nodes).filter (IsStruct ·))
  requireNothing : ∀ element ∈ elementsAmong nodes,
    IsStruct element → RequiresNothing element

/-- Two nodes are the same, or elements of one tag whose children are changed. -/
inductive ChangedWithin (tag : String) (changed : List Node → List Node → Prop) :
    Node → Node → Prop where
  | same (node : Node) : ChangedWithin tag changed node node
  | within {element : Element} {children : List Node} (htag : element.tag = tag)
      (hchanged : changed element.children children) :
      ChangedWithin tag changed (.element element)
        (.element { element with children := children })

/-- Two documents differ in the order of the structs within their types. -/
def Document.StructsReordered (document other : Document) : Prop :=
  List.Forall₂
    (ChangedWithin "registry" (List.Forall₂
      (ChangedWithin "types" Xml.StructsReordered)))
    document.nodes other.nodes

/-- What holds of an unchanged element and of one that is changed within holds of
the elements among nodes that are changed within. -/
theorem forall₂_elementsAmong {tag : String}
    {changed : List Node → List Node → Prop} {related : Element → Element → Prop}
    (hsame : ∀ element, related element element)
    (hwithin : ∀ (element : Element) (children : List Node), element.tag = tag →
      changed element.children children →
        related element { element with children := children })
    {nodes others : List Node}
    (hnodes : List.Forall₂ (ChangedWithin tag changed) nodes others) :
    List.Forall₂ related (elementsAmong nodes) (elementsAmong others) := by
  induction hnodes with
  | nil => exact .nil
  | @cons first _ _ _ hfirst _ ih =>
      cases hfirst with
      | same =>
          cases first with
          | element content => exact .cons (hsame content) ih
          | text => exact ih
          | comment => exact ih
          | instruction => exact ih
      | @within element children htag hchanged =>
          exact .cons (hwithin element children htag hchanged) ih

theorem StructsReordered.perm {nodes others : List Node}
    (hreordered : StructsReordered nodes others) :
    (elementsAmong others).Perm (elementsAmong nodes) := by
  have hsplit : ∀ elements : List Element, (elements.filter (IsStruct ·) ++
      elements.filter (¬ IsStruct ·)).Perm elements := by
    intro elements
    simpa using List.filter_append_perm (IsStruct ·) elements
  calc (elementsAmong others).Perm _ := (hsplit _).symm
    List.Perm _ _ := hreordered.structs.append (.of_eq hreordered.rest)
    List.Perm _ (elementsAmong nodes) := hsplit _

/-- Of the types, the same is known as of all elements. -/
theorem StructsReordered.types {nodes others : List Node}
    (hreordered : StructsReordered nodes others) :
    SameButStructs
      ((elementsAmong nodes).filter fun child => child.tag = "type")
      ((elementsAmong others).filter fun child => child.tag = "type") := by
  have hrest : ∀ elements : List Element,
      (elements.filter fun child => child.tag = "type").filter
          (¬ DeclaresStruct ·) =
        (elements.filter (¬ IsStruct ·)).filter fun child =>
          child.tag = "type" := by
    intro elements
    rw [List.filter_filter, List.filter_filter]
    apply List.filter_congr
    intro element _
    by_cases htag : element.tag = "type" <;> simp [IsStruct, htag]
  have hstructs : ∀ elements : List Element,
      (elements.filter fun child => child.tag = "type").filter
          (DeclaresStruct ·) = elements.filter (IsStruct ·) := by
    intro elements
    rw [List.filter_filter]
    apply List.filter_congr
    intro element _
    by_cases htag : element.tag = "type" <;> simp [IsStruct, htag]
  constructor
  · rw [hrest, hrest, hreordered.rest]
  · rw [hstructs, hstructs]
    exact hreordered.structs

end Xml

open Xml (StructsReordered)

theorem SameSection.refl (element : Element) : SameSection element element where
  head := .refl element
  comment _ _ := rfl
  types _ := ⟨element.named "type",
    List.forall₂_same.2 fun type _ => .refl type, .refl _⟩
  tree _ := by
    have hkeeps : Xml.KeepsElements fun element => element :=
      ⟨fun _ => rfl, fun _ => rfl, fun _ => (List.map_id' _).symm⟩
    exact hkeeps.sameTree element

theorem sameSection_of_structsReordered {element : Element} {children : List Node}
    (htag : element.tag = "types")
    (hreordered : StructsReordered element.children children) :
    SameSection element { element with children := children } where
  head := ⟨rfl, rfl, hreordered.perm.map _⟩
  comment hcomment := by simp [htag] at hcomment
  types _ := by
    refine ⟨element.named "type", List.forall₂_same.2 fun type _ => .refl type, ?_⟩
    apply hreordered.types.eqvGen_swapped
    intro type htype hstruct
    obtain ⟨hmem, htypeTag⟩ := List.mem_filter.1 htype
    exact hreordered.requireNothing type hmem ⟨of_decide_eq_true htypeTag, hstruct⟩
  tree htree := by simp [htag] at htree

/-- Documents that differ in the order of structs are read alike. -/
theorem sameReading_of_structsReordered {document other : Xml.Document}
    (hreordered : document.StructsReordered other) :
    SameReading document other := by
  refine Xml.forall₂_elementsAmong (fun element => ?_) ?_ hreordered
  · exact ⟨.refl element, fun _ => List.forall₂_same.2 fun part _ => .refl part⟩
  · intro element children _ hsections
    have hparts : List.Forall₂ SameSection element.elements
        (Xml.elementsAmong children) :=
      Xml.forall₂_elementsAmong SameSection.refl
        (fun _ _ => sameSection_of_structsReordered) hsections
    refine ⟨⟨rfl, rfl, .of_eq ?_⟩, fun _ => hparts⟩
    exact map_eq_map_iff_forall₂.2 (hparts.imp fun _ _ hpart => hpart.head.tag)

/-- The order in which a document declares its structs does not matter: in another
order, on whatever lines, it has the same header or still none. -/
theorem generateFrom_structsReordered {config : Config}
    {document other : Xml.Document}
    (hreordered : document.lineless.StructsReordered other.lineless)
    (text : String) :
    generateFrom config document = .ok text ↔
      generateFrom config other = .ok text := by
  calc
    generateFrom config document = .ok text
      ↔ generateFrom config document.lineless = .ok text :=
        (generateFrom_lineless document text).symm
    _ ↔ generateFrom config other.lineless = .ok text :=
        generateFrom_eq_ok_iff_of_sameReading
          (sameReading_of_structsReordered hreordered) text
    _ ↔ generateFrom config other = .ok text := generateFrom_lineless other text

/-- A struct and one that has a member of it, in any order. -/
def nestedDocument (structs : List (String × List Member)) : Xml.Document :=
  Plain.document structs [("va", ["SOuter"])]

def nestedInner : String × List Member :=
  ("SInner", [Plain.member "int" "" "width"])

def nestedOuter : String × List Member :=
  ("SOuter", [Plain.member "SInner" "" "inner"])

/-- The registry of both orders when the structs are in the order needed. -/
def nestedRegistry : Registry where
  copyright := banner "Copyright"
  types := ⟨"int", 1, .unknown⟩ ::
    [nestedInner, nestedOuter].map fun struct => ⟨struct.1, 1, .struct struct.2⟩
  ownership := ⟨[("SOuter", 0), ("SInner", 0)]⟩
  extensions := [Plain.extension "va" none ["SInner", "SOuter"]]

theorem nested_structsReordered :
    (nestedDocument [nestedInner, nestedOuter]).lineless.StructsReordered
      (nestedDocument [nestedOuter, nestedInner]).lineless := by
  refine .cons (.within rfl (.cons (.same _) (.cons (.within rfl ?_)
    (.cons (.same _) .nil)))) .nil
  refine ⟨by rfl, .swap _ _ _, ?_⟩
  simp only [RequiresNothing]
  decide

theorem nested_generateFrom :
    (nestedDocument [nestedInner, nestedOuter]).lineless.StructsReordered
        (nestedDocument [nestedOuter, nestedInner]).lineless ∧
      ∃ text,
        generateFrom Plain.brief (nestedDocument [nestedInner, nestedOuter]) =
          .ok text ∧
        generateFrom Plain.brief (nestedDocument [nestedOuter, nestedInner]) =
          .ok text := by
  have hread : readDocument Plain.brief (nestedDocument [nestedInner, nestedOuter]) =
      .ok (Plain.registry [nestedInner, nestedOuter]
        [Plain.extension "va" none ["SOuter"]]) :=
    readDocument_eq_ok_iff.2 ⟨by cbv, by decide⟩
  have hdocument : Registry.ofDocument Plain.brief
      (nestedDocument [nestedInner, nestedOuter]) = .ok nestedRegistry :=
    Registry.ofDocument_eq_ok_iff.2 ⟨_, _, _, hread, by cbv, by cbv, by cbv⟩
  obtain ⟨text, -, hrun, -, -⟩ := exists_generateFrom hdocument (by decide)
  refine ⟨nested_structsReordered, text, hrun, ?_⟩
  exact (generateFrom_structsReordered nested_structsReordered text).1 hrun

end VideoRegistry
