import VideoRegistry.Proofs.Agreement
import VideoRegistry.Proofs.Alike
import VideoRegistry.Registry.Reader

/-!
# Elements that are read alike

Reading looks at the tags and attributes of elements, at the texts of a few of
them, and at the texts around the parts of a member.  Elements that agree in what
is looked at are read alike: both are refused, or what is read is the same but
for lines.
-/

namespace VideoRegistry

open Xml (Element Neighbourhood)

/-! ## Attributes and rules -/

namespace Xml

/-- Two elements have the same tag and attributes, and children of the same tags
in whatever order. -/
structure SameHead (element other : Element) : Prop where
  tag : other.tag = element.tag
  attributes : other.attributes = element.attributes
  children : (other.elements.map ElementOf.tag).Perm
    (element.elements.map ElementOf.tag)

theorem SameHead.refl (element : Element) : SameHead element element :=
  ⟨rfl, rfl, .refl _⟩

/-- Two elements are the same but for lines and for what is no element. -/
inductive SameTree : Element → Element → Prop where
  | mk {element other : Element} (htag : other.tag = element.tag)
      (hattributes : other.attributes = element.attributes)
      (helements : List.Forall₂ SameTree element.elements other.elements) :
      SameTree element other

namespace SameTree

variable {element other : Element}

theorem tag (hsame : SameTree element other) : other.tag = element.tag := by
  cases hsame with
  | mk htag _ _ => exact htag

theorem elements (hsame : SameTree element other) :
    List.Forall₂ SameTree element.elements other.elements := by
  cases hsame with
  | mk _ _ helements => exact helements

theorem head (hsame : SameTree element other) : SameHead element other := by
  cases hsame with
  | mk htag hattributes helements =>
      refine ⟨htag, hattributes, .of_eq ?_⟩
      rw [map_eq_map_iff_forall₂]
      exact helements.imp fun _ _ hchild => hchild.tag

end SameTree

/-- Children that are related in pairs and have the same tags are so within every
tag. -/
theorem forall₂_named {related : Element → Element → Prop}
    (htag : ∀ element other, related element other → other.tag = element.tag)
    {elements others : List Element}
    (hrelated : List.Forall₂ related elements others) (tag : String) :
    List.Forall₂ related (elements.filter fun child => child.tag = tag)
      (others.filter fun child => child.tag = tag) := by
  induction hrelated with
  | nil => exact .nil
  | cons hfirst _ ih =>
      rw [List.filter_cons, List.filter_cons, htag _ _ hfirst]
      split
      · exact .cons hfirst ih
      · exact ih

theorem forall₂_find? {related : Element → Element → Prop}
    (htag : ∀ element other, related element other → other.tag = element.tag)
    {elements others : List Element}
    (hrelated : List.Forall₂ related elements others) (tag : String) :
    Option.Rel related (elements.find? fun child => child.tag = tag)
      (others.find? fun child => child.tag = tag) := by
  induction hrelated with
  | nil => exact .none
  | @cons first first' _ _ hfirst _ ih =>
      rw [List.find?_cons, List.find?_cons, htag _ _ hfirst]
      cases decide (first.tag = tag) with
      | true => exact .some hfirst
      | false => exact ih

theorem SameTree.named {element other : Element} (hsame : SameTree element other)
    (tag : String) :
    List.Forall₂ SameTree (element.named tag) (other.named tag) :=
  forall₂_named (fun _ _ hchild => hchild.tag) hsame.elements tag

end Xml

open Xml (SameHead SameTree)

variable {element other : Element}

theorem collectAttributes_agree (line line' : Nat) (attributes : Attributes)
    (pairs : List (String × String)) :
    Agree Eq (collectAttributes line attributes pairs)
      (collectAttributes line' attributes pairs) := by
  induction pairs generalizing attributes with
  | nil => exact .rfl
  | cons pair rest ih =>
      rw [collectAttributes, collectAttributes]
      split
      · exact .error _ _
      · exact ih _

theorem attributesOf_agree
    (hattributes : other.attributes = element.attributes) :
    Agree Eq (attributesOf element) (attributesOf other) := by
  rw [attributesOf, attributesOf, hattributes]
  exact collectAttributes_agree _ _ _ _

theorem checkRequired_agree (line line' : Nat) (attributes : Attributes)
    (rules : List AttributeRule) :
    Agree Eq (checkRequired line attributes rules)
      (checkRequired line' attributes rules) := by
  induction rules with
  | nil => exact .rfl
  | cons rule rest ih =>
      rw [checkRequired, checkRequired]
      split
      · exact .error _ _
      split
      · exact .error _ _
      · exact ih

theorem checkAttributes_agree (line line' : Nat) (attributes : Attributes)
    (required optional : List AttributeRule) :
    Agree (fun _ _ => True) (checkAttributes line attributes required optional)
      (checkAttributes line' attributes required optional) :=
  (checkRequired_agree line line' attributes required).map fun _ _ _ => trivial

theorem checkCounts_agree (line line' : Nat) {children children' : List Element}
    (hperm : (children'.map Xml.ElementOf.tag).Perm
      (children.map Xml.ElementOf.tag)) (rules : List ChildRule) :
    Agree Eq (checkCounts line children rules)
      (checkCounts line' children' rules) := by
  have hcount : ∀ tag, children'.countP (fun child => child.tag = tag) =
      children.countP fun child => child.tag = tag := by
    intro tag
    have htags := hperm.countP_eq fun other => other = tag
    rwa [List.countP_map, List.countP_map] at htags
  induction rules with
  | nil => exact .rfl
  | cons rule rest ih =>
      simp only [checkCounts, hcount]
      refine (Agree.require rfl _ _ _ _).bind_same fun _ => ?_
      exact (Agree.require rfl _ _ _ _).bind_same fun _ => ih

/-- Warnings apart, a rule looks at attributes and at the tags of children. -/
theorem check_agree (rule : ElementRule) (hhead : SameHead element other) :
    Agree (fun result result' => result'.1 = result.1) (rule.check element)
      (rule.check other) := by
  rw [ElementRule.check, ElementRule.check]
  refine (attributesOf_agree hhead.attributes).bind_same fun attributes => ?_
  refine (checkAttributes_agree _ _ attributes _ _).bind fun _ _ _ => ?_
  refine (checkCounts_agree _ _ hhead.children _).bind_same fun _ => ?_
  exact .ok rfl

/-! ## Members -/

/-- The text of a neighbour; empty if it is no text. -/
def neighbourText (node : Option Xml.Node) : String :=
  (Xml.textOf? node).getD ""

/-- Two parts of members are read alike. -/
structure SamePart (place other : Neighbourhood) : Prop where
  head : SameHead place.element other.element
  text : place.element.tag ∈ ["enum", "name", "type"] →
    other.element.text = place.element.text
  size : place.element.tag = "enum" →
    betweenBrackets other = betweenBrackets place
  modifiers : place.element.tag = "name" →
    modifiersOf (Text.trim (neighbourText other.after).toList) =
      modifiersOf (Text.trim (neighbourText place.after).toList)
  spelling : place.element.tag = "type" →
    typeSpelling other = typeSpelling place

/-- Two members are read alike. -/
structure SameMember (element other : Element) : Prop where
  head : SameHead element other
  parts : List.Forall₂ SamePart element.placed other.placed

/-- What follows a name is read from its text, which may be missing. -/
theorem readModifiers_agree (node : Option Xml.Node) :
    Agree Eq (readModifiers node)
      (modifiersOf (Text.trim (neighbourText node).toList)) := by
  have hnothing : modifiersOf (Text.trim "".toList) = .ok {} := by
    rw [String.toList_empty]
    rfl
  rcases node with _ | (_ | ⟨line, content⟩ | _ | _)
  · exact hnothing ▸ .ok rfl
  · exact hnothing ▸ .ok rfl
  · rw [readModifiers, neighbourText, Xml.textOf?, Option.getD_some]
    generalize modifiersOf (Text.trim content.toList) = modifiers
    cases modifiers with
    | ok found => exact .ok rfl
    | error fault => exact .error _ _
  · exact hnothing ▸ .ok rfl
  · exact hnothing ▸ .ok rfl

theorem readMemberPart_agree {place other : Neighbourhood}
    (hsame : SamePart place other) (member : Member) (line : Nat) :
    Agree (fun result result' : Member => result'.lineless = result.lineless)
      (readMemberPart member place)
      (readMemberPart { member with line := line } other) := by
  rw [readMemberPart, readMemberPart, hsame.head.tag]
  split
  · next henum =>
      rw [hsame.size henum, hsame.text (by simp [henum])]
      exact (Agree.require rfl _ _ _ _).bind_same fun _ => .ok rfl
  split
  · next hname =>
      have hmodifiers : Agree Eq (readModifiers place.after)
          (readModifiers other.after) := by
        have hbehind := readModifiers_agree other.after
        rw [hsame.modifiers hname] at hbehind
        exact (readModifiers_agree place.after).trans_same hbehind.symm_same
      rw [hsame.text (by simp [hname])]
      exact hmodifiers.bind_same fun modifiers => .ok rfl
  split
  · next htype =>
      rw [hsame.spelling htype]
      exact .ok rfl
  · exact .ok rfl

theorem readMemberParts_agree {places others : List Neighbourhood}
    (hparts : List.Forall₂ SamePart places others) {member member' : Member}
    (hmember : member'.lineless = member.lineless)
    (warnings warnings' : List Warning) :
    Agree (fun result result' => result'.1.lineless = result.1.lineless)
      (readMemberParts member warnings places)
      (readMemberParts member' warnings' others) := by
  induction hparts generalizing member member' warnings warnings' with
  | nil => exact .ok hmember
  | cons hfirst _ ih =>
      obtain ⟨line, rfl⟩ := Member.exists_line_of_lineless_eq hmember
      rw [readMemberParts, readMemberParts]
      refine (check_agree plainRule hfirst.head).bind fun _ _ _ => ?_
      refine (readMemberPart_agree hfirst member line).bind ?_
      intro read read' hread
      exact ih hread _ _

theorem readMember_agree (hsame : SameMember element other)
    {earlier earlier' : List Member}
    (hearlier : earlier'.map Member.lineless = earlier.map Member.lineless) :
    Agree (fun result result' => result'.1.lineless = result.1.lineless)
      (readMember earlier element) (readMember earlier' other) := by
  have hnew : ∀ name, (earlier'.all fun other => other.name != name) =
      earlier.all fun other => other.name != name := by
    intro name
    have hall := congrArg (fun members : List Member =>
      members.all fun other => other.name != name) hearlier
    simpa [Function.comp_def, Member.lineless] using hall
  rw [readMember, readMember]
  refine (check_agree memberRule hsame.head).bind ?_
  rintro ⟨_, warnings⟩ ⟨attributes, warnings'⟩ rfl
  have hdraft : Member.lineless { type := {}, name := "", line := other.line } =
      Member.lineless { type := {}, name := "", line := element.line } := rfl
  refine (readMemberParts_agree hsame.parts hdraft _ _).bind ?_
  rintro ⟨member, warnings⟩ ⟨member', warnings'⟩ hmember
  obtain ⟨line, rfl⟩ := Member.exists_line_of_lineless_eq hmember
  dsimp only
  rw [hnew]
  refine (Agree.require rfl _ _ _ _).bind_same fun _ => ?_
  refine (Agree.require rfl _ _ _ _).bind_same fun _ => ?_
  refine (Agree.require rfl _ _ _ _).bind_same fun _ => ?_
  exact .ok rfl

theorem readMembers_agree {elements others : List Element}
    (hsame : List.Forall₂ SameMember elements others)
    {members members' : List Member}
    (hmembers : members'.map Member.lineless = members.map Member.lineless)
    (warnings warnings' : List Warning) :
    Agree (fun result result' =>
        result'.1.map Member.lineless = result.1.map Member.lineless)
      (readMembers members warnings elements)
      (readMembers members' warnings' others) := by
  induction hsame generalizing members members' warnings warnings' with
  | nil => exact .ok hmembers
  | cons hfirst _ ih =>
      rw [readMembers, readMembers]
      refine (readMember_agree hfirst hmembers).bind ?_
      rintro ⟨member, noticed⟩ ⟨member', noticed'⟩ hmember
      refine ih ?_ _ _
      rw [List.map_append, List.map_append, hmembers, List.map_singleton,
        List.map_singleton, hmember]

/-! ## Values of enums -/

theorem readValue_agree (hhead : SameHead element other) (enumName : String)
    {earlier earlier' : List EnumValue}
    (hearlier : earlier'.map EnumValue.lineless =
      earlier.map EnumValue.lineless) :
    Agree (fun result result' => result'.1.lineless = result.1.lineless)
      (readValue enumName earlier element)
      (readValue enumName earlier' other) := by
  have hnew : ∀ name, (earlier'.all fun other => other.name != name) =
      earlier.all fun other => other.name != name := by
    intro name
    have hall := congrArg (fun values : List EnumValue =>
      values.all fun other => other.name != name) hearlier
    simpa [Function.comp_def, EnumValue.lineless] using hall
  rw [readValue, readValue]
  refine (check_agree valueRule hhead).bind ?_
  rintro ⟨_, warnings⟩ ⟨attributes, warnings'⟩ rfl
  dsimp only
  rw [hnew]
  refine (Agree.require rfl _ _ _ _).bind_same fun _ => ?_
  refine (Agree.require rfl _ _ _ _).bind_same fun _ => ?_
  refine (Agree.require rfl _ _ _ _).bind_same fun _ => ?_
  exact .ok rfl

theorem readValues_agree {elements others : List Element}
    (hsame : List.Forall₂ SameHead elements others) (enumName : String)
    {values values' : List EnumValue}
    (hvalues : values'.map EnumValue.lineless = values.map EnumValue.lineless)
    (warnings warnings' : List Warning) :
    Agree (fun result result' =>
        result'.1.map EnumValue.lineless = result.1.map EnumValue.lineless)
      (readValues enumName values warnings elements)
      (readValues enumName values' warnings' others) := by
  induction hsame generalizing values values' warnings warnings' with
  | nil => exact .ok hvalues
  | cons hfirst _ ih =>
      rw [readValues, readValues]
      refine (readValue_agree hfirst enumName hvalues).bind ?_
      rintro ⟨value, noticed⟩ ⟨value', noticed'⟩ hvalue
      refine ih ?_ _ _
      rw [List.map_append, List.map_append, hvalues, List.map_singleton,
        List.map_singleton, hvalue]

end VideoRegistry
