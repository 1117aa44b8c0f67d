import Mathlib
import VideoRegistry.Proofs.AlikeReading
import VideoRegistry.Proofs.Noticing
import VideoRegistry.Proofs.PlainDocument

/-!
# Unknown elements

An element with a tag that the rule of its place does not know is noticed and
then passed over, whatever it holds: checking warns of it, and no reader looks for
its tag.  So a document may be given an unknown element anywhere in a place that
is checked, and is read as before, with one warning more.
-/

namespace VideoRegistry

open Xml (Element Node)

/-! ## Places for elements -/

/-- The places of a registry document whose children are checked one by one. -/
inductive Container where
  | registry
  | types
  | struct
  | enums
  | extensions
  | extension
  | require
deriving DecidableEq, Repr

def Container.rule : Container → ElementRule
  | .registry => registryRule
  | .types => typesRule
  | .struct => structRule
  | .enums => enumsRule
  | .extensions => extensionsRule
  | .extension => extensionRule
  | .require => requireRule

/-- The children of one place that are themselves such places. -/
inductive Container.Holds : Container → Container → Element → Prop where
  | types {child : Element} (htag : child.tag = "types") :
      Holds .registry .types child
  | enums {child : Element} (htag : child.tag = "enums") :
      Holds .registry .enums child
  | extensions {child : Element} (htag : child.tag = "extensions") :
      Holds .registry .extensions child
  | struct {child : Element} (htag : child.tag = "type")
      (hcategory : ("category", "struct") ∈ child.attributes) :
      Holds .types .struct child
  | extension {child : Element} (htag : child.tag = "extension") :
      Holds .extensions .extension child
  | require {child : Element} (htag : child.tag = "require") :
      Holds .extension .require child

/-- A rule asks for children of a tag, or allows them. -/
def ElementRule.knows (rule : ElementRule) (tag : String) : Bool :=
  (rule.children.any fun child => child.tag = tag) ||
    rule.optionalChildren.contains tag

/-- What is noticed about an element that a rule does not know. -/
def unknownWarning (unknown : Element) : Warning :=
  ⟨unknown.line, .unknownElement unknown.tag⟩

/-- The second element is the first one with an unknown element among its
children, or among those of a place within it. -/
inductive Inserted (unknown : Element) :
    Container → Element → Element → Prop where
  | here {place : Container} {element : Element} (front back : List Node)
      (hchildren : element.children = front ++ back)
      (hunknown : place.rule.knows unknown.tag = false) :
      Inserted unknown place element
        { element with children := front ++ .element unknown :: back }
  | within {place inner : Container} {element child child' : Element}
      (front back : List Node)
      (hchildren : element.children = front ++ .element child :: back)
      (hholds : place.Holds inner child)
      (hinserted : Inserted unknown inner child child') :
      Inserted unknown place element
        { element with children := front ++ .element child' :: back }

/-- The registry element of a document is given an unknown element. -/
def Xml.Document.Inserted (unknown : Element) (document other : Xml.Document) :
    Prop :=
  ∃ front back root root',
    document.nodes = front ++ .element root :: back ∧
      other.nodes = front ++ .element root' :: back ∧
        root.tag = "registry" ∧
          VideoRegistry.Inserted unknown .registry root root'

/-! ## Checking -/

/-- An element with one more child. -/
structure Gains (unknown element other : Element) : Prop where
  line : other.line = element.line
  attributes : other.attributes = element.attributes
  elements : ∃ front back, element.elements = front ++ back ∧
    other.elements = front ++ unknown :: back

/-- An element with another child in the place of one. -/
structure Swaps (child child' element other : Element) : Prop where
  line : other.line = element.line
  attributes : other.attributes = element.attributes
  childLine : child'.line = child.line
  childTag : child'.tag = child.tag
  elements : ∃ front back, element.elements = front ++ child :: back ∧
    other.elements = front ++ child' :: back

variable {unknown child child' element other : Element} {rule : ElementRule}
  {tag : String}

theorem unknownElements_append (children others : List Element)
    (required : List ChildRule) (optional : List String) :
    unknownElements (children ++ others) required optional =
      unknownElements children required optional ++
        unknownElements others required optional := by
  simp only [unknownElements_eq, List.filter_append, List.map_append]

theorem unknownElements_cons (first : Element) (rest : List Element)
    (required : List ChildRule) (optional : List String) :
    unknownElements (first :: rest) required optional =
      unknownElements [first] required optional ++
        unknownElements rest required optional :=
  unknownElements_append [first] rest required optional

theorem unknownElements_singleton (rule : ElementRule) (child : Element) :
    unknownElements [child] rule.children rule.optionalChildren =
      if rule.knows child.tag then [] else [unknownWarning child] := by
  rw [unknownElements_eq, List.filter_singleton, ← ElementRule.knows]
  cases rule.knows child.tag with
  | true => rfl
  | false => rfl

theorem ne_of_knows (hunknown : rule.knows unknown.tag = false)
    (hknows : rule.knows tag = true) : unknown.tag ≠ tag := by
  rintro rfl
  rw [hunknown] at hknows
  cases hknows

/-- Only the counts of the required tags count. -/
theorem checkCounts_congr (line : Nat) {children others : List Element}
    {rules : List ChildRule}
    (hcounts : ∀ rule ∈ rules, others.countP (fun child => child.tag = rule.tag) =
      children.countP fun child => child.tag = rule.tag) :
    checkCounts line others rules = checkCounts line children rules := by
  induction rules with
  | nil => rfl
  | cons first rest ih =>
      obtain ⟨hfirst, hrest⟩ := List.forall_mem_cons.1 hcounts
      rw [checkCounts, checkCounts, hfirst, ih hrest]

theorem attributesOf_congr (hline : other.line = element.line)
    (hattributes : other.attributes = element.attributes) :
    attributesOf other = attributesOf element := by
  rw [attributesOf, attributesOf, hline, hattributes]

namespace Gains

theorem named (hgains : Gains unknown element other) (hne : unknown.tag ≠ tag) :
    other.named tag = element.named tag := by
  obtain ⟨front, back, helements, hothers⟩ := hgains.elements
  rw [Xml.ElementOf.named, Xml.ElementOf.named, helements, hothers,
    List.filter_append, List.filter_append, List.filter_cons_of_neg (by simpa)]

/-- A rule finds one more thing to warn of in an element with an unknown child. -/
theorem check_agree (hgains : Gains unknown element other)
    (hunknown : rule.knows unknown.tag = false) :
    Agree (AddsBeside [unknownWarning unknown]) (rule.check element)
      (rule.check other) := by
  obtain ⟨front, back, helements, hothers⟩ := hgains.elements
  have hcounts : ∀ asked ∈ rule.children,
      other.elements.countP (fun child => child.tag = asked.tag) =
        element.elements.countP fun child => child.tag = asked.tag := by
    intro asked hasked
    have hknows : rule.knows asked.tag = true := by
      rw [ElementRule.knows, Bool.or_eq_true, List.any_eq_true]
      exact Or.inl ⟨asked, hasked, by simp⟩
    have hne := ne_of_knows hunknown hknows
    rw [helements, hothers, List.countP_append, List.countP_append,
      List.countP_cons_of_neg (by simpa)]
  rw [ElementRule.check, ElementRule.check,
    attributesOf_congr hgains.line hgains.attributes, hgains.line,
    checkCounts_congr _ hcounts]
  apply Agree.rfl.bind_same
  intro attributes
  apply Agree.rfl.bind_same
  intro warnings
  apply Agree.rfl.bind_same
  intro _
  refine .ok ⟨rfl, ?_⟩
  rw [helements, hothers, unknownElements_append, unknownElements_append,
    unknownElements_cons unknown, unknownElements_singleton, hunknown]
  exact ⟨warnings ++ unknownElements front rule.children rule.optionalChildren,
    unknownElements back rule.children rule.optionalChildren,
    by simp, by simp⟩

end Gains

/-- Of two elements with the same tag and line a rule says the same. -/
theorem unknownElements_exchange (rule : ElementRule)
    (hline : child'.line = child.line) (htag : child'.tag = child.tag)
    (front back : List Element) :
    unknownElements (front ++ child' :: back) rule.children
        rule.optionalChildren =
      unknownElements (front ++ child :: back) rule.children
        rule.optionalChildren := by
  rw [unknownElements_append, unknownElements_append, unknownElements_cons child,
    unknownElements_cons child', unknownElements_singleton,
    unknownElements_singleton, unknownWarning, unknownWarning, htag, hline]

theorem checkCounts_exchange (line : Nat) (htag : child'.tag = child.tag)
    (front back : List Element) (rules : List ChildRule) :
    checkCounts line (front ++ child' :: back) rules =
      checkCounts line (front ++ child :: back) rules := by
  apply checkCounts_congr
  intro asked _
  rw [List.countP_append, List.countP_append, List.countP_cons, List.countP_cons,
    htag]

namespace Swaps

theorem named (hswaps : Swaps child child' element other)
    (htag : child.tag = tag) :
    ∃ front back, element.named tag = front ++ child :: back ∧
      other.named tag = front ++ child' :: back := by
  obtain ⟨front, back, helements, hothers⟩ := hswaps.elements
  refine ⟨front.filter fun child => child.tag = tag,
    back.filter fun child => child.tag = tag, ?_, ?_⟩
  · rw [Xml.ElementOf.named, helements, List.filter_append,
      List.filter_cons_of_pos (by simpa)]
  · rw [Xml.ElementOf.named, hothers, List.filter_append,
      List.filter_cons_of_pos (by simpa [hswaps.childTag])]

/-- A rule does not look into children. -/
theorem check_eq (hswaps : Swaps child child' element other)
    (rule : ElementRule) : rule.check other = rule.check element := by
  obtain ⟨front, back, helements, hothers⟩ := hswaps.elements
  rw [ElementRule.check, ElementRule.check,
    attributesOf_congr hswaps.line hswaps.attributes, hswaps.line, helements,
    hothers, checkCounts_exchange _ hswaps.childTag,
    unknownElements_exchange rule hswaps.childLine hswaps.childTag]

end Swaps

/-! ## Reading -/

/-- The places within a place lie among its child elements. -/
theorem Inserted.gains_or_swaps {place : Container}
    (hinserted : Inserted unknown place element other) :
    (Gains unknown element other ∧ place.rule.knows unknown.tag = false) ∨
      ∃ inner child child', place.Holds inner child ∧
        Inserted unknown inner child child' ∧
          Swaps child child' element other := by
  induction hinserted with
  | @here place element front back hchildren hunknown =>
      refine Or.inl ⟨⟨rfl, rfl, front.filterMap Node.element?,
        back.filterMap Node.element?, ?_, ?_⟩, hunknown⟩
      · rw [Xml.ElementOf.elements, hchildren, List.filterMap_append]
      · simp [Xml.ElementOf.elements, Node.element?]
  | @within place inner element child child' front back hchildren hholds
      hinserted _ =>
      have hhead : child'.line = child.line ∧ child'.tag = child.tag := by
        cases hinserted <;> exact ⟨rfl, rfl⟩
      refine Or.inr ⟨inner, child, child', hholds, hinserted, rfl, rfl, hhead.1,
        hhead.2, front.filterMap Node.element?, back.filterMap Node.element?,
        ?_, ?_⟩
      · simp [Xml.ElementOf.elements, hchildren, Node.element?]
      · simp [Xml.ElementOf.elements, Node.element?]

/-- In a place that holds no others, an element is given the child itself. -/
theorem Inserted.gains {place : Container}
    (hinserted : Inserted unknown place element other)
    (hleaf : ∀ inner child, ¬ place.Holds inner child) :
    Gains unknown element other ∧ place.rule.knows unknown.tag = false := by
  apply hinserted.gains_or_swaps.resolve_right
  rintro ⟨inner, child, -, hholds, -⟩
  exact hleaf inner child hholds

variable {config : Config}

theorem readStruct_inserted (hinserted : Inserted unknown .struct element other)
    (registry : Registry) :
    Agree (Registry.Notices [unknownWarning unknown])
      (readStruct registry element) (readStruct registry other) := by
  obtain ⟨hgains, hunknown⟩ := hinserted.gains (by rintro _ _ ⟨⟩)
  have hnamed : other.named "member" = element.named "member" :=
    hgains.named (ne_of_knows hunknown rfl)
  rw [readStruct, readStruct, hnamed, hgains.line]
  refine (hgains.check_agree hunknown).bind ?_
  rintro ⟨attributes, warnings⟩ ⟨_, warnings'⟩ ⟨rfl, hadds⟩
  apply Agree.rfl.bind_same
  intro _
  apply Agree.rfl.bind_same
  intro _
  refine (readMembers_addsBeside hadds _ _).bind ?_
  rintro ⟨members, warnings⟩ ⟨_, warnings'⟩ ⟨rfl, hadds⟩
  exact (Registry.Notices.of_adds registry hadds).declare _ _ _ _

theorem readEnums_inserted (hinserted : Inserted unknown .enums element other)
    (registry : Registry) :
    Agree (Registry.Notices [unknownWarning unknown])
      (readEnums registry element) (readEnums registry other) := by
  obtain ⟨hgains, hunknown⟩ := hinserted.gains (by rintro _ _ ⟨⟩)
  have hnamed : other.named "enum" = element.named "enum" :=
    hgains.named (ne_of_knows hunknown rfl)
  rw [readEnums, readEnums, hnamed, hgains.line]
  refine (hgains.check_agree hunknown).bind ?_
  rintro ⟨attributes, warnings⟩ ⟨_, warnings'⟩ ⟨rfl, hadds⟩
  dsimp only
  split
  · exact .error _ _
  · apply Agree.rfl.bind_same
    intro _
    refine (readValues_addsBeside hadds _ _ _).bind ?_
    rintro ⟨values, warnings⟩ ⟨_, warnings'⟩ ⟨rfl, hadds⟩
    exact .ok ((Registry.Notices.of_adds registry hadds).fillEnum _ _)

theorem readRequire_inserted (hinserted : Inserted unknown .require element other)
    (state : Registry × Extension) :
    Agree (NoticesBeside [unknownWarning unknown])
      (readRequire config state element) (readRequire config state other) := by
  obtain ⟨hgains, hunknown⟩ := hinserted.gains (by rintro _ _ ⟨⟩)
  obtain ⟨front, back, helements, hothers⟩ := hgains.elements
  have hskip : ∀ state, readRequirement config state unknown = .ok state := by
    intro state
    rw [readRequirement, if_neg (ne_of_knows hunknown rfl),
      if_neg (ne_of_knows hunknown rfl)]
  rw [readRequire, readRequire, hgains.line, helements, hothers]
  refine (hgains.check_agree hunknown).bind ?_
  rintro ⟨attributes, warnings⟩ ⟨_, warnings'⟩ ⟨rfl, hadds⟩
  dsimp only
  rw [foldlM_skip hskip]
  exact Agree.foldlM_same
    (fun _ _ hbefore => hbefore.readRequirement_agree config) _
    ⟨Registry.Notices.of_adds state.1 hadds, rfl⟩

/-- A declared type of the category of structs is read as a struct. -/
theorem readType_inserted
    (hcategory : ("category", "struct") ∈ element.attributes)
    (hinserted : Inserted unknown .struct element other) (registry : Registry) :
    Agree (Registry.Notices [unknownWarning unknown])
      (readType registry element) (readType registry other) := by
  obtain ⟨hgains, -⟩ := hinserted.gains (by rintro _ _ ⟨⟩)
  rw [readType, readType, attributesOf_congr hgains.line hgains.attributes]
  refine Agree.rfl.attach.bind ?_
  rintro attributes _ ⟨rfl, hrun, -⟩
  rw [(get?_of_attributesOf hrun "category" "struct").2 hcategory]
  exact readStruct_inserted hinserted registry

/-- A reader of a place that reads the children of one tag, one behind the other,
notices an unknown element if the reader of these children does. -/
theorem foldlM_named_inserted {place : Container}
    {read : Registry → Element → Checked Registry}
    (hknows : place.rule.knows tag = true)
    (hkeeps : ∀ before after,
      Registry.Notices [unknownWarning unknown] before after → ∀ child,
        Agree (Registry.Notices [unknownWarning unknown])
          (read before child) (read after child))
    (hinner : ∀ inner child child', place.Holds inner child →
      Inserted unknown inner child child' → child.tag = tag ∧
        ∀ registry, Agree (Registry.Notices [unknownWarning unknown])
          (read registry child) (read registry child'))
    (hinserted : Inserted unknown place element other) (registry : Registry) :
    Agree (Registry.Notices [unknownWarning unknown])
      (place.rule.check element >>= fun (_, warnings) =>
        (element.named tag).foldlM read (registry.warn warnings))
      (place.rule.check other >>= fun (_, warnings) =>
        (other.named tag).foldlM read (registry.warn warnings)) := by
  rcases hinserted.gains_or_swaps with
    ⟨hgains, hunknown⟩ | ⟨inner, child, child', hholds, hchild, hswaps⟩
  · rw [hgains.named (ne_of_knows hunknown hknows)]
    refine (hgains.check_agree hunknown).bind ?_
    rintro ⟨attributes, warnings⟩ ⟨_, warnings'⟩ ⟨rfl, hadds⟩
    exact Agree.foldlM_same hkeeps _ (Registry.Notices.of_adds registry hadds)
  · obtain ⟨htag, hread⟩ := hinner inner child child' hholds hchild
    obtain ⟨front, back, hnamed, hothers⟩ := hswaps.named htag
    rw [hswaps.check_eq, hnamed, hothers]
    apply Agree.rfl.bind_same
    rintro ⟨attributes, warnings⟩
    exact Agree.foldlM_exchange hkeeps hread front back _

theorem readTypes_inserted (hinserted : Inserted unknown .types element other)
    (registry : Registry) :
    Agree (Registry.Notices [unknownWarning unknown])
      (readTypes registry element) (readTypes registry other) := by
  apply foldlM_named_inserted (by rfl) (fun _ _ hbefore => hbefore.readType_agree)
    _ hinserted registry
  intro inner child child' hholds hchild
  cases hholds with
  | struct htag hcategory => exact ⟨htag, readType_inserted hcategory hchild⟩

theorem readExtension_inserted
    (hinserted : Inserted unknown .extension element other)
    (registry : Registry) :
    Agree (Registry.Notices [unknownWarning unknown])
      (readExtension config registry element)
      (readExtension config registry other) := by
  have hkeeps : ∀ before after,
      NoticesBeside [unknownWarning unknown] before after → ∀ child,
        Agree (NoticesBeside [unknownWarning unknown])
          (readRequire config before child) (readRequire config after child) :=
    fun _ _ hbefore => hbefore.readRequire_agree config
  rw [readExtension, readExtension]
  rcases hinserted.gains_or_swaps with
    ⟨hgains, hunknown⟩ | ⟨inner, child, child', hholds, hchild, hswaps⟩
  · have hnamed : other.named "require" = element.named "require" :=
      hgains.named (ne_of_knows hunknown rfl)
    rw [hnamed, hgains.line]
    refine (hgains.check_agree hunknown).bind ?_
    rintro ⟨attributes, warnings⟩ ⟨_, warnings'⟩ ⟨rfl, hadds⟩
    apply Agree.rfl.bind_same
    intro _
    apply Agree.rfl.bind_same
    intro _
    exact addExtension_agree (Agree.foldlM_same hkeeps _
      ⟨Registry.Notices.of_adds registry hadds, rfl⟩)
  · cases hholds with
    | require htag =>
        obtain ⟨front, back, hnamed, hothers⟩ := hswaps.named htag
        rw [hswaps.check_eq, hswaps.line, hnamed, hothers]
        apply Agree.rfl.bind_same
        rintro ⟨attributes, warnings⟩
        apply Agree.rfl.bind_same
        intro _
        apply Agree.rfl.bind_same
        intro _
        exact addExtension_agree (Agree.foldlM_exchange hkeeps
          (readRequire_inserted hchild) front back _)

theorem readExtensions_inserted
    (hinserted : Inserted unknown .extensions element other)
    (registry : Registry) :
    Agree (Registry.Notices [unknownWarning unknown])
      (readExtensions config registry element)
      (readExtensions config registry other) := by
  apply foldlM_named_inserted (by rfl)
    (fun _ _ hbefore => hbefore.readExtension_agree config) _ hinserted registry
  intro inner child child' hholds hchild
  cases hholds with
  | extension htag => exact ⟨htag, readExtension_inserted hchild⟩

/-! ## Documents -/

theorem readSection_skip (hunknown : registryRule.knows unknown.tag = false)
    (registry : Registry) :
    readSection config registry unknown = .ok registry := by
  unfold readSection
  split
  · next htag => exact absurd htag (ne_of_knows hunknown rfl)
  · next htag => exact absurd htag (ne_of_knows hunknown rfl)
  · next htag => exact absurd htag (ne_of_knows hunknown rfl)
  · next htag => exact absurd htag (ne_of_knows hunknown rfl)
  · rfl

theorem readSection_inserted {inner : Container}
    (hholds : Container.registry.Holds inner child)
    (hinserted : Inserted unknown inner child child')
    (htag : child'.tag = child.tag) (registry : Registry) :
    Agree (Registry.Notices [unknownWarning unknown])
      (readSection config registry child)
      (readSection config registry child') := by
  cases hholds with
  | types hchild =>
      simp only [readSection, htag, hchild]
      exact readTypes_inserted hinserted registry
  | enums hchild =>
      simp only [readSection, htag, hchild]
      exact readEnums_inserted hinserted registry
  | extensions hchild =>
      simp only [readSection, htag, hchild]
      exact readExtensions_inserted hinserted registry

/-- A document that passes the count holds one registry element. -/
theorem find?_registry {line : Nat} {root : Element} {front back : List Element}
    (hroot : root.tag = "registry")
    (hcounts : checkCounts line (front ++ root :: back) documentChildren =
      .ok ()) :
    ∀ root' : Element, root'.tag = "registry" →
      (front ++ root' :: back).find? (fun element => element.tag = "registry") =
        some root' := by
  obtain ⟨_, -, hcounts⟩ := bind_eq_ok_iff.1 hcounts
  obtain ⟨_, honce, -⟩ := bind_eq_ok_iff.1 hcounts
  rw [require_eq_ok_iff, Bool.not_true, Bool.false_or, decide_eq_true_eq,
    List.countP_append, List.countP_cons_of_pos (by simpa)] at honce
  dsimp only at honce
  have hfront : front.countP (fun element => element.tag = "registry") = 0 := by
    omega
  rw [List.countP_eq_zero] at hfront
  intro root' hroot'
  rw [List.find?_append, List.find?_eq_none.2 hfront, Option.none_or,
    List.find?_cons_of_pos (by simpa)]

theorem readSections_inserted {document document' : Xml.Document}
    (hinserted : document.Inserted unknown document') :
    Agree (Registry.Notices [unknownWarning unknown])
      (readSections config document) (readSections config document') := by
  obtain ⟨front, back, root, root', hnodes, hnodes', hroot, hchild⟩ := hinserted
  have hhead : root'.line = root.line ∧ root'.tag = root.tag := by
    cases hchild <;> exact ⟨rfl, rfl⟩
  have helements : document.elements =
      front.filterMap Node.element? ++ root :: back.filterMap Node.element? := by
    simp [Xml.Document.elements, hnodes, Node.element?]
  have helements' : document'.elements =
      front.filterMap Node.element? ++ root' :: back.filterMap Node.element? := by
    simp [Xml.Document.elements, hnodes', Node.element?]
  rw [readSections, readSections, helements, helements',
    checkCounts_exchange _ hhead.2]
  refine Agree.rfl.attach.bind ?_
  rintro _ _ ⟨-, hcounts, -⟩
  have hfind := find?_registry hroot hcounts
  rw [hfind root hroot, hfind root' (hhead.2.trans hroot)]
  have hnoticed := unknownElements_exchange { children := documentChildren }
    hhead.1 hhead.2 (front.filterMap Node.element?) (back.filterMap Node.element?)
  dsimp only at hnoticed ⊢
  rw [hnoticed]
  rcases hchild.gains_or_swaps with
    ⟨hgains, hunknown⟩ | ⟨inner, child, child', hholds, hinner, hswaps⟩
  · obtain ⟨before, after, hparts, hparts'⟩ := hgains.elements
    rw [hparts, hparts']
    refine (hgains.check_agree hunknown).bind ?_
    rintro ⟨attributes, warnings⟩ ⟨_, warnings'⟩ ⟨rfl, hadds⟩
    dsimp only
    rw [foldlM_skip (readSection_skip hunknown)]
    exact Agree.foldlM_same
      (fun _ _ hbefore => hbefore.readSection_agree config) _
      (Registry.Notices.of_adds {} (hadds.prepend _))
  · obtain ⟨before, after, hparts, hparts'⟩ := hswaps.elements
    rw [hswaps.check_eq, hparts, hparts']
    apply Agree.rfl.bind_same
    rintro ⟨attributes, warnings⟩
    exact Agree.foldlM_exchange
      (fun _ _ hbefore => hbefore.readSection_agree config)
      (readSection_inserted hholds hinner hswaps.childTag) before after _

/-- A document that is accepted stays so when it is given an unknown element, in
whatever place and with whatever in it, and the registry is the same but for one
more warning, which names the element and its line. -/
theorem readDocument_inserted {document document' : Xml.Document}
    {registry : Registry} (hinserted : document.Inserted unknown document')
    (hread : readDocument config document = .ok registry) :
    ∃ front back, registry.warnings = front ++ back ∧
      readDocument config document' = .ok { registry with
        warnings := front ++ ⟨unknown.line, .unknownElement unknown.tag⟩ :: back } := by
  obtain ⟨hsections, hlicence⟩ := readDocument_eq_ok_iff.1 hread
  have hagree : Agree (Registry.Notices [unknownWarning unknown])
      (readSections config document) (readSections config document') :=
    readSections_inserted hinserted
  obtain ⟨registry', hsections', found, ⟨front, back, hwarnings, rfl⟩, rfl⟩ :=
    (Agree.iff_ok.1 hagree).1 registry hsections
  refine ⟨front, back, hwarnings, readDocument_eq_ok_iff.2 ⟨?_, hlicence⟩⟩
  rw [hsections', unknownWarning, List.append_assoc, List.singleton_append]

/-- An element of a tag that no rule knows. -/
def strangeElement : Element :=
  ⟨7, "annotation", [("category", "struct")], [.text 7 "[4]", .comment "any"]⟩

/-- A document with one struct, which may have more in it than its member. -/
def strangeDocument (more : List Node) : Xml.Document where
  nodes := [Plain.element "registry" []
    [Plain.element "comment" [] [.text 1 "Copyright"],
      Plain.element "types" [("comment", "")]
        [Plain.element "type" [("name", "int")] [],
          Plain.element "type" [("category", "struct"), ("name", "A")]
            (Plain.memberNode (Plain.member "int" "" "x") :: more)],
      Plain.element "extensions" [] [Plain.extensionNode ("va", ["A"])]]]

/-- The registry of the document. -/
def strangeRegistry (warnings : List Warning) : Registry :=
  { Plain.registry [("A", [Plain.member "int" "" "x"])]
      [Plain.extension "va" none ["A"]] with
    warnings := warnings }

theorem strange_readDocument_inserted :
    (strangeDocument []).Inserted strangeElement
        (strangeDocument [.element strangeElement]) ∧
      readDocument Plain.brief (strangeDocument []) = .ok (strangeRegistry []) ∧
        readDocument Plain.brief (strangeDocument [.element strangeElement]) =
          .ok (strangeRegistry [⟨7, .unknownElement "annotation"⟩]) := by
  have hinserted : (strangeDocument []).Inserted strangeElement
      (strangeDocument [.element strangeElement]) :=
    ⟨[], [], _, _, rfl, rfl, rfl, .within [_] [_] rfl (.types rfl)
      (.within [_] [] rfl (.struct rfl (by decide)) (.here [_] [] rfl (by rfl)))⟩
  have hread : readDocument Plain.brief (strangeDocument []) =
      .ok (strangeRegistry []) :=
    readDocument_eq_ok_iff.2 ⟨by cbv, by decide⟩
  obtain ⟨front, back, hwarnings, hread'⟩ := readDocument_inserted hinserted hread
  obtain ⟨rfl, rfl⟩ := List.append_eq_nil_iff.1 hwarnings.symm
  exact ⟨hinserted, hread, hread'⟩

end VideoRegistry
