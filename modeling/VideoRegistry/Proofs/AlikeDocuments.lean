import VideoRegistry.Proofs.AlikeReading

/-!
# Headers of documents that are read alike

The sections of documents that are read alike give registries that are alike, and
so the documents have the same header, or none of them has one.
-/

namespace VideoRegistry

open Xml (Element SameHead SameTree)
open Registry (Alike)

/-! ## Enums -/

theorem Registry.Alike.fillEnum {registry other : Registry} (name : String)
    {values values' : List EnumValue} (halike : registry.Alike other)
    (hvalues : values'.map EnumValue.lineless = values.map EnumValue.lineless) :
    (registry.fillEnum name values).Alike (other.fillEnum name values') where
  types := by
    have hfilled : ∀ (entries : List TypeEntry) (values : List EnumValue),
        (entries.map (filled name values)).map TypeEntry.lineless =
          (entries.map TypeEntry.lineless).map
            (filled name (values.map EnumValue.lineless)) := by
      intro entries values
      rw [List.map_map, List.map_map]
      apply List.map_congr_left
      intro entry _
      by_cases hname : entry.name = name
      · simp only [Function.comp_apply, filled, TypeEntry.name_lineless, hname,
          if_true]
        rfl
      · simp only [Function.comp_apply, filled, TypeEntry.name_lineless, hname,
          if_false]
    have hperm := halike.types
    rw [List.append_nil] at hperm ⊢
    change ((other.types.map (filled name values')).map _).Perm
      ((registry.types.map (filled name values)).map _)
    rw [hfilled, hfilled, hvalues]
    exact hperm.map _
  structs := by simp
  distinct := by
    change ((other.types.map (filled name values')).map TypeEntry.name).Nodup
    rw [List.map_map]
    have hnames : TypeEntry.name ∘ filled name values' = TypeEntry.name :=
      funext (name_filled values')
    rw [hnames]
    exact halike.distinct
  ownership := halike.ownership
  extensions := halike.extensions
  copyright := halike.copyright

theorem readEnums_agree {registry other : Registry} {element element' : Element}
    (halike : registry.Alike other) (hsame : SameTree element element') :
    Agree Alike (readEnums registry element) (readEnums other element') := by
  rw [readEnums, readEnums]
  refine (check_agree enumsRule hsame.head).bind ?_
  rintro ⟨_, warnings⟩ ⟨attributes, warnings'⟩ rfl
  have hvalues := halike.values? (attributes.valueOf "name")
  dsimp only
  generalize (registry.find? (attributes.valueOf "name")).bind
    TypeEntry.values? = found at hvalues ⊢
  generalize (other.find? (attributes.valueOf "name")).bind
    TypeEntry.values? = found' at hvalues ⊢
  cases found with
  | none =>
      obtain rfl : found' = none := by simpa using hvalues
      exact .error _ _
  | some filled =>
      obtain ⟨filled', rfl, hfilled⟩ := Option.map_eq_some_iff.1 hvalues
      have hempty : filled'.isEmpty = filled.isEmpty := by
        have hisEmpty := congrArg List.isEmpty hfilled
        rwa [List.isEmpty_map, List.isEmpty_map] at hisEmpty
      dsimp only
      refine (Agree.require hempty _ _ _ _).bind_same fun _ => ?_
      have henum := (hsame.named "enum").imp fun _ _ hchild => hchild.head
      refine (readValues_agree henum _ rfl warnings warnings').bind ?_
      rintro ⟨values, noticed⟩ ⟨values', noticed'⟩ hread
      exact .ok (Alike.fillEnum _ (halike.warn noticed noticed') hread)

/-! ## Extensions -/

/-- The states in which two readers are within an extension. -/
def SameState (state other : Registry × Extension) : Prop :=
  state.1.Alike other.1 ∧ state.2.SameAs other.2

theorem readConstant_agree {state state' : Registry × Extension}
    {element element' : Element} (hstate : SameState state state')
    (hhead : SameHead element element') :
    Agree SameState (readConstant state.1 state.2 element)
      (readConstant state'.1 state'.2 element') := by
  obtain ⟨halike, hextension⟩ := hstate
  have hcontains : ∀ name, state'.2.constants.contains name =
      state.2.constants.contains name := by
    intro name
    rw [← contains_linelessConstants, hextension.constants_eq,
      contains_linelessConstants]
  rw [readConstant, readConstant]
  refine (attributesOf_agree hhead.attributes).bind_same fun attributes => ?_
  refine (checkAttributes_agree _ _ attributes _ _).bind ?_
  intro warnings warnings' _
  dsimp only
  split
  · exact .ok ⟨halike.warn _ _, hextension⟩
  · rw [hcontains]
    refine (Agree.require rfl _ _ _ _).bind_same fun _ => ?_
    refine (Agree.require rfl _ _ _ _).bind_same fun _ => ?_
    refine .ok ⟨halike.warn _ _, hextension.name_eq, hextension.depends_eq, ?_,
      hextension.types_eq⟩
    rw [linelessConstants_insert, linelessConstants_insert,
      hextension.constants_eq]
    rfl

theorem Registry.Alike.length_extensions {registry other : Registry}
    (halike : registry.Alike other) :
    other.extensions.length = registry.extensions.length := by
  simpa using congrArg List.length halike.extensions

theorem Registry.Alike.extensionPosition?_eq {registry other : Registry}
    (halike : registry.Alike other) :
    other.extensionPosition? = registry.extensionPosition? := by
  have hnames : ∀ (extensions : List Extension) (name : String),
      extensions.findIdx? (fun extension => extension.name = name) =
        (extensions.map Extension.lineless).findIdx?
          fun extension => extension.name = name := by
    intro extensions name
    rw [List.findIdx?_map]
    rfl
  funext name
  rw [extensionPosition?, extensionPosition?, hnames, halike.extensions, ← hnames]

theorem readRequiredType_agree {config : Config}
    {state state' : Registry × Extension} {element element' : Element}
    (hstate : SameState state state') (hhead : SameHead element element') :
    Agree SameState (readRequiredType config state.1 state.2 element)
      (readRequiredType config state'.1 state'.2 element') := by
  obtain ⟨halike, hextension⟩ := hstate
  rw [readRequiredType, readRequiredType]
  refine (check_agree requiredTypeRule hhead).bind ?_
  rintro ⟨_, warnings⟩ ⟨attributes, warnings'⟩ rfl
  have hwarned := halike.warn warnings warnings'
  dsimp only
  rw [hextension.depends_eq, hextension.types_eq,
    Alike.extensionPosition?_eq hwarned, Alike.declares_eq hwarned]
  split
  · refine (Agree.require rfl _ _ _ _).bind_same fun _ => ?_
    split
    · exact .error _ _
    · exact .ok ⟨hwarned, hextension.name_eq, rfl, hextension.constants_eq, rfl⟩
  · refine (Agree.require rfl _ _ _ _).bind_same fun _ => ?_
    refine (Agree.require rfl _ _ _ _).bind_same fun _ => ?_
    refine .ok ⟨⟨hwarned.types, hwarned.structs, hwarned.distinct, ?_,
      hwarned.extensions, hwarned.copyright⟩, hextension.name_eq, rfl,
      hextension.constants_eq, rfl⟩
    simp only [hwarned.ownership, Alike.length_extensions hwarned]

theorem readRequirement_agree {config : Config}
    {state state' : Registry × Extension} {element element' : Element}
    (hstate : SameState state state') (hhead : SameHead element element') :
    Agree SameState (readRequirement config state element)
      (readRequirement config state' element') := by
  rw [readRequirement, readRequirement, hhead.tag]
  split
  · exact readConstant_agree hstate hhead
  split
  · exact readRequiredType_agree hstate hhead
  · exact .ok hstate

theorem readRequire_agree {config : Config}
    {state state' : Registry × Extension} {element element' : Element}
    (hstate : SameState state state') (hsame : SameTree element element') :
    Agree SameState (readRequire config state element)
      (readRequire config state' element') := by
  rw [readRequire, readRequire]
  refine (check_agree requireRule hsame.head).bind ?_
  rintro ⟨_, warnings⟩ ⟨attributes, warnings'⟩ rfl
  apply Agree.foldlM _ hsame.elements
  · exact ⟨hstate.1.warn warnings warnings', hstate.2.name_eq,
      hstate.2.depends_eq, hstate.2.constants_eq, hstate.2.types_eq⟩
  · intro before before' hbefore child child' hchild
    exact readRequirement_agree hbefore hchild.head

theorem readExtension_agree {config : Config} {registry other : Registry}
    {element element' : Element} (halike : registry.Alike other)
    (hsame : SameTree element element') :
    Agree Alike (readExtension config registry element)
      (readExtension config other element') := by
  rw [readExtension, readExtension]
  refine (check_agree extensionRule hsame.head).bind ?_
  rintro ⟨_, warnings⟩ ⟨attributes, warnings'⟩ rfl
  dsimp only
  rw [Alike.extensionPosition?_eq halike]
  refine (Agree.require rfl _ _ _ _).bind_same fun _ => ?_
  refine (Agree.require rfl _ _ _ _).bind_same fun _ => ?_
  have hrequires : Agree SameState
      ((element.named "require").foldlM (readRequire config)
        (registry.warn warnings,
          { name := attributes.valueOf "name", line := element.line }))
      ((element'.named "require").foldlM (readRequire config)
        (other.warn warnings',
          { name := attributes.valueOf "name", line := element'.line })) := by
    apply Agree.foldlM _ (hsame.named "require")
    · exact ⟨halike.warn warnings warnings', rfl, rfl, rfl, rfl⟩
    · intro before before' hbefore child child' hchild
      exact readRequire_agree hbefore hchild
  refine hrequires.bind ?_
  rintro ⟨after, extension⟩ ⟨after', extension'⟩ ⟨hafter, hextension⟩
  refine .ok ⟨hafter.types, hafter.structs, hafter.distinct, hafter.ownership,
    ?_, hafter.copyright⟩
  rw [List.map_append, List.map_append, hafter.extensions, List.map_singleton,
    List.map_singleton, Extension.sameAs_iff.1 hextension]

theorem readExtensions_agree {config : Config} {registry other : Registry}
    {element element' : Element} (halike : registry.Alike other)
    (hsame : SameTree element element') :
    Agree Alike (readExtensions config registry element)
      (readExtensions config other element') := by
  rw [readExtensions, readExtensions]
  refine (check_agree extensionsRule hsame.head).bind ?_
  rintro ⟨_, warnings⟩ ⟨attributes, warnings'⟩ rfl
  have hwarned : (registry.warn warnings).Alike (other.warn warnings') :=
    halike.warn warnings warnings'
  apply Agree.foldlM _ (hsame.named "extension") hwarned
  intro before before' hbefore child child' hchild
  exact readExtension_agree hbefore hchild

/-! ## Documents -/

/-- Two sections of a registry are read alike.  The structs of one may stand in
another order in the other. -/
structure SameSection (element other : Element) : Prop where
  head : SameHead element other
  comment : element.tag = "comment" →
    isLicence element.text ∨ isLicence other.text → other.text = element.text
  types : element.tag = "types" → ∃ middle,
    List.Forall₂ SameType (element.named "type") middle ∧
      Relation.EqvGen Swapped middle (other.named "type")
  tree : element.tag ∈ ["enums", "extensions"] → SameTree element other

/-- Two roots of documents are read alike. -/
structure SameRoot (element other : Element) : Prop where
  head : SameHead element other
  sections : element.tag = "registry" →
    List.Forall₂ SameSection element.elements other.elements

/-- Two documents are read alike. -/
def SameReading (document other : Xml.Document) : Prop :=
  List.Forall₂ SameRoot document.elements other.elements

theorem readTypes_agree {registry other : Registry} {element element' : Element}
    (halike : registry.Alike other) (hhead : SameHead element element')
    {middle : List Element}
    (hsame : List.Forall₂ SameType (element.named "type") middle)
    (hreordered : Relation.EqvGen Swapped middle (element'.named "type")) :
    Agree Alike (readTypes registry element) (readTypes other element') := by
  rw [readTypes, readTypes]
  refine (check_agree typesRule hhead).bind ?_
  rintro ⟨_, warnings⟩ ⟨attributes, warnings'⟩ rfl
  have hwarned := halike.warn warnings warnings'
  have hself : (other.warn warnings').Alike (other.warn warnings') :=
    .refl hwarned.distinct
  refine ((foldlM_readType_agree hsame hwarned).trans
    (foldlM_readType_reordered hreordered hself)).mono ?_
  rintro after after' ⟨between, hfirst, hsecond⟩
  exact Alike.trans hfirst hsecond

/-- Of a comment, a registry keeps the text of a licence. -/
def keepLicence (registry : Registry) (comment : String) : Registry :=
  if isLicence comment then { registry with copyright := banner comment }
  else registry

theorem keepLicence_alike {registry other : Registry} {comment comment' : String}
    (halike : registry.Alike other)
    (hsame : isLicence comment ∨ isLicence comment' → comment' = comment) :
    (keepLicence registry comment).Alike (keepLicence other comment') := by
  by_cases hlicence : isLicence comment ∨ isLicence comment'
  · obtain rfl := hsame hlicence
    obtain hlicence := or_self_iff.1 hlicence
    rw [keepLicence, keepLicence, if_pos hlicence, if_pos hlicence]
    exact ⟨halike.types, halike.structs, halike.distinct, halike.ownership,
      halike.extensions, rfl⟩
  · obtain ⟨hfirst, hsecond⟩ := not_or.1 hlicence
    rw [keepLicence, keepLicence, if_neg hfirst, if_neg hsecond]
    exact halike

theorem readSection_agree {config : Config} {registry other : Registry}
    {element element' : Element} (halike : registry.Alike other)
    (hsame : SameSection element element') :
    Agree Alike (readSection config registry element)
      (readSection config other element') := by
  rw [readSection, readSection, hsame.head.tag]
  split
  · next hcomment =>
      have hread : Agree (fun result result' => result.1 = element.text ∧
          result'.1 = element'.text) (readComment element)
            (readComment element') :=
        (check_agree plainRule hsame.head).map fun _ _ _ => ⟨rfl, rfl⟩
      have hkeep : ∀ (registry : Registry) (comment : String),
          (if isLicence comment then
            pure { registry with copyright := banner comment }
          else pure registry : Checked Registry) =
            .ok (keepLicence registry comment) := by
        intro registry comment
        rw [keepLicence]
        split <;> rfl
      refine hread.bind ?_
      rintro ⟨_, warnings⟩ ⟨_, warnings'⟩ ⟨rfl, rfl⟩
      dsimp only
      rw [hkeep, hkeep]
      exact .ok (keepLicence_alike (halike.warn warnings warnings')
        (hsame.comment hcomment))
  · next henums =>
      exact readEnums_agree halike (hsame.tree (by simp [henums]))
  · next hextensions =>
      exact readExtensions_agree halike (hsame.tree (by simp [hextensions]))
  · next htypes =>
      obtain ⟨middle, hmiddle, hreordered⟩ := hsame.types htypes
      exact readTypes_agree halike hsame.head hmiddle hreordered
  · exact .ok halike

theorem readSections_agree {config : Config} {document other : Xml.Document}
    (hsame : SameReading document other) :
    Agree Alike (readSections config document) (readSections config other) := by
  have htags : (other.elements.map Xml.ElementOf.tag).Perm
      (document.elements.map Xml.ElementOf.tag) := by
    refine .of_eq (map_eq_map_iff_forall₂.2 ?_)
    exact hsame.imp fun _ _ hroot => hroot.head.tag
  have hfind := Xml.forall₂_find? (fun _ _ hroot => hroot.head.tag) hsame "registry"
  rw [readSections, readSections]
  refine (checkCounts_agree _ _ htags documentChildren).bind_same fun _ => ?_
  cases hregistry : document.elements.find? fun element =>
      element.tag = "registry" with
  | none =>
      rw [hregistry] at hfind
      generalize (other.elements.find? fun element =>
        element.tag = "registry") = found at hfind ⊢
      cases hfind with
      | none => exact .error _ _
  | some element =>
      have htag : element.tag = "registry" := by
        simpa using List.find?_some hregistry
      rw [hregistry] at hfind
      generalize (other.elements.find? fun element =>
        element.tag = "registry") = found at hfind ⊢
      cases hfind with
      | @some _ element' hroot =>
          dsimp only
          refine (check_agree registryRule hroot.head).bind ?_
          rintro ⟨_, warnings⟩ ⟨attributes, warnings'⟩ rfl
          have hempty : ∀ noticed noticed' : List Warning,
              Alike (Registry.warn {} noticed) (Registry.warn {} noticed') :=
            fun _ _ => ⟨.refl _, by simp, List.nodup_nil, rfl, rfl, rfl⟩
          apply Agree.foldlM _ (hroot.sections htag) (hempty _ _)
          intro before before' hbefore part part' hpart
          exact readSection_agree hbefore hpart

theorem readDocument_agree {config : Config} {document other : Xml.Document}
    (hsame : SameReading document other) :
    Agree Alike (readDocument config document) (readDocument config other) := by
  rw [readDocument, readDocument]
  refine (readSections_agree hsame).orFail.bind ?_
  intro registry registry' halike
  rw [halike.copyright]
  split
  · exact .error _ _
  · exact .ok halike

/-- Documents that are read alike have the same header, if any. -/
theorem generateFrom_eq_ok_iff_of_sameReading {config : Config}
    {document other : Xml.Document} (hsame : SameReading document other)
    (text : String) :
    generateFrom config document = .ok text ↔
      generateFrom config other = .ok text :=
  (generateFrom_agree (readDocument_agree hsame)).eq_ok_iff

/-! ## Changes that keep the elements -/

namespace Xml

theorem sizeOf_lt_of_mem_elements {element child : Element}
    (hchild : child ∈ element.elements) : sizeOf child < sizeOf element := by
  obtain ⟨node, hnode, hfound⟩ := List.mem_filterMap.1 hchild
  obtain rfl : node = .element child := by
    cases node <;> simp_all [Node.element?]
  have hlt := List.sizeOf_lt_of_mem hnode
  cases element
  simp only [Node.element.sizeOf_spec, ElementOf.mk.sizeOf_spec] at hlt ⊢
  omega

/-- A change of elements that keeps all elements within them, with their tags and
attributes. -/
structure KeepsElements (change : Element → Element) : Prop where
  tag : ∀ element, (change element).tag = element.tag
  attributes : ∀ element, (change element).attributes = element.attributes
  elements : ∀ element, (change element).elements = element.elements.map change

namespace KeepsElements

variable {change : Element → Element} (hkeeps : KeepsElements change)
include hkeeps

theorem sameTree (element : Element) : SameTree element (change element) := by
  refine .mk (hkeeps.tag element) (hkeeps.attributes element) ?_
  rw [hkeeps.elements, List.forall₂_map_right_iff, List.forall₂_same]
  exact fun child hchild => sameTree child
termination_by sizeOf element
decreasing_by exact sizeOf_lt_of_mem_elements hchild

theorem named (element : Element) (tag : String) :
    (change element).named tag = (element.named tag).map change := by
  rw [ElementOf.named, hkeeps.elements, List.filter_map, ElementOf.named]
  congr 2
  funext child
  rw [Function.comp_apply, hkeeps.tag]

end KeepsElements

end Xml

/-- A change keeps what is read of a declared type. -/
structure KeepsType (change : Element → Element) (element : Element) : Prop where
  texts : ∀ child ∈ element.elements, child.tag ∈ ["name", "type"] →
    (change child).text = child.text
  members : ∀ member ∈ element.named "member",
    List.Forall₂ SamePart member.placed (change member).placed

theorem KeepsType.sameType {change : Element → Element}
    (hkeeps : Xml.KeepsElements change) {element : Element}
    (htype : KeepsType change element) : SameType element (change element) where
  head := (hkeeps.sameTree element).head
  texts tag htag := by
    rw [hkeeps.named, List.map_map]
    apply List.map_congr_left
    intro child hchild
    obtain ⟨hmem, hchildTag⟩ := List.mem_filter.1 hchild
    exact htype.texts child hmem (of_decide_eq_true hchildTag ▸ htag)
  members := by
    rw [hkeeps.named, List.forall₂_map_right_iff, List.forall₂_same]
    exact fun member hmember =>
      ⟨(hkeeps.sameTree member).head, htype.members member hmember⟩

/-- A change keeps what is read of a section. -/
structure KeepsSection (change : Element → Element) (element : Element) : Prop where
  comment : element.tag = "comment" →
    isLicence element.text ∨ isLicence (change element).text →
      (change element).text = element.text
  types : element.tag = "types" →
    ∀ type ∈ element.named "type", KeepsType change type

theorem KeepsSection.sameSection {change : Element → Element}
    (hkeeps : Xml.KeepsElements change) {element : Element}
    (hsection : KeepsSection change element) :
    SameSection element (change element) where
  head := (hkeeps.sameTree element).head
  comment := hsection.comment
  types htag := by
    refine ⟨(element.named "type").map change, ?_, ?_⟩
    · rw [List.forall₂_map_right_iff, List.forall₂_same]
      exact fun type htype => (hsection.types htag type htype).sameType hkeeps
    · rw [hkeeps.named]
      exact .refl _
  tree _ := hkeeps.sameTree element

/-- A change that keeps all elements, and what is read of each section, gives a
document that is read alike. -/
theorem sameReading_of_keeps {change : Element → Element}
    (hkeeps : Xml.KeepsElements change) {document other : Xml.Document}
    (helements : other.elements = document.elements.map change)
    (hsections : ∀ root ∈ document.elements, ∀ element ∈ root.elements,
      KeepsSection change element) : SameReading document other := by
  rw [SameReading, helements, List.forall₂_map_right_iff, List.forall₂_same]
  intro root hroot
  refine ⟨(hkeeps.sameTree root).head, fun _ => ?_⟩
  rw [hkeeps.elements, List.forall₂_map_right_iff, List.forall₂_same]
  exact fun element helement =>
    (hsections root hroot element helement).sameSection hkeeps

end VideoRegistry
