import Mathlib.Logic.Relation
import VideoRegistry.Proofs.AlikeElements
import VideoRegistry.Proofs.AlikePasses
import VideoRegistry.Proofs.WellFormed

/-!
# Documents that are read alike

Documents whose elements are read alike give registries that are alike.  Among
the types of a section, structs that require nothing may also change places: on
its way through the types in the one order, the reader is a struct ahead of where
it is in the other order, and catches up when it gets to that struct.
-/

namespace VideoRegistry

open Xml (Element SameHead SameTree)
open Registry (Ahead Alike)

/-! ## Attributes by name -/

namespace NameMap

variable {α : Type}

theorem get?_insert (map : NameMap α) (name other : String) (value : α) :
    (map.insert name value).get? other =
      if name = other then some value else map.get? other := by
  rcases map with ⟨entries⟩
  simp only [insert, get?]
  induction entries with
  | nil =>
      simp only [insertEntry, List.find?_singleton, decide_eq_true_eq]
      split <;> rfl
  | cons entry rest ih =>
      rw [insertEntry]
      split
      · next hsame =>
          rw [List.find?_cons, List.find?_cons]
          by_cases hname : name = other
          · simp [hname]
          · simp [hname, hsame]
      split
      · rw [List.find?_cons]
        by_cases hname : name = other
        · simp [hname]
        · simp [hname]
      · next hother _ =>
          rw [List.find?_cons, List.find?_cons]
          by_cases hentry : entry.1 = other
          · have hname : name ≠ other := fun hname =>
              hother (hentry.trans hname.symm)
            simp [hentry, hname]
          · simpa [hentry] using ih

theorem contains_eq_isSome_get? (map : NameMap α) (name : String) :
    map.contains name = (map.get? name).isSome := by
  rw [contains, get?, Option.isSome_map, List.isSome_find?]

end NameMap

theorem get?_of_collectAttributes {line : Nat} {start attributes : Attributes}
    {pairs : List (String × String)}
    (hrun : collectAttributes line start pairs = .ok attributes)
    (name value : String) :
    attributes.get? name = some value ↔
      start.get? name = some value ∨ (name, value) ∈ pairs := by
  induction pairs generalizing start with
  | nil =>
      obtain rfl := Except.ok.inj hrun
      simp
  | cons pair rest ih =>
      rw [collectAttributes] at hrun
      split at hrun
      · cases hrun
      · next hnew =>
          rw [ih hrun, NameMap.get?_insert, List.mem_cons, Prod.ext_iff]
          rw [NameMap.contains_eq_isSome_get?] at hnew
          split
          · next hname =>
              subst hname
              have hnone : start.get? pair.1 = none := by simpa using hnew
              simp [hnone, eq_comm]
          · next hname => simp [Ne.symm hname]

/-- What is known of an attribute by name is what the element says of it. -/
theorem get?_of_attributesOf {element : Element} {attributes : Attributes}
    (hrun : attributesOf element = .ok attributes) (name value : String) :
    attributes.get? name = some value ↔ (name, value) ∈ element.attributes := by
  have hcollect := get?_of_collectAttributes hrun name value
  simpa [NameMap.get?, NameMap.empty] using hcollect

theorem attributesOf_of_check {rule : ElementRule} {element : Element}
    {attributes : Attributes} {warnings : List Warning}
    (hcheck : rule.check element = .ok (attributes, warnings)) :
    attributesOf element = .ok attributes := by
  obtain ⟨found, hfound, hcheck⟩ := bind_eq_ok_iff.1 hcheck
  obtain ⟨_, -, hcheck⟩ := bind_eq_ok_iff.1 hcheck
  obtain ⟨_, -, hcheck⟩ := bind_eq_ok_iff.1 hcheck
  obtain ⟨rfl, -⟩ := Prod.mk.inj (pure_eq_ok_iff.1 hcheck)
  exact hfound

/-! ## Types -/

/-- Two declared types are read alike. -/
structure SameType (element other : Element) : Prop where
  head : SameHead element other
  texts : ∀ tag ∈ ["name", "type"], (other.named tag).map Xml.ElementOf.text =
    (element.named tag).map Xml.ElementOf.text
  members : List.Forall₂ SameMember (element.named "member")
    (other.named "member")

/-- The element declares a struct. -/
def DeclaresStruct (element : Element) : Prop :=
  ("category", "struct") ∈ element.attributes

/-- The element names no other type that it requires. -/
def RequiresNothing (element : Element) : Prop :=
  "requires" ∉ element.attributes.map Prod.fst

/-- The second outcome of reading a type follows the first one ahead by some
structs: they agree, unless the type has the name of one of these structs. -/
inductive Follows (extra : List TypeEntry) :
    Checked Registry → Checked Registry → Prop where
  | ok {registry other : Registry} (hahead : registry.Ahead other extra) :
      Follows extra (.ok registry) (.ok other)
  | error (fault other : SpecError) : Follows extra (.error fault) (.error other)
  | taken {registry : Registry} {entry : TypeEntry} (fault : SpecError)
      (hentry : entry ∈ extra) (hdeclares : registry.declares entry.name) :
      Follows extra (.ok registry) (.error fault)

namespace Follows

variable {extra : List TypeEntry} {α β : Type} {related : α → β → Prop}
  {first : Checked α} {second : Checked β}

theorem bind {next : α → Checked Registry} {next' : β → Checked Registry}
    (hagree : Agree related first second)
    (hnext : ∀ value other, related value other →
      Follows extra (next value) (next' other)) :
    Follows extra (first >>= next) (second >>= next') := by
  cases hagree with
  | ok hrelated => exact hnext _ _ hrelated
  | error fault other => exact .error fault other

theorem bind_same {first second : Checked α} {next next' : α → Checked Registry}
    (hagree : Agree Eq first second)
    (hnext : ∀ value, Follows extra (next value) (next' value)) :
    Follows extra (first >>= next) (second >>= next') := by
  apply bind hagree
  rintro value _ rfl
  exact hnext value

theorem of_error {outcome : Checked Registry} (fault : SpecError)
    (htaken : ∀ registry, outcome = .ok registry →
      ∃ entry ∈ extra, registry.declares entry.name) :
    Follows extra outcome (.error fault) := by
  cases outcome with
  | ok registry =>
      obtain ⟨entry, hentry, hdeclares⟩ := htaken registry rfl
      exact .taken fault hentry hdeclares
  | error found => exact .error found fault

/-- With no struct in between the outcomes agree. -/
theorem agree {outcome outcome' : Checked Registry}
    (hfollows : Follows [] outcome outcome') : Agree Alike outcome outcome' := by
  cases hfollows with
  | ok hahead => exact .ok hahead
  | error fault other => exact .error fault other
  | taken _ hentry _ => cases hentry

end Follows

theorem Registry.declare_eq_ok_iff {registry after : Registry} {name : String}
    {line : Nat} {definition : Definition} {kind : Declared} :
    registry.declare name line definition kind = .ok after ↔
      registry.declares name = false ∧
        { registry with types := registry.types ++ [⟨name, line, definition⟩] } =
          after := by
  rw [Registry.declare, declare?]
  cases registry.declares name <;> simp

theorem RequiresNothing.get?_eq_none {element : Element} {attributes : Attributes}
    (hnothing : RequiresNothing element)
    (hrun : attributesOf element = .ok attributes) :
    attributes.get? "requires" = none := by
  rw [Option.eq_none_iff_forall_ne_some]
  intro value hvalue
  have hmem := (get?_of_attributesOf hrun "requires" value).1 hvalue
  exact hnothing (List.mem_map_of_mem hmem)

namespace Registry.Ahead

variable {registry other : Registry} {extra : List TypeEntry}
  {element element' : Element}

theorem declare_follows (hahead : registry.Ahead other extra) (name : String)
    (line line' : Nat) {definition definition' : Definition}
    (hsame : definition'.lineless = definition.lineless) (kind : Declared) :
    Follows extra (registry.declare name line definition kind)
      (other.declare name line' definition' kind) := by
  have hdeclares := hahead.declares_eq name
  rw [Registry.declare, Registry.declare, declare?, declare?]
  cases hfirst : registry.declares name with
  | true =>
      rw [hdeclares, hfirst]
      exact .error _ _
  | false =>
      rw [hfirst, Bool.false_or] at hdeclares
      cases hsecond : other.declares name with
      | false =>
          refine .ok (hahead.declare ?_ hsecond)
          rw [TypeEntry.lineless, TypeEntry.lineless, hsame]
      | true =>
          rw [hsecond] at hdeclares
          obtain ⟨entry, hentry, hname⟩ := List.any_eq_true.1 hdeclares.symm
          refine .taken _ hentry ?_
          obtain rfl : entry.name = name := of_decide_eq_true hname
          simp [declares_eq_isSome, Registry.find?_eq]

theorem readDefine_follows (hahead : registry.Ahead other extra)
    (hsame : SameType element element') :
    Follows extra (readDefine registry element) (readDefine other element') := by
  have hdefine : ∀ name, other.hasCategory name .define =
      registry.hasCategory name .define := hahead.hasCategory_eq (by simp)
  have htext : ∀ tag ∈ ["name", "type"],
      lastText element' tag = lastText element tag := by
    intro tag htag
    rw [lastText, lastText, ← List.getLast?_map, ← List.getLast?_map,
      hsame.texts tag htag]
  rw [readDefine, readDefine]
  apply Follows.bind (check_agree defineRule hsame.head)
  rintro ⟨_, warnings⟩ ⟨attributes, warnings'⟩ rfl
  simp only [hdefine, htext "name" (by simp), htext "type" (by simp)]
  refine Follows.bind_same (Agree.require rfl _ _ _ _) fun _ => ?_
  refine Follows.bind_same (Agree.require rfl _ _ _ _) fun _ => ?_
  exact (hahead.warn warnings warnings').declare_follows _ _ _ rfl _

theorem readEnumType_follows (hahead : registry.Ahead other extra)
    (hhead : SameHead element element') :
    Follows extra (readEnumType registry element)
      (readEnumType other element') := by
  rw [readEnumType, readEnumType]
  apply Follows.bind (check_agree enumTypeRule hhead)
  rintro ⟨_, warnings⟩ ⟨attributes, warnings'⟩ rfl
  exact (hahead.warn warnings warnings').declare_follows _ _ _ rfl _

theorem readInclusion_follows (hahead : registry.Ahead other extra)
    (hhead : SameHead element element') :
    Follows extra (readInclusion registry element)
      (readInclusion other element') := by
  rw [readInclusion, readInclusion]
  apply Follows.bind (check_agree inclusionRule hhead)
  rintro ⟨_, warnings⟩ ⟨attributes, warnings'⟩ rfl
  exact (hahead.warn warnings warnings').declare_follows _ _ _ rfl _

theorem readExternal_follows (hahead : registry.Ahead other extra)
    (hhead : SameHead element element') :
    Follows extra (readExternal registry element)
      (readExternal other element') := by
  have hinclusion : ∀ name, other.hasCategory name .inclusion =
      registry.hasCategory name .inclusion := hahead.hasCategory_eq (by simp)
  rw [readExternal, readExternal]
  apply Follows.bind (check_agree externalRule hhead)
  rintro ⟨_, warnings⟩ ⟨attributes, warnings'⟩ rfl
  dsimp only
  rw [hinclusion]
  refine Follows.bind_same (Agree.require rfl _ _ _ _) fun _ => ?_
  exact (hahead.warn warnings warnings').declare_follows _ _ _ rfl _

theorem exists_of_declares_ne (hahead : registry.Ahead other extra) {name : String}
    (hne : other.declares name ≠ registry.declares name) :
    registry.declares name = false ∧ other.declares name = true ∧
      ∃ entry ∈ extra, entry.name = name := by
  have hdeclares := hahead.declares_eq name
  cases hfirst : registry.declares name with
  | true => simp [hdeclares, hfirst] at hne
  | false =>
      rw [hfirst, ne_eq, Bool.not_eq_false] at hne
      rw [hne, hfirst, Bool.false_or] at hdeclares
      obtain ⟨entry, hentry, hname⟩ := List.any_eq_true.1 hdeclares.symm
      exact ⟨rfl, hne, entry, hentry, of_decide_eq_true hname⟩

theorem readStruct_follows (hahead : registry.Ahead other extra)
    (hsame : SameType element element')
    (hrequires : extra = [] ∨ RequiresNothing element) :
    Follows extra (readStruct registry element) (readStruct other element') := by
  rw [readStruct, readStruct]
  apply Follows.bind (check_agree structRule hsame.head).attach
  rintro ⟨_, warnings⟩ ⟨attributes, warnings'⟩ ⟨rfl, hcheck, -⟩
  have hrequired : (attributes.get? "requires").all other.declares =
      (attributes.get? "requires").all registry.declares := by
    rcases hrequires with rfl | hnothing
    · rw [Alike.declares_eq hahead]
    · rw [hnothing.get?_eq_none (attributesOf_of_check hcheck)]
      rfl
  dsimp only
  rw [hrequired]
  refine Follows.bind_same (Agree.require rfl _ _ _ _) fun _ => ?_
  by_cases hname : other.declares (attributes.valueOf "name") =
      registry.declares (attributes.valueOf "name")
  · rw [hname]
    refine Follows.bind_same (Agree.require rfl _ _ _ _) fun _ => ?_
    apply Follows.bind (readMembers_agree hsame.members rfl warnings warnings')
    rintro ⟨members, noticed⟩ ⟨members', noticed'⟩ hmembers
    apply (hahead.warn noticed noticed').declare_follows
    exact congrArg Definition.struct hmembers
  · -- Only the registry ahead has the name, and it refuses the struct.
    obtain ⟨hnew, htaken, entry, hentry, hsameName⟩ :=
      hahead.exists_of_declares_ne hname
    rw [hnew, htaken]
    refine .of_error _ fun after hrun => ?_
    obtain ⟨_, -, hrun⟩ := bind_eq_ok_iff.1 hrun
    obtain ⟨⟨members, noticed⟩, -, hrun⟩ := bind_eq_ok_iff.1 hrun
    obtain ⟨-, rfl⟩ := declare_eq_ok_iff.1 hrun
    refine ⟨entry, hentry, ?_⟩
    simp [declares_eq_isSome, Registry.find?_eq, hsameName]

theorem readType_follows (hahead : registry.Ahead other extra)
    (hsame : SameType element element')
    (hrequires : extra = [] ∨
      (DeclaresStruct element → RequiresNothing element)) :
    Follows extra (readType registry element) (readType other element') := by
  rw [readType, readType]
  apply Follows.bind (attributesOf_agree hsame.head.attributes).attach
  rintro attributes _ ⟨rfl, hattributes, -⟩
  split
  · exact hahead.readDefine_follows hsame
  · exact hahead.readEnumType_follows hsame.head
  · exact hahead.readInclusion_follows hsame.head
  · next hcategory =>
      apply hahead.readStruct_follows hsame
      refine hrequires.imp_right fun hnothing => hnothing ?_
      exact (get?_of_attributesOf hattributes "category" "struct").1 hcategory
  · exact .error _ _
  split
  · exact hahead.readExternal_follows hsame.head
  · refine Follows.bind_same (Agree.require rfl _ _ _ _) fun _ => ?_
    exact hahead.declare_follows _ _ _ rfl _

end Registry.Ahead

/-! ## Structs that change places -/

theorem SameType.refl (element : Element) : SameType element element where
  head := .refl element
  texts _ _ := rfl
  members := List.forall₂_same.2 fun member _ =>
    ⟨.refl member, List.forall₂_same.2 fun place _ =>
      ⟨.refl place.element, fun _ => rfl, fun _ => rfl, fun _ => rfl,
        fun _ => rfl⟩⟩

theorem readType_agree {registry other : Registry} {element element' : Element}
    (halike : registry.Alike other) (hsame : SameType element element') :
    Agree Alike (readType registry element) (readType other element') :=
  (halike.readType_follows hsame (Or.inl rfl)).agree

/-- Wherever the element is read, it gives the struct, which has to be new. -/
structure GivesStruct (element : Element) (entry : TypeEntry) : Prop where
  isNew : ∀ registry after, readType registry element = .ok after →
    registry.declares entry.name = false
  reads : ∀ registry : Registry, (registry.types.map TypeEntry.name).Nodup →
    registry.declares entry.name = false →
      ∃ after, readType registry element = .ok after ∧
        registry.Ahead after [entry]

theorem declares_eq_false_of_readStruct {registry after : Registry}
    {element : Element} {attributes : Attributes} {warnings : List Warning}
    (hcheck : structRule.check element = .ok (attributes, warnings))
    (hrun : readStruct registry element = .ok after) :
    registry.declares (attributes.valueOf "name") = false := by
  obtain ⟨⟨found, _⟩, hfound, hrun⟩ := bind_eq_ok_iff.1 hrun
  obtain ⟨rfl, -⟩ := Prod.mk.inj (Except.ok.inj (hcheck.symm.trans hfound))
  obtain ⟨_, -, hrun⟩ := bind_eq_ok_iff.1 hrun
  obtain ⟨_, hnew, -⟩ := bind_eq_ok_iff.1 hrun
  simpa using require_eq_ok_iff.1 hnew

theorem exists_readStruct_of_new {registry : Registry} {element : Element}
    {attributes : Attributes} {warnings noticed : List Warning}
    {members : List Member}
    (hcheck : structRule.check element = .ok (attributes, warnings))
    (hrequires : attributes.get? "requires" = none)
    (hmembers : readMembers [] warnings (element.named "member") =
      .ok (members, noticed))
    (hdistinct : (registry.types.map TypeEntry.name).Nodup)
    (hnew : registry.declares (attributes.valueOf "name") = false) :
    ∃ after, readStruct registry element = .ok after ∧ registry.Ahead after
      [⟨attributes.valueOf "name", element.line, .struct members⟩] := by
  let entry : TypeEntry :=
    ⟨attributes.valueOf "name", element.line, .struct members⟩
  have hahead : registry.Ahead
      { registry with types := registry.types ++ [entry] } [entry] :=
    .of_struct hdistinct hnew rfl
  have hrequired : require ((attributes.get? "requires").all registry.declares)
      element.line (.structRequires (attributes.valueOf "name")
        ((attributes.get? "requires").getD "")) = .ok () := by
    rw [require_eq_ok_iff, hrequires]
    rfl
  have hfree : require (!registry.declares (attributes.valueOf "name"))
      element.line (.alreadyDeclared .struct (attributes.valueOf "name")) =
        .ok () := by
    rw [require_eq_ok_iff, hnew]
    rfl
  refine ⟨_, ?_, hahead.warn_right noticed⟩
  exact bind_eq_ok_iff.2 ⟨_, hcheck, bind_eq_ok_iff.2 ⟨(), hrequired,
    bind_eq_ok_iff.2 ⟨(), hfree, bind_eq_ok_iff.2 ⟨_, hmembers,
      Registry.declare_eq_ok_iff.2 ⟨hnew, rfl⟩⟩⟩⟩⟩

/-- What a struct that requires nothing gives does not depend on what was read
before. -/
theorem exists_givesStruct {registry after : Registry} {element : Element}
    (hstruct : DeclaresStruct element) (hnothing : RequiresNothing element)
    (hrun : readType registry element = .ok after) :
    ∃ entry, GivesStruct element entry := by
  have hreads : ∀ registry, readType registry element =
      readStruct registry element := by
    intro registry
    obtain ⟨attributes, hattributes, -⟩ := bind_eq_ok_iff.1 hrun
    have hcategory := (get?_of_attributesOf hattributes _ _).2 hstruct
    rw [readType, hattributes]
    simp only [bind, Except.bind, hcategory]
  rw [hreads] at hrun
  obtain ⟨⟨attributes, warnings⟩, hcheck, hrun⟩ := bind_eq_ok_iff.1 hrun
  have hrequires := hnothing.get?_eq_none (attributesOf_of_check hcheck)
  obtain ⟨_, -, hrun⟩ := bind_eq_ok_iff.1 hrun
  obtain ⟨_, -, hrun⟩ := bind_eq_ok_iff.1 hrun
  obtain ⟨⟨members, noticed⟩, hmembers, -⟩ := bind_eq_ok_iff.1 hrun
  refine ⟨⟨attributes.valueOf "name", element.line, .struct members⟩, ?_, ?_⟩
  · intro registry after hrun
    rw [hreads] at hrun
    exact declares_eq_false_of_readStruct hcheck hrun
  · intro registry hdistinct hnew
    rw [hreads]
    exact exists_readStruct_of_new hcheck hrequires hmembers hdistinct hnew

/-- What is new behind a type was so in front of it. -/
theorem declares_eq_false_of_readType {registry after : Registry}
    {element : Element} {name : String}
    (hread : readType registry element = .ok after)
    (hnew : after.declares name = false) : registry.declares name = false := by
  rw [← Bool.not_eq_true] at hnew ⊢
  exact mt (Registry.Reading.declares (readType_reading hread)) hnew

/-- A struct may be read before or after another type. -/
theorem GivesStruct.swap_agree {registry other : Registry}
    {element element' : Element} {entry : TypeEntry}
    (hgives : GivesStruct element entry)
    (hother : DeclaresStruct element' → RequiresNothing element')
    (halike : registry.Alike other) :
    Agree Alike
      (readType registry element >>= fun next => readType next element')
      (readType other element' >>= fun next => readType next element) := by
  have hfollows : ∀ {ahead : Registry}, registry.Ahead ahead [entry] →
      Follows [entry] (readType other element') (readType ahead element') :=
    fun hahead => (hahead.of_alike halike).readType_follows (.refl element')
      (Or.inr hother)
  rw [Agree.iff_ok]
  constructor
  · intro last hrun
    obtain ⟨ahead, hahead, hrun⟩ := bind_eq_ok_iff.1 hrun
    have hnew := hgives.isNew registry ahead hahead
    obtain ⟨_, hread, hstep⟩ :=
      hgives.reads registry halike.symm.distinct hnew
    obtain rfl := Except.ok.inj (hread.symm.trans hahead)
    have hsecond := hfollows hstep
    rw [hrun] at hsecond
    generalize readType other element' = outcome at hsecond ⊢
    cases hsecond with
    | @ok behind _ hlast =>
        -- The other reader catches up with the struct.
        obtain ⟨later, hlater, hcaught⟩ := hgives.reads behind
          hlast.distinct_registry (hlast.declares_eq_false (by simp))
        exact ⟨later, bind_eq_ok_iff.2 ⟨behind, rfl, hlater⟩,
          hlast.alike hcaught⟩
  · intro last hrun
    obtain ⟨behind, hbehind, hrun⟩ := bind_eq_ok_iff.1 hrun
    have hnew := hgives.isNew behind last hrun
    have hearlier : registry.declares entry.name = false := by
      rw [← halike.declares_eq]
      exact declares_eq_false_of_readType hbehind hnew
    obtain ⟨ahead, hahead, hstep⟩ :=
      hgives.reads registry halike.symm.distinct hearlier
    have hsecond := hfollows hstep
    rw [hbehind] at hsecond
    generalize hlast : readType ahead element' = outcome at hsecond
    cases hsecond with
    | @ok _ first hfirst =>
        obtain ⟨_, hread, hcaught⟩ :=
          hgives.reads behind hfirst.distinct_registry hnew
        obtain rfl := Except.ok.inj (hread.symm.trans hrun)
        exact ⟨first, bind_eq_ok_iff.2 ⟨ahead, hahead, hlast⟩,
          hfirst.alike hcaught⟩
    | taken _ hentry hdeclares =>
        obtain rfl := List.mem_singleton.1 hentry
        simp [hnew] at hdeclares

theorem readType_swap_agree {registry other : Registry}
    {element element' : Element} (hstruct : DeclaresStruct element)
    (hnothing : RequiresNothing element)
    (hother : DeclaresStruct element' → RequiresNothing element')
    (halike : registry.Alike other) :
    Agree Alike
      (readType registry element >>= fun next => readType next element')
      (readType other element' >>= fun next => readType next element) := by
  by_cases hgives : ∃ entry, GivesStruct element entry
  · obtain ⟨entry, hgives⟩ := hgives
    exact hgives.swap_agree hother halike
  · -- The struct is refused wherever it stands.
    have hrefused : ∀ registry after, readType registry element ≠ .ok after :=
      fun registry after hrun =>
        hgives (exists_givesStruct hstruct hnothing hrun)
    rw [Agree.iff_ok]
    constructor
    · intro last hrun
      obtain ⟨ahead, hahead, -⟩ := bind_eq_ok_iff.1 hrun
      exact absurd hahead (hrefused registry ahead)
    · intro last hrun
      obtain ⟨behind, -, hrun⟩ := bind_eq_ok_iff.1 hrun
      exact absurd hrun (hrefused behind last)

/-- Two neighbours of which the first one is a struct change places. -/
inductive Swapped : List Element → List Element → Prop where
  | mk (front : List Element) (element other : Element) (back : List Element)
      (hstruct : DeclaresStruct element) (hnothing : RequiresNothing element)
      (hother : DeclaresStruct other → RequiresNothing other) :
      Swapped (front ++ element :: other :: back)
        (front ++ other :: element :: back)

theorem foldlM_readType_agree {elements others : List Element}
    (hsame : List.Forall₂ SameType elements others) {registry other : Registry}
    (halike : registry.Alike other) :
    Agree Alike (elements.foldlM readType registry)
      (others.foldlM readType other) := by
  apply Agree.foldlM _ hsame halike
  intro before before' hbefore element element' htype
  exact readType_agree hbefore htype

/-- The order of the structs among some types does not matter. -/
theorem foldlM_readType_reordered {elements others : List Element}
    (hreordered : Relation.EqvGen Swapped elements others)
    {registry other : Registry} (halike : registry.Alike other) :
    Agree Alike (elements.foldlM readType registry)
      (others.foldlM readType other) := by
  have hsame : ∀ elements : List Element,
      List.Forall₂ SameType elements elements :=
    fun elements => List.forall₂_same.2 fun element _ => .refl element
  induction hreordered generalizing registry other with
  | rel _ _ hswapped =>
      cases hswapped with
      | mk front element next back hstruct hnothing hother =>
          rw [List.foldlM_append, List.foldlM_append]
          refine (foldlM_readType_agree (hsame front) halike).bind ?_
          intro before before' hbefore
          simp only [List.foldlM_cons, ← bind_assoc]
          refine (readType_swap_agree hstruct hnothing hother hbefore).bind ?_
          intro after after' hafter
          exact foldlM_readType_agree (hsame back) hafter
  | refl elements => exact foldlM_readType_agree (hsame elements) halike
  | symm _ _ _ ih => exact (ih halike.symm).symm.mono fun _ _ => Alike.symm
  | trans _ _ _ _ _ ihfirst ihsecond =>
      have hself : registry.Alike registry := halike.trans halike.symm
      refine ((ihfirst hself).trans (ihsecond halike)).mono ?_
      rintro after after' ⟨between, hfirst, hsecond⟩
      exact hfirst.trans hsecond

end VideoRegistry
