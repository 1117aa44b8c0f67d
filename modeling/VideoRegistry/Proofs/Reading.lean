import Mathlib.Data.List.Nodup
import VideoRegistry.Proofs.Lists
import VideoRegistry.Proofs.Outcome
import VideoRegistry.Proofs.Ownership
import VideoRegistry.Registry.Reader

/-!
# What reading a document does to a registry

Reading a document is a run of a few kinds of changes, each of which is checked
before it is made.  Properties of the registries that are read follow by
induction over such runs.
-/

namespace VideoRegistry

/-- What is checked of the members of a struct. -/
structure MembersSound (members : List Member) : Prop where
  nonempty : members ≠ []
  distinct : (members.map Member.name).Nodup
  named : ∀ member ∈ members, member.name ≠ ""
  arrayOrBits : ∀ member ∈ members,
    member.arraySizes = [] ∨ member.bitCount = none

/-- What is checked of the values of an enum. -/
structure ValuesSound (enum : String) (values : List EnumValue) : Prop where
  distinct : (values.map EnumValue.name).Nodup
  lead : ∀ value ∈ values, Text.beginsWith value.name (Naming.valueLead enum)
  literal : ∀ value ∈ values, Literal.isNumber value.value

namespace Registry

/-- What is checked of a declaration. -/
def Admits (registry : Registry) : Definition → Prop
  | .define requires =>
      ∀ required, requires = some required → registry.hasCategory required .define
  | .enum values => values = []
  | .struct members => MembersSound members
  | .external required => registry.hasCategory required .inclusion
  | _ => True

/-- What is checked of an extension, apart from its name. -/
structure AdmitsLists (registry : Registry) (extension : Extension) : Prop where
  distinct : extension.types.Nodup
  declared : ∀ name ∈ extension.types, registry.declares name
  earlier : ∀ provider, extension.depends = some provider →
    provider < registry.extensions.length
  literal : ∀ entry ∈ extension.constants.entries,
    Literal.isNumber entry.2.value

/-- The ownership once the next extension owns the given types. -/
def claimAll (registry : Registry) (names : List String) : Ownership :=
  names.foldl (fun ownership name =>
    ownership.add name registry.extensions.length) registry.ownership

/-- Adds an extension, which owns the types in its list. -/
def extend (registry : Registry) (extension : Extension) : Registry :=
  { registry with
    ownership := registry.claimAll extension.types
    extensions := registry.extensions ++ [extension] }

/-- The changes that reading a document makes. -/
inductive ReadStep : Registry → Registry → Prop where
  | warn (registry : Registry) (warnings : List Warning) :
      ReadStep registry (registry.warn warnings)
  | copyright (registry : Registry) (comment : String)
      (hlicence : isLicence comment) :
      ReadStep registry { registry with copyright := banner comment }
  | declare (registry : Registry) (entry : TypeEntry)
      (hnew : registry.declares entry.name = false)
      (hadmits : registry.Admits entry.definition) :
      ReadStep registry { registry with types := registry.types ++ [entry] }
  | fill (registry : Registry) (name : String) (values : List EnumValue)
      (hempty : (registry.find? name).bind TypeEntry.values? = some [])
      (hvalues : ValuesSound name values) :
      ReadStep registry (registry.fillEnum name values)
  | extend (registry : Registry) (extension : Extension)
      (hnew : registry.extensionPosition? extension.name = none)
      (hadmits : registry.AdmitsLists extension) :
      ReadStep registry (registry.extend extension)

/-- A run of changes. -/
abbrev Reading : Registry → Registry → Prop :=
  Relation.ReflTransGen ReadStep

variable {registry after : Registry}

theorem declare_readStep {name : String} {line : Nat} {definition : Definition}
    {kind : Declared} (hadmits : registry.Admits definition)
    (hrun : registry.declare name line definition kind = .ok after) :
    ReadStep registry after := by
  unfold declare declare? at hrun
  split at hrun
  · next hdeclare =>
      obtain rfl := Except.ok.inj hrun
      split at hdeclare
      · cases hdeclare
      · next hnew =>
          obtain rfl := Option.some.inj hdeclare
          exact .declare registry ⟨name, line, definition⟩
            (Bool.eq_false_iff.2 hnew) hadmits
  · cases hrun

/-- A declaration that follows the warnings about its element. -/
theorem warn_declare_reading {name : String} {line : Nat}
    {definition : Definition} {kind : Declared} {warnings : List Warning}
    (hadmits : registry.Admits definition)
    (hrun : (registry.warn warnings).declare name line definition kind =
      .ok after) :
    Reading registry after := by
  have hadmits' : (registry.warn warnings).Admits definition := hadmits
  exact .tail (.single (.warn registry warnings)) (declare_readStep hadmits' hrun)

end Registry

open Registry

variable {registry after : Registry} {element : Xml.Element}

theorem readDefine_reading (hrun : readDefine registry element = .ok after) :
    Reading registry after := by
  obtain ⟨⟨attributes, warnings⟩, -, hrun⟩ := bind_eq_ok_iff.1 hrun
  obtain ⟨_, hrequires, hrun⟩ := bind_eq_ok_iff.1 hrun
  obtain ⟨_, -, hrun⟩ := bind_eq_ok_iff.1 hrun
  rw [require_eq_ok_iff] at hrequires
  apply warn_declare_reading ?_ hrun
  simpa [Admits, Option.all_eq_true] using hrequires

theorem readEnumType_reading (hrun : readEnumType registry element = .ok after) :
    Reading registry after := by
  obtain ⟨⟨attributes, warnings⟩, -, hrun⟩ := bind_eq_ok_iff.1 hrun
  apply warn_declare_reading ?_ hrun
  rfl

theorem readInclusion_reading (hrun : readInclusion registry element = .ok after) :
    Reading registry after := by
  obtain ⟨⟨attributes, warnings⟩, -, hrun⟩ := bind_eq_ok_iff.1 hrun
  apply warn_declare_reading ?_ hrun
  trivial

theorem readExternal_reading (hrun : readExternal registry element = .ok after) :
    Reading registry after := by
  obtain ⟨⟨attributes, warnings⟩, -, hrun⟩ := bind_eq_ok_iff.1 hrun
  obtain ⟨_, hrequired, hrun⟩ := bind_eq_ok_iff.1 hrun
  rw [require_eq_ok_iff] at hrequired
  apply warn_declare_reading ?_ hrun
  exact hrequired

theorem readMember_sound {earlier : List Member} {member : Member}
    {warnings : List Warning}
    (hrun : readMember earlier element = .ok (member, warnings)) :
    member.name ≠ "" ∧
      (member.arraySizes = [] ∨ member.bitCount = none) ∧
        ∀ other ∈ earlier, other.name ≠ member.name := by
  obtain ⟨⟨attributes, noticed⟩, -, hrun⟩ := bind_eq_ok_iff.1 hrun
  obtain ⟨⟨read, all⟩, -, hrun⟩ := bind_eq_ok_iff.1 hrun
  obtain ⟨_, hnamed, hrun⟩ := bind_eq_ok_iff.1 hrun
  obtain ⟨_, harray, hrun⟩ := bind_eq_ok_iff.1 hrun
  obtain ⟨_, hnew, hrun⟩ := bind_eq_ok_iff.1 hrun
  obtain ⟨rfl, -⟩ := Prod.mk.inj (pure_eq_ok_iff.1 hrun)
  rw [require_eq_ok_iff] at hnamed harray hnew
  refine ⟨by simpa using hnamed, by simpa using harray, by simpa using hnew⟩

theorem readMembers_sound {members all : List Member}
    {warnings noticed : List Warning} {elements : List Xml.Element}
    (hdistinct : (members.map Member.name).Nodup)
    (hnamed : ∀ member ∈ members, member.name ≠ "")
    (hkind : ∀ member ∈ members, member.arraySizes = [] ∨ member.bitCount = none)
    (hsome : members ≠ [] ∨ elements ≠ [])
    (hrun : readMembers members warnings elements = .ok (all, noticed)) :
    MembersSound all := by
  induction elements generalizing members warnings with
  | nil =>
      rw [readMembers] at hrun
      obtain ⟨rfl, -⟩ := Prod.mk.inj (Except.ok.inj hrun)
      exact ⟨by simpa using hsome, hdistinct, hnamed, hkind⟩
  | cons element rest ih =>
      rw [readMembers] at hrun
      obtain ⟨⟨member, found⟩, hmember, hrun⟩ := bind_eq_ok_iff.1 hrun
      obtain ⟨hname, harray, hnew⟩ := readMember_sound hmember
      refine ih ?_ ?_ ?_ ?_ hrun
      · rw [List.map_append, List.nodup_append']
        refine ⟨hdistinct, List.nodup_singleton _, fun name hmem hname => ?_⟩
        obtain ⟨other, hother, rfl⟩ := List.mem_map.1 hmem
        exact hnew other hother (by simpa using hname)
      · exact List.forall_mem_append.2
          ⟨hnamed, List.forall_mem_singleton.2 hname⟩
      · exact List.forall_mem_append.2
          ⟨hkind, List.forall_mem_singleton.2 harray⟩
      · exact Or.inl (by simp)

/-- An element that passed its rule has a child of every required tag, and only one
where the rule asks for one. -/
theorem count_of_check {rule : ElementRule} {attributes : Attributes}
    {warnings : List Warning} {child : ChildRule}
    (hchild : child ∈ rule.children)
    (hcheck : rule.check element = .ok (attributes, warnings)) :
    0 < element.elements.countP (fun other => other.tag = child.tag) ∧
      (child.once → element.elements.countP
        (fun other => other.tag = child.tag) = 1) := by
  obtain ⟨_, -, hcheck⟩ := bind_eq_ok_iff.1 hcheck
  obtain ⟨_, -, hcheck⟩ := bind_eq_ok_iff.1 hcheck
  obtain ⟨_, hcounts, -⟩ := bind_eq_ok_iff.1 hcheck
  clear hcheck
  generalize rule.children = rules at hchild hcounts
  induction rules with
  | nil => cases hchild
  | cons first rules ih =>
      rw [checkCounts] at hcounts
      obtain ⟨_, hpositive, hcounts⟩ := bind_eq_ok_iff.1 hcounts
      obtain ⟨_, honce, hcounts⟩ := bind_eq_ok_iff.1 hcounts
      rcases List.mem_cons.1 hchild with rfl | hchild
      · rw [require_eq_ok_iff] at hpositive honce
        refine ⟨of_decide_eq_true hpositive, fun hasked => ?_⟩
        simpa [hasked] using honce
      · exact ih hchild hcounts

theorem named_ne_nil_of_check {rule : ElementRule} {attributes : Attributes}
    {warnings : List Warning} {child : ChildRule}
    (hchild : child ∈ rule.children)
    (hcheck : rule.check element = .ok (attributes, warnings)) :
    element.named child.tag ≠ [] := by
  obtain ⟨found, hfound, htag⟩ :=
    List.countP_pos_iff.1 (count_of_check hchild hcheck).1
  exact List.ne_nil_of_mem (List.mem_filter.2 ⟨hfound, htag⟩)

theorem readStruct_reading (hrun : readStruct registry element = .ok after) :
    Reading registry after := by
  obtain ⟨⟨attributes, warnings⟩, hcheck, hrun⟩ := bind_eq_ok_iff.1 hrun
  obtain ⟨_, -, hrun⟩ := bind_eq_ok_iff.1 hrun
  obtain ⟨_, -, hrun⟩ := bind_eq_ok_iff.1 hrun
  obtain ⟨⟨members, noticed⟩, hmembers, hrun⟩ := bind_eq_ok_iff.1 hrun
  have hchild : (⟨"member", false⟩ : ChildRule) ∈ structRule.children := by
    simp [structRule]
  have hsound : MembersSound members := by
    refine readMembers_sound (by simp) (by simp) (by simp) (Or.inr ?_) hmembers
    exact named_ne_nil_of_check hchild hcheck
  apply warn_declare_reading ?_ hrun
  exact hsound

theorem readType_reading (hrun : readType registry element = .ok after) :
    Reading registry after := by
  obtain ⟨attributes, -, hrun⟩ := bind_eq_ok_iff.1 hrun
  split at hrun
  · exact readDefine_reading hrun
  · exact readEnumType_reading hrun
  · exact readInclusion_reading hrun
  · exact readStruct_reading hrun
  · cases hrun
  · split at hrun
    · exact readExternal_reading hrun
    · obtain ⟨_, -, hrun⟩ := bind_eq_ok_iff.1 hrun
      exact .single (declare_readStep (by trivial) hrun)

theorem readTypes_reading (hrun : readTypes registry element = .ok after) :
    Reading registry after := by
  obtain ⟨⟨attributes, warnings⟩, -, hrun⟩ := bind_eq_ok_iff.1 hrun
  exact foldlM_keeps (fun _ _ _ hbefore hstep =>
      hbefore.trans (readType_reading hstep))
    (.single (.warn registry warnings)) hrun

/-! ## Values of enums -/

theorem readValue_sound {enum : String} {earlier : List EnumValue}
    {value : EnumValue} {warnings : List Warning}
    (hrun : readValue enum earlier element = .ok (value, warnings)) :
    Text.beginsWith value.name (Naming.valueLead enum) ∧
      Literal.isNumber value.value ∧
        ∀ other ∈ earlier, other.name ≠ value.name := by
  obtain ⟨⟨attributes, noticed⟩, -, hrun⟩ := bind_eq_ok_iff.1 hrun
  obtain ⟨_, hlead, hrun⟩ := bind_eq_ok_iff.1 hrun
  obtain ⟨_, hliteral, hrun⟩ := bind_eq_ok_iff.1 hrun
  obtain ⟨_, hnew, hrun⟩ := bind_eq_ok_iff.1 hrun
  obtain ⟨rfl, -⟩ := Prod.mk.inj (pure_eq_ok_iff.1 hrun)
  rw [require_eq_ok_iff] at hlead hliteral hnew
  exact ⟨hlead, hliteral, by simpa using hnew⟩

theorem readValues_sound {enum : String} {values all : List EnumValue}
    {warnings noticed : List Warning} {elements : List Xml.Element}
    (hvalues : ValuesSound enum values)
    (hrun : readValues enum values warnings elements = .ok (all, noticed)) :
    ValuesSound enum all := by
  induction elements generalizing values warnings with
  | nil =>
      rw [readValues] at hrun
      obtain ⟨rfl, -⟩ := Prod.mk.inj (Except.ok.inj hrun)
      exact hvalues
  | cons element rest ih =>
      rw [readValues] at hrun
      obtain ⟨⟨value, found⟩, hvalue, hrun⟩ := bind_eq_ok_iff.1 hrun
      obtain ⟨hlead, hliteral, hnew⟩ := readValue_sound hvalue
      refine ih ⟨?_, ?_, ?_⟩ hrun
      · rw [List.map_append, List.nodup_append']
        refine ⟨hvalues.distinct, List.nodup_singleton _, fun name hmem hname => ?_⟩
        obtain ⟨other, hother, rfl⟩ := List.mem_map.1 hmem
        exact hnew other hother (by simpa using hname)
      · exact List.forall_mem_append.2
          ⟨hvalues.lead, List.forall_mem_singleton.2 hlead⟩
      · exact List.forall_mem_append.2
          ⟨hvalues.literal, List.forall_mem_singleton.2 hliteral⟩

theorem readEnums_reading (hrun : readEnums registry element = .ok after) :
    Reading registry after := by
  obtain ⟨⟨attributes, warnings⟩, -, hrun⟩ := bind_eq_ok_iff.1 hrun
  simp only at hrun
  split at hrun
  · cases hrun
  · next filled hfind =>
      obtain ⟨_, hfilled, hrun⟩ := bind_eq_ok_iff.1 hrun
      obtain ⟨⟨values, noticed⟩, hvalues, hrun⟩ := bind_eq_ok_iff.1 hrun
      obtain rfl := pure_eq_ok_iff.1 hrun
      rw [require_eq_ok_iff, List.isEmpty_iff] at hfilled
      have hsound : ValuesSound (attributes.valueOf "name") values := by
        refine readValues_sound ⟨?_, ?_, ?_⟩ hvalues <;> simp
      refine .tail (.single (.warn registry noticed)) (.fill _ _ values ?_ hsound)
      rw [← hfilled]
      exact hfind

/-! ## Extensions -/

/-- The state while an extension is read: what the registry was before it, with
new warnings, and the extension so far with the types it claimed. -/
structure Pending (registry : Registry) (name : String)
    (state : Registry × Extension) : Prop where
  grown : ∃ warnings, state.1 = { registry.warn warnings with
    ownership := registry.claimAll state.2.types }
  admits : registry.AdmitsLists state.2
  name_eq : state.2.name = name

theorem Pending.warn {name : String} {state : Registry × Extension}
    (hpending : Pending registry name state) (warnings : List Warning) :
    Pending registry name (state.1.warn warnings, state.2) where
  grown := by
    obtain ⟨earlier, hgrown⟩ := hpending.grown
    exact ⟨earlier ++ warnings, by simp [hgrown, Registry.warn]⟩
  admits := hpending.admits
  name_eq := hpending.name_eq

theorem mem_insertEntry {α : Type} {name : String} {value : α}
    {entries : List (String × α)} {entry : String × α}
    (hentry : entry ∈ NameMap.insertEntry name value entries) :
    entry = (name, value) ∨ entry ∈ entries := by
  induction entries with
  | nil => simpa [NameMap.insertEntry] using hentry
  | cons first rest ih =>
      unfold NameMap.insertEntry at hentry
      split at hentry
      · simp only [List.mem_cons] at hentry ⊢
        tauto
      split at hentry
      · simpa using hentry
      · rcases List.mem_cons.1 hentry with rfl | hentry
        · simp
        · exact (ih hentry).imp_right (List.mem_cons_of_mem first)

theorem readConstant_pending {name : String} {state : Registry × Extension}
    {after : Registry × Extension} (hpending : Pending registry name state)
    (hrun : readConstant state.1 state.2 element = .ok after) :
    Pending registry name after := by
  obtain ⟨attributes, -, hrun⟩ := bind_eq_ok_iff.1 hrun
  obtain ⟨warnings, -, hrun⟩ := bind_eq_ok_iff.1 hrun
  have hwarned := hpending.warn (unknownElements element.elements [] [] ++ warnings)
  simp only at hrun
  split at hrun
  · obtain rfl := pure_eq_ok_iff.1 hrun
    exact hwarned
  · obtain ⟨_, hliteral, hrun⟩ := bind_eq_ok_iff.1 hrun
    obtain ⟨_, -, hrun⟩ := bind_eq_ok_iff.1 hrun
    obtain rfl := pure_eq_ok_iff.1 hrun
    rw [require_eq_ok_iff] at hliteral
    refine ⟨hwarned.grown, ⟨hwarned.admits.distinct, hwarned.admits.declared,
      hwarned.admits.earlier, fun entry hentry => ?_⟩, hwarned.name_eq⟩
    rcases mem_insertEntry hentry with rfl | hentry
    · exact hliteral
    · exact hwarned.admits.literal entry hentry

theorem readRequiredType_pending {config : Config} {name : String}
    {state after : Registry × Extension} (hpending : Pending registry name state)
    (hrun : readRequiredType config state.1 state.2 element = .ok after) :
    Pending registry name after := by
  obtain ⟨⟨attributes, warnings⟩, -, hrun⟩ := bind_eq_ok_iff.1 hrun
  simp only at hrun
  have hwarned := hpending.warn warnings
  obtain ⟨found, hgrown⟩ := hwarned.grown
  simp only at hgrown
  split at hrun
  · obtain ⟨_, -, hrun⟩ := bind_eq_ok_iff.1 hrun
    split at hrun
    · cases hrun
    · next position hposition =>
        obtain rfl := pure_eq_ok_iff.1 hrun
        refine ⟨hwarned.grown, ⟨hwarned.admits.distinct,
          hwarned.admits.declared, ?_, hwarned.admits.literal⟩, hwarned.name_eq⟩
        rintro provider hprovider
        obtain rfl := Option.some.inj hprovider
        have hfound := (List.findIdx?_eq_some_iff_findIdx_eq.1 hposition).1
        rw [hgrown] at hfound
        exact hfound
  · obtain ⟨_, hdeclared, hrun⟩ := bind_eq_ok_iff.1 hrun
    obtain ⟨_, hnew, hrun⟩ := bind_eq_ok_iff.1 hrun
    obtain rfl := pure_eq_ok_iff.1 hrun
    rw [require_eq_ok_iff] at hdeclared hnew
    rw [hgrown] at hdeclared
    refine ⟨⟨found, ?_⟩, ⟨?_, ?_, hwarned.admits.earlier,
      hwarned.admits.literal⟩, hwarned.name_eq⟩
    · rw [hgrown]
      simp [claimAll, Registry.warn]
    · refine List.nodup_append_comm.1 (List.nodup_cons.2 ⟨?_, hwarned.admits.distinct⟩)
      simpa using hnew
    · exact List.forall_mem_append.2
        ⟨hwarned.admits.declared, List.forall_mem_singleton.2 hdeclared⟩

theorem readRequire_pending {config : Config} {name : String}
    {state after : Registry × Extension} (hpending : Pending registry name state)
    (hrun : readRequire config state element = .ok after) :
    Pending registry name after := by
  obtain ⟨⟨attributes, warnings⟩, -, hrun⟩ := bind_eq_ok_iff.1 hrun
  have hstart : Pending registry name (state.1.warn warnings,
      { state.2 with requireLine := element.line }) := by
    have hwarned := hpending.warn warnings
    exact ⟨hwarned.grown, ⟨hwarned.admits.distinct, hwarned.admits.declared,
      hwarned.admits.earlier, hwarned.admits.literal⟩, hwarned.name_eq⟩
  apply foldlM_keeps ?_ hstart hrun
  intro before item next hbefore hstep
  unfold readRequirement at hstep
  split at hstep
  · exact readConstant_pending hbefore hstep
  split at hstep
  · exact readRequiredType_pending hbefore hstep
  · obtain rfl := Except.ok.inj hstep
    exact hbefore

theorem readExtension_reading {config : Config}
    (hrun : readExtension config registry element = .ok after) :
    Reading registry after := by
  obtain ⟨⟨attributes, warnings⟩, -, hrun⟩ := bind_eq_ok_iff.1 hrun
  obtain ⟨_, hnew, hrun⟩ := bind_eq_ok_iff.1 hrun
  obtain ⟨_, -, hrun⟩ := bind_eq_ok_iff.1 hrun
  obtain ⟨⟨read, extension⟩, hrequire, hrun⟩ := bind_eq_ok_iff.1 hrun
  obtain rfl := pure_eq_ok_iff.1 hrun
  rw [require_eq_ok_iff, Option.isNone_iff_eq_none] at hnew
  have hstart : Pending registry (attributes.valueOf "name")
      (registry.warn warnings,
        { name := attributes.valueOf "name", line := element.line }) := by
    refine ⟨⟨warnings, rfl⟩, ⟨List.nodup_nil, by simp, by simp, ?_⟩, rfl⟩
    simp [NameMap.empty]
  have hpending := foldlM_keeps
    (fun _ _ _ hbefore hstep => readRequire_pending hbefore hstep) hstart hrequire
  obtain ⟨found, hgrown⟩ := hpending.grown
  simp only at hgrown
  have hextend : { read with extensions := read.extensions ++ [extension] } =
      (registry.warn found).extend extension := by
    rw [hgrown]
    rfl
  rw [hextend]
  refine .tail (.single (.warn registry found)) (.extend _ extension ?_ ?_)
  · rw [hpending.name_eq]
    exact hnew
  · exact ⟨hpending.admits.distinct, hpending.admits.declared,
      hpending.admits.earlier, hpending.admits.literal⟩

theorem readExtensions_reading {config : Config}
    (hrun : readExtensions config registry element = .ok after) :
    Reading registry after := by
  obtain ⟨⟨attributes, warnings⟩, -, hrun⟩ := bind_eq_ok_iff.1 hrun
  exact foldlM_keeps (fun _ _ _ hbefore hstep =>
      hbefore.trans (readExtension_reading hstep))
    (.single (.warn registry warnings)) hrun

/-! ## The document -/

theorem readSection_reading {config : Config}
    (hrun : readSection config registry element = .ok after) :
    Reading registry after := by
  unfold readSection at hrun
  split at hrun
  · obtain ⟨⟨comment, warnings⟩, -, hrun⟩ := bind_eq_ok_iff.1 hrun
    have hwarned : Reading registry (registry.warn warnings) :=
      .single (.warn registry warnings)
    simp only at hrun
    split at hrun
    · next hlicence =>
        obtain rfl := pure_eq_ok_iff.1 hrun
        exact hwarned.tail (.copyright _ comment hlicence)
    · obtain rfl := pure_eq_ok_iff.1 hrun
      exact hwarned
  · exact readEnums_reading hrun
  · exact readExtensions_reading hrun
  · exact readTypes_reading hrun
  · obtain rfl := Except.ok.inj hrun
    exact .refl

theorem readDocument_eq_ok_iff {config : Config} {document : Xml.Document} :
    readDocument config document = .ok registry ↔
      readSections config document = .ok registry ∧
        registry.copyright.isEmpty = false := by
  unfold readDocument
  constructor
  · intro hrun
    obtain ⟨read, hsections, hrun⟩ := bind_eq_ok_iff.1 hrun
    rw [orFail_eq_ok_iff] at hsections
    split at hrun
    · cases hrun
    · next hcopyright =>
        obtain rfl := Except.ok.inj hrun
        exact ⟨hsections, Bool.eq_false_iff.2 hcopyright⟩
  · rintro ⟨hsections, hcopyright⟩
    exact bind_eq_ok_iff.2 ⟨registry, orFail_eq_ok_iff.2 hsections,
      by rw [hcopyright]; rfl⟩

/-- A registry that is read comes from the empty one by checked changes. -/
theorem readDocument_reading {config : Config} {document : Xml.Document}
    (hrun : readDocument config document = .ok registry) :
    Reading {} registry := by
  obtain ⟨hsections, -⟩ := readDocument_eq_ok_iff.1 hrun
  obtain ⟨_, -, hsections⟩ := bind_eq_ok_iff.1 hsections
  split at hsections
  · cases hsections
  obtain ⟨⟨attributes, warnings⟩, -, hsections⟩ := bind_eq_ok_iff.1 hsections
  exact foldlM_keeps (fun _ _ _ hbefore hstep =>
      hbefore.trans (readSection_reading hstep))
    (.single (.warn {} _)) hsections

end VideoRegistry
