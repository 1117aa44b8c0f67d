import VideoRegistry.Proofs.Declarations

/-!
# The names that member types use

A member of a registry type spells the name of its type without the lead, behind
the namespace of the header.  The spelling asks for the lead of the name only, the
check for an extension that lists the type, and the blocks for its category.  So
without a warning such a name is declared if the type is an enum or a struct; of
the other kinds of types no block is made, and their names are declared only if
a declared type without the lead happens to have them.
-/

namespace VideoRegistry

open Registry

/-! ## The warnings of the check -/

namespace Registry

variable {registry checked : Registry} {typeLead : String}

/-- No check noticed a member whose registry type is in no list. -/
def AllRequired (registry : Registry) : Prop :=
  ∀ warning ∈ registry.warnings, ∀ type struct,
    warning.cause ≠ .neverRequired type struct

/-- Without a warning, a checked registry has an owner for every registry type of
a member. -/
theorem AllRequired.isNeverRequired_eq_false (hrequired : checked.AllRequired)
    (hrun : registry.check typeLead = .ok checked) :
    ∀ entry ∈ registry.structs, ∀ member ∈ entry.2,
      registry.isNeverRequired typeLead member.type.name = false := by
  intro entry hentry member hmember
  rw [← Bool.not_eq_true]
  intro hnever
  rw [check_eq_verdict, verdict_eq_ok_iff] at hrun
  obtain ⟨-, rfl⟩ := hrun
  have hnoticed : ⟨member.line, .neverRequired member.type.name entry.1.name⟩ ∈
      registry.neverRequiredIn typeLead entry.1.name entry.2 :=
    List.mem_map.2 ⟨member, List.mem_filter.2 ⟨hmember, hnever⟩, rfl⟩
  have hwarned : ⟨member.line, .neverRequired member.type.name entry.1.name⟩ ∈
      registry.neverRequired typeLead :=
    List.mem_flatMap.2 ⟨entry, hentry, hnoticed⟩
  exact hrequired _ (List.mem_append_right _ hwarned) _ _ rfl

/-- In an accepted registry without such a warning, the registry types of all
members are listed. -/
theorem AllRequired.exists_mem_listOf {config : Config}
    {document : Xml.Document} (hrequired : registry.AllRequired)
    (hrun : Registry.ofDocument config document = .ok registry) :
    ∀ entry ∈ registry.structs, ∀ member ∈ entry.2, ∀ rest,
      registryName? config.names.typeLead member.type.name = some rest →
        ∃ position, member.type.name ∈ registry.listOf position := by
  intro entry hentry member hmember rest hrest
  obtain ⟨-, -, ordered, -, -, -, hcheck⟩ := ofDocument_eq_ok_iff.1 hrun
  obtain ⟨read, closed, -, -, haccepts⟩ := ofDocument_accepts hrun
  obtain ⟨⟨warnings, rfl⟩, -⟩ := check_spec hcheck
  have hnever :=
    hrequired.isNeverRequired_eq_false hcheck entry hentry member hmember
  rw [isNeverRequired, hrest, Option.isSome_some, Bool.true_and,
    List.isEmpty_eq_false_iff] at hnever
  obtain ⟨owner, howner⟩ := List.exists_mem_of_ne_nil _ hnever
  rw [Ownership.mem_ownersOf_iff] at howner
  exact ⟨owner, (haccepts.inStep member.type.name owner).1 howner⟩

end Registry

/-! ## The types of members in the header -/

/-- The name of an emitted type in its namespace. -/
def qualifiedName (config : Config) (name : String) : String :=
  config.names.qualifiedNamespace ++ "::" ++ name

/-- The type of a member in the header has the qualified name of the member's
registry type in it. -/
def Qualifies (config : Config) (member : Member) (name : String) : Prop :=
  registryName? config.names.typeLead member.type.name = some name ∧
    ∃ front back, Header.memberType config member =
      .ok (front ++ qualifiedName config name ++ back)

/-- A member of a registry type that is no bitfield and no array has its type
qualified, whatever the kind of the type. -/
theorem qualifies_of_plain {config : Config} {member : Member} {name : String}
    (hname : registryName? config.names.typeLead member.type.name = some name)
    (hbits : member.bitCount = none) (hsizes : member.arraySizes = []) :
    Qualifies config member name := by
  let type := member.type
  refine ⟨hname, if type.before.isEmpty then "" else type.before ++ " ",
    if type.behind.isEmpty then "" else " " ++ type.behind, ?_⟩
  simp only [Header.memberType, hbits, hsizes, TypeSpelling.compose, hname]
  rfl

namespace Header

variable {config : Config} {registry : Registry}

/-- The text of a header carries the blocks of all structs. -/
theorem exists_structBlock {read closed : Registry} {header : Header}
    {text : String} (haccepts : read.Accepts closed registry)
    (hheader : ofRegistry config registry = .ok header)
    (hrender : header.render config registry.copyright = .ok text) :
    ∀ entry ∈ registry.structs, ∃ block ∈ blocksIn header.structs,
      structBlock config registry entry.1 entry.2 = .ok block ∧
        Carries text [block.text] := by
  rintro ⟨entry, members⟩ hentry
  obtain ⟨hdeclared, hmembers⟩ := mem_structs_iff.1 hentry
  have hfind := find?_eq_some_of_mem haccepts.namesDistinct hdeclared
  obtain ⟨-, -, hblocks⟩ := ofRegistry_structs hheader
  obtain ⟨block, hblock, -, hrun⟩ :=
    hblocks entry members hfind hmembers (haccepts.mem_emitted hentry)
  refine ⟨block, hblock, hrun, (carries_of_render hrender).of_mem ?_⟩
  exact List.mem_map.2 ⟨block, List.mem_append_right _ hblock, rfl⟩

/-- The text of a header carries the lines of the members of all structs. -/
theorem carries_memberLine {read closed : Registry} {header : Header}
    {text : String} (haccepts : read.Accepts closed registry)
    (hheader : ofRegistry config registry = .ok header)
    (hrender : header.render config registry.copyright = .ok text) :
    ∀ entry ∈ registry.structs, ∀ member ∈ entry.2,
      ∃ line, memberLine config registry member = .ok line ∧
        Carries text [line] := by
  intro entry hentry member hmember
  obtain ⟨block, -, hrun, htext⟩ :=
    exists_structBlock haccepts hheader hrender entry hentry
  obtain ⟨lines, hlines, hcarries⟩ := structBlock_carries hrun
  obtain ⟨line, hin, hline⟩ := exists_mem_of_mapM hlines member hmember
  exact ⟨line, hline, htext.trans (hcarries.of_mem (List.mem_cons_of_mem _ hin))⟩

/-- A header declares the name of a registry type exactly if it declares the type,
or a type without the lead that has the name. -/
theorem DeclaresAll.mem_declaredNames_iff {header : Header}
    {type name : String} (hdeclares : DeclaresAll config registry header)
    (hname : registryName? config.names.typeLead type = some name) :
    name ∈ header.declaredNames ↔ type ∈ registry.declarations ∨
      (Text.beginsWith name config.names.typeLead = false ∧
        name ∈ registry.declarations) := by
  obtain ⟨-, rfl⟩ := registryName?_eq_some_iff.1 hname
  rw [hdeclares.names_eq, List.mem_map]
  constructor
  · rintro ⟨declared, hdeclared, hstrip⟩
    cases hbegins : Text.beginsWith declared config.names.typeLead with
    | false =>
        rw [declaredName, Text.stripLead_of_beginsWith_eq_false hbegins] at hstrip
        exact Or.inr (hstrip ▸ ⟨hbegins, hdeclared⟩)
    | true =>
        obtain ⟨rest, rfl⟩ := Text.beginsWith_iff.1 hbegins
        rw [declaredName, Text.stripLead_append] at hstrip
        exact Or.inl (hstrip ▸ hdeclared)
  · rintro (hdeclared | ⟨hbegins, hdeclared⟩)
    · exact ⟨_, hdeclared, Text.stripLead_append _ name⟩
    · exact ⟨name, hdeclared, Text.stripLead_of_beginsWith_eq_false hbegins⟩

end Header

/-- If nothing was noticed about required types, a qualified name in the type of a
member is that of a block of the same header exactly if the member's type is an
enum or a struct, or another declared type has the name without the lead. -/
theorem generateFrom_qualified_mem_declaredNames_iff {config : Config}
    {document : Xml.Document} {text : String}
    (hrun : generateFrom config document = .ok text) :
    ∃ registry header, Registry.ofDocument config document = .ok registry ∧
      Header.ofRegistry config registry = .ok header ∧
      header.render config registry.copyright = .ok text ∧
      Carries text ((blocksIn header.enums ++ blocksIn header.structs).map
        Block.text) ∧
      Header.DeclaresAll config registry header ∧
      ∀ entry ∈ registry.structs, ∀ member ∈ entry.2,
        (∃ line, Header.memberLine config registry member = .ok line ∧
          Carries text [line]) ∧
        (registry.AllRequired → ∀ name, Qualifies config member name →
          (name ∈ header.declaredNames ↔
            registry.isEnum member.type.name ∨
              registry.isStruct member.type.name ∨
              (Text.beginsWith name config.names.typeLead = false ∧
                name ∈ registry.declarations))) := by
  obtain ⟨registry, header, hdocument, hheader, hrender⟩ :=
    generateFrom_eq_ok_iff.1 hrun
  obtain ⟨read, closed, -, -, haccepts⟩ := ofDocument_accepts hdocument
  have hdeclares := Header.ofRegistry_declaresAll hheader
  refine ⟨registry, header, hdocument, hheader, hrender,
    Header.carries_of_render hrender, hdeclares, ?_⟩
  intro entry hentry member hmember
  constructor
  · exact Header.carries_memberLine haccepts hheader hrender entry hentry member
      hmember
  · intro hrequired name hqualifies
    have hlisted := hrequired.exists_mem_listOf hdocument entry hentry member
      hmember name hqualifies.1
    rw [hdeclares.mem_declaredNames_iff hqualifies.1, mem_declarations_iff,
      and_iff_left hlisted, or_assoc]

def externalHolderDocument : Xml.Document :=
  holderDocument [("requires", "ext.h")] []

def externalHolder : Registry :=
  holder (.external "ext.h")

theorem ofDocument_externalHolder :
    Registry.ofDocument Plain.brief externalHolderDocument =
      .ok externalHolder :=
  ofDocument_eq_ok_iff.2 ⟨_, _, _,
    readDocument_eq_ok_iff.2 ⟨by cbv, by decide⟩, by cbv, by cbv, by cbv⟩

theorem qualifies_kind :
    Qualifies Plain.brief (Plain.member "SKind" "" "kind") "Kind" :=
  qualifies_of_plain (registryName?_eq_some_iff.2 ⟨by decide, by decide⟩) rfl rfl

theorem enumHolder_qualified_mem_declaredNames :
    ∃ text header, generateFrom Plain.brief enumHolderDocument = .ok text ∧
      Header.ofRegistry Plain.brief enumHolder = .ok header ∧
      enumHolder.AllRequired ∧
      Qualifies Plain.brief (Plain.member "SKind" "" "kind") "Kind" ∧
      "Kind" ∈ header.declaredNames := by
  obtain ⟨text, -, hrun, -, -⟩ :=
    exists_generateFrom ofDocument_enumHolder (by decide)
  obtain ⟨registry, header, hdocument, hheader, -, -, -, hmembers⟩ :=
    generateFrom_qualified_mem_declaredNames_iff hrun
  obtain rfl : registry = enumHolder :=
    Except.ok.inj (hdocument.symm.trans ofDocument_enumHolder)
  have hrequired : enumHolder.AllRequired := by
    intro warning hwarning
    cases hwarning
  have hmember := hmembers (⟨"SHolder", 1, _⟩, _) (List.mem_singleton.2 rfl)
    (Plain.member "SKind" "" "kind") (List.mem_singleton.2 rfl)
  have henum : enumHolder.isEnum "SKind" := by decide
  exact ⟨text, header, hrun, hheader, hrequired, qualifies_kind,
    (hmember.2 hrequired "Kind" qualifies_kind).2 (Or.inl henum)⟩

/-- A member of an external type that begins with the lead, is listed and gives no
warning has a qualified name that no block declares. -/
theorem externalHolder_qualified_notMem_declaredNames :
    ∃ text header, generateFrom Plain.brief externalHolderDocument = .ok text ∧
      Header.ofRegistry Plain.brief externalHolder = .ok header ∧
      externalHolder.AllRequired ∧
      Qualifies Plain.brief (Plain.member "SKind" "" "kind") "Kind" ∧
      Carries text ["    VULKAN_HPP_NAMESPACE::VULKAN_HPP_VIDEO_NAMESPACE::Kind" ++
        " kind = {};
"] ∧
      header.declaredNames = ["Holder"] := by
  obtain ⟨text, header, hrun, hheader, hrender⟩ :=
    exists_generateFrom ofDocument_externalHolder (by decide)
  obtain ⟨read, closed, -, -, haccepts⟩ :=
    ofDocument_accepts ofDocument_externalHolder
  obtain ⟨line, hline, hcarries⟩ := Header.carries_memberLine haccepts hheader
    hrender (⟨"SHolder", 1, _⟩, _) (List.mem_singleton.2 rfl)
    (Plain.member "SKind" "" "kind") (List.mem_singleton.2 rfl)
  have hrequired : externalHolder.AllRequired := by
    intro warning hwarning
    cases hwarning
  have hwritten : Header.memberLine Plain.brief externalHolder
      (Plain.member "SKind" "" "kind") =
        .ok ("    VULKAN_HPP_NAMESPACE::VULKAN_HPP_VIDEO_NAMESPACE::Kind" ++
          " kind = {};
") := by
    decide
  obtain rfl := Except.ok.inj (hwritten.symm.trans hline)
  refine ⟨text, header, hrun, hheader, hrequired, qualifies_kind, hcarries, ?_⟩
  rw [(Header.ofRegistry_declaresAll hheader).names_eq]
  decide

end VideoRegistry
