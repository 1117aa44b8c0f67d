import VideoRegistry.Proofs.DeclarationOrder

/-!
# What a header declares

A header declares every struct once, and before its users where that is possible.
Every block of a header declares one name, that of its type without the lead.  The
blocks are those of the listed enums, once for every list that holds them, and
those of the structs, each of which is in one list.  So names are declared twice
for two reasons only: an enum is in two lists, or two listed types differ by the
lead alone.
-/

namespace VideoRegistry

namespace Registry

variable {read closed registry : Registry} {name : String}

def isEnum (registry : Registry) (name : String) : Bool :=
  registry.hasCategory name .enum

/-- The listed enums in the order in which the header has them, each as often as
it is listed. -/
def emittedEnums (registry : Registry) : List String :=
  (registry.extensions.flatMap Extension.types).filter registry.isEnum

/-- The types that a header declares, in its order. -/
def declarations (registry : Registry) : List String :=
  registry.emittedEnums ++ registry.emitted

theorem category_eq_enum_iff {entry : TypeEntry} :
    entry.category = .enum ↔ ∃ values, entry.values? = some values := by
  cases hdefinition : entry.definition with
  | _ => simp [TypeEntry.category, TypeEntry.values?, hdefinition,
      Definition.category]

theorem isEnum_iff_exists_values :
    registry.isEnum name ↔
      ∃ entry values, registry.find? name = some entry ∧
        entry.values? = some values := by
  simp only [isEnum, hasCategory, Option.any_eq_true, decide_eq_true_eq,
    category_eq_enum_iff, exists_and_left]

theorem isEnum_eq_false_of_isStruct (hstruct : registry.isStruct name) :
    registry.isEnum name = false := by
  unfold isStruct hasCategory at hstruct
  obtain ⟨entry, hfind, hcategory⟩ := Option.any_eq_true _ _ |>.1 hstruct
  rw [isEnum, hasCategory, hfind, Option.any_some, of_decide_eq_true hcategory]
  rfl

theorem mem_declarations_iff : name ∈ registry.declarations ↔
    (registry.isEnum name ∨ registry.isStruct name) ∧
      ∃ position, name ∈ registry.listOf position := by
  rw [declarations, List.mem_append, emittedEnums, mem_filter_types_iff,
    mem_emitted_iff, or_and_right]

/-- No listed enum is in two lists. -/
def EnumsListedOnce (registry : Registry) : Prop :=
  ∀ name, registry.isEnum name → ∀ position other,
    name ∈ registry.listOf position → name ∈ registry.listOf other →
      position = other

/-- No declared type has the name of another one without the lead. -/
def LeadsMatter (registry : Registry) (typeLead : String) : Prop :=
  ∀ name ∈ registry.declarations, Text.beginsWith name typeLead = false →
    typeLead ++ name ∉ registry.declarations

theorem Accepts.nodup_declarations_iff
    (haccepts : read.Accepts closed registry) :
    registry.declarations.Nodup ↔ registry.EnumsListedOnce := by
  rw [declarations, List.nodup_append', emittedEnums,
    nodup_filter_types_iff haccepts.listsDistinct]
  constructor
  · exact And.left
  · refine fun honce => ⟨honce, haccepts.nodup_emitted, ?_⟩
    intro name henum hstruct
    have henum := (List.mem_filter.1 henum).2
    rw [isEnum_eq_false_of_isStruct (mem_emitted_iff.1 hstruct).1] at henum
    cases henum

theorem leadsMatter_iff {typeLead : String} :
    registry.LeadsMatter typeLead ↔
      ∀ name ∈ registry.declarations, ∀ other ∈ registry.declarations,
        Text.stripLead name typeLead = Text.stripLead other typeLead →
          name = other := by
  constructor
  · intro hmatter name hname other hother hstrip
    rcases Text.stripLead_eq_stripLead_iff.1 hstrip with
      heq | ⟨hlead, rfl⟩ | ⟨hlead, rfl⟩
    · exact heq
    · exact absurd hother (hmatter name hname hlead)
    · exact absurd hname (hmatter other hother hlead)
  · intro hinjective name hname hlead hother
    have heq : name = typeLead ++ name :=
      hinjective name hname _ hother
        (Text.stripLead_eq_stripLead_iff.2 (Or.inr (Or.inl ⟨hlead, rfl⟩)))
    rw [heq, Text.beginsWith_iff.2 ⟨name, rfl⟩] at hlead
    cases hlead

end Registry

namespace Header

variable {config : Config} {registry : Registry}

/-- A block declares the header name of its type behind a keyword. -/
structure Declares (config : Config) (keyword : String) (block : Block) :
    Prop where
  name_eq : block.name = declaredName config block.source
  text_eq : ∃ body,
    block.text = "  " ++ keyword ++ " " ++ block.name ++ "\n  \x7b" ++ body

theorem enumBlock_spec {entry : TypeEntry} {values : List EnumValue}
    {block : Block} (hrun : enumBlock config entry values = .ok block) :
    block.source = entry.name ∧ Declares config "enum class" block := by
  obtain ⟨-, rfl⟩ := enumBlock_eq_ok_iff.1 hrun
  refine ⟨rfl, rfl,
    enumBody (values.map (enumeratorOf entry.name)) ++ "\x7d;\n", ?_⟩
  simp [enumText, String.join_cons, String.append_assoc]

theorem structBlock_declares {entry : TypeEntry} {members : List Member}
    {block : Block}
    (hrun : structBlock config registry entry members = .ok block) :
    Declares config "struct" block := by
  obtain ⟨lines, text, -, htext, rfl⟩ := exists_of_structBlock hrun
  rw [Template.fill_eq_ok_iff] at htext
  have hopening : ∀ rest : String, "\n  \x7b\n    using NativeType = " ++ rest =
      "\n  \x7b" ++ ("\n    using NativeType = " ++ rest) := by
    intro rest
    rw [← String.append_assoc]
    rfl
  refine ⟨rfl, ?_⟩
  rw [← htext.2]
  simp only [structFrame, Template.fillSegment, List.map_cons, String.join_cons,
    hopening, String.append_assoc]
  exact ⟨_, rfl⟩

theorem bearsSource_enumBlock? (config : Config) :
    BearsSource (enumBlock? config) := by
  intro entry block hblock
  obtain ⟨values, -, hrun⟩ := Option.map_eq_some_iff.1 hblock
  exact (enumBlock_spec hrun).1

/-- Exactly the enums give blocks of enums. -/
theorem isSome_enumBlockFor? (config : Config) (name : String) :
    (blockFor? registry (enumBlock? config) name).isSome =
      registry.isEnum name := by
  rw [Bool.eq_iff_iff, Registry.isEnum_iff_exists_values,
    Option.isSome_iff_exists]
  constructor
  · rintro ⟨result, hresult⟩
    obtain ⟨entry, hfind, hblock⟩ := Option.bind_eq_some_iff.1 hresult
    obtain ⟨values, hvalues, -⟩ := Option.map_eq_some_iff.1 hblock
    exact ⟨entry, values, hfind, hvalues⟩
  · rintro ⟨entry, values, hfind, hvalues⟩
    exact ⟨enumBlock config entry values,
      by simp [blockFor?, enumBlock?, hfind, hvalues]⟩

/-- The names that the blocks of a header declare, in its order. -/
def declaredNames (header : Header) : List String :=
  (blocksIn header.enums ++ blocksIn header.structs).map Block.name

/-- What the blocks of a header declare. -/
structure DeclaresAll (config : Config) (registry : Registry)
    (header : Header) : Prop where
  enums : ∀ block ∈ blocksIn header.enums, Declares config "enum class" block
  structs : ∀ block ∈ blocksIn header.structs, Declares config "struct" block
  names_eq : header.declaredNames =
    registry.declarations.map (declaredName config)

theorem ofRegistry_declaresAll {header : Header}
    (hrun : ofRegistry config registry = .ok header) :
    DeclaresAll config registry header := by
  obtain ⟨-, hstructSources, -⟩ := ofRegistry_structs hrun
  obtain ⟨enums, henums, hrun⟩ := bind_eq_ok_iff.1 hrun
  obtain ⟨structs, hstructs, hrun⟩ := bind_eq_ok_iff.1 hrun
  obtain rfl := pure_eq_ok_iff.1 hrun
  obtain ⟨-, henumSources, -⟩ :=
    sectionsOf_spec (bearsSource_enumBlock? config) henums
  simp only [isSome_enumBlockFor?] at henumSources
  have henumBlocks : ∀ block ∈ blocksIn enums,
      Declares config "enum class" block := by
    intro block hblock
    obtain ⟨name, entry, -, hentry⟩ :=
      exists_find?_of_mem_sectionsOf henums block hblock
    obtain ⟨values, -, hblockRun⟩ := Option.map_eq_some_iff.1 hentry
    exact (enumBlock_spec hblockRun).2
  have hstructBlocks : ∀ block ∈ blocksIn structs,
      Declares config "struct" block := by
    intro block hblock
    obtain ⟨name, entry, -, hentry⟩ :=
      exists_find?_of_mem_sectionsOf hstructs block hblock
    obtain ⟨members, -, hblockRun⟩ := Option.map_eq_some_iff.1 hentry
    exact structBlock_declares hblockRun
  refine ⟨henumBlocks, hstructBlocks, ?_⟩
  calc declaredNames ⟨enums, structs⟩
      = (blocksIn enums ++ blocksIn structs).map
          (declaredName config ∘ Block.source) := by
        apply List.map_congr_left
        intro block hblock
        rcases List.mem_append.1 hblock with hblock | hblock
        · exact (henumBlocks block hblock).name_eq
        · exact (hstructBlocks block hblock).name_eq
    _ = ((blocksIn enums).map Block.source ++
          (blocksIn structs).map Block.source).map (declaredName config) := by
        rw [← List.map_append, List.map_map]
    _ = registry.declarations.map (declaredName config) := by
        rw [henumSources, hstructSources]
        rfl

end Header

open Registry

/-- Every header that is generated declares each struct of its registry exactly
once, behind the keyword, and after the structs that it uses, unless these lead
back to it. -/
theorem generateFrom_declares_before_use {config : Config}
    {document : Xml.Document} {text : String}
    (hrun : generateFrom config document = .ok text) :
    ∃ registry header, Registry.ofDocument config document = .ok registry ∧
      Header.ofRegistry config registry = .ok header ∧
      header.render config registry.copyright = .ok text ∧
      Carries text ((blocksIn header.enums ++ blocksIn header.structs).map
        Block.text) ∧
      Header.DeclaresAll config registry header ∧
      header.structs.map HeaderSection.extension =
        registry.extensions.map Extension.name ∧
      (∀ entry ∈ registry.structs,
        ((blocksIn header.structs).map Block.source).count entry.1.name = 1 ∧
          ∃ block ∈ blocksIn header.structs, block.source = entry.1.name ∧
            Header.structBlock config registry entry.1 entry.2 = .ok block) ∧
      ∀ user used, registry.Uses user used → used ≠ user →
        ¬ registry.Reaches used user →
          Before used user ((blocksIn header.structs).map Block.source) := by
  obtain ⟨registry, hdocument, hemit⟩ := bind_eq_ok_iff.1 hrun
  obtain ⟨header, hheader, hrender⟩ := bind_eq_ok_iff.1 hemit
  rw [mapError_eq_ok_iff] at hrender
  obtain ⟨read, closed, -, -, haccepts⟩ := ofDocument_accepts hdocument
  obtain ⟨hnames, hsources, hblocks⟩ := Header.ofRegistry_structs hheader
  refine ⟨registry, header, hdocument, hheader, hrender,
    Header.carries_of_render hrender, Header.ofRegistry_declaresAll hheader,
    hnames, ?_, ?_⟩
  · rintro ⟨entry, members⟩ hentry
    have hmem := haccepts.mem_emitted hentry
    obtain ⟨hdeclared, hmembers⟩ := mem_structs_iff.1 hentry
    have hfind := find?_eq_some_of_mem haccepts.namesDistinct hdeclared
    rw [hsources]
    constructor
    · exact List.count_eq_one_of_mem haccepts.nodup_emitted hmem
    · exact hblocks entry members hfind hmembers hmem
  · intro user used huses hne hback
    rw [hsources]
    exact haccepts.before_emitted huses hne hback

theorem knot_declares_before_use :
    ∃ text header, generateFrom Plain.brief knotDocument = .ok text ∧
      Header.ofRegistry Plain.brief (knot ["A", "B"]) = .ok header ∧
        ((blocksIn header.structs).map Block.source).count "B" = 1 ∧
          (knot ["A", "B"]).Uses "C" "A" ∧ ¬ (knot ["A", "B"]).Reaches "A" "C" ∧
            Before "A" "C" ((blocksIn header.structs).map Block.source) := by
  have hemit : ((knot ["A", "B"]).emit Plain.brief).isOk = true := by
    decide
  obtain ⟨text, htext⟩ : ∃ text, (knot ["A", "B"]).emit Plain.brief = .ok text := by
    cases hresult : (knot ["A", "B"]).emit Plain.brief with
    | error failure => rw [hresult] at hemit; cases hemit
    | ok text => exact ⟨text, rfl⟩
  have hrun : generateFrom Plain.brief knotDocument = .ok text :=
    bind_eq_ok_iff.2 ⟨knot ["A", "B"], ofDocument_knot, htext⟩
  obtain ⟨registry, header, hdocument, hheader, -, -, -, -, honce, hbefore⟩ :=
    generateFrom_declares_before_use hrun
  obtain rfl : registry = knot ["A", "B"] :=
    Except.ok.inj (hdocument.symm.trans ofDocument_knot)
  have huses : (knot ["A", "B"]).Uses "C" "A" := by
    have hmem : "A" ∈ (knot ["A", "B"]).memberStructs "C" := by decide
    exact hmem
  have hback : ¬ (knot ["A", "B"]).Reaches "A" "C" := by
    have hholds : ∀ user ∈ ["A", "B"],
        ∀ used ∈ (knot ["A", "B"]).memberStructs user, used ∈ ["A", "B"] := by
      decide
    exact not_reaches_of_notMem hholds (by decide) (by decide)
  have hdeclared : (⟨"B", 1, .struct [Plain.member "A" "*" "a"]⟩,
      [Plain.member "A" "*" "a"]) ∈ (knot ["A", "B"]).structs := by decide
  exact ⟨text, header, hrun, hheader, (honce _ hdeclared).1, huses, hback,
    hbefore "C" "A" huses (by decide) hback⟩

/-- The names that a generated header declares are distinct exactly if no enum is
in two lists and no two listed types differ by the lead alone. -/
theorem generateFrom_declaredNames_nodup_iff {config : Config}
    {document : Xml.Document} {text : String}
    (hrun : generateFrom config document = .ok text) :
    ∃ registry header, Registry.ofDocument config document = .ok registry ∧
      Header.ofRegistry config registry = .ok header ∧
      header.render config registry.copyright = .ok text ∧
      Carries text ((blocksIn header.enums ++ blocksIn header.structs).map
        Block.text) ∧
      Header.DeclaresAll config registry header ∧
      (header.declaredNames.Nodup ↔ registry.EnumsListedOnce ∧
        registry.LeadsMatter config.names.typeLead) := by
  obtain ⟨registry, header, hdocument, hheader, hrender⟩ :=
    generateFrom_eq_ok_iff.1 hrun
  obtain ⟨read, closed, -, -, haccepts⟩ := ofDocument_accepts hdocument
  have hdeclares := Header.ofRegistry_declaresAll hheader
  refine ⟨registry, header, hdocument, hheader, hrender,
    Header.carries_of_render hrender, hdeclares, ?_⟩
  rw [hdeclares.names_eq, ← haccepts.nodup_declarations_iff, leadsMatter_iff]
  constructor
  · intro hnodup
    have hdistinct := hnodup.of_map
    exact ⟨hdistinct, (List.nodup_map_iff_inj_on hdistinct).1 hnodup⟩
  · rintro ⟨hdistinct, hinjective⟩
    exact (List.nodup_map_iff_inj_on hdistinct).2 hinjective

/-- A struct with one member of a type of the given kind; both are listed. -/
def holderDocument (kind : List (String × String)) (values : List Xml.Node) :
    Xml.Document :=
  Plain.documentOf
    [Plain.element "type" [("category", "include"), ("name", "ext.h")] [],
      Plain.element "type" (("name", "SKind") :: kind) [],
      Plain.structNode ("SHolder", [Plain.member "SKind" "" "kind"])]
    values [("va", ["SKind", "SHolder"])]

def enumHolderDocument : Xml.Document :=
  holderDocument [("category", "enum")]
    [Plain.element "enums" [("name", "SKind"), ("type", "enum")]
      [Plain.element "enum" [("name", "SKIND_FAST"), ("value", "0")] []]]

def holder (kind : Definition) : Registry where
  copyright := banner "Copyright"
  types := [⟨"ext.h", 1, .inclusion⟩, ⟨"SKind", 1, kind⟩,
    ⟨"SHolder", 1, .struct [Plain.member "SKind" "" "kind"]⟩]
  ownership := ⟨[("SKind", 0), ("SHolder", 0)]⟩
  extensions := [Plain.extension "va" none ["SKind", "SHolder"]]

def enumHolder : Registry :=
  holder (.enum [⟨"SKIND_FAST", "0", 1⟩])

theorem ofDocument_enumHolder :
    Registry.ofDocument Plain.brief enumHolderDocument = .ok enumHolder :=
  ofDocument_eq_ok_iff.2 ⟨_, _, _,
    readDocument_eq_ok_iff.2 ⟨by cbv, by decide⟩, by cbv, by cbv, by cbv⟩

theorem enumHolder_declaredNames_nodup :
    ∃ text header, generateFrom Plain.brief enumHolderDocument = .ok text ∧
      Header.ofRegistry Plain.brief enumHolder = .ok header ∧
      header.declaredNames = ["Kind", "Holder"] ∧
      (header.declaredNames.Nodup ↔ enumHolder.EnumsListedOnce ∧
        enumHolder.LeadsMatter "S") := by
  obtain ⟨text, -, hrun, -, -⟩ :=
    exists_generateFrom ofDocument_enumHolder (by decide)
  obtain ⟨registry, header, hregistry, hheader, -, -, hdeclares, hiff⟩ :=
    generateFrom_declaredNames_nodup_iff hrun
  obtain rfl : registry = enumHolder :=
    Except.ok.inj (hregistry.symm.trans ofDocument_enumHolder)
  refine ⟨text, header, hrun, hheader, ?_, hiff⟩
  rw [hdeclares.names_eq]
  decide

/-- One enum, listed by two extensions. -/
def modesDocument : Xml.Document :=
  Plain.documentOf
    [Plain.element "type" [("name", "int")] [],
      Plain.element "type" [("category", "enum"), ("name", "SMode")] []]
    [Plain.element "enums" [("name", "SMode"), ("type", "enum")]
      [Plain.element "enum" [("name", "SMODE_FAST"), ("value", "0")] []]]
    [("va", ["SMode"]), ("vb", ["SMode"])]

def modes : Registry where
  copyright := banner "Copyright"
  types := [⟨"int", 1, .unknown⟩,
    ⟨"SMode", 1, .enum [⟨"SMODE_FAST", "0", 1⟩]⟩]
  ownership := ⟨[("SMode", 0), ("SMode", 1)]⟩
  extensions := [Plain.extension "va" none ["SMode"],
    Plain.extension "vb" none ["SMode"]]

theorem ofDocument_modes :
    Registry.ofDocument Plain.brief modesDocument = .ok modes :=
  ofDocument_eq_ok_iff.2 ⟨_, _, _,
    readDocument_eq_ok_iff.2 ⟨by cbv, by decide⟩, by cbv, by cbv, by cbv⟩

/-- An enum that two extensions list is declared twice. -/
theorem modes_declares_twice :
    ∃ text header, generateFrom Plain.brief modesDocument = .ok text ∧
      Header.ofRegistry Plain.brief modes = .ok header ∧
      Carries text ((blocksIn header.enums ++ blocksIn header.structs).map
        Block.text) ∧
      header.declaredNames = ["Mode", "Mode"] := by
  obtain ⟨text, header, hrun, hheader, hrender⟩ :=
    exists_generateFrom ofDocument_modes (by decide)
  refine ⟨text, header, hrun, hheader, Header.carries_of_render hrender, ?_⟩
  rw [(Header.ofRegistry_declaresAll hheader).names_eq]
  decide

end VideoRegistry
