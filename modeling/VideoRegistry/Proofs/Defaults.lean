import VideoRegistry.Proofs.EnumBlocks
import VideoRegistry.Proofs.QualifiedNames

/-!
# The defaults of members

A member of an enum starts with the enumerator that the block of the enum has first.
The default is written behind the text of the member's type and not behind the name of
the enum.  So it is the name of an enumerator exactly if nothing stands in front of the
type: a `const` there is copied into the default.
-/

namespace VideoRegistry

open Registry

/-- The name that the header uses for a type: registry types lose their lead and are
qualified, others keep their name. -/
def usedName (config : Config) (type : String) : String :=
  match registryName? config.names.typeLead type with
  | some name => qualifiedName config name
  | none => type

/-- What the header has in front of the name of a member's type. -/
def frontText (type : TypeSpelling) : String :=
  if type.before = "" then "" else type.before ++ " "

/-- The name of the enumerator that a member of an enum is to start with. -/
def firstEnumerator (config : Config) (enum : String) (first : EnumValue) : String :=
  usedName config enum ++ "::" ++ Naming.enumerator enum first.name

/-- A member that is one value of an enum: no bitfield, no array, nothing behind its
type. -/
structure EnumScalar (registry : Registry) (member : Member)
    (values : List EnumValue) : Prop where
  bits_eq : member.bitCount = none
  sizes_eq : member.arraySizes = []
  behind_eq : member.type.behind = ""
  values_eq : (registry.find? member.type.name).bind TypeEntry.values? = some values

/-- The declaration of a member with a default. -/
def declarationText (config : Config) (member : Member) (default : String) : String :=
  "    " ++ (frontText member.type ++ usedName config member.type.name) ++ " " ++
    member.name ++ (" = " ++ default) ++ ";\n"

theorem frontText_append_eq_iff {type : TypeSpelling} {text : String} :
    frontText type ++ text = text ↔ type.before = "" := by
  rw [frontText]
  split
  · next hempty =>
      simp [hempty]
  · next hfront =>
      rw [← String.toList_inj, String.toList_append, List.append_left_eq_self]
      simp [hfront]

theorem compose_eq_of_behind {config : Config} {type : TypeSpelling}
    (hbehind : type.behind = "") :
    type.compose config.names.qualifiedNamespace config.names.typeLead =
      frontText type ++ usedName config type.name := by
  simp only [TypeSpelling.compose, frontText, usedName, qualifiedName, hbehind,
    String.isEmpty_iff]
  cases registryName? config.names.typeLead type.name with
  | none => simp
  | some name => simp

namespace Header

variable {config : Config} {registry : Registry} {member : Member}
  {values : List EnumValue}

theorem memberLine_of_enumScalar {line : String}
    (hscalar : EnumScalar registry member values)
    (hrun : memberLine config registry member = .ok line) :
    ∃ first rest, values = first :: rest ∧
      line = declarationText config member
        (frontText member.type ++ firstEnumerator config member.type.name first) := by
  have htype : memberType config member =
      .ok (frontText member.type ++ usedName config member.type.name) := by
    rw [← compose_eq_of_behind hscalar.behind_eq, memberType, hscalar.bits_eq,
      hscalar.sizes_eq]
    rfl
  obtain ⟨typeText, htext, hrun⟩ := bind_eq_ok_iff.1 hrun
  obtain rfl := Except.ok.inj (htype.symm.trans htext)
  rw [hscalar.bits_eq] at hrun
  obtain ⟨ending, hending, hline⟩ := bind_eq_ok_iff.1 hrun
  obtain rfl := pure_eq_ok_iff.1 hline
  obtain ⟨default, hdefault, rfl⟩ := map_eq_ok_iff.1 hending
  rw [defaultValue, hscalar.values_eq, hscalar.sizes_eq, hscalar.behind_eq] at hdefault
  cases values with
  | nil => cases hdefault
  | cons first rest =>
      obtain rfl := Except.ok.inj hdefault
      have hassoc : frontText member.type ++ usedName config member.type.name ++
          "::" ++ Naming.enumerator member.type.name first.name =
            frontText member.type ++
              firstEnumerator config member.type.name first := by
        simp only [firstEnumerator, String.append_assoc]
      refine ⟨first, rest, rfl, ?_⟩
      rw [hassoc]
      rfl

/-- The enum blocks of a type have its values. -/
theorem text_of_mem_enums {header : Header} {enum : String}
    (hheader : ofRegistry config registry = .ok header)
    (hvalues : (registry.find? enum).bind TypeEntry.values? = some values) :
    ∀ block ∈ blocksIn header.enums, block.source = enum →
      block.text = enumText block.name (values.map (enumeratorOf enum)) := by
  obtain ⟨enums, henums, hheader⟩ := bind_eq_ok_iff.1 hheader
  obtain ⟨structs, -, hheader⟩ := bind_eq_ok_iff.1 hheader
  obtain rfl := pure_eq_ok_iff.1 hheader
  intro block hblock hsource
  obtain ⟨name, entry, hfind, hentry⟩ :=
    exists_find?_of_mem_sectionsOf henums block hblock
  obtain ⟨found, hfound, hmade⟩ := Option.map_eq_some_iff.1 hentry
  obtain ⟨-, rfl⟩ := enumBlock_eq_ok_iff.1 hmade
  have hname : entry.name = enum := hsource
  have henum : name = enum := (find?_name hfind).symm.trans hname
  rw [henum] at hfind
  rw [hfind, Option.bind_some, hfound] at hvalues
  obtain rfl := Option.some.inj hvalues
  rw [hname]

end Header

/-- Every member of a generated header that is one value of an enum is declared with a
default: the enumerator that each block of the enum has first, behind what stands in
front of the member's type.  The default is the name of that enumerator exactly if
nothing stands there. -/
theorem generateFrom_defaults {config : Config} {document : Xml.Document}
    {text : String} (hrun : generateFrom config document = .ok text) :
    ∃ registry header, Registry.ofDocument config document = .ok registry ∧
      Header.ofRegistry config registry = .ok header ∧
      header.render config registry.copyright = .ok text ∧
      ∀ entry ∈ registry.structs, ∀ member ∈ entry.2, ∀ values,
        EnumScalar registry member values →
          ∃ first rest default, values = first :: rest ∧
            default = frontText member.type ++
              firstEnumerator config member.type.name first ∧
            Header.memberLine config registry member =
              .ok (declarationText config member default) ∧
            Carries text [declarationText config member default] ∧
            (default = firstEnumerator config member.type.name first ↔
              member.type.before = "") ∧
            ∀ block ∈ blocksIn header.enums, block.source = member.type.name →
              block.name = Header.declaredName config member.type.name ∧
              ∃ behind, block.text = "  enum class " ++ block.name ++
                "\n  \x7b\n    " ++ Naming.enumerator member.type.name first.name ++
                " = " ++ behind := by
  obtain ⟨registry, header, hdocument, hheader, hrender⟩ :=
    generateFrom_eq_ok_iff.1 hrun
  obtain ⟨read, closed, -, -, haccepts⟩ := ofDocument_accepts hdocument
  refine ⟨registry, header, hdocument, hheader, hrender, ?_⟩
  intro entry hentry member hmember values hscalar
  obtain ⟨line, hline, hcarries⟩ :=
    Header.carries_memberLine haccepts hheader hrender entry hentry member hmember
  obtain ⟨first, rest, rfl, rfl⟩ := Header.memberLine_of_enumScalar hscalar hline
  refine ⟨first, rest, _, rfl, rfl, hline, hcarries, frontText_append_eq_iff, ?_⟩
  intro block hblock hsource
  have hname := ((Header.ofRegistry_declaresAll hheader).enums block hblock).name_eq
  rw [hsource] at hname
  refine ⟨hname, ?_⟩
  rw [Header.text_of_mem_enums hheader hscalar.values_eq block hblock hsource]
  exact Header.exists_enumText_cons block.name _ _

/-- Registry types begin with `S`, and the namespaces have short names. -/
def shortNames : Config :=
  { Plain.brief with
    names := { typeLead := "S", outerNamespace := "hpp", videoNamespace := "video" } }

def kindFast : EnumValue := ⟨"SKIND_FAST", "0", 1⟩

/-- A struct with one member of an enum, with a text in front of the member's type. -/
def constHolderDocument : Xml.Document :=
  Plain.documentOf
    [Plain.element "type" [("name", "int")] [],
      Plain.element "type" [("category", "enum"), ("name", "SKind")] [],
      Plain.element "type" [("category", "struct"), ("name", "SHolder")]
        [Plain.element "member" []
          [.text 1 "const ", Plain.element "type" [] [.text 1 "SKind"], .text 1 " ",
            Plain.element "name" [] [.text 1 "kind"]]]]
    [Plain.element "enums" [("name", "SKind"), ("type", "enum")]
      [Plain.element "enum" [("name", "SKIND_FAST"), ("value", "0")] []]]
    [("va", ["SKind", "SHolder"])]

def constKind : Member where
  type := { before := "const", name := "SKind" }
  name := "kind"
  line := 1

def constHolder : Registry where
  copyright := banner "Copyright"
  types := [⟨"int", 1, .unknown⟩, ⟨"SKind", 1, .enum [kindFast]⟩,
    ⟨"SHolder", 1, .struct [constKind]⟩]
  ownership := ⟨[("SKind", 0), ("SHolder", 0)]⟩
  extensions := [Plain.extension "va" none ["SKind", "SHolder"]]

theorem ofDocument_constHolder :
    Registry.ofDocument shortNames constHolderDocument = .ok constHolder :=
  ofDocument_eq_ok_iff.2 ⟨_, _, _,
    readDocument_eq_ok_iff.2 ⟨by cbv, by decide⟩, by cbv, by cbv, by cbv⟩

theorem enumScalar_constKind : EnumScalar constHolder constKind [kindFast] :=
  ⟨rfl, rfl, rfl, by decide⟩

theorem constHolder_default :
    ∃ text header, generateFrom shortNames constHolderDocument = .ok text ∧
      Header.ofRegistry shortNames constHolder = .ok header ∧
      EnumScalar constHolder constKind [kindFast] ∧
      Carries text
        ["    const hpp::video::Kind kind = const hpp::video::Kind::eFast;\n"] ∧
      ∀ block ∈ blocksIn header.enums, block.source = "SKind" →
        block.name = "Kind" ∧ ∃ behind, block.text =
          "  enum class " ++ block.name ++ "\n  \x7b\n    " ++ "eFast" ++ " = " ++
            behind := by
  obtain ⟨text, -, hrun, -, -⟩ :=
    exists_generateFrom ofDocument_constHolder (by decide)
  obtain ⟨registry, header, hdocument, hheader, -, hmembers⟩ :=
    generateFrom_defaults hrun
  obtain rfl : registry = constHolder :=
    Except.ok.inj (hdocument.symm.trans ofDocument_constHolder)
  obtain ⟨first, rest, default, hvalues, hdefault, -, hcarries, -, hblocks⟩ :=
    hmembers (⟨"SHolder", 1, _⟩, _) (List.mem_singleton.2 rfl) constKind
      (List.mem_singleton.2 rfl) _ enumScalar_constKind
  obtain ⟨rfl, -⟩ := List.cons.inj hvalues
  have hline : declarationText shortNames constKind default =
      "    const hpp::video::Kind kind = const hpp::video::Kind::eFast;\n" := by
    rw [hdefault]
    decide
  have hname : Header.declaredName shortNames "SKind" = "Kind" := by decide
  have henumerator : Naming.enumerator "SKind" kindFast.name = "eFast" := by decide
  rw [hline] at hcarries
  refine ⟨text, header, hrun, hheader, enumScalar_constKind, hcarries, ?_⟩
  intro block hblock hsource
  obtain ⟨hblockName, hblockText⟩ := hblocks block hblock hsource
  exact ⟨hblockName.trans hname, henumerator ▸ hblockText⟩

/-- A `const` in front of the type of a member is copied into its default, which is no
name then. -/
theorem constHolder_default_ne :
    ∃ text line, generateFrom shortNames constHolderDocument = .ok text ∧
      EnumScalar constHolder constKind [kindFast] ∧
      Header.memberLine shortNames constHolder constKind = .ok line ∧
      Carries text [line] ∧
      line = "    const hpp::video::Kind kind = const hpp::video::Kind::eFast;\n" ∧
      line ≠ declarationText shortNames constKind
        (firstEnumerator shortNames "SKind" kindFast) := by
  obtain ⟨text, header, hrun, hheader, hrender⟩ :=
    exists_generateFrom ofDocument_constHolder (by decide)
  obtain ⟨read, closed, -, -, haccepts⟩ := ofDocument_accepts ofDocument_constHolder
  obtain ⟨line, hline, hcarries⟩ := Header.carries_memberLine haccepts hheader
    hrender (⟨"SHolder", 1, _⟩, _) (List.mem_singleton.2 rfl) constKind
    (List.mem_singleton.2 rfl)
  have hwritten : Header.memberLine shortNames constHolder constKind =
      .ok "    const hpp::video::Kind kind = const hpp::video::Kind::eFast;\n" := by
    decide
  obtain rfl := Except.ok.inj (hwritten.symm.trans hline)
  exact ⟨text, _, hrun, enumScalar_constKind, hline, hcarries, rfl, by decide⟩

end VideoRegistry
