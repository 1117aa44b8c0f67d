import VideoRegistry.Proofs.QualifiedNames
import VideoRegistry.Proofs.WellFormed

/-!
# How bitfields are compared

A member is declared as a bitfield if it has a bit count.  Whether it is compared as
bytes, by its address, is decided without the bit count: by the kind of its type, what
stands behind the type, and a list of types with a comparison.  So a bitfield is compared
by `==` exactly if its type is no external one outside the list; of a bitfield of any
other external type the address is taken.
-/

namespace VideoRegistry

open Registry

/-- The comparison of a member by its own operator. -/
def ownComparison (member : Member) : String :=
  "( " ++ member.name ++ " == rhs." ++ member.name ++ " )"

/-- The comparison of the bytes of a member, which takes its address. -/
def bytesComparison (member : Member) : String :=
  "( memcmp( &" ++ member.name ++ ", &rhs." ++ member.name ++ ", sizeof( " ++
    member.type.name ++ " ) ) == 0 )"

/-- A value of an external type for which no comparison is known. -/
structure Bytewise (registry : Registry) (type : TypeSpelling) : Prop where
  external : registry.hasCategory type.name .external
  behind_eq : type.behind = ""
  not_comparable : type.name ∉ Header.comparable

theorem ownComparison_ne_bytesComparison (member : Member) :
    ownComparison member ≠ bytesComparison member := by
  intro hsame
  delta ownComparison bytesComparison at hsame
  have hlength := congrArg String.length hsame
  have hliterals : "( ".length + " == rhs.".length + " )".length <
      "( memcmp( &".length + ", &rhs.".length + ", sizeof( ".length +
        " ) ) == 0 )".length := by decide
  simp only [String.length_append] at hlength
  omega

namespace Header

variable {registry : Registry} {config : Config} {member : Member}

theorem comparesBytes_iff (hsizes : member.arraySizes = []) :
    comparesBytes registry member ↔ Bytewise registry member.type := by
  simp only [comparesBytes, hsizes, List.isEmpty_nil, Bool.and_true, Bool.and_eq_true,
    Bool.not_eq_true', List.contains_eq_mem, decide_eq_false_iff_not,
    String.isEmpty_iff]
  constructor
  · rintro ⟨⟨hexternal, hbehind⟩, hcomparable⟩
    exact ⟨hexternal, hbehind, hcomparable⟩
  · rintro ⟨hexternal, hbehind, hcomparable⟩
    exact ⟨⟨hexternal, hbehind⟩, hcomparable⟩

theorem comparison_eq_ownComparison_iff (hsizes : member.arraySizes = []) :
    comparison registry member = ownComparison member ↔
      ¬ Bytewise registry member.type := by
  rw [← comparesBytes_iff hsizes, comparison]
  split
  · next hbytes =>
      exact iff_of_false (ownComparison_ne_bytesComparison member).symm
        (not_not_intro hbytes)
  · next hbytes => exact iff_of_true rfl hbytes

theorem comparison_eq_bytesComparison_iff (hsizes : member.arraySizes = []) :
    comparison registry member = bytesComparison member ↔
      Bytewise registry member.type := by
  rw [← comparesBytes_iff hsizes, comparison]
  split
  · next hbytes => exact iff_of_true rfl hbytes
  · next hbytes => exact iff_of_false (ownComparison_ne_bytesComparison member) hbytes

/-- The line of a bitfield ends with its bit count. -/
theorem memberLine_of_bitCount {bits line : String} (hbits : member.bitCount = some bits)
    (hrun : memberLine config registry member = .ok line) :
    ∃ typeText, memberType config member = .ok typeText ∧
      line = "    " ++ typeText ++ " " ++ member.name ++ (" : " ++ bits) ++ ";\n" := by
  obtain ⟨typeText, htype, hrun⟩ := bind_eq_ok_iff.1 hrun
  rw [hbits] at hrun
  exact ⟨typeText, htype, (pure_eq_ok_iff.1 hrun).symm⟩

end Header

/-- Members of an accepted registry are as they were checked when they were read. -/
theorem Registry.membersSound_of_ofDocument {config : Config}
    {document : Xml.Document} {registry : Registry}
    (hrun : Registry.ofDocument config document = .ok registry) :
    ∀ entry ∈ registry.structs, MembersSound entry.2 := by
  rintro ⟨entry, members⟩ hentry
  obtain ⟨hdeclared, hmembers⟩ := mem_structs_iff.1 hentry
  obtain ⟨read, closed, hread, -, haccepts⟩ := ofDocument_accepts hrun
  have hsound := (readDocument_reading hread).sound sound_empty
  rw [haccepts.types_eq] at hdeclared
  have hkeeps := hsound.entries entry hdeclared
  unfold TypeEntry.members? at hmembers
  split at hmembers
  · next all hdefinition =>
      obtain rfl := Option.some.inj hmembers
      unfold Keeps at hkeeps
      rw [hdefinition] at hkeeps
      exact hkeeps
  · cases hmembers

/-- In every generated header the block of a struct has the comparisons of its members
and then their declarations.  A member that is declared as a bitfield is compared by `==`
exactly if its type is not an external one without a known comparison and with nothing
behind it; otherwise its bytes are compared and its address is taken. -/
theorem generateFrom_bitfields {config : Config} {document : Xml.Document}
    {text : String} (hrun : generateFrom config document = .ok text) :
    ∃ registry header, Registry.ofDocument config document = .ok registry ∧
      Header.ofRegistry config registry = .ok header ∧
      header.render config registry.copyright = .ok text ∧
      ∀ entry ∈ registry.structs, ∃ block ∈ blocksIn header.structs, ∃ lines,
        block.source = entry.1.name ∧ Carries text [block.text] ∧
        entry.2.mapM (Header.memberLine config registry) = .ok lines ∧
        Carries block.text (Header.operatorsText block.name
          (entry.2.map (Header.comparison registry)) :: lines) ∧
        ∀ member ∈ entry.2, ∀ bits, member.bitCount = some bits →
          (∃ typeText, Header.memberType config member = .ok typeText ∧
            Header.memberLine config registry member = .ok ("    " ++ typeText ++ " " ++
              member.name ++ (" : " ++ bits) ++ ";\n")) ∧
          (Header.comparison registry member = ownComparison member ↔
            ¬ Bytewise registry member.type) ∧
          (Header.comparison registry member = bytesComparison member ↔
            Bytewise registry member.type) := by
  obtain ⟨registry, header, hdocument, hheader, hrender⟩ :=
    generateFrom_eq_ok_iff.1 hrun
  obtain ⟨read, closed, -, -, haccepts⟩ := ofDocument_accepts hdocument
  refine ⟨registry, header, hdocument, hheader, hrender, ?_⟩
  intro entry hentry
  obtain ⟨block, hblock, hmade, hcarries⟩ :=
    Header.exists_structBlock haccepts hheader hrender entry hentry
  obtain ⟨lines, hlines, hinner⟩ := Header.structBlock_carries hmade
  refine ⟨block, hblock, lines, Header.structBlock_source hmade, hcarries, hlines, hinner,
    ?_⟩
  intro member hmember bits hbits
  have hsizes : member.arraySizes = [] := by
    have hsound := membersSound_of_ofDocument hdocument entry hentry
    refine (hsound.arrayOrBits member hmember).resolve_right ?_
    rw [hbits]
    exact Option.some_ne_none bits
  obtain ⟨line, -, hline⟩ := exists_mem_of_mapM hlines member hmember
  obtain ⟨typeText, htype, rfl⟩ := Header.memberLine_of_bitCount hbits hline
  exact ⟨⟨typeText, htype, hline⟩, Header.comparison_eq_ownComparison_iff hsizes,
    Header.comparison_eq_bytesComparison_iff hsizes⟩

/-- A bitfield, spelled with its type, its name and its bit count. -/
def bitfieldNode (type name bits : String) : Xml.Node :=
  Plain.element "member" []
    [Plain.element "type" [] [.text 1 type], .text 1 " ",
      Plain.element "name" [] [.text 1 name], .text 1 (":" ++ bits)]

def bitfield (type name bits : String) : Member where
  type := { name := type }
  name := name
  bitCount := some bits
  line := 1

/-- A struct with a bitfield of a plain type and one of an external type. -/
def bitfieldsDocument : Xml.Document :=
  Plain.documentOf
    [Plain.element "type" [("category", "include"), ("name", "ext.h")] [],
      Plain.element "type" [("name", "ext_t"), ("requires", "ext.h")] [],
      Plain.element "type" [("name", "int")] [],
      Plain.element "type" [("category", "struct"), ("name", "SHolder")]
        [bitfieldNode "int" "n" "3", bitfieldNode "ext_t" "m" "4"]]
    [] [("va", ["SHolder"])]

def bitfields : Registry where
  copyright := banner "Copyright"
  types := [⟨"ext.h", 1, .inclusion⟩, ⟨"ext_t", 1, .external "ext.h"⟩,
    ⟨"int", 1, .unknown⟩,
    ⟨"SHolder", 1, .struct [bitfield "int" "n" "3", bitfield "ext_t" "m" "4"]⟩]
  ownership := ⟨[("SHolder", 0)]⟩
  extensions := [Plain.extension "va" none ["SHolder"]]

theorem ofDocument_bitfields :
    Registry.ofDocument Plain.brief bitfieldsDocument = .ok bitfields :=
  ofDocument_eq_ok_iff.2 ⟨_, _, _,
    readDocument_eq_ok_iff.2 ⟨by cbv, by decide⟩, by cbv, by cbv, by cbv⟩

theorem bytewise_bitfields : Bytewise bitfields (bitfield "ext_t" "m" "4").type :=
  ⟨by decide, rfl, by decide⟩

theorem not_bytewise_bitfields :
    ¬ Bytewise bitfields (bitfield "int" "n" "3").type := by
  intro hbytewise
  exact absurd hbytewise.external (by decide)

theorem bitfields_comparisons :
    ∃ text header, generateFrom Plain.brief bitfieldsDocument = .ok text ∧
      Header.ofRegistry Plain.brief bitfields = .ok header ∧
      ¬ Bytewise bitfields (bitfield "int" "n" "3").type ∧
      Bytewise bitfields (bitfield "ext_t" "m" "4").type ∧
      ∃ block ∈ blocksIn header.structs, ∃ lines, Carries text [block.text] ∧
        Carries block.text (Header.operatorsText block.name
          [ownComparison (bitfield "int" "n" "3"),
            bytesComparison (bitfield "ext_t" "m" "4")] :: lines) := by
  obtain ⟨text, -, hrun, -, -⟩ := exists_generateFrom ofDocument_bitfields (by decide)
  obtain ⟨registry, header, hdocument, hheader, -, hstructs⟩ :=
    generateFrom_bitfields hrun
  obtain rfl : registry = bitfields :=
    Except.ok.inj (hdocument.symm.trans ofDocument_bitfields)
  obtain ⟨block, hblock, lines, -, hcarries, -, hinner, hmembers⟩ :=
    hstructs (⟨"SHolder", 1, _⟩, _) (List.mem_singleton.2 rfl)
  have hplain := (hmembers (bitfield "int" "n" "3") List.mem_cons_self "3" rfl).2.1
  have hexternal := (hmembers (bitfield "ext_t" "m" "4")
    (List.mem_cons_of_mem _ List.mem_cons_self) "4" rfl).2.2
  rw [List.map_cons, List.map_cons, List.map_nil, hplain.2 not_bytewise_bitfields,
    hexternal.2 bytewise_bitfields] at hinner
  exact ⟨text, header, hrun, hheader, not_bytewise_bitfields, bytewise_bitfields, block,
    hblock, lines, hcarries, hinner⟩

/-- The address of a bitfield of an external type is taken. -/
theorem bitfields_address_taken :
    ∃ text, ∃ block : Block, generateFrom Plain.brief bitfieldsDocument = .ok text ∧
      Carries text [block.text] ∧
      Carries block.text
        [Header.operatorsText block.name
          ["( n == rhs.n )", "( memcmp( &m, &rhs.m, sizeof( ext_t ) ) == 0 )"],
          "    int n : 3;\n", "    ext_t m : 4;\n"] ∧
      Header.comparison bitfields (bitfield "ext_t" "m" "4") ≠ "( m == rhs.m )" := by
  obtain ⟨text, header, hrun, hheader, hrender⟩ :=
    exists_generateFrom ofDocument_bitfields (by decide)
  obtain ⟨read, closed, -, -, haccepts⟩ := ofDocument_accepts ofDocument_bitfields
  obtain ⟨block, -, hmade, hcarries⟩ := Header.exists_structBlock haccepts hheader hrender
    (⟨"SHolder", 1, _⟩, _) (List.mem_singleton.2 rfl)
  obtain ⟨lines, hlines, hinner⟩ := Header.structBlock_carries hmade
  have hwritten : [bitfield "int" "n" "3", bitfield "ext_t" "m" "4"].mapM
      (Header.memberLine Plain.brief bitfields) =
        .ok ["    int n : 3;\n", "    ext_t m : 4;\n"] := by
    decide
  have hcompared : [bitfield "int" "n" "3", bitfield "ext_t" "m" "4"].map
      (Header.comparison bitfields) =
        ["( n == rhs.n )", "( memcmp( &m, &rhs.m, sizeof( ext_t ) ) == 0 )"] := by
    decide
  obtain rfl := Except.ok.inj (hwritten.symm.trans hlines)
  rw [hcompared] at hinner
  exact ⟨text, block, hrun, hcarries, hinner, by decide⟩

end VideoRegistry
