import VideoRegistry.Proofs.Defaults
import VideoRegistry.Proofs.EmissionFaults

/-!
# Which bitfields keep their native type

Whether a type belongs to the registry is asked in three places: where its name is
spelled in the header, where a member is checked for a type that nothing requires, and
where a bitfield is declared.  The first two know no registry types if the lead is empty;
the third one only looks whether the name begins with the lead.  So the three agree for
every lead but the empty one, under which every bitfield is declared as one of a registry
type, and refused if anything stands around its type.
-/

namespace VideoRegistry

open Header

/-- The configuration with another lead of registry types. -/
def Config.withLead (config : Config) (lead : String) : Config :=
  { config with names := { config.names with typeLead := lead } }

/-- What the header has behind the name of a member's type. -/
def behindText (type : TypeSpelling) : String :=
  if type.behind = "" then "" else " " ++ type.behind

/-- A type with another name in its place. -/
def spelledAs (type : TypeSpelling) (name : String) : String :=
  frontText type ++ name ++ behindText type

/-! ## Spelling and checking -/

theorem registryName?_eq_none_of_beginsWith {lead name : String}
    (hbegins : Text.beginsWith name lead = false) : registryName? lead name = none := by
  rw [Option.eq_none_iff_forall_ne_some]
  intro rest hrest
  obtain ⟨-, hname⟩ := registryName?_eq_some_iff.1 hrest
  rw [Text.beginsWith_iff.2 ⟨rest, hname⟩] at hbegins
  cases hbegins

/-- The type of a member is spelled and checked as that of a registry type which has the
given name without the lead. -/
structure TakenForRegistry (config : Config) (registry : Registry) (member : Member)
    (rest : String) : Prop where
  composed : member.type.compose config.names.qualifiedNamespace config.names.typeLead =
    spelledAs member.type (qualifiedName config rest)
  checked : ∀ struct owner,
    registry.checkMember config.names.typeLead struct owner member =
      verdict (registry.memberFaults [owner] member)
        (if registry.ownership.ownersOf member.type.name = [] then
          [⟨member.line, .neverRequired member.type.name struct⟩] else [])

/-- The type of a member is spelled and checked as that of a type from elsewhere. -/
structure TakenForForeign (config : Config) (registry : Registry) (member : Member) :
    Prop where
  composed : member.type.compose config.names.qualifiedNamespace config.names.typeLead =
    spelledAs member.type member.type.name
  checked : ∀ struct owner,
    registry.checkMember config.names.typeLead struct owner member =
      verdict (registry.memberFaults [owner] member) []

section

variable {config : Config} {registry : Registry} {member : Member} {rest : String}

theorem takenForRegistry
    (hname : registryName? config.names.typeLead member.type.name = some rest) :
    TakenForRegistry config registry member rest where
  composed := by
    simp only [TypeSpelling.compose, hname, spelledAs, frontText, behindText, qualifiedName,
      String.isEmpty_iff]
  checked struct owner := by
    have hnever : registry.isNeverRequired config.names.typeLead member.type.name =
        (registry.ownership.ownersOf member.type.name).isEmpty := by
      rw [Registry.isNeverRequired, hname, Option.isSome_some, Bool.true_and]
    rw [Registry.checkMember_eq_verdict, Registry.neverRequiredIn]
    by_cases howners : registry.ownership.ownersOf member.type.name = []
    · simp [hnever, howners]
    · simp [hnever, howners]

theorem takenForForeign
    (hname : registryName? config.names.typeLead member.type.name = none) :
    TakenForForeign config registry member where
  composed := by
    simp only [TypeSpelling.compose, hname, spelledAs, frontText, behindText,
      String.isEmpty_iff]
  checked struct owner := by
    have hnever : registry.isNeverRequired config.names.typeLead member.type.name =
        false := by
      rw [Registry.isNeverRequired, hname, Option.isSome_none, Bool.false_and]
    rw [Registry.checkMember_eq_verdict, Registry.neverRequiredIn]
    simp [hnever]

end

/-! ## Declaring -/

/-- The line of a bitfield with the given text for its type. -/
def bitfieldLine (member : Member) (bits typeText : String) : String :=
  "    " ++ typeText ++ " " ++ member.name ++ (" : " ++ bits) ++ ";\n"

/-- A fault if something stands around the type of a member. -/
def decorated (member : Member) (fault : Fault) : List SpecError :=
  if Decorated member.type then [⟨member.line, fault⟩] else []

/-- A bitfield with its native type, around which nothing may stand. -/
def nativeLine (member : Member) (bits : String) : Checked String :=
  verdict (decorated member (.decoratedBitfield member.name member.type.name))
    (bitfieldLine member bits member.type.name)

/-- A bitfield of a type from elsewhere, which is spelled like that of any member. -/
def foreignLine (config : Config) (member : Member) (bits : String) : Checked String :=
  if member.arraySizes = [] then
    .ok (bitfieldLine member bits (spelledAs member.type member.type.name))
  else
    verdict (decorated member (.decoratedArray member.name member.type.name))
      (bitfieldLine member bits (arrayWrapper config member.type.name member.arraySizes))

section

variable {config : Config} {registry : Registry} {member : Member} {bits : String}

theorem memberLine_eq_map (hbits : member.bitCount = some bits) :
    memberLine config registry member =
      (memberType config member).map (bitfieldLine member bits) := by
  rw [memberLine, hbits]
  cases memberType config member <;> rfl

theorem memberLine_eq_nativeLine (hbits : member.bitCount = some bits)
    (hbegins : Text.beginsWith member.type.name config.names.typeLead) :
    memberLine config registry member = nativeLine member bits := by
  have hkeeps : KeepsNative config member := ⟨by simp [hbits], hbegins⟩
  rw [memberLine_eq_map hbits, memberType, if_pos (keepsNative_iff.2 hkeeps),
    require_undecorated, verdict_map, verdict_map]
  rfl

theorem memberLine_eq_foreignLine (hbits : member.bitCount = some bits)
    (hbegins : Text.beginsWith member.type.name config.names.typeLead = false) :
    memberLine config registry member = foreignLine config member bits := by
  have hkeeps : ¬ KeepsNative config member := by simp [KeepsNative, hbegins]
  have htaken : TakenForForeign config registry member :=
    takenForForeign (registryName?_eq_none_of_beginsWith hbegins)
  rw [memberLine_eq_map hbits, memberType, if_neg (mt keepsNative_iff.1 hkeeps),
    foreignLine]
  by_cases hsizes : member.arraySizes = []
  · rw [if_pos (List.isEmpty_iff.2 hsizes), if_pos hsizes, htaken.composed]
    rfl
  · rw [if_neg (mt List.isEmpty_iff.1 hsizes), if_neg hsizes, require_undecorated,
      verdict_map, verdict_map]
    rfl

theorem bitfieldLine_inj {text other : String}
    (hsame : bitfieldLine member bits text = bitfieldLine member bits other) :
    text = other := by
  simpa [bitfieldLine, ← String.toList_inj] using hsame

theorem ne_arrayWrapper (config : Config) (element : String) (sizes : List String) :
    element ≠ arrayWrapper config element sizes := by
  intro hsame
  have hlength := congrArg String.length hsame
  have hclosing : ">".length = 1 := rfl
  simp only [arrayWrapper, String.length_append] at hlength
  omega

theorem spelledAs_eq_self {type : TypeSpelling} (hplain : ¬ Decorated type) (name : String) :
    spelledAs type name = name := by
  obtain ⟨hbefore, hbehind⟩ := not_or.1 hplain
  rw [spelledAs, frontText, behindText, if_pos (not_not.1 hbefore),
    if_pos (not_not.1 hbehind), String.empty_append, String.append_empty]

/-- The two ways to declare a bitfield are the same exactly if nothing stands around its
type and it is no array. -/
theorem nativeLine_eq_foreignLine_iff :
    nativeLine member bits = foreignLine config member bits ↔
      ¬ Decorated member.type ∧ member.arraySizes = [] := by
  by_cases hdecorated : Decorated member.type
  · refine iff_of_false ?_ (fun hplain => hplain.1 hdecorated)
    rw [nativeLine, foreignLine, decorated, decorated, if_pos hdecorated, if_pos hdecorated]
    split
    · exact nofun
    · intro hsame
      cases hsame
  · rw [nativeLine, foreignLine, decorated, decorated, if_neg hdecorated, if_neg hdecorated,
      and_iff_right hdecorated, spelledAs_eq_self hdecorated]
    by_cases hsizes : member.arraySizes = []
    · rw [if_pos hsizes]
      exact iff_of_true rfl hsizes
    · rw [if_neg hsizes]
      refine iff_of_false ?_ hsizes
      intro hsame
      exact ne_arrayWrapper _ _ _ (bitfieldLine_inj (Except.ok.inj hsame))

end

/-- For every lead that is not empty, a type whose name begins with the lead is spelled,
checked and, as that of a bitfield, declared as one of the registry, and any other type as
one from elsewhere.  With an empty lead every type is spelled and checked as one from
elsewhere, but every bitfield is declared as one of a registry type; this makes no
difference exactly if nothing stands around its type and it is no array. -/
theorem memberLine_registryTypes (config : Config) (registry : Registry) (member : Member) :
    (∀ lead rest, lead ≠ "" → member.type.name = lead ++ rest →
      TakenForRegistry (config.withLead lead) registry member rest ∧
        ∀ bits, member.bitCount = some bits →
          memberLine (config.withLead lead) registry member = nativeLine member bits) ∧
      (∀ lead, (∀ rest, member.type.name ≠ lead ++ rest) →
        TakenForForeign (config.withLead lead) registry member ∧
          ∀ bits, member.bitCount = some bits →
            memberLine (config.withLead lead) registry member =
              foreignLine config member bits) ∧
      TakenForForeign (config.withLead "") registry member ∧
      ∀ bits, member.bitCount = some bits →
        memberLine (config.withLead "") registry member = nativeLine member bits ∧
          (nativeLine member bits = foreignLine config member bits ↔
            ¬ Decorated member.type ∧ member.arraySizes = []) := by
  refine ⟨?_, ?_, ?_, ?_⟩
  · intro lead rest hlead hname
    refine ⟨takenForRegistry (registryName?_eq_some_iff.2 ⟨hlead, hname⟩), ?_⟩
    intro bits hbits
    exact memberLine_eq_nativeLine hbits (Text.beginsWith_iff.2 ⟨rest, hname⟩)
  · intro lead hname
    have hbegins : Text.beginsWith member.type.name lead = false := by
      rw [← Bool.not_eq_true, Text.beginsWith_iff]
      exact fun ⟨rest, hrest⟩ => hname rest hrest
    refine ⟨takenForForeign (registryName?_eq_none_of_beginsWith hbegins), ?_⟩
    intro bits hbits
    exact memberLine_eq_foreignLine hbits hbegins
  · exact takenForForeign rfl
  · intro bits hbits
    refine ⟨memberLine_eq_nativeLine hbits ?_, nativeLine_eq_foreignLine_iff⟩
    exact Text.beginsWith_iff.2 ⟨member.type.name, String.empty_append.symm⟩

/-- A bitfield with something in front of its type. -/
def constBitfield : Member where
  type := { before := "const", name := "int" }
  name := "n"
  bitCount := some "3"
  line := 1

theorem memberLine_constBitfield :
    constBitfield.bitCount = some "3" ∧
      (∀ rest, constBitfield.type.name ≠ "S" ++ rest) ∧
      memberLine (Plain.brief.withLead "S") {} constBitfield =
        .ok "    const int n : 3;\n" ∧
      memberLine (Plain.brief.withLead "i") {} constBitfield =
        .error ⟨1, .decoratedBitfield "n" "int"⟩ ∧
      memberLine (Plain.brief.withLead "") {} constBitfield =
        .error ⟨1, .decoratedBitfield "n" "int"⟩ := by
  have hforeign : ∀ rest, constBitfield.type.name ≠ "S" ++ rest := by
    intro rest hname
    have hhead := congrArg (fun name => name.toList.head?) hname
    simp [constBitfield] at hhead
  have hlines := memberLine_registryTypes Plain.brief {} constBitfield
  obtain ⟨hregistry, helsewhere, -, hempty⟩ := hlines
  refine ⟨rfl, hforeign, ?_, ?_, ?_⟩
  · exact (helsewhere "S" hforeign).2 "3" rfl
  · exact (hregistry "i" "nt" (by decide) rfl).2 "3" rfl
  · exact (hempty "3" rfl).1

/-- A struct with this bitfield. -/
def constBitfieldDocument : Xml.Document :=
  Plain.documentOf
    [Plain.element "type" [("name", "int")] [],
      Plain.element "type" [("category", "struct"), ("name", "Holder")]
        [Plain.element "member" []
          [.text 1 "const ", Plain.element "type" [] [.text 1 "int"], .text 1 " ",
            Plain.element "name" [] [.text 1 "n"], .text 1 ":3"]]]
    [] [("va", ["Holder"])]

def constBitfields : Registry :=
  Plain.registry [("Holder", [constBitfield])] [Plain.extension "va" none ["Holder"]]

theorem ofDocument_constBitfields : ∀ lead ∈ ["", "S"],
    Registry.ofDocument (Plain.brief.withLead lead) constBitfieldDocument =
      .ok constBitfields := by
  intro lead hlead
  simp only [List.mem_cons, List.not_mem_nil, or_false] at hlead
  rcases hlead with rfl | rfl <;> exact Registry.ofDocument_eq_ok_iff.2 ⟨_, _, _,
    readDocument_eq_ok_iff.2 ⟨by cbv, by decide⟩, by cbv, by cbv, by cbv⟩

/-- With an empty lead there is no header for a registry without registry types, which
has one under a lead that no name begins with. -/
theorem generateFrom_emptyLead :
    generateFrom (Plain.brief.withLead "") constBitfieldDocument =
        .error (.spec ⟨1, .decoratedBitfield "n" "int"⟩) ∧
      ∃ text, generateFrom (Plain.brief.withLead "S") constBitfieldDocument = .ok text ∧
        Carries text ["    const int n : 3;\n"] := by
  constructor
  · have hdocument := ofDocument_constBitfields "" (by decide)
    have hfirst : (emissionFaults (Plain.brief.withLead "") constBitfields).head? =
        some ⟨1, .decoratedBitfield "n" "int"⟩ := by decide
    have hemit : constBitfields.emit (Plain.brief.withLead "") =
        .error (.spec ⟨1, .decoratedBitfield "n" "int"⟩) := by
      rw [(Registry.emit_endsBy _ _).eq_error_iff, List.head?_map, hfirst]
      rfl
    rw [generateFrom, hdocument]
    exact hemit
  · have hdocument := ofDocument_constBitfields "S" (by decide)
    obtain ⟨text, header, hrun, hheader, hrender⟩ :=
      exists_generateFrom hdocument (by decide)
    obtain ⟨read, closed, -, -, haccepts⟩ := Registry.ofDocument_accepts hdocument
    obtain ⟨line, hline, hcarries⟩ :=
      carries_memberLine haccepts hheader hrender (⟨"Holder", 1, _⟩, [constBitfield])
        (List.mem_singleton.2 rfl) constBitfield (List.mem_singleton.2 rfl)
    obtain rfl : "    const int n : 3;\n" = line := Except.ok.inj hline
    exact ⟨text, hrun, hcarries⟩

end VideoRegistry
