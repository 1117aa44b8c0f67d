import VideoRegistry.Header.Basic
import VideoRegistry.Proofs.Filling
import VideoRegistry.Proofs.MemberGraph

/-!
# What the text of a header carries

A header is built as blocks and then put into frames.  No frame loses or moves a
block: the text holds the enum blocks and then the struct blocks, one behind the
other, in the order of the sections.  The blocks of a section are those of the
types in its list, in the order of the list.
-/

namespace VideoRegistry

/-- The pieces occur in a text one behind the other. -/
inductive Carries : String → List String → Prop
  | nil (text : String) : Carries text []
  | cons (gap piece : String) {rest : String} {pieces : List String}
      (hrest : Carries rest pieces) : Carries (gap ++ piece ++ rest) (piece :: pieces)

namespace Carries

variable {text left right : String} {pieces others : List String}

theorem behind (front : String) (hcarries : Carries text pieces) :
    Carries (front ++ text) pieces := by
  cases hcarries with
  | nil text => exact .nil (front ++ text)
  | @cons gap piece rest pieces hrest =>
      have hassoc : front ++ (gap ++ piece ++ rest) =
          (front ++ gap) ++ piece ++ rest := by
        simp only [String.append_assoc]
      rw [hassoc]
      exact .cons (front ++ gap) piece hrest

theorem append (hleft : Carries left pieces) (hright : Carries right others) :
    Carries (left ++ right) (pieces ++ others) := by
  induction hleft with
  | nil text => exact hright.behind text
  | @cons gap piece rest pieces hrest ih =>
      have hassoc : gap ++ piece ++ rest ++ right = gap ++ piece ++ (rest ++ right) :=
        String.append_assoc
      rw [List.cons_append, hassoc]
      exact .cons gap piece ih

/-- What a text carries together it carries one by one. -/
theorem of_mem {piece : String} (hcarries : Carries text pieces)
    (hpiece : piece ∈ pieces) : Carries text [piece] := by
  induction hcarries with
  | nil text => cases hpiece
  | @cons gap first rest pieces hrest ih =>
      rcases List.mem_cons.1 hpiece with rfl | hpiece
      · exact .cons gap piece (.nil rest)
      · exact (ih hpiece).behind (gap ++ first)

/-- What a piece carries, the text that carries the piece carries. -/
theorem trans {piece : String} (hcarries : Carries text [piece])
    (hpiece : Carries piece others) : Carries text others := by
  cases hcarries with
  | @cons gap _ rest _ hrest =>
      have hwhole : Carries (gap ++ piece ++ rest) (others ++ []) :=
        (hpiece.behind gap).append (.nil rest)
      rwa [List.append_nil] at hwhole

theorem self (text : String) : Carries text [text] := by
  have hcarries : Carries ("" ++ text ++ "") [text] := .cons "" text (.nil "")
  rwa [String.empty_append, String.append_empty] at hcarries

theorem join {α : Type} {items : List α} {part : α → String}
    {pieces : α → List String}
    (hparts : ∀ item ∈ items, Carries (part item) (pieces item)) :
    Carries (String.join (items.map part)) (items.flatMap pieces) := by
  induction items with
  | nil => exact .nil _
  | cons item items ih =>
      obtain ⟨hitem, hitems⟩ := List.forall_mem_cons.1 hparts
      rw [List.map_cons, String.join_cons, List.flatMap_cons]
      exact hitem.append (ih hitems)

end Carries

namespace Template

/-- A filled template carries what its slots are filled with, in their order. -/
theorem carries_of_fill {template : Template}
    {fillings : List (String × String)} {text : String}
    (pieces : String → List String)
    (hslots : ∀ name ∈ template.filterMap slot?,
      Carries (fillSegment fillings (.slot name)) (pieces name))
    (hrun : template.fill fillings = .ok text) :
    Carries text ((template.filterMap slot?).flatMap pieces) := by
  obtain ⟨-, rfl⟩ := fill_eq_ok_iff.1 hrun
  clear hrun
  induction template with
  | nil => exact .nil _
  | cons segment rest ih =>
      rw [List.map_cons, String.join_cons]
      cases segment with
      | text content =>
          rw [List.filterMap_cons_none rfl] at hslots ⊢
          exact (ih hslots).behind content
      | slot name =>
          have hfirst : slot? (.slot name) = some name := rfl
          rw [List.filterMap_cons_some hfirst] at hslots ⊢
          obtain ⟨hname, hrest⟩ := List.forall_mem_cons.1 hslots
          rw [List.flatMap_cons]
          exact hname.append (ih hrest)

/-- A template with one slot carries what the slot is filled with. -/
theorem carries_of_fill_single {template : Template}
    {name inner text : String} {pieces : List String}
    (hslot : template.filterMap slot? = [name]) (hinner : Carries inner pieces)
    (hrun : template.fill [(name, inner)] = .ok text) : Carries text pieces := by
  have hslots : ∀ other ∈ template.filterMap slot?,
      Carries (fillSegment [(name, inner)] (.slot other)) pieces := by
    rw [hslot]
    intro other hother
    obtain rfl := List.mem_singleton.1 hother
    simpa [fillSegment] using hinner
  have hcarries := carries_of_fill (fun _ => pieces) hslots hrun
  rw [hslot] at hcarries
  simpa using hcarries

end Template

/-- The blocks of all sections, in the order in which the text has them. -/
def blocksIn (sections : List HeaderSection) : List Block :=
  sections.flatMap HeaderSection.blocks

theorem HeaderSection.carries_render (part : HeaderSection) :
    Carries part.render (part.blocks.map Block.text) := by
  rw [render]
  split
  · next hempty =>
      rw [List.isEmpty_iff] at hempty
      rw [hempty]
      exact .nil ""
  · apply Carries.behind
    have hpieces : part.blocks.map Block.text =
        part.blocks.flatMap fun block => [block.text] := List.map_eq_flatMap
    rw [hpieces]
    apply Carries.join
    intro block _
    exact (Carries.self block.text).behind "\n"

theorem carries_join_render (sections : List HeaderSection) :
    Carries (String.join (sections.map HeaderSection.render))
      ((blocksIn sections).map Block.text) := by
  rw [blocksIn, List.map_flatMap]
  exact Carries.join fun part _ => part.carries_render

namespace Header

/-- The text of a header carries its enum blocks and then its struct blocks. -/
theorem carries_of_render {config : Config} {copyright text : String}
    {header : Header} (hrun : header.render config copyright = .ok text) :
    Carries text ((blocksIn header.enums ++ blocksIn header.structs).map
      Block.text) := by
  rw [render] at hrun
  obtain ⟨enums, henums, hrun⟩ := bind_eq_ok_iff.1 hrun
  obtain ⟨structs, hstructs, hrun⟩ := bind_eq_ok_iff.1 hrun
  have henumsCarry :=
    Template.carries_of_fill_single rfl (carries_join_render header.enums) henums
  have hstructsCarry :=
    Template.carries_of_fill_single rfl (carries_join_render header.structs)
      hstructs
  let pieces : String → List String := fun name =>
    if name = "enums" then (blocksIn header.enums).map Block.text
    else if name = "structs" then (blocksIn header.structs).map Block.text
    else []
  have hslots : frame.filterMap Template.slot? =
      ["copyright", "guard", "guard", "includes", "videoNamespace",
        "videoNamespace", "videoNamespaceDefault", "namespace", "videoNamespace",
        "enums", "structs", "videoNamespace", "namespace"] := rfl
  have hcarries := Template.carries_of_fill pieces ?_ hrun
  · rw [hslots] at hcarries
    simpa [pieces] using hcarries
  · intro name _
    by_cases hname : name = "enums"
    · simpa [pieces, hname, Template.fillSegment] using henumsCarry
    by_cases hname' : name = "structs"
    · simpa [pieces, hname', Template.fillSegment] using hstructsCarry
    · simpa [pieces, hname, hname'] using Carries.nil _

/-! ## The blocks of a list -/

variable {registry : Registry}
  {block? : TypeEntry → Option (Except Failure Block)}

/-- What a type gives, if it is of the right kind. -/
def blockFor? (registry : Registry)
    (block? : TypeEntry → Option (Except Failure Block)) (name : String) :
    Option (Except Failure Block) :=
  (registry.find? name).bind block?

/-- Blocks have the name of the type that they are made for. -/
def BearsSource (block? : TypeEntry → Option (Except Failure Block)) : Prop :=
  ∀ entry block, block? entry = some (.ok block) → block.source = entry.name

/-- The blocks of a list are those of its types, in the order of the list. -/
theorem blocksOf_spec {names : List String} {blocks : List Block}
    (hsource : BearsSource block?)
    (hrun : blocksOf registry block? names = .ok blocks) :
    blocks.map Block.source =
        names.filter (fun name => (blockFor? registry block? name).isSome) ∧
      ∀ name ∈ names, ∀ result, blockFor? registry block? name = some result →
        ∃ block ∈ blocks, result = .ok block := by
  induction names generalizing blocks with
  | nil =>
      rw [blocksOf] at hrun
      obtain rfl := Except.ok.inj hrun
      exact ⟨rfl, by simp⟩
  | cons name rest ih =>
      rw [blocksOf] at hrun
      split at hrun
      · next hnone =>
          have hname : blockFor? registry block? name = none := hnone
          obtain ⟨hsources, hblocks⟩ := ih hrun
          constructor
          · rw [List.filter_cons, hname]
            exact hsources
          · intro other hother result hresult
            rcases List.mem_cons.1 hother with rfl | hother
            · rw [hname] at hresult
              cases hresult
            · exact hblocks other hother result hresult
      · next result hsome =>
          have hname : blockFor? registry block? name = some result := hsome
          obtain ⟨block, rfl, hnext⟩ := bind_eq_ok_iff.1 hrun
          obtain ⟨later, hlater, hlist⟩ := bind_eq_ok_iff.1 hnext
          obtain rfl := pure_eq_ok_iff.1 hlist
          obtain ⟨hsources, hblocks⟩ := ih hlater
          obtain ⟨entry, hfind, hblock⟩ := Option.bind_eq_some_iff.1 hname
          constructor
          · have hbears : block.source = name :=
              (hsource entry block hblock).trans (Registry.find?_name hfind)
            rw [List.map_cons, hsources, hbears, List.filter_cons, hname]
            rfl
          · intro other hother result hresult
            rcases List.mem_cons.1 hother with rfl | hother
            · rw [hname] at hresult
              exact ⟨block, List.mem_cons_self, (Option.some.inj hresult).symm⟩
            · obtain ⟨found, hfound, hok⟩ := hblocks other hother result hresult
              exact ⟨found, List.mem_cons_of_mem block hfound, hok⟩

/-- The blocks of all sections are those of the types in all lists. -/
theorem sectionsOf_spec {extensions : List Extension}
    {sections : List HeaderSection} (hsource : BearsSource block?)
    (hrun : sectionsOf registry block? extensions = .ok sections) :
    sections.map HeaderSection.extension = extensions.map Extension.name ∧
      (blocksIn sections).map Block.source =
        (extensions.flatMap Extension.types).filter
          (fun name => (blockFor? registry block? name).isSome) ∧
      ∀ name ∈ extensions.flatMap Extension.types, ∀ result,
        blockFor? registry block? name = some result →
          ∃ block ∈ blocksIn sections, result = .ok block := by
  induction extensions generalizing sections with
  | nil =>
      rw [sectionsOf] at hrun
      obtain rfl := Except.ok.inj hrun
      exact ⟨rfl, rfl, by simp⟩
  | cons extension rest ih =>
      rw [sectionsOf] at hrun
      obtain ⟨blocks, hfirst, hrun⟩ := bind_eq_ok_iff.1 hrun
      obtain ⟨later, hlater, hrun⟩ := bind_eq_ok_iff.1 hrun
      obtain rfl := pure_eq_ok_iff.1 hrun
      obtain ⟨hsources, hblocks⟩ := blocksOf_spec hsource hfirst
      obtain ⟨hnames, hsourcesRest, hblocksRest⟩ := ih hlater
      have hsplit : blocksIn (⟨extension.name, blocks⟩ :: later) =
          blocks ++ blocksIn later := rfl
      refine ⟨by rw [List.map_cons, List.map_cons, hnames], ?_, ?_⟩
      · rw [hsplit, List.map_append, hsources, hsourcesRest, List.flatMap_cons,
          List.filter_append]
      · intro name hname result hresult
        rw [hsplit]
        rw [List.flatMap_cons, List.mem_append] at hname
        rcases hname with hname | hname
        · obtain ⟨block, hblock, hok⟩ := hblocks name hname result hresult
          exact ⟨block, List.mem_append_left _ hblock, hok⟩
        · obtain ⟨block, hblock, hok⟩ := hblocksRest name hname result hresult
          exact ⟨block, List.mem_append_right _ hblock, hok⟩

/-- Every block of a list is made for a declared type. -/
theorem exists_find?_of_mem_blocksOf {names : List String}
    {blocks : List Block} (hrun : blocksOf registry block? names = .ok blocks) :
    ∀ block ∈ blocks, ∃ name entry, registry.find? name = some entry ∧
      block? entry = some (.ok block) := by
  induction names generalizing blocks with
  | nil =>
      rw [blocksOf] at hrun
      obtain rfl := Except.ok.inj hrun
      simp
  | cons name rest ih =>
      rw [blocksOf] at hrun
      split at hrun
      · exact ih hrun
      · next result hsome =>
          obtain ⟨block, rfl, hnext⟩ := bind_eq_ok_iff.1 hrun
          obtain ⟨later, hlater, hlist⟩ := bind_eq_ok_iff.1 hnext
          obtain rfl := pure_eq_ok_iff.1 hlist
          obtain ⟨entry, hfind, hblock⟩ := Option.bind_eq_some_iff.1 hsome
          exact List.forall_mem_cons.2 ⟨⟨name, entry, hfind, hblock⟩, ih hlater⟩

theorem exists_find?_of_mem_sectionsOf {extensions : List Extension}
    {sections : List HeaderSection}
    (hrun : sectionsOf registry block? extensions = .ok sections) :
    ∀ block ∈ blocksIn sections, ∃ name entry, registry.find? name = some entry ∧
      block? entry = some (.ok block) := by
  induction extensions generalizing sections with
  | nil =>
      rw [sectionsOf] at hrun
      obtain rfl := Except.ok.inj hrun
      simp [blocksIn]
  | cons extension rest ih =>
      rw [sectionsOf] at hrun
      obtain ⟨blocks, hfirst, hrun⟩ := bind_eq_ok_iff.1 hrun
      obtain ⟨later, hlater, hrun⟩ := bind_eq_ok_iff.1 hrun
      obtain rfl := pure_eq_ok_iff.1 hrun
      exact List.forall_mem_append.2
        ⟨exists_find?_of_mem_blocksOf hfirst, ih hlater⟩

/-- The operators that compare two values of a struct, from the comparisons of its
members. -/
def operatorsText (name : String) (comparisons : List String) : String :=
  String.join ["\n    bool operator==( ", name,
    " const & rhs ) const VULKAN_HPP_NOEXCEPT\n    \x7b\n      return ",
    "\n          && ".intercalate comparisons,
    ";\n    \x7d\n\n    bool operator!=( ", name,
    " const & rhs ) const VULKAN_HPP_NOEXCEPT
    \x7b
      return !operator==( rhs );
    \x7d
"]

theorem compareOperators_eq (registry : Registry) (name : String)
    (members : List Member) :
    compareOperators registry name members =
      .ok (operatorsText name (members.map (comparison registry))) := by
  have hfits : compareFrame.Fits ["name", "compareMembers"] := by decide
  exact mapError_eq_ok_iff.2 (Template.fill_of_fits hfits)

/-- A block of a struct is its frame, filled with its operators and the lines of its
members. -/
theorem exists_of_structBlock {config : Config} {entry : TypeEntry}
    {members : List Member} {block : Block}
    (hrun : structBlock config registry entry members = .ok block) :
    ∃ lines text, members.mapM (memberLine config registry) = .ok lines ∧
      structFrame.fill
        [("structureType", declaredName config entry.name),
          ("nativeType", entry.name),
          ("compareOperators", operatorsText (declaredName config entry.name)
            (members.map (comparison registry))),
          ("members", String.join lines)] = .ok text ∧
      block = ⟨entry.name, declaredName config entry.name, text⟩ := by
  unfold structBlock at hrun
  obtain ⟨compare, hcompare, hrun⟩ := bind_eq_ok_iff.1 hrun
  rw [compareOperators_eq] at hcompare
  obtain rfl := Except.ok.inj hcompare
  obtain ⟨lines, hlines, hrun⟩ := bind_eq_ok_iff.1 hrun
  obtain ⟨text, htext, hrun⟩ := bind_eq_ok_iff.1 hrun
  rw [orFail_eq_ok_iff] at hlines
  rw [mapError_eq_ok_iff] at htext
  exact ⟨lines, text, hlines, htext, (pure_eq_ok_iff.1 hrun).symm⟩

/-- The block of a struct carries its operators and then the lines of its members. -/
theorem structBlock_carries {config : Config} {entry : TypeEntry}
    {members : List Member} {block : Block}
    (hrun : structBlock config registry entry members = .ok block) :
    ∃ lines, members.mapM (memberLine config registry) = .ok lines ∧
      Carries block.text
        (operatorsText block.name (members.map (comparison registry)) :: lines) := by
  obtain ⟨lines, text, hlines, htext, rfl⟩ := exists_of_structBlock hrun
  refine ⟨lines, hlines, ?_⟩
  have hjoin : Carries (String.join lines) lines := by
    have hself := @Carries.join _ lines id (fun line => [line])
      fun line _ => Carries.self line
    simpa using hself
  let operators := operatorsText (declaredName config entry.name)
    (members.map (comparison registry))
  let pieces : String → List String := fun name =>
    if name = "compareOperators" then [operators]
    else if name = "members" then lines else []
  have hslots : structFrame.filterMap Template.slot? =
      ["structureType", "nativeType", "nativeType", "nativeType", "nativeType",
        "nativeType", "compareOperators", "members"] := rfl
  have hcarries := Template.carries_of_fill pieces ?_ htext
  · rw [hslots] at hcarries
    simpa [pieces] using hcarries
  · intro name _
    by_cases hname : name = "compareOperators"
    · simpa [pieces, hname, Template.fillSegment] using Carries.self operators
    by_cases hname' : name = "members"
    · simpa [pieces, hname', Template.fillSegment] using hjoin
    · simpa [pieces, hname, hname'] using Carries.nil _

theorem structBlock_source {config : Config} {entry : TypeEntry}
    {members : List Member} {block : Block}
    (hrun : structBlock config registry entry members = .ok block) :
    block.source = entry.name := by
  obtain ⟨lines, text, -, -, rfl⟩ := exists_of_structBlock hrun
  rfl

theorem bearsSource_structBlock? (config : Config) (registry : Registry) :
    BearsSource (structBlock? config registry) := by
  intro entry block hblock
  obtain ⟨members, -, hrun⟩ := Option.map_eq_some_iff.1 hblock
  exact structBlock_source hrun

/-- Exactly the structs give blocks of structs. -/
theorem isSome_structBlockFor? (config : Config) (name : String) :
    (blockFor? registry (structBlock? config registry) name).isSome =
      registry.isStruct name := by
  rw [Bool.eq_iff_iff, Registry.isStruct_iff_exists_members,
    Option.isSome_iff_exists]
  constructor
  · rintro ⟨result, hresult⟩
    obtain ⟨entry, hfind, hblock⟩ := Option.bind_eq_some_iff.1 hresult
    obtain ⟨members, hmembers, -⟩ := Option.map_eq_some_iff.1 hblock
    exact ⟨entry, members, hfind, hmembers⟩
  · rintro ⟨entry, members, hfind, hmembers⟩
    exact ⟨structBlock config registry entry members,
      by simp [blockFor?, structBlock?, hfind, hmembers]⟩

end Header

end VideoRegistry
