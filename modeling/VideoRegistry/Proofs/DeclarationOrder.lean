import VideoRegistry.Proofs.Accepted
import VideoRegistry.Proofs.Emission
import VideoRegistry.Proofs.EmissionFaults

/-!
# The order of the struct blocks

The structs of a header stand in the lists of the extensions, one list behind the
other.  A struct has one place there, and the structs that it uses come before
it: in the same list because the list is ordered, in another list because an
extension only depends on earlier ones.  Only a struct that leads back to its user
may come later.
-/

namespace VideoRegistry

namespace Registry

variable {read closed registry : Registry} {user used name : String}

/-- The structs of a registry in the order in which the header has them. -/
def emitted (registry : Registry) : List String :=
  (registry.extensions.flatMap Extension.types).filter registry.isStruct

theorem mem_emitted_iff : name ∈ registry.emitted ↔
    registry.isStruct name ∧ ∃ position, name ∈ registry.listOf position :=
  mem_filter_types_iff

/-- What stands before an entry of a list in the header: the structs of the
earlier lists and those in front of it in its own. -/
theorem emitted_split {position : Nat} {extension : Extension}
    {front back : List String}
    (hextension : registry.extensions[position]? = some extension)
    (hsplit : extension.types = front ++ user :: back)
    (huser : registry.isStruct user) :
    ∃ later, registry.emitted =
      (((registry.extensions.take position).flatMap Extension.types) ++
        front).filter registry.isStruct ++ user :: later := by
  obtain ⟨hlt, hat⟩ := List.getElem?_eq_some_iff.1 hextension
  have hextensions : registry.extensions = registry.extensions.take position ++
      extension :: registry.extensions.drop (position + 1) := by
    rw [← hat, List.getElem_cons_drop, List.take_append_drop]
  refine ⟨(back ++ (registry.extensions.drop (position + 1)).flatMap
    Extension.types).filter registry.isStruct, ?_⟩
  calc registry.emitted
      = ((registry.extensions.take position ++
          extension :: registry.extensions.drop (position + 1)).flatMap
            Extension.types).filter registry.isStruct := by
        rw [emitted, ← hextensions]
    _ = _ := by
        rw [List.flatMap_append, List.flatMap_cons, hsplit]
        simp [List.filter_append, huser]

namespace Accepts

theorem nodup_emitted (haccepts : read.Accepts closed registry) :
    (registry.emitted).Nodup := by
  rw [emitted, nodup_filter_types_iff haccepts.listsDistinct]
  intro name hstruct position other hlisted hother
  obtain ⟨owner, howner⟩ := haccepts.existsUnique_mem_listOf hstruct
  rw [howner] at hlisted hother
  exact hlisted.trans hother.symm

theorem mem_emitted {entry : TypeEntry} {members : List Member}
    (haccepts : read.Accepts closed registry)
    (hentry : (entry, members) ∈ registry.structs) :
    entry.name ∈ registry.emitted := by
  obtain ⟨hdeclared, hmembers⟩ := mem_structs_iff.1 hentry
  have hfind := find?_eq_some_of_mem haccepts.namesDistinct hdeclared
  have hstruct : registry.isStruct entry.name :=
    isStruct_iff_exists_members.2 ⟨entry, members, hfind, hmembers⟩
  obtain ⟨position, hposition⟩ := haccepts.existsUnique_mem_listOf hstruct
  exact mem_emitted_iff.2 ⟨hstruct, position, (hposition position).2 rfl⟩

/-- A used struct comes before its user, unless it leads back to it. -/
theorem before_emitted (haccepts : read.Accepts closed registry)
    (huses : registry.Uses user used) (hne : used ≠ user)
    (hback : ¬ registry.Reaches used user) :
    Before used user (registry.emitted) := by
  obtain ⟨position, hposition⟩ :=
    haccepts.existsUnique_mem_listOf huses.isStruct_user
  have huser : user ∈ registry.listOf position := (hposition position).2 rfl
  obtain ⟨extension, hextension, hlisted⟩ := mem_listOf_iff.1 huser
  obtain ⟨front, back, hsplit⟩ := List.append_of_mem hlisted
  obtain ⟨later, hemitted⟩ :=
    emitted_split hextension hsplit huses.isStruct_user
  have hnodup := haccepts.nodup_emitted
  rw [hemitted] at hnodup ⊢
  rw [before_split (notMem_of_nodup_append hnodup), List.mem_filter,
    List.mem_append]
  refine ⟨?_, huses.isStruct_used⟩
  rcases haccepts.isClosed position user used huser huses with
    hused | ⟨provider, hprovider, hused⟩
  · have harranges := haccepts.orders.arranges position
    have husesClosed : closed.Uses user used := haccepts.uses_eq ▸ huses
    have hbackClosed : ¬ closed.Reaches used user := by
      rwa [Reaches, ← haccepts.uses_eq]
    have hbefore := (harranges.before_or_reaches huser hused husesClosed
      hne).resolve_right hbackClosed
    have hdistinct := harranges.nodup
    rw [listOf_eq hextension, hsplit] at hbefore hdistinct
    rw [before_split (notMem_of_nodup_append hdistinct)] at hbefore
    exact Or.inr hbefore
  · left
    obtain ⟨other, hother, hlistedOther⟩ := mem_listOf_iff.1 hused
    have htake : (registry.extensions.take position)[provider]? = some other := by
      rw [List.getElem?_take_of_lt (haccepts.provider_lt hprovider), hother]
    exact List.mem_flatMap.2 ⟨other, List.mem_of_getElem? htake, hlistedOther⟩

end Accepts

end Registry

open Registry

theorem generateFrom_eq_ok_iff {config : Config} {document : Xml.Document}
    {text : String} :
    generateFrom config document = .ok text ↔
      ∃ registry header, Registry.ofDocument config document = .ok registry ∧
        Header.ofRegistry config registry = .ok header ∧
          header.render config registry.copyright = .ok text := by
  simp only [generateFrom, Registry.emit, bind_eq_ok_iff, mapError_eq_ok_iff,
    exists_and_left]

theorem exists_generateFrom {config : Config} {document : Xml.Document}
    {registry : Registry}
    (hdocument : Registry.ofDocument config document = .ok registry)
    (hfaults : Header.emissionFaults config registry = []) :
    ∃ text header, generateFrom config document = .ok text ∧
      Header.ofRegistry config registry = .ok header ∧
        header.render config registry.copyright = .ok text := by
  obtain ⟨text, htext⟩ := exists_emit hfaults
  obtain ⟨header, hheader, hrender⟩ := bind_eq_ok_iff.1 htext
  rw [mapError_eq_ok_iff] at hrender
  have hrun : generateFrom config document = .ok text :=
    generateFrom_eq_ok_iff.2 ⟨registry, header, hdocument, hheader, hrender⟩
  exact ⟨text, header, hrun, hheader, hrender⟩

/-- The struct blocks of a header are those of the structs, list after list. -/
theorem Header.ofRegistry_structs {config : Config} {registry : Registry}
    {header : Header} (hrun : Header.ofRegistry config registry = .ok header) :
    header.structs.map HeaderSection.extension =
        registry.extensions.map Extension.name ∧
      (blocksIn header.structs).map Block.source = registry.emitted ∧
      ∀ entry members, registry.find? entry.name = some entry →
        entry.members? = some members → entry.name ∈ registry.emitted →
          ∃ block ∈ blocksIn header.structs, block.source = entry.name ∧
            structBlock config registry entry members = .ok block := by
  obtain ⟨enums, -, hsections⟩ := bind_eq_ok_iff.1 hrun
  obtain ⟨structs, hstructs, hpure⟩ := bind_eq_ok_iff.1 hsections
  obtain rfl := pure_eq_ok_iff.1 hpure
  obtain ⟨hnames, hsources, hblocks⟩ :=
    sectionsOf_spec (bearsSource_structBlock? config registry) hstructs
  simp only [isSome_structBlockFor?] at hsources
  refine ⟨hnames, hsources, ?_⟩
  intro entry members hfind hmembers hemitted
  have hblock : blockFor? registry (structBlock? config registry) entry.name =
      some (structBlock config registry entry members) := by
    simp [blockFor?, structBlock?, hfind, hmembers]
  obtain ⟨block, hin, hok⟩ :=
    hblocks entry.name (List.mem_filter.1 hemitted).1 _ hblock
  exact ⟨block, hin, structBlock_source hok, hok⟩

end VideoRegistry
