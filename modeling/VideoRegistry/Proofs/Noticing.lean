import VideoRegistry.Proofs.Agreement
import VideoRegistry.Registry.Reader

/-!
# Reading on with more warnings

What was noticed earlier has no part in how the rest of a document is read: no
reader looks at the warnings, and every reader only puts more behind them.  So
from a registry with some more warnings, the same element gives the same registry
with the same warnings more, or is refused in the same way.
-/

namespace VideoRegistry

open Xml (Element)

variable {extra : List Warning}

/-- The second list is the first one with some warnings more at one place. -/
def Adds (extra warnings others : List Warning) : Prop :=
  ∃ front back, warnings = front ++ back ∧ others = front ++ extra ++ back

namespace Adds

variable {warnings others : List Warning}

theorem append (hadds : Adds extra warnings others) (more : List Warning) :
    Adds extra (warnings ++ more) (others ++ more) := by
  obtain ⟨front, back, rfl, rfl⟩ := hadds
  exact ⟨front, back ++ more, by simp, by simp⟩

theorem prepend (hadds : Adds extra warnings others) (more : List Warning) :
    Adds extra (more ++ warnings) (more ++ others) := by
  obtain ⟨front, back, rfl, rfl⟩ := hadds
  exact ⟨more ++ front, back, by simp, by simp⟩

end Adds

/-- Two results with warnings are the same, but for more warnings in the second
one. -/
def AddsBeside {α : Type} (extra : List Warning)
    (result other : α × List Warning) : Prop :=
  other.1 = result.1 ∧ Adds extra result.2 other.2

/-- The second registry is the first one with some warnings more at one place. -/
def Registry.Notices (extra : List Warning) (registry other : Registry) : Prop :=
  ∃ warnings, Adds extra registry.warnings warnings ∧
    other = { registry with warnings := warnings }

namespace Registry.Notices

variable {registry other : Registry}

theorem warn (hnotices : registry.Notices extra other)
    (warnings : List Warning) :
    (registry.warn warnings).Notices extra (other.warn warnings) := by
  obtain ⟨found, hadds, rfl⟩ := hnotices
  exact ⟨found ++ warnings, hadds.append warnings, rfl⟩

theorem of_adds (registry : Registry) {warnings others : List Warning}
    (hadds : Adds extra warnings others) :
    (registry.warn warnings).Notices extra (registry.warn others) :=
  ⟨registry.warnings ++ others, hadds.prepend registry.warnings, rfl⟩

theorem find?_eq (hnotices : registry.Notices extra other) :
    other.find? = registry.find? := by
  obtain ⟨found, -, rfl⟩ := hnotices
  rfl

theorem declares_eq (hnotices : registry.Notices extra other) :
    other.declares = registry.declares := by
  obtain ⟨found, -, rfl⟩ := hnotices
  rfl

theorem hasCategory_eq (hnotices : registry.Notices extra other) :
    other.hasCategory = registry.hasCategory := by
  obtain ⟨found, -, rfl⟩ := hnotices
  rfl

theorem extensionPosition?_eq (hnotices : registry.Notices extra other) :
    other.extensionPosition? = registry.extensionPosition? := by
  obtain ⟨found, -, rfl⟩ := hnotices
  rfl

theorem declare (hnotices : registry.Notices extra other) (name : String)
    (line : Nat) (definition : Definition) (kind : Declared) :
    Agree (Registry.Notices extra) (registry.declare name line definition kind)
      (other.declare name line definition kind) := by
  rw [Registry.declare, Registry.declare, declare?, declare?,
    hnotices.declares_eq]
  obtain ⟨found, hadds, rfl⟩ := hnotices
  cases registry.declares name with
  | true => exact .error _ _
  | false => exact .ok ⟨found, hadds, rfl⟩

theorem fillEnum (hnotices : registry.Notices extra other) (name : String)
    (values : List EnumValue) :
    (registry.fillEnum name values).Notices extra
      (other.fillEnum name values) := by
  obtain ⟨found, hadds, rfl⟩ := hnotices
  exact ⟨found, hadds, rfl⟩

end Registry.Notices

/-! ## Members and values -/

theorem readMembers_addsBeside {warnings others : List Warning}
    (hadds : Adds extra warnings others) (members : List Member)
    (elements : List Element) :
    Agree (AddsBeside extra) (readMembers members warnings elements)
      (readMembers members others elements) := by
  induction elements generalizing members warnings others with
  | nil => exact .ok ⟨rfl, hadds⟩
  | cons element rest ih =>
      rw [readMembers, readMembers]
      apply Agree.rfl.bind_same
      rintro ⟨member, noticed⟩
      exact ih (hadds.append noticed) (members ++ [member])

theorem readValues_addsBeside {warnings others : List Warning}
    (hadds : Adds extra warnings others) (enumName : String)
    (values : List EnumValue) (elements : List Element) :
    Agree (AddsBeside extra) (readValues enumName values warnings elements)
      (readValues enumName values others elements) := by
  induction elements generalizing values warnings others with
  | nil => exact .ok ⟨rfl, hadds⟩
  | cons element rest ih =>
      rw [readValues, readValues]
      apply Agree.rfl.bind_same
      rintro ⟨value, noticed⟩
      exact ih (hadds.append noticed) (values ++ [value])

namespace Registry.Notices

variable {registry other : Registry}

/-! ## Types -/

theorem readDefine_agree (hnotices : registry.Notices extra other)
    (element : Element) :
    Agree (Registry.Notices extra) (readDefine registry element)
      (readDefine other element) := by
  rw [readDefine, readDefine, hnotices.hasCategory_eq]
  apply Agree.rfl.bind_same
  rintro ⟨attributes, warnings⟩
  apply Agree.rfl.bind_same
  intro _
  apply Agree.rfl.bind_same
  intro _
  exact (hnotices.warn warnings).declare _ _ _ _

theorem readEnumType_agree (hnotices : registry.Notices extra other)
    (element : Element) :
    Agree (Registry.Notices extra) (readEnumType registry element)
      (readEnumType other element) := by
  apply Agree.rfl.bind_same
  rintro ⟨attributes, warnings⟩
  exact (hnotices.warn warnings).declare _ _ _ _

theorem readInclusion_agree (hnotices : registry.Notices extra other)
    (element : Element) :
    Agree (Registry.Notices extra) (readInclusion registry element)
      (readInclusion other element) := by
  apply Agree.rfl.bind_same
  rintro ⟨attributes, warnings⟩
  exact (hnotices.warn warnings).declare _ _ _ _

theorem readExternal_agree (hnotices : registry.Notices extra other)
    (element : Element) :
    Agree (Registry.Notices extra) (readExternal registry element)
      (readExternal other element) := by
  rw [readExternal, readExternal, hnotices.hasCategory_eq]
  apply Agree.rfl.bind_same
  rintro ⟨attributes, warnings⟩
  apply Agree.rfl.bind_same
  intro _
  exact (hnotices.warn warnings).declare _ _ _ _

theorem readStruct_agree (hnotices : registry.Notices extra other)
    (element : Element) :
    Agree (Registry.Notices extra) (readStruct registry element)
      (readStruct other element) := by
  rw [readStruct, readStruct, hnotices.declares_eq]
  apply Agree.rfl.bind_same
  rintro ⟨attributes, warnings⟩
  apply Agree.rfl.bind_same
  intro _
  apply Agree.rfl.bind_same
  intro _
  apply Agree.rfl.bind_same
  rintro ⟨members, warnings⟩
  exact (hnotices.warn warnings).declare _ _ _ _

theorem readType_agree (hnotices : registry.Notices extra other)
    (element : Element) :
    Agree (Registry.Notices extra) (readType registry element)
      (readType other element) := by
  rw [readType, readType]
  apply Agree.rfl.bind_same
  intro attributes
  split
  · exact hnotices.readDefine_agree element
  · exact hnotices.readEnumType_agree element
  · exact hnotices.readInclusion_agree element
  · exact hnotices.readStruct_agree element
  · exact .error _ _
  · split
    · exact hnotices.readExternal_agree element
    · apply Agree.rfl.bind_same
      intro _
      exact hnotices.declare _ _ _ _

theorem readTypes_agree (hnotices : registry.Notices extra other)
    (element : Element) :
    Agree (Registry.Notices extra) (readTypes registry element)
      (readTypes other element) := by
  apply Agree.rfl.bind_same
  rintro ⟨attributes, warnings⟩
  exact Agree.foldlM_same (fun _ _ hbefore => hbefore.readType_agree) _
    (hnotices.warn warnings)

theorem readEnums_agree (hnotices : registry.Notices extra other)
    (element : Element) :
    Agree (Registry.Notices extra) (readEnums registry element)
      (readEnums other element) := by
  rw [readEnums, readEnums, hnotices.find?_eq]
  apply Agree.rfl.bind_same
  rintro ⟨attributes, warnings⟩
  dsimp only
  split
  · exact .error _ _
  · apply Agree.rfl.bind_same
    intro _
    apply Agree.rfl.bind_same
    rintro ⟨values, warnings⟩
    exact .ok ((hnotices.warn warnings).fillEnum _ values)

end Registry.Notices

/-! ## Extensions -/

/-- The state in which an extension is read, and the same one with more
warnings. -/
def NoticesBeside (extra : List Warning) (state other : Registry × Extension) :
    Prop :=
  state.1.Notices extra other.1 ∧ other.2 = state.2

namespace Registry.Notices

variable {registry other : Registry}

theorem readConstant_agree (hnotices : registry.Notices extra other)
    (extension : Extension) (element : Element) :
    Agree (NoticesBeside extra) (readConstant registry extension element)
      (readConstant other extension element) := by
  rw [readConstant, readConstant]
  apply Agree.rfl.bind_same
  intro attributes
  apply Agree.rfl.bind_same
  intro warnings
  have hwarned :=
    hnotices.warn (unknownElements element.elements [] [] ++ warnings)
  dsimp only
  split
  · exact .ok ⟨hwarned, rfl⟩
  · apply Agree.rfl.bind_same
    intro _
    apply Agree.rfl.bind_same
    intro _
    exact .ok ⟨hwarned, rfl⟩

theorem add_owner (hnotices : registry.Notices extra other) (name : String) :
    Registry.Notices extra
      { registry with
        ownership := registry.ownership.add name registry.extensions.length }
      { other with
        ownership := other.ownership.add name other.extensions.length } := by
  obtain ⟨found, hadds, rfl⟩ := hnotices
  exact ⟨found, hadds, rfl⟩

theorem readRequiredType_agree (hnotices : registry.Notices extra other)
    (config : Config) (extension : Extension) (element : Element) :
    Agree (NoticesBeside extra)
      (readRequiredType config registry extension element)
      (readRequiredType config other extension element) := by
  rw [readRequiredType, readRequiredType]
  apply Agree.rfl.bind_same
  rintro ⟨attributes, warnings⟩
  have hwarned := hnotices.warn warnings
  dsimp only
  rw [hwarned.extensionPosition?_eq, hwarned.declares_eq]
  split
  · apply Agree.rfl.bind_same
    intro _
    split
    · exact .error _ _
    · exact .ok ⟨hwarned, rfl⟩
  · apply Agree.rfl.bind_same
    intro _
    apply Agree.rfl.bind_same
    intro _
    exact .ok ⟨hwarned.add_owner _, rfl⟩

end Registry.Notices

namespace NoticesBeside

variable {state other : Registry × Extension}

theorem readRequirement_agree (hnotices : NoticesBeside extra state other)
    (config : Config) (element : Element) :
    Agree (NoticesBeside extra) (readRequirement config state element)
      (readRequirement config other element) := by
  obtain ⟨registry, extension⟩ := state
  obtain ⟨registry', extension'⟩ := other
  obtain ⟨hregistry, rfl⟩ := hnotices
  rw [readRequirement, readRequirement]
  split
  · exact hregistry.readConstant_agree _ element
  split
  · exact hregistry.readRequiredType_agree config _ element
  · exact .ok ⟨hregistry, rfl⟩

theorem readRequire_agree (hnotices : NoticesBeside extra state other)
    (config : Config) (element : Element) :
    Agree (NoticesBeside extra) (readRequire config state element)
      (readRequire config other element) := by
  obtain ⟨hregistry, hextension⟩ := hnotices
  rw [readRequire, readRequire, hextension]
  apply Agree.rfl.bind_same
  rintro ⟨attributes, warnings⟩
  exact Agree.foldlM_same
    (fun _ _ hbefore => hbefore.readRequirement_agree config) _
    ⟨hregistry.warn warnings, rfl⟩

end NoticesBeside

/-- Whatever was noticed, the extension that was read is added at the end. -/
theorem addExtension_agree {first second : Checked (Registry × Extension)}
    (hagree : Agree (NoticesBeside extra) first second) :
    Agree (Registry.Notices extra)
      (first >>= fun (registry, extension) => pure
        { registry with extensions := registry.extensions ++ [extension] })
      (second >>= fun (registry, extension) => pure
        { registry with extensions := registry.extensions ++ [extension] }) := by
  apply hagree.bind
  rintro ⟨registry, extension⟩ ⟨registry', extension'⟩ ⟨hnotices, hextension⟩
  obtain rfl : extension' = extension := hextension
  obtain ⟨found, hadds, rfl⟩ := hnotices
  exact .ok ⟨found, hadds, rfl⟩

namespace Registry.Notices

variable {registry other : Registry}

theorem readExtension_agree (hnotices : registry.Notices extra other)
    (config : Config) (element : Element) :
    Agree (Registry.Notices extra) (readExtension config registry element)
      (readExtension config other element) := by
  rw [readExtension, readExtension, hnotices.extensionPosition?_eq]
  apply Agree.rfl.bind_same
  rintro ⟨attributes, warnings⟩
  apply Agree.rfl.bind_same
  intro _
  apply Agree.rfl.bind_same
  intro _
  have hstart (extension : Extension) : NoticesBeside extra
      (registry.warn warnings, extension) (other.warn warnings, extension) :=
    ⟨hnotices.warn warnings, rfl⟩
  exact addExtension_agree (Agree.foldlM_same
    (fun _ _ hbefore => hbefore.readRequire_agree config) _ (hstart _))

theorem readExtensions_agree (hnotices : registry.Notices extra other)
    (config : Config) (element : Element) :
    Agree (Registry.Notices extra) (readExtensions config registry element)
      (readExtensions config other element) := by
  apply Agree.rfl.bind_same
  rintro ⟨attributes, warnings⟩
  exact Agree.foldlM_same
    (fun _ _ hbefore => hbefore.readExtension_agree config) _
    (hnotices.warn warnings)

/-! ## Sections -/

theorem copyright (hnotices : registry.Notices extra other) (copyright : String) :
    Registry.Notices extra { registry with copyright := copyright }
      { other with copyright := copyright } := by
  obtain ⟨found, hadds, rfl⟩ := hnotices
  exact ⟨found, hadds, rfl⟩

theorem readSection_agree (hnotices : registry.Notices extra other)
    (config : Config) (element : Element) :
    Agree (Registry.Notices extra) (readSection config registry element)
      (readSection config other element) := by
  rw [readSection, readSection]
  split
  · apply Agree.rfl.bind_same
    rintro ⟨comment, warnings⟩
    dsimp only
    split
    · exact .ok ((hnotices.warn warnings).copyright _)
    · exact .ok (hnotices.warn warnings)
  · exact hnotices.readEnums_agree element
  · exact hnotices.readExtensions_agree config element
  · exact hnotices.readTypes_agree element
  · exact .ok hnotices

end Registry.Notices

end VideoRegistry
