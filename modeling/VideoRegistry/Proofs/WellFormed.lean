import VideoRegistry.Proofs.PlainDocument
import VideoRegistry.Proofs.WellRead

/-!
# Well-formed registries

What the passes and the emitter take for granted of a registry that was read: its
names are distinct, what an entry refers to is there and of the right kind, and
members, values and constants have been checked.  An entry that is added refers to
earlier ones only, and an enum that is filled stays an enum, so no later change
breaks what was checked of an entry before.
-/

namespace VideoRegistry

namespace Registry

variable {registry after : Registry} {name : String} {category : Category}

/-- What an entry promises, in a registry that holds what it refers to. -/
def Keeps (registry : Registry) (entry : TypeEntry) : Prop :=
  match entry.definition with
  | .enum values => ValuesSound entry.name values
  | definition => registry.Admits definition

/-- Every entry and every extension is as it was checked. -/
structure Sound (registry : Registry) : Prop where
  entries : ∀ entry ∈ registry.types, registry.Keeps entry
  extensionsDistinct : (registry.extensions.map Extension.name).Nodup
  listed : ∀ extension ∈ registry.extensions, ∀ name ∈ extension.types,
    registry.declares name
  constants : ∀ extension ∈ registry.extensions,
    ∀ entry ∈ extension.constants.entries, Literal.isNumber entry.2.value

/-- No change takes a declared type away or gives it another category. -/
def Extends (after registry : Registry) : Prop :=
  ∀ name category, registry.hasCategory name category →
    after.hasCategory name category

theorem declares_iff_exists_hasCategory :
    registry.declares name ↔ ∃ category, registry.hasCategory name category := by
  cases hfind : registry.find? name <;>
    simp [declares_eq_isSome, hasCategory, hfind]

theorem Extends.of_types_eq (htypes : after.types = registry.types) :
    after.Extends registry := by
  intro name category hcategory
  rwa [hasCategory, find?_congr htypes]

theorem Extends.declares (hextends : after.Extends registry)
    (hdeclares : registry.declares name) : after.declares name := by
  rw [declares_iff_exists_hasCategory] at hdeclares ⊢
  obtain ⟨category, hcategory⟩ := hdeclares
  exact ⟨category, hextends name category hcategory⟩

theorem Extends.admits {definition : Definition}
    (hextends : after.Extends registry) (hadmits : registry.Admits definition) :
    after.Admits definition := by
  cases definition with
  | define requires =>
      exact fun required hrequired =>
        hextends required .define (hadmits required hrequired)
  | external required => exact hextends required .inclusion hadmits
  | _ => exact hadmits

theorem Extends.keeps {entry : TypeEntry} (hextends : after.Extends registry)
    (hkeeps : registry.Keeps entry) : after.Keeps entry := by
  unfold Keeps at hkeeps ⊢
  split at hkeeps
  · exact hkeeps
  · exact hextends.admits hkeeps

/-- Only types, extensions and what the entries refer to matter. -/
theorem Sound.congr (hsound : registry.Sound)
    (htypes : after.types = registry.types)
    (hextensions : after.extensions = registry.extensions) : after.Sound := by
  have hextends := Extends.of_types_eq htypes
  constructor
  · rw [htypes]
    exact fun entry hentry => hextends.keeps (hsound.entries entry hentry)
  · rw [hextensions]
    exact hsound.extensionsDistinct
  · rw [hextensions]
    exact fun extension hextension name hname =>
      hextends.declares (hsound.listed extension hextension name hname)
  · rw [hextensions]
    exact hsound.constants

/-- The registry with one more declared type. -/
def adding (registry : Registry) (entry : TypeEntry) : Registry :=
  { registry with types := registry.types ++ [entry] }

theorem find?_adding (registry : Registry) (entry : TypeEntry) (name : String) :
    (registry.adding entry).find? name =
      (registry.find? name).or (if entry.name = name then some entry else none) := by
  simp only [find?_eq, adding, List.find?_append, List.find?_singleton,
    decide_eq_true_eq]

theorem adding_extends (registry : Registry) (entry : TypeEntry) :
    (registry.adding entry).Extends registry := by
  intro name category hcategory
  obtain ⟨found, hfound, hmatches⟩ := Option.any_eq_true _ _ |>.1 hcategory
  rw [hasCategory, find?_adding, hfound]
  exact hmatches

theorem Sound.adding {entry : TypeEntry} (hsound : registry.Sound)
    (hadmits : registry.Keeps entry) : (registry.adding entry).Sound where
  entries := by
    have hextends := registry.adding_extends entry
    exact List.forall_mem_append.2
      ⟨fun other hother => hextends.keeps (hsound.entries other hother),
        List.forall_mem_singleton.2 (hextends.keeps hadmits)⟩
  extensionsDistinct := hsound.extensionsDistinct
  listed extension hextension name hname :=
    (registry.adding_extends entry).declares
      (hsound.listed extension hextension name hname)
  constants := hsound.constants

/-- An entry with the given values, if it has the given name. -/
def filled (name : String) (values : List EnumValue) (entry : TypeEntry) :
    TypeEntry :=
  if entry.name = name then { entry with definition := .enum values } else entry

@[simp]
theorem name_filled (values : List EnumValue) (entry : TypeEntry) :
    (filled name values entry).name = entry.name := by
  unfold filled
  split <;> rfl

theorem find?_fillEnum (registry : Registry) (name : String)
    (values : List EnumValue) (other : String) :
    (registry.fillEnum name values).find? other =
      (registry.find? other).map (filled name values) := by
  have hname : ∀ entry, decide ((filled name values entry).name = other) =
      decide (entry.name = other) := by simp
  rw [find?_eq, find?_eq]
  change ((registry.types.map (filled name values)).find? _) = _
  rw [List.find?_map]
  simp only [Function.comp_def, hname]

/-- An enum that is filled was one before. -/
theorem fillEnum_extends {values : List EnumValue}
    (hempty : (registry.find? name).bind TypeEntry.values? = some []) :
    (registry.fillEnum name values).Extends registry := by
  intro other category hcategory
  obtain ⟨found, hfound, hmatches⟩ := Option.any_eq_true _ _ |>.1 hcategory
  rw [hasCategory, find?_fillEnum, hfound, Option.map_some, Option.any_some]
  by_cases hname : found.name = name
  · obtain rfl : other = name := (find?_name hfound).symm.trans hname
    rw [hfound, Option.bind_some] at hempty
    cases hdefinition : found.definition with
    | enum earlier =>
        simpa [filled, hname, TypeEntry.category, hdefinition,
          Definition.category] using hmatches
    | _ => simp [TypeEntry.values?, hdefinition] at hempty
  · rwa [filled, if_neg hname]

theorem Sound.fillEnum {values : List EnumValue} (hsound : registry.Sound)
    (hempty : (registry.find? name).bind TypeEntry.values? = some [])
    (hvalues : ValuesSound name values) :
    (registry.fillEnum name values).Sound where
  entries := by
    refine List.forall_mem_map.2 fun entry hentry => ?_
    have hextends := @fillEnum_extends _ _ values hempty
    split
    · next hname => exact hname ▸ hvalues
    · exact hextends.keeps (hsound.entries entry hentry)
  extensionsDistinct := hsound.extensionsDistinct
  listed extension hextension name hname :=
    (fillEnum_extends hempty).declares
      (hsound.listed extension hextension name hname)
  constants := hsound.constants

theorem Sound.extend {extension : Extension} (hsound : registry.Sound)
    (hnew : registry.extensionPosition? extension.name = none)
    (hadmits : registry.AdmitsLists extension) :
    (registry.extend extension).Sound where
  entries := hsound.entries
  extensionsDistinct := by
    have hother : ∀ other ∈ registry.extensions, other.name ≠ extension.name := by
      simpa [extensionPosition?] using hnew
    change ((registry.extensions ++ [extension]).map Extension.name).Nodup
    rw [List.map_append]
    refine List.nodup_append_comm.1
      (List.nodup_cons.2 ⟨?_, hsound.extensionsDistinct⟩)
    simpa using hother
  listed := List.forall_mem_append.2
    ⟨hsound.listed, List.forall_mem_singleton.2 hadmits.declared⟩
  constants := List.forall_mem_append.2
    ⟨hsound.constants, List.forall_mem_singleton.2 hadmits.literal⟩

theorem Admits.keeps {entry : TypeEntry}
    (hadmits : registry.Admits entry.definition) : registry.Keeps entry := by
  unfold Keeps
  split
  · next values hdefinition =>
      rw [hdefinition] at hadmits
      obtain rfl : values = [] := hadmits
      exact ⟨List.nodup_nil, by simp, by simp⟩
  · exact hadmits

theorem ReadStep.extends (hstep : ReadStep registry after) :
    after.Extends registry := by
  cases hstep with
  | warn warnings => exact .of_types_eq rfl
  | copyright comment _ => exact .of_types_eq rfl
  | declare entry _ _ => exact adding_extends registry entry
  | fill name values hempty _ => exact fillEnum_extends hempty
  | extend extension _ _ => exact .of_types_eq rfl

/-- Reading takes no declared type away. -/
theorem Reading.declares (hreading : Reading registry after)
    (hdeclares : registry.declares name) : after.declares name := by
  induction hreading with
  | refl => exact hdeclares
  | tail _ hstep ih => exact hstep.extends.declares ih

theorem ReadStep.sound (hstep : ReadStep registry after)
    (hsound : registry.Sound) : after.Sound := by
  cases hstep with
  | warn warnings => exact hsound.congr rfl rfl
  | copyright comment _ => exact hsound.congr rfl rfl
  | declare entry hnew hadmits => exact hsound.adding hadmits.keeps
  | fill name values hempty hvalues => exact hsound.fillEnum hempty hvalues
  | extend extension hnew hadmits => exact hsound.extend hnew hadmits

theorem sound_empty : Registry.Sound {} where
  entries := by simp
  extensionsDistinct := List.nodup_nil
  listed := by simp
  constants := by simp

theorem Reading.sound (hreading : Reading registry after)
    (hsound : registry.Sound) : after.Sound := by
  induction hreading with
  | refl => exact hsound
  | tail _ hstep ih => exact hstep.sound ih

/-- Where names are distinct, every type is found at its own position. -/
theorem position?_eq_some_iff {position : Nat}
    (hdistinct : (registry.types.map TypeEntry.name).Nodup) :
    registry.position? name = some position ↔
      ∃ entry, registry.types[position]? = some entry ∧ entry.name = name := by
  rw [position?, List.findIdx?_eq_some_iff_getElem]
  simp only [decide_eq_true_eq, List.getElem?_eq_some_iff]
  constructor
  · rintro ⟨hposition, hname, -⟩
    exact ⟨_, ⟨hposition, rfl⟩, hname⟩
  · rintro ⟨entry, ⟨hposition, rfl⟩, hname⟩
    refine ⟨hposition, hname, fun earlier hearlier hother => ?_⟩
    have hsame := List.inj_on_of_nodup_map hdistinct (List.getElem_mem _)
      (List.getElem_mem hposition) (hother.trans hname.symm)
    have hindex := (List.Nodup.of_map _ hdistinct).getElem_inj_iff.1 hsame
    exact Nat.ne_of_lt hearlier hindex

/-- The invariant of registries that are read. -/
structure WellFormed (registry : Registry) : Prop where
  namesDistinct : (registry.types.map TypeEntry.name).Nodup
  position : ∀ name position, registry.position? name = some position ↔
    ∃ entry, registry.types[position]? = some entry ∧ entry.name = name
  members : ∀ entry ∈ registry.types, ∀ members,
    entry.definition = .struct members → MembersSound members
  values : ∀ entry ∈ registry.types, ∀ values,
    entry.definition = .enum values → ValuesSound entry.name values
  defines : ∀ entry ∈ registry.types, ∀ required,
    entry.definition = .define (some required) →
      registry.hasCategory required .define
  externals : ∀ entry ∈ registry.types, ∀ required,
    entry.definition = .external required →
      registry.hasCategory required .inclusion
  extensionsDistinct : (registry.extensions.map Extension.name).Nodup
  providerEarlier : ∀ position provider,
    registry.provider? position = some provider → provider < position
  constants : ∀ extension ∈ registry.extensions,
    ∀ entry ∈ extension.constants.entries, Literal.isNumber entry.2.value
  listed : ∀ extension ∈ registry.extensions, ∀ name ∈ extension.types,
    registry.declares name
  copyright : registry.copyright ≠ ""

end Registry

open Registry

/-- Every registry that is read is well-formed. -/
theorem readDocument_wellFormed {config : Config} {document : Xml.Document}
    {registry : Registry} (hrun : readDocument config document = .ok registry) :
    registry.WellFormed := by
  have hread := readDocument_wellRead hrun
  have hsound := (readDocument_reading hrun).sound sound_empty
  obtain ⟨-, hcopyright⟩ := readDocument_eq_ok_iff.1 hrun
  have hkeeps : ∀ entry ∈ registry.types, ∀ definition,
      entry.definition = definition →
        registry.Keeps { entry with definition := definition } := by
    rintro entry hentry _ rfl
    exact hsound.entries entry hentry
  exact {
    namesDistinct := hread.namesDistinct
    position := fun _ _ => position?_eq_some_iff hread.namesDistinct
    members := fun entry hentry _ hdefinition => hkeeps entry hentry _ hdefinition
    values := fun entry hentry _ hdefinition => hkeeps entry hentry _ hdefinition
    defines := fun entry hentry required hdefinition =>
      hkeeps entry hentry _ hdefinition required rfl
    externals := fun entry hentry _ hdefinition =>
      hkeeps entry hentry _ hdefinition
    extensionsDistinct := hsound.extensionsDistinct
    providerEarlier := hread.providerEarlier
    constants := hsound.constants
    listed := hsound.listed
    copyright := by simpa using hcopyright }

/-- A document with a declaration of every kind and two extensions, the second of
which depends on the first and gives a constant. -/
def variedDocument : Xml.Document where
  nodes := [Plain.element "registry" []
    [Plain.element "comment" [] [.text 1 "Copyright"],
      Plain.element "types" [("comment", "")]
        [Plain.element "type" [("category", "include"), ("name", "ext.h")] [],
          Plain.element "type" [("name", "word"), ("requires", "ext.h")] [],
          Plain.element "type" [("category", "define")]
            [Plain.element "name" [] [.text 1 "MAKE"]],
          Plain.element "type" [("category", "define"), ("requires", "MAKE")]
            [Plain.element "name" [] [.text 1 "VERSION"]],
          Plain.element "type" [("category", "enum"), ("name", "SMode")] [],
          Plain.structNode ("SFrame",
            [Plain.member "SMode" "" "mode", Plain.member "word" "*" "data"])],
      Plain.element "enums" [("name", "SMode"), ("type", "enum")]
        [Plain.element "enum" [("name", "SMODE_FAST"), ("value", "0")] [],
          Plain.element "enum" [("name", "SMODE_SLOW"), ("value", "0x1")] []],
      Plain.element "extensions" []
        [Plain.extensionNode ("va", ["SMode"]),
          Plain.element "extension"
            [("name", "vb"), ("comment", ""), ("supported", "vulkan")]
            [Plain.element "require" []
              [Plain.element "enum" [("name", "SIZE"), ("value", "4")] [],
                Plain.element "type" [("name", "v/va.h")] [],
                Plain.element "type" [("name", "SFrame")] []]]]]]

def varied : Registry where
  copyright := banner "Copyright"
  types := [⟨"ext.h", 1, .inclusion⟩, ⟨"word", 1, .external "ext.h"⟩,
    ⟨"MAKE", 1, .define none⟩, ⟨"VERSION", 1, .define (some "MAKE")⟩,
    ⟨"SMode", 1, .enum [⟨"SMODE_FAST", "0", 1⟩, ⟨"SMODE_SLOW", "0x1", 1⟩]⟩,
    ⟨"SFrame", 1, .struct
      [Plain.member "SMode" "" "mode", Plain.member "word" "*" "data"]⟩]
  ownership := ⟨[("SMode", 0), ("SFrame", 1)]⟩
  extensions := [Plain.extension "va" none ["SMode"],
    { Plain.extension "vb" (some 0) ["SFrame"] with
      constants := ⟨[("SIZE", ⟨"4", 1⟩)]⟩ }]

theorem varied_wellFormed :
    readDocument Plain.brief variedDocument = .ok varied ∧ varied.WellFormed := by
  have hrun : readDocument Plain.brief variedDocument = .ok varied :=
    readDocument_eq_ok_iff.2 ⟨by decide +kernel, by decide⟩
  exact ⟨hrun, readDocument_wellFormed hrun⟩

end VideoRegistry
