import Mathlib.Data.List.Perm.Basic
import VideoRegistry.Proofs.Lists
import VideoRegistry.Proofs.MemberGraph

/-!
# Registries that are alike

Two registries are alike if they differ in line numbers, in the order in which
types are declared, and in warnings.  Types are known by name, so whatever is
looked up in the one is found in the other.

When two documents declare their structs in different orders, one registry is
some structs ahead of the other while they are read.  Up to then only a struct
is missing, so what is no struct is found in both.
-/

namespace VideoRegistry

/-! ## Without lines -/

def Member.lineless (member : Member) : Member :=
  { member with line := 0 }

def EnumValue.lineless (value : EnumValue) : EnumValue :=
  { value with line := 0 }

def Definition.lineless : Definition → Definition
  | .enum values => .enum (values.map EnumValue.lineless)
  | .struct members => .struct (members.map Member.lineless)
  | definition => definition

def TypeEntry.lineless (entry : TypeEntry) : TypeEntry :=
  { entry with line := 0, definition := entry.definition.lineless }

def Constant.lineless (constant : Constant) : Constant :=
  { constant with line := 0 }

/-- Constants without the lines they were given on. -/
def linelessConstants (constants : NameMap Constant) : NameMap Constant :=
  ⟨constants.entries.map fun entry => (entry.1, entry.2.lineless)⟩

def Extension.lineless (extension : Extension) : Extension :=
  { extension with
    line := 0
    requireLine := 0
    constants := linelessConstants extension.constants }

/-- Members that are the same without lines differ in the line alone. -/
theorem Member.exists_line_of_lineless_eq {member other : Member}
    (hsame : other.lineless = member.lineless) :
    ∃ line, other = { member with line := line } := by
  cases member
  cases other
  simp only [Member.lineless, Member.mk.injEq, and_true] at hsame
  obtain ⟨rfl, rfl, rfl, rfl⟩ := hsame
  exact ⟨_, rfl⟩

theorem EnumValue.exists_line_of_lineless_eq {value other : EnumValue}
    (hsame : other.lineless = value.lineless) :
    ∃ line, other = { value with line := line } := by
  cases value
  cases other
  simp only [EnumValue.lineless, EnumValue.mk.injEq, and_true] at hsame
  obtain ⟨rfl, rfl⟩ := hsame
  exact ⟨_, rfl⟩

@[simp]
theorem TypeEntry.name_lineless (entry : TypeEntry) :
    entry.lineless.name = entry.name := rfl

@[simp]
theorem TypeEntry.category_lineless (entry : TypeEntry) :
    entry.lineless.category = entry.category := by
  rcases entry with ⟨name, line, _ | _ | _ | _ | _ | _⟩ <;> rfl

@[simp]
theorem TypeEntry.members?_lineless (entry : TypeEntry) :
    entry.lineless.members? = entry.members?.map (List.map Member.lineless) := by
  rcases entry with ⟨name, line, _ | _ | _ | _ | _ | _⟩ <;> rfl

@[simp]
theorem TypeEntry.values?_lineless (entry : TypeEntry) :
    entry.lineless.values? = entry.values?.map (List.map EnumValue.lineless) := by
  rcases entry with ⟨name, line, _ | _ | _ | _ | _ | _⟩ <;> rfl

theorem contains_linelessConstants (constants : NameMap Constant)
    (name : String) :
    (linelessConstants constants).contains name = constants.contains name := by
  simp [linelessConstants, NameMap.contains, Function.comp_def]

theorem linelessConstants_insert (constants : NameMap Constant) (name : String)
    (constant : Constant) :
    linelessConstants (constants.insert name constant) =
      (linelessConstants constants).insert name constant.lineless := by
  simp only [linelessConstants, NameMap.insert, NameMap.mk.injEq]
  induction constants.entries with
  | nil => rfl
  | cons entry rest ih =>
      simp only [NameMap.insertEntry, List.map_cons]
      split
      · rfl
      split
      · rfl
      · rw [List.map_cons, ih]

namespace Registry

variable {registry other registry' other' : Registry} {extra : List TypeEntry}
  {name : String}

/-! ## Ahead by some structs -/

/-- But for lines, order and warnings, the other registry holds what the first
one holds, and some more structs. -/
structure Ahead (registry other : Registry) (extra : List TypeEntry) : Prop where
  types : (other.types.map TypeEntry.lineless).Perm
    ((registry.types ++ extra).map TypeEntry.lineless)
  structs : ∀ entry ∈ extra, entry.category = .struct
  distinct : (other.types.map TypeEntry.name).Nodup
  ownership : other.ownership = registry.ownership
  extensions : other.extensions.map Extension.lineless =
    registry.extensions.map Extension.lineless
  copyright : other.copyright = registry.copyright

/-- The registries differ in lines, order and warnings alone. -/
abbrev Alike (registry other : Registry) : Prop :=
  registry.Ahead other []

theorem map_name_lineless (entries : List TypeEntry) :
    (entries.map TypeEntry.lineless).map TypeEntry.name =
      entries.map TypeEntry.name := by
  rw [List.map_map]
  rfl

theorem exists_find?_of_perm {entry : TypeEntry}
    (hperm : (other.types.map TypeEntry.lineless).Perm
      (registry.types.map TypeEntry.lineless))
    (hdistinct : (other.types.map TypeEntry.name).Nodup)
    (hfind : registry.find? name = some entry) :
    ∃ found, other.find? name = some found ∧ found.lineless = entry.lineless := by
  have hmem := hperm.mem_iff.2
    (List.mem_map_of_mem (mem_types_of_find? hfind))
  obtain ⟨found, hfound, hsame⟩ := List.mem_map.1 hmem
  have hname : found.name = name := by
    rw [← found.name_lineless, hsame, entry.name_lineless, find?_name hfind]
  exact ⟨found, hname ▸ find?_eq_some_of_mem hdistinct hfound, hsame⟩

theorem distinct_of_perm
    (hperm : (other.types.map TypeEntry.lineless).Perm
      (registry.types.map TypeEntry.lineless))
    (hdistinct : (other.types.map TypeEntry.name).Nodup) :
    (registry.types.map TypeEntry.name).Nodup := by
  have hnames := hperm.map TypeEntry.name
  rw [map_name_lineless, map_name_lineless] at hnames
  exact hnames.nodup_iff.1 hdistinct

/-- The order of types with distinct names does not matter to a look-up. -/
theorem find?_of_perm
    (hperm : (other.types.map TypeEntry.lineless).Perm
      (registry.types.map TypeEntry.lineless))
    (hdistinct : (other.types.map TypeEntry.name).Nodup) (name : String) :
    (other.find? name).map TypeEntry.lineless =
      (registry.find? name).map TypeEntry.lineless := by
  cases hfind : registry.find? name with
  | some entry =>
      obtain ⟨found, hfound, hsame⟩ :=
        exists_find?_of_perm hperm hdistinct hfind
      rw [hfound, Option.map_some, Option.map_some, hsame]
  | none =>
      cases hother : other.find? name with
      | none => rfl
      | some entry =>
          obtain ⟨found, hfound, -⟩ := exists_find?_of_perm hperm.symm
            (distinct_of_perm hperm hdistinct) hother
          rw [hfind] at hfound
          cases hfound

theorem hasCategory_eq_any_lineless (registry : Registry) (name : String)
    (category : Category) : registry.hasCategory name category =
      ((registry.find? name).map TypeEntry.lineless).any
        fun entry => entry.category = category := by
  rw [hasCategory]
  cases registry.find? name <;> simp

theorem declares_eq_isSome_lineless (registry : Registry) (name : String) :
    registry.declares name =
      ((registry.find? name).map TypeEntry.lineless).isSome := by
  rw [declares_eq_isSome, Option.isSome_map]

/-- A new name is added to distinct ones. -/
theorem nodup_names_append {entry : TypeEntry}
    (hdistinct : (registry.types.map TypeEntry.name).Nodup)
    (hnew : registry.declares entry.name = false) :
    ((registry.types ++ [entry]).map TypeEntry.name).Nodup := by
  have hother : ∀ found ∈ registry.types, found.name ≠ entry.name := by
    simpa [declares_eq_isSome, find?_eq] using hnew
  rw [List.map_append]
  refine List.nodup_append_comm.1 (List.nodup_cons.2 ⟨?_, hdistinct⟩)
  simpa using hother

namespace Ahead

theorem find? (hahead : registry.Ahead other extra) (name : String) :
    (other.find? name).map TypeEntry.lineless =
      ((registry.find? name).or
        (extra.find? fun entry => entry.name = name)).map TypeEntry.lineless := by
  let whole : Registry := { registry with types := registry.types ++ extra }
  have hwhole : whole.find? name = (registry.find? name).or
      (extra.find? fun entry => entry.name = name) := by
    rw [Registry.find?_eq, Registry.find?_eq]
    exact List.find?_append
  rw [← hwhole]
  exact find?_of_perm hahead.types hahead.distinct name

/-- What is no struct is found in both registries. -/
theorem hasCategory_eq (hahead : registry.Ahead other extra) {category : Category}
    (hcategory : category ≠ .struct) (name : String) :
    other.hasCategory name category = registry.hasCategory name category := by
  rw [hasCategory_eq_any_lineless, hahead.find?, hasCategory_eq_any_lineless]
  cases registry.find? name with
  | some entry => rfl
  | none =>
      cases hfind : extra.find? fun entry => entry.name = name with
      | none => rfl
      | some entry =>
          have hstruct := hahead.structs entry (List.mem_of_find?_eq_some hfind)
          simp [hstruct, hcategory.symm]

theorem declares_eq (hahead : registry.Ahead other extra) (name : String) :
    other.declares name =
      (registry.declares name || extra.any fun entry => entry.name = name) := by
  rw [declares_eq_isSome_lineless, hahead.find?, Option.isSome_map,
    Option.isSome_or, List.isSome_find?, declares_eq_isSome]

theorem warn (hahead : registry.Ahead other extra)
    (warnings noticed : List Warning) :
    (registry.warn warnings).Ahead (other.warn noticed) extra :=
  ⟨hahead.types, hahead.structs, hahead.distinct, hahead.ownership,
    hahead.extensions, hahead.copyright⟩

theorem warn_right (hahead : registry.Ahead other extra)
    (noticed : List Warning) : registry.Ahead (other.warn noticed) extra :=
  ⟨hahead.types, hahead.structs, hahead.distinct, hahead.ownership,
    hahead.extensions, hahead.copyright⟩

/-- Whoever is like the first registry is as far behind the other one. -/
theorem of_alike (hahead : registry.Ahead other extra)
    (halike : registry.Alike registry') : registry'.Ahead other extra where
  types := by
    have hback := halike.types.append_right (extra.map TypeEntry.lineless)
    simp only [List.append_nil, ← List.map_append] at hback
    exact hahead.types.trans hback.symm
  structs := hahead.structs
  distinct := hahead.distinct
  ownership := hahead.ownership.trans halike.ownership.symm
  extensions := hahead.extensions.trans halike.extensions.symm
  copyright := hahead.copyright.trans halike.copyright.symm

/-- Two registries that are ahead by the same structs are alike. -/
theorem alike (hahead : registry.Ahead other extra)
    (hahead' : registry.Ahead other' extra) : other.Alike other' where
  types := by
    rw [List.append_nil]
    exact hahead'.types.trans hahead.types.symm
  structs := by simp
  distinct := hahead'.distinct
  ownership := hahead'.ownership.trans hahead.ownership.symm
  extensions := hahead'.extensions.trans hahead.extensions.symm
  copyright := hahead'.copyright.trans hahead.copyright.symm

theorem distinct_append (hahead : registry.Ahead other extra) :
    ((registry.types ++ extra).map TypeEntry.name).Nodup := by
  let whole : Registry := { registry with types := registry.types ++ extra }
  have hwhole : (whole.types.map TypeEntry.name).Nodup :=
    distinct_of_perm hahead.types hahead.distinct
  exact hwhole

theorem distinct_registry (hahead : registry.Ahead other extra) :
    (registry.types.map TypeEntry.name).Nodup := by
  have hdistinct := hahead.distinct_append
  rw [List.map_append, List.nodup_append'] at hdistinct
  exact hdistinct.1

/-- The structs that are missing are not declared. -/
theorem declares_eq_false (hahead : registry.Ahead other extra)
    {entry : TypeEntry} (hentry : entry ∈ extra) :
    registry.declares entry.name = false := by
  have hdistinct := hahead.distinct_append
  rw [List.map_append, List.nodup_append'] at hdistinct
  have hnew : ∀ found ∈ registry.types, found.name ≠ entry.name := by
    intro found hfound hname
    exact hdistinct.2.2 (hname ▸ List.mem_map_of_mem hfound)
      (List.mem_map_of_mem hentry)
  simpa [declares_eq_isSome, Registry.find?_eq] using hnew

/-- A new struct puts a registry ahead of what it was. -/
theorem of_struct {entry : TypeEntry}
    (hdistinct : (registry.types.map TypeEntry.name).Nodup)
    (hnew : registry.declares entry.name = false)
    (hstruct : entry.category = .struct) :
    registry.Ahead { registry with types := registry.types ++ [entry] }
      [entry] where
  types := .refl _
  structs := by simpa using hstruct
  distinct := nodup_names_append hdistinct hnew
  ownership := rfl
  extensions := rfl
  copyright := rfl

/-- Both registries get one more type, new to the other one. -/
theorem declare (hahead : registry.Ahead other extra) {entry entry' : TypeEntry}
    (hsame : entry'.lineless = entry.lineless)
    (hnew : other.declares entry'.name = false) :
    Ahead { registry with types := registry.types ++ [entry] }
      { other with types := other.types ++ [entry'] } extra where
  types := by
    have hlast := hahead.types.append_right [entry.lineless]
    have hmoved : (registry.types ++ extra ++ [entry]).Perm
        (registry.types ++ [entry] ++ extra) := by
      rw [List.append_assoc, List.append_assoc]
      exact List.perm_append_comm.append_left _
    refine List.Perm.trans ?_ (hmoved.map TypeEntry.lineless)
    simpa [hsame] using hlast
  structs := hahead.structs
  distinct := nodup_names_append hahead.distinct hnew
  ownership := hahead.ownership
  extensions := hahead.extensions
  copyright := hahead.copyright

end Ahead

/-- The entry of a struct with its members, without lines. -/
def linelessStruct (entry : TypeEntry × List Member) :
    TypeEntry × List Member :=
  (entry.1.lineless, entry.2.map Member.lineless)

theorem map_linelessStruct (registry : Registry) :
    registry.structs.map linelessStruct =
      (registry.types.map TypeEntry.lineless).filterMap fun entry =>
        entry.members?.map fun members => (entry, members) := by
  rw [structs, List.map_filterMap, List.filterMap_map]
  congr 1
  funext entry
  cases hmembers : entry.members? <;> simp [hmembers, linelessStruct]

namespace Alike

theorem refl (hdistinct : (registry.types.map TypeEntry.name).Nodup) :
    registry.Alike registry :=
  ⟨by rw [List.append_nil], by simp, hdistinct, rfl, rfl, rfl⟩

theorem symm (halike : registry.Alike other) : other.Alike registry := by
  have hperm := halike.types
  rw [List.append_nil] at hperm
  exact (refl (distinct_of_perm hperm halike.distinct)).of_alike halike

theorem trans (hfirst : registry.Alike other) (hsecond : other.Alike other') :
    registry.Alike other' :=
  hsecond.of_alike hfirst.symm

theorem find? (halike : registry.Alike other) (name : String) :
    (other.find? name).map TypeEntry.lineless =
      (registry.find? name).map TypeEntry.lineless := by
  rw [Ahead.find? halike, List.find?_nil, Option.or_none]

theorem hasCategory_eq (halike : registry.Alike other) :
    other.hasCategory = registry.hasCategory := by
  funext name category
  rw [hasCategory_eq_any_lineless, halike.find?, hasCategory_eq_any_lineless]

theorem declares_eq (halike : registry.Alike other) :
    other.declares = registry.declares := by
  funext name
  rw [Ahead.declares_eq halike, List.any_nil, Bool.or_false]

theorem isStruct_eq (halike : registry.Alike other) :
    other.isStruct = registry.isStruct := by
  funext name
  rw [isStruct, halike.hasCategory_eq, isStruct]

theorem membersOf (halike : registry.Alike other) (name : String) :
    (other.membersOf name).map Member.lineless =
      (registry.membersOf name).map Member.lineless := by
  have hmembers : ∀ found : Option TypeEntry,
      ((found.bind TypeEntry.members?).getD []).map Member.lineless =
        ((found.map TypeEntry.lineless).bind TypeEntry.members?).getD [] := by
    rintro (_ | entry)
    · rfl
    · cases hentry : entry.members? <;> simp [hentry]
  rw [Registry.membersOf, Registry.membersOf, hmembers, hmembers, halike.find?]

theorem values? (halike : registry.Alike other) (name : String) :
    ((other.find? name).bind TypeEntry.values?).map
        (List.map EnumValue.lineless) =
      ((registry.find? name).bind TypeEntry.values?).map
        (List.map EnumValue.lineless) := by
  have hvalues : ∀ found : Option TypeEntry,
      (found.bind TypeEntry.values?).map (List.map EnumValue.lineless) =
        (found.map TypeEntry.lineless).bind TypeEntry.values? := by
    rintro (_ | entry)
    · rfl
    · simp
  rw [hvalues, hvalues, halike.find?]

theorem memberStructs_eq (halike : registry.Alike other) :
    other.memberStructs = registry.memberStructs := by
  have hnames : ∀ members : List Member,
      members.map (fun member => member.type.name) =
        (members.map Member.lineless).map fun member => member.type.name := by
    simp [Member.lineless]
  funext name
  rw [memberStructs, memberStructs, hnames, halike.membersOf, ← hnames,
    halike.isStruct_eq]

/-- The structs are the same but for lines and order. -/
theorem structs_perm (halike : registry.Alike other) :
    (other.structs.map linelessStruct).Perm
      (registry.structs.map linelessStruct) := by
  have hperm := halike.types
  rw [List.append_nil] at hperm
  rw [map_linelessStruct, map_linelessStruct]
  exact hperm.filterMap _

theorem mem_structNames_iff (halike : registry.Alike other) (name : String) :
    name ∈ other.structNames ↔ name ∈ registry.structNames := by
  have hnames : ∀ registry : Registry, registry.structNames =
      (registry.structs.map linelessStruct).map fun entry => entry.1.name := by
    intro registry
    rw [List.map_map]
    rfl
  rw [hnames, hnames]
  exact (halike.structs_perm.map _).mem_iff

theorem getElem? (halike : registry.Alike other) (position : Nat) :
    (other.extensions[position]?).map Extension.lineless =
      (registry.extensions[position]?).map Extension.lineless := by
  rw [← List.getElem?_map, halike.extensions, List.getElem?_map]

theorem provider?_eq (halike : registry.Alike other) :
    other.provider? = registry.provider? := by
  have hdepends : ∀ found : Option Extension,
      found.bind Extension.depends =
        (found.map Extension.lineless).bind Extension.depends := by
    rintro (_ | extension) <;> rfl
  funext position
  rw [provider?, provider?, hdepends, halike.getElem?, ← hdepends]

theorem listOf_eq (halike : registry.Alike other) :
    other.listOf = registry.listOf := by
  have htypes : ∀ found : Option Extension,
      found.map Extension.types =
        (found.map Extension.lineless).map Extension.types := by
    rintro (_ | extension) <;> rfl
  funext position
  rw [listOf, listOf, htypes, halike.getElem?, ← htypes]

end Alike

end Registry

end VideoRegistry
