import Mathlib.Data.List.Nodup
import Mathlib.Logic.Relation
import VideoRegistry.Registry.Closure

/-!
# The graph of member structs

A struct uses the structs that are types of its members.  Chains of uses say
which struct a walk over members can get to; the graph depends on the declared
types alone, so no pass over the lists of extensions changes it.
-/

namespace VideoRegistry

/-- Where keys are distinct, every item is found by its key. -/
theorem find?_key_eq_some_of_mem {α κ : Type} [DecidableEq κ] {key : α → κ}
    {items : List α} {item : α} (hkeys : (items.map key).Nodup) (hitem : item ∈ items) :
    items.find? (key · = key item) = some item := by
  have hsome : (items.find? (key · = key item)).isSome :=
    List.find?_isSome.2 ⟨item, hitem, by simp⟩
  obtain ⟨found, hfound⟩ := Option.isSome_iff_exists.1 hsome
  have hmem : found ∈ items := List.mem_of_find?_eq_some hfound
  have hkey : key found = key item := by simpa using List.find?_some hfound
  rw [hfound, List.inj_on_of_nodup_map hkeys hmem hitem hkey]

namespace Registry

variable {registry other : Registry} {name user used : String}

/-- The type of some member of `user` is the struct `used`. -/
def Uses (registry : Registry) (user used : String) : Prop :=
  used ∈ registry.memberStructs user

/-- A chain of one or more uses leads from `user` to `used`. -/
def Reaches (registry : Registry) (user used : String) : Prop :=
  Relation.TransGen registry.Uses user used

theorem mem_memberStructs_iff :
    used ∈ registry.memberStructs user ↔
      (∃ member ∈ registry.membersOf user, member.type.name = used) ∧
        registry.isStruct used := by
  simp [memberStructs]

theorem category_eq_struct_iff {entry : TypeEntry} :
    entry.category = .struct ↔ ∃ members, entry.members? = some members := by
  cases hdefinition : entry.definition with
  | _ => simp [TypeEntry.category, TypeEntry.members?, hdefinition,
      Definition.category]

theorem isStruct_iff_exists_members :
    registry.isStruct name ↔
      ∃ entry members, registry.find? name = some entry ∧
        entry.members? = some members := by
  simp only [isStruct, hasCategory, Option.any_eq_true, decide_eq_true_eq,
    category_eq_struct_iff, exists_and_left]

theorem Uses.isStruct_used (huses : registry.Uses user used) :
    registry.isStruct used :=
  (mem_memberStructs_iff.1 huses).2

/-- Only a struct has members. -/
theorem Uses.isStruct_user (huses : registry.Uses user used) :
    registry.isStruct user := by
  obtain ⟨⟨member, hmember, -⟩, -⟩ := mem_memberStructs_iff.1 huses
  rw [isStruct_iff_exists_members]
  cases hfind : registry.find? user with
  | none => simp [membersOf, hfind] at hmember
  | some entry =>
      cases hmembers : entry.members? with
      | none => simp [membersOf, hfind, hmembers] at hmember
      | some members => exact ⟨entry, members, rfl, hmembers⟩

theorem memberStructs_eq_nil (hstruct : ¬ registry.isStruct user) :
    registry.memberStructs user = [] := by
  rw [List.eq_nil_iff_forall_not_mem]
  exact fun used hused => hstruct (Uses.isStruct_user hused)

theorem Reaches.isStruct_used (hreaches : registry.Reaches user used) :
    registry.isStruct used := by
  cases hreaches with
  | single huses => exact huses.isStruct_used
  | tail _ huses => exact huses.isStruct_used

theorem Reaches.isStruct_user (hreaches : registry.Reaches user used) :
    registry.isStruct user := by
  obtain ⟨member, huses, -⟩ := Relation.TransGen.head'_iff.1 hreaches
  exact huses.isStruct_user

theorem Uses.reaches (huses : registry.Uses user used) :
    registry.Reaches user used :=
  Relation.TransGen.single huses

/-- Chains of uses do not leave names that hold all that they use. -/
theorem not_reaches_of_notMem {names : List String}
    (hholds : ∀ user ∈ names, ∀ used ∈ registry.memberStructs user, used ∈ names)
    (huser : user ∈ names) (hused : used ∉ names) :
    ¬ registry.Reaches user used := by
  intro hreaches
  have hmem : used ∈ names := by
    clear hused
    induction hreaches with
    | single huses => exact hholds user huser _ huses
    | tail _ huses ih => exact hholds _ ih _ huses
  exact hused hmem

theorem find?_name {entry : TypeEntry}
    (hfind : registry.find? name = some entry) : entry.name = name := by
  rw [find?_eq] at hfind
  simpa using List.find?_some hfind

theorem mem_types_of_find? {entry : TypeEntry}
    (hfind : registry.find? name = some entry) : entry ∈ registry.types := by
  rw [find?_eq] at hfind
  exact List.mem_of_find?_eq_some hfind

theorem mem_structs_iff {entry : TypeEntry} {members : List Member} :
    (entry, members) ∈ registry.structs ↔
      entry ∈ registry.types ∧ entry.members? = some members := by
  simp only [structs, List.mem_filterMap, Option.map_eq_some_iff, Prod.mk.injEq]
  constructor
  · rintro ⟨other, hother, found, hfound, rfl, rfl⟩
    exact ⟨hother, hfound⟩
  · rintro ⟨hentry, hmembers⟩
    exact ⟨entry, hentry, members, hmembers, rfl, rfl⟩

theorem mem_structs_of_find? {entry : TypeEntry} {members : List Member}
    (hfind : registry.find? name = some entry)
    (hmembers : entry.members? = some members) :
    (entry, members) ∈ registry.structs :=
  mem_structs_iff.2 ⟨mem_types_of_find? hfind, hmembers⟩

/-- The structs are listed by name among the names of structs. -/
theorem mem_structNames (hstruct : registry.isStruct name) :
    name ∈ registry.structNames := by
  obtain ⟨entry, members, hfind, hmembers⟩ :=
    isStruct_iff_exists_members.1 hstruct
  exact List.mem_map.2 ⟨(entry, members), mem_structs_of_find? hfind hmembers,
    find?_name hfind⟩

theorem mem_without {names : List String} :
    user ∈ without name names ↔ user ∈ names ∧ user ≠ name := by
  simp [without]

/-- From `user` a chain of uses leads to `used` that stays within `available`. -/
def ReachesWithin (registry : Registry) (available : List String)
    (user used : String) : Prop :=
  Relation.ReflTransGen (fun user used =>
    registry.Uses user used ∧ used ∈ available) user used

namespace ReachesWithin

variable {available others : List String}

/-- A chain of uses need not come back to where it began. -/
theorem cases_without (hreaches : registry.ReachesWithin available user used) :
    used = user ∨ ∃ member, registry.Uses user member ∧
      member ∈ without user available ∧
        registry.ReachesWithin (without user available) member used := by
  induction hreaches with
  | refl => exact Or.inl rfl
  | @tail last next _ hlast ih =>
      obtain ⟨huses, hnext⟩ := hlast
      by_cases hback : next = user
      · exact Or.inl hback
      have hwithout := mem_without.2 ⟨hnext, hback⟩
      rcases ih with rfl | ⟨member, hmember, havailable, hchain⟩
      · exact Or.inr ⟨next, huses, hwithout, .refl⟩
      · exact Or.inr ⟨member, hmember, havailable,
          hchain.tail ⟨huses, hwithout⟩⟩

theorem mem (hreaches : registry.ReachesWithin available user used)
    (huser : user ∈ available) : used ∈ available := by
  cases hreaches with
  | refl => exact huser
  | tail _ hlast => exact hlast.2

theorem mono (hsub : ∀ name ∈ available, name ∈ others)
    (hreaches : registry.ReachesWithin available user used) :
    registry.ReachesWithin others user used :=
  Relation.ReflTransGen.mono
    (fun _ name huses => ⟨huses.1, hsub name huses.2⟩) _ _ hreaches

theorem reflTransGen (hreaches : registry.ReachesWithin available user used) :
    Relation.ReflTransGen registry.Uses user used :=
  Relation.ReflTransGen.mono (fun _ _ huses => huses.1) _ _ hreaches

theorem reaches (hreaches : registry.ReachesWithin available user used)
    (hne : user ≠ used) : registry.Reaches user used :=
  (Relation.reflTransGen_iff_eq_or_transGen.1
    hreaches.reflTransGen).resolve_left hne.symm

end ReachesWithin

theorem Reaches.reachesWithin (hreaches : registry.Reaches user used) :
    registry.ReachesWithin registry.structNames user used :=
  Relation.ReflTransGen.mono
    (fun _ _ huses => ⟨huses, mem_structNames huses.isStruct_used⟩) _ _
    hreaches.to_reflTransGen

/-- One use on, a chain within `available` need not come back. -/
theorem reachesWithin_iff {available : List String} :
    registry.ReachesWithin available user used ↔
      used = user ∨ ∃ member ∈ registry.memberStructs user,
        member ∈ without user available ∧
          registry.ReachesWithin (without user available) member used := by
  constructor
  · exact ReachesWithin.cases_without
  · rintro (rfl | ⟨member, huses, hmember, hchain⟩)
    · exact .refl
    · have hsub : ∀ name ∈ without user available, name ∈ available :=
        fun _ hname => (mem_without.1 hname).1
      exact .head ⟨huses, hsub member hmember⟩ (hchain.mono hsub)

/-- Another struct is reached exactly if a chain that never comes back leads to
it. -/
theorem reaches_and_ne_iff :
    registry.Reaches user used ∧ used ≠ user ↔
      ∃ member ∈ registry.memberStructs user,
        member ∈ without user registry.structNames ∧
          registry.ReachesWithin (without user registry.structNames) member
            used := by
  constructor
  · rintro ⟨hreaches, hne⟩
    exact hreaches.reachesWithin.cases_without.resolve_left hne
  · rintro ⟨member, huses, hmember, hchain⟩
    exact ⟨Relation.TransGen.head' huses hchain.reflTransGen,
      (mem_without.1 (hchain.mem hmember)).2⟩

/-- Where names are distinct, every declared type is found by its name. -/
theorem find?_eq_some_of_mem {entry : TypeEntry}
    (hnames : (registry.types.map TypeEntry.name).Nodup)
    (hentry : entry ∈ registry.types) :
    registry.find? entry.name = some entry :=
  (registry.find?_eq entry.name).trans (find?_key_eq_some_of_mem hnames hentry)

theorem find?_congr (htypes : other.types = registry.types) :
    other.find? = registry.find? := by
  funext name
  rw [find?_eq, find?_eq, htypes]

theorem isStruct_congr (htypes : other.types = registry.types) :
    other.isStruct = registry.isStruct := by
  funext name
  rw [isStruct, isStruct, hasCategory, hasCategory, find?_congr htypes]

theorem memberStructs_congr (htypes : other.types = registry.types) :
    other.memberStructs = registry.memberStructs := by
  funext user
  rw [memberStructs, memberStructs, membersOf, membersOf, find?_congr htypes,
    isStruct_congr htypes]

theorem uses_congr (htypes : other.types = registry.types) :
    other.Uses = registry.Uses := by
  funext user used
  rw [Uses, Uses, memberStructs_congr htypes]

end Registry

end VideoRegistry
