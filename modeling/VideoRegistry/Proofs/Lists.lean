import Mathlib.Data.List.Nodup
import VideoRegistry.Proofs.MemberGraph
import VideoRegistry.Proofs.Ownership

/-!
# Lists of extensions

What the lists of a registry have to do with its ownership, with each other and
with the graph of member structs.  Reading puts the lists in step with the
ownership and keeps them free of repeats; closing them makes them closed.  Two of
the properties only look at what is listed, so they can be decided.
-/

namespace VideoRegistry.Registry

variable {registry other : Registry} {name : String} {position : Nat}

/-- The extension that the one at a position depends on. -/
def provider? (registry : Registry) (position : Nat) : Option Nat :=
  (registry.extensions[position]?).bind Extension.depends

/-- A type is in the list of an extension or in that of its provider. -/
def Provides (registry : Registry) (position : Nat) (name : String) : Prop :=
  name ∈ registry.listOf position ∨
    ∃ provider, registry.provider? position = some provider ∧
      name ∈ registry.listOf provider

/-- Every extension owns exactly the types in its list. -/
def InStep (registry : Registry) : Prop :=
  ∀ name position,
    registry.ownership.owns name position ↔ name ∈ registry.listOf position

/-- No list holds a type twice. -/
def ListsDistinct (registry : Registry) : Prop :=
  ∀ extension ∈ registry.extensions, extension.types.Nodup

/-- Every member struct of a listed struct is in the same list or in that of the
provider. -/
def IsClosed (registry : Registry) : Prop :=
  ∀ position user used, user ∈ registry.listOf position →
    registry.Uses user used → registry.Provides position used

theorem mem_listOf_iff :
    name ∈ registry.listOf position ↔
      ∃ extension, registry.extensions[position]? = some extension ∧
        name ∈ extension.types := by
  cases hextension : registry.extensions[position]? <;> simp [listOf, hextension]

theorem listOf_eq {extension : Extension}
    (hextension : registry.extensions[position]? = some extension) :
    registry.listOf position = extension.types := by
  simp [listOf, hextension]

theorem lt_length_of_mem_listOf (hname : name ∈ registry.listOf position) :
    position < registry.extensions.length := by
  obtain ⟨extension, hextension, -⟩ := mem_listOf_iff.1 hname
  exact (List.getElem?_eq_some_iff.1 hextension).1

theorem mem_filter_types_iff {kind : String → Bool} :
    name ∈ (registry.extensions.flatMap Extension.types).filter kind ↔
      kind name ∧ ∃ position, name ∈ registry.listOf position := by
  rw [List.mem_filter, List.mem_flatMap, and_comm]
  apply and_congr_right
  intro _
  constructor
  · rintro ⟨extension, hextension, hname⟩
    obtain ⟨position, hposition⟩ := List.getElem?_of_mem hextension
    exact ⟨position, mem_listOf_iff.2 ⟨extension, hposition, hname⟩⟩
  · rintro ⟨position, hname⟩
    obtain ⟨extension, hposition, hname⟩ := mem_listOf_iff.1 hname
    exact ⟨extension, List.mem_of_getElem? hposition, hname⟩

/-- The types of one kind in the lists of all extensions, one list behind the
other, are distinct exactly if no such type is in two lists. -/
theorem nodup_filter_types_iff {kind : String → Bool}
    (hdistinct : registry.ListsDistinct) :
    ((registry.extensions.flatMap Extension.types).filter kind).Nodup ↔
      ∀ name, kind name → ∀ position other, name ∈ registry.listOf position →
        name ∈ registry.listOf other → position = other := by
  rw [List.filter_flatMap, List.nodup_flatMap]
  constructor
  · rintro ⟨-, hpairwise⟩ name hkind position other hlisted hother
    obtain ⟨first, hfirst, hname⟩ := mem_listOf_iff.1 hlisted
    obtain ⟨second, hsecond, hname'⟩ := mem_listOf_iff.1 hother
    obtain ⟨hposition, rfl⟩ := List.getElem?_eq_some_iff.1 hfirst
    obtain ⟨hposition', rfl⟩ := List.getElem?_eq_some_iff.1 hsecond
    have hin := List.mem_filter.2 ⟨hname, hkind⟩
    have hin' := List.mem_filter.2 ⟨hname', hkind⟩
    rw [List.pairwise_iff_getElem] at hpairwise
    rcases Nat.lt_trichotomy position other with hlt | heq | hgt
    · exact absurd hin' (hpairwise position other hposition hposition' hlt hin)
    · exact heq
    · exact absurd hin (hpairwise other position hposition' hposition hgt hin')
  · intro honce
    refine ⟨fun extension hextension => (hdistinct extension hextension).filter _,
      ?_⟩
    rw [List.pairwise_iff_getElem]
    intro i j hi hj hlt name hfirst hsecond
    rw [List.mem_filter] at hfirst hsecond
    have hposition := honce name hfirst.2 i j
      (mem_listOf_iff.2 ⟨_, List.getElem?_eq_getElem hi, hfirst.1⟩)
      (mem_listOf_iff.2 ⟨_, List.getElem?_eq_getElem hj, hsecond.1⟩)
    omega

instance : Decidable (registry.Provides position name) :=
  decidable_of_iff
    (name ∈ registry.listOf position ∨
      (registry.provider? position).any fun provider =>
        name ∈ registry.listOf provider)
    (by simp [Provides, Option.any_eq_true])

instance : Decidable registry.InStep :=
  decidable_of_iff
    ((∀ claim ∈ registry.ownership.claims, claim.1 ∈ registry.listOf claim.2) ∧
      ∀ position < registry.extensions.length,
        ∀ name ∈ registry.listOf position, registry.ownership.owns name position)
    (by
      simp only [InStep, Ownership.owns_iff_mem, Prod.forall]
      constructor
      · rintro ⟨hlisted, howned⟩ name position
        exact ⟨hlisted name position, fun hname =>
          howned position (lt_length_of_mem_listOf hname) name hname⟩
      · intro hstep
        exact ⟨fun name position => (hstep name position).1,
          fun position _ name => (hstep name position).2⟩)

instance : Decidable registry.IsClosed :=
  decidable_of_iff
    (∀ position < registry.extensions.length,
      ∀ user ∈ registry.listOf position, ∀ used ∈ registry.memberStructs user,
        registry.Provides position used)
    ⟨fun hbounded position user used huser huses =>
        hbounded position (lt_length_of_mem_listOf huser) user huser used huses,
      fun hclosed position _ user huser used huses =>
        hclosed position user used huser huses⟩

/-- An extension without its list. -/
def bare (extension : Extension) : Extension :=
  { extension with types := [] }

/-- Extensions that differ in their lists alone have the same providers. -/
theorem provider?_congr
    (hbare : other.extensions.map bare = registry.extensions.map bare) :
    other.provider? = registry.provider? := by
  funext position
  have hdepends : ∀ extension? : Option Extension,
      extension?.bind Extension.depends =
        (extension?.map bare).bind Extension.depends := by
    rintro (_ | extension) <;> rfl
  rw [provider?, provider?, hdepends, hdepends (registry.extensions[position]?),
    ← List.getElem?_map, ← List.getElem?_map, hbare]

end VideoRegistry.Registry
