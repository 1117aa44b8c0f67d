import Mathlib
import VideoRegistry.Generate
import VideoRegistry.Proofs.Checking
import VideoRegistry.Proofs.Closure
import VideoRegistry.Proofs.Ordering
import VideoRegistry.Proofs.PlainDocument
import VideoRegistry.Proofs.WellRead

/-!
# Accepted registries

A document is accepted if its registry can be read, closed, ordered and checked.
What the passes guarantee is brought together here: the accepted registry has the
declared types of the one that was read, lists that are closed and arranged, and
exactly one owner for every struct.
-/

namespace VideoRegistry.Registry

variable {registry checked : Registry} {typeLead name : String}

/-! ## The check -/

/-- Every declared struct has exactly one owner. -/
def OneOwner (registry : Registry) : Prop :=
  ∀ entry ∈ registry.structs,
    ∃ owner, registry.ownership.ownersOf entry.1.name = [owner]

/-- A check that succeeds changes nothing but the warnings. -/
theorem check_spec (hrun : registry.check typeLead = .ok checked) :
    (∃ warnings, checked = registry.warn warnings) ∧ registry.OneOwner := by
  rw [check_eq_verdict, verdict_eq_ok_iff, faults_eq_nil_iff] at hrun
  obtain ⟨hobeys, rfl⟩ := hrun
  refine ⟨⟨_, rfl⟩, fun entry hentry => ?_⟩
  obtain ⟨owner, howner, -⟩ := hobeys entry hentry
  exact ⟨owner, howner⟩

/-! ## All passes -/

/-- What is known of an accepted registry, of the one that was read and of the
one whose lists were closed. -/
structure Accepts (read closed registry : Registry) : Prop where
  wellRead : read.WellRead
  closes : read.Closes closed
  orders : closed.Orders registry
  oneOwner : registry.OneOwner

theorem ofDocument_eq_ok_iff {config : Config} {document : Xml.Document} :
    Registry.ofDocument config document = .ok registry ↔
      ∃ read closed ordered, readDocument config document = .ok read ∧
        read.close = .ok closed ∧ closed.order = .ok ordered ∧
          ordered.check config.names.typeLead = .ok registry := by
  simp only [ofDocument, bind_eq_ok_iff, orFail_eq_ok_iff, exists_and_left]

theorem ofDocument_accepts {config : Config} {document : Xml.Document}
    (hrun : Registry.ofDocument config document = .ok registry) :
    ∃ read closed, readDocument config document = .ok read ∧
      read.close = .ok closed ∧ read.Accepts closed registry := by
  obtain ⟨read, closed, ordered, hread, hclose, horder, hcheck⟩ :=
    ofDocument_eq_ok_iff.1 hrun
  have hwell : read.WellRead := readDocument_wellRead hread
  have hcloses : read.Closes closed := close_spec hwell.inStep hclose
  have horders : closed.Orders ordered := order_spec horder
  obtain ⟨⟨warnings, rfl⟩, howner⟩ := check_spec hcheck
  have hwarned : closed.Orders (ordered.warn warnings) :=
    ⟨horders.types_eq, horders.ownership_eq, horders.bare_eq, horders.arranges⟩
  exact ⟨read, closed, hread, hclose, hwell, hcloses, hwarned, howner⟩

namespace Accepts

variable {read closed : Registry}

theorem types_eq (haccepts : read.Accepts closed registry) :
    registry.types = read.types :=
  haccepts.orders.types_eq.trans haccepts.closes.types_eq

theorem namesDistinct (haccepts : read.Accepts closed registry) :
    (registry.types.map TypeEntry.name).Nodup :=
  haccepts.types_eq ▸ haccepts.wellRead.namesDistinct

theorem inStep (haccepts : read.Accepts closed registry) : registry.InStep :=
  haccepts.orders.inStep haccepts.closes.inStep

theorem mem_listOf_closed (haccepts : read.Accepts closed registry)
    {position : Nat} :
    name ∈ registry.listOf position ↔ name ∈ closed.listOf position :=
  (haccepts.orders.arranges position).mem_iff name

theorem uses_eq (haccepts : read.Accepts closed registry) :
    registry.Uses = closed.Uses :=
  uses_congr haccepts.orders.types_eq

theorem provides_iff (haccepts : read.Accepts closed registry)
    {position : Nat} :
    registry.Provides position name ↔ closed.Provides position name := by
  simp only [Provides, provider?_congr haccepts.orders.bare_eq,
    haccepts.mem_listOf_closed]

theorem isClosed (haccepts : read.Accepts closed registry) :
    registry.IsClosed := by
  intro position user used huser huses
  rw [haccepts.uses_eq] at huses
  rw [haccepts.mem_listOf_closed] at huser
  rw [haccepts.provides_iff]
  exact haccepts.closes.isClosed position user used huser huses

theorem provider_lt (haccepts : read.Accepts closed registry)
    {position provider : Nat}
    (hprovider : registry.provider? position = some provider) :
    provider < position := by
  apply haccepts.wellRead.providerEarlier
  rwa [provider?_congr haccepts.orders.bare_eq,
    provider?_congr haccepts.closes.bare_eq] at hprovider

theorem listsDistinct (haccepts : read.Accepts closed registry) :
    registry.ListsDistinct :=
  haccepts.orders.listsDistinct

/-- A struct is in exactly one list. -/
theorem existsUnique_mem_listOf (haccepts : read.Accepts closed registry)
    (hstruct : registry.isStruct name) :
    ∃ position, ∀ other, name ∈ registry.listOf other ↔ other = position := by
  obtain ⟨entry, members, hfind, hmembers⟩ :=
    isStruct_iff_exists_members.1 hstruct
  obtain ⟨owner, howner⟩ :=
    haccepts.oneOwner (entry, members) (mem_structs_of_find? hfind hmembers)
  have hname : entry.name = name := find?_name hfind
  refine ⟨owner, ?_⟩
  intro other
  rw [← haccepts.inStep name other, ← Ownership.mem_ownersOf_iff, ← hname, howner,
    List.mem_singleton]

end Accepts

/-! ## A document with a cycle -/

/-- `A` holds a `B`, which points to an `A`; `C` holds both. -/
def knotStructs : List (String × List Member) :=
  [("B", [Plain.member "A" "*" "a"]), ("A", [Plain.member "B" "" "b"]),
    ("C", [Plain.member "A" "" "a", Plain.member "B" "" "b"])]

def knotDocument : Xml.Document :=
  Plain.document knotStructs [("va", ["B", "A"]), ("vb", ["v/va.h", "C"])]

/-- The registry of the knot; the list of the first extension is given. -/
def knot (first : List String) : Registry :=
  { Plain.registry knotStructs
      [Plain.extension "va" none ["B", "A"],
        Plain.extension "vb" (some 0) ["C"]] with
    extensions := [Plain.extension "va" none first,
      Plain.extension "vb" (some 0) ["C"]] }

theorem ofDocument_knot :
    Registry.ofDocument Plain.brief knotDocument = .ok (knot ["A", "B"]) := by
  have hread : readDocument Plain.brief knotDocument = .ok (knot ["B", "A"]) :=
    readDocument_eq_ok_iff.2 ⟨by cbv, by decide⟩
  have hclose : (knot ["B", "A"]).close = .ok (knot ["B", "A"]) := by cbv
  have horder : (knot ["B", "A"]).order = .ok (knot ["A", "B"]) := by cbv
  have hcheck : (knot ["A", "B"]).check "S" = .ok (knot ["A", "B"]) := by cbv
  exact ofDocument_eq_ok_iff.2 ⟨_, _, _, hread, hclose, horder, hcheck⟩

end VideoRegistry.Registry
