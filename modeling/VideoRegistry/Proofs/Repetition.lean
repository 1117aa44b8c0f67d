import VideoRegistry.Proofs.Passes
import VideoRegistry.Proofs.Precedence

/-!
# Running the passes once more

Closing an accepted registry once more changes nothing: whatever a closed list
reaches was looked at when the list was closed, and has an owner within reach.
Ordering once more starts from the ordered lists, so it may enter a cycle at
another struct and cut it there.  It leaves exactly those lists as they are in
which no two structs lead to each other.
-/

namespace VideoRegistry.Registry

variable {read closed registry : Registry} {extension position : Nat}
  {user used name : String}

/-! ## Closing -/

theorem Settled.mono {before after : Ownership}
    (hsettled : registry.Settled extension before name)
    (hkeeps : before.KeepsOwners after) :
    registry.Settled extension after name := by
  obtain ⟨hnear, owner, howner⟩ := hsettled
  refine ⟨fun other hother => ?_, owner, hkeeps.mono howner⟩
  exact hnear other ((hkeeps name owner howner other).1 hother)

/-- What an entry of a list reaches has all its owners near, and has one, once
the list is closed. -/
theorem closeList_settles {names : List String} {claims after : Claims}
    (howned : ∀ name ∈ names, claims.ownership.owns name extension)
    (hrun : registry.closeList extension claims names = .ok after)
    (huser : user ∈ names) (hreaches : registry.Reaches user used)
    (hne : used ≠ user) :
    registry.Settled extension after.ownership used := by
  have hnear := (closeList_ownersNear howned hrun user huser used
    hreaches).resolve_left hne
  have hgives := closeList_gives hrun
  by_cases hnone : claims.ownership.ownersOf used = []
  · have hgiven := hgives.given used hnone ⟨user, huser, hreaches, hne⟩
    have howns : ∀ owner,
        after.ownership.owns used owner ↔ owner = extension := by
      intro owner
      rw [← Ownership.mem_ownersOf_iff, hgiven, List.mem_singleton]
    exact ⟨fun owner howner => Or.inl ((howns owner).1 howner), extension,
      (howns extension).2 rfl⟩
  · obtain ⟨owner, howner⟩ := List.exists_mem_of_ne_nil _ hnone
    have hsettled : registry.Settled extension claims.ownership used :=
      ⟨hnear, owner, Ownership.mem_ownersOf_iff.1 howner⟩
    exact hsettled.mono (closeList_keepsOwners hrun)

theorem close_settles (hstep : read.InStep) (hrun : read.close = .ok closed)
    (huser : user ∈ read.listOf position) (hreaches : read.Reaches user used)
    (hne : used ≠ user) : read.Settled position closed.ownership used := by
  obtain ⟨reached, claims, hreached, hlist, hfinal, -⟩ :=
    close_closeList hrun position
  have howned : ∀ name ∈ read.listOf position, reached.owns name position :=
    fun name hname => hreached.mono ((hstep name position).2 hname)
  -- Closing later lists changes no owner, so what is settled stays so.
  exact (closeList_settles howned hlist huser hreaches hne).mono hfinal

/-- What a closed list holds was listed before or is reached from what was. -/
theorem Assigns.mem_or_listReaches (hassigns : read.Assigns closed)
    (hread : read.InStep) (hclosed : closed.InStep)
    (hlisted : name ∈ closed.listOf position) :
    name ∈ read.listOf position ∨ read.ListReaches position name := by
  classical
  rw [← hclosed, ← Ownership.mem_ownersOf_iff] at hlisted
  by_cases hnone : read.ownership.ownersOf name = []
  · right
    by_cases hreached : ∃ position, read.ListReaches position name
    · have hfirst := hassigns.first name (Nat.find hreached) hnone
        ⟨Nat.find_spec hreached, fun _ => Nat.find_min' hreached⟩
      rw [hfirst, List.mem_singleton] at hlisted
      exact hlisted ▸ Nat.find_spec hreached
    · rw [hassigns.unreached name hnone (not_exists.1 hreached)] at hlisted
      cases hlisted
  · left
    rwa [hassigns.kept name hnone, Ownership.mem_ownersOf_iff, hread] at hlisted

/-- Closing brings everything that a list reaches within reach of it, not only
the member structs. -/
theorem close_reachIsClosed (hstep : read.InStep)
    (hrun : read.close = .ok closed) : closed.ReachIsClosed := by
  have hcloses := close_spec hstep hrun
  have hassigns := close_assigns hrun
  intro position user used huser hreaches
  rw [Reaches, uses_congr hcloses.types_eq] at hreaches
  obtain ⟨root, hroot, hrootReaches⟩ : ∃ root ∈ read.listOf position,
      read.Reaches root used := by
    rcases hassigns.mem_or_listReaches hstep hcloses.inStep huser with
      hlisted | ⟨root, hroot, hrootReaches, -⟩
    · exact ⟨user, hlisted, hreaches⟩
    · exact ⟨root, hroot, hrootReaches.trans hreaches⟩
  by_cases hne : used = root
  · have howns := (hstep root position).2 hroot
    rw [← Ownership.mem_ownersOf_iff] at howns
    left
    rwa [hne, ← hcloses.inStep, ← Ownership.mem_ownersOf_iff,
      hassigns.kept root (List.ne_nil_of_mem howns)]
  · obtain ⟨hnear, owner, howner⟩ :=
      close_settles hstep hrun hroot hrootReaches hne
    have hlisted := (hcloses.inStep used owner).1 howner
    rcases hnear owner howner with rfl | hprovider
    · exact Or.inl hlisted
    · exact Or.inr ⟨owner, by rwa [provider?_congr hcloses.bare_eq], hlisted⟩

namespace Accepts

theorem singleOwners (haccepts : read.Accepts closed registry) :
    registry.SingleOwners := by
  intro name hstruct owner other howner hother
  obtain ⟨position, hposition⟩ := haccepts.existsUnique_mem_listOf hstruct
  rw [haccepts.inStep, hposition] at howner hother
  exact howner.trans hother.symm

theorem close_eq_self (haccepts : read.Accepts closed registry)
    (hrun : read.close = .ok closed) : registry.close = .ok registry := by
  apply Registry.close_eq_self haccepts.inStep haccepts.singleOwners
  have hreach := close_reachIsClosed haccepts.wellRead.inStep hrun
  intro position user used huser hreaches
  rw [Reaches, haccepts.uses_eq] at hreaches
  rw [haccepts.mem_listOf_closed] at huser
  rw [haccepts.provides_iff]
  exact hreach position user used huser hreaches

end Accepts

/-! ## Ordering -/

/-- No two structs of a list lead to each other; one may lead to itself. -/
def CycleFree (registry : Registry) (names : List String) : Prop :=
  ∀ user ∈ names, ∀ used ∈ names, registry.Reaches user used →
    registry.Reaches used user → user = used

namespace Accepts

/-- Where used structs come first in a list, no struct of the list reaches one
that stands behind it.  A chain of members may leave the list, but then it goes to
lists of earlier extensions and never returns. -/
theorem idxOf_le_of_reaches (haccepts : read.Accepts closed registry)
    (hfirst : registry.UsedFirst (registry.listOf position))
    (huser : user ∈ registry.listOf position)
    (hused : used ∈ registry.listOf position)
    (hreaches : registry.Reaches user used) :
    (registry.listOf position).idxOf used ≤
      (registry.listOf position).idxOf user := by
  have hchain : ∀ name, Relation.ReflTransGen registry.Uses user name →
      (name ∈ registry.listOf position ∧
        (registry.listOf position).idxOf name ≤
          (registry.listOf position).idxOf user) ∨
        ∃ earlier < position, name ∈ registry.listOf earlier := by
    intro name hchain
    induction hchain with
    | refl => exact Or.inl ⟨huser, Nat.le_refl _⟩
    | @tail last next _ huses ih =>
        rcases ih with ⟨hlast, hle⟩ | ⟨earlier, hlt, hlast⟩
        · rcases haccepts.isClosed position last next hlast huses with
            hnext | ⟨provider, hprovider, hnext⟩
          · left
            by_cases hne : next = last
            · exact hne ▸ ⟨hlast, hle⟩
            · have hbefore := hfirst last hlast next hnext huses hne
              exact ⟨hnext, Nat.le_trans (Nat.le_of_lt hbefore.2) hle⟩
          · exact Or.inr ⟨provider, haccepts.provider_lt hprovider, hnext⟩
        · right
          rcases haccepts.isClosed earlier last next hlast huses with
            hnext | ⟨provider, hprovider, hnext⟩
          · exact ⟨earlier, hlt, hnext⟩
          · have hprovided := haccepts.provider_lt hprovider
            exact ⟨provider, Nat.lt_trans hprovided hlt, hnext⟩
  rcases hchain used hreaches.to_reflTransGen with
    ⟨-, hle⟩ | ⟨earlier, hlt, hearlier⟩
  · exact hle
  · obtain ⟨owner, howner⟩ :=
      haccepts.existsUnique_mem_listOf hreaches.isStruct_used
    rw [howner] at hused hearlier
    omega

/-- In a list of an accepted registry used structs come first exactly if no two
of its structs lead to each other. -/
theorem usedFirst_iff (haccepts : read.Accepts closed registry) :
    registry.UsedFirst (registry.listOf position) ↔
      registry.CycleFree (registry.listOf position) := by
  constructor
  · intro hfirst user huser used hused hthere hback
    have hle := haccepts.idxOf_le_of_reaches hfirst huser hused hthere
    have hge := haccepts.idxOf_le_of_reaches hfirst hused huser hback
    exact (List.idxOf_inj huser).1 (Nat.le_antisymm hge hle)
  · intro hfree user huser used hused huses hne
    have harranges := haccepts.orders.arranges position
    have husesClosed : closed.Uses user used := haccepts.uses_eq ▸ huses
    rcases harranges.before_or_reaches huser hused husesClosed hne with
      hbefore | hback
    · exact hbefore
    · rw [Reaches, ← haccepts.uses_eq] at hback
      exact absurd (hfree user huser used hused huses.reaches hback) hne.symm

end Accepts

/-- The passes over an accepted registry can be run once more.  Closing changes
nothing.  Ordering changes no owner and only rearranges the lists, and those keep
their order in which no two structs lead to each other, and no others. -/
theorem ofDocument_close_and_order {config : Config} {document : Xml.Document}
    (hdocument : Registry.ofDocument config document = .ok registry) :
    registry.close = .ok registry ∧
      ∃ ordered, registry.order = .ok ordered ∧
        ordered.ownership = registry.ownership ∧
        ∀ position,
          (ordered.listOf position).Perm (registry.listOf position) ∧
          (ordered.listOf position = registry.listOf position ↔
            registry.CycleFree (registry.listOf position)) := by
  obtain ⟨read, closed, -, hclose, haccepts⟩ := ofDocument_accepts hdocument
  refine ⟨haccepts.close_eq_self hclose, ?_⟩
  obtain ⟨ordered, horder⟩ := haccepts.isClosed.exists_order
  have horders := order_spec horder
  refine ⟨ordered, horder, horders.ownership_eq, ?_⟩
  intro position
  have hnodup := (haccepts.orders.arranges position).nodup
  refine ⟨horders.perm haccepts.listsDistinct position, ?_⟩
  rw [order_listOf_eq_iff horder hnodup, haccepts.usedFirst_iff]

/-- The list of `C` stays as it is; in the other one two structs lead to each
other. -/
theorem knot_close_and_order :
    Registry.ofDocument Plain.brief knotDocument = .ok (knot ["A", "B"]) ∧
      (knot ["A", "B"]).close = .ok (knot ["A", "B"]) ∧
        ∃ ordered, (knot ["A", "B"]).order = .ok ordered ∧
          (ordered.listOf 0).Perm ["A", "B"] ∧ ordered.listOf 1 = ["C"] ∧
            ¬ (knot ["A", "B"]).CycleFree ["A", "B"] := by
  obtain ⟨hclose, ordered, horder, -, hlists⟩ :=
    ofDocument_close_and_order ofDocument_knot
  have hsingle : (knot ["A", "B"]).CycleFree ["C"] := by
    intro user huser used hused _ _
    rw [List.mem_singleton] at huser hused
    rw [huser, hused]
  have hthere : "B" ∈ (knot ["A", "B"]).memberStructs "A" := by decide
  have hback : "A" ∈ (knot ["A", "B"]).memberStructs "B" := by decide
  refine ⟨ofDocument_knot, hclose, ordered, horder, (hlists 0).1,
    (hlists 1).2.2 hsingle, ?_⟩
  intro hfree
  have heq := hfree "A" (by decide) "B" (by decide) (Uses.reaches hthere)
    (Uses.reaches hback)
  exact absurd heq (by decide)

/-- Ordering an accepted registry once more may cut a cycle elsewhere. -/
theorem knot_order_ne :
    Registry.ofDocument Plain.brief knotDocument = .ok (knot ["A", "B"]) ∧
      (knot ["A", "B"]).close = .ok (knot ["A", "B"]) ∧
        (knot ["A", "B"]).order = .ok (knot ["B", "A"]) ∧
          (knot ["B", "A"]).listOf 0 ≠ (knot ["A", "B"]).listOf 0 := by
  refine ⟨ofDocument_knot, ?_, ?_, ?_⟩
  · cbv
  · cbv
  · decide

end VideoRegistry.Registry
