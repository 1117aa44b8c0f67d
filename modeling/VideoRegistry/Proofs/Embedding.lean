import VideoRegistry.Proofs.Accepted

/-!
# Embedded structs

A struct embeds the structs that its members hold by value; a member may also do
no more than point to a struct.  The walks over member structs do not tell the
two apart.  The main statement says what this means for the order of an accepted
list: an embedded struct stands before its user exactly if the user was not found
on a way through it, and it can only stand behind its user if a chain of members
leads back through a pointer.
-/

namespace VideoRegistry.Registry

variable {registry : Registry} {user used : String}

/-- A member of `user` holds the struct `used` by value. -/
def Embeds (registry : Registry) (user used : String) : Prop :=
  ∃ member ∈ registry.membersOf user,
    member.type.name = used ∧ member.type.behind = "" ∧ registry.isStruct used

instance : Decidable (registry.Embeds user used) :=
  inferInstanceAs (Decidable (∃ member ∈ registry.membersOf user, _))

/-- No struct holds itself, be it through others. -/
def EmbedsAcyclic (registry : Registry) : Prop :=
  ∀ name, ¬ Relation.TransGen registry.Embeds name name

/-- A chain of uses from `user` to `used`, one of which is a pointer. -/
def PointsOn (registry : Registry) (user used : String) : Prop :=
  ∃ holder target, Relation.ReflTransGen registry.Uses user holder ∧
    registry.Uses holder target ∧ ¬ registry.Embeds holder target ∧
      Relation.ReflTransGen registry.Uses target used

theorem Embeds.uses (hembeds : registry.Embeds user used) :
    registry.Uses user used := by
  obtain ⟨member, hmember, hname, -, hstruct⟩ := hembeds
  exact mem_memberStructs_iff.2 ⟨⟨member, hmember, hname⟩, hstruct⟩

/-- Structs that embed only what is declared before them embed no cycle. -/
theorem embedsAcyclic_of_idxOf_lt
    (hearlier : ∀ user ∈ registry.structNames,
      ∀ used ∈ registry.memberStructs user, registry.Embeds user used →
        registry.structNames.idxOf used < registry.structNames.idxOf user) :
    registry.EmbedsAcyclic := by
  intro name hcycle
  have hlt : ∀ {user used}, Relation.TransGen registry.Embeds user used →
      registry.structNames.idxOf used < registry.structNames.idxOf user := by
    intro user used hchain
    induction hchain with
    | single hembeds =>
        have huses := hembeds.uses
        exact hearlier _ (mem_structNames huses.isStruct_user) _ huses hembeds
    | tail _ hembeds ih =>
        have huses := hembeds.uses
        exact Nat.lt_trans (hearlier _ (mem_structNames huses.isStruct_user) _
          huses hembeds) ih
  exact Nat.lt_irrefl _ (hlt hcycle)

/-- A chain of uses embeds all along, or points somewhere. -/
theorem Reaches.embeds_or_pointsOn (hreaches : registry.Reaches user used) :
    Relation.TransGen registry.Embeds user used ∨ registry.PointsOn user used := by
  induction hreaches with
  | @single next huses =>
      by_cases hembeds : registry.Embeds user next
      · exact Or.inl (.single hembeds)
      · exact Or.inr ⟨user, next, .refl, huses, hembeds, .refl⟩
  | @tail last next hchain huses ih =>
      rcases ih with hall | ⟨holder, target, hfront, hpointer, hnot, hback⟩
      · by_cases hembeds : registry.Embeds last next
        · exact Or.inl (hall.tail hembeds)
        · exact Or.inr
            ⟨last, next, hchain.to_reflTransGen, huses, hembeds, .refl⟩
      · exact Or.inr
          ⟨holder, target, hfront, hpointer, hnot, hback.tail huses⟩

/-- Where embedded structs stand in the lists of an accepted registry: before
their users, unless the walk through the closed list first found the user on a
way through the embedded struct.  That takes a pointer on the way back. -/
theorem before_iff_of_embeds {config : Config} {document : Xml.Document}
    (hdocument : Registry.ofDocument config document = .ok registry)
    (hacyclic : registry.EmbedsAcyclic) :
    ∃ read closed, readDocument config document = .ok read ∧
      read.close = .ok closed ∧
        ∀ position user used, user ∈ registry.listOf position →
          used ∈ registry.listOf position → registry.Embeds user used →
            (Before used user (registry.listOf position) ↔
              ∀ route,
                closed.IsFirstRoute (closed.listOf position) route user →
                  used ∉ route) ∧
            (Before used user (registry.listOf position) ∨
              registry.PointsOn used user) := by
  obtain ⟨read, closed, hread, hclose, haccepts⟩ := ofDocument_accepts hdocument
  refine ⟨read, closed, hread, hclose, ?_⟩
  intro position user used huser hused hembeds
  have harranges := haccepts.orders.arranges position
  have huses : closed.Uses user used :=
    uses_congr haccepts.orders.types_eq ▸ hembeds.uses
  refine ⟨harranges.before_iff huser hused huses, ?_⟩
  have hne : used ≠ user := by
    rintro rfl
    exact hacyclic used (.single hembeds)
  rcases harranges.before_or_reaches huser hused huses hne with
    hbefore | hreaches
  · exact Or.inl hbefore
  · have hback : registry.Reaches used user := by
      rwa [Reaches, uses_congr haccepts.orders.types_eq]
    rcases hback.embeds_or_pointsOn with hall | hpoints
    · exact absurd (hall.tail hembeds) (hacyclic used)
    · exact Or.inr hpoints

theorem embedsAcyclic_knot : (knot ["A", "B"]).EmbedsAcyclic :=
  embedsAcyclic_of_idxOf_lt (by decide)

theorem before_iff_of_embeds_knot :
    Registry.ofDocument Plain.brief knotDocument = .ok (knot ["A", "B"]) ∧
      (knot ["A", "B"]).EmbedsAcyclic ∧
        ∃ read closed, readDocument Plain.brief knotDocument = .ok read ∧
          read.close = .ok closed ∧
            (Before "B" "A" ((knot ["A", "B"]).listOf 0) ↔
              ∀ route, closed.IsFirstRoute (closed.listOf 0) route "A" →
                "B" ∉ route) ∧
            (Before "B" "A" ((knot ["A", "B"]).listOf 0) ∨
              (knot ["A", "B"]).PointsOn "B" "A") := by
  obtain ⟨read, closed, hread, hclose, hplaces⟩ :=
    before_iff_of_embeds ofDocument_knot embedsAcyclic_knot
  have hembeds : (knot ["A", "B"]).Embeds "A" "B" := by decide
  have hplace := hplaces 0 "A" "B" (by decide) (by decide) hembeds
  exact ⟨ofDocument_knot, embedsAcyclic_knot, read, closed, hread, hclose, hplace⟩

/-- An accepted list in which an embedded struct stands behind its user. -/
theorem embeds_and_not_before :
    Registry.ofDocument Plain.brief knotDocument = .ok (knot ["A", "B"]) ∧
      (knot ["A", "B"]).EmbedsAcyclic ∧
        (knot ["A", "B"]).listOf 0 = ["A", "B"] ∧
          (knot ["A", "B"]).Embeds "A" "B" ∧
            ¬ Before "B" "A" ((knot ["A", "B"]).listOf 0) := by
  refine ⟨ofDocument_knot, embedsAcyclic_knot, rfl, ?_, ?_⟩
  · decide
  · decide

end VideoRegistry.Registry
