import VideoRegistry.Proofs.Conservation
import VideoRegistry.Proofs.Precedence

/-!
# Ordering keeps the order where it can

The entries of a list are placed one after the other, and while the walk stands at
an entry it only places that entry and what a chain of member structs leads to from
it.  So an entry is overtaken only by a struct that is pulled forward, for it or for
an entry in front of it.  Entries that are no structs are never pulled forward, and a
list in which used structs come first stays as it is.
-/

namespace VideoRegistry.Registry

variable {registry ordered : Registry} {sources : Sources} {position : Nat}
  {settled after : List String}

/-- A chain of one or more uses leads from `user` to `used` that stays in a
list. -/
def ReachesThrough (registry : Registry) (names : List String)
    (user used : String) : Prop :=
  Relation.TransGen (fun user used => registry.Uses user used ∧ used ∈ names) user
    used

theorem ReachesThrough.reaches {names : List String} {user used : String}
    (hreaches : registry.ReachesThrough names user used) :
    registry.Reaches user used :=
  Relation.TransGen.mono (fun _ _ hstep => hstep.1) _ _ hreaches

/-- Every name that is placed was placed while the walk stood at an entry, with
everything in front of that entry placed by then, and is that entry or was reached
from it. -/
theorem placeList_root {names : List String}
    (hrun : registry.placeList sources settled names = .ok after) :
    settled <+: after ∧ ∀ name ∈ after, name ∉ settled →
      ∃ front root back placed, names = front ++ root :: back ∧
        placed <+: after ∧ (∀ other ∈ settled ++ front, other ∈ placed) ∧
          name ∉ placed ∧
            (name = root ∨ registry.ReachesThrough sources.listed root name) := by
  induction names generalizing settled with
  | nil =>
      rw [placeList] at hrun
      obtain rfl := Except.ok.inj hrun
      exact ⟨List.prefix_rfl, fun name hname hnew => absurd hname hnew⟩
  | cons first rest ih =>
      rw [placeList_cons] at hrun
      split at hrun
      · next hplaced =>
          obtain ⟨hgrown, hroot⟩ := ih hrun
          refine ⟨hgrown, fun name hname hnew => ?_⟩
          obtain ⟨front, root, back, placed, rfl, hprefix, hfront, hlater,
            hreached⟩ := hroot name hname hnew
          refine ⟨first :: front, root, back, placed, rfl, hprefix, ?_, hlater,
            hreached⟩
          simp only [List.forall_mem_append, List.forall_mem_cons] at hfront ⊢
          exact ⟨hfront.1, hfront.1 first hplaced, hfront.2⟩
      · obtain ⟨walked, hwalk, hrun⟩ := bind_eq_ok_iff.1 hrun
        obtain ⟨below, rfl, hled, -⟩ := placeMembers_spec hwalk
        obtain ⟨hgrown, hroot⟩ := ih hrun
        have hsettled : settled <+: after :=
          (((List.prefix_append settled below).trans
            (List.prefix_append _ [first])).trans hgrown)
        refine ⟨hsettled, fun name hname hnew => ?_⟩
        by_cases hwalked : name ∈ settled ++ below ++ [first]
        · -- The walk stood at the first entry.
          refine ⟨[], first, rest, settled, rfl, hsettled, by simp, hnew, ?_⟩
          rcases List.mem_append.1 hwalked with hbelow | hfirst
          · right
            obtain ⟨member, huses, hmember, hchain⟩ :=
              hled name ((List.mem_append.1 hbelow).resolve_left hnew)
            have hlisted : ∀ other ∈ without first sources.listed,
                other ∈ sources.listed := fun _ hother => (mem_without.1 hother).1
            exact Relation.TransGen.head' ⟨huses, hlisted member hmember⟩
              (hchain.mono hlisted)
          · exact Or.inl (List.mem_singleton.1 hfirst)
        · obtain ⟨front, root, back, placed, rfl, hprefix, hfront, hlater,
            hreached⟩ := hroot name hname hwalked
          refine ⟨first :: front, root, back, placed, rfl, hprefix, ?_, hlater,
            hreached⟩
          simp only [List.forall_mem_append, List.forall_mem_cons] at hfront ⊢
          exact ⟨hfront.1.1.1, hfront.1.2.1, hfront.2⟩

/-- Whatever overtakes an entry of a list was reached from that entry or from one
in front of it. -/
theorem order_overtakes (hrun : registry.order = .ok ordered)
    {first second : String}
    (hbefore : Before first second (registry.listOf position))
    (hafter : Before second first (ordered.listOf position)) :
    ∃ root ∈ registry.listOf position,
      (root = first ∨ Before root first (registry.listOf position)) ∧
        registry.ReachesThrough (registry.listOf position) root second := by
  have harranges := (order_spec hrun).arranges position
  have hsecond := (harranges.mem_iff second).2 hbefore.1
  rcases order_placeList hrun position with
    ⟨extension, hextension, hwalk⟩ | ⟨-, hnone⟩
  · rw [listOf_eq hextension] at hbefore ⊢
    obtain ⟨-, hroots⟩ := placeList_root hwalk
    obtain ⟨front, root, back, placed, hlisted, hprefix, hfront, hlater,
      hreached⟩ := hroots second hsecond List.not_mem_nil
    have hfirst : first ∉ front := fun hmem =>
      hlater (hafter.mem_of_prefix hprefix (hfront first hmem))
    have hroot : root = first ∨ Before root first extension.types := by
      have hmem := hbefore.mem
      rw [hlisted] at hmem ⊢
      exact eq_or_before_of_notMem hmem hfirst
    have hne : second ≠ root := by
      rintro rfl
      rcases hroot with rfl | hroot
      · exact hbefore.ne rfl
      · exact hbefore.asymm hroot
    exact ⟨root, by simp [hlisted], hroot, hreached.resolve_left hne⟩
  · rw [hnone] at hsecond
    cases hsecond

/-- The entries of a list that are no structs keep their order. -/
theorem filter_order_of_not_isStruct (hrun : registry.order = .ok ordered)
    (hnodup : (registry.listOf position).Nodup) :
    (ordered.listOf position).filter (fun name => !registry.isStruct name) =
      (registry.listOf position).filter (fun name => !registry.isStruct name) := by
  have harranges := (order_spec hrun).arranges position
  -- Both lists are sorted by the places in the old one.
  have hold := (pairwise_before hnodup).filter fun name => !registry.isStruct name
  have hnew := (pairwise_before harranges.nodup).filter
    fun name => !registry.isStruct name
  refine ((harranges.perm hnodup).filter _).eq_of_pairwise ?_ ?_ hold
  · exact fun first second _ _ hbefore hafter => absurd hafter hbefore.asymm
  · refine hnew.imp_of_mem ?_
    intro first second hfirst hsecond hbefore
    rw [List.mem_filter] at hfirst hsecond
    have hlisted := (harranges.mem_iff first).1 hfirst.1
    have hlisted' := (harranges.mem_iff second).1 hsecond.1
    refine (before_or_before hbefore.ne hlisted hlisted').resolve_right ?_
    intro hovertaken
    obtain ⟨root, -, -, hreaches⟩ := order_overtakes hrun hovertaken hbefore
    simpa [hreaches.reaches.isStruct_used] using hfirst.2

/-- Ordering only moves structs: what overtakes an entry is a struct that was
reached, through the list, from that entry or from one in front of it.  So the
entries that are no structs keep their order, and exactly those lists stay as they
are in which used structs come first. -/
theorem order_stable (hrun : registry.order = .ok ordered)
    (hnodup : (registry.listOf position).Nodup) :
    (∀ first second, Before first second (registry.listOf position) →
      Before second first (ordered.listOf position) →
        registry.isStruct second ∧ ∃ root ∈ registry.listOf position,
          (root = first ∨ Before root first (registry.listOf position)) ∧
            registry.ReachesThrough (registry.listOf position) root second) ∧
      (ordered.listOf position).filter (fun name => !registry.isStruct name) =
        (registry.listOf position).filter (fun name => !registry.isStruct name) ∧
      (ordered.listOf position = registry.listOf position ↔
        registry.UsedFirst (registry.listOf position)) := by
  refine ⟨?_, filter_order_of_not_isStruct hrun hnodup,
    order_listOf_eq_iff hrun hnodup⟩
  intro first second hbefore hafter
  obtain ⟨root, hroot, hearlier, hreaches⟩ := order_overtakes hrun hbefore hafter
  exact ⟨hreaches.reaches.isStruct_used, root, hroot, hearlier, hreaches⟩

/-- `A` and `B` overtake `int`, pulled forward by `C` in front of it. -/
theorem knot_order_stable :
    (knot ["C", "int", "A", "B"]).order = .ok (knot ["B", "A", "C", "int"]) ∧
      Before "int" "A" ["C", "int", "A", "B"] ∧
        Before "A" "int" ["B", "A", "C", "int"] ∧
          (∃ root ∈ ["C", "int", "A", "B"],
            (root = "int" ∨ Before root "int" ["C", "int", "A", "B"]) ∧
              (knot ["C", "int", "A", "B"]).ReachesThrough ["C", "int", "A", "B"]
                root "A") ∧
            ¬ (knot ["C", "int", "A", "B"]).UsedFirst ["C", "int", "A", "B"] := by
  have hrun : (knot ["C", "int", "A", "B"]).order =
      .ok (knot ["B", "A", "C", "int"]) := by cbv
  have hnodup : ((knot ["C", "int", "A", "B"]).listOf 0).Nodup := by decide
  have hbefore : Before "int" "A" ["C", "int", "A", "B"] := by decide
  have hafter : Before "A" "int" ["B", "A", "C", "int"] := by decide
  obtain ⟨hovertakes, -, hsame⟩ := order_stable hrun hnodup
  refine ⟨hrun, hbefore, hafter, (hovertakes "int" "A" hbefore hafter).2, ?_⟩
  intro hfirst
  exact absurd (hsame.2 hfirst) (by decide)

end VideoRegistry.Registry
