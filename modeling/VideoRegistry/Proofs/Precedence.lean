import VideoRegistry.Proofs.Accepted
import VideoRegistry.Proofs.Ordering

/-!
# Used structs come first

Ordering succeeds on lists with repeats and with structs that use each other in a
circle.  Whatever the lists were, an ordered list holds no struct twice, and in it
a struct comes before every struct that uses it, unless a chain of members that
stays in the list leads back to it.  The lists that ordering leaves as they are
are those in which every used struct comes first.
-/

namespace VideoRegistry.Registry

variable {registry ordered : Registry} {names : List String}

/-- In an ordered list a used struct stands before its user, if no chain of uses
within the list leads from it back to the user. -/
theorem order_before (hrun : registry.order = .ok ordered) (position : Nat) :
    (ordered.listOf position).Nodup ∧
      ∀ user ∈ ordered.listOf position, ∀ used ∈ ordered.listOf position,
        registry.Uses user used →
          ¬ registry.ReachesWithin (ordered.listOf position) used user →
            Before used user (ordered.listOf position) := by
  have harranges := (order_spec hrun).arranges position
  refine ⟨harranges.nodup, ?_⟩
  intro user huser used hused huses hback
  exact (harranges.before_or_reachesWithin huser hused huses).resolve_right hback

/-- `A` and `B` lead to each other but not to `C`, which comes behind both. -/
theorem knot_order_before :
    (knot ["C", "A", "C", "B"]).order = .ok (knot ["B", "A", "C"]) ∧
      (knot ["C", "A", "C", "B"]).Uses "C" "A" ∧
        ¬ (knot ["C", "A", "C", "B"]).ReachesWithin ["B", "A", "C"] "A" "C" ∧
          Before "A" "C" ["B", "A", "C"] := by
  have hrun : (knot ["C", "A", "C", "B"]).order = .ok (knot ["B", "A", "C"]) := by
    cbv
  have huses : "A" ∈ (knot ["C", "A", "C", "B"]).memberStructs "C" := by
    decide
  have hback : ¬ (knot ["C", "A", "C", "B"]).ReachesWithin ["B", "A", "C"]
      "A" "C" := by
    intro hchain
    have hholds : ∀ user ∈ ["A", "B"],
        ∀ used ∈ (knot ["C", "A", "C", "B"]).memberStructs user,
          used ∈ ["A", "B"] := by decide
    exact not_reaches_of_notMem hholds (by decide) (by decide)
      (hchain.reaches (by decide))
  have hplaces := (order_before hrun 0).2
  exact ⟨hrun, huses, hback,
    hplaces "C" (by decide) "A" (by decide) huses hback⟩

/-! ## Lists that stay as they are -/

/-- Every struct stands behind the other structs of the list that it uses. -/
def UsedFirst (registry : Registry) (names : List String) : Prop :=
  ∀ user ∈ names, ∀ used ∈ names, registry.Uses user used → used ≠ user →
    Before used user names

/-- A walk over members places nothing if those in its reach are placed. -/
theorem placeMembers_eq_settled {sources : Sources} {user : String}
    {waiting used settled after : List String}
    (hplaced : ∀ name ∈ used, name ∈ waiting → name ∈ settled)
    (hrun : registry.placeMembers sources user waiting used settled =
      .ok after) : after = settled := by
  induction user, waiting, used, settled
    using placeMembers.induct registry sources with
  | case1 user waiting settled =>
      rw [placeMembers] at hrun
      exact (Except.ok.inj hrun).symm
  | case2 user waiting settled name rest hmem ih =>
      rw [placeMembers, if_pos hmem] at hrun
      exact ih (List.forall_mem_cons.1 hplaced).2 hrun
  | case3 user waiting settled name rest hnew hmem ihdeep ihrest =>
      exact absurd (hplaced name List.mem_cons_self hmem) hnew
  | case4 user waiting settled name rest hnew hmem hsource ih =>
      rw [placeMembers, if_neg hnew, dif_neg hmem, if_pos hsource] at hrun
      exact ih (List.forall_mem_cons.1 hplaced).2 hrun
  | case5 user waiting settled name rest hnew hmem hsource =>
      rw [placeMembers, if_neg hnew, dif_neg hmem, if_neg hsource] at hrun
      cases hrun

/-- The walk over a list in which used structs come first places its entries one
behind the other.  `settled` are the entries dealt with before. -/
theorem UsedFirst.placeList_eq {sources : Sources} {settled after : List String}
    (hfirst : registry.UsedFirst sources.listed) (hnodup : sources.listed.Nodup)
    (hlisted : sources.listed = settled ++ names)
    (hrun : registry.placeList sources settled names = .ok after) :
    after = sources.listed := by
  induction names generalizing settled with
  | nil =>
      rw [placeList] at hrun
      rw [hlisted, List.append_nil]
      exact (Except.ok.inj hrun).symm
  | cons name rest ih =>
      have hnew : name ∉ settled := notMem_of_nodup_append (hlisted ▸ hnodup)
      have hrest : sources.listed = (settled ++ [name]) ++ rest := by
        simp [hlisted]
      rw [placeList_cons, if_neg hnew] at hrun
      obtain ⟨walked, hmembers, hrun⟩ := bind_eq_ok_iff.1 hrun
      have hplaced : ∀ used ∈ registry.memberStructs name,
          used ∈ without name sources.listed → used ∈ settled := by
        intro used huses hwithout
        obtain ⟨hused, hne⟩ := mem_without.1 hwithout
        have hbefore := hfirst name (by simp [hlisted]) used hused huses hne
        rwa [hlisted, before_split hnew] at hbefore
      rw [placeMembers_eq_settled hplaced hmembers] at hrun
      exact ih hrest hrun

/-- The first route to an entry is the entry itself, if in front of it used
structs come first. -/
theorem isFirstRoute_singleton {user : String} (huser : user ∈ names)
    (hfront : ∀ earlier, Before earlier user names → ∀ used ∈ names,
      registry.Uses earlier used → used ≠ earlier → Before used earlier names) :
    registry.IsFirstRoute names [user] user := by
  have hroute : registry.IsRoute names [user] :=
    IsRoute.nil.snoc List.not_mem_nil huser huser
  refine ⟨hroute, rfl, ?_⟩
  rintro other hother hlast
    ⟨stretch, taken, left, rest, restLeft, rfl, hsingle, hbefore⟩
  obtain ⟨rfl, rfl, -⟩ : stretch = [] ∧ left = user ∧ restLeft = [] := by
    simpa [List.singleton_eq_append_iff, and_assoc] using hsingle
  -- No use leads from in front of the entry to it or behind it.
  have hstays : ∀ name, registry.ReachesWithin names taken name →
      Before name left names := by
    intro name hchain
    induction hchain with
    | refl => exact hbefore
    | @tail last next _ hstep ih =>
        by_cases hne : next = last
        · exact hne ▸ ih
        · have hearlier := hfront last ih next hstep.2 hstep.1 hne
          exact ⟨huser, Nat.lt_trans hearlier.2 ih.2⟩
  have hreached := hstays left (hother.reachesWithin hlast (by simp))
  exact Nat.lt_irrefl _ hreached.2

/-- In a list that the walk leaves as it is, used structs come first. -/
theorem Arranges.usedFirst (harranges : registry.Arranges names names) :
    registry.UsedFirst names := by
  intro user
  induction hindex : names.idxOf user using Nat.strongRecOn generalizing user with
  | ind index ih =>
      intro huser used hused huses hne
      have hsingle : registry.IsFirstRoute names [user] user := by
        refine isFirstRoute_singleton huser fun earlier hearlier => ?_
        have hmem : earlier ∈ names := by
          apply List.idxOf_lt_length_iff.1
          exact Nat.lt_trans hearlier.2 (List.idxOf_lt_length_of_mem huser)
        exact ih _ (hindex ▸ hearlier.2) earlier rfl hmem
      rw [harranges.before_iff huser hused huses]
      intro route hroute hmem
      rw [hroute.unique hsingle, List.mem_singleton] at hmem
      exact hne hmem

/-- Ordering leaves those lists as they are in which used structs come first. -/
theorem order_listOf_eq_iff (hrun : registry.order = .ok ordered)
    {position : Nat} (hnodup : (registry.listOf position).Nodup) :
    ordered.listOf position = registry.listOf position ↔
      registry.UsedFirst (registry.listOf position) := by
  have hplaces := order_places hrun position
  constructor
  · intro hsame
    rw [hsame] at hplaces
    exact hplaces.arranges.usedFirst
  · intro hfirst
    obtain ⟨sources, hlisted, hwalk⟩ := hplaces
    rw [← hlisted] at hfirst hnodup hwalk ⊢
    exact hfirst.placeList_eq hnodup (List.nil_append _).symm hwalk

end VideoRegistry.Registry
