import VideoRegistry.Proofs.Accepted
import VideoRegistry.Proofs.Ordering

/-!
# What ordering asks for and what it conserves

The walk over a list looks at every member struct of every entry, whatever else is
placed in between.  So ordering succeeds exactly if every member struct of a listed
struct is in the same list or in that of the provider, and then the entries of a
list are those it had, each once.  What a walk places, it was led to from the entry
it started at, without leaving the list.
-/

namespace VideoRegistry.Registry

variable {registry ordered : Registry} {sources : Sources} {user : String}
  {settled after : List String}

/-! ## What a walk places -/

/-- A used struct needs no further look: it is placed or offered. -/
def Accounted (sources : Sources) (placed : List String) (name : String) : Prop :=
  name ∈ placed ∨ sources.Offers name

theorem Accounted.append {placed : List String} {name : String}
    (haccounted : Accounted sources placed name) (more : List String) :
    Accounted sources (placed ++ more) name :=
  haccounted.imp_left fun hplaced => List.mem_append_left more hplaced

/-- A walk that comes back placed only what it was led to, and all that these and
its start use is accounted for. -/
theorem placeMembers_spec {waiting used : List String}
    (hrun : registry.placeMembers sources user waiting used settled =
      .ok after) :
    ∃ added, after = settled ++ added ∧
      (∀ name ∈ added, ∃ first ∈ used, first ∈ waiting ∧
        registry.ReachesWithin waiting first name) ∧
      (∀ name ∈ used, Accounted sources after name) ∧
      ∀ name ∈ added, ∀ member, registry.Uses name member →
        Accounted sources after member := by
  induction user, waiting, used, settled
    using placeMembers.induct registry sources generalizing after with
  | case1 user waiting settled =>
      rw [placeMembers] at hrun
      obtain rfl := Except.ok.inj hrun
      exact ⟨[], by simp, by simp, by simp, by simp⟩
  | case2 user waiting settled name rest hplaced ih =>
      rw [placeMembers, if_pos hplaced] at hrun
      obtain ⟨added, rfl, hled, hused, hmembers⟩ := ih hrun
      refine ⟨added, rfl, ?_, ?_, hmembers⟩
      · intro other hother
        obtain ⟨first, hfirst, hchain⟩ := hled other hother
        exact ⟨first, List.mem_cons_of_mem name hfirst, hchain⟩
      · exact List.forall_mem_cons.2
          ⟨Or.inl (List.mem_append_left added hplaced), hused⟩
  | case3 user waiting settled name rest hplaced hmem ihdeep ihrest =>
      rw [placeMembers, if_neg hplaced, dif_pos hmem] at hrun
      obtain ⟨walked, hdeep, hrun⟩ := bind_eq_ok_iff.1 hrun
      obtain ⟨below, rfl, hledBelow, husedBelow, hmembersBelow⟩ := ihdeep hdeep
      obtain ⟨later, rfl, hledLater, husedLater, hmembersLater⟩ :=
        ihrest (settled ++ below) hrun
      refine ⟨below ++ [name] ++ later, by simp only [List.append_assoc], ?_, ?_,
        ?_⟩
      · simp only [List.forall_mem_append, List.forall_mem_singleton]
        refine ⟨⟨?_, name, List.mem_cons_self, hmem, .refl⟩, ?_⟩
        · intro other hother
          obtain ⟨first, huses, hfirst, hchain⟩ := hledBelow other hother
          exact ⟨name, List.mem_cons_self, hmem,
            reachesWithin_iff.2 (Or.inr ⟨first, huses, hfirst, hchain⟩)⟩
        · intro other hother
          obtain ⟨first, hfirst, hchain⟩ := hledLater other hother
          exact ⟨first, List.mem_cons_of_mem name hfirst, hchain⟩
      · exact List.forall_mem_cons.2 ⟨Or.inl (by simp), husedLater⟩
      · simp only [List.forall_mem_append, List.forall_mem_singleton]
        refine ⟨⟨?_, ?_⟩, hmembersLater⟩
        · exact fun other hother member huses =>
            ((hmembersBelow other hother member huses).append [name]).append later
        · exact fun member huses =>
            ((husedBelow member huses).append [name]).append later
  | case4 user waiting settled name rest hplaced hmem hsource ih =>
      rw [placeMembers, if_neg hplaced, dif_neg hmem, if_pos hsource] at hrun
      obtain ⟨added, rfl, hled, hused, hmembers⟩ := ih hrun
      refine ⟨added, rfl, ?_, ?_, hmembers⟩
      · intro other hother
        obtain ⟨first, hfirst, hchain⟩ := hled other hother
        exact ⟨first, List.mem_cons_of_mem name hfirst, hchain⟩
      · have hoffers : sources.Offers name := by simpa [Sources.Offers] using hsource
        exact List.forall_mem_cons.2 ⟨Or.inr hoffers, hused⟩
  | case5 user waiting settled name rest hplaced hmem hsource =>
      rw [placeMembers, if_neg hplaced, dif_neg hmem, if_neg hsource] at hrun
      cases hrun

/-- All that the entries placed for a list use is accounted for. -/
theorem placeList_accounted {names : List String}
    (hrun : registry.placeList sources settled names = .ok after) :
    ∃ added, after = settled ++ added ∧
      ∀ name ∈ added, ∀ member, registry.Uses name member →
        Accounted sources after member := by
  induction names generalizing settled with
  | nil =>
      rw [placeList] at hrun
      obtain rfl := Except.ok.inj hrun
      exact ⟨[], by simp, by simp⟩
  | cons name rest ih =>
      rw [placeList_cons] at hrun
      split at hrun
      · exact ih hrun
      obtain ⟨walked, hwalk, hrun⟩ := bind_eq_ok_iff.1 hrun
      obtain ⟨below, rfl, -, hused, hmembers⟩ := placeMembers_spec hwalk
      obtain ⟨later, rfl, hlater⟩ := ih hrun
      refine ⟨below ++ [name] ++ later, by simp only [List.append_assoc], ?_⟩
      simp only [List.forall_mem_append, List.forall_mem_singleton]
      refine ⟨⟨?_, ?_⟩, hlater⟩
      · exact fun other hother member huses =>
          ((hmembers other hother member huses).append [name]).append later
      · exact fun member huses => ((hused member huses).append [name]).append later

/-! ## What an ordered registry was like -/

/-- Only a closed registry can be ordered. -/
theorem isClosed_of_order (hrun : registry.order = .ok ordered) :
    registry.IsClosed := by
  intro position user used huser huses
  have harranges := (order_spec hrun).arranges position
  rcases order_placeList hrun position with
    ⟨extension, hextension, hwalk⟩ | ⟨hlisted, -⟩
  · obtain ⟨added, hadded, hmembers⟩ := placeList_accounted hwalk
    rw [List.nil_append] at hadded
    have hplaced : user ∈ added := hadded ▸ (harranges.mem_iff user).2 huser
    rcases hmembers user hplaced used huses with hused | hoffers
    · exact Or.inl ((harranges.mem_iff used).1 hused)
    · exact (offers_iff hextension).1 hoffers
  · rw [hlisted] at huser
    cases huser

/-- A registry can be ordered exactly if it is closed.  Then every list holds what
it held before, each type once; without repeats it is only rearranged. -/
theorem order_eq_ok_iff_isClosed (registry : Registry) :
    ((∃ ordered, registry.order = .ok ordered) ↔ registry.IsClosed) ∧
      ∀ ordered, registry.order = .ok ordered → ∀ position,
        (ordered.listOf position).Nodup ∧
        (∀ name, name ∈ ordered.listOf position ↔
          name ∈ registry.listOf position) ∧
        ((registry.listOf position).Nodup →
          (ordered.listOf position).Perm (registry.listOf position)) := by
  constructor
  · constructor
    · rintro ⟨ordered, hrun⟩
      exact isClosed_of_order hrun
    · exact IsClosed.exists_order
  · intro ordered hrun position
    have harranges := (order_spec hrun).arranges position
    exact ⟨harranges.nodup, harranges.mem_iff, harranges.perm⟩

/-- With `B` in it twice, the list of both structs is closed and loses the
repetition; the one without `B` is not, and cannot be ordered. -/
theorem knot_order_conserves :
    (knot ["B", "A", "B"]).IsClosed ∧
      (∃ ordered, (knot ["B", "A", "B"]).order = .ok ordered ∧
        (ordered.listOf 0).Nodup ∧
        (∀ name, name ∈ ordered.listOf 0 ↔ name ∈ ["B", "A", "B"]) ∧
        (ordered.listOf 1).Perm ["C"]) ∧
      ¬ (knot ["A"]).IsClosed ∧
        ¬ ∃ ordered, (knot ["A"]).order = .ok ordered := by
  have hclosed : (knot ["B", "A", "B"]).IsClosed := by decide
  have hopen : ¬ (knot ["A"]).IsClosed := by decide
  obtain ⟨hiff, hconserves⟩ := order_eq_ok_iff_isClosed (knot ["B", "A", "B"])
  obtain ⟨ordered, hrun⟩ := hiff.2 hclosed
  obtain ⟨hnodup, hmem, -⟩ := hconserves ordered hrun 0
  obtain ⟨-, -, hperm⟩ := hconserves ordered hrun 1
  exact ⟨hclosed, ⟨ordered, hrun, hnodup, hmem, hperm (List.nodup_singleton _)⟩,
    hopen, fun hordered =>
      hopen ((order_eq_ok_iff_isClosed (knot ["A"])).1.1 hordered)⟩

end VideoRegistry.Registry
