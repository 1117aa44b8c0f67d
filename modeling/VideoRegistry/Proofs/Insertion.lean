import VideoRegistry.Proofs.Passes
import VideoRegistry.Proofs.Route

/-!
# Where closing inserts structs

Closing goes through a list entry by entry and puts what it claims for an entry in
front of it.  A struct is claimed for the first entry that leads to it, since a walk
claims all that has no owner yet.  Within one walk a struct is claimed when the walk
leaves it, behind the structs that it uses, unless one of these is on the path and
so leads back to it.
-/

namespace VideoRegistry

/-- An entry of a list with the structs that were inserted in front of it. -/
structure EntryGroup where
  inserted : List String
  entry : String
deriving DecidableEq, Repr

def EntryGroup.names (group : EntryGroup) : List String :=
  group.inserted ++ [group.entry]

theorem filter_flatMap_names {kind : String → Bool} {groups : List EntryGroup}
    (hinserted : ∀ group ∈ groups, ∀ name ∈ group.inserted, kind name)
    (hentry : ∀ group ∈ groups, ¬ kind group.entry) :
    (groups.flatMap EntryGroup.names).filter kind =
      groups.flatMap EntryGroup.inserted := by
  rw [List.filter_flatMap]
  refine List.flatMap_congr fun group hgroup => ?_
  rw [EntryGroup.names, List.filter_append,
    List.filter_eq_self.2 (hinserted group hgroup),
    List.filter_cons_of_neg (hentry group hgroup), List.filter_nil, List.append_nil]

theorem Ownership.Gives.exists_owner {extension : Nat} {claimed : String → Prop}
    {before after : Ownership} {name : String}
    (hgives : Gives extension claimed before after) (hclaimed : claimed name) :
    ∃ owner, after.owns name owner := by
  by_cases hnone : before.ownersOf name = []
  · refine ⟨extension, mem_ownersOf_iff.1 ?_⟩
    rw [hgives.given name hnone hclaimed]
    exact List.mem_singleton_self extension
  · obtain ⟨owner, howner⟩ := List.exists_mem_of_ne_nil _ hnone
    rw [← hgives.kept name fun hnil => absurd hnil hnone] at howner
    exact ⟨owner, mem_ownersOf_iff.1 howner⟩

namespace Registry

variable {registry closed : Registry} {extension position : Nat} {user : String}

/-! ## The order of claims -/

/-- What a claimed struct uses had an owner before, or was claimed before it, unless
it leads back to the struct. -/
def UsedEarlier (registry : Registry) (before : Ownership)
    (added : List String) : Prop :=
  ∀ name ∈ added, ∀ member, registry.Uses name member →
    ¬ registry.Reaches member name →
      (∃ owner, before.owns member owner) ∨ Before member name added

theorem UsedEarlier.append {before middle after : Ownership}
    {left right : List String}
    (hfirst : before.GrowsBy extension left middle)
    (hsecond : middle.GrowsBy extension right after)
    (hleft : registry.UsedEarlier before left)
    (hright : registry.UsedEarlier middle right) :
    registry.UsedEarlier before (left ++ right) := by
  intro name hname member huses hback
  rcases List.mem_append.1 hname with hname | hname
  · exact (hleft name hname member huses hback).imp_right
      fun hbefore => hbefore.append_right right
  · have hnew : name ∉ left := fun hmem =>
      hsecond.unowned name hname extension (hfirst.owns_of_mem hmem)
    rcases hright name hname member huses hback with ⟨owner, howns⟩ | hbefore
    · rcases (hfirst.owns_iff member owner).1 howns with howns | ⟨hmem, -⟩
      · exact Or.inl ⟨owner, howns⟩
      · exact Or.inr (before_append hmem hname hnew)
    · exact Or.inr (hbefore.append_left hnew)

/-- A walk claims what a struct uses before the struct.  The structs that are not
`available` are on its path, and lead to where it stands. -/
theorem claimMembers_usedEarlier {available used : List String}
    {claims after : Claims}
    (hpath : ∀ name, registry.isStruct name → name ∉ available →
      Relation.ReflTransGen registry.Uses name user)
    (hused : ∀ name ∈ used, registry.Uses user name)
    (hrun : registry.claimMembers extension user available used claims =
      .ok after) :
    ∃ added, claims.ownership.GrowsBy extension added after.ownership ∧
      after.settled = claims.settled ++ added ∧
        registry.UsedEarlier claims.ownership added := by
  induction user, available, used, claims using claimMembers.induct registry
    generalizing after with
  | case1 user available claims =>
      rw [claimMembers] at hrun
      obtain rfl := Except.ok.inj hrun
      exact ⟨[], .refl extension claims.ownership, by simp, by simp [UsedEarlier]⟩
  | case2 user available claims name rest hmem ihdeep ihrest =>
      rw [claimMembers, dif_pos hmem] at hrun
      obtain ⟨walked, hwalk, hrun⟩ := bind_eq_ok_iff.1 hrun
      obtain ⟨claimed, hclaim, hrun⟩ := bind_eq_ok_iff.1 hrun
      obtain ⟨huses, hrest⟩ := List.forall_mem_cons.1 hused
      have hpathDeep : ∀ other, registry.isStruct other →
          other ∉ without name available →
            Relation.ReflTransGen registry.Uses other name := by
        intro other hstruct hother
        by_cases hself : other = name
        · exact hself ▸ .refl
        · have hnot : other ∉ available := fun havailable =>
            hother (mem_without.2 ⟨havailable, hself⟩)
          exact (hpath other hstruct hnot).tail huses
      obtain ⟨below, hbelow, hsettledBelow, hearlierBelow⟩ :=
        ihdeep hpathDeep (fun _ hmember => hmember) hwalk
      obtain ⟨-, own, hown, hsettledOwn, hownName, -⟩ := claim_spec hclaim
      obtain ⟨later, hlater, hsettledLater, hearlierLater⟩ :=
        ihrest claimed hpath hrest hrun
      obtain ⟨-, -, -, hsupplied, -⟩ := claimMembers_spec hwalk
      -- All that `name` uses has an owner when it is claimed, its path apart.
      have hearlierOwn : registry.UsedEarlier walked.ownership own := by
        intro other hother member husesMember hback
        obtain rfl := hownName other hother
        left
        by_cases hmember : member ∈ without other available
        · obtain ⟨owner, howns, -⟩ := hsupplied member husesMember hmember
          exact ⟨owner, howns⟩
        · have hchain := hpathDeep member husesMember.isStruct_used hmember
          rcases Relation.reflTransGen_iff_eq_or_transGen.1 hchain with
            rfl | hreaches
          · exact absurd husesMember.reaches hback
          · exact absurd hreaches hback
      refine ⟨below ++ own ++ later, (hbelow.trans hown).trans hlater, ?_,
        .append (hbelow.trans hown) hlater
          (.append hbelow hown hearlierBelow hearlierOwn) hearlierLater⟩
      rw [hsettledLater, hsettledOwn, hsettledBelow]
      simp only [List.append_assoc]
  | case3 user available claims name rest hmem ih =>
      rw [claimMembers, dif_neg hmem] at hrun
      exact ih hpath (List.forall_mem_cons.1 hused).2 hrun

/-- For an entry only other structs that it leads to are claimed. -/
theorem claimEntry_usedEarlier {name : String} {claims after : Claims}
    (hrun : registry.claimEntry extension name claims = .ok after) :
    ∃ added, claims.ownership.GrowsBy extension added after.ownership ∧
      after.settled = claims.settled ++ added ∧
        registry.UsedEarlier claims.ownership added ∧
          ∀ other ∈ added, registry.Reaches name other := by
  have hgives := claimEntry_gives hrun
  obtain ⟨added, hgrows, hsettled, hearlier⟩ : ∃ added,
      claims.ownership.GrowsBy extension added after.ownership ∧
        after.settled = claims.settled ++ added ∧
          registry.UsedEarlier claims.ownership added := by
    unfold claimEntry at hrun
    split at hrun
    · refine claimMembers_usedEarlier ?_ (fun _ hmember => hmember) hrun
      intro other hstruct hother
      have hself : other = name := by
        by_contra hne
        exact hother (mem_without.2 ⟨mem_structNames hstruct, hne⟩)
      exact hself ▸ .refl
    · obtain rfl := Except.ok.inj hrun
      exact ⟨[], .refl extension claims.ownership, by simp, by simp [UsedEarlier]⟩
  refine ⟨added, hgrows, hsettled, hearlier, ?_⟩
  intro other hother
  have hnone : claims.ownership.ownersOf other = [] :=
    Ownership.ownersOf_eq_nil_iff.2 (hgrows.unowned other hother)
  by_contra hnot
  have hkept := hgives.kept other fun _ hclaimed => hnot hclaimed.1
  rw [hnone, Ownership.ownersOf_eq_nil_iff] at hkept
  exact hkept extension (hgrows.owns_of_mem hother)

/-! ## Lists -/

/-- Every inserted struct is reached from the entry that it stands in front of, and
from no other entry in front of that one. -/
def FirstReached (registry : Registry) (groups : List EntryGroup) : Prop :=
  ∀ front group back, groups = front ++ group :: back →
    ∀ name ∈ group.inserted, registry.Reaches group.entry name ∧
      ∀ earlier ∈ front, registry.Reaches earlier.entry name →
        name = earlier.entry

theorem closeList_groups {names : List String} {claims after : Claims}
    (hrun : registry.closeList extension claims names = .ok after) :
    ∃ groups : List EntryGroup, groups.map EntryGroup.entry = names ∧
      after.settled = claims.settled ++ groups.flatMap EntryGroup.names ∧
      claims.ownership.GrowsBy extension (groups.flatMap EntryGroup.inserted)
        after.ownership ∧
      registry.UsedEarlier claims.ownership (groups.flatMap EntryGroup.inserted) ∧
      registry.FirstReached groups := by
  induction names generalizing claims with
  | nil =>
      rw [closeList] at hrun
      obtain rfl := Except.ok.inj hrun
      exact ⟨[], rfl, by simp, .refl extension claims.ownership,
        by simp [UsedEarlier], by simp [FirstReached]⟩
  | cons first rest ih =>
      rw [closeList_cons] at hrun
      obtain ⟨walked, hwalk, hrun⟩ := bind_eq_ok_iff.1 hrun
      obtain ⟨below, hbelow, hsettledBelow, hearlierBelow, hreached⟩ :=
        claimEntry_usedEarlier hwalk
      obtain ⟨groups, hentries, hsettled, hgrows, hearlier, hfirst⟩ := ih hrun
      refine ⟨⟨below, first⟩ :: groups, by rw [List.map_cons, hentries], ?_,
        hbelow.trans hgrows, .append hbelow hgrows hearlierBelow hearlier, ?_⟩
      · rw [hsettled, hsettledBelow, List.flatMap_cons, EntryGroup.names]
        simp only [List.append_assoc]
      · rintro (_ | ⟨head, front⟩) group back hsplit name hname
        · obtain ⟨rfl, -⟩ := List.cons.inj hsplit
          exact ⟨hreached name hname, by simp⟩
        · obtain ⟨rfl, rfl⟩ := List.cons.inj hsplit
          obtain ⟨hentry, hfront⟩ := hfirst front group back rfl name hname
          refine ⟨hentry, List.forall_mem_cons.2 ⟨fun hreaches => ?_, hfront⟩⟩
          -- Whatever the first entry reaches has an owner behind it.
          have hunowned := hgrows.unowned name
            (List.mem_flatMap.2 ⟨group, by simp, hname⟩)
          by_contra hne
          obtain ⟨owner, howns⟩ :=
            (claimEntry_gives hwalk).exists_owner ⟨hreaches, hne⟩
          exact hunowned owner howns

/-- How the list of an extension grows when it is closed. -/
structure Inserts (registry : Registry) (old new : List String)
    (groups : List EntryGroup) : Prop where
  /-- The new list has the old entries, each behind what was inserted for it. -/
  entries : groups.map EntryGroup.entry = old
  names : groups.flatMap EntryGroup.names = new
  /-- Only structs without an owner are inserted, and each once. -/
  unowned : ∀ group ∈ groups, ∀ name ∈ group.inserted,
    registry.isStruct name ∧ registry.ownership.ownersOf name = []
  nodup : (groups.flatMap EntryGroup.inserted).Nodup
  /-- A struct is inserted in front of the first old entry that reaches it. -/
  first : ∀ front group back, groups = front ++ group :: back →
    ∀ name ∈ group.inserted, registry.Reaches group.entry name ∧
      ∀ earlier ∈ front, ¬ registry.Reaches earlier.entry name
  /-- Inserted structs stand behind the inserted ones that they use, cycles apart. -/
  usedFirst : ∀ user ∈ groups.flatMap EntryGroup.inserted,
    ∀ used ∈ groups.flatMap EntryGroup.inserted, registry.Uses user used →
      ¬ registry.Reaches used user → Before used user new

theorem inserts_of_closeList {reached : Ownership} {claims : Claims}
    (hstep : registry.InStep) (hreached : registry.ownership.KeepsOwners reached)
    (hrun : registry.closeList position ⟨reached, []⟩ (registry.listOf position) =
      .ok claims) :
    ∃ groups, registry.Inserts (registry.listOf position) claims.settled groups := by
  obtain ⟨groups, hentries, hsettled, hgrows, hearlier, hfirst⟩ :=
    closeList_groups hrun
  rw [List.nil_append] at hsettled
  have howned : ∀ group ∈ groups,
      registry.ownership.owns group.entry position := by
    intro group hgroup
    rw [hstep, ← hentries]
    exact List.mem_map_of_mem hgroup
  have hunowned : ∀ group ∈ groups, ∀ name ∈ group.inserted, ∀ owner,
      ¬ registry.ownership.owns name owner := by
    intro group hgroup name hname owner howns
    exact hgrows.unowned name (List.mem_flatMap.2 ⟨group, hgroup, hname⟩) owner
      (hreached.mono howns)
  refine ⟨groups, hentries, hsettled.symm, ?_, hgrows.nodup, ?_, ?_⟩
  · intro group hgroup name hname
    obtain ⟨front, back, hsplit⟩ := List.append_of_mem hgroup
    exact ⟨(hfirst front group back hsplit name hname).1.isStruct_used,
      Ownership.ownersOf_eq_nil_iff.2 (hunowned group hgroup name hname)⟩
  · rintro front group back rfl name hname
    obtain ⟨hreaches, hfront⟩ := hfirst front group back rfl name hname
    refine ⟨hreaches, fun earlier hearlier hreaches => ?_⟩
    obtain rfl := hfront earlier hearlier hreaches
    exact hunowned group (by simp) _ hname position
      (howned earlier (List.mem_append_left _ hearlier))
  · intro user huser used hused huses hback
    rcases hearlier user huser used huses hback with ⟨owner, howns⟩ | hbefore
    · exact absurd howns (hgrows.unowned used hused owner)
    · let free : String → Bool := fun name =>
        (registry.ownership.ownersOf name).isEmpty
      have hinserted : (groups.flatMap EntryGroup.names).filter free =
          groups.flatMap EntryGroup.inserted := by
        apply filter_flatMap_names
        · intro group hgroup name hname
          exact List.isEmpty_iff.2 (Ownership.ownersOf_eq_nil_iff.2
            (hunowned group hgroup name hname))
        · intro group hgroup hfree
          exact Ownership.ownersOf_eq_nil_iff.1 (List.isEmpty_iff.1 hfree) position
            (howned group hgroup)
      rw [← hinserted] at hbefore
      exact hsettled ▸ hbefore.of_filter

/-- Closing keeps the order of every list and inserts structs without owners, each
in front of the first entry that reaches it and behind the inserted structs that it
uses itself. -/
theorem close_inserts (hstep : registry.InStep)
    (hrun : registry.close = .ok closed) (position : Nat) :
    (registry.listOf position).Sublist (closed.listOf position) ∧
      ∃ groups, registry.Inserts (registry.listOf position)
        (closed.listOf position) groups := by
  refine ⟨close_sublist hrun position, ?_⟩
  obtain ⟨reached, claims, hreached, hlist, -, hclosed⟩ :=
    close_closeList hrun position
  rw [hclosed]
  exact inserts_of_closeList hstep hreached hlist

/-- `A` and `B` need three more structs, two of which point to each other. -/
def layered : Registry :=
  Plain.registry
    [("A", [Plain.member "C" "" "c"]),
      ("B", [Plain.member "D" "" "d", Plain.member "C" "" "c"]),
      ("C", [Plain.member "E" "" "e"]), ("D", [Plain.member "E" "" "e"]),
      ("E", [Plain.member "C" "*" "c"])]
    [Plain.extension "va" none ["A", "B"]]

theorem layered_close_inserts :
    ∃ closed, layered.InStep ∧ layered.close = .ok closed ∧
      closed.listOf 0 = ["E", "C", "A", "D", "B"] ∧
        ["A", "B"].Sublist ["E", "C", "A", "D", "B"] ∧
          ∃ groups, layered.Inserts ["A", "B"] ["E", "C", "A", "D", "B"] groups := by
  let closed : Registry := { layered with
    ownership := ⟨[("A", 0), ("B", 0), ("E", 0), ("C", 0), ("D", 0)]⟩
    extensions := [Plain.extension "va" none ["E", "C", "A", "D", "B"]] }
  have hstep : layered.InStep := by decide
  have hrun : layered.close = .ok closed := by cbv
  exact ⟨closed, hstep, hrun, rfl, close_inserts hstep hrun 0⟩

end Registry

end VideoRegistry
