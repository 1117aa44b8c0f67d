import Mathlib.Data.List.Nodup
import VideoRegistry.Proofs.Lists
import VideoRegistry.Proofs.Outcome
import VideoRegistry.Proofs.Ownership

/-!
# What closing the lists achieves

Closing walks through the member structs of every listed struct and claims those
without an owner.  Ownership only grows, so whatever a walk found or put within
reach of its extension stays there, also while later lists are closed.  The main
statement says what is left at the end: lists in step with the ownership, without
repeats and closed.
-/

namespace VideoRegistry

/-- An ownership after claims of one extension: what is in `added` had no owner
and now belongs to the extension, and nothing else changed hands. -/
structure Ownership.GrowsBy (extension : Nat) (added : List String)
    (before after : Ownership) : Prop where
  owns_iff : ∀ name owner, after.owns name owner ↔
    before.owns name owner ∨ (name ∈ added ∧ owner = extension)
  unowned : ∀ name ∈ added, ∀ owner, ¬ before.owns name owner
  nodup : added.Nodup

namespace Ownership.GrowsBy

variable {extension : Nat} {left right : List String}
  {before middle after : Ownership}

theorem refl (extension : Nat) (ownership : Ownership) :
    GrowsBy extension [] ownership ownership where
  owns_iff := by simp
  unowned := by simp
  nodup := List.nodup_nil

theorem owns_of_mem (hgrows : GrowsBy extension left before after)
    {name : String} (hadded : name ∈ left) : after.owns name extension :=
  (hgrows.owns_iff name extension).2 (Or.inr ⟨hadded, rfl⟩)

theorem mono (hgrows : GrowsBy extension left before after) {name : String}
    {owner : Nat} (howns : before.owns name owner) : after.owns name owner :=
  (hgrows.owns_iff name owner).2 (Or.inl howns)

theorem trans (hfirst : GrowsBy extension left before middle)
    (hsecond : GrowsBy extension right middle after) :
    GrowsBy extension (left ++ right) before after where
  owns_iff name owner := by
    rw [hsecond.owns_iff, hfirst.owns_iff, List.mem_append, or_and_right,
      or_assoc]
  unowned name hadded owner howns := by
    rcases List.mem_append.1 hadded with hleft | hright
    · exact hfirst.unowned name hleft owner howns
    · exact hsecond.unowned name hright owner (hfirst.mono howns)
  nodup := by
    rw [List.nodup_append']
    refine ⟨hfirst.nodup, hsecond.nodup, ?_⟩
    intro name hleft hright
    exact hsecond.unowned name hright extension (hfirst.owns_of_mem hleft)

end Ownership.GrowsBy

/-- A type that has owners keeps them and gets no others. -/
def Ownership.KeepsOwners (before after : Ownership) : Prop :=
  ∀ name other, before.owns name other →
    ∀ owner, after.owns name owner ↔ before.owns name owner

namespace Ownership.KeepsOwners

variable {before middle after : Ownership}

theorem refl (ownership : Ownership) : KeepsOwners ownership ownership :=
  fun _ _ _ _ => Iff.rfl

theorem mono (hkeeps : KeepsOwners before after) {name : String} {owner : Nat}
    (howns : before.owns name owner) : after.owns name owner :=
  (hkeeps name owner howns owner).2 howns

theorem trans (hfirst : KeepsOwners before middle)
    (hsecond : KeepsOwners middle after) : KeepsOwners before after :=
  fun name other howns owner =>
    (hsecond name other (hfirst.mono howns) owner).trans
      (hfirst name other howns owner)

end Ownership.KeepsOwners

theorem Ownership.GrowsBy.keepsOwners {extension : Nat} {added : List String}
    {before after : Ownership} (hgrows : GrowsBy extension added before after) :
    KeepsOwners before after := by
  intro name other howns owner
  rw [hgrows.owns_iff, or_iff_left]
  rintro ⟨hadded, -⟩
  exact hgrows.unowned name hadded other howns

namespace Registry

variable {registry : Registry} {extension : Nat} {user : String}

/-- An extension, or the one it depends on, owns a type. -/
def Supplies (registry : Registry) (extension : Nat) (ownership : Ownership)
    (name : String) : Prop :=
  ∃ owner, ownership.owns name owner ∧
    (owner = extension ∨ registry.provider? extension = some owner)

theorem Supplies.mono {before after : Ownership} {name : String}
    (hgrows : ∀ owner, before.owns name owner → after.owns name owner)
    (hsupplies : registry.Supplies extension before name) :
    registry.Supplies extension after name := by
  obtain ⟨owner, howns, hnear⟩ := hsupplies
  exact ⟨owner, hgrows owner howns, hnear⟩

/-- All owners of a type are the extension or the one it depends on. -/
def OwnersNear (registry : Registry) (extension : Nat) (ownership : Ownership)
    (name : String) : Prop :=
  ∀ owner, ownership.owns name owner →
    owner = extension ∨ registry.provider? extension = some owner

theorem foreignOwner?_eq_none_iff {ownership : Ownership} {name : String} :
    registry.foreignOwner? extension ownership name = none ↔
      registry.OwnersNear extension ownership name := by
  simp only [foreignOwner?, List.find?_eq_none, Ownership.mem_ownersOf_iff,
    Bool.and_eq_true, bne_iff_ne, ne_eq, not_and, not_not, OwnersNear, provider?]
  apply forall₂_congr
  intro owner _
  rw [or_iff_not_imp_left]

/-- A claim is granted if all owners are near, and leaves an owner near. -/
theorem claim_spec {used : String} {claims after : Claims}
    (hrun : registry.claim extension user used claims = .ok after) :
    registry.OwnersNear extension claims.ownership used ∧
      ∃ added, claims.ownership.GrowsBy extension added after.ownership ∧
        after.settled = claims.settled ++ added ∧ (∀ name ∈ added, name = used) ∧
          registry.Supplies extension after.ownership used := by
  unfold claim at hrun
  split at hrun
  · cases hrun
  · next hforeign =>
      rw [foreignOwner?_eq_none_iff] at hforeign
      refine ⟨hforeign, ?_⟩
      split at hrun
      · next hunowned =>
          obtain rfl := Except.ok.inj hrun
          rw [List.isEmpty_iff, Ownership.ownersOf_eq_nil_iff] at hunowned
          have hgrows : claims.ownership.GrowsBy extension [used]
              (claims.ownership.add used extension) :=
            { owns_iff := by simp [Ownership.owns_add_iff]
              unowned := by simpa using hunowned
              nodup := List.nodup_singleton used }
          refine ⟨[used], hgrows, rfl, by simp, extension, ?_, Or.inl rfl⟩
          exact hgrows.owns_of_mem List.mem_cons_self
      · next howned =>
          obtain rfl := Except.ok.inj hrun
          rw [List.isEmpty_iff, Ownership.ownersOf_eq_nil_iff] at howned
          obtain ⟨owner, howner⟩ := not_forall_not.1 howned
          exact ⟨[], .refl extension claims.ownership, by simp, by simp, owner,
            howner, hforeign owner howner⟩

/-- A walk that comes back claims every struct it was sent to and everything
that these use, apart from the structs on its path. -/
theorem claimMembers_spec {available used : List String}
    {claims after : Claims}
    (hrun : registry.claimMembers extension user available used claims =
      .ok after) :
    ∃ added, claims.ownership.GrowsBy extension added after.ownership ∧
      after.settled = claims.settled ++ added ∧
      (∀ name ∈ used, name ∈ available →
        registry.Supplies extension after.ownership name) ∧
      ∀ name ∈ added, ∀ member, registry.Uses name member →
        member ∈ available → registry.Supplies extension after.ownership member := by
  induction user, available, used, claims using claimMembers.induct registry
    generalizing after with
  | case1 user available claims =>
      rw [claimMembers] at hrun
      obtain rfl := Except.ok.inj hrun
      exact ⟨[], .refl extension claims.ownership, by simp, by simp, by simp⟩
  | case2 user available claims name rest hmem ihdeep ihrest =>
      rw [claimMembers, dif_pos hmem] at hrun
      obtain ⟨walked, hwalk, hrun⟩ := bind_eq_ok_iff.1 hrun
      obtain ⟨claimed, hclaim, hrun⟩ := bind_eq_ok_iff.1 hrun
      obtain ⟨below, hbelow, hsettledBelow, husedBelow, hbelowMembers⟩ :=
        ihdeep hwalk
      obtain ⟨-, own, hown, hsettledOwn, hownName, hnear⟩ := claim_spec hclaim
      obtain ⟨later, hlater, hsettledLater, husedLater, hlaterMembers⟩ :=
        ihrest claimed hrun
      have hgrows := (hbelow.trans hown).trans hlater
      -- Whatever has an owner within reach at some point keeps it.
      have hnearAfter : registry.Supplies extension after.ownership name :=
        hnear.mono fun owner => hlater.mono
      have hwalked : ∀ member, registry.Supplies extension walked.ownership member →
          registry.Supplies extension after.ownership member :=
        fun member hmember => hmember.mono fun owner howns =>
          hlater.mono (hown.mono howns)
      refine ⟨below ++ own ++ later, hgrows, ?_, ?_, ?_⟩
      · rw [hsettledLater, hsettledOwn, hsettledBelow]
        simp only [List.append_assoc]
      · intro other hother havailable
        rcases List.mem_cons.1 hother with rfl | hother
        · exact hnearAfter
        · exact husedLater other hother havailable
      · intro other hother member huses havailable
        by_cases hname : member = name
        · exact hname ▸ hnearAfter
        have hwithout := mem_without.2 ⟨havailable, hname⟩
        rcases List.mem_append.1 hother with hother | hother
        · apply hwalked
          rcases List.mem_append.1 hother with hother | hother
          · exact hbelowMembers other hother member huses hwithout
          · obtain rfl := hownName other hother
            exact husedBelow member huses hwithout
        · exact hlaterMembers other hother member huses havailable
  | case3 user available claims name rest hmem ih =>
      rw [claimMembers, dif_neg hmem] at hrun
      obtain ⟨added, hgrows, hsettled, hused, hmembers⟩ := ih hrun
      refine ⟨added, hgrows, hsettled, ?_, hmembers⟩
      intro other hother havailable
      rcases List.mem_cons.1 hother with rfl | hother
      · exact absurd havailable hmem
      · exact hused other hother havailable

/-- Every member struct of a type has an owner within reach. -/
def MembersSupplied (registry : Registry) (extension : Nat)
    (ownership : Ownership) (name : String) : Prop :=
  ∀ member, registry.Uses name member →
    registry.Supplies extension ownership member

theorem MembersSupplied.mono {before after : Ownership} {name : String}
    (hgrows : ∀ name owner, before.owns name owner → after.owns name owner)
    (hsupplied : registry.MembersSupplied extension before name) :
    registry.MembersSupplied extension after name :=
  fun member huses => (hsupplied member huses).mono (hgrows member)

/-- Claims what an entry of a list uses. -/
def claimEntry (registry : Registry) (extension : Nat) (name : String)
    (claims : Claims) : Checked Claims :=
  if registry.isStruct name then
    registry.claimMembers extension name (without name registry.structNames)
      (registry.memberStructs name) claims
  else .ok claims

theorem closeList_cons {name : String} {rest : List String} {claims : Claims} :
    registry.closeList extension claims (name :: rest) =
      registry.claimEntry extension name claims >>= fun walked =>
        registry.closeList extension
          { walked with settled := walked.settled ++ [name] } rest := by
  rw [closeList, claimEntry]
  split <;> rfl

theorem claimEntry_grows {name : String} {claims after : Claims}
    (hrun : registry.claimEntry extension name claims = .ok after) :
    ∃ added, claims.ownership.GrowsBy extension added after.ownership ∧
      after.settled = claims.settled ++ added := by
  unfold claimEntry at hrun
  split at hrun
  · obtain ⟨added, hgrows, hsettled, -⟩ := claimMembers_spec hrun
    exact ⟨added, hgrows, hsettled⟩
  · obtain rfl := Except.ok.inj hrun
    exact ⟨[], .refl extension claims.ownership, by simp⟩

/-- The walk from an entry that the extension owns leaves no member struct
behind, neither of the entry nor of what it claimed. -/
theorem claimEntry_spec {name : String} {claims after : Claims}
    (howned : claims.ownership.owns name extension)
    (hrun : registry.claimEntry extension name claims = .ok after) :
    ∃ added, claims.ownership.GrowsBy extension added after.ownership ∧
      after.settled = claims.settled ++ added ∧
      ∀ other ∈ name :: added,
        registry.MembersSupplied extension after.ownership other := by
  unfold claimEntry at hrun
  split at hrun
  · obtain ⟨added, hgrows, hsettled, hused, hmembers⟩ := claimMembers_spec hrun
    refine ⟨added, hgrows, hsettled, ?_⟩
    intro other hother member huses
    by_cases hname : member = name
    · -- The walk passes over the entry itself, which the extension owns.
      exact ⟨extension, hname ▸ hgrows.mono howned, Or.inl rfl⟩
    have havailable : member ∈ without name registry.structNames :=
      mem_without.2 ⟨mem_structNames huses.isStruct_used, hname⟩
    rcases List.mem_cons.1 hother with rfl | hadded
    · exact hused member huses havailable
    · exact hmembers other hadded member huses havailable
  · next hstruct =>
      obtain rfl := Except.ok.inj hrun
      refine ⟨[], .refl extension claims.ownership, by simp, ?_⟩
      intro other hother member huses
      obtain rfl := List.mem_singleton.1 hother
      exact absurd huses.isStruct_user hstruct

/-- A closed list holds the old entries and the claimed structs, and supplies
the member structs of all of them. -/
theorem closeList_spec {names : List String} {claims after : Claims}
    (howned : ∀ name ∈ names, claims.ownership.owns name extension)
    (hrun : registry.closeList extension claims names = .ok after) :
    ∃ added, claims.ownership.GrowsBy extension added after.ownership ∧
      after.settled.Perm (claims.settled ++ (names ++ added)) ∧
      ∀ name ∈ names ++ added,
        registry.MembersSupplied extension after.ownership name := by
  induction names generalizing claims with
  | nil =>
      rw [closeList] at hrun
      obtain rfl := Except.ok.inj hrun
      exact ⟨[], .refl extension claims.ownership, by simp, by simp⟩
  | cons name rest ih =>
      rw [closeList_cons] at hrun
      obtain ⟨walked, hwalk, hrun⟩ := bind_eq_ok_iff.1 hrun
      obtain ⟨below, hbelow, hsettled, hmembers⟩ :=
        claimEntry_spec (howned name List.mem_cons_self) hwalk
      let next : Claims := { walked with settled := walked.settled ++ [name] }
      have hrest : ∀ other ∈ rest, next.ownership.owns other extension :=
        fun other hother =>
          hbelow.mono (howned other (List.mem_cons_of_mem name hother))
      obtain ⟨later, hlater, hperm, hlaterMembers⟩ := ih hrest hrun
      refine ⟨below ++ later, hbelow.trans hlater, ?_, ?_⟩
      · apply hperm.trans
        simp only [next, hsettled, List.append_assoc,
          List.perm_append_left_iff]
        exact (List.perm_append_comm_assoc below [name] (rest ++ later)).trans
          (List.Perm.cons name (List.perm_append_comm_assoc below rest later))
      · intro other hother
        have hcases : other ∈ name :: below ∨ other ∈ rest ++ later := by
          simp only [List.mem_append, List.mem_cons] at hother ⊢
          tauto
        rcases hcases with hbefore | hafter
        · exact (hmembers other hbefore).mono fun _ _ => hlater.mono
        · exact hlaterMembers other hafter

theorem closeList_keepsOwners {names : List String} {claims after : Claims}
    (hrun : registry.closeList extension claims names = .ok after) :
    claims.ownership.KeepsOwners after.ownership := by
  induction names generalizing claims with
  | nil =>
      rw [closeList] at hrun
      obtain rfl := Except.ok.inj hrun
      exact .refl claims.ownership
  | cons name rest ih =>
      rw [closeList_cons] at hrun
      obtain ⟨walked, hwalk, hrun⟩ := bind_eq_ok_iff.1 hrun
      obtain ⟨added, hgrows, -⟩ := claimEntry_grows hwalk
      have hrest := ih hrun
      exact hgrows.keepsOwners.trans hrest

/-- A run over extensions closes each list on its own.  It comes to a list with all
owners of the beginning, and the owners that it leaves the list with stay. -/
theorem closeFrom_closeList {position : Nat} {before after : Ownership}
    {extensions closed : List Extension}
    (hrun : registry.closeFrom position before extensions =
      .ok (after, closed)) :
    before.KeepsOwners after ∧ closed.length = extensions.length ∧
      ∀ (offset : Nat) (extension : Extension),
        extensions[offset]? = some extension →
          ∃ reached claims, before.KeepsOwners reached ∧
            registry.closeList (position + offset) ⟨reached, []⟩ extension.types =
              .ok claims ∧
            claims.ownership.KeepsOwners after ∧
            closed[offset]? = some { extension with types := claims.settled } := by
  induction extensions generalizing position before closed with
  | nil =>
      rw [closeFrom] at hrun
      obtain ⟨rfl, rfl⟩ := Prod.mk.inj (Except.ok.inj hrun)
      exact ⟨.refl before, rfl, by simp⟩
  | cons first rest ih =>
      rw [closeFrom] at hrun
      obtain ⟨claims, hlist, hrun⟩ := bind_eq_ok_iff.1 hrun
      obtain ⟨⟨final, closedRest⟩, hfrom, hrun⟩ := bind_eq_ok_iff.1 hrun
      obtain ⟨rfl, rfl⟩ := Prod.mk.inj (pure_eq_ok_iff.1 hrun)
      have hkeeps : before.KeepsOwners claims.ownership :=
        closeList_keepsOwners hlist
      obtain ⟨hlater, hlength, hlists⟩ := ih hfrom
      refine ⟨hkeeps.trans hlater, congrArg (· + 1) hlength, ?_⟩
      intro offset extension hextension
      cases offset with
      | zero =>
          obtain rfl := Option.some.inj hextension
          exact ⟨before, claims, .refl before, hlist, hlater, rfl⟩
      | succ offset =>
          obtain ⟨reached, found, hreached, hclose, hfinal, hresult⟩ :=
            hlists offset extension (by simpa using hextension)
          refine ⟨reached, found, hkeeps.trans hreached, ?_, hfinal,
            by simpa using hresult⟩
          rwa [← Nat.add_assoc, Nat.add_right_comm]

theorem close_closeList {closed : Registry} (hrun : registry.close = .ok closed)
    (position : Nat) :
    ∃ reached claims, registry.ownership.KeepsOwners reached ∧
      registry.closeList position ⟨reached, []⟩ (registry.listOf position) =
        .ok claims ∧
      claims.ownership.KeepsOwners closed.ownership ∧
      closed.listOf position = claims.settled := by
  rw [close] at hrun
  obtain ⟨⟨ownership, extensions⟩, hfrom, hrun⟩ := bind_eq_ok_iff.1 hrun
  obtain rfl := pure_eq_ok_iff.1 hrun
  obtain ⟨hkeeps, hlength, hlists⟩ := closeFrom_closeList hfrom
  cases hextension : registry.extensions[position]? with
  | some extension =>
      obtain ⟨reached, claims, hreached, hlist, hfinal, hresult⟩ :=
        hlists position extension hextension
      rw [Nat.zero_add, ← listOf_eq hextension] at hlist
      exact ⟨reached, claims, hreached, hlist, hfinal, by simp [listOf, hresult]⟩
  | none =>
      -- Behind the last extension the list is empty, before and after.
      have hnone : extensions[position]? = none := by
        rw [List.getElem?_eq_none_iff] at hextension ⊢
        omega
      refine ⟨registry.ownership, ⟨registry.ownership, []⟩, .refl _, ?_, hkeeps,
        by simp [listOf, hnone]⟩
      rw [listOf, hextension]
      rfl

/-- Ownership and the lists of the extensions from a position on agree. -/
def InStepFrom (position : Nat) (ownership : Ownership)
    (extensions : List Extension) : Prop :=
  ∀ offset extension, extensions[offset]? = some extension →
    ∀ name, ownership.owns name (position + offset) ↔ name ∈ extension.types

/-- What closing the lists of the extensions from a position on achieves. -/
structure ClosesFrom (registry : Registry) (position : Nat)
    (before after : Ownership) (extensions closed : List Extension) : Prop where
  bare_eq : closed.map bare = extensions.map bare
  mono : ∀ name owner, before.owns name owner → after.owns name owner
  owner_within : ∀ name owner, after.owns name owner →
    before.owns name owner ∨
      (position ≤ owner ∧ owner < position + extensions.length)
  inStep : InStepFrom position after closed
  nodup : (∀ extension ∈ extensions, extension.types.Nodup) →
    ∀ extension ∈ closed, extension.types.Nodup
  supplied : ∀ offset extension, closed[offset]? = some extension →
    ∀ name ∈ extension.types,
      registry.MembersSupplied (position + offset) after name

theorem InStepFrom.tail {position : Nat} {before after : Ownership}
    {first : Extension} {rest : List Extension} {added : List String}
    (hstep : InStepFrom position before (first :: rest))
    (hgrows : before.GrowsBy position added after) :
    InStepFrom (position + 1) after rest := by
  intro offset extension hextension name
  have hbefore := hstep (offset + 1) extension (by simpa using hextension) name
  have hposition : position + 1 + offset = position + (offset + 1) := by omega
  rw [hposition, hgrows.owns_iff, hbefore]
  simp

theorem closeFrom_spec {position : Nat} {before after : Ownership}
    {extensions closed : List Extension}
    (hstep : InStepFrom position before extensions)
    (hrun : registry.closeFrom position before extensions =
      .ok (after, closed)) :
    registry.ClosesFrom position before after extensions closed := by
  induction extensions generalizing position before closed with
  | nil =>
      rw [closeFrom] at hrun
      obtain ⟨rfl, rfl⟩ := Prod.mk.inj (Except.ok.inj hrun)
      exact ⟨rfl, fun _ _ howns => howns, fun _ _ howns => Or.inl howns, hstep,
        fun _ => by simp, by simp⟩
  | cons first rest ih =>
      rw [closeFrom] at hrun
      obtain ⟨claims, hlist, hrun⟩ := bind_eq_ok_iff.1 hrun
      obtain ⟨⟨final, closedRest⟩, hfrom, hrun⟩ := bind_eq_ok_iff.1 hrun
      obtain ⟨rfl, rfl⟩ := Prod.mk.inj (pure_eq_ok_iff.1 hrun)
      have hfirst : ∀ name, before.owns name position ↔ name ∈ first.types :=
        fun name => by simpa using hstep 0 first rfl name
      obtain ⟨added, hgrows, hperm, hsupplied⟩ :=
        closeList_spec (fun name hname => (hfirst name).2 hname) hlist
      have htail := ih (hstep.tail hgrows) hfrom
      rw [List.nil_append] at hperm
      have hhead : ∀ name, final.owns name position ↔ name ∈ claims.settled := by
        intro name
        rw [hperm.mem_iff, List.mem_append, ← hfirst name]
        constructor
        · intro howns
          rcases htail.owner_within name position howns with howns | hwithin
          · simpa [hgrows.owns_iff] using howns
          · omega
        · intro hmem
          exact htail.mono name position (by simpa [hgrows.owns_iff] using hmem)
      refine ⟨?_, ?_, ?_, ?_, ?_, ?_⟩
      · rw [List.map_cons, List.map_cons, htail.bare_eq]
        rfl
      · exact fun name owner howns => htail.mono name owner (hgrows.mono howns)
      · intro name owner howns
        rw [List.length_cons]
        rcases htail.owner_within name owner howns with howns | hwithin
        · rcases (hgrows.owns_iff name owner).1 howns with howns | ⟨-, rfl⟩
          · exact Or.inl howns
          · exact Or.inr ⟨Nat.le_refl owner, by omega⟩
        · exact Or.inr ⟨by omega, by omega⟩
      · intro offset extension hextension name
        cases offset with
        | zero =>
            obtain rfl := Option.some.inj hextension
            exact hhead name
        | succ offset =>
            have hrest := htail.inStep offset extension (by simpa using hextension)
            rw [← hrest name, Nat.add_assoc, Nat.add_comm 1]
      · intro hnodup extension hextension
        rcases List.mem_cons.1 hextension with rfl | hextension
        · refine hperm.nodup_iff.2 (List.nodup_append'.2
            ⟨hnodup first List.mem_cons_self, hgrows.nodup, ?_⟩)
          intro name hlisted hadded
          exact hgrows.unowned name hadded position ((hfirst name).2 hlisted)
        · exact htail.nodup (fun other hother =>
            hnodup other (List.mem_cons_of_mem first hother)) extension hextension
      · intro offset extension hextension name hname
        cases offset with
        | zero =>
            obtain rfl := Option.some.inj hextension
            exact (hsupplied name (hperm.mem_iff.1 hname)).mono htail.mono
        | succ offset =>
            have hrest := htail.supplied offset extension
              (by simpa using hextension) name hname
            rwa [Nat.add_assoc, Nat.add_comm 1] at hrest

theorem InStep.inStepFrom (hstep : registry.InStep) :
    InStepFrom 0 registry.ownership registry.extensions := by
  intro offset extension hextension name
  rw [Nat.zero_add, hstep name offset, listOf_eq hextension]

/-- What closing the lists of a registry achieves. -/
structure Closes (registry closed : Registry) : Prop where
  types_eq : closed.types = registry.types
  bare_eq : closed.extensions.map bare = registry.extensions.map bare
  inStep : closed.InStep
  nodup : registry.ListsDistinct → closed.ListsDistinct
  isClosed : closed.IsClosed

theorem close_spec {closed : Registry} (hstep : registry.InStep)
    (hrun : registry.close = .ok closed) : registry.Closes closed := by
  rw [close] at hrun
  obtain ⟨⟨ownership, extensions⟩, hfrom, hrun⟩ := bind_eq_ok_iff.1 hrun
  obtain rfl := pure_eq_ok_iff.1 hrun
  have hspec := closeFrom_spec hstep.inStepFrom hfrom
  have hlength : extensions.length = registry.extensions.length := by
    simpa using congrArg List.length hspec.bare_eq
  have hinStep : InStep
      { registry with ownership := ownership, extensions := extensions } := by
    intro name position
    by_cases hposition : position < extensions.length
    · have hextension := List.getElem?_eq_getElem hposition
      have hat := hspec.inStep position _ hextension name
      rw [Nat.zero_add] at hat
      rw [listOf_eq hextension]
      exact hat
    · -- Behind the last extension nothing was owned and nothing is claimed.
      have hnone : registry.extensions[position]? = none :=
        List.getElem?_eq_none (by omega)
      rw [mem_listOf_iff]
      constructor
      · intro howns
        rcases hspec.owner_within name position howns with howns | hwithin
        · obtain ⟨extension, hextension, -⟩ :=
            mem_listOf_iff.1 ((hstep name position).1 howns)
          simp [hnone] at hextension
        · omega
      · rintro ⟨extension, hextension, -⟩
        exact absurd (List.getElem?_eq_some_iff.1 hextension).1 hposition
  refine ⟨rfl, hspec.bare_eq, hinStep, hspec.nodup, ?_⟩
  intro position user used hlisted huses
  obtain ⟨extension, hextension, huser⟩ := mem_listOf_iff.1 hlisted
  obtain ⟨owner, howns, hnear⟩ :=
    hspec.supplied position extension hextension user huser used huses
  rw [Nat.zero_add] at hnear
  have hused := (hinStep used owner).1 howns
  rcases hnear with rfl | hprovider
  · exact Or.inl hused
  · exact Or.inr ⟨owner, by rwa [provider?_congr hspec.bare_eq], hused⟩

end Registry

end VideoRegistry
