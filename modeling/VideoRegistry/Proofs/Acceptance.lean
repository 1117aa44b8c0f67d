import Mathlib
import VideoRegistry.Proofs.Closure
import VideoRegistry.Proofs.Ordering
import VideoRegistry.Proofs.PlainDocument
import VideoRegistry.Proofs.WellRead

/-!
# Which registries can be closed

The lists that closing makes can always be ordered.  Closing itself looks at more
than the lists need: a walk goes on behind the structs of the provider and wants
whatever it gets to within reach of the extension it started from.  For lists that
are closed already this decides whether closing succeeds, and then nothing
changes.
-/

namespace VideoRegistry.Registry

variable {registry : Registry} {extension : Nat} {user : String}

/-- Closing the lists of a registry leaves no member struct out, so that the
closed lists can be ordered. -/
theorem close_isClosed_and_exists_order {closed : Registry}
    (hstep : registry.InStep) (hrun : registry.close = .ok closed) :
    closed.IsClosed ∧ ∃ ordered, closed.order = .ok ordered :=
  have hclosed := (close_spec hstep hrun).isClosed
  ⟨hclosed, hclosed.exists_order⟩

/-- Two structs that point to each other, and a list that needs both. -/
def cyclicPair : Registry :=
  Plain.registry
    [("A", [Plain.member "B" "" "b"]), ("B", [Plain.member "A" "*" "a"]),
      ("C", [Plain.member "B" "" "b", Plain.member "D" "" "d"]),
      ("D", [Plain.member "C" "*" "c"])]
    [Plain.extension "va" none ["A"], Plain.extension "vb" (some 0) ["C"]]

theorem cyclicPair_close_isClosed :
    ∃ closed, cyclicPair.InStep ∧ cyclicPair.close = .ok closed ∧
      closed.listOf 0 = ["B", "A"] ∧ closed.listOf 1 = ["D", "C"] ∧
        closed.IsClosed ∧ ∃ ordered, closed.order = .ok ordered := by
  let closed : Registry := { cyclicPair with
    ownership := ⟨[("A", 0), ("B", 0), ("C", 1), ("D", 1)]⟩
    extensions := [Plain.extension "va" none ["B", "A"],
      Plain.extension "vb" (some 0) ["D", "C"]] }
  have hstep : cyclicPair.InStep := by decide
  have hrun : cyclicPair.close = .ok closed := by cbv
  exact ⟨closed, hstep, hrun, rfl, rfl, close_isClosed_and_exists_order hstep hrun⟩

/-! ## What a walk looks at -/

/-- A walk that comes back has looked at the owners of everything it could get
to, whoever owns what lies between. -/
theorem claimMembers_ownersNear {available used : List String}
    {claims after : Claims}
    (hrun : registry.claimMembers extension user available used claims =
      .ok after) :
    ∀ name ∈ used, name ∈ available → ∀ target,
      registry.ReachesWithin available name target →
        registry.OwnersNear extension claims.ownership target := by
  induction user, available, used, claims using claimMembers.induct registry
    generalizing after with
  | case1 user available claims => simp
  | case2 user available claims name rest hmem ihdeep ihrest =>
      rw [claimMembers, dif_pos hmem] at hrun
      obtain ⟨walked, hwalk, hrun⟩ := bind_eq_ok_iff.1 hrun
      obtain ⟨claimed, hclaim, hrun⟩ := bind_eq_ok_iff.1 hrun
      obtain ⟨below, hbelow, -⟩ := claimMembers_spec hwalk
      obtain ⟨hnear, own, hown, -⟩ := claim_spec hclaim
      intro other hother havailable target hreaches
      rcases List.mem_cons.1 hother with rfl | hother
      · rcases hreaches.cases_without with
          rfl | ⟨member, huses, hmember, hchain⟩
        · exact fun owner howns => hnear owner (hbelow.mono howns)
        · exact ihdeep hwalk member huses hmember target hchain
      · intro owner howns
        exact ihrest claimed hrun other hother havailable target hreaches owner
          (hown.mono (hbelow.mono howns))
  | case3 user available claims name rest hmem ih =>
      rw [claimMembers, dif_neg hmem] at hrun
      intro other hother havailable
      rcases List.mem_cons.1 hother with rfl | hother
      · exact absurd havailable hmem
      · exact ih hrun other hother havailable

theorem closeList_ownersNear {names : List String} {claims after : Claims}
    (howned : ∀ name ∈ names, claims.ownership.owns name extension)
    (hrun : registry.closeList extension claims names = .ok after) :
    ∀ name ∈ names, ∀ used, registry.Reaches name used →
      used = name ∨ registry.OwnersNear extension claims.ownership used := by
  induction names generalizing claims with
  | nil => simp
  | cons first rest ih =>
      rw [closeList_cons] at hrun
      obtain ⟨walked, hwalk, hrun⟩ := bind_eq_ok_iff.1 hrun
      obtain ⟨below, hbelow, -⟩ :=
        claimEntry_spec (howned first List.mem_cons_self) hwalk
      intro name hname used hreaches
      rcases List.mem_cons.1 hname with rfl | hname
      · rcases hreaches.reachesWithin.cases_without with
          rfl | ⟨member, huses, hmember, hchain⟩
        · exact Or.inl rfl
        · rw [claimEntry, if_pos huses.isStruct_user] at hwalk
          exact Or.inr
            (claimMembers_ownersNear hwalk member huses hmember used hchain)
      · let next : Claims :=
          { walked with settled := walked.settled ++ [first] }
        have hrest : ∀ other ∈ rest, next.ownership.owns other extension :=
          fun other hother =>
            hbelow.mono (howned other (List.mem_cons_of_mem first hother))
        exact (ih hrest hrun name hname used hreaches).imp_right
          fun hnear owner howns => hnear owner (hbelow.mono howns)

theorem close_ownersNear {closed : Registry} {position : Nat} {used : String}
    (hstep : registry.InStep) (hrun : registry.close = .ok closed)
    (huser : user ∈ registry.listOf position)
    (hreaches : registry.Reaches user used) :
    used = user ∨ registry.OwnersNear position registry.ownership used := by
  obtain ⟨reached, claims, hreached, hlist, -⟩ := close_closeList hrun position
  have howned : ∀ name ∈ registry.listOf position, reached.owns name position :=
    fun name hname => hreached.mono ((hstep name position).2 hname)
  exact (closeList_ownersNear howned hlist user huser used hreaches).imp_right
    fun hnear owner howns => hnear owner (hreached.mono howns)

/-- In a closed registry whatever a listed struct reaches is listed. -/
theorem IsClosed.exists_mem_listOf {position : Nat} {used : String}
    (hclosed : registry.IsClosed) (huser : user ∈ registry.listOf position)
    (hreaches : registry.Reaches user used) :
    ∃ other, used ∈ registry.listOf other := by
  have hprovided : ∀ {other name}, registry.Provides other name →
      ∃ position, name ∈ registry.listOf position := by
    rintro other name (hlisted | ⟨provider, -, hlisted⟩)
    · exact ⟨other, hlisted⟩
    · exact ⟨provider, hlisted⟩
  induction hreaches with
  | single huses => exact hprovided (hclosed position user _ huser huses)
  | tail _ huses ih =>
      obtain ⟨other, hlisted⟩ := ih
      exact hprovided (hclosed other _ _ hlisted huses)

/-- Every struct that a listed struct reaches is in the same list or in that of
the provider. -/
def ReachIsClosed (registry : Registry) : Prop :=
  ∀ position user used, user ∈ registry.listOf position →
    registry.Reaches user used → registry.Provides position used

theorem reachIsClosed_of_close {closed : Registry} (hstep : registry.InStep)
    (hclosed : registry.IsClosed) (hrun : registry.close = .ok closed) :
    registry.ReachIsClosed := by
  intro position user used huser hreaches
  rcases close_ownersNear hstep hrun huser hreaches with rfl | hnear
  · exact Or.inl huser
  · obtain ⟨owner, hlisted⟩ := hclosed.exists_mem_listOf huser hreaches
    rcases hnear owner ((hstep used owner).2 hlisted) with rfl | hprovider
    · exact Or.inl hlisted
    · exact Or.inr ⟨owner, hprovider, hlisted⟩

/-! ## When nothing is left to claim -/

/-- A struct that a walk passes without a fault and without claiming it. -/
def Settled (registry : Registry) (extension : Nat) (ownership : Ownership)
    (name : String) : Prop :=
  registry.OwnersNear extension ownership name ∧
    ∃ owner, ownership.owns name owner

theorem claim_eq_self {used : String} {claims : Claims}
    (hsettled : registry.Settled extension claims.ownership used) :
    registry.claim extension user used claims = .ok claims := by
  obtain ⟨hnear, owner, howns⟩ := hsettled
  rw [← foreignOwner?_eq_none_iff] at hnear
  have howned : (claims.ownership.ownersOf used).isEmpty = false := by
    rw [List.isEmpty_eq_false_iff_exists_mem]
    exact ⟨owner, Ownership.mem_ownersOf_iff.2 howns⟩
  simp [claim, hnear, howned]

theorem claimMembers_eq_self {available used : List String} {claims : Claims}
    (hsettled : ∀ name ∈ used, ∀ target,
      Relation.ReflTransGen registry.Uses name target →
        registry.Settled extension claims.ownership target) :
    registry.claimMembers extension user available used claims = .ok claims := by
  induction user, available, used, claims
    using claimMembers.induct registry with
  | case1 user available claims => rw [claimMembers]
  | case2 user available claims name rest hmem ihdeep ihrest =>
      obtain ⟨hname, hrest⟩ := List.forall_mem_cons.1 hsettled
      have hdeep := ihdeep fun member huses target hchain =>
        hname target (.head huses hchain)
      rw [claimMembers, dif_pos hmem, hdeep]
      have hclaim : registry.claim extension user name claims = .ok claims :=
        claim_eq_self (hname name .refl)
      exact bind_eq_ok_iff.2 ⟨claims, rfl, bind_eq_ok_iff.2
        ⟨claims, hclaim, ihrest claims hrest⟩⟩
  | case3 user available claims name rest hmem ih =>
      rw [claimMembers, dif_neg hmem]
      exact ih (List.forall_mem_cons.1 hsettled).2

theorem closeList_eq_append {names : List String} {claims : Claims}
    (hsettled : ∀ name ∈ names, ∀ used, registry.Reaches name used →
      registry.Settled extension claims.ownership used) :
    registry.closeList extension claims names =
      .ok { claims with settled := claims.settled ++ names } := by
  induction names generalizing claims with
  | nil => simp [closeList]
  | cons first rest ih =>
      obtain ⟨hfirst, hrest⟩ := List.forall_mem_cons.1 hsettled
      have hentry : registry.claimEntry extension first claims = .ok claims := by
        unfold claimEntry
        split
        · exact claimMembers_eq_self fun member huses target hchain =>
            hfirst target (Relation.TransGen.head' huses hchain)
        · rfl
      let next : Claims := { claims with settled := claims.settled ++ [first] }
      have hnext : registry.closeList extension next rest =
          .ok { next with settled := next.settled ++ rest } := ih hrest
      rw [closeList_cons, hentry]
      apply hnext.trans
      simp [next]

theorem closeFrom_eq_self {position : Nat} {ownership : Ownership}
    {extensions : List Extension}
    (hsettled : ∀ (offset : Nat) (extension : Extension),
      extensions[offset]? = some extension → ∀ name ∈ extension.types,
        ∀ used, registry.Reaches name used →
          registry.Settled (position + offset) ownership used) :
    registry.closeFrom position ownership extensions =
      .ok (ownership, extensions) := by
  induction extensions generalizing position with
  | nil => rw [closeFrom]
  | cons first rest ih =>
      have hlist : registry.closeList position ⟨ownership, []⟩ first.types =
          .ok ⟨ownership, first.types⟩ :=
        closeList_eq_append (hsettled 0 first rfl)
      have hrest : registry.closeFrom (position + 1) ownership rest =
          .ok (ownership, rest) := by
        apply ih
        intro offset extension hextension
        rw [Nat.add_assoc, Nat.add_comm 1]
        exact hsettled (offset + 1) extension (by simpa using hextension)
      rw [closeFrom]
      exact bind_eq_ok_iff.2 ⟨_, hlist, bind_eq_ok_iff.2 ⟨_, hrest, rfl⟩⟩

/-- No struct has two owners. -/
def SingleOwners (registry : Registry) : Prop :=
  ∀ name, registry.isStruct name → ∀ owner other,
    registry.ownership.owns name owner → registry.ownership.owns name other →
      owner = other

theorem close_eq_self (hstep : registry.InStep)
    (hsingle : registry.SingleOwners) (hreach : registry.ReachIsClosed) :
    registry.close = .ok registry := by
  have hfrom : registry.closeFrom 0 registry.ownership registry.extensions =
      .ok (registry.ownership, registry.extensions) := by
    apply closeFrom_eq_self
    intro position extension hextension name hname used hreaches
    rw [Nat.zero_add]
    have huser : name ∈ registry.listOf position := by
      rwa [listOf_eq hextension]
    obtain ⟨owner, hlisted, hnear⟩ : ∃ owner, used ∈ registry.listOf owner ∧
        (owner = position ∨ registry.provider? position = some owner) := by
      rcases hreach position name used huser hreaches with
        hlisted | ⟨provider, hprovider, hlisted⟩
      · exact ⟨position, hlisted, Or.inl rfl⟩
      · exact ⟨provider, hlisted, Or.inr hprovider⟩
    have howns := (hstep used owner).2 hlisted
    refine ⟨fun other hother => ?_, owner, howns⟩
    obtain rfl := hsingle used hreaches.isStruct_used owner other howns hother
    exact hnear
  rw [close]
  exact bind_eq_ok_iff.2 ⟨_, hfrom, rfl⟩

instance : Decidable registry.SingleOwners :=
  decidable_of_iff
    (∀ claim ∈ registry.ownership.claims, registry.isStruct claim.1 →
      ∀ other ∈ registry.ownership.claims,
        claim.1 = other.1 → claim.2 = other.2)
    (by
      simp only [SingleOwners, Ownership.owns_iff_mem, Prod.forall]
      constructor
      · intro hbounded name hstruct owner other howner hother
        exact hbounded name owner howner hstruct name other hother rfl
      · rintro hsingle name owner howner hstruct _ other hother rfl
        exact hsingle name hstruct owner other howner hother)

/-- A registry whose lists are closed can be ordered; it can be closed, which
then changes nothing, exactly if the provider of a list also has what the list
only reaches. -/
theorem close_eq_ok_iff_reachIsClosed {config : Config}
    {document : Xml.Document}
    (hread : readDocument config document = .ok registry)
    (hsingle : registry.SingleOwners) (hclosed : registry.IsClosed) :
    (∃ ordered, registry.order = .ok ordered) ∧
      (registry.close = .ok registry ↔ registry.ReachIsClosed) ∧
        ∀ closed, registry.close = .ok closed → closed = registry := by
  have hstep := (readDocument_wellRead hread).inStep
  refine ⟨hclosed.exists_order, ⟨reachIsClosed_of_close hstep hclosed,
    close_eq_self hstep hsingle⟩, ?_⟩
  intro closed hrun
  have hreach := reachIsClosed_of_close hstep hclosed hrun
  rw [close_eq_self hstep hsingle hreach] at hrun
  exact (Except.ok.inj hrun).symm

/-- Two extensions, of which the second uses a struct of the first. -/
def pairStructs : List (String × List Member) :=
  [("A", [Plain.member "N" "*" "n"]), ("N", [Plain.member "A" "*" "a"]),
    ("B", [Plain.member "A" "" "a"])]

def pair : Registry :=
  Plain.registry pairStructs
    [Plain.extension "va" none ["A", "N"], Plain.extension "vb" (some 0) ["B"]]

theorem pair_close_eq_self :
    readDocument Plain.brief (Plain.document pairStructs
        [("va", ["A", "N"]), ("vb", ["v/va.h", "B"])]) = .ok pair ∧
      pair.SingleOwners ∧ pair.IsClosed ∧
        (∃ ordered, pair.order = .ok ordered) ∧
          (pair.close = .ok pair ↔ pair.ReachIsClosed) ∧
            ∀ closed, pair.close = .ok closed → closed = pair := by
  have hread : readDocument Plain.brief (Plain.document pairStructs
      [("va", ["A", "N"]), ("vb", ["v/va.h", "B"])]) = .ok pair :=
    readDocument_eq_ok_iff.2 ⟨by cbv, by decide⟩
  have hsingle : pair.SingleOwners := by decide
  have hclosed : pair.IsClosed := by decide
  exact ⟨hread, hsingle, hclosed,
    close_eq_ok_iff_reachIsClosed hread hsingle hclosed⟩

/-- Three extensions in a chain, each using a struct of the one before. -/
def chainStructs : List (String × List Member) :=
  [("A", [Plain.member "int" "" "x"]), ("B", [Plain.member "A" "" "a"]),
    ("C", [Plain.member "B" "" "b"])]

def chain : Registry :=
  Plain.registry chainStructs
    [Plain.extension "va" none ["A"], Plain.extension "vb" (some 0) ["B"],
      Plain.extension "vc" (some 1) ["C"]]

/-- Closed lists and single owners are not enough for closing to succeed. -/
theorem chain_isClosed_and_close_eq_error :
    readDocument Plain.brief (Plain.document chainStructs
        [("va", ["A"]), ("vb", ["v/va.h", "B"]), ("vc", ["v/vb.h", "C"])]) =
        .ok chain ∧
      chain.SingleOwners ∧ chain.IsClosed ∧ chain.order = .ok chain ∧
        chain.close = .error ⟨1, .foreignStruct "B" "A" "va" "vc"⟩ := by
  refine ⟨readDocument_eq_ok_iff.2 ⟨?_, ?_⟩, ?_, ?_, ?_, ?_⟩
  · cbv
  · decide
  · decide
  · decide
  · cbv
  · cbv

end VideoRegistry.Registry
