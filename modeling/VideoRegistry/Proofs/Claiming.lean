import Mathlib.Order.Bounds.Basic
import VideoRegistry.Proofs.Acceptance
import VideoRegistry.Proofs.PlainDocument
import VideoRegistry.Proofs.WellRead

/-!
# Who owns what after closing

A walk over member structs tries every path that does not come back to itself, so
it meets exactly the structs that its start reaches, the start apart.  Those
without an owner go to the extension whose list is being closed, and an owner
once given is never changed.  So a struct without an owner goes to the first
extension that lists another struct from which it is reached.
-/

namespace VideoRegistry

/-- The claimed types without owners go to an extension, which is then their only
owner; all other types keep their owners. -/
structure Ownership.Gives (extension : Nat) (claimed : String → Prop)
    (before after : Ownership) : Prop where
  kept : ∀ name, (before.ownersOf name = [] → ¬ claimed name) →
    after.ownersOf name = before.ownersOf name
  given : ∀ name, before.ownersOf name = [] → claimed name →
    after.ownersOf name = [extension]

namespace Ownership.Gives

variable {extension : Nat} {claimed others : String → Prop}
  {before middle after : Ownership}

theorem refl (ownership : Ownership) (hnone : ∀ name, ¬ claimed name) :
    Gives extension claimed ownership ownership where
  kept _ _ := rfl
  given name _ hclaimed := absurd hclaimed (hnone name)

theorem trans (hfirst : Gives extension claimed before middle)
    (hsecond : Gives extension others middle after) :
    Gives extension (fun name => claimed name ∨ others name) before after where
  kept name hkept := by
    have hmiddle : middle.ownersOf name = before.ownersOf name :=
      hfirst.kept name fun hnone => not_or.1 (hkept hnone) |>.1
    rw [hsecond.kept name, hmiddle]
    rw [hmiddle]
    exact fun hnone => not_or.1 (hkept hnone) |>.2
  given name hnone hclaimed := by
    by_cases hearly : claimed name
    · -- What has an owner by now keeps it.
      have hmiddle := hfirst.given name hnone hearly
      rw [hsecond.kept name, hmiddle]
      simp [hmiddle]
    · have hmiddle := hfirst.kept name fun _ => hearly
      exact hsecond.given name (hmiddle.trans hnone)
        (hclaimed.resolve_left hearly)

theorem congr (hgives : Gives extension claimed before after)
    (hiff : ∀ name, claimed name ↔ others name) :
    Gives extension others before after where
  kept name hkept :=
    hgives.kept name fun hnone hclaimed => hkept hnone ((hiff name).1 hclaimed)
  given name hnone hclaimed :=
    hgives.given name hnone ((hiff name).2 hclaimed)

end Ownership.Gives

namespace Registry

variable {registry closed : Registry} {extension : Nat} {user : String}

theorem claim_gives {used : String} {claims after : Claims}
    (hrun : registry.claim extension user used claims = .ok after) :
    Ownership.Gives extension (· = used) claims.ownership after.ownership := by
  unfold claim at hrun
  split at hrun
  · cases hrun
  split at hrun
  · next hunowned =>
      obtain rfl := Except.ok.inj hrun
      rw [List.isEmpty_iff] at hunowned
      constructor
      · intro name hkept
        have hne : name ≠ used := by
          rintro rfl
          exact hkept hunowned rfl
        exact Ownership.ownersOf_add_of_ne hne
      · rintro name - rfl
        exact Ownership.ownersOf_add_self hunowned
  · next howned =>
      obtain rfl := Except.ok.inj hrun
      rw [List.isEmpty_iff] at howned
      constructor
      · exact fun _ _ => rfl
      · rintro name hnone rfl
        exact absurd hnone howned

/-- A walk claims what it can get to without coming back to its path. -/
theorem claimMembers_gives {available used : List String}
    {claims after : Claims}
    (hrun : registry.claimMembers extension user available used claims =
      .ok after) :
    Ownership.Gives extension
      (fun target => ∃ name ∈ used, name ∈ available ∧
        registry.ReachesWithin available name target)
      claims.ownership after.ownership := by
  induction user, available, used, claims using claimMembers.induct registry
    generalizing after with
  | case1 user available claims =>
      rw [claimMembers] at hrun
      obtain rfl := Except.ok.inj hrun
      exact .refl claims.ownership (by simp)
  | case2 user available claims name rest hmem ihdeep ihrest =>
      rw [claimMembers, dif_pos hmem] at hrun
      obtain ⟨walked, hwalk, hrun⟩ := bind_eq_ok_iff.1 hrun
      obtain ⟨claimed, hclaim, hrun⟩ := bind_eq_ok_iff.1 hrun
      refine (((ihdeep hwalk).trans (claim_gives hclaim)).trans
        (ihrest claimed hrun)).congr ?_
      intro target
      -- The struct itself and what lies behind it are what it reaches.
      have hname : registry.ReachesWithin available name target ↔ _ :=
        reachesWithin_iff
      simp only [List.mem_cons, exists_eq_or_imp, hmem, true_and, hname]
      exact or_congr_left or_comm
  | case3 user available claims name rest hmem ih =>
      rw [claimMembers, dif_neg hmem] at hrun
      refine (ih hrun).congr fun target => ?_
      simp [hmem]

theorem claimEntry_gives {name : String} {claims after : Claims}
    (hrun : registry.claimEntry extension name claims = .ok after) :
    Ownership.Gives extension
      (fun target => registry.Reaches name target ∧ target ≠ name)
      claims.ownership after.ownership := by
  unfold claimEntry at hrun
  split at hrun
  · exact (claimMembers_gives hrun).congr fun target =>
      reaches_and_ne_iff.symm
  · next hstruct =>
      obtain rfl := Except.ok.inj hrun
      refine .refl claims.ownership ?_
      rintro target ⟨hreaches, -⟩
      exact hstruct (Reaches.isStruct_user hreaches)

/-- Some of the names, other than the target itself, reaches it. -/
def ReachedFrom (registry : Registry) (names : List String) (target : String) :
    Prop :=
  ∃ name ∈ names, registry.Reaches name target ∧ target ≠ name

theorem closeList_gives {names : List String} {claims after : Claims}
    (hrun : registry.closeList extension claims names = .ok after) :
    Ownership.Gives extension (registry.ReachedFrom names)
      claims.ownership after.ownership := by
  induction names generalizing claims with
  | nil =>
      rw [closeList] at hrun
      obtain rfl := Except.ok.inj hrun
      exact .refl claims.ownership (by simp [ReachedFrom])
  | cons first rest ih =>
      rw [closeList_cons] at hrun
      obtain ⟨walked, hwalk, hrun⟩ := bind_eq_ok_iff.1 hrun
      let next : Claims := { walked with settled := walked.settled ++ [first] }
      have hrest : Ownership.Gives extension (registry.ReachedFrom rest)
          next.ownership after.ownership := ih hrun
      refine ((claimEntry_gives hwalk).trans hrest).congr fun target => ?_
      simp [ReachedFrom]

/-- Who owns what once the lists from a position on are closed: a type without an
owner goes to the first of the lists that reaches it. -/
structure GivesFrom (registry : Registry) (position : Nat)
    (extensions : List Extension) (before after : Ownership) : Prop where
  kept : ∀ name, (before.ownersOf name = [] →
      ∀ extension ∈ extensions, ¬ registry.ReachedFrom extension.types name) →
    after.ownersOf name = before.ownersOf name
  given : ∀ name, before.ownersOf name = [] → ∀ front extension back,
    extensions = front ++ extension :: back →
      registry.ReachedFrom extension.types name →
      (∀ earlier ∈ front, ¬ registry.ReachedFrom earlier.types name) →
        after.ownersOf name = [position + front.length]

theorem closeFrom_gives {position : Nat} {before after : Ownership}
    {extensions closed : List Extension}
    (hrun : registry.closeFrom position before extensions =
      .ok (after, closed)) :
    registry.GivesFrom position extensions before after := by
  induction extensions generalizing position before closed with
  | nil =>
      rw [closeFrom] at hrun
      obtain ⟨rfl, -⟩ := Prod.mk.inj (Except.ok.inj hrun)
      exact ⟨fun _ _ => rfl, by simp⟩
  | cons first rest ih =>
      rw [closeFrom] at hrun
      obtain ⟨claims, hlist, hrun⟩ := bind_eq_ok_iff.1 hrun
      obtain ⟨⟨final, closedRest⟩, hfrom, hrun⟩ := bind_eq_ok_iff.1 hrun
      obtain ⟨rfl, -⟩ := Prod.mk.inj (pure_eq_ok_iff.1 hrun)
      have hfirst := closeList_gives hlist
      have hrest := ih hfrom
      constructor
      · intro name hkept
        have hmiddle : claims.ownership.ownersOf name = before.ownersOf name :=
          hfirst.kept name fun hnone => hkept hnone first List.mem_cons_self
        rw [hrest.kept name, hmiddle]
        rw [hmiddle]
        exact fun hnone other hother =>
          hkept hnone other (List.mem_cons_of_mem first hother)
      · rintro name hnone (_ | ⟨head, front⟩) extension back hsplit hreached
          hearlier
        · obtain ⟨rfl, -⟩ := List.cons.inj hsplit
          have hmiddle := hfirst.given name hnone hreached
          rw [hrest.kept name, hmiddle]
          · rfl
          · simp [hmiddle]
        · obtain ⟨rfl, hrestSplit⟩ := List.cons.inj hsplit
          have hmiddle := hfirst.kept name fun _ =>
            hearlier first List.mem_cons_self
          have hlater := hrest.given name (hmiddle.trans hnone) front extension
            back hrestSplit hreached fun other hother =>
              hearlier other (List.mem_cons_of_mem first hother)
          rw [hlater, List.length_cons, Nat.add_assoc, Nat.add_comm 1]

/-- The list of an extension holds another struct that reaches a type. -/
def ListReaches (registry : Registry) (position : Nat) (name : String) : Prop :=
  registry.ReachedFrom (registry.listOf position) name

theorem ListReaches.exists_split {position : Nat} {name : String}
    (hreaches : registry.ListReaches position name) :
    ∃ extension, registry.extensions =
        registry.extensions.take position ++
          extension :: registry.extensions.drop (position + 1) ∧
      (registry.extensions.take position).length = position ∧
        registry.ReachedFrom extension.types name := by
  have hreached : registry.ReachedFrom (registry.listOf position) name := hreaches
  obtain ⟨user, huser, -⟩ := hreaches
  obtain ⟨extension, hextension, -⟩ := mem_listOf_iff.1 huser
  obtain ⟨hlt, hat⟩ := List.getElem?_eq_some_iff.1 hextension
  refine ⟨extension, ?_, ?_, ?_⟩
  · rw [← hat, List.getElem_cons_drop, List.take_append_drop]
  · rw [List.length_take, Nat.min_eq_left (Nat.le_of_lt hlt)]
  · rwa [listOf_eq hextension] at hreached

theorem exists_listReaches {extension : Extension} {bound : Nat}
    {name : String} (hmem : extension ∈ registry.extensions.take bound)
    (hreached : registry.ReachedFrom extension.types name) :
    ∃ position < bound, registry.ListReaches position name := by
  obtain ⟨position, hposition⟩ := List.getElem?_of_mem hmem
  rw [List.getElem?_take] at hposition
  split at hposition
  · next hlt =>
      refine ⟨position, hlt, ?_⟩
      rwa [ListReaches, listOf_eq hposition]
  · cases hposition

/-- Closing never changes an owner that is there.  A type without one goes to the
first extension whose list holds another struct that reaches it, and stays without
one if there is none. -/
structure Assigns (registry closed : Registry) : Prop where
  kept : ∀ name, registry.ownership.ownersOf name ≠ [] →
    closed.ownership.ownersOf name = registry.ownership.ownersOf name
  first : ∀ name position, registry.ownership.ownersOf name = [] →
    IsLeast {position | registry.ListReaches position name} position →
      closed.ownership.ownersOf name = [position]
  unreached : ∀ name, registry.ownership.ownersOf name = [] →
    (∀ position, ¬ registry.ListReaches position name) →
      closed.ownership.ownersOf name = []

theorem close_assigns (hrun : registry.close = .ok closed) :
    registry.Assigns closed := by
  rw [close] at hrun
  obtain ⟨⟨ownership, extensions⟩, hfrom, hrun⟩ := bind_eq_ok_iff.1 hrun
  obtain rfl := pure_eq_ok_iff.1 hrun
  have hgives := closeFrom_gives hfrom
  constructor
  · exact fun name howned => hgives.kept name fun hnone => absurd hnone howned
  · rintro name position hnone ⟨hreaches, hleast⟩
    obtain ⟨extension, hsplit, hlength, hreached⟩ :=
      ListReaches.exists_split hreaches
    have hgiven := hgives.given name hnone _ extension _ hsplit hreached ?_
    · rwa [hlength, Nat.zero_add] at hgiven
    · intro earlier hearlier hreached
      obtain ⟨other, hlt, hother⟩ := exists_listReaches hearlier hreached
      exact absurd (hleast hother) (Nat.not_le_of_lt hlt)
  · intro name hnone hunreached
    refine (hgives.kept name fun _ extension hextension hreached => ?_).trans hnone
    rw [← List.take_length (l := registry.extensions)] at hextension
    obtain ⟨position, -, hposition⟩ := exists_listReaches hextension hreached
    exact hunreached position hposition

/-- After closing, a type that had no owner has at most one. -/
theorem Assigns.ownersOf_of_nil {name : String}
    (hassigns : registry.Assigns closed)
    (hnone : registry.ownership.ownersOf name = []) :
    closed.ownership.ownersOf name = [] ∨
      ∃ position, closed.ownership.ownersOf name = [position] := by
  classical
  by_cases hreached : ∃ position, registry.ListReaches position name
  · refine Or.inr ⟨Nat.find hreached, hassigns.first name _ hnone ?_⟩
    exact ⟨Nat.find_spec hreached, fun _ => Nat.find_min' hreached⟩
  · exact Or.inl (hassigns.unreached name hnone (not_exists.1 hreached))

/-- Closing gives the structs without owners to the extensions that first reach
them from another struct, and changes no other owner.  In particular a type that a
document lists in at most one extension ends with at most one owner. -/
theorem close_ownersOf (hrun : registry.close = .ok closed) :
    registry.Assigns closed ∧
      ∀ config document, readDocument config document = .ok registry →
        ∀ name, (∀ position other, name ∈ registry.listOf position →
            name ∈ registry.listOf other → position = other) →
          ∀ owner other, closed.ownership.owns name owner →
            closed.ownership.owns name other → owner = other := by
  have hassigns := close_assigns hrun
  refine ⟨hassigns, ?_⟩
  intro config document hread name honce owner other howner hother
  have hstep := (readDocument_wellRead hread).inStep
  rw [← Ownership.mem_ownersOf_iff] at howner hother
  by_cases hnone : registry.ownership.ownersOf name = []
  · rcases hassigns.ownersOf_of_nil hnone with hnil | ⟨position, hsingle⟩
    · rw [hnil] at howner
      cases howner
    · rw [hsingle, List.mem_singleton] at howner hother
      rw [howner, hother]
  · rw [hassigns.kept name hnone, Ownership.mem_ownersOf_iff, hstep] at howner hother
    exact honce owner other howner hother

/-- Two extensions that both reach `B`; the first one gets it. -/
def sharedStructs : List (String × List Member) :=
  [("A", [Plain.member "B" "" "b"]), ("B", [Plain.member "A" "*" "a"]),
    ("C", [Plain.member "B" "" "b"])]

def sharedDocument : Xml.Document :=
  Plain.document sharedStructs [("va", ["A"]), ("vb", ["v/va.h", "C"])]

def shared : Registry :=
  Plain.registry sharedStructs
    [Plain.extension "va" none ["A"], Plain.extension "vb" (some 0) ["C"]]

theorem shared_close_ownersOf :
    ∃ closed, shared.close = .ok closed ∧
      IsLeast {position | shared.ListReaches position "B"} 0 ∧
      closed.ownership.ownersOf "B" = [0] ∧
      readDocument Plain.brief sharedDocument = .ok shared ∧
      ∀ owner other, closed.ownership.owns "B" owner →
        closed.ownership.owns "B" other → owner = other := by
  let closed : Registry := { shared with
    ownership := ⟨[("A", 0), ("B", 0), ("C", 1)]⟩
    extensions := [Plain.extension "va" none ["B", "A"],
      Plain.extension "vb" (some 0) ["C"]] }
  have hrun : shared.close = .ok closed := by cbv
  have huses : "B" ∈ shared.memberStructs "A" := by decide
  have hleast : IsLeast {position | shared.ListReaches position "B"} 0 :=
    ⟨⟨"A", by decide, Uses.reaches huses, by decide⟩,
      fun _ _ => Nat.zero_le _⟩
  have hread : readDocument Plain.brief sharedDocument = .ok shared :=
    readDocument_eq_ok_iff.2 ⟨by cbv, by decide⟩
  have hunlisted : ∀ position, "B" ∉ shared.listOf position := by
    intro position hlisted
    have hlt : position < 2 := lt_length_of_mem_listOf hlisted
    have hnone : ∀ position < 2, "B" ∉ shared.listOf position := by decide
    exact hnone position hlt hlisted
  obtain ⟨hassigns, honce⟩ := close_ownersOf hrun
  exact ⟨closed, hrun, hleast, hassigns.first "B" 0 (by decide) hleast,
    hread, honce _ _ hread "B" fun position _ hlisted =>
      absurd hlisted (hunlisted position)⟩

/-- A list with a struct that the extension does not own, as no document gives
it, and a chain of members that leads from the struct back to it. -/
def unclaimed : Registry :=
  { Plain.registry (sharedStructs.take 2) [] with
    extensions := [Plain.extension "va" none ["A"]] }

/-- No walk claims the struct that it starts from, so a listed struct without an
owner that only reaches itself stays without one. -/
theorem unclaimed_reached_and_unowned :
    ∃ closed, unclaimed.close = .ok closed ∧
      unclaimed.ownership.ownersOf "A" = [] ∧
      IsLeast {position | ∃ user ∈ unclaimed.listOf position,
        unclaimed.Reaches user "A"} 0 ∧
      closed.ownership.ownersOf "A" = [] := by
  let closed : Registry := { unclaimed with
    ownership := ⟨[("B", 0)]⟩
    extensions := [Plain.extension "va" none ["B", "A"]] }
  have hrun : unclaimed.close = .ok closed := by cbv
  have hthere : unclaimed.Uses "A" "B" := by
    have hmem : "B" ∈ unclaimed.memberStructs "A" := by decide
    exact hmem
  have hback : unclaimed.Uses "B" "A" := by
    have hmem : "A" ∈ unclaimed.memberStructs "B" := by decide
    exact hmem
  have hreaches : unclaimed.Reaches "A" "A" := hthere.reaches.tail hback
  exact ⟨closed, hrun, rfl, ⟨⟨"A", by decide, hreaches⟩,
    fun _ _ => Nat.zero_le _⟩, by decide⟩

end Registry

end VideoRegistry
