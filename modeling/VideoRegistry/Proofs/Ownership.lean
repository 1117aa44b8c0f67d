import VideoRegistry.Registry.Ownership

/-!
# Ownership as a relation

The list of claims behind an ownership is only looked at through the relation it
stands for: who owns what.
-/

namespace VideoRegistry.Ownership

theorem mem_insertClaim {claim other : String × Nat}
    {claims : List (String × Nat)} :
    other ∈ insertClaim claim claims ↔ other = claim ∨ other ∈ claims := by
  induction claims with
  | nil => simp [insertClaim]
  | cons first rest ih =>
      simp only [insertClaim]
      split
      · simp
      · rw [List.mem_cons, ih, List.mem_cons]
        exact or_left_comm

@[simp]
theorem owns_empty (type : String) (extension : Nat) :
    empty.owns type extension = false := rfl

theorem owns_iff_mem {ownership : Ownership} {type : String}
    {extension : Nat} :
    ownership.owns type extension ↔
      (type, extension) ∈ ownership.claims := by
  simp [owns]

theorem owns_add_iff {ownership : Ownership} {type other : String}
    {extension owner : Nat} :
    (ownership.add type extension).owns other owner ↔
      ownership.owns other owner ∨ (other = type ∧ owner = extension) := by
  by_cases howned : ownership.owns type extension = true
  · rw [add, if_pos howned]
    constructor
    · exact Or.inl
    · rintro (hother | ⟨rfl, rfl⟩)
      · exact hother
      · exact howned
  · rw [add, if_neg howned, owns_iff_mem, owns_iff_mem, mem_insertClaim,
      Prod.mk.injEq]
    exact Or.comm

theorem mem_ownersOf_iff {ownership : Ownership} {type : String}
    {owner : Nat} :
    owner ∈ ownership.ownersOf type ↔ ownership.owns type owner := by
  rw [owns_iff_mem]
  simp [ownersOf]

theorem ownersOf_eq_nil_iff {ownership : Ownership} {type : String} :
    ownership.ownersOf type = [] ↔
      ∀ owner, ¬ ownership.owns type owner := by
  rw [List.eq_nil_iff_forall_not_mem]
  simp [mem_ownersOf_iff]

theorem filter_insertClaim_of_false {claim : String × Nat}
    {claims : List (String × Nat)} {p : String × Nat → Bool}
    (hclaim : p claim = false) :
    (insertClaim claim claims).filter p = claims.filter p := by
  induction claims with
  | nil => simp [insertClaim, hclaim]
  | cons first rest ih =>
      simp only [insertClaim]
      split
      · rw [List.filter_cons_of_neg (by simp [hclaim])]
      · rw [List.filter_cons, List.filter_cons, ih]

theorem filter_insertClaim_of_nil {claim : String × Nat}
    {claims : List (String × Nat)} {p : String × Nat → Bool}
    (hclaim : p claim = true) (hnone : claims.filter p = []) :
    (insertClaim claim claims).filter p = [claim] := by
  induction claims with
  | nil => simp [insertClaim, hclaim]
  | cons first rest ih =>
      simp only [insertClaim]
      split
      · rw [List.filter_cons_of_pos hclaim, hnone]
      · have hrest : rest.filter p = [] := by
          rw [List.filter_eq_nil_iff] at hnone ⊢
          exact fun other hother => hnone other (List.mem_cons_of_mem first hother)
        have hfirst : ¬ p first = true :=
          List.filter_eq_nil_iff.1 hnone first List.mem_cons_self
        rw [List.filter_cons_of_neg hfirst, ih hrest]

/-- A claim to one type leaves the owners of the others as they are. -/
theorem ownersOf_add_of_ne {ownership : Ownership} {type other : String}
    {extension : Nat} (hne : other ≠ type) :
    (ownership.add type extension).ownersOf other =
      ownership.ownersOf other := by
  unfold add
  split
  · rfl
  · rw [ownersOf, ownersOf, filter_insertClaim_of_false (by simpa using hne.symm)]

/-- Who claims a type without owners is its only owner. -/
theorem ownersOf_add_self {ownership : Ownership} {type : String}
    {extension : Nat} (hunowned : ownership.ownersOf type = []) :
    (ownership.add type extension).ownersOf type = [extension] := by
  have hnone := ownersOf_eq_nil_iff.1 hunowned extension
  rw [add, if_neg hnone, ownersOf, filter_insertClaim_of_nil (by simp)
    (List.map_eq_nil_iff.1 hunowned), List.map_singleton]

end VideoRegistry.Ownership
