import VideoRegistry.Proofs.Reading

/-!
# Registries that are read

The invariant behind the passes over a registry: every kind of change that
reading makes keeps it, so every registry that is read has it.
-/

namespace VideoRegistry

open Registry

variable {registry after : Registry}

namespace Registry

/-- What the passes over a registry rely on. -/
structure WellRead (registry : Registry) : Prop where
  namesDistinct : (registry.types.map TypeEntry.name).Nodup
  inStep : registry.InStep
  listsDistinct : registry.ListsDistinct
  providerEarlier : ∀ position provider,
    registry.provider? position = some provider → provider < position

theorem declares_eq_false_iff {name : String} :
    registry.declares name = false ↔
      ∀ entry ∈ registry.types, entry.name ≠ name := by
  simp [declares_eq_isSome, find?_eq, List.find?_eq_none]

theorem owns_claimAll_iff {names : List String} {name : String} {owner : Nat} :
    (registry.claimAll names).owns name owner ↔
      registry.ownership.owns name owner ∨
        (name ∈ names ∧ owner = registry.extensions.length) := by
  unfold claimAll
  generalize registry.ownership = ownership
  induction names generalizing ownership with
  | nil => simp
  | cons first rest ih =>
      rw [List.foldl_cons, ih, Ownership.owns_add_iff, List.mem_cons, or_assoc,
        ← or_and_right]

theorem WellRead.extend {extension : Extension} (hread : registry.WellRead)
    (hadmits : registry.AdmitsLists extension) :
    (registry.extend extension).WellRead where
  namesDistinct := hread.namesDistinct
  inStep name position := by
    have hclaims : (registry.extend extension).ownership.owns name position ↔
        name ∈ registry.listOf position ∨
          (name ∈ extension.types ∧ position = registry.extensions.length) := by
      rw [← hread.inStep name position]
      exact owns_claimAll_iff
    rw [hclaims]
    rcases Nat.lt_trichotomy position registry.extensions.length with
      hlt | rfl | hgt
    · have hne : position ≠ registry.extensions.length := Nat.ne_of_lt hlt
      simp [listOf, Registry.extend, List.getElem?_append_left hlt, hne]
    · simp [listOf, Registry.extend]
    · have hne : position ≠ registry.extensions.length := Nat.ne_of_gt hgt
      have hnone : (registry.extensions ++ [extension])[position]? = none :=
        List.getElem?_eq_none (by simp; omega)
      have hnone' : registry.extensions[position]? = none :=
        List.getElem?_eq_none (by omega)
      simp [listOf, Registry.extend, hnone, hnone', hne]
  listsDistinct := List.forall_mem_append.2
    ⟨hread.listsDistinct, List.forall_mem_singleton.2 hadmits.distinct⟩
  providerEarlier position provider hprovider := by
    unfold provider? Registry.extend at hprovider
    rcases Nat.lt_or_ge position registry.extensions.length with hlt | hge
    · simp only [List.getElem?_append_left hlt] at hprovider
      exact hread.providerEarlier position provider hprovider
    · simp only [List.getElem?_append_right hge] at hprovider
      rcases Nat.eq_zero_or_pos (position - registry.extensions.length) with
        hzero | hpos
      · rw [hzero] at hprovider
        exact Nat.lt_of_lt_of_le (hadmits.earlier provider hprovider) hge
      · rw [List.getElem?_eq_none (by simp; omega)] at hprovider
        cases hprovider

/-- Only names, ownership and extensions matter. -/
theorem WellRead.congr (hread : registry.WellRead)
    (hnames : (after.types.map TypeEntry.name).Nodup)
    (hownership : after.ownership = registry.ownership)
    (hextensions : after.extensions = registry.extensions) :
    after.WellRead where
  namesDistinct := hnames
  inStep := by
    intro name position
    rw [hownership, hread.inStep name position, listOf, listOf, hextensions]
  listsDistinct := by
    rw [ListsDistinct, hextensions]
    exact hread.listsDistinct
  providerEarlier := by
    intro position provider
    rw [provider?, hextensions]
    exact hread.providerEarlier position provider

theorem ReadStep.wellRead (hstep : ReadStep registry after)
    (hread : registry.WellRead) : after.WellRead := by
  cases hstep with
  | warn warnings => exact hread.congr hread.namesDistinct rfl rfl
  | copyright comment _ => exact hread.congr hread.namesDistinct rfl rfl
  | declare entry hnew _ =>
      rw [declares_eq_false_iff] at hnew
      have hnames : ((registry.types ++ [entry]).map TypeEntry.name).Nodup := by
        rw [List.map_append]
        refine List.nodup_append_comm.1
          (List.nodup_cons.2 ⟨?_, hread.namesDistinct⟩)
        simpa using hnew
      exact hread.congr hnames rfl rfl
  | fill name values _ _ =>
      have hnames : (registry.fillEnum name values).types.map TypeEntry.name =
          registry.types.map TypeEntry.name := by
        simp only [fillEnum, List.map_map]
        apply List.map_congr_left
        intro entry _
        simp only [Function.comp_apply]
        split <;> rfl
      exact hread.congr (hnames ▸ hread.namesDistinct) rfl rfl
  | extend extension _ hadmits => exact hread.extend hadmits

theorem wellRead_empty : Registry.WellRead {} where
  namesDistinct := List.nodup_nil
  inStep := by simp [InStep, listOf]
  listsDistinct := by simp [ListsDistinct]
  providerEarlier := by simp [provider?]

end Registry

theorem Registry.Reading.wellRead (hreading : Reading registry after)
    (hread : registry.WellRead) : after.WellRead := by
  induction hreading with
  | refl => exact hread
  | tail _ hstep ih => exact hstep.wellRead ih

/-- Every document that is read gives distinct names, lists in step with the
ownership, and providers that come first. -/
theorem readDocument_wellRead {config : Config} {document : Xml.Document}
    (hrun : readDocument config document = .ok registry) :
    registry.WellRead :=
  (readDocument_reading hrun).wellRead wellRead_empty

end VideoRegistry
