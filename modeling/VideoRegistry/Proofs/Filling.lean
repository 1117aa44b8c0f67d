import VideoRegistry.Proofs.Outcome

/-!
# When texts fit a template

A template is filled exactly if every slot has a text and every text has a slot, each
under one key.  What the texts hold plays no part: the check looks at their keys
alone.
-/

namespace VideoRegistry

namespace NameMap

variable {α : Type} {name other : String} {value : α}

theorem mem_names_insert {map : NameMap α} :
    other ∈ (map.insert name value).names ↔ other = name ∨ other ∈ map.names := by
  obtain ⟨entries⟩ := map
  simp only [names, insert]
  induction entries with
  | nil => simp [insertEntry]
  | cons entry rest ih =>
      rw [insertEntry]
      split
      · next hsame =>
          simp [hsame]
      · split
        · simp
        · rw [List.map_cons, List.mem_cons, ih, List.map_cons, List.mem_cons,
            or_left_comm]

theorem mem_names_ofList {pairs : List (String × α)} :
    name ∈ (ofList pairs).names ↔ name ∈ pairs.map Prod.fst := by
  suffices hfold : ∀ map : NameMap α,
      name ∈ (pairs.foldl (fun map pair => map.insert pair.1 pair.2) map).names ↔
        name ∈ pairs.map Prod.fst ∨ name ∈ map.names by
    rw [ofList, hfold]
    simp [empty, names]
  induction pairs with
  | nil => simp
  | cons pair pairs ih =>
      intro map
      rw [List.foldl_cons, ih, mem_names_insert, List.map_cons, List.mem_cons]
      exact or_left_comm.trans or_assoc.symm

end NameMap

namespace Template

variable {template : Template} {fillings : List (String × String)}

/-- The keys are those of the slots, each once. -/
def Fits (template : Template) (keys : List String) : Prop :=
  keys.Nodup ∧ keys ⊆ template.filterMap slot? ∧ template.filterMap slot? ⊆ keys

instance (template : Template) (keys : List String) :
    Decidable (template.Fits keys) :=
  inferInstanceAs (Decidable (_ ∧ _ ∧ _))

theorem mem_slots_iff {name : String} :
    name ∈ template.slots ↔ name ∈ template.filterMap slot? := by
  rw [slots, NameMap.mem_names_ofList, List.map_map]
  simp

theorem repeatedKey?_eq_none_iff {seen keys : List String} :
    repeatedKey? seen keys = none ↔ keys.Nodup ∧ ∀ key ∈ keys, key ∉ seen := by
  induction keys generalizing seen with
  | nil => simp [repeatedKey?]
  | cons key keys ih =>
      rw [repeatedKey?]
      split
      · next hseen =>
          simp [hseen]
      · next hnew =>
          rw [ih, List.nodup_cons, List.forall_mem_cons]
          simp only [List.mem_cons, not_or, forall_and]
          constructor
          · rintro ⟨hnodup, hother, hlater⟩
            exact ⟨⟨fun hkey => hother key hkey rfl, hnodup⟩, hnew, hlater⟩
          · rintro ⟨⟨hkey, hnodup⟩, -, hlater⟩
            exact ⟨hnodup, fun other hother heq => hkey (heq ▸ hother), hlater⟩

theorem check_eq_ok_iff :
    template.check fillings = .ok () ↔ template.Fits (fillings.map Prod.fst) := by
  have hmissing : template.slots.filter
        (· ∉ (NameMap.ofList fillings).names) = [] ↔
      template.filterMap slot? ⊆ fillings.map Prod.fst := by
    simp [List.filter_eq_nil_iff, mem_slots_iff, NameMap.mem_names_ofList,
      List.subset_def]
  have hunused : (NameMap.ofList fillings).names.filter
        (· ∉ template.slots) = [] ↔
      fillings.map Prod.fst ⊆ template.filterMap slot? := by
    simp [List.filter_eq_nil_iff, mem_slots_iff, NameMap.mem_names_ofList,
      List.subset_def]
  rw [check, Fits]
  cases hrepeated : repeatedKey? [] (fillings.map Prod.fst) with
  | some key =>
      have hnodup : ¬ (fillings.map Prod.fst).Nodup := by
        intro hnodup
        rw [repeatedKey?_eq_none_iff.2 ⟨hnodup, by simp⟩] at hrepeated
        cases hrepeated
      simp [hnodup]
  | none =>
      have hnodup := (repeatedKey?_eq_none_iff.1 hrepeated).1
      rw [← hmissing, ← hunused]
      dsimp only
      split
      · next hempty =>
          rw [Bool.and_eq_true, List.isEmpty_iff, List.isEmpty_iff] at hempty
          exact iff_of_true rfl ⟨hnodup, hempty.2, hempty.1⟩
      · next hempty =>
          rw [Bool.and_eq_true, List.isEmpty_iff, List.isEmpty_iff] at hempty
          exact iff_of_false nofun fun hfits => hempty ⟨hfits.2.2, hfits.2.1⟩

/-- A template is filled exactly with texts that fit it, which are put in the places of
the slots, whatever they hold. -/
theorem fill_eq_ok_iff {text : String} :
    template.fill fillings = .ok text ↔
      template.Fits (fillings.map Prod.fst) ∧
        String.join (template.map (fillSegment fillings)) = text := by
  rw [fill, bind_eq_ok_iff, ← check_eq_ok_iff]
  constructor
  · rintro ⟨⟨⟩, hcheck, htext⟩
    exact ⟨hcheck, pure_eq_ok_iff.1 htext⟩
  · rintro ⟨hcheck, htext⟩
    exact ⟨(), hcheck, pure_eq_ok_iff.2 htext⟩

theorem fill_of_fits (hfits : template.Fits (fillings.map Prod.fst)) :
    template.fill fillings = .ok (String.join (template.map (fillSegment fillings))) :=
  fill_eq_ok_iff.2 ⟨hfits, rfl⟩

end Template

end VideoRegistry
