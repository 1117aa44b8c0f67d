import VideoRegistry.Header.Enum
import VideoRegistry.Proofs.Checking
import VideoRegistry.Proofs.Filling

/-!
# The blocks of enums

The enumerators of an enum are its renamed values with their literals, in order.  Two
values with one enumerator are all that can keep the block of an enum from being made.
Between its braces a block has one line for every value; the comma that is erased is
the one behind the last line, even if names or literals have commas in them.
-/

namespace VideoRegistry.Header

variable {enum : String} {earlier values : List EnumValue} {value : EnumValue}

/-! ## Enumerators -/

/-- The enumerator of a value, with its literal. -/
def enumeratorOf (enum : String) (value : EnumValue) : String × String :=
  (Naming.enumerator enum value.name, value.value)

/-- What is wrong with a value behind others: one of them has its enumerator. -/
def clashFaults (enum : String) (earlier : List EnumValue) (value : EnumValue) :
    List SpecError :=
  let name := Naming.enumerator enum value.name
  if ∃ other ∈ earlier, Naming.enumerator enum other.name = name then
    [⟨value.line, .clashingEnumerator value.name enum name⟩]
  else []

/-- All that is wrong with the values of an enum behind others, value by value. -/
def valueFaults (enum : String) (earlier : List EnumValue) :
    List EnumValue → List SpecError
  | [] => []
  | value :: rest =>
      clashFaults enum earlier value ++ valueFaults enum (earlier ++ [value]) rest

theorem enumerators_eq_verdict :
    enumerators enum (earlier.map fun value => Naming.enumerator enum value.name)
        values =
      verdict (valueFaults enum earlier values)
        (values.map (enumeratorOf enum)) := by
  induction values generalizing earlier with
  | nil => rfl
  | cons value rest ih =>
      have hrest := @ih (earlier ++ [value])
      rw [List.map_append, List.map_singleton] at hrest
      have hclash : require (!(earlier.map fun value =>
              Naming.enumerator enum value.name).contains
            (Naming.enumerator enum value.name)) value.line
            (.clashingEnumerator value.name enum
              (Naming.enumerator enum value.name)) =
          verdict (clashFaults enum earlier value) () := by
        rw [require_eq_verdict, clashFaults]
        congr 1
        by_cases hused : ∃ other ∈ earlier, Naming.enumerator enum other.name =
            Naming.enumerator enum value.name
        · simp [hused]
        · simp [hused]
      rw [enumerators, hclash, hrest, valueFaults, List.map_cons]
      exact verdict_bind (verdict_bind_pure _)

theorem clashFaults_eq_nil_iff : clashFaults enum earlier value = [] ↔
    ∀ other ∈ earlier, Naming.enumerator enum other.name ≠
      Naming.enumerator enum value.name := by
  unfold clashFaults
  simp

/-- Nothing is wrong with values that have enumerators of their own. -/
theorem valueFaults_eq_nil_iff : valueFaults enum earlier values = [] ↔
    (values.map fun value => Naming.enumerator enum value.name).Nodup ∧
      ∀ value ∈ values, ∀ other ∈ earlier, Naming.enumerator enum other.name ≠
        Naming.enumerator enum value.name := by
  induction values generalizing earlier with
  | nil => simp [valueFaults]
  | cons value rest ih =>
      rw [valueFaults, List.append_eq_nil_iff, clashFaults_eq_nil_iff, ih,
        List.map_cons, List.nodup_cons, List.forall_mem_cons]
      simp only [List.mem_append, List.mem_singleton, List.mem_map]
      grind

/-- The first fault is that of the first value whose enumerator an earlier value has. -/
theorem head?_valueFaults_eq_some_iff {fault : SpecError} :
    (valueFaults enum earlier values).head? = some fault ↔
      ∃ front value back, values = front ++ value :: back ∧
        valueFaults enum earlier front = [] ∧
        (∃ other ∈ earlier ++ front, Naming.enumerator enum other.name =
          Naming.enumerator enum value.name) ∧
        fault = ⟨value.line, .clashingEnumerator value.name enum
          (Naming.enumerator enum value.name)⟩ := by
  induction values generalizing earlier with
  | nil => simp [valueFaults]
  | cons value rest ih =>
      by_cases hclash : ∃ other ∈ earlier, Naming.enumerator enum other.name =
          Naming.enumerator enum value.name
      · have hfaults : clashFaults enum earlier value = [⟨value.line,
            .clashingEnumerator value.name enum
              (Naming.enumerator enum value.name)⟩] := if_pos hclash
        rw [valueFaults, hfaults, List.singleton_append, List.head?_cons,
          Option.some_inj]
        constructor
        · rintro rfl
          exact ⟨[], value, rest, rfl, rfl, by simpa using hclash, rfl⟩
        · rintro ⟨front, found, back, hsplit, hnone, -, rfl⟩
          cases front with
          | nil => rw [(List.cons.inj hsplit).1]
          | cons first front =>
              obtain ⟨rfl, -⟩ := List.cons.inj hsplit
              rw [valueFaults, hfaults] at hnone
              cases hnone
      · have hfaults : clashFaults enum earlier value = [] := if_neg hclash
        rw [valueFaults, hfaults, List.nil_append, ih]
        constructor
        · rintro ⟨front, found, back, rfl, hnone, hother, rfl⟩
          refine ⟨value :: front, found, back, rfl, ?_, ?_, rfl⟩
          · rw [valueFaults, hfaults, hnone, List.nil_append]
          · simpa using hother
        · rintro ⟨front, found, back, hsplit, hnone, hother, rfl⟩
          cases front with
          | nil =>
              obtain ⟨rfl, -⟩ := List.cons.inj hsplit
              exact absurd (by simpa using hother) hclash
          | cons first front =>
              obtain ⟨rfl, rfl⟩ := List.cons.inj hsplit
              rw [valueFaults, hfaults, List.nil_append] at hnone
              exact ⟨front, found, back, rfl, hnone, by simpa using hother, rfl⟩

/-! ## Bodies -/

/-- The line of an enumerator without what ends it. -/
def enumeratorText (enumerator : String × String) : String :=
  "    " ++ enumerator.1 ++ " = " ++ enumerator.2

theorem enumeratorLine_eq (enumerator : String × String) :
    enumeratorLine enumerator = enumeratorText enumerator ++ ",\n" := by
  simp [enumeratorLine, enumeratorText]

/-- Lines that each end with a comma are lines between commas and a last comma. -/
theorem join_enumeratorLines (first : String × String)
    (rest : List (String × String)) :
    String.join ((first :: rest).map enumeratorLine) =
      ",\n".intercalate ((first :: rest).map enumeratorText) ++ ",\n" := by
  induction rest generalizing first with
  | nil =>
      simp [enumeratorLine_eq]
  | cons second rest ih =>
      rw [List.map_cons, String.join_cons, ih, enumeratorLine_eq]
      simp [String.append_assoc]

/-- The character that is erased is the one that no other of its kind follows. -/
theorem eraseLast_append {c : Char} {text behind : String}
    (hbehind : c ∉ behind.toList) :
    eraseLast c (text ++ String.singleton c ++ behind) = text ++ behind := by
  apply String.toList_inj.1
  have hreverse : c ∉ behind.toList.reverse := by
    rwa [List.mem_reverse]
  simp [eraseLast, List.erase_append_right, hreverse]

theorem enumBody_eq {enumerators : List (String × String)}
    (hvalues : enumerators ≠ []) :
    enumBody enumerators =
      "\n" ++ ",\n".intercalate (enumerators.map enumeratorText) ++ "\n  " := by
  obtain ⟨first, rest, rfl⟩ := List.exists_cons_of_ne_nil hvalues
  have hsplit : ",\n" = String.singleton ',' ++ "\n" := rfl
  have herase := @eraseLast_append ','
    (",\n".intercalate ((first :: rest).map enumeratorText)) "\n" (by decide)
  rw [enumBody, if_neg (by simp), join_enumeratorLines]
  nth_rewrite 2 [hsplit]
  rw [← String.append_assoc, herase]
  simp [String.append_assoc]

/-! ## Blocks -/

/-- The text of a scoped enum. -/
def enumText (name : String) (enumerators : List (String × String)) : String :=
  String.join ["  enum class ", name, "\n  \x7b", enumBody enumerators, "\x7d;\n"]

theorem fill_enumFrame (name : String) (enumerators : List (String × String)) :
    enumFrame.fill [("enumName", name), ("enumValues", enumBody enumerators)] =
      .ok (enumText name enumerators) := by
  have hfits : enumFrame.Fits ["enumName", "enumValues"] := by decide
  exact Template.fill_of_fits hfits

/-- A block is made exactly if the values have enumerators of their own. -/
theorem enumBlock_eq_verdict (config : Config) (entry : TypeEntry)
    (values : List EnumValue) :
    enumBlock config entry values =
      Checked.orFail (verdict (valueFaults entry.name [] values)
        ⟨entry.name, declaredName config entry.name,
          enumText (declaredName config entry.name)
            (values.map (enumeratorOf entry.name))⟩) := by
  have hrun : enumerators entry.name [] values =
      verdict (valueFaults entry.name [] values)
        (values.map (enumeratorOf entry.name)) :=
    @enumerators_eq_verdict entry.name [] values
  rw [enumBlock, hrun]
  cases valueFaults entry.name [] values with
  | cons fault rest => rfl
  | nil =>
      exact bind_eq_ok_iff.2 ⟨_, rfl, bind_eq_ok_iff.2
        ⟨_, mapError_eq_ok_iff.2 (fill_enumFrame _ _), rfl⟩⟩

theorem enumBlock_eq_ok_iff {config : Config} {entry : TypeEntry} {block : Block} :
    enumBlock config entry values = .ok block ↔
      (values.map fun value => Naming.enumerator entry.name value.name).Nodup ∧
        block = ⟨entry.name, declaredName config entry.name,
          enumText (declaredName config entry.name)
            (values.map (enumeratorOf entry.name))⟩ := by
  rw [enumBlock_eq_verdict, orFail_eq_ok_iff, verdict_eq_ok_iff,
    valueFaults_eq_nil_iff]
  simp

/-- The first enumerator stands behind the opening brace. -/
theorem exists_enumText_cons (name : String) (first : String × String)
    (rest : List (String × String)) :
    ∃ behind, enumText name (first :: rest) =
      "  enum class " ++ name ++ "\n  \x7b\n    " ++ first.1 ++ " = " ++ behind := by
  obtain ⟨tail, htail⟩ : ∃ tail,
      ",\n".intercalate ((first :: rest).map enumeratorText) =
        enumeratorText first ++ tail := by
    cases rest with
    | nil => exact ⟨"", by simp⟩
    | cons second rest =>
        exact ⟨",\n" ++ ",\n".intercalate ((second :: rest).map enumeratorText),
          by simp [String.append_assoc]⟩
  have hopening : "\n  \x7b\n    " = "\n  \x7b" ++ ("\n" ++ "    ") := rfl
  refine ⟨first.2 ++ tail ++ "\n  " ++ "\x7d;\n", ?_⟩
  rw [enumText, enumBody_eq (List.cons_ne_nil _ _), htail, hopening, enumeratorText]
  simp only [String.join_cons, String.join_nil, String.append_empty,
    String.append_assoc]

/-- The line of a value: its enumerator and its literal. -/
def valueText (enum : String) (value : EnumValue) : String :=
  "    " ++ Naming.enumerator enum value.name ++ " = " ++ value.value

/-- The block of an enum is made exactly if its values have enumerators of their own.
Between its braces an enum without values has nothing.  Any other enum has a line break,
the lines of its values in their order with a comma and a line break between them, and
a line break and two blanks.  What keeps a block from being made is the first value whose
enumerator an earlier value has. -/
theorem enumBlock_lists_values (config : Config) (entry : TypeEntry)
    (values : List EnumValue) :
    ((∃ block, enumBlock config entry values = .ok block) ↔
      (values.map fun value => Naming.enumerator entry.name value.name).Nodup) ∧
    (∀ block, enumBlock config entry values = .ok block →
      ∃ between, block.text = "  enum class " ++ declaredName config entry.name ++
          "\n  \x7b" ++ between ++ "\x7d;\n" ∧
        (values = [] → between = "") ∧
        (values ≠ [] → between = "\n" ++
          ",\n".intercalate (values.map (valueText entry.name)) ++ "\n  ")) ∧
    ∀ failure, enumBlock config entry values = .error failure ↔
      ∃ front value back, values = front ++ value :: back ∧
        (front.map fun other => Naming.enumerator entry.name other.name).Nodup ∧
        (∃ other ∈ front, Naming.enumerator entry.name other.name =
          Naming.enumerator entry.name value.name) ∧
        failure = .spec ⟨value.line, .clashingEnumerator value.name entry.name
          (Naming.enumerator entry.name value.name)⟩ := by
  refine ⟨?_, ?_, ?_⟩
  · simp [enumBlock_eq_ok_iff]
  · intro block hblock
    obtain ⟨-, rfl⟩ := enumBlock_eq_ok_iff.1 hblock
    refine ⟨enumBody (values.map (enumeratorOf entry.name)), ?_, ?_, ?_⟩
    · simp [enumText, String.join_cons, String.append_assoc]
    · rintro rfl
      rfl
    · intro hvalues
      rw [enumBody_eq (by simpa using hvalues), List.map_map]
      rfl
  · intro failure
    rw [enumBlock_eq_verdict, orFail_eq_error_iff]
    simp only [verdict_eq_error_iff, head?_valueFaults_eq_some_iff, List.nil_append,
      valueFaults_eq_nil_iff]
    constructor
    · rintro ⟨fault, ⟨front, value, back, hsplit, ⟨hnodup, -⟩, hother, rfl⟩, rfl⟩
      exact ⟨front, value, back, hsplit, hnodup, hother, rfl⟩
    · rintro ⟨front, value, back, hsplit, hnodup, hother, rfl⟩
      exact ⟨_, ⟨front, value, back, hsplit, ⟨hnodup, by simp⟩, hother, rfl⟩, rfl⟩

/-- Commas in a name and in a literal are left where they are. -/
theorem enumBlock_lists_commas :
    ∃ block, enumBlock Plain.brief ⟨"SMode", 1, .enum []⟩
        [⟨"SMODE_A,B", "0,1", 1⟩, ⟨"SMODE_C", "2,", 2⟩] = .ok block ∧
      block.text =
        "  enum class Mode\n  \x7b\n    eA,b = 0,1,\n    eC = 2,\n  \x7d;\n" := by
  obtain ⟨hmade, htext, -⟩ := enumBlock_lists_values Plain.brief ⟨"SMode", 1, .enum []⟩
    [⟨"SMODE_A,B", "0,1", 1⟩, ⟨"SMODE_C", "2,", 2⟩]
  obtain ⟨block, hblock⟩ := hmade.2 (by decide)
  obtain ⟨between, hwhole, -, hbetween⟩ := htext block hblock
  refine ⟨block, hblock, ?_⟩
  rw [hwhole, hbetween (List.cons_ne_nil _ _)]
  decide

end VideoRegistry.Header
