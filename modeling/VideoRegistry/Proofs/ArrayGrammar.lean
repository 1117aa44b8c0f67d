import VideoRegistry.Proofs.Brackets

/-!
# The grammar of array sizes

The array sizes of a member are groups of brackets, with a size in each and nothing but
blanks between them.  The search for the next group passes over anything else too, and
takes a blank for a size.  What is accepted is a grammar nevertheless, one text has only
one reading in it, and the reading shows whether the text is a proper one.
-/

namespace VideoRegistry

namespace Brackets

/-- A pair of brackets with its content and what stands in front of it. -/
structure Group where
  gap : List Char
  content : List Char
deriving DecidableEq, Repr

namespace Group

def text (group : Group) : List Char :=
  group.gap ++ '[' :: (group.content ++ [']'])

def size (group : Group) : String :=
  String.ofList (Text.trim group.content)

/-- A group that the search finds: its brackets are the first ones, and they hold
something. -/
structure Found (group : Group) : Prop where
  gap_opening : '[' ∉ group.gap
  content_ne_nil : group.content ≠ []
  content_opening : '[' ∉ group.content
  content_closing : ']' ∉ group.content

/-- A group of the grammar: nothing but blanks in front, and something else than
blanks and brackets within. -/
structure Proper (group : Group) : Prop where
  gap_blank : ∀ c ∈ group.gap, Text.isBlank c
  content_not_blank : ¬ ∀ c ∈ group.content, Text.isBlank c
  content_opening : '[' ∉ group.content
  content_closing : ']' ∉ group.content

instance : DecidablePred Found := fun group =>
  decidable_of_iff
    ('[' ∉ group.gap ∧ group.content ≠ [] ∧ '[' ∉ group.content ∧ ']' ∉ group.content)
    ⟨fun h => ⟨h.1, h.2.1, h.2.2.1, h.2.2.2⟩, fun h => ⟨h.1, h.2, h.3, h.4⟩⟩

instance : DecidablePred Proper := fun group =>
  decidable_of_iff
    (group.gap.all Text.isBlank ∧ ¬ group.content.all Text.isBlank ∧
      '[' ∉ group.content ∧ ']' ∉ group.content)
    ⟨fun h => ⟨List.all_eq_true.1 h.1, mt List.all_eq_true.2 h.2.1, h.2.2.1, h.2.2.2⟩,
      fun h => ⟨List.all_eq_true.2 h.1, mt List.all_eq_true.1 h.2, h.3, h.4⟩⟩

end Group

/-- A text that is a sequence of groups of a kind. -/
structure Spelled (kind : Group → Prop) (text : List Char) (groups : List Group) :
    Prop where
  text_eq : text = groups.flatMap Group.text
  all : ∀ group ∈ groups, kind group

variable {group : Group} {groups others : List Group} {text rest : List Char}
  {sizes : List String}

/-- The content of a group is blank exactly if no size is left of it. -/
theorem Group.size_eq_empty_iff :
    group.size = "" ↔ ∀ c ∈ group.content, Text.isBlank c := by
  rw [size, ← String.ofList_nil, String.ofList_inj]
  constructor
  · intro hnone
    obtain ⟨lead, trail, hlead, htrail, hcontent⟩ := Text.exists_trim group.content
    rw [hcontent, hnone, List.nil_append]
    intro c hc
    exact (List.mem_append.1 hc).elim (hlead c) (htrail c)
  · intro hblank
    have hstart : Text.trimStart group.content = [] := List.dropWhile_eq_nil_iff.2 hblank
    rw [Text.trim, hstart]
    rfl

theorem Group.proper_iff :
    group.Proper ↔ group.Found ∧ (∀ c ∈ group.gap, Text.isBlank c) ∧
      group.size ≠ "" := by
  rw [Ne, Group.size_eq_empty_iff]
  constructor
  · rintro ⟨hgap, hcontent, hopening, hclosing⟩
    refine ⟨⟨notMem_of_blank (by decide) hgap, ?_, hopening, hclosing⟩, hgap, hcontent⟩
    rintro hnil
    rw [hnil] at hcontent
    exact hcontent nofun
  · rintro ⟨⟨-, -, hopening, hclosing⟩, hgap, hcontent⟩
    exact ⟨hgap, hcontent, hopening, hclosing⟩

theorem spelled_cons_iff {kind : Group → Prop} :
    Spelled kind text (group :: groups) ↔
      ∃ rest, text = group.text ++ rest ∧ kind group ∧ Spelled kind rest groups := by
  constructor
  · rintro ⟨htext, hall⟩
    obtain ⟨hgroup, hall⟩ := List.forall_mem_cons.1 hall
    exact ⟨_, htext, hgroup, rfl, hall⟩
  · rintro ⟨rest, rfl, hgroup, rfl, hall⟩
    exact ⟨rfl, List.forall_mem_cons.2 ⟨hgroup, hall⟩⟩

theorem Spelled.found (hspelled : Spelled Group.Proper text groups) :
    Spelled Group.Found text groups :=
  ⟨hspelled.text_eq, fun group hgroup => (Group.proper_iff.1 (hspelled.all group hgroup)).1⟩

/-! ## One text, one reading -/

theorem append_cons_inj_of_notMem {c : Char} {other behind : List Char}
    (htext : c ∉ text) (hother : c ∉ other)
    (heq : text ++ c :: rest = other ++ c :: behind) : text = other ∧ rest = behind := by
  have htake := congrArg (List.takeWhile (· != c)) heq
  have hdrop := congrArg (List.dropWhile (· != c)) heq
  rw [takeWhile_ne_append_cons htext, takeWhile_ne_append_cons hother] at htake
  rw [dropWhile_ne_append_cons htext, dropWhile_ne_append_cons hother] at hdrop
  exact ⟨htake, (List.cons.inj hdrop).2⟩

theorem Group.text_append (group : Group) (rest : List Char) :
    group.text ++ rest = group.gap ++ '[' :: (group.content ++ ']' :: rest) := by
  simp [text]

theorem Group.Found.text_append_inj {other : Group} {behind : List Char}
    (hgroup : group.Found) (hother : other.Found)
    (heq : group.text ++ rest = other.text ++ behind) : group = other ∧ rest = behind := by
  rw [text_append, text_append] at heq
  obtain ⟨hgap, heq⟩ :=
    append_cons_inj_of_notMem hgroup.gap_opening hother.gap_opening heq
  obtain ⟨hcontent, hrest⟩ :=
    append_cons_inj_of_notMem hgroup.content_closing hother.content_closing heq
  cases group
  cases other
  exact ⟨congrArg₂ Group.mk hgap hcontent, hrest⟩

theorem Group.text_ne_nil (group : Group) : group.text ≠ [] := by
  simp [text]

theorem Spelled.unique (hgroups : Spelled Group.Found text groups)
    (hothers : Spelled Group.Found text others) : others = groups := by
  induction groups generalizing text others with
  | nil =>
      obtain rfl : text = [] := hgroups.text_eq
      cases others with
      | nil => rfl
      | cons other others =>
          obtain ⟨rest, hnil, -⟩ := spelled_cons_iff.1 hothers
          exact absurd (List.append_eq_nil_iff.1 hnil.symm).1 other.text_ne_nil
  | cons group groups ih =>
      obtain ⟨rest, rfl, hgroup, hrest⟩ := spelled_cons_iff.1 hgroups
      cases others with
      | nil =>
          exact absurd (List.append_eq_nil_iff.1 hothers.text_eq).1 group.text_ne_nil
      | cons other others =>
          obtain ⟨behind, heq, hother, hbehind⟩ := spelled_cons_iff.1 hothers
          obtain ⟨rfl, rfl⟩ := hgroup.text_append_inj hother heq
          rw [ih hrest hbehind]

/-- A text that is found to be groups is a proper one exactly if only blanks stand
between them and no size is empty. -/
theorem Spelled.proper_iff (hgroups : Spelled Group.Found text groups) :
    (∃ others, Spelled Group.Proper text others) ↔
      ∀ group ∈ groups, (∀ c ∈ group.gap, Text.isBlank c) ∧ group.size ≠ "" := by
  constructor
  · rintro ⟨others, hothers⟩ group hgroup
    obtain rfl := hgroups.unique hothers.found
    exact (Group.proper_iff.1 (hothers.all group hgroup)).2
  · intro hproper
    exact ⟨groups, hgroups.text_eq, fun group hgroup =>
      Group.proper_iff.2 ⟨hgroups.all group hgroup, hproper group hgroup⟩⟩

/-! ## The search -/

theorem bracketSizes_of_spelled (hspelled : Spelled Group.Found text groups) :
    bracketSizes (']' :: text) = .ok (groups.map Group.size) := by
  induction groups generalizing text with
  | nil =>
      obtain rfl : text = [] := hspelled.text_eq
      exact bracketSizes_singleton ']'
  | cons group groups ih =>
      obtain ⟨rest, rfl, hgroup, hrest⟩ := spelled_cons_iff.1 hspelled
      have hfound : bracketGroup (']' :: (group.text ++ rest)) =
          .ok (group.content, ']' :: rest) := by
        refine bracketGroup_eq_ok_iff.2 ⟨']' :: group.gap, rest, ?_, rfl, ?_,
          hgroup.content_ne_nil, hgroup.content_opening, hgroup.content_closing⟩
        · rw [group.text_append, List.cons_append]
        · simpa using hgroup.gap_opening
      rw [bracketSizes_of_group (by simp [Group.text]) hfound, ih hrest]
      rfl

theorem exists_spelled_of_bracketSizes (hrun : bracketSizes (']' :: text) = .ok sizes) :
    ∃ groups, Spelled Group.Found text groups ∧ sizes = groups.map Group.size := by
  generalize hclosing : ']' :: text = closing at hrun
  induction closing using bracketSizes.induct generalizing text sizes with
  | case1 closing hlength =>
      obtain rfl : text = [] := by
        rw [← hclosing] at hlength
        simpa using hlength
      rw [← hclosing, bracketSizes_singleton] at hrun
      exact ⟨[], ⟨rfl, List.forall_mem_nil _⟩, (Except.ok.inj hrun).symm⟩
  | case2 closing hlength fault hgroup =>
      rw [bracketSizes_of_fault hlength hgroup] at hrun
      cases hrun
  | case3 closing hlength content behind hgroup ih =>
      rw [bracketSizes_of_group hlength hgroup] at hrun
      obtain ⟨later, hlater, rfl⟩ := map_eq_ok_iff.1 hrun
      obtain ⟨front, tail, hfront, rfl, hopening, hcontent⟩ :=
        bracketGroup_eq_ok_iff.1 hgroup
      obtain ⟨groups, hgroups, rfl⟩ := ih rfl hlater
      -- The closing bracket in front is passed over with the gap.
      cases front with
      | nil => rw [← hclosing] at hfront; cases hfront
      | cons d gap =>
          rw [← hclosing] at hfront
          obtain ⟨rfl, rfl⟩ := List.cons.inj hfront
          have hfound : Group.Found ⟨gap, content⟩ :=
            ⟨fun hmem => hopening (List.mem_cons_of_mem _ hmem), hcontent.1, hcontent.2.1,
              hcontent.2.2⟩
          refine ⟨⟨gap, content⟩ :: groups, spelled_cons_iff.2
            ⟨tail, ?_, hfound, hgroups⟩, rfl⟩
          rw [Group.text_append]
          rfl

theorem bracketSizes_closing (hlong : 1 < text.length) :
    bracketSizes (']' :: text) = bracketSizes text := by
  have hpassed : bracketGroup (']' :: text) = bracketGroup text := by
    rw [bracketGroup, List.dropWhile_cons_of_pos (by decide)]
    rfl
  have hlength : text.length ≠ 1 := by omega
  have hlength' : (']' :: text).length ≠ 1 := by
    rw [List.length_cons]
    omega
  cases hgroup : bracketGroup text with
  | error fault =>
      rw [bracketSizes_of_fault hlength hgroup,
        bracketSizes_of_fault hlength' (hpassed.trans hgroup)]
  | ok found =>
      rw [bracketSizes_of_group hlength hgroup,
        bracketSizes_of_group hlength' (hpassed.trans hgroup)]

/-- Sizes are found in a text exactly if it is a sequence of groups. -/
theorem bracketSizes_eq_ok_iff (hlong : 1 < text.length) :
    bracketSizes text = .ok sizes ↔
      ∃ groups, Spelled Group.Found text groups ∧ sizes = groups.map Group.size := by
  rw [← bracketSizes_closing hlong]
  constructor
  · exact exists_spelled_of_bracketSizes
  · rintro ⟨groups, hgroups, rfl⟩
    exact bracketSizes_of_spelled hgroups

end Brackets

open Brackets

theorem readModifiers_of_opening {line : Nat} {content : String}
    (hopening : (Text.trim content.toList).head? = some '[') :
    readModifiers (some (.text line content)) =
      match bracketSizes (Text.trim content.toList) with
      | .ok sizes => .ok ⟨sizes, none⟩
      | .error fault =>
          .error ⟨line, .modifier fault (String.ofList (Text.trim content.toList))⟩ := by
  obtain ⟨rest, htext⟩ := List.head?_eq_some_iff.1 hopening
  have hmodifiers : modifiersOf (Text.trim content.toList) =
      (bracketSizes (Text.trim content.toList)).map fun sizes => ⟨sizes, none⟩ := by
    rw [htext]
    rfl
  rw [readModifiers, hmodifiers]
  cases bracketSizes (Text.trim content.toList) <;> rfl

theorem readModifiers_eq_ok_iff {line : Nat} {content : String} {modifiers : Modifiers}
    (hopening : (Text.trim content.toList).head? = some '[')
    (hlong : 1 < (Text.trim content.toList).length) :
    readModifiers (some (.text line content)) = .ok modifiers ↔
      ∃ groups, Spelled Group.Found (Text.trim content.toList) groups ∧
        modifiers = ⟨groups.map Group.size, none⟩ := by
  rw [readModifiers_of_opening hopening]
  constructor
  · intro hrun
    split at hrun
    · next sizes hsizes =>
        obtain ⟨groups, hgroups, rfl⟩ := (bracketSizes_eq_ok_iff hlong).1 hsizes
        exact ⟨groups, hgroups, (Except.ok.inj hrun).symm⟩
    · cases hrun
  · rintro ⟨groups, hgroups, rfl⟩
    rw [(bracketSizes_eq_ok_iff hlong).2 ⟨groups, hgroups, rfl⟩]

/-- A text that begins with a bracket gives sizes exactly if it is a sequence of groups:
the trimmed contents in their order, and no bit count.  Any other text is an error that
shows it.  Every text of the grammar is read so, with no size empty, and a text that is
read is one of the grammar exactly if nothing but blanks stands between its groups and no
size is empty. -/
theorem readModifiers_groups {line : Nat} {content : String}
    (hopening : (Text.trim content.toList).head? = some '[')
    (hlong : 1 < (Text.trim content.toList).length) :
    (∀ modifiers, readModifiers (some (.text line content)) = .ok modifiers ↔
      ∃ groups, Spelled Group.Found (Text.trim content.toList) groups ∧
        modifiers = ⟨groups.map Group.size, none⟩) ∧
    ((∀ groups, ¬ Spelled Group.Found (Text.trim content.toList) groups) →
      ∃ fault, readModifiers (some (.text line content)) =
        .error ⟨line, .modifier fault (String.ofList (Text.trim content.toList))⟩) ∧
    (∀ groups, Spelled Group.Proper (Text.trim content.toList) groups →
      readModifiers (some (.text line content)) = .ok ⟨groups.map Group.size, none⟩ ∧
        ∀ group ∈ groups, group.size ≠ "") ∧
    ∀ groups, Spelled Group.Found (Text.trim content.toList) groups →
      ((∃ others, Spelled Group.Proper (Text.trim content.toList) others) ↔
        ∀ group ∈ groups, (∀ c ∈ group.gap, Text.isBlank c) ∧ group.size ≠ "") := by
  refine ⟨fun _ => readModifiers_eq_ok_iff hopening hlong, ?_, ?_,
    fun groups hgroups => hgroups.proper_iff⟩
  · intro hnone
    rw [readModifiers_of_opening hopening]
    cases hrun : bracketSizes (Text.trim content.toList) with
    | error fault => exact ⟨fault, rfl⟩
    | ok sizes =>
        obtain ⟨groups, hgroups, -⟩ := (bracketSizes_eq_ok_iff hlong).1 hrun
        exact absurd hgroups (hnone groups)
  · intro groups hgroups
    have hsizes : ∀ group ∈ groups, group.size ≠ "" := by
      intro group hgroup
      exact (Group.proper_iff.1 (hgroups.all group hgroup)).2.2
    exact ⟨(readModifiers_eq_ok_iff hopening hlong).2 ⟨groups, hgroups.found, rfl⟩, hsizes⟩

theorem readModifiers_blank_gap :
    (Text.trim " [2] [ 16 ]".toList).head? = some '[' ∧
      1 < (Text.trim " [2] [ 16 ]".toList).length ∧
      readModifiers (some (.text 1 " [2] [ 16 ]")) = .ok ⟨["2", "16"], none⟩ := by
  have hopening : (Text.trim " [2] [ 16 ]".toList).head? = some '[' := by decide
  have hlong : 1 < (Text.trim " [2] [ 16 ]".toList).length := by decide
  obtain ⟨-, -, hproper, -⟩ := readModifiers_groups hopening hlong
  have hgroups : Spelled Group.Proper (Text.trim " [2] [ 16 ]".toList)
      [⟨[], ['2']⟩, ⟨[' '], [' ', '1', '6', ' ']⟩] := ⟨by decide, by decide⟩
  obtain ⟨hread, -⟩ := hproper _ hgroups
  exact ⟨hopening, hlong, hread⟩

/-- What stands between two groups is passed over, and a blank is taken for a size. -/
theorem readModifiers_stray :
    readModifiers (some (.text 1 "[2]x[3]")) = .ok ⟨["2", "3"], none⟩ ∧
      (¬ ∃ groups, Spelled Group.Proper (Text.trim "[2]x[3]".toList) groups) ∧
      readModifiers (some (.text 1 "[ ]")) = .ok ⟨[""], none⟩ := by
  have hstray : Spelled Group.Found (Text.trim "[2]x[3]".toList)
      [⟨[], ['2']⟩, ⟨['x'], ['3']⟩] := ⟨by decide, by decide⟩
  have hblank : Spelled Group.Found (Text.trim "[ ]".toList) [⟨[], [' ']⟩] :=
    ⟨by decide, by decide⟩
  refine ⟨?_, ?_, ?_⟩
  · exact (readModifiers_eq_ok_iff (by decide) (by decide)).2 ⟨_, hstray, rfl⟩
  · rw [hstray.proper_iff]
    intro hproper
    obtain ⟨hgap, -⟩ := hproper ⟨['x'], ['3']⟩ (by simp)
    exact absurd (hgap 'x' List.mem_cons_self) (by decide)
  · exact (readModifiers_eq_ok_iff (by decide) (by decide)).2 ⟨_, hblank, rfl⟩

end VideoRegistry
