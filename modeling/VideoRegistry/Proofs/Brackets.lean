import Mathlib.Data.List.DropRight
import Mathlib.Data.List.TakeWhile
import VideoRegistry.Proofs.Outcome
import VideoRegistry.Registry.Declarator

/-!
# The bracket groups of a text

A text is read character by character, with what was read since the last opening
bracket kept while it is open.  Texts may be read one behind the other, which a
member with elements among its texts needs.  The sizes that are read from one text
of a member are those of all its groups.
-/

namespace VideoRegistry

namespace Text

variable {text lead trail rest : List Char}

theorem exists_trimStart (text : List Char) :
    ∃ lead, (∀ c ∈ lead, isBlank c) ∧ text = lead ++ trimStart text :=
  ⟨text.takeWhile isBlank, fun _ => List.mem_takeWhile_imp,
    List.takeWhile_append_dropWhile.symm⟩

theorem exists_trimEnd (text : List Char) :
    ∃ trail, (∀ c ∈ trail, isBlank c) ∧ text = trimEnd text ++ trail := by
  obtain ⟨lead, hblank, htext⟩ := exists_trimStart text.reverse
  refine ⟨lead.reverse, ?_, ?_⟩
  · intro c hc
    exact hblank c (List.mem_reverse.1 hc)
  · calc text = text.reverse.reverse := text.reverse_reverse.symm
      _ = (lead ++ trimStart text.reverse).reverse := congrArg _ htext
      _ = trimEnd text ++ lead.reverse := List.reverse_append

theorem exists_trim (text : List Char) :
    ∃ lead trail, (∀ c ∈ lead, isBlank c) ∧ (∀ c ∈ trail, isBlank c) ∧
      text = lead ++ (trim text ++ trail) := by
  obtain ⟨lead, hlead, htext⟩ := exists_trimStart text
  obtain ⟨trail, htrail, hrest⟩ := exists_trimEnd (trimStart text)
  exact ⟨lead, trail, hlead, htrail, by rw [trim, ← hrest, ← htext]⟩

theorem trimStart_append (hlead : ∀ c ∈ lead, isBlank c) :
    trimStart (lead ++ text) = trimStart text :=
  List.dropWhile_append_of_pos hlead

theorem trimEnd_append (htrail : ∀ c ∈ trail, isBlank c) :
    trimEnd (text ++ trail) = trimEnd text := by
  have hreverse : ∀ c ∈ trail.reverse, isBlank c := by
    intro c hc
    exact htrail c (List.mem_reverse.1 hc)
  rw [trimEnd, List.reverse_append, List.dropWhile_append_of_pos hreverse, trimEnd]

/-- Blanks around a text do not change what is left of it. -/
theorem trim_append (hlead : ∀ c ∈ lead, isBlank c)
    (htrail : ∀ c ∈ trail, isBlank c) :
    trim (lead ++ (text ++ trail)) = trim text := by
  rw [trim, trimStart_append hlead, trimStart, List.dropWhile_append]
  split
  · next hempty =>
      have hblank : trimStart text = [] := List.isEmpty_iff.1 hempty
      have hrest : trail.dropWhile isBlank = [] := by
        simpa [List.dropWhile_eq_nil_iff] using htrail
      rw [trim, hblank, hrest]
  · exact trimEnd_append htrail

theorem trimEnd_eq_self {c : Char} (hlast : text.getLast? = some c)
    (hblank : isBlank c = false) : trimEnd text = text := by
  apply List.rdropWhile_eq_self_iff.2
  intro hne
  rw [List.getLast?_eq_some_getLast hne] at hlast
  rw [Option.some.inj hlast, hblank]
  exact Bool.false_ne_true

theorem trimStart_append_of_not_blank (hblank : ¬ text.all isBlank) :
    trimStart (text ++ rest) = trimStart text ++ rest := by
  have hleft : (text.dropWhile isBlank).isEmpty = false := by
    simpa [List.dropWhile_eq_nil_iff] using hblank
  rw [trimStart, List.dropWhile_append, hleft]
  rfl

/-- Behind blanks a text begins as before with another one behind it, unless it is
blank and the other is not. -/
theorem head?_trimStart_append (hrest : rest.all isBlank ∨ ¬ text.all isBlank) :
    (trimStart (text ++ rest)).head? = (trimStart text).head? := by
  by_cases hblank : text.all isBlank
  · have hall : ∀ c ∈ text ++ rest, isBlank c := by
      have hrest : rest.all isBlank := hrest.resolve_right (not_not_intro hblank)
      simpa [or_imp, forall_and] using And.intro hblank hrest
    have hnone : trimStart (text ++ rest) = [] := List.dropWhile_eq_nil_iff.2 hall
    have htext : trimStart text = [] :=
      List.dropWhile_eq_nil_iff.2 (List.all_eq_true.1 hblank)
    rw [hnone, htext]
  · rw [trimStart_append_of_not_blank hblank, List.head?_append]
    have hsome : trimStart text ≠ [] := by
      intro hnone
      exact hblank (List.all_eq_true.2 (List.dropWhile_eq_nil_iff.1 hnone))
    cases hfirst : trimStart text with
    | nil => exact absurd hfirst hsome
    | cons c tail => rfl

theorem getLast?_trimEnd_append
    (hrest : rest.all isBlank ∨ ¬ text.all isBlank) :
    (trimEnd (rest ++ text)).getLast? = (trimEnd text).getLast? := by
  rw [trimEnd, trimEnd, List.getLast?_reverse, List.getLast?_reverse,
    List.reverse_append]
  exact head?_trimStart_append (by simpa using hrest)

theorem head?_trim (text : List Char) :
    (trim text).head? = (trimStart text).head? := by
  obtain ⟨trail, htrail, hsplit⟩ := exists_trimEnd (trimStart text)
  rw [trim]
  cases hend : trimEnd (trimStart text) with
  | nil =>
      have hnone : trimStart (trimStart text) = [] := by
        rw [hsplit, hend]
        exact List.dropWhile_eq_nil_iff.2 htrail
      rw [trimStart, trimStart, List.dropWhile_idempotent] at hnone
      rw [trimStart, hnone]
  | cons c rest =>
      rw [hsplit, hend]
      rfl

/-- A text whose last character in front of blanks is known. -/
theorem exists_of_getLast?_trimEnd {c : Char}
    (hlast : (trimEnd text).getLast? = some c) :
    ∃ trail, (∀ d ∈ trail, isBlank d) ∧
      text = (trimEnd text).dropLast ++ c :: trail := by
  obtain ⟨trail, htrail, htext⟩ := exists_trimEnd text
  obtain ⟨front, hfront⟩ := List.getLast?_eq_some_iff.1 hlast
  refine ⟨trail, htrail, ?_⟩
  rw [hfront, List.dropLast_concat]
  rw [hfront, List.append_assoc] at htext
  exact htext

/-- A text whose first character behind blanks is known. -/
theorem exists_of_head?_trimStart {c : Char}
    (hhead : (trimStart text).head? = some c) :
    ∃ lead tail, (∀ d ∈ lead, isBlank d) ∧ text = lead ++ c :: tail := by
  obtain ⟨lead, hlead, htext⟩ := exists_trimStart text
  obtain ⟨tail, htail⟩ := List.head?_eq_some_iff.1 hhead
  exact ⟨lead, tail, hlead, htail ▸ htext⟩

end Text

namespace Brackets

variable {opened : Option (List Char)} {text rest content : List Char}
  {sizes : List String}

/-- What is kept behind a character: the content so far of an open group. -/
def advance : Option (List Char) → Char → Option (List Char)
  | none, c => if c = '[' then some [] else none
  | some content, c => if c = ']' then none else some (content ++ [c])

/-- The group that a character closes. -/
def closed : Option (List Char) → Char → List String
  | none, _ => []
  | some content, c =>
      if c = ']' then [String.ofList (Text.trim content)] else []

/-- The trimmed contents of the groups of a text, from what is open before it. -/
def sizesFrom : Option (List Char) → List Char → List String
  | _, [] => []
  | opened, c :: text => closed opened c ++ sizesFrom (advance opened c) text

/-- Every group of a text is closed before another one is opened. -/
def Closes : Option (List Char) → List Char → Prop
  | opened, [] => opened = none
  | opened, c :: text => (c = '[' → opened = none) ∧ Closes (advance opened c) text

instance decidableCloses : ∀ opened text, Decidable (Closes opened text)
  | opened, [] => inferInstanceAs (Decidable (opened = none))
  | opened, c :: text =>
      have : Decidable (Closes (advance opened c) text) :=
        decidableCloses (advance opened c) text
      inferInstanceAs (Decidable ((c = '[' → opened = none) ∧ _))

theorem sizesFrom_append (opened : Option (List Char)) (text rest : List Char) :
    sizesFrom opened (text ++ rest) =
      sizesFrom opened text ++ sizesFrom (text.foldl advance opened) rest := by
  induction text generalizing opened with
  | nil => rfl
  | cons c text ih =>
      rw [List.cons_append, sizesFrom, ih, sizesFrom, List.append_assoc,
        List.foldl_cons]

theorem Closes.behind (hcloses : Closes opened (text ++ rest)) :
    Closes (text.foldl advance opened) rest := by
  induction text generalizing opened with
  | nil => exact hcloses
  | cons c text ih => exact ih hcloses.2

/-- Outside of groups only an opening bracket matters. -/
theorem foldl_advance_outside (hopening : '[' ∉ text) :
    text.foldl advance none = none ∧ sizesFrom none text = [] := by
  induction text with
  | nil => exact ⟨rfl, rfl⟩
  | cons c text ih =>
      obtain ⟨hhead, hrest⟩ := not_or.1 (mt List.mem_cons.2 hopening)
      have hstep : advance none c = none := if_neg (Ne.symm hhead)
      rw [List.foldl_cons, sizesFrom, hstep]
      exact ih hrest

/-- Inside of a group only a closing bracket matters. -/
theorem foldl_advance_inside (hclosing : ']' ∉ text) :
    text.foldl advance (some content) = some (content ++ text) ∧
      sizesFrom (some content) text = [] := by
  induction text generalizing content with
  | nil => simp [sizesFrom]
  | cons c text ih =>
      obtain ⟨hhead, hrest⟩ := not_or.1 (mt List.mem_cons.2 hclosing)
      have hstep : advance (some content) c = some (content ++ [c]) :=
        if_neg (Ne.symm hhead)
      have hnone : closed (some content) c = [] := if_neg (Ne.symm hhead)
      rw [List.foldl_cons, sizesFrom, hstep, hnone, List.nil_append]
      simpa using @ih (content ++ [c]) hrest

theorem sizesFrom_outside (hopening : '[' ∉ text) :
    sizesFrom none (text ++ rest) = sizesFrom none rest := by
  obtain ⟨hstate, hsizes⟩ := foldl_advance_outside hopening
  rw [sizesFrom_append, hstate, hsizes, List.nil_append]

theorem sizesFrom_inside (hclosing : ']' ∉ text) :
    sizesFrom (some content) (text ++ ']' :: rest) =
      String.ofList (Text.trim (content ++ text)) :: sizesFrom none rest := by
  obtain ⟨hstate, hsizes⟩ := @foldl_advance_inside _ content hclosing
  rw [sizesFrom_append, hstate, hsizes]
  rfl

theorem closes_outside (hopening : '[' ∉ text) (hrest : Closes none rest) :
    Closes none (text ++ rest) := by
  induction text with
  | nil => exact hrest
  | cons c text ih =>
      obtain ⟨hhead, htext⟩ := not_or.1 (mt List.mem_cons.2 hopening)
      have hstep : advance none c = none := if_neg (Ne.symm hhead)
      rw [List.cons_append, Closes, hstep]
      exact ⟨fun _ => rfl, ih htext⟩

/-- A text in an open group adds to its content.  What follows, up to the closing
bracket, may also be read from outside of the group. -/
theorem Closes.sizesFrom_closing {lead trail : List Char} (htext : ']' ∉ text)
    (hopening : '[' ∉ trail) (hclosing : ']' ∉ trail)
    (hcloses : Closes (some lead) (text ++ (trail ++ ']' :: rest))) :
    sizesFrom (some lead) (text ++ (trail ++ ']' :: rest)) =
        String.ofList (Text.trim (lead ++ (text ++ trail))) ::
          sizesFrom none (trail ++ ']' :: rest) ∧
      Closes none (trail ++ ']' :: rest) := by
  have hboth : ']' ∉ text ++ trail := by
    rw [List.mem_append, not_or]
    exact ⟨htext, hclosing⟩
  rw [← List.append_assoc] at hcloses ⊢
  have hbehind := hcloses.behind
  rw [(foldl_advance_inside hboth).1] at hbehind
  constructor
  · rw [sizesFrom_inside hboth, sizesFrom_outside hopening]
    rfl
  · exact closes_outside hopening ⟨fun _ => rfl, hbehind.2⟩

/-- Behind an opening bracket only what follows it is kept. -/
theorem Closes.foldl_advance_opening (hclosing : ']' ∉ content)
    (hcloses : Closes opened ((text ++ '[' :: content) ++ rest)) :
    (text ++ '[' :: content).foldl advance opened = some content := by
  rw [List.append_assoc] at hcloses
  have hnone : text.foldl advance opened = none := hcloses.behind.1 rfl
  calc (text ++ '[' :: content).foldl advance opened
      = content.foldl advance (some []) := by
        rw [List.foldl_append, hnone]
        rfl
    _ = some content := (foldl_advance_inside hclosing).1

/-- Closed groups are as many as brackets are opened. -/
theorem length_sizesFrom (hcloses : Closes opened text) :
    (sizesFrom opened text).length = opened.toList.length + text.count '[' := by
  induction text generalizing opened with
  | nil =>
      obtain rfl : opened = none := hcloses
      rfl
  | cons c text ih =>
      obtain ⟨hopen, hrest⟩ := hcloses
      have hlength := ih hrest
      rw [sizesFrom, List.length_append, hlength]
      cases opened with
      | none =>
          by_cases hbracket : c = '['
          · simp [closed, advance, hbracket]
            omega
          · simp [closed, advance, hbracket]
      | some content =>
          have hnot : c ≠ '[' := by
            intro heq
            cases hopen heq
          by_cases hbracket : c = ']'
          · simp [closed, advance, hbracket]
          · simp [closed, advance, hbracket, hnot]

/-! ## The sizes that are read from a text -/

theorem eq_append_of_dropWhile_ne {c d : Char}
    (hdrop : text.dropWhile (· != c) = d :: rest) :
    d = c ∧ text = text.takeWhile (· != c) ++ c :: rest := by
  have hne := List.head?_dropWhile_not (· != c) text
  rw [hdrop] at hne
  obtain rfl : d = c := by simpa using hne
  have hsplit := @List.takeWhile_append_dropWhile _ (· != d) text
  rw [hdrop] at hsplit
  exact ⟨rfl, hsplit.symm⟩

theorem notMem_takeWhile_ne (c : Char) (text : List Char) :
    c ∉ text.takeWhile (· != c) := by
  intro hmem
  simpa using List.mem_takeWhile_imp hmem

theorem takeWhile_ne_append_cons {c : Char} (htext : c ∉ text) :
    (text ++ c :: rest).takeWhile (· != c) = text := by
  have hall : ∀ d ∈ text, (d != c) = true := by
    intro d hd
    exact bne_iff_ne.2 fun heq => htext (heq ▸ hd)
  rw [List.takeWhile_append_of_pos hall, List.takeWhile_cons_of_neg (by simp),
    List.append_nil]

theorem dropWhile_ne_append_cons {c : Char} (htext : c ∉ text) :
    (text ++ c :: rest).dropWhile (· != c) = c :: rest := by
  have hall : ∀ d ∈ text, (d != c) = true := by
    intro d hd
    exact bne_iff_ne.2 fun heq => htext (heq ▸ hd)
  rw [List.dropWhile_append_of_pos hall, List.dropWhile_cons_of_neg (by simp)]

/-- What is found as a group is the first pair of brackets, whatever stands in front of
it, with something between them that has no bracket. -/
theorem bracketGroup_eq_ok_iff {behind : List Char} :
    bracketGroup text = .ok (content, behind) ↔
      ∃ front tail, text = front ++ '[' :: (content ++ ']' :: tail) ∧
        behind = ']' :: tail ∧ '[' ∉ front ∧
          content ≠ [] ∧ '[' ∉ content ∧ ']' ∉ content := by
  constructor
  · intro hgroup
    unfold bracketGroup at hgroup
    split at hgroup
    · cases hgroup
    · next head inner hopening =>
        split at hgroup
        · cases hgroup
        · next hclosing =>
            dsimp only at hgroup
            split at hgroup
            · cases hgroup
            · next hempty =>
                split at hgroup
                · cases hgroup
                · next hnested =>
                    obtain ⟨rfl, rfl⟩ := Prod.mk.inj (Except.ok.inj hgroup)
                    obtain ⟨d, tail, hbehind⟩ := List.exists_cons_of_ne_nil hclosing
                    obtain ⟨rfl, hinner⟩ := eq_append_of_dropWhile_ne hbehind
                    obtain ⟨rfl, htext⟩ := eq_append_of_dropWhile_ne hopening
                    refine ⟨text.takeWhile (· != '['), tail, ?_, hbehind,
                      notMem_takeWhile_ne '[' text, mt List.isEmpty_iff.2 hempty,
                      by simpa using hnested, notMem_takeWhile_ne ']' inner⟩
                    rwa [← hinner]
  · rintro ⟨front, tail, rfl, rfl, hfront, hcontent, hopening, hclosing⟩
    simp [bracketGroup, dropWhile_ne_append_cons hfront,
      dropWhile_ne_append_cons hclosing, takeWhile_ne_append_cons hclosing, hcontent,
      hopening]

theorem bracketSizes_singleton (c : Char) : bracketSizes [c] = .ok [] := by
  rw [bracketSizes, if_pos List.length_singleton]

theorem bracketSizes_of_group {behind : List Char} (hlength : text.length ≠ 1)
    (hgroup : bracketGroup text = .ok (content, behind)) :
    bracketSizes text =
      (bracketSizes behind).map (String.ofList (Text.trim content) :: ·) := by
  rw [bracketSizes, if_neg hlength]
  split
  · next hother =>
      rw [hgroup] at hother
      cases hother
  · next hother =>
      rw [hgroup] at hother
      obtain ⟨rfl, rfl⟩ := Prod.mk.inj (Except.ok.inj hother)
      rfl

theorem bracketSizes_of_fault {fault : ModifierFault} (hlength : text.length ≠ 1)
    (hgroup : bracketGroup text = .error fault) : bracketSizes text = .error fault := by
  rw [bracketSizes, if_neg hlength]
  split
  · next hother =>
      rw [hgroup] at hother
      exact congrArg Except.error (Except.error.inj hother.symm)
  · next hother =>
      rw [hgroup] at hother
      cases hother

/-- What is read from a text is all there is to read. -/
structure ReadsAll (text : List Char) (sizes : List String) : Prop where
  sizes_eq : sizesFrom none text = sizes
  state_eq : text.foldl advance none = none
  count_eq : text.count '[' = sizes.length
  getLast?_eq : text.getLast? = some ']'

theorem ReadsAll.group {front tail : List Char}
    (hrest : ReadsAll (']' :: tail) sizes) (hfront : '[' ∉ front)
    (hopening : '[' ∉ content) (hclosing : ']' ∉ content) :
    ReadsAll (front ++ '[' :: (content ++ ']' :: tail))
      (String.ofList (Text.trim content) :: sizes) where
  sizes_eq := by
    calc sizesFrom none (front ++ '[' :: (content ++ ']' :: tail))
        = sizesFrom (some []) (content ++ ']' :: tail) := by
          rw [sizesFrom_outside hfront]
          rfl
      _ = String.ofList (Text.trim content) :: sizesFrom none tail := by
          rw [sizesFrom_inside hclosing, List.nil_append]
      _ = String.ofList (Text.trim content) :: sizes := by
          rw [← hrest.sizes_eq]
          rfl
  state_eq := by
    calc (front ++ '[' :: (content ++ ']' :: tail)).foldl advance none
        = (content ++ ']' :: tail).foldl advance (some []) := by
          rw [List.foldl_append, (foldl_advance_outside hfront).1]
          rfl
      _ = (']' :: tail).foldl advance none := by
          rw [List.foldl_append, (foldl_advance_inside hclosing).1]
          rfl
      _ = none := hrest.state_eq
  count_eq := by
    rw [List.count_append, List.count_cons_self, List.count_append,
      List.count_eq_zero_of_not_mem hfront, List.count_eq_zero_of_not_mem hopening,
      hrest.count_eq]
    simp
  getLast?_eq := by
    have hsplit : front ++ '[' :: (content ++ ']' :: tail) =
        (front ++ '[' :: content) ++ ']' :: tail := by simp
    rw [hsplit, List.getLast?_append, hrest.getLast?_eq]
    rfl

theorem readsAll_of_bracketSizes (hsingle : text.length = 1 → text = [']'])
    (hrun : bracketSizes text = .ok sizes) : ReadsAll text sizes := by
  induction text using bracketSizes.induct generalizing sizes with
  | case1 text hlength =>
      obtain rfl := hsingle hlength
      rw [bracketSizes, if_pos hlength] at hrun
      obtain rfl := Except.ok.inj hrun
      exact ⟨rfl, rfl, rfl, rfl⟩
  | case2 text hlength fault hgroup =>
      rw [bracketSizes_of_fault hlength hgroup] at hrun
      cases hrun
  | case3 text hlength content behind hgroup ih =>
      rw [bracketSizes_of_group hlength hgroup] at hrun
      obtain ⟨later, hlater, rfl⟩ := map_eq_ok_iff.1 hrun
      obtain ⟨front, tail, rfl, rfl, hfront, -, hopening, hclosing⟩ :=
        bracketGroup_eq_ok_iff.1 hgroup
      have hrest : ReadsAll (']' :: tail) later := by
        apply ih _ hlater
        intro hone
        rw [List.length_cons, Nat.add_eq_right, List.length_eq_zero_iff] at hone
        rw [hone]
      exact hrest.group hfront hopening hclosing

/-- Blanks hold no bracket. -/
theorem notMem_of_blank {bracket : Char} (hbracket : Text.isBlank bracket = false)
    (hblank : ∀ c ∈ text, Text.isBlank c) : bracket ∉ text := by
  intro hmem
  rw [hblank bracket hmem] at hbracket
  cases hbracket

theorem ReadsAll.of_trim (hall : ReadsAll (Text.trim text) sizes) :
    sizesFrom none text = sizes ∧ text.foldl advance none = none ∧
      text.count '[' = sizes.length ∧
        (Text.trimEnd text).getLast? = some ']' := by
  obtain ⟨lead, trail, hlead, htrail, htext⟩ := Text.exists_trim text
  have hleadOpen : '[' ∉ lead := notMem_of_blank (by decide) hlead
  have htrailOpen : '[' ∉ trail := notMem_of_blank (by decide) htrail
  rw [htext]
  refine ⟨?_, ?_, ?_, ?_⟩
  · rw [sizesFrom_outside hleadOpen, sizesFrom_append, hall.state_eq, hall.sizes_eq,
      (foldl_advance_outside htrailOpen).2, List.append_nil]
  · rw [List.foldl_append, (foldl_advance_outside hleadOpen).1, List.foldl_append,
      hall.state_eq, (foldl_advance_outside htrailOpen).1]
  · rw [List.count_append, List.count_append, hall.count_eq,
      List.count_eq_zero_of_not_mem hleadOpen,
      List.count_eq_zero_of_not_mem htrailOpen]
    simp
  · have hlast : (lead ++ Text.trim text).getLast? = some ']' := by
      rw [List.getLast?_append, hall.getLast?_eq]
      rfl
    rw [← List.append_assoc, Text.trimEnd_append htrail]
    rw [Text.trimEnd_eq_self hlast (by decide), hlast]

end Brackets

end VideoRegistry
