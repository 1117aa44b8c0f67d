import VideoRegistry.Proofs.Brackets
import VideoRegistry.Proofs.DeclarationOrder

/-!
# The lines of the banner

Slashes are put behind the line breaks of the licence text.  So all its lines but the
first are comments, whatever the text holds, and trimming never takes slashes away.
The first line has slashes exactly if a line break stands in front of the text.
-/

namespace VideoRegistry

theorem Text.trimEnd_append_cons {c : Char} {front rest : List Char}
    (hblank : isBlank c = false) :
    trimEnd (front ++ c :: rest) = front ++ c :: trimEnd rest := by
  have hkept : (c :: front.reverse).dropWhile isBlank = c :: front.reverse :=
    List.dropWhile_cons_of_neg (Bool.eq_false_iff.1 hblank)
  rw [trimEnd, List.reverse_append, List.reverse_cons, List.append_assoc,
    List.singleton_append, List.dropWhile_append, hkept, trimEnd]
  split
  · next hempty =>
      rw [List.isEmpty_iff.1 hempty]
      simp
  · simp

/-- The lines of a text. -/
def linesOf (text : String) : List (List Char) :=
  text.toList.splitOn '\n'

/-- A line is empty or a comment. -/
def Commented (line : List Char) : Prop :=
  line = [] ∨ ['/', '/'] <+: line

theorem Commented.head?_eq {line : List Char} (hline : Commented line) :
    line.head? = none ∨ line.head? = some '/' := by
  rcases hline with rfl | ⟨behind, rfl⟩
  · exact Or.inl rfl
  · exact Or.inr rfl

instance : DecidablePred Commented := fun line =>
  inferInstanceAs (Decidable (line = [] ∨ ['/', '/'] <+: line))

namespace Banner

theorem commentLines_break (text : List Char) :
    commentLines ('\n' :: text) = '\n' :: '/' :: '/' :: ' ' :: commentLines text :=
  rfl

theorem commentLines_cons {c : Char} (hother : c ≠ '\n') (text : List Char) :
    commentLines (c :: text) = c :: commentLines text := by
  rw [commentLines, List.flatMap_cons, if_neg hother]
  rfl

theorem commentLines_append (text rest : List Char) :
    commentLines (text ++ rest) = commentLines text ++ commentLines rest :=
  List.flatMap_append

theorem commentLines_eq_self {text : List Char} (hbreak : '\n' ∉ text) :
    commentLines text = text := by
  induction text with
  | nil => rfl
  | cons c text ih =>
      obtain ⟨hhead, hrest⟩ := not_or.1 (mt List.mem_cons.2 hbreak)
      rw [commentLines_cons (Ne.symm hhead), ih hrest]

variable {text rest front trail : List Char}

/-- The first line of a text is empty or a comment. -/
def Opens (text : List Char) : Prop :=
  text = [] ∨ text.head? = some '\n' ∨ ['/', '/'] <+: text

/-- The line behind every line break of a text is empty or a comment. -/
def Slashed (text : List Char) : Prop :=
  ∀ tail ∈ text.tails, tail.head? = some '\n' → Opens tail.tail

instance : DecidablePred Opens := fun text =>
  inferInstanceAs (Decidable (text = [] ∨ text.head? = some '\n' ∨ ['/', '/'] <+: text))

instance : DecidablePred Slashed := fun text =>
  inferInstanceAs (Decidable (∀ tail ∈ text.tails, _))

theorem slashed_nil : Slashed [] := by decide

theorem slashed_cons {c : Char} :
    Slashed (c :: text) ↔ (c = '\n' → Opens text) ∧ Slashed text := by
  simp [Slashed]

theorem slashed_cons_of_ne {c : Char} (hother : c ≠ '\n') :
    Slashed (c :: text) ↔ Slashed text := by
  rw [slashed_cons, and_iff_right fun hbreak => absurd hbreak hother]

theorem commented_takeWhile_iff :
    Commented (text.takeWhile (· != '\n')) ↔ Opens text := by
  rcases text with _ | ⟨c, _ | ⟨d, text⟩⟩
  · simp [Commented, Opens]
  · by_cases hbreak : c = '\n' <;> simp [Commented, Opens, hbreak]
  · by_cases hbreak : c = '\n'
    · simp [Commented, Opens, hbreak]
    · by_cases hnext : d = '\n' <;>
        simp [Commented, Opens, hbreak, hnext, List.cons_prefix_cons]

/-- What the first line of a text is, and that no other one is left bare. -/
theorem exists_splitOn (text : List Char) :
    ∃ later, text.splitOn '\n' = text.takeWhile (· != '\n') :: later ∧
      (Slashed text → ∀ line ∈ later, Commented line) := by
  induction text with
  | nil => exact ⟨[], rfl, fun _ _ => nofun⟩
  | cons c text ih =>
      rw [slashed_cons]
      obtain ⟨later, hsplit, hlater⟩ := ih
      rw [List.splitOn_cons_eq_if_modifyHead, hsplit]
      by_cases hbreak : c = '\n'
      · -- The first line ends here, and the first line of the rest is a later one.
        refine ⟨text.takeWhile (· != '\n') :: later, by simp [hbreak], ?_⟩
        rintro ⟨hopens, hslashed⟩ line hline
        rcases List.mem_cons.1 hline with rfl | hline
        · exact commented_takeWhile_iff.2 (hopens hbreak)
        · exact hlater hslashed line hline
      · exact ⟨later, by simp [hbreak], fun hslashed => hlater hslashed.2⟩

theorem slashed_commentLines (text : List Char) : Slashed (commentLines text) := by
  induction text with
  | nil => exact slashed_nil
  | cons c text ih =>
      by_cases hbreak : c = '\n'
      · rw [hbreak, commentLines_break, slashed_cons, slashed_cons_of_ne (by decide),
          slashed_cons_of_ne (by decide), slashed_cons_of_ne (by decide)]
        exact ⟨fun _ => Or.inr (Or.inr ⟨_, rfl⟩), ih⟩
      · rw [commentLines_cons hbreak, slashed_cons_of_ne hbreak]
        exact ih

theorem Opens.append (htext : Opens text) (hrest : Opens rest) :
    Opens (text ++ rest) := by
  rcases htext with rfl | hhead | ⟨behind, rfl⟩
  · exact hrest
  · exact Or.inr (Or.inl (by rw [List.head?_append, hhead]; rfl))
  · exact Or.inr (Or.inr ⟨behind ++ rest, (List.append_assoc ..).symm⟩)

theorem Slashed.append (htext : Slashed text) (hrest : Slashed rest)
    (hopens : Opens rest) : Slashed (text ++ rest) := by
  induction text with
  | nil => exact hrest
  | cons c text ih =>
      obtain ⟨hnext, htext⟩ := slashed_cons.1 htext
      exact slashed_cons.2 ⟨fun hbreak => (hnext hbreak).append hopens, ih htext⟩

theorem Slashed.behind (htext : Slashed (front ++ text)) : Slashed text := by
  induction front with
  | nil => exact htext
  | cons c front ih => exact ih (slashed_cons.1 htext).2

/-- Blanks hold no slash, so no mark ends within them. -/
theorem Opens.of_append_blank (htrail : ∀ c ∈ trail, Text.isBlank c)
    (htext : Opens (text ++ trail)) : Opens text := by
  have hslash : '/' ∉ trail := Brackets.notMem_of_blank (by decide) htrail
  rcases text with _ | ⟨c, _ | ⟨d, text⟩⟩
  · exact Or.inl rfl
  · rcases htext with hnone | hhead | ⟨behind, hmark⟩
    · cases hnone
    · exact Or.inr (Or.inl hhead)
    · obtain ⟨-, htail⟩ := List.cons.inj hmark
      rw [← show '/' :: behind = trail from htail] at hslash
      exact absurd List.mem_cons_self hslash
  · rcases htext with hnone | hhead | ⟨behind, hmark⟩
    · cases hnone
    · exact Or.inr (Or.inl hhead)
    · obtain ⟨rfl, htail⟩ := List.cons.inj hmark
      obtain ⟨rfl, -⟩ := List.cons.inj htail
      exact Or.inr (Or.inr ⟨text, rfl⟩)

theorem Slashed.of_append_blank (htrail : ∀ c ∈ trail, Text.isBlank c)
    (htext : Slashed (text ++ trail)) : Slashed text := by
  induction text with
  | nil => exact slashed_nil
  | cons c text ih =>
      obtain ⟨hnext, htext⟩ := slashed_cons.1 htext
      exact slashed_cons.2
        ⟨fun hbreak => (hnext hbreak).of_append_blank htrail, ih htext⟩

/-- The banner is the text from the first character that is not blank on, once breaks
have slashes, with the note on the origin behind it. -/
theorem toList_banner {comment : String} {c : Char} {lead rest : List Char}
    (hlead : ∀ d ∈ lead, Text.isBlank d) (hblank : Text.isBlank c = false)
    (hlines : commentLines comment.toList = lead ++ c :: rest) :
    (banner comment).toList =
      c :: Text.trimEnd rest ++ (originNote.toList ++ ['\n']) := by
  have hnote : originNote.toList.getLast? = some '.' := by decide
  have hbreak : "\n".toList = ['\n'] := rfl
  have hlast : (c :: Text.trimEnd rest ++ originNote.toList).getLast? = some '.' := by
    rw [List.getLast?_append, hnote, Option.some_or]
  have hstart : Text.trimStart (c :: Text.trimEnd rest ++ originNote.toList) =
      c :: Text.trimEnd rest ++ originNote.toList :=
    List.dropWhile_cons_of_neg (Bool.eq_false_iff.1 hblank)
  rw [banner, hlines, Text.trimEnd_append_cons hblank, Text.trim,
    List.append_assoc, Text.trimStart_append hlead, hstart,
    Text.trimEnd_eq_self hlast (by decide), String.toList_append, String.toList_ofList,
    List.append_assoc, hbreak]

theorem slashed_banner {comment : String} {c : Char} {lead rest : List Char}
    (hlead : ∀ d ∈ lead, Text.isBlank d) (hblank : Text.isBlank c = false)
    (hlines : commentLines comment.toList = lead ++ c :: rest) :
    Slashed (banner comment).toList := by
  have hnote : Slashed (originNote.toList ++ ['\n']) ∧
      Opens (originNote.toList ++ ['\n']) := by decide
  have htext := slashed_commentLines comment.toList
  rw [hlines] at htext
  have hkept : Slashed (c :: Text.trimEnd rest) := by
    obtain ⟨trail, htrail, hrest⟩ := Text.exists_trimEnd rest
    apply Slashed.of_append_blank htrail
    rw [List.cons_append, ← hrest]
    exact htext.behind
  rw [toList_banner hlead hblank hlines]
  exact hkept.append hnote.1 hnote.2

/-- Behind a line break among the blanks the text is commented throughout. -/
theorem banner_of_break {comment : String} (hlead : ∀ d ∈ text, Text.isBlank d)
    (hbreak : '\n' ∈ text) (hcomment : comment.toList = text ++ rest) :
    Slashed (banner comment).toList ∧ Opens (banner comment).toList := by
  -- Up to the first break all is trimmed, and the slashes behind it are not.
  obtain ⟨front, back, rfl, hfront⟩ := List.eq_append_cons_of_mem hbreak
  have hblank : ∀ d ∈ front ++ ['\n'], Text.isBlank d := by
    intro d hd
    apply hlead
    rw [List.append_cons]
    exact List.mem_append_left _ hd
  have hlines : commentLines comment.toList = (front ++ ['\n']) ++
      '/' :: ([] ++ '/' :: (' ' :: commentLines (back ++ rest))) := by
    rw [hcomment, List.append_assoc, commentLines_append, commentLines_eq_self hfront,
      List.cons_append, commentLines_break, List.append_assoc]
    rfl
  refine ⟨slashed_banner hblank (by decide) hlines, ?_⟩
  rw [toList_banner hblank (by decide) hlines, Text.trimEnd_append_cons (by decide)]
  exact Or.inr (Or.inr ⟨_, rfl⟩)

/-- Without such a break the banner begins with the text itself. -/
theorem banner_of_no_break {comment : String} (hlead : ∀ d ∈ text, Text.isBlank d)
    (hbreak : '\n' ∉ text)
    (hcomment : comment.toList = text ++ ("Copyright".toList ++ rest)) :
    Slashed (banner comment).toList ∧
      "Copyright".toList <+: (banner comment).toList.takeWhile (· != '\n') := by
  -- Trimming at the end stops at the last letter of the word at the latest.
  have hlines : commentLines comment.toList =
      text ++ 'C' :: ("opyrigh".toList ++ 't' :: commentLines rest) := by
    rw [hcomment, commentLines_append, commentLines_eq_self hbreak, commentLines_append]
    rfl
  refine ⟨slashed_banner hlead (by decide) hlines, ?_⟩
  rw [toList_banner hlead (by decide) hlines, Text.trimEnd_append_cons (by decide)]
  exact ⟨_, rfl⟩

end Banner

open Banner

/-- A licence text, cut in front of its first word. -/
theorem exists_of_isLicence {comment : String} (hlicence : isLicence comment) :
    ∃ rest, comment.toList =
      comment.toList.takeWhile Text.isBlank ++ ("Copyright".toList ++ rest) := by
  rw [isLicence, List.isPrefixOf_iff_prefix] at hlicence
  obtain ⟨rest, hrest⟩ := hlicence
  exact ⟨rest, by rw [hrest, Text.trimStart, List.takeWhile_append_dropWhile]⟩

/-- All lines of the banner but the first are empty or comments.  The first one is
exactly if a line break stands in front of the licence text, and else it begins with that
text. -/
theorem banner_lines (comment : String) (hlicence : isLicence comment) :
    ∃ first later, linesOf (banner comment) = first :: later ∧
      (∀ line ∈ later, Commented line) ∧
      (Commented first ↔ '\n' ∈ comment.toList.takeWhile Text.isBlank) ∧
      ('\n' ∉ comment.toList.takeWhile Text.isBlank →
        "Copyright".toList <+: first) := by
  obtain ⟨rest, hcomment⟩ := exists_of_isLicence hlicence
  have hlead : ∀ d ∈ comment.toList.takeWhile Text.isBlank, Text.isBlank d :=
    fun _ => List.mem_takeWhile_imp
  obtain ⟨later, hlines, hlater⟩ := exists_splitOn (banner comment).toList
  refine ⟨_, later, hlines, ?_⟩
  by_cases hbreak : '\n' ∈ comment.toList.takeWhile Text.isBlank
  · obtain ⟨hslashed, hopens⟩ := banner_of_break hlead hbreak hcomment
    exact ⟨hlater hslashed, iff_of_true (commented_takeWhile_iff.2 hopens) hbreak,
      fun hnone => absurd hbreak hnone⟩
  · obtain ⟨hslashed, hfirst⟩ := banner_of_no_break hlead hbreak hcomment
    refine ⟨hlater hslashed, iff_of_false ?_ hbreak, fun _ => hfirst⟩
    intro hcommented
    obtain ⟨behind, hbehind⟩ := hfirst
    rw [← hbehind] at hcommented
    rcases hcommented.head?_eq with hhead | hhead <;> cases hhead

theorem banner_lines_broken :
    isLicence "\n  Copyright\nMIT" ∧
      ∀ line ∈ linesOf (banner "\n  Copyright\nMIT"), Commented line := by
  have hlicence : isLicence "\n  Copyright\nMIT" := by decide
  obtain ⟨first, later, hlines, hlater, hfirst, -⟩ := banner_lines _ hlicence
  refine ⟨hlicence, ?_⟩
  rw [hlines, List.forall_mem_cons]
  exact ⟨hfirst.2 (by decide), hlater⟩

/-- A licence text without a break in front is no comment in its first line. -/
theorem banner_not_commented :
    isLicence "Copyright" ∧
      ∃ line ∈ linesOf (banner "Copyright"),
        line = "Copyright".toList ∧ line ≠ [] ∧ ¬ ['/', '/'] <+: line :=
  ⟨by decide, _, by decide, rfl, by decide, by decide⟩

/-! ## The beginning of a header -/

/-- Nothing but licence comments changes the banner. -/
theorem Registry.Reading.copyright_eq {registry after : Registry}
    (hreading : Reading registry after) :
    after.copyright = registry.copyright ∨
      ∃ comment, isLicence comment ∧ after.copyright = banner comment := by
  induction hreading with
  | refl => exact Or.inl rfl
  | tail _ hstep ih =>
      cases hstep with
      | copyright comment hlicence => exact Or.inr ⟨comment, hlicence, rfl⟩
      | _ => exact ih

theorem Registry.ofDocument_copyright {config : Config} {document : Xml.Document}
    {registry : Registry} (hrun : ofDocument config document = .ok registry) :
    ∃ comment, isLicence comment ∧ registry.copyright = banner comment := by
  obtain ⟨read, closed, ordered, hread, hclose, horder, hcheck⟩ :=
    ofDocument_eq_ok_iff.1 hrun
  obtain ⟨claimed, -, hclosed⟩ := bind_eq_ok_iff.1 hclose
  obtain rfl := pure_eq_ok_iff.1 hclosed
  obtain ⟨extensions, -, hordered⟩ := bind_eq_ok_iff.1 horder
  obtain rfl := pure_eq_ok_iff.1 hordered
  obtain ⟨⟨warnings, rfl⟩, -⟩ := check_spec hcheck
  have hsome : read.copyright.isEmpty = false := (readDocument_eq_ok_iff.1 hread).2
  rcases (readDocument_reading hread).copyright_eq with hnone | hbanner
  · rw [hnone] at hsome
    cases hsome
  · exact hbanner

theorem Header.render_eq_append {config : Config} {copyright text : String}
    {header : Header} (hrun : header.render config copyright = .ok text) :
    ∃ behind, text = copyright ++ ("\n\n#ifndef " ++ behind) := by
  obtain ⟨enums, -, hrun⟩ := bind_eq_ok_iff.1 hrun
  obtain ⟨structs, -, hrun⟩ := bind_eq_ok_iff.1 hrun
  obtain ⟨-, rfl⟩ := Template.fill_eq_ok_iff.1 hrun
  have hslot : ∀ fillings, Template.fillSegment (("copyright", copyright) :: fillings)
      (.slot "copyright") = copyright := by
    intro fillings
    simp [Template.fillSegment]
  rw [frame, List.map_cons, String.join_cons, List.map_cons, String.join_cons, hslot]
  exact ⟨_, rfl⟩

/-- Every generated header begins with the banner of a licence text, and behind it the
program starts. -/
theorem generateFrom_eq_banner_append {config : Config} {document : Xml.Document}
    {text : String} (hrun : generateFrom config document = .ok text) :
    ∃ comment behind, isLicence comment ∧
      text = banner comment ++ ("\n\n#ifndef " ++ behind) := by
  obtain ⟨registry, header, hdocument, -, hrender⟩ := generateFrom_eq_ok_iff.1 hrun
  obtain ⟨comment, hlicence, hbanner⟩ := Registry.ofDocument_copyright hdocument
  obtain ⟨behind, htext⟩ := Header.render_eq_append hrender
  exact ⟨comment, behind, hlicence, hbanner ▸ htext⟩

end VideoRegistry
