import Mathlib
import VideoRegistry.Proofs.Brackets
import VideoRegistry.Proofs.PlainDocument
import VideoRegistry.Proofs.Reading

/-!
# The dimensions of a member

The text behind a member's name declares its array sizes: literals in the texts, and
elements that stand for constants.  The reader looks at the text directly behind the
name and at every size element with the brackets around it.  The other texts are
passed over, with the brackets in them.
-/

namespace VideoRegistry

open Xml (Node Element Neighbourhood neighbourhoods)

/-! ## What stands behind a name -/

/-- The array size that an element stands for. -/
def sizeText? (element : Element) : Option String :=
  if element.tag = "enum" then some element.text else none

def sizeTexts (nodes : List Node) : List String :=
  (nodes.filterMap Node.element?).filterMap sizeText?

/-- What a node adds to the text of a declarator. -/
def declaratorPart : Node → List Char
  | .text _ content => content.toList
  | .element element => ((sizeText? element).getD "").toList
  | _ => []

def declaratorText (nodes : List Node) : List Char :=
  nodes.flatMap declaratorPart

/-- The array sizes that the nodes behind a name declare. -/
def declaredSizes (nodes : List Node) : List String :=
  Brackets.sizesFrom none (declaratorText nodes)

def beginsWithSize : List Node → Bool
  | .element element :: _ => element.tag = "enum"
  | _ => false

/-- The texts between elements, without the brackets that open size elements. -/
def betweenSizes : List Node → List Char
  | [] => []
  | .text _ content :: rest =>
      (if beginsWithSize rest then (Text.trimEnd content.toList).dropLast
        else content.toList) ++ betweenSizes rest
  | _ :: rest => betweenSizes rest

/-- Whether sizes are read from the trimmed text directly behind a name. -/
def readsSizes : List Char → Bool
  | '[' :: _ :: _ => true
  | _ => false

/-- The texts behind a name that no size is read from. -/
def passedOver : List Node → List Char
  | .text line content :: rest =>
      if readsSizes (Text.trim content.toList) then betweenSizes rest
      else betweenSizes (.text line content :: rest)
  | nodes => betweenSizes nodes

/-- A size without brackets and without blanks around it. -/
def PlainSize (size : String) : Prop :=
  Text.trim size.toList = size.toList ∧ '[' ∉ size.toList ∧ ']' ∉ size.toList

instance : DecidablePred PlainSize :=
  fun size => inferInstanceAs (Decidable
    (Text.trim size.toList = size.toList ∧ '[' ∉ size.toList ∧ ']' ∉ size.toList))

/-- A node that is no text and gives no size. -/
def Idle : Node → Prop
  | .element element => element.tag ≠ "enum"
  | .text _ _ => False
  | _ => True

/-- Induction on nodes by what they are behind a name. -/
theorem nodes_induction {motive : List Node → Prop} (nil : motive [])
    (text : ∀ line content rest, motive rest →
      motive (.text line content :: rest))
    (size : ∀ element rest, element.tag = "enum" → motive rest →
      motive (.element element :: rest))
    (idle : ∀ node rest, Idle node → motive rest → motive (node :: rest)) :
    ∀ nodes, motive nodes := by
  intro nodes
  induction nodes with
  | nil => exact nil
  | cons node rest ih =>
      cases node with
      | text line content => exact text line content rest ih
      | comment content => exact idle _ rest trivial ih
      | instruction target content => exact idle _ rest trivial ih
      | element element =>
          by_cases htag : element.tag = "enum"
          · exact size element rest htag ih
          · exact idle _ rest htag ih

section Parts

variable {node : Node} {element : Element} {rest : List Node} {line : Nat}
  {content : String}

@[simp]
theorem sizeTexts_text : sizeTexts (.text line content :: rest) = sizeTexts rest :=
  rfl

theorem sizeTexts_size (htag : element.tag = "enum") :
    sizeTexts (.element element :: rest) = element.text :: sizeTexts rest := by
  simp [sizeTexts, Node.element?, sizeText?, htag]

theorem sizeTexts_idle (hidle : Idle node) :
    sizeTexts (node :: rest) = sizeTexts rest := by
  cases node with
  | element element =>
      have htag : element.tag ≠ "enum" := hidle
      simp [sizeTexts, Node.element?, sizeText?, htag]
  | text line content => cases hidle
  | comment content => rfl
  | instruction target content => rfl

theorem declaratorText_text : declaratorText (.text line content :: rest) =
    content.toList ++ declaratorText rest :=
  rfl

theorem declaratorText_size (htag : element.tag = "enum") :
    declaratorText (.element element :: rest) =
      element.text.toList ++ declaratorText rest := by
  simp [declaratorText, declaratorPart, sizeText?, htag]

theorem declaratorText_idle (hidle : Idle node) :
    declaratorText (node :: rest) = declaratorText rest := by
  cases node with
  | element element =>
      have htag : element.tag ≠ "enum" := hidle
      simp [declaratorText, declaratorPart, sizeText?, htag]
  | text line content => cases hidle
  | comment content => rfl
  | instruction target content => rfl

theorem betweenSizes_size : betweenSizes (.element element :: rest) =
    betweenSizes rest :=
  rfl

theorem betweenSizes_idle (hidle : Idle node) :
    betweenSizes (node :: rest) = betweenSizes rest := by
  cases node with
  | text line content => cases hidle
  | _ => rfl

theorem beginsWithSize_idle (hidle : Idle node) :
    beginsWithSize (node :: rest) = false := by
  cases node with
  | element element => exact decide_eq_false hidle
  | _ => rfl

end Parts

/-! ## The brackets around sizes -/

/-- Every size element stands between brackets, with the given node in front. -/
def SizesBracketed (before : Option Node) (nodes : List Node) : Prop :=
  ∀ place ∈ neighbourhoods before nodes, place.element.tag = "enum" →
    betweenBrackets place

theorem betweenBrackets_iff {place : Neighbourhood} :
    betweenBrackets place ↔
      (Text.trimEnd ((Xml.textOf? place.before).getD "").toList).getLast? =
          some '[' ∧
        (Text.trimStart ((Xml.textOf? place.after).getD "").toList).head? =
          some ']' := by
  simp [betweenBrackets]

theorem exists_size_of_beginsWithSize {nodes : List Node}
    (hbegins : beginsWithSize nodes) :
    ∃ element rest, nodes = .element element :: rest ∧ element.tag = "enum" := by
  rcases nodes with - | ⟨element | text | comment | instruction, rest⟩
  · cases hbegins
  · exact ⟨element, rest, rfl, of_decide_eq_true hbegins⟩
  · cases hbegins
  · cases hbegins
  · cases hbegins

theorem exists_text_of_textOf? {node : Option Node} {content : String}
    (htext : Xml.textOf? node = some content) :
    ∃ line, node = some (.text line content) := by
  rcases node with - | (element | ⟨line, other⟩ | comment | instruction)
  · cases htext
  · cases htext
  · obtain rfl := Option.some.inj htext
    exact ⟨line, rfl⟩
  · cases htext
  · cases htext

namespace SizesBracketed

variable {before : Option Node} {node : Node} {element : Element}
  {nodes rest : List Node}

theorem tail (hbracketed : SizesBracketed before (node :: rest)) :
    SizesBracketed (some node) rest := by
  cases node with
  | element element =>
      intro place hplace
      exact hbracketed place (List.mem_cons_of_mem _ hplace)
  | _ => exact hbracketed

/-- In front of a size element stands a text that ends with an opening bracket. -/
theorem exists_opening (hbracketed : SizesBracketed before nodes)
    (hbegins : beginsWithSize nodes) :
    ∃ line content, before = some (.text line content) ∧
      (Text.trimEnd content.toList).getLast? = some '[' := by
  obtain ⟨element, rest, rfl, htag⟩ := exists_size_of_beginsWithSize hbegins
  have hplace := hbracketed ⟨before, element, rest.head?⟩ List.mem_cons_self htag
  obtain ⟨hopening, -⟩ := betweenBrackets_iff.1 hplace
  cases htext : Xml.textOf? before with
  | none =>
      rw [htext] at hopening
      cases hopening
  | some content =>
      obtain ⟨line, rfl⟩ := exists_text_of_textOf? htext
      exact ⟨line, content, rfl, hopening⟩

/-- Behind a size element stands a text that begins with a closing bracket. -/
theorem exists_closing
    (hbracketed : SizesBracketed before (.element element :: rest))
    (htag : element.tag = "enum") :
    ∃ line content later lead tail, rest = .text line content :: later ∧
      (∀ c ∈ lead, Text.isBlank c) ∧ content.toList = lead ++ ']' :: tail := by
  have hplace := hbracketed ⟨before, element, rest.head?⟩ List.mem_cons_self htag
  obtain ⟨-, hclosing⟩ := betweenBrackets_iff.1 hplace
  cases htext : Xml.textOf? rest.head? with
  | none =>
      rw [htext] at hclosing
      cases hclosing
  | some content =>
      rw [htext] at hclosing
      obtain ⟨line, hhead⟩ := exists_text_of_textOf? htext
      obtain ⟨later, rfl⟩ := List.head?_eq_some_iff.1 hhead
      obtain ⟨lead, tail, hlead, hcontent⟩ :=
        Text.exists_of_head?_trimStart hclosing
      exact ⟨line, content, later, lead, tail, rfl, hlead, hcontent⟩

theorem beginsWithSize_eq_false (hbracketed : SizesBracketed before nodes)
    (hbefore : Xml.textOf? before = none) : beginsWithSize nodes = false := by
  rw [← Bool.not_eq_true]
  intro hbegins
  obtain ⟨line, content, rfl, -⟩ := hbracketed.exists_opening hbegins
  cases hbefore

end SizesBracketed

theorem textOf?_idle {node : Node} (hidle : Idle node) :
    Xml.textOf? (some node) = none := by
  cases node with
  | text line content => cases hidle
  | _ => rfl

/-- A size that an element gives is read as the group around it. -/
theorem PlainSize.trim_eq {size : String} {lead trail : List Char}
    (hplain : PlainSize size) (hlead : ∀ c ∈ lead, Text.isBlank c)
    (htrail : ∀ c ∈ trail, Text.isBlank c) :
    String.ofList (Text.trim (lead ++ (size.toList ++ trail))) = size := by
  rw [Text.trim_append hlead htrail, hplain.1, String.ofList_toList]

/-- The sizes of elements are among the groups of the whole text, in their order.  A
group may be open before the nodes; in front of a size element it holds blanks. -/
theorem sizeTexts_sublist {before : Option Node} {opened : Option (List Char)}
    {nodes : List Node} (hbracketed : SizesBracketed before nodes)
    (hplain : ∀ size ∈ sizeTexts nodes, PlainSize size)
    (hcloses : Brackets.Closes opened (declaratorText nodes))
    (hopened : beginsWithSize nodes →
      ∃ lead, (∀ c ∈ lead, Text.isBlank c) ∧ opened = some lead) :
    (sizeTexts nodes).Sublist
      (Brackets.sizesFrom opened (declaratorText nodes)) := by
  induction nodes using nodes_induction generalizing before opened with
  | nil => exact List.nil_sublist _
  | text line content rest ih =>
      rw [declaratorText_text] at hcloses ⊢
      rw [sizeTexts_text, Brackets.sizesFrom_append]
      apply List.Sublist.trans _ (List.sublist_append_right _ _)
      apply ih hbracketed.tail hplain hcloses.behind
      -- A size element follows: the text ends inside of the group that it opens.
      intro hbegins
      obtain ⟨_, _, hbefore, hlast⟩ := hbracketed.tail.exists_opening hbegins
      obtain ⟨rfl, rfl⟩ := Node.text.inj (Option.some.inj hbefore)
      obtain ⟨trail, htrail, hcontent⟩ := Text.exists_of_getLast?_trimEnd hlast
      have hclosing : ']' ∉ trail := Brackets.notMem_of_blank (by decide) htrail
      rw [hcontent] at hcloses ⊢
      exact ⟨trail, htrail, hcloses.foldl_advance_opening hclosing⟩
  | size element rest htag ih =>
      obtain ⟨lead, hlead, rfl⟩ := hopened (decide_eq_true htag)
      obtain ⟨line, content, later, trail, tail, rfl, htrail, hcontent⟩ :=
        hbracketed.exists_closing htag
      rw [sizeTexts_size htag] at hplain ⊢
      obtain ⟨hsize, hsizes⟩ := List.forall_mem_cons.1 hplain
      have hopening : '[' ∉ trail := Brackets.notMem_of_blank (by decide) htrail
      have hclosing : ']' ∉ trail := Brackets.notMem_of_blank (by decide) htrail
      have hrest : declaratorText (.text line content :: later) =
          trail ++ ']' :: (tail ++ declaratorText later) := by
        rw [declaratorText_text, hcontent, List.append_assoc, List.cons_append]
      rw [declaratorText_size htag, hrest] at hcloses ⊢
      -- The induction hypothesis reads the rest, which begins with blanks and the
      -- closing bracket, from outside of the group.
      obtain ⟨hgroup, hlater⟩ :=
        hcloses.sizesFrom_closing hsize.2.2 hopening hclosing
      rw [← hrest] at hgroup hlater
      rw [← hrest, hgroup, hsize.trim_eq hlead htrail]
      apply List.Sublist.cons_cons
      apply ih hbracketed.tail hsizes hlater
      intro hbegins
      cases hbegins
  | idle node rest hidle ih =>
      rw [declaratorText_idle hidle] at hcloses ⊢
      rw [sizeTexts_idle hidle] at hplain ⊢
      apply ih hbracketed.tail hplain hcloses
      intro hbegins
      rw [hbracketed.tail.beginsWithSize_eq_false (textOf?_idle hidle)] at hbegins
      cases hbegins

/-- Every bracket is that of a size element or stands between the elements. -/
theorem count_declaratorText {before : Option Node} {nodes : List Node}
    (hbracketed : SizesBracketed before nodes)
    (hplain : ∀ size ∈ sizeTexts nodes, PlainSize size) :
    (declaratorText nodes).count '[' + (beginsWithSize nodes).toNat =
      (sizeTexts nodes).length + (betweenSizes nodes).count '[' := by
  induction nodes using nodes_induction generalizing before with
  | nil => rfl
  | text line content rest ih =>
      have hrest := ih hbracketed.tail hplain
      rw [declaratorText_text, sizeTexts_text, betweenSizes, List.count_append,
        List.count_append]
      cases hbegins : beginsWithSize rest with
      | false =>
          rw [hbegins] at hrest
          simp only [beginsWithSize, Bool.toNat_false, Bool.false_eq_true,
            if_false] at hrest ⊢
          omega
      | true =>
          obtain ⟨_, _, hbefore, hlast⟩ := hbracketed.tail.exists_opening hbegins
          obtain ⟨rfl, rfl⟩ := Node.text.inj (Option.some.inj hbefore)
          obtain ⟨trail, htrail, hcontent⟩ :=
            Text.exists_of_getLast?_trimEnd hlast
          have hopening : '[' ∉ trail :=
            Brackets.notMem_of_blank (by decide) htrail
          have hcount : content.toList.count '[' =
              (Text.trimEnd content.toList).dropLast.count '[' + 1 := by
            rw [hcontent, List.count_append, List.count_cons_self,
              List.count_eq_zero_of_not_mem hopening, ← hcontent]
          rw [hbegins] at hrest
          simp only [beginsWithSize, Bool.toNat_false, Bool.toNat_true,
            if_true] at hrest ⊢
          omega
  | size element rest htag ih =>
      rw [sizeTexts_size htag] at hplain ⊢
      obtain ⟨hsize, hsizes⟩ := List.forall_mem_cons.1 hplain
      have hrest := ih hbracketed.tail hsizes
      have hbegins : beginsWithSize (.element element :: rest) = true :=
        decide_eq_true htag
      rw [hbracketed.tail.beginsWithSize_eq_false rfl] at hrest
      rw [declaratorText_size htag, List.count_append,
        List.count_eq_zero_of_not_mem hsize.2.1, betweenSizes_size, hbegins,
        List.length_cons]
      simp only [Bool.toNat_false, Bool.toNat_true] at hrest ⊢
      omega
  | idle node rest hidle ih =>
      rw [sizeTexts_idle hidle] at hplain ⊢
      have hrest := ih hbracketed.tail hplain
      rw [hbracketed.tail.beginsWithSize_eq_false (textOf?_idle hidle)] at hrest
      rwa [declaratorText_idle hidle, betweenSizes_idle hidle,
        beginsWithSize_idle hidle]

/-! ## The text directly behind the name -/

theorem arraySizes_of_not_readsSizes {text : List Char} {modifiers : Modifiers}
    (hreads : readsSizes text = false)
    (hrun : modifiersOf text = .ok modifiers) : modifiers.arraySizes = [] := by
  unfold modifiersOf at hrun
  split at hrun
  · obtain rfl := Except.ok.inj hrun
    rfl
  · next c rest =>
      split at hrun
      · obtain rfl := Except.ok.inj hrun
        rfl
      · split at hrun
        · next hopening =>
            subst hopening
            obtain ⟨sizes, hsizes, rfl⟩ := map_eq_ok_iff.1 hrun
            cases rest with
            | nil =>
                rw [Brackets.bracketSizes_singleton] at hsizes
                exact (Except.ok.inj hsizes).symm
            | cons d rest => cases hreads
        · split at hrun
          · dsimp only at hrun
            split at hrun
            · cases hrun
            · obtain rfl := Except.ok.inj hrun
              rfl
          · cases hrun

theorem readsAll_of_readsSizes {text : List Char} {modifiers : Modifiers}
    (hreads : readsSizes text) (hrun : modifiersOf text = .ok modifiers) :
    Brackets.ReadsAll text modifiers.arraySizes := by
  unfold readsSizes at hreads
  split at hreads
  · next c rest =>
      obtain ⟨sizes, hsizes, rfl⟩ := map_eq_ok_iff.1 hrun
      apply Brackets.readsAll_of_bracketSizes _ hsizes
      intro hlength
      cases hlength
  · cases hreads

theorem modifiersOf_of_readModifiers {line : Nat} {content : String}
    {modifiers : Modifiers}
    (hrun : readModifiers (some (.text line content)) = .ok modifiers) :
    modifiersOf (Text.trim content.toList) = .ok modifiers := by
  rw [readModifiers] at hrun
  split at hrun
  · next found hfound =>
      obtain rfl := Except.ok.inj hrun
      exact hfound
  · cases hrun

/-- Sizes that are found behind a name are among the groups of the whole text, in
their order; the missing ones are opened in the texts that are passed over. -/
structure Finds (found : List String) (back : List Node) : Prop where
  sublist : found.Sublist (declaredSizes back)
  count_eq : (declaratorText back).count '[' =
    found.length + (passedOver back).count '['

/-- If nothing is read from the text behind the name, the elements give the sizes. -/
theorem finds_sizeTexts {name : Element} {back : List Node}
    (hpassed : passedOver back = betweenSizes back)
    (hbracketed : SizesBracketed (some (.element name)) back)
    (hplain : ∀ size ∈ sizeTexts back, PlainSize size)
    (hcloses : Brackets.Closes none (declaratorText back)) :
    Finds (sizeTexts back) back := by
  have hfront : beginsWithSize back = false :=
    hbracketed.beginsWithSize_eq_false rfl
  constructor
  · apply sizeTexts_sublist hbracketed hplain hcloses
    intro hbegins
    rw [hfront] at hbegins
    cases hbegins
  · have hcount := count_declaratorText hbracketed hplain
    rw [hfront] at hcount
    rw [hpassed]
    exact hcount

/-- If sizes are read from the text behind the name, they are all of its groups, and
the elements behind it give the others. -/
theorem finds_append {before : Option Node} {line : Nat} {content : String}
    {sizes : List String} {rest : List Node}
    (hreads : readsSizes (Text.trim content.toList))
    (hall : Brackets.ReadsAll (Text.trim content.toList) sizes)
    (hbracketed : SizesBracketed before (.text line content :: rest))
    (hplain : ∀ size ∈ sizeTexts rest, PlainSize size)
    (hcloses : Brackets.Closes none
      (declaratorText (.text line content :: rest))) :
    Finds (sizes ++ sizeTexts rest) (.text line content :: rest) := by
  obtain ⟨hsizes, hstate, hcount, hclosing⟩ := hall.of_trim
  have hbegins : beginsWithSize rest = false := by
    rw [← Bool.not_eq_true]
    intro hbegins
    obtain ⟨_, _, hbefore, hopening⟩ := hbracketed.tail.exists_opening hbegins
    obtain ⟨rfl, rfl⟩ := Node.text.inj (Option.some.inj hbefore)
    rw [hclosing] at hopening
    cases hopening
  have hrest : Brackets.Closes none (declaratorText rest) := by
    rw [declaratorText_text] at hcloses
    rw [← hstate]
    exact hcloses.behind
  constructor
  · rw [declaredSizes, declaratorText_text, Brackets.sizesFrom_append, hsizes,
      hstate]
    apply List.Sublist.append_left
    apply sizeTexts_sublist hbracketed.tail hplain hrest
    intro hfront
    rw [hbegins] at hfront
    cases hfront
  · have hcountRest := count_declaratorText hbracketed.tail hplain
    rw [hbegins, Bool.toNat_false] at hcountRest
    rw [declaratorText_text, List.count_append, passedOver, if_pos hreads,
      List.length_append]
    omega

theorem finds_of_readModifiers {name : Element} {back : List Node}
    {modifiers : Modifiers}
    (hmodifiers : readModifiers back.head? = .ok modifiers)
    (hbracketed : SizesBracketed (some (.element name)) back)
    (hplain : ∀ size ∈ sizeTexts back, PlainSize size)
    (hcloses : Brackets.Closes none (declaratorText back)) :
    Finds (modifiers.arraySizes ++ sizeTexts back) back := by
  have hnothing (hsizes : modifiers.arraySizes = [])
      (hpassed : passedOver back = betweenSizes back) :
      Finds (modifiers.arraySizes ++ sizeTexts back) back := by
    rw [hsizes]
    exact finds_sizeTexts hpassed hbracketed hplain hcloses
  rcases back with - | ⟨element | ⟨line, content⟩ | comment | instruction, rest⟩
  · exact hnothing (congrArg _ (Except.ok.inj hmodifiers).symm) rfl
  · exact hnothing (congrArg _ (Except.ok.inj hmodifiers).symm) rfl
  · have hrun := modifiersOf_of_readModifiers hmodifiers
    cases hreads : readsSizes (Text.trim content.toList) with
    | false =>
        have hsizes := arraySizes_of_not_readsSizes hreads hrun
        exact hnothing hsizes (by rw [passedOver, hreads]; rfl)
    | true =>
        have hall := readsAll_of_readsSizes hreads hrun
        exact finds_append hreads hall hbracketed hplain hcloses
  · exact hnothing (congrArg _ (Except.ok.inj hmodifiers).symm) rfl
  · exact hnothing (congrArg _ (Except.ok.inj hmodifiers).symm) rfl

/-! ## The parts of a member -/

section Reading

variable {draft member : Member} {warnings noticed : List Warning}
  {places more : List Neighbourhood}

theorem readMemberParts_append {result : Member × List Warning}
    (hrun : readMemberParts draft warnings (places ++ more) = .ok result) :
    ∃ middle, readMemberParts draft warnings places = .ok middle ∧
      readMemberParts middle.1 middle.2 more = .ok result := by
  induction places generalizing draft warnings with
  | nil => exact ⟨(draft, warnings), rfl, hrun⟩
  | cons place places ih =>
      rw [List.cons_append, readMemberParts] at hrun
      obtain ⟨found, hcheck, hrun⟩ := bind_eq_ok_iff.1 hrun
      obtain ⟨next, hpart, hrun⟩ := bind_eq_ok_iff.1 hrun
      obtain ⟨middle, hmiddle, hmore⟩ := ih hrun
      refine ⟨middle, ?_, hmore⟩
      rw [readMemberParts]
      exact bind_eq_ok_iff.2 ⟨found, hcheck, bind_eq_ok_iff.2 ⟨next, hpart, hmiddle⟩⟩

/-- A part that is not the name adds the size it stands for, between brackets. -/
theorem readMemberPart_arraySizes {place : Neighbourhood}
    (hname : place.element.tag ≠ "name")
    (hrun : readMemberPart draft place = .ok member) :
    member.arraySizes = draft.arraySizes ++ (sizeText? place.element).toList ∧
      (place.element.tag = "enum" → betweenBrackets place) := by
  unfold readMemberPart at hrun
  dsimp only at hrun
  split at hrun
  · next htag =>
      obtain ⟨_, hbetween, hrun⟩ := bind_eq_ok_iff.1 hrun
      obtain rfl := pure_eq_ok_iff.1 hrun
      rw [require_eq_ok_iff] at hbetween
      exact ⟨by simp [sizeText?, htag], fun _ => hbetween⟩
  · next htag =>
      have hnone : sizeText? place.element = none := if_neg htag
      rw [hnone, Option.toList_none, List.append_nil]
      refine ⟨?_, fun henum => absurd henum htag⟩
      split at hrun
      · obtain rfl := Except.ok.inj hrun
        rfl
      · obtain rfl := Except.ok.inj hrun
        rfl

/-- The name adds the sizes that are read from the text behind it. -/
theorem exists_modifiers_of_readMemberPart {place : Neighbourhood}
    (hname : place.element.tag = "name")
    (hrun : readMemberPart draft place = .ok member) :
    ∃ modifiers, readModifiers place.after = .ok modifiers ∧
      member.arraySizes = draft.arraySizes ++ modifiers.arraySizes := by
  simp only [readMemberPart, hname, String.reduceEq, if_false, if_true] at hrun
  obtain ⟨modifiers, hmodifiers, hrun⟩ := bind_eq_ok_iff.1 hrun
  obtain rfl := pure_eq_ok_iff.1 hrun
  exact ⟨modifiers, hmodifiers, rfl⟩

theorem readMemberParts_arraySizes
    (hname : ∀ place ∈ places, place.element.tag ≠ "name")
    (hrun : readMemberParts draft warnings places = .ok (member, noticed)) :
    member.arraySizes = draft.arraySizes ++
        (places.map Neighbourhood.element).filterMap sizeText? ∧
      ∀ place ∈ places, place.element.tag = "enum" → betweenBrackets place := by
  induction places generalizing draft warnings with
  | nil =>
      rw [readMemberParts] at hrun
      obtain ⟨rfl, -⟩ := Prod.mk.inj (Except.ok.inj hrun)
      simp
  | cons place places ih =>
      rw [readMemberParts] at hrun
      obtain ⟨found, -, hrun⟩ := bind_eq_ok_iff.1 hrun
      obtain ⟨next, hpart, hrun⟩ := bind_eq_ok_iff.1 hrun
      obtain ⟨hplace, hplaces⟩ := List.forall_mem_cons.1 hname
      obtain ⟨hsizes, hbetween⟩ := readMemberPart_arraySizes hplace hpart
      obtain ⟨hlater, hbetweenLater⟩ := ih hplaces hrun
      constructor
      · rw [hlater, hsizes, List.append_assoc, List.map_cons]
        cases hsize : sizeText? place.element with
        | none => rw [List.filterMap_cons_none hsize]; rfl
        | some size => rw [List.filterMap_cons_some hsize]; rfl
      · exact List.forall_mem_cons.2 ⟨hbetween, hbetweenLater⟩

end Reading

theorem map_element_neighbourhoods (before : Option Node) (nodes : List Node) :
    (neighbourhoods before nodes).map Neighbourhood.element =
      nodes.filterMap Node.element? := by
  induction nodes generalizing before with
  | nil => rfl
  | cons node rest ih =>
      cases node with
      | element element =>
          rw [neighbourhoods, List.map_cons, ih]
          rfl
      | _ => exact ih _

/-- The places in front of an element and those behind it. -/
theorem neighbourhoods_append (before : Option Node) (front : List Node)
    (element : Element) (back : List Node) :
    ∃ places last, neighbourhoods before (front ++ .element element :: back) =
        places ++ ⟨last, element, back.head?⟩ ::
          neighbourhoods (some (.element element)) back ∧
      places.map Neighbourhood.element = front.filterMap Node.element? := by
  induction front generalizing before with
  | nil => exact ⟨[], before, rfl, rfl⟩
  | cons node rest ih =>
      obtain ⟨places, last, hplaces, helements⟩ := ih (some node)
      cases node with
      | element found =>
          refine ⟨⟨before, found, (rest ++ .element element :: back).head?⟩ ::
            places, last, ?_, ?_⟩
          · rw [List.cons_append, neighbourhoods, hplaces]
            rfl
          · rw [List.map_cons, helements]
            rfl
      | _ => exact ⟨places, last, hplaces, helements⟩

/-- A member has one name. -/
theorem tag_ne_name_of_check {element name : Element} {front back : List Node}
    {attributes : Attributes} {warnings : List Warning}
    (hcheck : memberRule.check element = .ok (attributes, warnings))
    (hchildren : element.children = front ++ .element name :: back)
    (hname : name.tag = "name") :
    (∀ found ∈ front.filterMap Node.element?, found.tag ≠ "name") ∧
      ∀ found ∈ back.filterMap Node.element?, found.tag ≠ "name" := by
  have hchild : (⟨"name", true⟩ : ChildRule) ∈ memberRule.children :=
    List.mem_cons_self
  have hcount := (count_of_check hchild hcheck).2 rfl
  have helements : element.elements =
      front.filterMap Node.element? ++ name :: back.filterMap Node.element? := by
    rw [Xml.ElementOf.elements, hchildren, List.filterMap_append]
    rfl
  rw [helements, List.countP_append, List.countP_cons, hname] at hcount
  simp only [decide_true, if_true] at hcount
  have hfront : (front.filterMap Node.element?).countP
      (fun found => found.tag = "name") = 0 := by omega
  have hback : (back.filterMap Node.element?).countP
      (fun found => found.tag = "name") = 0 := by omega
  rw [List.countP_eq_zero] at hfront hback
  simp only [decide_eq_true_eq] at hfront hback
  exact ⟨hfront, hback⟩

/-- Parts with one name add the sizes of the elements in front of it, those that are
read from the text behind it, and those of the elements behind it. -/
theorem readMemberParts_around_name {draft member : Member}
    {warnings noticed : List Warning} {name : Element} {front back : List Node}
    (hname : name.tag = "name")
    (hfront : ∀ found ∈ front.filterMap Node.element?, found.tag ≠ "name")
    (hback : ∀ found ∈ back.filterMap Node.element?, found.tag ≠ "name")
    (hrun : readMemberParts draft warnings
      (neighbourhoods none (front ++ .element name :: back)) =
        .ok (member, noticed)) :
    ∃ modifiers, readModifiers back.head? = .ok modifiers ∧
      member.arraySizes = draft.arraySizes ++
        (sizeTexts front ++ (modifiers.arraySizes ++ sizeTexts back)) ∧
      SizesBracketed (some (.element name)) back := by
  obtain ⟨places, last, hplaces, helements⟩ :=
    neighbourhoods_append none front name back
  rw [hplaces] at hrun
  obtain ⟨⟨middle, seen⟩, hfrontRun, hrun⟩ := readMemberParts_append hrun
  rw [readMemberParts] at hrun
  obtain ⟨_, -, hrun⟩ := bind_eq_ok_iff.1 hrun
  obtain ⟨named, hnamed, hbackRun⟩ := bind_eq_ok_iff.1 hrun
  have hfrontNames : ∀ place ∈ places, place.element.tag ≠ "name" := by
    intro place hplace
    apply hfront
    rw [← helements]
    exact List.mem_map_of_mem hplace
  have hbackNames : ∀ place ∈ neighbourhoods (some (.element name)) back,
      place.element.tag ≠ "name" := by
    intro place hplace
    apply hback
    rw [← map_element_neighbourhoods (some (.element name)) back]
    exact List.mem_map_of_mem hplace
  obtain ⟨hsizesFront, -⟩ := readMemberParts_arraySizes hfrontNames hfrontRun
  obtain ⟨modifiers, hmodifiers, hsizesName⟩ :=
    exists_modifiers_of_readMemberPart hname hnamed
  obtain ⟨hsizesBack, hbracketed⟩ :=
    readMemberParts_arraySizes hbackNames hbackRun
  refine ⟨modifiers, hmodifiers, ?_, hbracketed⟩
  calc member.arraySizes
      = middle.arraySizes ++ modifiers.arraySizes ++ sizeTexts back := by
        rw [hsizesBack, hsizesName, map_element_neighbourhoods, sizeTexts]
    _ = draft.arraySizes ++ sizeTexts front ++ modifiers.arraySizes ++
          sizeTexts back := by
        rw [hsizesFront, helements]
        rfl
    _ = draft.arraySizes ++
          (sizeTexts front ++ (modifiers.arraySizes ++ sizeTexts back)) := by
        simp only [List.append_assoc]

theorem readMember_arraySizes_eq {earlier : List Member} {element name : Element}
    {member : Member} {warnings : List Warning} {front back : List Node}
    (hrun : readMember earlier element = .ok (member, warnings))
    (hchildren : element.children = front ++ .element name :: back)
    (hname : name.tag = "name") :
    ∃ modifiers, readModifiers back.head? = .ok modifiers ∧
      member.arraySizes =
        sizeTexts front ++ (modifiers.arraySizes ++ sizeTexts back) ∧
      SizesBracketed (some (.element name)) back := by
  obtain ⟨⟨attributes, noticed⟩, hcheck, hrun⟩ := bind_eq_ok_iff.1 hrun
  obtain ⟨⟨read, all⟩, hparts, hrun⟩ := bind_eq_ok_iff.1 hrun
  obtain ⟨_, -, hrun⟩ := bind_eq_ok_iff.1 hrun
  obtain ⟨_, -, hrun⟩ := bind_eq_ok_iff.1 hrun
  obtain ⟨_, -, hrun⟩ := bind_eq_ok_iff.1 hrun
  obtain ⟨rfl, -⟩ := Prod.mk.inj (pure_eq_ok_iff.1 hrun)
  obtain ⟨hfront, hback⟩ := tag_ne_name_of_check hcheck hchildren hname
  rw [Xml.ElementOf.placed, hchildren] at hparts
  exact readMemberParts_around_name hname hfront hback hparts

/-- Of the dimensions that stand behind the name of a member, the reader finds some
in their order; it invents none and misses one for every bracket that opens in a
text it passes over.  So the found ones are all exactly if there is no such bracket.
Sizes of elements in front of the name come first. -/
theorem readMember_dimensions {earlier : List Member} {element name : Element}
    {member : Member} {warnings : List Warning} {front back : List Node}
    (hrun : readMember earlier element = .ok (member, warnings))
    (hchildren : element.children = front ++ .element name :: back)
    (hname : name.tag = "name")
    (hplain : ∀ size ∈ sizeTexts back, PlainSize size)
    (hcloses : Brackets.Closes none (declaratorText back)) :
    ∃ found, member.arraySizes = sizeTexts front ++ found ∧
      found.Sublist (declaredSizes back) ∧
      (declaredSizes back).length =
        found.length + (passedOver back).count '[' ∧
      (found = declaredSizes back ↔ '[' ∉ passedOver back) := by
  obtain ⟨modifiers, hmodifiers, hsizes, hbracketed⟩ :=
    readMember_arraySizes_eq hrun hchildren hname
  have hfinds := finds_of_readModifiers hmodifiers hbracketed hplain hcloses
  have hlength : (declaredSizes back).length =
      (modifiers.arraySizes ++ sizeTexts back).length +
        (passedOver back).count '[' := by
    rw [declaredSizes, Brackets.length_sizesFrom hcloses, Option.toList_none,
      List.length_nil, Nat.zero_add, hfinds.count_eq]
  refine ⟨_, hsizes, hfinds.sublist, hlength, ?_⟩
  rw [← List.count_eq_zero]
  constructor
  · intro hall
    rw [← hall] at hlength
    omega
  · intro hnone
    rw [hnone, Nat.add_zero] at hlength
    exact hfinds.sublist.eq_of_length hlength.symm

/-- The nodes of a member of the type `int` up to its name. -/
def plainFront : List Node :=
  [Plain.element "type" [] [.text 1 "int"], .text 1 " "]

def plainName : Element where
  line := 1
  tag := "name"
  attributes := []
  children := [.text 1 "a"]

/-- A member of the type `int` with the given nodes behind its name. -/
def dimensioned (back : List Node) : Element where
  line := 1
  tag := "member"
  attributes := []
  children := plainFront ++ .element plainName :: back

def plainMember (sizes : List String) : Member where
  type := { name := "int" }
  name := "a"
  arraySizes := sizes
  line := 1

/-- A literal size, and behind a comment one that an element gives. -/
def literalThenElement : List Node :=
  [.text 1 "[2]", Plain.element "comment" [] [], .text 1 " [",
    Plain.element "enum" [] [.text 1 "N"], .text 1 "]"]

/-- A size that an element gives, and a literal one behind it. -/
def elementThenLiteral : List Node :=
  [.text 1 "[", Plain.element "enum" [] [.text 1 "N"], .text 1 "][2]"]

theorem dimensioned_finds_both :
    readMember [] (dimensioned literalThenElement) =
        .ok (plainMember ["2", "N"], []) ∧
      declaredSizes literalThenElement = ["2", "N"] ∧
      '[' ∉ passedOver literalThenElement := by
  have hrun : readMember [] (dimensioned literalThenElement) =
      .ok (plainMember ["2", "N"], []) := by cbv
  obtain ⟨found, hsizes, -, -, hiff⟩ := readMember_dimensions hrun
    (show (dimensioned literalThenElement).children =
      plainFront ++ .element plainName :: literalThenElement from rfl) rfl
    (by decide) (by decide)
  obtain rfl : found = ["2", "N"] := hsizes.symm
  have hdeclared : declaredSizes literalThenElement = ["2", "N"] := by
    decide
  exact ⟨hrun, hdeclared, hiff.1 hdeclared.symm⟩

/-- The literal size behind an element is lost. -/
theorem dimensioned_loses_literal :
    readMember [] (dimensioned elementThenLiteral) =
        .ok (plainMember ["N"], []) ∧
      declaratorText elementThenLiteral = "[N][2]".toList ∧
      declaredSizes elementThenLiteral = ["N", "2"] := by
  refine ⟨by cbv, by decide, by decide⟩

end VideoRegistry
