import VideoRegistry.Proofs.Brackets
import VideoRegistry.Proofs.Declarations
import VideoRegistry.Proofs.Lineless

/-!
# Documents without comments

Comments and processing instructions part the texts of a document, and of a parted
text only the piece next to an element is read.  Where nothing that counts is cut
off in this way, a document has the same header without its comments.
-/

namespace VideoRegistry

namespace Xml

/-- A text in front of other nodes, which a text at their beginning joins. -/
def joinText (line : Nat) (content : String) : List Node → List Node
  | .text _ following :: rest => .text line (content ++ following) :: rest
  | nodes => .text line content :: nodes

/-- A node in front of others, if it is no comment or instruction. -/
def Node.putBefore : Node → List Node → List Node
  | .element content, nodes => .element content :: nodes
  | .text line content, nodes => joinText line content nodes
  | .comment _, nodes => nodes
  | .instruction _ _, nodes => nodes

mutual

/-- A node without the comments and instructions within it. -/
def Node.uncommented : Node → Node
  | .element content => .element (uncommentedElement content)
  | .text line content => .text line content
  | .comment content => .comment content
  | .instruction target content => .instruction target content

def uncommentedElement : ElementOf Node → ElementOf Node
  | ⟨line, tag, attributes, children⟩ =>
      ⟨line, tag, attributes, uncommentedNodes children⟩

def uncommentedNodes : List Node → List Node
  | [] => []
  | node :: rest => node.uncommented.putBefore (uncommentedNodes rest)

end

/-- A document without comments and instructions; the texts that they parted are
put together. -/
def Document.uncommented (document : Document) : Document :=
  ⟨uncommentedNodes document.nodes⟩

theorem uncommentedElement_eq (element : Element) :
    uncommentedElement element = ⟨element.line, element.tag, element.attributes,
      uncommentedNodes element.children⟩ := by
  cases element
  rfl

theorem filterMap_element?_joinText (line : Nat) (content : String)
    (nodes : List Node) :
    (joinText line content nodes).filterMap Node.element? =
      nodes.filterMap Node.element? := by
  rcases nodes with _ | ⟨_ | _ | _ | _, rest⟩ <;> rfl

theorem filterMap_element?_uncommented (nodes : List Node) :
    (uncommentedNodes nodes).filterMap Node.element? =
      (nodes.filterMap Node.element?).map uncommentedElement := by
  induction nodes with
  | nil => rfl
  | cons node rest ih =>
      cases node with
      | element content => exact congrArg (uncommentedElement content :: ·) ih
      | text line content => exact (filterMap_element?_joinText _ _ _).trans ih
      | comment content => exact ih
      | instruction target content => exact ih

theorem keepsElements_uncommented : KeepsElements uncommentedElement where
  tag element := by rw [uncommentedElement_eq]
  attributes element := by rw [uncommentedElement_eq]
  elements element := by
    rw [uncommentedElement_eq]
    exact filterMap_element?_uncommented element.children

/-! ## Texts between elements -/

/-- The text of some nodes, with nothing in place of those that are no texts. -/
def wholeText (nodes : List Node) : List Char :=
  nodes.flatMap fun node => (neighbourText (some node)).toList

/-- The nodes in front of the first element. -/
def leading (nodes : List Node) : List Node :=
  nodes.takeWhile fun node => node.element?.isNone

/-- An element with the nodes between it and the elements next to it. -/
structure Gap where
  before : List Node
  element : Element
  after : List Node

/-- The elements among some nodes that follow others without elements. -/
def gaps (before : List Node) : List Node → List Gap
  | [] => []
  | node :: rest =>
      match node with
      | .element found => ⟨before, found, leading rest⟩ :: gaps [] rest
      | _ => gaps (before ++ [node]) rest

/-- An element between two texts. -/
structure Setting where
  ahead : List Char
  element : Element
  behind : List Char

/-- An element with the texts that a reader sees next to it. -/
def Neighbourhood.seen (place : Neighbourhood) : Setting where
  ahead := (neighbourText place.before).toList
  element := place.element
  behind := (neighbourText place.after).toList

def Gap.seen (gap : Gap) : Setting where
  ahead := (neighbourText gap.before.getLast?).toList
  element := gap.element
  behind := (neighbourText gap.after.head?).toList

/-- What is next to an element when nothing parts the texts. -/
def Gap.whole (gap : Gap) : Setting where
  ahead := wholeText gap.before
  element := uncommentedElement gap.element
  behind := wholeText gap.after

theorem neighbourText_leading (nodes : List Node) :
    neighbourText (leading nodes).head? = neighbourText nodes.head? := by
  rcases nodes with _ | ⟨_ | _ | _ | _, rest⟩ <;> rfl

/-- What is seen of an element lies within its gap. -/
theorem map_seen_neighbourhoods (nodes : List Node) {node : Option Node}
    {before : List Node}
    (hnode : neighbourText node = neighbourText before.getLast?) :
    (neighbourhoods node nodes).map Neighbourhood.seen =
      (gaps before nodes).map Gap.seen := by
  induction nodes generalizing node before with
  | nil => rfl
  | cons first rest ih =>
      cases first with
      | element content =>
          have hrest := @ih (some (.element content)) [] rfl
          simp only [neighbourhoods, gaps, List.map_cons, hrest,
            Neighbourhood.seen, Gap.seen, hnode, neighbourText_leading]
      | text line content => exact ih (by rw [List.getLast?_concat])
      | comment content => exact ih (by rw [List.getLast?_concat])
      | instruction target content => exact ih (by rw [List.getLast?_concat])

theorem neighbourText_joinText (line : Nat) (content : String)
    (nodes : List Node) :
    neighbourText (joinText line content nodes).head? =
      content ++ neighbourText nodes.head? := by
  have hnothing : content = content ++ "" := String.append_empty.symm
  rcases nodes with _ | ⟨_ | _ | _ | _, rest⟩
  · exact hnothing
  · exact hnothing
  · rfl
  · exact hnothing
  · exact hnothing

/-- Without comments, nodes begin with all of their leading text. -/
theorem neighbourText_head?_uncommented (nodes : List Node) :
    (neighbourText (uncommentedNodes nodes).head?).toList =
      wholeText (leading nodes) := by
  induction nodes with
  | nil => rfl
  | cons node rest ih =>
      cases node with
      | element content => rfl
      | text line content =>
          rw [uncommentedNodes, Node.uncommented, Node.putBefore,
            neighbourText_joinText, String.toList_append, ih]
          rfl
      | comment content => exact ih
      | instruction target content => exact ih

/-- An element separates what is in front of it from what is behind it. -/
theorem uncommentedNodes_append (before rest : List Node) (element : Element) :
    uncommentedNodes (before ++ .element element :: rest) =
      uncommentedNodes before ++
        .element (uncommentedElement element) :: uncommentedNodes rest := by
  induction before with
  | nil => rfl
  | cons node before ih =>
      rw [List.cons_append, uncommentedNodes, ih, uncommentedNodes]
      cases node with
      | element content => rfl
      | text line content =>
          rcases uncommentedNodes before with _ | ⟨_ | _ | _ | _, _⟩ <;> rfl
      | comment content => rfl
      | instruction target content => rfl

/-- Nodes without elements become one text, or nothing. -/
theorem uncommentedNodes_of_leading {nodes : List Node}
    (hnodes : leading nodes = nodes) :
    uncommentedNodes nodes = [] ∨
      ∃ line content, uncommentedNodes nodes = [.text line content] := by
  induction nodes with
  | nil => exact .inl rfl
  | cons node rest ih =>
      cases node with
      | element content => simp [leading, Node.element?] at hnodes
      | text line content =>
          have hrest : leading rest = rest := List.tail_eq_of_cons_eq hnodes
          refine .inr ?_
          rcases ih hrest with hnone | ⟨_, following, hsome⟩
          · exact ⟨line, content, by
              rw [uncommentedNodes, hnone]
              rfl⟩
          · exact ⟨line, content ++ following, by
              rw [uncommentedNodes, hsome]
              rfl⟩
      | comment content => exact ih (List.tail_eq_of_cons_eq hnodes)
      | instruction target content => exact ih (List.tail_eq_of_cons_eq hnodes)

theorem leading_concat {nodes : List Node} {node : Node}
    (hnodes : leading nodes = nodes) (hnode : node.element? = none) :
    leading (nodes ++ [node]) = nodes ++ [node] := by
  rw [leading, List.takeWhile_eq_self_iff] at hnodes ⊢
  intro other hother
  rcases List.mem_append.1 hother with hother | hother
  · exact hnodes other hother
  · rw [List.mem_singleton.1 hother, hnode]
    rfl

/-- What is seen of an element that at most a text is in front of. -/
theorem map_seen_neighbourhoods_append {front : List Node} {node : Option Node}
    (hfront : front = [] ∨ ∃ line content, front = [.text line content])
    (hnode : neighbourText node = "") (element : Element) (rest : List Node) :
    (neighbourhoods node (front ++ .element element :: rest)).map
        Neighbourhood.seen =
      ⟨(neighbourText front.head?).toList, element,
          (neighbourText rest.head?).toList⟩ ::
        (neighbourhoods (some (.element element)) rest).map Neighbourhood.seen := by
  rcases hfront with rfl | ⟨line, content, rfl⟩
  · simp only [List.nil_append, neighbourhoods, List.map_cons, Neighbourhood.seen,
      hnode]
    rfl
  · rfl

/-- Without comments, all of the text in its gap is seen next to an element. -/
theorem map_seen_uncommented (nodes : List Node) {node : Option Node}
    {before : List Node} (hnode : neighbourText node = "")
    (hbefore : leading before = before) :
    (neighbourhoods node (uncommentedNodes (before ++ nodes))).map
        Neighbourhood.seen =
      (gaps before nodes).map Gap.whole := by
  -- `before` holds the nodes since the last element: a text behind them joins theirs.
  induction nodes generalizing node before with
  | nil =>
      rw [List.append_nil]
      rcases uncommentedNodes_of_leading hbefore with hnone | ⟨_, _, hsome⟩
      · rw [hnone]
        rfl
      · rw [hsome]
        rfl
  | cons first rest ih =>
      cases first with
      | element content =>
          rw [uncommentedNodes_append, map_seen_neighbourhoods_append
            (uncommentedNodes_of_leading hbefore) hnode,
            neighbourText_head?_uncommented, neighbourText_head?_uncommented,
            hbefore]
          exact congrArg _ (@ih (some _) [] rfl rfl)
      | text line content =>
          rw [List.append_cons]
          exact ih hnode (leading_concat hbefore rfl)
      | comment content =>
          rw [List.append_cons]
          exact ih hnode (leading_concat hbefore rfl)
      | instruction target content =>
          rw [List.append_cons]
          exact ih hnode (leading_concat hbefore rfl)

/-! ## Texts that are cut off -/

/-- What a comment cuts off the text that an element begins with. -/
def ElementOf.cutText (element : Element) : List Char :=
  wholeText (leading element.children).tail

/-- What a comment cuts off the text in front of an element. -/
def Gap.cutAhead (gap : Gap) : List Char :=
  wholeText gap.before.dropLast

/-- What a comment cuts off the text behind an element. -/
def Gap.cutBehind (gap : Gap) : List Char :=
  wholeText gap.after.tail

theorem wholeText_eq_head?_append_tail (nodes : List Node) :
    wholeText nodes =
      (neighbourText nodes.head?).toList ++ wholeText nodes.tail := by
  cases nodes <;> rfl

theorem wholeText_eq_dropLast_append_getLast? (nodes : List Node) :
    wholeText nodes =
      wholeText nodes.dropLast ++ (neighbourText nodes.getLast?).toList := by
  rcases List.eq_nil_or_concat' nodes with rfl | ⟨front, last, rfl⟩
  · rfl
  · rw [List.dropLast_concat, List.getLast?_concat, wholeText, List.flatMap_append,
      List.flatMap_singleton]
    rfl

theorem text_eq_neighbourText (element : Element) :
    element.text = neighbourText element.children.head? := by
  rcases element with ⟨line, tag, attributes, _ | ⟨_ | _ | _ | _, rest⟩⟩ <;> rfl

theorem toList_text_uncommented (element : Element) :
    (uncommentedElement element).text.toList =
      element.text.toList ++ element.cutText := by
  rw [text_eq_neighbourText, uncommentedElement_eq, neighbourText_head?_uncommented,
    wholeText_eq_head?_append_tail, neighbourText_leading, ← text_eq_neighbourText,
    ElementOf.cutText]

/-- An element from which nothing is cut off has the same text without comments. -/
theorem text_uncommented {element : Element} (hcut : element.cutText = []) :
    (uncommentedElement element).text = element.text := by
  apply String.toList_injective
  rw [toList_text_uncommented, hcut, List.append_nil]

end Xml

open Xml (Element Gap Neighbourhood Node Setting)

theorem isLicence_of_eq_append {text whole : String} {rest : List Char}
    (hwhole : whole.toList = text.toList ++ rest) (hlicence : isLicence text) :
    isLicence whole := by
  rw [isLicence, List.isPrefixOf_iff_prefix] at hlicence ⊢
  by_cases hblank : text.toList.all Text.isBlank
  · have hnone : Text.trimStart text.toList = [] :=
      List.dropWhile_eq_nil_iff.2 (List.all_eq_true.1 hblank)
    rw [hnone] at hlicence
    simp at hlicence
  · rw [hwhole, Text.trimStart_append_of_not_blank hblank]
    exact hlicence.trans (List.prefix_append _ _)

/-- Whether a text behind a name ends the declaration, whatever else is in it. -/
def endsDeclaration (text : List Char) : Bool :=
  (Text.trimStart text).head? = some ';' || (Text.trimStart text).head? = some ')'

/-- Whether nothing that counts is cut off the texts within and around a part of a
member.  Blanks do not count around a name and type, nor what is behind a name whose
declaration has ended; brackets around a size are seen in front of what is cut off. -/
def Xml.Gap.isWhole (gap : Gap) : Bool :=
  let sureAhead := gap.cutAhead.all Text.isBlank
  let sureBehind := gap.cutBehind.all Text.isBlank
  match gap.element.tag with
  | "enum" =>
      gap.element.cutText.isEmpty &&
        (sureAhead || !gap.seen.ahead.all Text.isBlank) &&
          (sureBehind || !gap.seen.behind.all Text.isBlank)
  | "name" =>
      gap.element.cutText.isEmpty &&
        (sureBehind || endsDeclaration gap.whole.behind)
  | "type" => gap.element.cutText.isEmpty && sureAhead && sureBehind
  | _ => true

/-- Whether nothing that counts is cut off the texts of a declared type. -/
def isWholeType (element : Element) : Bool :=
  (element.elements.all fun child =>
    child.tag ∉ ["name", "type"] || child.cutText.isEmpty) &&
    (element.named "member").all fun member =>
      (Xml.gaps [] member.children).all Gap.isWhole

def isWholeSection (element : Element) : Bool :=
  match element.tag with
  | "comment" =>
      !isLicence (Xml.uncommentedElement element).text || element.cutText.isEmpty
  | "types" => (element.named "type").all isWholeType
  | _ => true

/-- Whether comments and instructions cut nothing that counts off the texts of a
document. -/
def Xml.Document.isWhole (document : Xml.Document) : Bool :=
  document.elements.all fun root => root.elements.all isWholeSection

theorem Xml.Gap.whole_eq (gap : Gap) :
    gap.whole = ⟨gap.cutAhead ++ gap.seen.ahead,
      Xml.uncommentedElement gap.element, gap.seen.behind ++ gap.cutBehind⟩ := by
  rw [Gap.whole, Xml.wholeText_eq_dropLast_append_getLast? gap.before,
    Xml.wholeText_eq_head?_append_tail gap.after]
  rfl

theorem Xml.Gap.cutText_of_isWhole {gap : Gap} (hwhole : gap.isWhole)
    (htag : gap.element.tag ∈ ["enum", "name", "type"]) :
    gap.element.cutText = [] := by
  rw [Gap.isWhole] at hwhole
  simp only [List.mem_cons, List.not_mem_nil, or_false] at htag
  rcases htag with henum | hname | htype
  · simp only [henum, Bool.and_eq_true, List.isEmpty_iff] at hwhole
    exact hwhole.1.1
  · simp only [hname, Bool.and_eq_true, List.isEmpty_iff] at hwhole
    exact hwhole.1
  · simp only [htype, Bool.and_eq_true, List.isEmpty_iff] at hwhole
    exact hwhole.1.1

section Parts

variable {place other : Neighbourhood} {ahead behind : List Char}

theorem betweenBrackets_eq
    (hahead : (neighbourText other.before).toList =
      ahead ++ (neighbourText place.before).toList)
    (hbehind : (neighbourText other.after).toList =
      (neighbourText place.after).toList ++ behind)
    (hsureAhead : ahead.all Text.isBlank ∨
      ¬ (neighbourText place.before).toList.all Text.isBlank)
    (hsureBehind : behind.all Text.isBlank ∨
      ¬ (neighbourText place.after).toList.all Text.isBlank) :
    betweenBrackets other = betweenBrackets place := by
  have hopening : (Text.trimEnd (neighbourText other.before).toList).getLast? =
      (Text.trimEnd (neighbourText place.before).toList).getLast? := by
    rw [hahead]
    exact Text.getLast?_trimEnd_append hsureAhead
  have hclosing : (Text.trimStart (neighbourText other.after).toList).head? =
      (Text.trimStart (neighbourText place.after).toList).head? := by
    rw [hbehind]
    exact Text.head?_trimStart_append hsureBehind
  rw [neighbourText, neighbourText] at hopening hclosing
  simp only [betweenBrackets, hopening, hclosing]

/-- Blanks do not count in front of a type or behind it. -/
theorem typeSpelling_eq (htext : other.element.text = place.element.text)
    (hahead : (neighbourText other.before).toList =
      ahead ++ (neighbourText place.before).toList)
    (hbehind : (neighbourText other.after).toList =
      (neighbourText place.after).toList ++ behind)
    (hblankAhead : ∀ c ∈ ahead, Text.isBlank c)
    (hblankBehind : ∀ c ∈ behind, Text.isBlank c) :
    typeSpelling other = typeSpelling place := by
  have hbefore : Text.trim (neighbourText other.before).toList =
      Text.trim (neighbourText place.before).toList := by
    rw [hahead, Text.trim, Text.trimStart_append hblankAhead, Text.trim]
  have hafter : Text.trimEnd (neighbourText other.after).toList =
      Text.trimEnd (neighbourText place.after).toList := by
    rw [hbehind, Text.trimEnd_append hblankBehind]
  rw [neighbourText, neighbourText] at hbefore hafter
  rw [typeSpelling, typeSpelling, Text.trimmed, Text.trimmed, hbefore, hafter, htext]

theorem modifiersOf_trim_of_endsDeclaration {text : List Char}
    (hends : text.all Text.isBlank ∨ endsDeclaration text) :
    modifiersOf (Text.trim text) = .ok {} := by
  rcases hends with hblank | hends
  · have hnone : Text.trimStart text = [] :=
      List.dropWhile_eq_nil_iff.2 (List.all_eq_true.1 hblank)
    rw [Text.trim, hnone]
    rfl
  · rw [endsDeclaration, ← Text.head?_trim, Bool.or_eq_true, decide_eq_true_eq,
      decide_eq_true_eq] at hends
    rcases hends with hends | hends
    · obtain ⟨rest, hrest⟩ := List.head?_eq_some_iff.1 hends
      rw [hrest]
      rfl
    · obtain ⟨rest, hrest⟩ := List.head?_eq_some_iff.1 hends
      rw [hrest]
      rfl

/-- What follows the end of a declaration is no modifier, and blanks are none. -/
theorem modifiersOf_eq
    (hbehind : (neighbourText other.after).toList =
      (neighbourText place.after).toList ++ behind)
    (hsure : behind.all Text.isBlank ∨
      endsDeclaration ((neighbourText place.after).toList ++ behind)) :
    modifiersOf (Text.trim (neighbourText other.after).toList) =
      modifiersOf (Text.trim (neighbourText place.after).toList) := by
  rw [hbehind]
  rcases hsure with hblank | hends
  · have hnothing : ∀ c ∈ ([] : List Char), Text.isBlank c := by simp
    exact congrArg modifiersOf
      (Text.trim_append hnothing (List.all_eq_true.1 hblank))
  · have hseen : (neighbourText place.after).toList.all Text.isBlank ∨
        endsDeclaration (neighbourText place.after).toList := by
      refine or_iff_not_imp_left.2 fun hblank => ?_
      rwa [endsDeclaration, Text.head?_trimStart_append (Or.inr hblank)] at hends
    rw [modifiersOf_trim_of_endsDeclaration (Or.inr hends),
      modifiersOf_trim_of_endsDeclaration hseen]

/-- A part of a member is read alike without comments if nothing that counts is cut
off around it. -/
theorem samePart_of_isWhole {gap : Gap} (hplace : place.seen = gap.seen)
    (hother : other.seen = gap.whole) (hwhole : gap.isWhole) :
    SamePart place other := by
  rw [Gap.whole_eq, ← hplace] at hother
  have helement : place.element = gap.element := congrArg Setting.element hplace
  have helement' : other.element = Xml.uncommentedElement gap.element :=
    congrArg Setting.element hother
  have hahead : (neighbourText other.before).toList =
      gap.cutAhead ++ (neighbourText place.before).toList :=
    congrArg Setting.ahead hother
  have hbehind : (neighbourText other.after).toList =
      (neighbourText place.after).toList ++ gap.cutBehind :=
    congrArg Setting.behind hother
  have htext : place.element.tag ∈ ["enum", "name", "type"] →
      other.element.text = place.element.text := by
    intro htag
    rw [helement] at htag ⊢
    rw [helement', Xml.text_uncommented (gap.cutText_of_isWhole hwhole htag)]
  rw [Gap.isWhole, Gap.whole_eq, ← helement, ← hplace] at hwhole
  refine ⟨?_, htext, fun henum => ?_, fun hname => ?_, fun htype => ?_⟩
  · rw [helement, helement']
    exact (Xml.keepsElements_uncommented.sameTree gap.element).head
  · simp only [henum, Bool.and_eq_true, Bool.or_eq_true, Bool.not_eq_true',
      ← Bool.not_eq_true] at hwhole
    obtain ⟨⟨-, hsureAhead⟩, hsureBehind⟩ := hwhole
    exact betweenBrackets_eq hahead hbehind hsureAhead hsureBehind
  · simp only [hname, Bool.and_eq_true, Bool.or_eq_true] at hwhole
    exact modifiersOf_eq hbehind hwhole.2
  · simp only [htype, Bool.and_eq_true, List.all_eq_true] at hwhole
    obtain ⟨⟨-, hblankAhead⟩, hblankBehind⟩ := hwhole
    exact typeSpelling_eq (htext (by simp [htype])) hahead hbehind hblankAhead
      hblankBehind

end Parts

theorem keepsType_of_isWhole {element : Element} (hwhole : isWholeType element) :
    KeepsType Xml.uncommentedElement element := by
  rw [isWholeType, Bool.and_eq_true, List.all_eq_true, List.all_eq_true] at hwhole
  obtain ⟨htexts, hmembers⟩ := hwhole
  refine ⟨fun child hchild htag => ?_, fun member hmember => ?_⟩
  · have hcut := htexts child hchild
    simp only [htag, not_true_eq_false, decide_false, Bool.false_or,
      List.isEmpty_iff] at hcut
    exact Xml.text_uncommented hcut
  · have hparts := List.all_eq_true.1 (hmembers member hmember)
    have hplaced : member.placed.map Neighbourhood.seen =
        (Xml.gaps [] member.children).map Gap.seen :=
      Xml.map_seen_neighbourhoods member.children rfl
    have huncommented : (Xml.uncommentedElement member).placed.map
        Neighbourhood.seen = (Xml.gaps [] member.children).map Gap.whole := by
      rw [Xml.uncommentedElement_eq]
      exact @Xml.map_seen_uncommented member.children none [] rfl rfl
    exact forall₂_of_forall₂ (map_eq_map_iff_forall₂.1 hplaced.symm)
      (map_eq_map_iff_forall₂.1 huncommented.symm)
      fun place other gap hgap hplace hother =>
        samePart_of_isWhole hplace.symm hother.symm (hparts gap hgap)

theorem keepsSection_of_isWhole {element : Element}
    (hwhole : isWholeSection element) :
    KeepsSection Xml.uncommentedElement element := by
  rw [isWholeSection] at hwhole
  refine ⟨fun hcomment hlicence => ?_, fun htypes type htype => ?_⟩
  · rw [hcomment] at hwhole
    have hlicence : isLicence (Xml.uncommentedElement element).text :=
      hlicence.elim
        (isLicence_of_eq_append (Xml.toList_text_uncommented element)) id
    simp only [hlicence, Bool.not_true, Bool.false_or, List.isEmpty_iff] at hwhole
    exact Xml.text_uncommented hwhole
  · rw [htypes] at hwhole
    exact keepsType_of_isWhole (List.all_eq_true.1 hwhole type htype)

/-- Without comments a document is read alike, unless they cut something off. -/
theorem sameReading_uncommented {document : Xml.Document}
    (hwhole : document.isWhole) : SameReading document document.uncommented := by
  refine sameReading_of_keeps Xml.keepsElements_uncommented
    (Xml.filterMap_element?_uncommented document.nodes) ?_
  intro root hroot element helement
  rw [Xml.Document.isWhole, List.all_eq_true] at hwhole
  exact keepsSection_of_isWhole
    (List.all_eq_true.1 (hwhole root hroot) element helement)

/-- Comments and instructions that cut off nothing that counts do not matter: the
document without them, on whatever lines, has the same header or still none. -/
theorem generateFrom_uncommented {config : Config} {document other : Xml.Document}
    (hwhole : document.isWhole)
    (hother : other.lineless = document.uncommented.lineless) (text : String) :
    generateFrom config document = .ok text ↔
      generateFrom config other = .ok text := by
  calc
    generateFrom config document = .ok text
      ↔ generateFrom config document.uncommented = .ok text :=
        generateFrom_eq_ok_iff_of_sameReading (sameReading_uncommented hwhole) text
    _ ↔ generateFrom config document.uncommented.lineless = .ok text :=
        (generateFrom_lineless document.uncommented text).symm
    _ ↔ generateFrom config other = .ok text := by
        rw [← hother]
        exact generateFrom_lineless other text

/-- A struct with one member, with nodes between its type and its name and behind
its name. -/
def annotatedDocument (between behind : List Node) : Xml.Document :=
  Plain.documentOf
    [Plain.element "type" [("name", "int")] [],
      Plain.element "type" [("category", "struct"), ("name", "SA")]
        [Plain.element "member" []
          (Plain.element "type" [] [.text 1 "int"] :: between ++
            Plain.element "name" [] [.text 1 "a"] :: behind)]]
    [] [("va", ["SA"])]

def annotated (sizes : List String) : Registry :=
  Plain.registry [("SA", [{ Plain.member "int" "" "a" with arraySizes := sizes }])]
    [Plain.extension "va" none ["SA"]]

theorem exists_generateFrom_annotated {between behind : List Node}
    {sizes : List String} (hsizes : sizes = [] ∨ sizes = ["4"])
    (hread : readDocument Plain.brief (annotatedDocument between behind) =
      .ok (annotated sizes)) :
    ∃ text,
      generateFrom Plain.brief (annotatedDocument between behind) = .ok text ∧
        (annotated sizes).emit Plain.brief = .ok text := by
  have hclose : (annotated sizes).close = .ok (annotated sizes) := by
    rcases hsizes with rfl | rfl <;> cbv
  have horder : (annotated sizes).order = .ok (annotated sizes) := by
    rcases hsizes with rfl | rfl <;> cbv
  have hcheck : (annotated sizes).check "S" = .ok (annotated sizes) := by
    rcases hsizes with rfl | rfl <;> cbv
  have hdocument : Registry.ofDocument Plain.brief
      (annotatedDocument between behind) = .ok (annotated sizes) :=
    Registry.ofDocument_eq_ok_iff.2 ⟨_, _, _, hread, hclose, horder, hcheck⟩
  have hfaults : Header.emissionFaults Plain.brief (annotated sizes) = [] := by
    rcases hsizes with rfl | rfl <;> decide
  obtain ⟨text, htext⟩ := Registry.exists_emit hfaults
  exact ⟨text, bind_eq_ok_iff.2 ⟨_, hdocument, htext⟩, htext⟩

/-- Comments that cut nothing off, and a document without them on other lines. -/
theorem annotated_generateFrom :
    (annotatedDocument [.text 1 " ", .comment " of "]
        [.text 1 "[4]", .comment " elements "]).isWhole ∧
      (annotatedDocument [.text 2 " "] [.text 3 "[4]"]).lineless =
        (annotatedDocument [.text 1 " ", .comment " of "]
          [.text 1 "[4]", .comment " elements "]).uncommented.lineless ∧
      ∃ text,
        generateFrom Plain.brief (annotatedDocument [.text 1 " ", .comment " of "]
          [.text 1 "[4]", .comment " elements "]) = .ok text ∧
        generateFrom Plain.brief (annotatedDocument [.text 2 " "] [.text 3 "[4]"]) =
          .ok text := by
  have hwhole : (annotatedDocument [.text 1 " ", .comment " of "]
      [.text 1 "[4]", .comment " elements "]).isWhole := by
    decide
  have hlines : (annotatedDocument [.text 2 " "] [.text 3 "[4]"]).lineless =
      (annotatedDocument [.text 1 " ", .comment " of "]
        [.text 1 "[4]", .comment " elements "]).uncommented.lineless := by
    rfl
  obtain ⟨text, hrun, -⟩ := @exists_generateFrom_annotated
    [.text 1 " ", .comment " of "] [.text 1 "[4]", .comment " elements "] ["4"]
    (Or.inr rfl) (readDocument_eq_ok_iff.2 ⟨by cbv, by decide⟩)
  refine ⟨hwhole, hlines, text, hrun, ?_⟩
  exact (generateFrom_uncommented hwhole hlines text).1 hrun

/-- Behind a comment an array size is not seen. -/
theorem annotated_loses_size :
    ∃ text other,
      generateFrom Plain.brief (annotatedDocument [.text 1 " "]
        [.comment " elements ", .text 1 "[4]"]) = .ok text ∧
      generateFrom Plain.brief (annotatedDocument [.text 1 " "]
        [.comment " elements ", .text 1 "[4]"]).uncommented = .ok other ∧
      text ≠ other := by
  have hsame : (annotatedDocument [.text 1 " "]
      [.comment " elements ", .text 1 "[4]"]).uncommented =
        annotatedDocument [.text 1 " "] [.text 1 "[4]"] := by
    rfl
  obtain ⟨text, hrun, htext⟩ := @exists_generateFrom_annotated
    [.text 1 " "] [.comment " elements ", .text 1 "[4]"] [] (Or.inl rfl)
    (readDocument_eq_ok_iff.2 ⟨by cbv, by decide⟩)
  obtain ⟨other, hother, htext'⟩ := @exists_generateFrom_annotated
    [.text 1 " "] [.text 1 "[4]"] ["4"] (Or.inr rfl)
    (readDocument_eq_ok_iff.2 ⟨by cbv, by decide⟩)
  have hne : (annotated []).emit Plain.brief ≠ (annotated ["4"]).emit Plain.brief := by
    decide +kernel
  rw [hsame]
  refine ⟨text, other, hrun, hother, ?_⟩
  rintro rfl
  exact hne (htext.trans htext'.symm)

end VideoRegistry
