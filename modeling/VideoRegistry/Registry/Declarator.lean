import VideoRegistry.Diagnostic.Cause
import VideoRegistry.Naming
import VideoRegistry.Registry.Basic
import VideoRegistry.Xml.Node

/-!
# Declarators of members

A member is declared in the manner of C: text around the type decorates it, and
text behind the name gives array sizes or a bit count.
-/

namespace VideoRegistry

/-- The spelled type of a member, from its `type` element and the texts on both
sides of it. -/
def typeSpelling (place : Xml.Neighbourhood) : TypeSpelling where
  before := Text.trimmed ((Xml.textOf? place.before).getD "")
  name := place.element.text
  behind := Naming.spaceStars (String.ofList
    (Text.trimEnd ((Xml.textOf? place.after).getD "").toList))

/-- What follows the name of a member. -/
structure Modifiers where
  arraySizes : List String := []
  bitCount : Option String := none
deriving DecidableEq, Repr

/-- The content of the first pair of brackets, and the text from its closing
bracket on.  Whatever stands in front of the pair is passed over. -/
def bracketGroup (text : List Char) :
    Except ModifierFault (List Char × List Char) :=
  match text.dropWhile (· != '[') with
  | [] => .error .noOpening
  | _ :: inner =>
      match inner.dropWhile (· != ']') with
      | [] => .error .noClosing
      | behind =>
          let content := inner.takeWhile (· != ']')
          if content.isEmpty then .error .emptyBrackets
          else if content.contains '[' then .error .nestedOpening
          else .ok (content, behind)

theorem length_lt_of_bracketGroup {text content behind : List Char}
    (hgroup : bracketGroup text = .ok (content, behind)) :
    behind.length < text.length := by
  unfold bracketGroup at hgroup
  have htext := (List.dropWhile_sublist (· != '[') (l := text)).length_le
  split at hgroup
  · simp at hgroup
  · next head inner hopening =>
      rw [hopening] at htext
      have hinner := (List.dropWhile_sublist (· != ']') (l := inner)).length_le
      simp only [List.length_cons] at htext
      split at hgroup
      · simp at hgroup
      · dsimp only at hgroup
        split at hgroup
        · simp at hgroup
        · split at hgroup
          · simp at hgroup
          · obtain ⟨_, rfl⟩ := by simpa using hgroup
            omega

/-- The sizes between brackets, up to a text of one character. -/
def bracketSizes (text : List Char) : Except ModifierFault (List String) :=
  if text.length = 1 then .ok []
  else
    match _hgroup : bracketGroup text with
    | .error fault => .error fault
    | .ok (content, behind) =>
        (bracketSizes behind).map (String.ofList (Text.trim content) :: ·)
termination_by text.length
decreasing_by exact length_lt_of_bracketGroup ‹_›

/-- The modifiers in a trimmed text.  A lone opening bracket belongs to a size
that is given by an element; a semicolon or parenthesis ends the declaration. -/
def modifiersOf (text : List Char) : Except ModifierFault Modifiers :=
  match text with
  | [] => .ok {}
  | c :: rest =>
      if c = ';' || c = ')' then .ok {}
      else if c = '[' then
        (bracketSizes text).map fun sizes => ⟨sizes, none⟩
      else if c = ':' then
        let bits := Text.trim rest
        if bits.isEmpty then .error .noBitCount
        else .ok ⟨[], some (String.ofList bits)⟩
      else .error .unknown

/-- Reads the modifiers from the node behind a member's name. -/
def readModifiers (node : Option Xml.Node) : Checked Modifiers :=
  match node with
  | some (.text line content) =>
      let text := Text.trim content.toList
      match modifiersOf text with
      | .ok modifiers => .ok modifiers
      | .error fault => .error ⟨line, .modifier fault (String.ofList text)⟩
  | _ => .ok {}

end VideoRegistry
