import Mathlib.Data.String.Basic
import VideoRegistry.Proofs.Brackets

/-!
# The search for brackets, byte by byte

A text is kept in bytes, and the search for its bracket groups goes on from positions in
these bytes: it cuts out what follows a position and looks there for the next bracket.
A cut is impossible within a character, beyond the end of the text and backwards.  Here
the search is given by positions, and the cuts may fail.  In a text that begins with a
bracket none of them does: the search always stands on a bracket, and every round takes it
further to a closing one or ends it with a fault.  So it cannot miss the last byte, there
is at most one round more than closing brackets, and the search ends with what the search
over characters finds.
-/

namespace VideoRegistry.Brackets

open String (utf8Len)

/-- What stands in a text between two positions, if these are in order and both at the
boundary of a character. -/
def piece? (text : String) (start stop : Nat) : Option String :=
  if start ≤ stop ∧ String.Pos.Raw.IsValid text ⟨start⟩ ∧
      String.Pos.Raw.IsValid text ⟨stop⟩ then
    some (String.Pos.Raw.extract text ⟨start⟩ ⟨stop⟩)
  else none

/-- The bytes in front of the first occurrence of a character. -/
def offset? (c : Char) (text : String) : Option Nat :=
  if c ∈ text.toList then
    some (String.ofList (text.toList.takeWhile (· != c))).utf8ByteSize
  else none

/-- Where the search goes on, and the sizes that it has found. -/
structure Cursor where
  stop : Nat
  sizes : List String
deriving DecidableEq, Repr

/-- A round of the search finds one more group, or ends it with a fault.  There is no
outcome where a piece of the text cannot be cut out. -/
def round (text : String) (cursor : Cursor) :
    Option (Except ModifierFault Cursor) := do
  let ahead ← piece? text cursor.stop text.utf8ByteSize
  match offset? '[' ahead with
  | none => some (.error .noOpening)
  | some opening =>
      let start := opening + cursor.stop
      let group ← piece? text start text.utf8ByteSize
      match offset? ']' group with
      | none => some (.error .noClosing)
      | some closing =>
          let close := closing + start
          if close < start + 2 then some (.error .emptyBrackets)
          else
            let size ← piece? text (start + 1) close
            if '[' ∈ size.toList then some (.error .nestedOpening)
            else some (.ok
              ⟨close, cursor.sizes ++ [String.ofList (Text.trim size.toList)]⟩)

/-- Rounds are gone through until the search stands on the last byte of the text or a
round ends it with a fault, which is the last round then. -/
inductive Rounds (text : String) : Nat → Except ModifierFault Cursor → Prop
  | start : Rounds text 0 (.ok ⟨0, []⟩)
  | next {n : Nat} {here : Cursor} {after : Except ModifierFault Cursor}
      (hhere : Rounds text n (.ok here)) (hlast : here.stop + 1 ≠ text.utf8ByteSize)
      (hround : round text here = some after) : Rounds text (n + 1) after

variable {front text rest : List Char} {c : Char} {sizes : List String}

/-! ## Cutting -/

theorem piece?_append (front piece back : List Char) :
    piece? (String.ofList (front ++ (piece ++ back))) (utf8Len front)
        (utf8Len front + utf8Len piece) = some (String.ofList piece) := by
  have hstart : String.Pos.Raw.IsValid (String.ofList (front ++ (piece ++ back)))
      ⟨utf8Len front⟩ := by
    refine String.Pos.Raw.isValid_iff_exists_append.2
      ⟨String.ofList front, String.ofList (piece ++ back), String.ofList_append, ?_⟩
    rw [String.rawEndPos_ofList]
  have hstop : String.Pos.Raw.IsValid (String.ofList (front ++ (piece ++ back)))
      ⟨utf8Len front + utf8Len piece⟩ := by
    refine String.Pos.Raw.isValid_iff_exists_append.2
      ⟨String.ofList (front ++ piece), String.ofList back, ?_, ?_⟩
    · rw [← String.ofList_append, List.append_assoc]
    · rw [String.rawEndPos_ofList, String.utf8Len_append]
  rw [piece?, if_pos ⟨Nat.le_add_right _ _, hstart, hstop⟩, ← List.append_assoc,
    String.extract_of_valid]

theorem piece?_behind (front text : List Char) :
    piece? (String.ofList (front ++ text)) (utf8Len front)
        (String.ofList (front ++ text)).utf8ByteSize = some (String.ofList text) := by
  have hpiece := piece?_append front text []
  rwa [List.append_nil, ← String.utf8Len_append,
    ← String.utf8ByteSize_ofList (front ++ text)] at hpiece

theorem piece?_behind_gap (front gap text : List Char) :
    piece? (String.ofList (front ++ (gap ++ text))) (utf8Len gap + utf8Len front)
        (String.ofList (front ++ (gap ++ text))).utf8ByteSize =
      some (String.ofList text) := by
  rw [← List.append_assoc, Nat.add_comm, ← String.utf8Len_append]
  exact piece?_behind (front ++ gap) text

/-- What stands between a bracket and the next one can be cut out. -/
theorem piece?_content (front gap content back : List Char) :
    piece? (String.ofList (front ++ (gap ++ '[' :: (content ++ back))))
        (utf8Len gap + utf8Len front + 1)
        (utf8Len content + 1 + (utf8Len gap + utf8Len front)) =
      some (String.ofList content) := by
  have hpiece := piece?_append (front ++ (gap ++ ['['])) content back
  have hsame : (front ++ (gap ++ ['['])) ++ (content ++ back) =
      front ++ (gap ++ '[' :: (content ++ back)) := by simp
  have hstart : utf8Len (front ++ (gap ++ ['['])) = utf8Len gap + utf8Len front + 1 := by
    rw [String.utf8Len_append, String.utf8Len_append, Nat.add_left_comm, ← Nat.add_assoc]
    rfl
  have hstop : utf8Len content + 1 + (utf8Len gap + utf8Len front) =
      utf8Len gap + utf8Len front + 1 + utf8Len content := by omega
  rwa [hsame, hstart, ← hstop] at hpiece

theorem offset?_eq_none (hc : c ∉ text) : offset? c (String.ofList text) = none := by
  rw [offset?, String.toList_ofList, if_neg hc]

theorem offset?_append_cons (hc : c ∉ front) :
    offset? c (String.ofList (front ++ c :: rest)) = some (utf8Len front) := by
  rw [offset?, String.toList_ofList, if_pos (by simp), takeWhile_ne_append_cons hc,
    String.utf8ByteSize_ofList]

/-! ## A round -/

theorem round_of_noOpening (hopening : '[' ∉ text) :
    round (String.ofList (front ++ text)) ⟨utf8Len front, sizes⟩ =
      some (.error .noOpening) := by
  simp only [round, piece?_behind, offset?_eq_none hopening, Option.bind_eq_bind,
    Option.bind_some]

variable {gap inner content tail : List Char}

theorem round_of_noClosing (hgap : '[' ∉ gap) (hclosing : ']' ∉ inner) :
    round (String.ofList (front ++ (gap ++ '[' :: inner))) ⟨utf8Len front, sizes⟩ =
      some (.error .noClosing) := by
  have hnone : offset? ']' (String.ofList ('[' :: inner)) = none :=
    offset?_eq_none (by simpa using hclosing)
  simp only [round, piece?_behind, offset?_append_cons hgap, piece?_behind_gap,
    hnone, Option.bind_eq_bind, Option.bind_some]

/-- Where both brackets are found, the piece between them decides. -/
theorem round_of_closing (hgap : '[' ∉ gap) (hclosing : ']' ∉ content) :
    round (String.ofList (front ++ (gap ++ '[' :: (content ++ ']' :: tail))))
        ⟨utf8Len front, sizes⟩ =
      some (if content = [] then .error .emptyBrackets
        else if '[' ∈ content then .error .nestedOpening
        else .ok ⟨utf8Len (front ++ (gap ++ '[' :: content)),
          sizes ++ [String.ofList (Text.trim content)]⟩) := by
  have hopening : ']' ∉ '[' :: content := by simpa using hclosing
  have hclose : offset? ']' (String.ofList ('[' :: (content ++ ']' :: tail))) =
      some (utf8Len content + 1) := by
    rw [← List.cons_append, offset?_append_cons hopening]
    rfl
  simp only [round, piece?_behind, offset?_append_cons hgap, piece?_behind_gap, hclose,
    Option.bind_eq_bind, Option.bind_some]
  by_cases hcontent : content = []
  · have hnear : utf8Len content + 1 + (utf8Len gap + utf8Len front) <
        utf8Len gap + utf8Len front + 2 := by
      rw [String.utf8Len_eq_zero.2 hcontent]
      omega
    rw [if_pos hnear, if_pos hcontent]
  · have hfar : ¬ utf8Len content + 1 + (utf8Len gap + utf8Len front) <
        utf8Len gap + utf8Len front + 2 := by
      have hbytes : utf8Len content ≠ 0 := mt String.utf8Len_eq_zero.1 hcontent
      omega
    have hclosed : utf8Len (front ++ (gap ++ '[' :: content)) =
        utf8Len content + 1 + (utf8Len gap + utf8Len front) := by
      have hbracket : '['.utf8Size = 1 := by decide
      rw [String.utf8Len_append, String.utf8Len_append, String.utf8Len_cons, hbracket]
      omega
    rw [if_neg hfar, if_neg hcontent, piece?_content, Option.bind_some,
      String.toList_ofList, hclosed]
    split <;> rfl

theorem notMem_of_dropWhile_ne (hnone : text.dropWhile (· != c) = []) : c ∉ text := by
  intro hmem
  simpa using List.dropWhile_eq_nil_iff.1 hnone c hmem

theorem round_of_group {behind : List Char} (front : List Char) (sizes : List String)
    (hgroup : bracketGroup text = .ok (content, behind)) :
    ∃ lead, text = lead ++ behind ∧ behind.head? = some ']' ∧ lead ≠ [] ∧
      round (String.ofList (front ++ text)) ⟨utf8Len front, sizes⟩ =
        some (.ok ⟨utf8Len (front ++ lead),
          sizes ++ [String.ofList (Text.trim content)]⟩) := by
  obtain ⟨gap, tail, rfl, rfl, hgap, hcontent, hopening, hclosing⟩ :=
    bracketGroup_eq_ok_iff.1 hgroup
  refine ⟨gap ++ '[' :: content, by simp, rfl, by simp, ?_⟩
  rw [round_of_closing hgap hclosing, if_neg hcontent, if_neg hopening]

theorem round_of_fault {fault : ModifierFault} (front : List Char) (sizes : List String)
    (hgroup : bracketGroup text = .error fault) :
    round (String.ofList (front ++ text)) ⟨utf8Len front, sizes⟩ =
      some (.error fault) := by
  unfold bracketGroup at hgroup
  split at hgroup
  · next hnone =>
      obtain rfl := Except.error.inj hgroup
      refine round_of_noOpening ?_
      exact notMem_of_dropWhile_ne hnone
  · next d inner hopening =>
      obtain ⟨rfl, htext⟩ := eq_append_of_dropWhile_ne hopening
      have hgap := notMem_takeWhile_ne '[' text
      rw [htext]
      split at hgroup
      · next hnone =>
          obtain rfl := Except.error.inj hgroup
          refine round_of_noClosing hgap ?_
          exact notMem_of_dropWhile_ne hnone
      · next hclosing =>
          obtain ⟨e, tail, hbehind⟩ := List.exists_cons_of_ne_nil hclosing
          obtain ⟨rfl, hinner⟩ := eq_append_of_dropWhile_ne hbehind
          rw [hinner, round_of_closing hgap (notMem_takeWhile_ne ']' inner)]
          dsimp only at hgroup
          split at hgroup
          · next hempty =>
              obtain rfl := Except.error.inj hgroup
              rw [if_pos (List.isEmpty_iff.1 hempty)]
          next hempty =>
          split at hgroup
          · next hnested =>
              obtain rfl := Except.error.inj hgroup
              rw [if_neg (mt List.isEmpty_iff.2 hempty), if_pos (by simpa using hnested)]
          · cases hgroup

/-! ## The rounds of a search -/

/-- After some rounds the search stands on the first bracket of `ahead`.  Each round was
about a closing bracket of its own, and with the sizes that are there to be found ahead
the search has all sizes of the text. -/
structure Stands (text : List Char) (n : Nat) (here : Cursor) (front ahead : List Char) :
    Prop where
  text_eq : text = front ++ ahead
  head_eq : ahead.head? = some '[' ∨ ahead.head? = some ']'
  stop_eq : here.stop = utf8Len front
  le_count : n ≤ (front ++ ahead.take 1).count ']'
  sizes_eq : bracketSizes text = (bracketSizes ahead).map (here.sizes ++ ·)

namespace Stands

variable {ahead : List Char} {n : Nat} {here : Cursor}

theorem start (rest : List Char) : Stands ('[' :: rest) 0 ⟨0, []⟩ [] ('[' :: rest) where
  text_eq := rfl
  head_eq := Or.inl rfl
  stop_eq := rfl
  le_count := Nat.zero_le _
  sizes_eq := by cases bracketSizes ('[' :: rest) <;> rfl

theorem size_eq (hstands : Stands text n here front ahead) :
    (String.ofList text).utf8ByteSize = here.stop + 1 + utf8Len ahead.tail := by
  have hahead : utf8Len ahead = utf8Len ahead.tail + 1 := by
    rcases hstands.head_eq with hhead | hhead <;>
    · obtain ⟨tail, rfl⟩ := List.head?_eq_some_iff.1 hhead
      rfl
  rw [String.utf8ByteSize_ofList, hstands.text_eq, String.utf8Len_append, hahead,
    hstands.stop_eq]
  omega

theorem stop_lt (hstands : Stands text n here front ahead) :
    here.stop < (String.ofList text).utf8ByteSize := by
  rw [hstands.size_eq]
  omega

theorem isValid (hstands : Stands text n here front ahead) :
    String.Pos.Raw.IsValid (String.ofList text) ⟨here.stop⟩ := by
  rw [hstands.text_eq, hstands.stop_eq, String.Pos.Raw.isValid_iff_exists_append]
  exact ⟨String.ofList front, String.ofList ahead, String.ofList_append,
    (String.rawEndPos_ofList front).symm⟩

theorem le_count_text (hstands : Stands text n here front ahead) :
    n ≤ text.count ']' := by
  have hsub : List.Sublist (front ++ ahead.take 1) text := by
    rw [hstands.text_eq]
    exact List.Sublist.append_left (List.take_sublist 1 ahead) front
  exact hstands.le_count.trans (hsub.count_le ']')

/-- The search stands on the last byte exactly if nothing follows its bracket. -/
theorem last_iff (hstands : Stands text n here front ahead) :
    here.stop + 1 = (String.ofList text).utf8ByteSize ↔ ahead.length = 1 := by
  have hne : ahead ≠ [] := by
    rintro rfl
    simpa using hstands.head_eq
  have hlength := List.length_pos_iff.2 hne
  have hbytes : utf8Len ahead.tail = 0 ↔ ahead.tail.length = 0 := by
    rw [String.utf8Len_eq_zero, List.length_eq_zero_iff]
  rw [hstands.size_eq]
  rw [List.length_tail] at hbytes
  omega

/-- A round ends with the fault of the whole search or gets further. -/
theorem fails_or_advances (hstands : Stands text n here front ahead)
    (hlast : here.stop + 1 ≠ (String.ofList text).utf8ByteSize) :
    (∃ fault, round (String.ofList text) here = some (.error fault) ∧
      bracketSizes text = .error fault) ∨
    ∃ there lead behind, round (String.ofList text) here = some (.ok there) ∧
      here.stop < there.stop ∧ behind.length < ahead.length ∧
        Stands text (n + 1) there (front ++ lead) behind := by
  have hlong : ahead.length ≠ 1 := mt hstands.last_iff.2 hlast
  obtain ⟨stop, sizes⟩ := here
  obtain rfl : stop = utf8Len front := hstands.stop_eq
  cases hgroup : bracketGroup ahead with
  | error fault =>
      have hround := round_of_fault front sizes hgroup
      have hsizes := hstands.sizes_eq
      rw [← hstands.text_eq] at hround
      rw [bracketSizes_of_fault hlong hgroup] at hsizes
      exact Or.inl ⟨fault, hround, hsizes⟩
  | ok found =>
      obtain ⟨content, behind⟩ := found
      have hlength := length_lt_of_bracketGroup hgroup
      obtain ⟨lead, rfl, hhead, hne, hround⟩ :=
        round_of_group front sizes hgroup
      have htext : text = (front ++ lead) ++ behind := by
        rw [List.append_assoc, ← hstands.text_eq]
      rw [← hstands.text_eq] at hround
      refine Or.inr ⟨_, lead, behind, hround, ?_, hlength, htext, Or.inr hhead, rfl, ?_, ?_⟩
      · have hbytes : utf8Len lead ≠ 0 := mt String.utf8Len_eq_zero.1 hne
        change utf8Len front < utf8Len (front ++ lead)
        rw [String.utf8Len_append]
        omega
      · obtain ⟨tail, rfl⟩ := List.head?_eq_some_iff.1 hhead
        obtain ⟨d, lead, rfl⟩ := List.exists_cons_of_ne_nil hne
        -- The round went past the bracket that the search stood on to a closing one.
        have hfirst : List.Sublist (front ++ [d]) (front ++ d :: lead) :=
          List.Sublist.append_left (List.sublist_append_left [d] lead) front
        calc n + 1 ≤ (front ++ [d]).count ']' + 1 := Nat.succ_le_succ hstands.le_count
          _ ≤ (front ++ d :: lead).count ']' + 1 := Nat.succ_le_succ (hfirst.count_le ']')
          _ = ((front ++ d :: lead) ++ [']']).count ']' := by
            simp only [List.count_append, List.count_singleton_self]
      · rw [hstands.sizes_eq, bracketSizes_of_group hlong hgroup]
        cases bracketSizes behind <;> simp [Except.map]

end Stands

/-- Every round is about a closing bracket of its own, but for one that ends the search
with a fault. -/
theorem Rounds.stands {n : Nat} {after : Except ModifierFault Cursor}
    (hrounds : Rounds (String.ofList ('[' :: rest)) n after) :
    n ≤ ('[' :: rest).count ']' + 1 ∧
      ∀ here, after = .ok here →
        ∃ front ahead, Stands ('[' :: rest) n here front ahead := by
  induction hrounds with
  | start =>
      refine ⟨Nat.zero_le _, fun here hhere => ?_⟩
      obtain rfl := Except.ok.inj hhere
      exact ⟨[], '[' :: rest, .start rest⟩
  | next _ hlast hround ih =>
      obtain ⟨front, ahead, hstands⟩ := ih.2 _ rfl
      refine ⟨Nat.succ_le_succ hstands.le_count_text, ?_⟩
      rintro there rfl
      rcases hstands.fails_or_advances hlast with
        ⟨fault, hfault, -⟩ | ⟨reached, lead, behind, hreached, -, -, hnext⟩
      · rw [hround] at hfault
        cases hfault
      · obtain rfl := Except.ok.inj (Option.some.inj (hround.symm.trans hreached))
        exact ⟨front ++ lead, behind, hnext⟩

/-- A search ends with an outcome: it stands on the last byte with the sizes, or a round
ends with the fault. -/
def Searched (text : String) : Except ModifierFault (List String) → Prop
  | .ok sizes => ∃ n last, Rounds text n (.ok last) ∧
      last.stop + 1 = text.utf8ByteSize ∧ last.sizes = sizes
  | .error fault => ∃ n, Rounds text n (.error fault)

theorem Stands.searched {ahead : List Char} {n : Nat} {here : Cursor}
    (hstands : Stands text n here front ahead)
    (hrounds : Rounds (String.ofList text) n (.ok here)) :
    Searched (String.ofList text) (bracketSizes text) := by
  induction hlength : ahead.length using Nat.strong_induction_on
    generalizing front ahead n here with
  | _ length ih =>
      subst hlength
      by_cases hlast : here.stop + 1 = (String.ofList text).utf8ByteSize
      · obtain ⟨c, rfl⟩ := List.length_eq_one_iff.1 (hstands.last_iff.1 hlast)
        have hsizes := hstands.sizes_eq
        rw [bracketSizes_singleton] at hsizes
        rw [hsizes]
        exact ⟨n, here, hrounds, hlast, (List.append_nil here.sizes).symm⟩
      · rcases hstands.fails_or_advances hlast with
          ⟨fault, hfault, hsizes⟩ | ⟨there, lead, behind, hthere, -, hshort, hnext⟩
        · rw [hsizes]
          exact ⟨n + 1, hrounds.next hlast hfault⟩
        · exact ih behind.length hshort hnext (hrounds.next hlast hthere) rfl

/-- In a text that begins with a bracket there is at most one round more than closing
brackets, and none more unless the last one ends with a fault.  As long as none does, the
search stands at the boundary of a character in front of the end.  Unless it stands on the
last byte, every piece that the next round needs can be cut out, and the round ends with a
fault or gets further.  So the search ends, with the array sizes or the fault that the
text is read with. -/
theorem search_ends (rest : List Char) :
    (∀ n after, Rounds (String.ofList ('[' :: rest)) n after →
      n ≤ ('[' :: rest).count ']' + 1) ∧
    (∀ n here, Rounds (String.ofList ('[' :: rest)) n (.ok here) →
      here.stop < (String.ofList ('[' :: rest)).utf8ByteSize ∧
      String.Pos.Raw.IsValid (String.ofList ('[' :: rest)) ⟨here.stop⟩ ∧
      n ≤ ('[' :: rest).count ']' ∧
      (here.stop + 1 ≠ (String.ofList ('[' :: rest)).utf8ByteSize →
        (∃ fault, round (String.ofList ('[' :: rest)) here = some (.error fault)) ∨
        ∃ there, round (String.ofList ('[' :: rest)) here = some (.ok there) ∧
          here.stop < there.stop)) ∧
    ∃ outcome, Searched (String.ofList ('[' :: rest)) outcome ∧
      modifiersOf ('[' :: rest) = outcome.map fun sizes => ⟨sizes, none⟩ := by
  refine ⟨fun n after hrounds => hrounds.stands.1, ?_, ?_⟩
  · intro n here hrounds
    obtain ⟨front, ahead, hstands⟩ := hrounds.stands.2 here rfl
    refine ⟨hstands.stop_lt, hstands.isValid, hstands.le_count_text, fun hlast => ?_⟩
    rcases hstands.fails_or_advances hlast with
      ⟨fault, hfault, -⟩ | ⟨there, -, -, hthere, hfurther, -, -⟩
    · exact Or.inl ⟨fault, hfault⟩
    · exact Or.inr ⟨there, hthere, hfurther⟩
  · exact ⟨bracketSizes ('[' :: rest), (Stands.start rest).searched .start, rfl⟩

/-- The round that looks for a closing bracket in vain is one more than there are closing
brackets. -/
theorem rounds_unclosed :
    Rounds (String.ofList ['[', 'a']) 1 (.error .noClosing) ∧
      ¬ 1 ≤ ['[', 'a'].count ']' := by
  constructor
  · refine .next .start (by decide) ?_
    change round (String.ofList ([] ++ ([] ++ '[' :: ['a']))) ⟨utf8Len [], []⟩ = _
    exact round_of_noClosing (by simp) (by simp)
  · decide

end VideoRegistry.Brackets
