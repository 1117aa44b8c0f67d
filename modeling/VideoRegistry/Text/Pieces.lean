import VideoRegistry.Text.Blank

/-!
# Affixes and pieces of a text

Removing a known beginning or ending, and cutting a text at a separator.
Occurrences of a separator are taken from the left and never overlap.
-/

namespace VideoRegistry.Text

/-- What follows `lead` in a text that begins with it. -/
def after? : List Char → List Char → Option (List Char)
  | [], text => some text
  | _ :: _, [] => none
  | x :: lead, c :: text => if x = c then after? lead text else none

/-- What precedes `ending` in a text that ends with it. -/
def before? (ending text : List Char) : Option (List Char) :=
  (after? ending.reverse text.reverse).map List.reverse

/-- Removes `lead` from the front of a text that begins with it. -/
def stripLead (text lead : String) : String :=
  match after? lead.toList text.toList with
  | some rest => String.ofList rest
  | none => text

/-- Removes `ending` from the back of a text that ends with it. -/
def stripEnding (text ending : String) : String :=
  match before? ending.toList text.toList with
  | some rest => String.ofList rest
  | none => text

def beginsWith (text lead : String) : Bool :=
  (after? lead.toList text.toList).isSome

def endsWith (text ending : String) : Bool :=
  (before? ending.toList text.toList).isSome

theorem after?_eq_some_iff {lead text rest : List Char} :
    after? lead text = some rest ↔ text = lead ++ rest := by
  induction lead generalizing text with
  | nil => simp [after?, eq_comm]
  | cons x lead ih =>
      cases text with
      | nil => simp [after?]
      | cons c text =>
          by_cases hhead : x = c
          · simp [after?, hhead, ih]
          · simp [after?, hhead, Ne.symm hhead]

theorem before?_eq_some_iff {ending text rest : List Char} :
    before? ending text = some rest ↔ text = rest ++ ending := by
  simp only [before?, Option.map_eq_some_iff, after?_eq_some_iff]
  constructor
  · rintro ⟨reversed, htext, rfl⟩
    have hreverse := congrArg List.reverse htext
    simpa using hreverse
  · rintro rfl
    exact ⟨rest.reverse, by simp, by simp⟩

theorem beginsWith_iff {text lead : String} :
    beginsWith text lead ↔ ∃ rest, text = lead ++ rest := by
  rw [beginsWith, Option.isSome_iff_exists]
  simp only [after?_eq_some_iff]
  constructor
  · rintro ⟨rest, htext⟩
    refine ⟨String.ofList rest, String.toList_inj.1 ?_⟩
    rw [String.toList_append, String.toList_ofList, htext]
  · rintro ⟨rest, rfl⟩
    exact ⟨rest.toList, String.toList_append⟩

theorem endsWith_iff {text ending : String} :
    endsWith text ending ↔ ∃ rest, text = rest ++ ending := by
  rw [endsWith, Option.isSome_iff_exists]
  simp only [before?_eq_some_iff]
  constructor
  · rintro ⟨rest, htext⟩
    refine ⟨String.ofList rest, String.toList_inj.1 ?_⟩
    rw [String.toList_append, String.toList_ofList, htext]
  · rintro ⟨rest, rfl⟩
    exact ⟨rest.toList, String.toList_append⟩

theorem stripEnding_append (rest ending : String) :
    stripEnding (rest ++ ending) ending = rest := by
  have hbefore : before? ending.toList (rest ++ ending).toList = some rest.toList :=
    before?_eq_some_iff.2 String.toList_append
  simp only [stripEnding, hbefore, String.ofList_toList]

theorem stripLead_append (lead rest : String) :
    stripLead (lead ++ rest) lead = rest := by
  have hafter : after? lead.toList (lead ++ rest).toList = some rest.toList :=
    after?_eq_some_iff.2 String.toList_append
  simp only [stripLead, hafter, String.ofList_toList]

theorem stripLead_of_beginsWith_eq_false {text lead : String}
    (hbegins : beginsWith text lead = false) : stripLead text lead = text := by
  have hafter : after? lead.toList text.toList = none := by
    simpa [beginsWith] using hbegins
  rw [stripLead, hafter]

/-- Two texts are the same without a lead exactly if they are the same or one of
them, which does not begin with the lead, is the other one without it. -/
theorem stripLead_eq_stripLead_iff {text other lead : String} :
    stripLead text lead = stripLead other lead ↔
      text = other ∨
        (beginsWith text lead = false ∧ other = lead ++ text) ∨
          (beginsWith other lead = false ∧ text = lead ++ other) := by
  constructor
  · intro hstrip
    cases htext : beginsWith text lead <;> cases hother : beginsWith other lead
    · left
      rwa [stripLead_of_beginsWith_eq_false htext,
        stripLead_of_beginsWith_eq_false hother] at hstrip
    · obtain ⟨rest, rfl⟩ := beginsWith_iff.1 hother
      rw [stripLead_of_beginsWith_eq_false htext, stripLead_append] at hstrip
      exact Or.inr (Or.inl ⟨rfl, by rw [hstrip]⟩)
    · obtain ⟨rest, rfl⟩ := beginsWith_iff.1 htext
      rw [stripLead_of_beginsWith_eq_false hother, stripLead_append] at hstrip
      exact Or.inr (Or.inr ⟨rfl, by rw [hstrip]⟩)
    · obtain ⟨rest, rfl⟩ := beginsWith_iff.1 htext
      obtain ⟨rest', rfl⟩ := beginsWith_iff.1 hother
      rw [stripLead_append, stripLead_append] at hstrip
      exact Or.inl (by rw [hstrip])
  · rintro (rfl | ⟨htext, rfl⟩ | ⟨hother, rfl⟩)
    · rfl
    · rw [stripLead_append, stripLead_of_beginsWith_eq_false htext]
    · rw [stripLead_append, stripLead_of_beginsWith_eq_false hother]

theorem length_lt_of_after?_cons {x : Char} {lead text rest : List Char}
    (hafter : after? (x :: lead) text = some rest) :
    rest.length < text.length := by
  rw [after?_eq_some_iff] at hafter
  simp only [hafter, List.length_append, List.length_cons]
  omega

/-- The text before and behind the first occurrence of a mark. -/
def cut? (mark text : List Char) : Option (List Char × List Char) :=
  match after? mark text with
  | some rest => some ([], rest)
  | none =>
      match text with
      | [] => none
      | c :: rest => (cut? mark rest).map fun (body, tail) => (c :: body, tail)

theorem eq_append_of_cut? {mark text body rest : List Char}
    (hcut : cut? mark text = some (body, rest)) :
    text = body ++ mark ++ rest := by
  induction text generalizing body with
  | nil =>
      unfold cut? at hcut
      split at hcut
      · next hafter =>
          rw [after?_eq_some_iff] at hafter
          obtain ⟨rfl, rfl⟩ := by simpa using hcut
          simpa using hafter
      · simp at hcut
  | cons c text ih =>
      unfold cut? at hcut
      split at hcut
      · next hafter =>
          rw [after?_eq_some_iff] at hafter
          obtain ⟨rfl, rfl⟩ := by simpa using hcut
          simpa using hafter
      · simp only [Option.map_eq_some_iff, Prod.mk.injEq, Prod.exists] at hcut
        obtain ⟨inner, tail, hinner, rfl, rfl⟩ := hcut
        simp [ih hinner]

/-- Puts a character in front of the first of some pieces. -/
def consFirst (c : Char) : List (List Char) → List (List Char)
  | [] => [[c]]
  | piece :: pieces => (c :: piece) :: pieces

/-- The pieces of a text between the occurrences of a non-empty separator. -/
def piecesAt (x : Char) (separator : List Char) (text : List Char) :
    List (List Char) :=
  match text with
  | [] => [[]]
  | c :: rest =>
      match _hafter : after? (x :: separator) (c :: rest) with
      | some tail => [] :: piecesAt x separator tail
      | none => consFirst c (piecesAt x separator rest)
termination_by text.length
decreasing_by
  · exact length_lt_of_after?_cons ‹_›
  · simp

/-- The pieces of a text; the empty separator parts all its characters. -/
def pieces (separator text : List Char) : List (List Char) :=
  match separator with
  | [] => text.map fun c => [c]
  | x :: separator => piecesAt x separator text

/-- The pieces of a text, trimmed, without the empty ones. -/
def tokens (text separator : String) : List String :=
  (((pieces separator.toList text.toList).map trim).filter (· ≠ [])).map
    String.ofList

end VideoRegistry.Text
