import VideoRegistry.Text.Pieces
import VideoRegistry.Xml.Alphabet

/-!
# Chunks of a document

A document is a run of texts and markup.  Cutting it into chunks needs no more
than the brackets, and the quotes inside tags; the chunks put together again are
the document, which is what their lines are counted in.
-/

namespace VideoRegistry.Xml

/-- A chunk, by what stands between its brackets. -/
inductive Chunk where
  | text (body : List Char)
  | verbatim (body : List Char)
  | comment (body : List Char)
  | instruction (body : List Char)
  | tag (body : List Char)
deriving DecidableEq, Repr

/-! The marks around comments, verbatim texts and instructions, as they stand
between the angle brackets. -/

def commentStart : List Char := ['!', '-', '-']
def commentEnd : List Char := ['-', '-', '>']
def verbatimStart : List Char := ['!', '[', 'C', 'D', 'A', 'T', 'A', '[']
def verbatimEnd : List Char := [']', ']', '>']
def instructionEnd : List Char := ['?', '>']

namespace Chunk

def body : Chunk → List Char
  | .text body => body
  | .verbatim body => body
  | .comment body => body
  | .instruction body => body
  | .tag body => body

/-- A chunk as it stands in the document. -/
def source : Chunk → List Char
  | .text body => body
  | .verbatim body => '<' :: verbatimStart ++ body ++ verbatimEnd
  | .comment body => '<' :: commentStart ++ body ++ commentEnd
  | .instruction body => '<' :: '?' :: body ++ instructionEnd
  | .tag body => '<' :: body ++ ['>']

end Chunk

/-- The quote that is open behind a character. -/
def quoteBehind (quote : Option Char) (c : Char) : Option Char :=
  match quote with
  | some opening => if c = opening then none else quote
  | none => if c = '"' || c = '\'' then some c else none

/-- The body of a tag, up to the first closing bracket outside quotes. -/
def cutTag? (quote : Option Char) : List Char → Option (List Char × List Char)
  | [] => none
  | c :: rest =>
      if quote.isNone && c = '>' then some ([], rest)
      else (cutTag? (quoteBehind quote c) rest).map fun (body, tail) =>
        (c :: body, tail)

/-- The chunk that begins with an opening bracket, and what follows it. -/
def cutMarkup? (text : List Char) : Option (Chunk × List Char) :=
  match Text.after? commentStart text with
  | some rest => (Text.cut? commentEnd rest).map fun (body, tail) =>
      (.comment body, tail)
  | none =>
  match Text.after? verbatimStart text with
  | some rest => (Text.cut? verbatimEnd rest).map fun (body, tail) =>
      (.verbatim body, tail)
  | none =>
  match text with
  | '?' :: rest => (Text.cut? instructionEnd rest).map fun (body, tail) =>
      (.instruction body, tail)
  | '!' :: _ => none
  | _ => (cutTag? none text).map fun (body, tail) => (.tag body, tail)

theorem eq_append_of_cutTag? {quote : Option Char} {text body rest : List Char}
    (hcut : cutTag? quote text = some (body, rest)) :
    text = body ++ '>' :: rest := by
  induction text generalizing quote body with
  | nil => simp [cutTag?] at hcut
  | cons c text ih =>
      rw [cutTag?] at hcut
      split at hcut
      · next hclosing =>
          obtain ⟨rfl, rfl⟩ := by simpa using hcut
          simp only [Bool.and_eq_true, decide_eq_true_eq] at hclosing
          simp [hclosing.2]
      · simp only [Option.map_eq_some_iff, Prod.mk.injEq, Prod.exists] at hcut
        obtain ⟨inner, tail, hinner, rfl, rfl⟩ := hcut
        simp [ih hinner]

/-- Nothing of the document is lost in a chunk of markup. -/
theorem source_append_of_cutMarkup? {text rest : List Char} {chunk : Chunk}
    (hcut : cutMarkup? text = some (chunk, rest)) :
    ∃ inner, chunk.source = '<' :: inner ∧ text = inner ++ rest := by
  unfold cutMarkup? at hcut
  split at hcut
  · next tail hlead =>
      rw [Text.after?_eq_some_iff] at hlead
      simp only [Option.map_eq_some_iff, Prod.mk.injEq, Prod.exists] at hcut
      obtain ⟨body, tail, hbody, rfl, rfl⟩ := hcut
      exact ⟨commentStart ++ body ++ commentEnd, rfl, by
        simp [hlead, Text.eq_append_of_cut? hbody]⟩
  split at hcut
  · next tail hlead =>
      rw [Text.after?_eq_some_iff] at hlead
      simp only [Option.map_eq_some_iff, Prod.mk.injEq, Prod.exists] at hcut
      obtain ⟨body, tail, hbody, rfl, rfl⟩ := hcut
      exact ⟨verbatimStart ++ body ++ verbatimEnd, rfl, by
        simp [hlead, Text.eq_append_of_cut? hbody]⟩
  split at hcut
  · simp only [Option.map_eq_some_iff, Prod.mk.injEq, Prod.exists] at hcut
    obtain ⟨body, tail, hbody, rfl, rfl⟩ := hcut
    exact ⟨'?' :: body ++ instructionEnd, rfl, by
      simp [Text.eq_append_of_cut? hbody]⟩
  · simp at hcut
  · simp only [Option.map_eq_some_iff, Prod.mk.injEq, Prod.exists] at hcut
    obtain ⟨body, tail, hbody, rfl, rfl⟩ := hcut
    exact ⟨body ++ ['>'], rfl, by simp [eq_append_of_cutTag? hbody]⟩

theorem length_le_of_cutMarkup? {text rest : List Char} {chunk : Chunk}
    (hcut : cutMarkup? text = some (chunk, rest)) :
    rest.length ≤ text.length := by
  obtain ⟨inner, _, rfl⟩ := source_append_of_cutMarkup? hcut
  simp

/-- Cuts a document into chunks. -/
def chunks? (document : List Char) : Option (List Chunk) :=
  match document with
  | [] => some []
  | c :: rest =>
      if c = '<' then
        match _hcut : cutMarkup? rest with
        | none => none
        | some (chunk, tail) => (chunks? tail).map (chunk :: ·)
      else
        (chunks? (rest.dropWhile (· != '<'))).map
          (.text (c :: rest.takeWhile (· != '<')) :: ·)
termination_by document.length
decreasing_by
  · exact Nat.lt_succ_of_le (length_le_of_cutMarkup? ‹_›)
  · have hle := (List.dropWhile_sublist (· != '<') (l := rest)).length_le
    simp only [List.length_cons]
    omega

/-- Chunks with the lines they begin on. -/
def numbered (line : Nat) : List Chunk → List (Nat × Chunk)
  | [] => []
  | chunk :: rest =>
      (line, chunk) :: numbered (line + chunk.body.count '\n') rest

end VideoRegistry.Xml
