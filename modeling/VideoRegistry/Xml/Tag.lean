import VideoRegistry.Xml.Alphabet

/-!
# Tags

The bodies of tags: names with an optional qualifier, and attributes with quoted
values.
-/

namespace VideoRegistry.Xml

/-- A name as written; without a qualifier, that part is empty. -/
structure QualifiedName where
  qualifier : List Char
  localName : List Char
deriving DecidableEq, Repr

/-- An attribute with its value as written. -/
structure RawAttribute where
  name : QualifiedName
  value : List Char
deriving DecidableEq, Repr

def beginsName (name : List Char) : Bool :=
  name.head?.any isNameStart

/-- The parts of a written name.  At most one colon parts them; each part begins
as a name, and only the qualifier may be empty. -/
def qualifiedName? (written : List Char) : Option QualifiedName :=
  match written.splitOn ':' with
  | [localName] => if beginsName localName then some ⟨[], localName⟩ else none
  | [qualifier, localName] =>
      if (qualifier.isEmpty || beginsName qualifier) && beginsName localName then
        some ⟨qualifier, localName⟩
      else none
  | _ => none

/-- The name a text begins with, and what follows it. -/
def readName? (text : List Char) : Option (QualifiedName × List Char) :=
  (qualifiedName? (text.takeWhile isNameChar)).map fun name =>
    (name, text.dropWhile isNameChar)

def skipSpaces (text : List Char) : List Char :=
  text.dropWhile isSpace

/-- A quoted value without opening brackets, and what follows it. -/
def readQuoted? (text : List Char) : Option (List Char × List Char) :=
  match text with
  | quote :: rest =>
      let value := rest.takeWhile (· != quote)
      if (quote = '"' || quote = '\'') &&
          value.all fun c => isAllowed c && c != '<' then
        match rest.dropWhile (· != quote) with
        | _ :: tail => some (value, tail)
        | [] => none
      else none
  | [] => none

/-- An attribute at the front of a text, and what follows it. -/
def readAttribute? (text : List Char) : Option (RawAttribute × List Char) :=
  match readName? text with
  | none => none
  | some (name, rest) =>
      match skipSpaces rest with
      | '=' :: rest => (readQuoted? (skipSpaces rest)).map fun (value, tail) =>
          (⟨name, value⟩, tail)
      | _ => none

theorem length_skipSpaces_le (text : List Char) :
    (skipSpaces text).length ≤ text.length :=
  (List.dropWhile_sublist _).length_le

theorem length_lt_of_readQuoted? {text value rest : List Char}
    (hquoted : readQuoted? text = some (value, rest)) :
    rest.length < text.length := by
  cases text with
  | nil => simp [readQuoted?] at hquoted
  | cons quote text =>
      simp only [readQuoted?] at hquoted
      have hle := (List.dropWhile_sublist (· != quote) (l := text)).length_le
      split at hquoted
      · split at hquoted
        · next hdrop =>
            rw [hdrop] at hle
            obtain ⟨_, rfl⟩ := by simpa using hquoted
            simp only [List.length_cons] at hle ⊢
            omega
        · simp at hquoted
      · simp at hquoted

theorem length_lt_of_readAttribute? {text rest : List Char}
    {attr : RawAttribute}
    (hattribute : readAttribute? text = some (attr, rest)) :
    rest.length < text.length := by
  unfold readAttribute? at hattribute
  split at hattribute
  · simp at hattribute
  · next name behind hname =>
      have hbehind : behind.length ≤ text.length := by
        simp only [readName?, Option.map_eq_some_iff, Prod.mk.injEq] at hname
        obtain ⟨_, _, _, rfl⟩ := hname
        exact (List.dropWhile_sublist _).length_le
      split at hattribute
      · next value hequals =>
          simp only [Option.map_eq_some_iff, Prod.mk.injEq, Prod.exists]
            at hattribute
          obtain ⟨written, tail, hquoted, _, rfl⟩ := hattribute
          have hquote := length_lt_of_readQuoted? hquoted
          have hvalue := length_skipSpaces_le value
          have hspaces := length_skipSpaces_le behind
          rw [hequals] at hspaces
          simp only [List.length_cons] at hspaces
          omega
      · simp at hattribute

/-- The attributes of an opening tag, and whether the tag also closes.  White
space stands before every attribute. -/
def readAttributes? (text : List Char) : Option (List RawAttribute × Bool) :=
  if skipSpaces text = [] then some ([], false)
  else if skipSpaces text = ['/'] then some ([], true)
  else if (skipSpaces text).length = text.length then none
  else
    match _hattribute : readAttribute? (skipSpaces text) with
    | none => none
    | some (attr, tail) =>
        (readAttributes? tail).map fun (attributes, closes) =>
          (attr :: attributes, closes)
termination_by text.length
decreasing_by
  have hattribute := length_lt_of_readAttribute? ‹_›
  have hspaces := length_skipSpaces_le text
  omega

inductive Tag where
  | opening (name : QualifiedName) (attributes : List RawAttribute)
      (closes : Bool)
  | closing (name : QualifiedName)
deriving DecidableEq, Repr

/-- The tag with the given body. -/
def readTag? (body : List Char) : Option Tag :=
  match body with
  | '/' :: rest =>
      match readName? rest with
      | some (name, tail) => if tail.all isSpace then some (.closing name) else none
      | none => none
  | _ =>
      match readName? body with
      | some (name, tail) =>
          (readAttributes? tail).map fun (attributes, closes) =>
            .opening name attributes closes
      | none => none

end VideoRegistry.Xml
