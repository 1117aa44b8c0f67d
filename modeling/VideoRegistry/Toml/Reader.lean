import VideoRegistry.Toml.Quoted
import VideoRegistry.Toml.Scalar

/-!
# Reading a settings file

A file is a run of lines with a header, a key and its value, or nothing; blanks
and a comment may end each of them.  Arrays and inline tables may run over
several lines and may end with a comma; a key does not run over several lines.
-/

namespace VideoRegistry.Toml

/-- Skips a comment, up to the end of its line. -/
def skipComment (text : List Char) : List Char :=
  match text with
  | '#' :: rest => rest.dropWhile isPlain
  | _ => text

/-- What follows the end of a line, before which there may be a comment. -/
def afterLine? (text : List Char) : Option (List Char) :=
  match skipComment (skipGap text) with
  | [] => some []
  | rest => afterBreak? rest

/-- Skips blanks, comments and line breaks. -/
def skipBlank (text : List Char) : List Char :=
  match afterLine? text with
  | some rest => if rest.length < text.length then skipBlank rest else rest
  | none => skipGap text
termination_by text.length

def isBare (c : Char) : Bool :=
  c.isAlphanum || c = '_' || c = '-'

/-- A part of a key, bare or quoted, and what follows it. -/
def readKeyPart? (text : List Char) : Option (String × List Char) :=
  let bare := text.takeWhile isBare
  if bare.isEmpty then
    (readLine? text).map fun (part, rest) => (String.ofList part, rest)
  else some (String.ofList bare, text.dropWhile isBare)

/-- The parts of a key, which dots join: all but the last one, the last one, and
what follows. -/
def readKeyParts? (text : List Char) :
    Option (List String × String × List Char) :=
  match readKeyPart? (skipGap text) with
  | none => none
  | some (part, rest) =>
      match skipGap rest with
      | '.' :: tail =>
          if tail.length < text.length then
            (readKeyParts? tail).map fun (path, key, rest) =>
              (part :: path, key, rest)
          else none
      | tail => some ([], part, tail)
termination_by text.length

/-- How deep arrays and inline tables may stand in each other, and how many parts
a key may have. -/
def deepest : Nat := 80

/-- A key of not too many parts: the path to its table, its last part, and what
follows. -/
def readKey? (text : List Char) : Option (List String × String × List Char) :=
  (readKeyParts? text).filter fun (path, _, _) => path.length < deepest

/-- Whether a value without quotes goes on with a character. -/
def continuesScalar (c : Char) : Bool :=
  !(isGap c || ['\n', '\r', '#', '=', ',', '[', ']', '{', '}'].contains c)

/-- A value without quotes, and what follows it.  A day may be parted from its
time by a space. -/
def readScalar? (text : List Char) : Option (Value × List Char) :=
  let first := text.takeWhile continuesScalar
  let rest := text.dropWhile continuesScalar
  match rest with
  | ' ' :: c :: _ =>
      if isDay first && c.isDigit then
        let time := (rest.drop 1).takeWhile continuesScalar
        (scalar? (first ++ ' ' :: time)).map fun value =>
          (value, (rest.drop 1).dropWhile continuesScalar)
      else (scalar? first).map fun value => (value, rest)
  | _ => (scalar? first).map fun value => (value, rest)

/-- A key of an inline table and the text at its value.  The equals sign may
stand on a line of its own. -/
def readAssigned? (text : List Char) :
    Option (List String × String × List Char) := do
  let (path, key, rest) ← readKey? text
  let tail ← Text.after? ['='] (skipBlank rest)
  return (path, key, skipBlank tail)

mutual

/-- A value that holds at most `depth` values in each other, and what follows
it. -/
def readValue? (depth : Nat) (text : List Char) : Option (Value × List Char) :=
  match text with
  | '[' :: rest =>
      match depth with
      | 0 => none
      | depth + 1 => (readItems? depth (skipBlank rest)).map
          fun (items, tail) => (.array items, tail)
  | '{' :: rest =>
      match depth with
      | 0 => none
      | depth + 1 => (readEntries? depth [] (skipBlank rest)).map
          fun (entries, tail) => (.table .inlined entries, tail)
  | '"' :: _ | '\'' :: _ =>
      (readQuoted? text).map fun (content, rest) =>
        (.text (String.ofList content), rest)
  | _ => readScalar? text
termination_by (depth, text.length, 0)

/-- The items of an array up to its closing bracket. -/
def readItems? (depth : Nat) (text : List Char) :
    Option (List Value × List Char) :=
  if text.head? = some ']' then some ([], text.drop 1)
  else
    match readValue? depth text with
    | none => none
    | some (value, rest) =>
        match skipBlank rest with
        | ']' :: tail => some ([value], tail)
        | ',' :: tail =>
            if (skipBlank tail).length < text.length then
              (readItems? depth (skipBlank tail)).map fun (items, tail) =>
                (value :: items, tail)
            else none
        | _ => none
termination_by (depth, text.length, 1)

/-- The entries of an inline table up to its closing brace, after the given
ones. -/
def readEntries? (depth : Nat) (entries : Table) (text : List Char) :
    Option (Table × List Char) :=
  if text.head? = some '}' then some (entries, text.drop 1)
  else
    match readAssigned? text with
    | none => none
    | some (path, key, start) =>
        if start.length < text.length then
          match readValue? depth start with
          | none => none
          | some (value, rest) =>
              match addValue path key value .inlined entries, skipBlank rest with
              | some entries, '}' :: tail => some (entries, tail)
              | some entries, ',' :: tail =>
                  if (skipBlank tail).length < text.length then
                    readEntries? depth entries (skipBlank tail)
                  else none
              | _, _ => none
        else none
termination_by (depth, text.length, 1)

end

/-- What has been read of a file: its table, and the path of the table that keys
are added to. -/
structure Progress where
  root : Table
  current : List String

/-- Reads one line that is not blank. -/
def readLineOf? (progress : Progress) (text : List Char) :
    Option (Progress × List Char) :=
  match text with
  | '[' :: '[' :: rest => do
      let (path, key, tail) ← readKey? rest
      let tail ← Text.after? [']', ']'] tail
      let root ← beginElement path key progress.root
      return (⟨root, path ++ [key]⟩, tail)
  | '[' :: rest => do
      let (path, key, tail) ← readKey? rest
      let tail ← Text.after? [']'] tail
      let root ← beginTable path key progress.root
      return (⟨root, path ++ [key]⟩, tail)
  | _ => do
      let (path, key, tail) ← readKey? text
      let tail ← Text.after? ['='] tail
      let (value, tail) ← readValue? deepest (skipGap tail)
      let root ← changeAt .passed (addValue path key value) .header progress.root
        progress.current
      return (⟨root, progress.current⟩, tail)

/-- Reads line after line. -/
def readLines? (progress : Progress) (text : List Char) : Option Table :=
  match skipBlank text with
  | [] => some progress.root
  | start =>
      match readLineOf? progress start with
      | none => none
      | some (progress, rest) =>
          match afterLine? rest with
          | none => none
          | some tail =>
              if tail.length < text.length then readLines? progress tail else none
termination_by text.length

/-- The table of a settings file; fails if the file is not well-formed. -/
def parse? (source : String) : Option Table :=
  match source.toList with
  | '\uFEFF' :: text => readLines? ⟨[], []⟩ text
  | text => readLines? ⟨[], []⟩ text

end VideoRegistry.Toml
