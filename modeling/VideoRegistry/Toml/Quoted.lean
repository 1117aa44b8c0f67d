import VideoRegistry.Text.Pieces
import VideoRegistry.Toml.Number

/-!
# Quoted texts

Texts between double quotes know escapes, those between single quotes do not.
Three quotes enclose a text of several lines; its first line break does not
count, and a backslash at the end of a line swallows all blanks that follow.
-/

namespace VideoRegistry.Toml

/-- No control character but the tab. -/
def isPlain (c : Char) : Bool :=
  c = '\t' || (0x20 ≤ c.toNat && c.toNat != 0x7F)

def isGap (c : Char) : Bool :=
  c = ' ' || c = '\t'

def skipGap (text : List Char) : List Char :=
  text.dropWhile isGap

/-- What follows a line break. -/
def afterBreak? (text : List Char) : Option (List Char) :=
  match text with
  | '\n' :: rest => some rest
  | '\r' :: '\n' :: rest => some rest
  | _ => none

/-- The character of a code point written in hexadecimal. -/
def escaped? (digits : List Char) : Option Char :=
  if digits.all isHexadecimal then
    let code := valueOf 16 digits
    if code.isValidChar then some (Char.ofNat code) else none
  else none

/-- The character that a backslash and a letter stand for. -/
def shortEscape? (c : Char) : Option Char :=
  match c with
  | 'b' => some '\x08'
  | 't' => some '\t'
  | 'n' => some '\n'
  | 'f' => some '\x0c'
  | 'r' => some '\r'
  | 'e' => some '\x1b'
  | '"' => some '"'
  | '\\' => some '\\'
  | _ => none

/-- Skips blanks and line breaks. -/
def skipLines (text : List Char) : List Char :=
  match text with
  | '\r' :: '\n' :: rest => skipLines rest
  | c :: rest => if isGap c || c = '\n' then skipLines rest else text
  | [] => []

theorem length_skipLines_le (text : List Char) :
    (skipLines text).length ≤ text.length := by
  fun_induction skipLines text with
  | case1 rest ih => simp only [List.length_cons]; omega
  | case2 c rest _ hskipped ih => simp only [List.length_cons]; omega
  | case3 => exact Nat.le_refl _
  | case4 => exact Nat.le_refl _

/-- The text that a body between double quotes stands for. -/
def unescape? (severalLines : Bool) (body : List Char) : Option (List Char) :=
  match body with
  | [] => some []
  | '\\' :: 'x' :: a :: b :: rest => do
      let c ← escaped? [a, b]
      return c :: (← unescape? severalLines rest)
  | '\\' :: 'u' :: a :: b :: c :: d :: rest => do
      let c ← escaped? [a, b, c, d]
      return c :: (← unescape? severalLines rest)
  | '\\' :: 'U' :: a :: b :: c :: d :: e :: f :: g :: h :: rest => do
      let c ← escaped? [a, b, c, d, e, f, g, h]
      return c :: (← unescape? severalLines rest)
  | '\\' :: rest =>
      if severalLines && (afterBreak? (skipGap rest)).isSome then
        unescape? severalLines (skipLines rest)
      else
        match rest with
        | letter :: rest => do
            let c ← shortEscape? letter
            return c :: (← unescape? severalLines rest)
        | [] => none
  | '\r' :: '\n' :: rest =>
      if severalLines then
        (unescape? severalLines rest).map ('\r' :: '\n' :: ·)
      else none
  | c :: rest =>
      if isPlain c || (severalLines && c = '\n') then
        (unescape? severalLines rest).map (c :: ·)
      else none
termination_by body.length
decreasing_by
  all_goals simp only [List.length_cons]
  all_goals first
    | omega
    | have hle := length_skipLines_le rest
      omega

/-- Whether a body between single quotes holds what it may hold. -/
def isVerbatim (severalLines : Bool) : List Char → Bool
  | [] => true
  | '\r' :: '\n' :: rest => severalLines && isVerbatim severalLines rest
  | c :: rest =>
      (isPlain c || (severalLines && c = '\n')) && isVerbatim severalLines rest

/-- The body up to a double quote that no backslash stands before. -/
def cutDouble? : List Char → Option (List Char × List Char)
  | [] => none
  | '"' :: rest => some ([], rest)
  | '\\' :: c :: rest => (cutDouble? rest).map fun (body, tail) =>
      ('\\' :: c :: body, tail)
  | c :: rest => (cutDouble? rest).map fun (body, tail) => (c :: body, tail)

/-- The body up to three quotes.  Of a longer run the last three close, as far
as two more belong to the body. -/
def cutTriple? (quote : Char) (escapes : Bool) :
    List Char → Option (List Char × List Char)
  | [] => none
  | c :: rest =>
      if escapes && c = '\\' then
        match rest with
        | [] => none
        | next :: rest => (cutTriple? quote escapes rest).map
            fun (body, tail) => (c :: next :: body, tail)
      else
        match Text.after? [quote, quote, quote] (c :: rest) with
        | none => (cutTriple? quote escapes rest).map fun (body, tail) =>
            (c :: body, tail)
        | some tail =>
            let extra := (tail.takeWhile (· = quote)).take 2
            some (extra, tail.drop extra.length)

/-- A body without a line break at its start. -/
def withoutFirstBreak (body : List Char) : List Char :=
  (afterBreak? body).getD body

/-- A text in quotes on one line, and what follows it. -/
def readLine? (text : List Char) : Option (List Char × List Char) :=
  match text with
  | '"' :: rest => do
      let (body, tail) ← cutDouble? rest
      return (← unescape? false body, tail)
  | '\'' :: rest => do
      let (body, tail) ← Text.cut? ['\''] rest
      if isVerbatim false body then return (body, tail) else none
  | _ => none

/-- A text in quotes, and what follows it. -/
def readQuoted? (text : List Char) : Option (List Char × List Char) :=
  match Text.after? ['"', '"', '"'] text, Text.after? ['\'', '\'', '\''] text with
  | some rest, _ => do
      let (body, tail) ← cutTriple? '"' true rest
      return (← unescape? true (withoutFirstBreak body), tail)
  | none, some rest => do
      let (body, tail) ← cutTriple? '\'' false rest
      let body := withoutFirstBreak body
      if isVerbatim true body then return (body, tail) else none
  | none, none => readLine? text

end VideoRegistry.Toml
