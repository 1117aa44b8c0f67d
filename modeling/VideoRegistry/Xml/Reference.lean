import VideoRegistry.Xml.Alphabet

/-!
# Character data

References stand for one character each: by code point, or by one of the five
predefined names.  In a text, line ends become line feeds; in an attribute
value, white space becomes spaces.  Both rules concern written characters only,
not those that a reference stands for.
-/

namespace VideoRegistry.Xml

/-- A character of a text, as written or through a reference. -/
inductive Letter where
  | written (c : Char)
  | referenced (c : Char)
deriving DecidableEq, Repr

def isHexDigit (c : Char) : Bool :=
  c.isDigit || ('a' ≤ c && c ≤ 'f') || ('A' ≤ c && c ≤ 'F')

def digitValue (c : Char) : Nat :=
  if c.isDigit then c.toNat - '0'.toNat
  else if c.isUpper then c.toNat - 'A'.toNat + 10
  else c.toNat - 'a'.toNat + 10

def numberValue (base : Nat) (digits : List Char) : Nat :=
  digits.foldl (fun value digit => value * base + digitValue digit) 0

/-- The character of a code point of at most 32 bits.  What is no character is
replaced by U+FFFD. -/
def charOfCode? (code : Nat) : Option Char :=
  if code ≥ 0x100000000 then none
  else
    let c := if code.isValidChar then Char.ofNat code else '\uFFFD'
    if isAllowed c then some c else none

def predefined? (name : String) : Option Char :=
  match name with
  | "quot" => some '"'
  | "amp" => some '&'
  | "apos" => some '\''
  | "lt" => some '<'
  | "gt" => some '>'
  | _ => none

/-- The character that the body of a reference, between `&` and `;`, names. -/
def referenced? (body : List Char) : Option Char :=
  match body with
  | '#' :: 'x' :: digits =>
      if !digits.isEmpty && digits.all isHexDigit then
        charOfCode? (numberValue 16 digits)
      else none
  | '#' :: digits =>
      if !digits.isEmpty && digits.all Char.isDigit then
        charOfCode? (numberValue 10 digits)
      else none
  | name => predefined? (String.ofList name)

/-- The letters of some character data; every `&` must begin a reference. -/
def letters? (data : List Char) : Option (List Letter) :=
  match data with
  | [] => some []
  | '&' :: rest =>
      match _hend : rest.dropWhile (· != ';') with
      | [] => none
      | _ :: tail => do
          let c ← referenced? (rest.takeWhile (· != ';'))
          return .referenced c :: (← letters? tail)
  | c :: rest => do return .written c :: (← letters? rest)
termination_by data.length
decreasing_by
  · have hle := (List.dropWhile_sublist (· != ';') (l := rest)).length_le
    rw [‹rest.dropWhile _ = _›] at hle
    simp only [List.length_cons] at hle ⊢
    omega
  · simp

/-- Appends a written character to a text held last character first.  A carriage
return waits for its successor and then becomes a line feed, together with a
line feed that follows it; at the end it becomes a line feed at once. -/
def pushWritten (atEnd : Bool) (c : Char) (text : List Char) : List Char :=
  match text with
  | '\r' :: rest =>
      if atEnd && c = '\r' then '\n' :: '\n' :: rest
      else if c = '\n' then '\n' :: rest
      else c :: '\n' :: rest
  | _ => if atEnd && c = '\r' then '\n' :: text else c :: text

/-- Joins letters to a text held last character first.  What a reference stands
for is taken as it is, and so is the character written directly behind it. -/
def joinLetters (verbatim : Bool) (text : List Char) : List Letter → List Char
  | [] => text
  | .referenced c :: rest => joinLetters true (c :: text) rest
  | .written c :: rest =>
      if verbatim then joinLetters false (c :: text) rest
      else joinLetters false (pushWritten rest.isEmpty c text) rest

/-- The text of character data with references. -/
def readText? (data : List Char) : Option (List Char) :=
  (letters? data).map fun letters => (joinLetters false [] letters).reverse

/-- The text of character data in which `&` has no meaning. -/
def readVerbatim (data : List Char) : List Char :=
  (joinLetters false [] (data.map Letter.written)).reverse

/-- An attribute value: written white space becomes spaces, a line end of two
characters becomes one. -/
def joinValue : List Letter → List Char
  | [] => []
  | .referenced c :: rest => c :: joinValue rest
  | .written '\r' :: .written '\n' :: rest => ' ' :: joinValue rest
  | .written c :: rest => (if isSpace c then ' ' else c) :: joinValue rest

def readValue? (data : List Char) : Option (List Char) :=
  (letters? data).map joinValue

end VideoRegistry.Xml
