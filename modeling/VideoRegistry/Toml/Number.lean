import VideoRegistry.Toml.Value

/-!
# Numbers

A number is kept as it was written.  Whether there is a number that the text
stands for is a question of its own, asked only of values that are looked at: an
integer has digits of its base and at most 128 bits, and a fraction stays within
the range of the binary 64-bit format.
-/

namespace VideoRegistry.Toml

def isHexadecimal (c : Char) : Bool :=
  c.isDigit || ('a' ≤ c && c ≤ 'f') || ('A' ≤ c && c ≤ 'F')

def digitOf (c : Char) : Nat :=
  if c.isDigit then c.toNat - '0'.toNat
  else if c.isUpper then c.toNat - 'A'.toNat + 10
  else c.toNat - 'a'.toNat + 10

def valueOf (base : Nat) (digits : List Char) : Nat :=
  digits.foldl (fun value digit => value * base + digitOf digit) 0

def isDigitOf (base : Nat) (c : Char) : Bool :=
  isHexadecimal c && digitOf c < base

/-- A sign and what it stands in front of. -/
def signed (text : List Char) : Bool × List Char :=
  match text with
  | '-' :: rest => (true, rest)
  | '+' :: rest => (false, rest)
  | _ => (false, text)

/-- An integer within its range. -/
def ranged? (value : Int) : Option Int :=
  if -(Nat.pow 2 127 : Nat) ≤ value && value < (Nat.pow 2 128 : Nat) then some value
  else none

/-- The integer that digits of a base and a sign in front of them stand for. -/
def integer? (base : Nat) (written : List Char) : Option Int :=
  let (negative, digits) := signed written
  if digits.isEmpty || !digits.all (isDigitOf base) then none
  else
    let value : Int := valueOf base digits
    ranged? (if negative then -value else value)

/-- Whether a decimal number is too large for the binary 64-bit format: half a
unit or more beyond the largest one that is finite. -/
def overflows (whole fraction : List Char) (exponent : Int) : Bool :=
  let digits := (whole ++ fraction).dropWhile (· = '0')
  let lowest := exponent - fraction.length
  let size := lowest + digits.length
  if digits.isEmpty then false
  else if size > 309 then true
  else if size < 309 then false
  else
    let limit := Nat.pow 2 1024 - Nat.pow 2 970
    if lowest ≥ 0 then valueOf 10 digits * Nat.pow 10 lowest.toNat ≥ limit
    else valueOf 10 digits ≥ limit * Nat.pow 10 (-lowest).toNat

/-- The parts of a number around the first of some marks. -/
def parted (isMark : Char → Bool) (text : List Char) :
    List Char × Option (List Char) :=
  match text.dropWhile (!isMark ·) with
  | [] => (text, none)
  | _ :: rest => (text.takeWhile (!isMark ·), some rest)

/-- Infinity or the value that is not a number, by name. -/
def isNamed (magnitude : List Char) : Bool :=
  magnitude = ['i', 'n', 'f'] || magnitude = ['n', 'a', 'n']

/-- Whether a number with a fraction or an exponent is within its range. -/
def isInRange (written : List Char) : Bool :=
  let (_, magnitude) := signed written
  let (mantissa, power) := parted (fun c => c = 'e' || c = 'E') magnitude
  let (whole, fraction) := parted (· = '.') mantissa
  let (negative, digits) := signed (power.getD [])
  let exponent : Int := valueOf 10 digits
  isNamed magnitude ||
    !overflows whole (fraction.getD []) (if negative then -exponent else exponent)

mutual

/-- Whether every number in a value is one that its text stands for. -/
def Value.isSound : Value → Bool
  | .integer base written => (integer? base written).isSome
  | .float written => isInRange written
  | .array items => areSound items
  | .table _ entries => entriesSound entries
  | .tables items => tablesSound items
  | .text _ | .boolean _ | .date _ => true

def areSound : List Value → Bool
  | [] => true
  | value :: rest => value.isSound && areSound rest

def entriesSound : List (String × Value) → Bool
  | [] => true
  | (_, value) :: rest => value.isSound && entriesSound rest

def tablesSound : List (List (String × Value)) → Bool
  | [] => true
  | entries :: rest => entriesSound entries && tablesSound rest

end

end VideoRegistry.Toml
