import VideoRegistry.Toml.Number

/-!
# Values without quotes

What is written without quotes is a truth value, a number or a date, told apart
by its first characters.  Dates are checked at once.  A number is only checked as
far as its form goes: an underscore parts two digits, and a decimal number has no
needless zero in front.
-/

namespace VideoRegistry.Toml

/-- Whether underscores part digits only.  In front of the first one there may
also be a single sign. -/
def partsDigits (isDigit : Char → Bool) (text : List Char) : Bool :=
  match text.splitOn '_' with
  | [] | [_] => true
  | first :: rest =>
      (first.length = 1 || first.getLast?.any isDigit) &&
        rest.all (fun part => part.head?.any isDigit) &&
        rest.dropLast.all fun part => part.getLast?.any isDigit

/-- A number as it is kept, without underscores. -/
def kept? (isDigit : Char → Bool) (value : List Char → Value)
    (text : List Char) : Option Value :=
  if partsDigits isDigit text then some (value (text.filter (· != '_'))) else none

/-- An integer whose base is written in front.  Whether there are any digits is not
asked yet. -/
def based? (base : Nat) (digits : List Char) : Option Value :=
  if digits.all fun c => c = '_' || isDigitOf base c then
    kept? isHexadecimal (.integer base) digits
  else none

def isDecimal (c : Char) : Bool :=
  c.isDigit || c = '_'

/-- What follows the digits in front of a text, of which there must be one. -/
def afterDigits? (text : List Char) : Option (List Char) :=
  if (text.takeWhile isDecimal).any Char.isDigit then
    some (text.dropWhile isDecimal)
  else none

/-- What follows a fraction, if there is one. -/
def afterFraction? (text : List Char) : Option (List Char) :=
  match text with
  | '.' :: rest => afterDigits? rest
  | _ => some text

/-- What follows an exponent, if there is one. -/
def afterExponent? (text : List Char) : Option (List Char) :=
  match text with
  | 'e' :: rest | 'E' :: rest => afterDigits? (signed rest).2
  | _ => some text

/-- Whether a text without a sign has the form of a decimal number with or
without a fraction and an exponent. -/
def isFloat (magnitude : List Char) : Bool :=
  let whole := magnitude.takeWhile isDecimal
  (magnitude.head? != some '0' || (whole.filter Char.isDigit).length = 1) &&
    ((afterDigits? magnitude).bind afterFraction?).bind afterExponent? = some []

/-- A number of exactly so many digits. -/
def fixed? (count : Nat) (text : List Char) : Option Nat :=
  if text.length = count && text.all Char.isDigit then some (valueOf 10 text)
  else none

def daysOf (year month : Nat) : Nat :=
  if month = 2 then
    if year % 4 = 0 && (year % 100 != 0 || year % 400 = 0) then 29 else 28
  else if month = 4 || month = 6 || month = 9 || month = 11 then 30
  else 31

def isDay (text : List Char) : Bool :=
  match text.splitOn '-' with
  | [year, month, day] =>
      match fixed? 4 year, fixed? 2 month, fixed? 2 day with
      | some year, some month, some day =>
          1 ≤ month && month ≤ 12 && 1 ≤ day && day ≤ daysOf year month
      | _, _, _ => false
  | _ => false

def isBelow (limit : Nat) (text : List Char) : Bool :=
  (fixed? 2 text).any fun value => value < limit

/-- A second may be a leap second and may have a fraction. -/
def isSecond (text : List Char) : Bool :=
  let (second, fraction) := parted (· = '.') text
  isBelow 61 second &&
    fraction.all fun digits => !digits.isEmpty && digits.all Char.isDigit

/-- A time of day; its seconds may be left out. -/
def isTime (text : List Char) : Bool :=
  match text.splitOn ':' with
  | [hour, minute] => isBelow 24 hour && isBelow 60 minute
  | [hour, minute, second] =>
      isBelow 24 hour && isBelow 60 minute && isSecond second
  | _ => false

def isOffset (text : List Char) : Bool :=
  match text.splitOn ':' with
  | [hour, minute] => isBelow 24 hour && isBelow 60 minute
  | _ => false

/-- A time of day with or without its distance from universal time. -/
def isZonedTime (text : List Char) : Bool :=
  if text.getLast?.any fun c => c = 'Z' || c = 'z' then isTime text.dropLast
  else
    match parted (fun c => c = '+' || c = '-') text with
    | (time, some offset) => isTime time && isOffset offset
    | (time, none) => isTime time

/-- A day, a time of day, or both. -/
def isDate (text : List Char) : Bool :=
  isDay text || isTime text ||
    (isDay (text.take 10) &&
      (text.drop 10).head?.any (fun c => c = 'T' || c = 't' || c = ' ') &&
      isZonedTime (text.drop 11))

/-- A decimal number or a date, as the first character after the digits tells. -/
def decimalOrDate? (text : List Char) : Option Value :=
  let magnitude := (signed text).2
  let integer := kept? isHexadecimal (.integer 10) text
  match magnitude.dropWhile Char.isDigit with
  | [] =>
      if magnitude = ['0'] || magnitude.head?.any (· != '0') then integer else none
  | mark :: rest =>
      if mark = '-' || mark = ':' then
        if isDate text then some (.date text) else none
      else if (mark :: rest).any fun c => c = '.' || c = 'e' || c = 'E' then
        if isFloat magnitude then kept? Char.isDigit .float text else none
      else if mark = '_' && magnitude.head? != some '0' then integer
      else none

/-- The value that a text without quotes stands for. -/
def scalar? (text : List Char) : Option Value :=
  match text with
  | ['t', 'r', 'u', 'e'] => some (.boolean true)
  | ['f', 'a', 'l', 's', 'e'] => some (.boolean false)
  | '0' :: 'x' :: digits => based? 16 digits
  | '0' :: 'o' :: digits => based? 8 digits
  | '0' :: 'b' :: digits => based? 2 digits
  | _ => if isNamed (signed text).2 then some (.float text) else decimalOrDate? text

end VideoRegistry.Toml
